import BTagent.Hunt.ConsoleState

namespace BTagent

namespace HuntPacksStore

open NoiseBaseline OrderedDict RuleHealth

variable {F : Type} {R : FloatOps F} {threshold : F} {runs rows : List RunLike} {key : RuleKey}
  {orgId packId ruleId : String} {collate : String → String → Bool} {now : ℤ}
  {catalog : List HuntPackCatalogEntry} {baseline : Option (NoiseBaseline F)}

def HuntRuleViewState.broken? : HuntRuleViewState → Option RuleState
  | .errored => some .errored
  | .overFiring => some .overFiring
  | .underFiring => some .underFiring
  | _ => none

def stateIn (packs : List (InstalledPack F)) (key : RuleKey) : Option RuleState := do
  let pack ← packs.find? fun pack => pack.packId = key.1
  let rule ← pack.rules.find? fun rule => rule.ruleId = key.2
  rule.state.broken?

section Groups

def bucket (packId : String) (runs : List RunLike) : List RunLike :=
  runs.filter fun run => run.packId = packId

theorem accumulate_bucket (vs : List RunLike) :
    vs.foldl (accumulate (fun _ _ => []) (fun bucket run => bucket ++ [run]) packId) none =
      if vs = [] then none else some vs := by
  induction vs using List.reverseRecOn with
  | nil => rfl
  | append_singleton vs run ih =>
      have hne : vs ++ [run] ≠ [] := by simp
      rw [List.foldl_append, ih, if_neg hne]
      by_cases hvs : vs = [] <;> simp [hvs, accumulate]

theorem sorted_bucket (h : runs.Pairwise fun a b => b.startedAt ≤ a.startedAt) :
    (bucket packId runs).mergeSort (fun a b => runTime b ≤ runTime a) = bucket packId runs := by
  apply List.mergeSort_of_pairwise
  refine (h.sublist List.filter_sublist).imp fun hle => decide_eq_true ?_
  exact Int.ediv_le_ediv (by decide) hle

theorem get?_groups (h : runs.Pairwise fun a b => b.startedAt ≤ a.startedAt) :
    (groupRunsByPack runs).get? packId =
      if bucket packId runs = [] then none else some (bucket packId runs) := by
  have hvalues : valuesFor packId (runs.map fun run => (run.packId, run)) =
      bucket packId runs := by
    simp [valuesFor, bucket, List.filter_map, Function.comp_def]
  rw [groupRunsByPack, get?_mapVal, get?_foldl_tally, get?_empty, hvalues, accumulate_bucket]
  split
  · rfl
  · rw [Option.map_some, sorted_bucket h]

end Groups

section Rules

-- The entries a pack's runs have of a rule.
def entries (ruleId : String) (runs : List RunLike) : List Observation :=
  runs.filterMap fun run => (statOf ruleId run).map fun entry => (run, entry)

theorem map_entries (runs : List RunLike) :
    (entries ruleId runs).map Prod.fst = observed ruleId runs := by
  induction runs with
  | nil => rfl
  | cons run runs ih =>
      rw [entries] at ih
      cases hstat : statOf ruleId run <;> simp [entries, observed, hstat, ih]

theorem statOf_entries : ∀ o ∈ entries ruleId runs, statOf ruleId o.1 = some o.2 := by
  intro o ho
  obtain ⟨run, -, hrun⟩ := List.mem_filterMap.mp ho
  obtain ⟨entry, hentry, rfl⟩ := Option.map_eq_some_iff.mp hrun
  exact hentry

theorem latest_entries :
    (observed ruleId runs).head?.bind (statOf ruleId) =
      (entries ruleId runs).head?.map Prod.snd := by
  rw [← map_entries, List.head?_map]
  cases hhead : (entries ruleId runs).head? with
  | none => rfl
  | some o => exact statOf_entries o (List.mem_of_head? hhead)

theorem hits_entries :
    ((observed ruleId runs).map (hitsIn ruleId)).sum = hits (entries ruleId runs) := by
  rw [← map_entries, List.map_map, hits]
  congr 1
  apply List.map_congr_left
  intro o ho
  rw [Function.comp_apply, hitsIn, statOf_entries o ho]
  rfl

theorem classifyRuleState_verdict (ruleId packId : String) (runs : List RunLike)
    (index : OrderedDict String (NoisyRule F)) :
    (classifyRuleState ruleId packId runs index).broken? =
      verdict (entries ruleId (completedRuns runs))
        ((index.get? (ruleText packId ruleId)).isSome = true) := by
  have herrs : Errs (entries ruleId (completedRuns runs)) ↔
      ((entries ruleId (completedRuns runs)).head?.map Prod.snd).any
        (fun stat => 0 < stat.errorsOf) = true := by
    rw [Errs]
    cases (entries ruleId (completedRuns runs)).head? <;> simp
  have hunder : Underfires (entries ruleId (completedRuns runs)) ↔
      UNDER_FIRING_MIN_RUNS ≤ (observed ruleId (completedRuns runs)).length ∧
        hits (entries ruleId (completedRuns runs)) = 0 := by
    rw [Underfires, hits_eq_zero, ← map_entries, List.length_map]
    rfl
  rw [classifyRuleState, verdict]
  simp only [latest_entries, hits_entries, herrs, hunder]
  split_ifs <;> rfl

theorem mem_ruleIds : ruleId ∈ ruleIds runs ↔ entries ruleId runs ≠ [] := by
  rw [ruleIds, List.mem_eraseDups, List.mem_flatMap, entries, Ne, List.filterMap_eq_nil_iff]
  simp only [← get?_isSome, statOf, Option.map_eq_none_iff, not_forall, Option.isSome_iff_ne_none,
    exists_prop]

theorem completedRuns_twice (runs : List RunLike) :
    completedRuns (completedRuns runs) = completedRuns runs := by
  simp only [completedRuns, List.filter_filter, Bool.and_self]

-- A row of a pack is about a rule its completed runs have, or about one that never ran.
theorem mem_rulesOf {packRuns : List RunLike} {rule : RuleStatus F}
    (h : rule ∈ rulesOf R collate packId packRuns baseline) :
    (rule.ruleId ∈ ruleIds (completedRuns packRuns) ∧ rule = ruleStatus R packId
      (completedRuns packRuns) (indexBaseline baseline) rule.ruleId) ∨
    (rule.ruleId ∉ ruleIds (completedRuns packRuns) ∧ rule.state = .neverRun) := by
  rw [rulesOf, (List.mergeSort_perm _ _).mem_iff, List.mem_append, List.mem_map] at h
  rcases h with ⟨id, hid, rfl⟩ | h
  · exact Or.inl ⟨hid, rfl⟩
  · obtain ⟨row, hrow, rfl⟩ := List.mem_map.mp h
    simp only [List.mem_filter, decide_eq_true_eq] at hrow
    exact Or.inr ⟨hrow.2.2, rfl⟩

theorem rule_state (packRuns : List RunLike) :
    ((rulesOf R collate packId packRuns baseline).find? fun rule => rule.ruleId = ruleId).bind
        (fun rule => rule.state.broken?) =
      if entries ruleId (completedRuns packRuns) = [] then none
      else verdict (entries ruleId (completedRuns packRuns))
        (((indexBaseline baseline).get? (ruleText packId ruleId)).isSome = true) := by
  split
  · next hnone =>
      rw [Option.bind_eq_none_iff]
      intro rule hrule
      have hid : rule.ruleId = ruleId := by simpa using List.find?_some hrule
      rcases mem_rulesOf (List.mem_of_find?_eq_some hrule) with ⟨hmem, -⟩ | ⟨-, hstate⟩
      · exact absurd hnone (mem_ruleIds.mp (hid ▸ hmem))
      · rw [hstate]
        rfl
  · next hsome =>
      have hid : ruleId ∈ ruleIds (completedRuns packRuns) := mem_ruleIds.mpr hsome
      have hmem : ruleStatus R packId (completedRuns packRuns) (indexBaseline baseline) ruleId ∈
          rulesOf R collate packId packRuns baseline := by
        rw [rulesOf, (List.mergeSort_perm _ _).mem_iff]
        exact List.mem_append_left _ (List.mem_map_of_mem hid)
      rw [find?_eq_some_of_unique hmem (decide_eq_true rfl), Option.bind_some]
      · have hverdict := classifyRuleState_verdict ruleId packId (completedRuns packRuns)
          (indexBaseline baseline)
        rwa [completedRuns_twice] at hverdict
      · intro rule hrule hrid
        have hid' : rule.ruleId = ruleId := of_decide_eq_true hrid
        rcases mem_rulesOf hrule with ⟨-, hrow⟩ | ⟨hnot, -⟩
        · rw [hrow, hid']
        · exact absurd (hid' ▸ hid) hnot

end Rules

section Packs

-- A pack on the screen has the organisation's runs of it, or it is of the catalog alone.
theorem mem_buildInstalledPacks {pack : InstalledPack F}
    (hsorted : runs.Pairwise fun a b => b.startedAt ≤ a.startedAt)
    (h : pack ∈ buildInstalledPacks R collate runs baseline catalog) :
    (bucket pack.packId runs ≠ [] ∧ pack = installedPack R collate baseline catalog pack.packId
      (bucket pack.packId runs)) ∨ (bucket pack.packId runs = [] ∧ pack.rules = []) := by
  rw [buildInstalledPacks, (List.mergeSort_perm _ _).mem_iff, List.mem_append, List.mem_map] at h
  rcases h with ⟨⟨packId, packRuns⟩, hentry, rfl⟩ | h
  · have hget := mem_entries_iff.mp hentry
    rw [get?_groups hsorted] at hget
    split at hget
    · cases hget
    · next hne =>
        cases hget
        exact Or.inl ⟨hne, rfl⟩
  · obtain ⟨entry, hentry, rfl⟩ := List.mem_map.mp h
    have hunrun := (List.mem_filter.mp hentry).2
    have hnone : (groupRunsByPack runs).get? entry.manifestPackId = none := by
      rw [← Option.not_isSome_iff_eq_none, get?_isSome]
      simpa using hunrun
    rw [get?_groups hsorted] at hnone
    split at hnone
    · next hbucket => exact Or.inr ⟨hbucket, rfl⟩
    · cases hnone

theorem stateIn_build (hsorted : runs.Pairwise fun a b => b.startedAt ≤ a.startedAt) :
    stateIn (buildInstalledPacks R collate runs baseline catalog) key =
      if entries key.2 (completedRuns (bucket key.1 runs)) = [] then none
      else verdict (entries key.2 (completedRuns (bucket key.1 runs)))
        (((indexBaseline baseline).get? (ruleText key.1 key.2)).isSome = true) := by
  by_cases hbucket : bucket key.1 runs = []
  · have hnone : entries key.2 (completedRuns (bucket key.1 runs)) = [] := by
      rw [hbucket]
      rfl
    rw [if_pos hnone]
    refine Option.bind_eq_none_iff.mpr fun pack hpack => ?_
    have hid : pack.packId = key.1 := by simpa using List.find?_some hpack
    have hmem := List.mem_of_find?_eq_some hpack
    rcases mem_buildInstalledPacks hsorted hmem with ⟨hne, -⟩ | ⟨-, hrules⟩
    · exact absurd (hid ▸ hbucket) hne
    · rw [hrules]
      rfl
  · have hmem : installedPack R collate baseline catalog key.1 (bucket key.1 runs) ∈
        buildInstalledPacks R collate runs baseline catalog := by
      rw [buildInstalledPacks, (List.mergeSort_perm _ _).mem_iff]
      refine List.mem_append_left _ (List.mem_map.mpr ⟨(key.1, bucket key.1 runs), ?_, rfl⟩)
      rw [mem_entries_iff, get?_groups hsorted, if_neg hbucket]
    rw [stateIn, find?_eq_some_of_unique hmem (decide_eq_true rfl)]
    · exact rule_state (bucket key.1 runs)
    · intro pack hpack hid
      have hid' : pack.packId = key.1 := of_decide_eq_true hid
      rcases mem_buildInstalledPacks hsorted hpack with ⟨-, hrow⟩ | ⟨hnone, -⟩
      · rw [hrow, hid']
      · exact absurd (hid' ▸ hnone) hbucket

end Packs

section Fetched

theorem listPackRuns_sorted :
    (listPackRuns rows orgId 1 RUN_PAGE_SIZE).Pairwise fun a b => b.startedAt ≤ a.startedAt := by
  rw [listPackRuns]
  exact (pairwise_newest.sublist (List.drop_sublist _ _)).sublist (List.take_sublist _ _)

theorem entries_bucket (runs : List RunLike) (key : RuleKey) :
    entries key.2 (completedRuns (bucket key.1 runs)) =
      NoiseBaseline.observed (completedRuns runs) key := by
  have hcomm : completedRuns (bucket key.1 runs) =
      (completedRuns runs).filter fun run => run.packId = key.1 := by
    rw [completedRuns, bucket, completedRuns, List.filter_filter, List.filter_filter]
    exact List.filter_congr fun run _ => Bool.and_comm _ _
  rw [observed_eq, hcomm, entries, List.filterMap_filter]
  apply List.filterMap_congr
  intro run _
  by_cases hpack : run.packId = key.1 <;> simp [witnessed, entryOf, statOf, hpack]

-- The index knows a rule when it has the text of one that over-fires.
def Indexed (R : FloatOps F) (threshold : F) (rows : List RunLike) (orgId : String)
    (key : RuleKey) : Prop :=
  ∃ key' : RuleKey, OverFires R threshold rows orgId key' ∧
    ruleText key'.1 key'.2 = ruleText key.1 key.2

theorem indexed_iff (rows' : List RunLike) :
    ((indexBaseline (some (noiseBaseline R rows rows' orgId (routeSettings threshold) now))).get?
      (ruleText key.1 key.2)).isSome = true ↔ Indexed R threshold rows orgId key := by
  have hupdate :
      indexBaseline (some (noiseBaseline R rows rows' orgId (routeSettings threshold) now)) =
        empty.update ((noiseBaseline R rows rows' orgId (routeSettings threshold) now).items.map
          fun r => (ruleText r.packId r.ruleId, r)) := by
    rw [indexBaseline, update, List.foldl_map]
    rfl
  rw [hupdate, get?_isSome, mem_keys_update, keys_empty]
  simp only [List.not_mem_nil, false_or, List.map_map, List.mem_map, Function.comp_apply]
  constructor
  · rintro ⟨r, hr, htext⟩
    exact ⟨r.key, mem_items.mp (List.mem_map_of_mem hr), htext⟩
  · rintro ⟨key', hover, htext⟩
    have hitem : key' ∈ (noiseBaseline R rows rows' orgId (routeSettings threshold) now).items.map
        NoisyRule.key := by
      rw [mem_items]
      exact hover
    obtain ⟨r, hr, rfl⟩ := List.mem_map.mp hitem
    exact ⟨r, hr, htext⟩

def storeState (R : FloatOps F) (threshold : F) (collate : String → String → Bool)
    (rows : List RunLike) (orgId : String) (now : ℤ) (catalog : List HuntPackCatalogEntry)
    (key : RuleKey) : Option RuleState :=
  stateIn (fetchedPacks R threshold collate rows orgId now catalog) key

def ShownOver (R : FloatOps F) (threshold : F) (rows : List RunLike) (orgId : String)
    (key : RuleKey) : Prop :=
  NoiseBaseline.observed (storeRuns rows orgId) key ≠ [] ∧ Indexed R threshold rows orgId key

theorem storeState_eq [Decidable (ShownOver R threshold rows orgId key)] :
    storeState R threshold collate rows orgId now catalog key =
      verdict (NoiseBaseline.observed (storeRuns rows orgId) key)
        (ShownOver R threshold rows orgId key) := by
  rw [storeState, fetchedPacks, stateIn_build listPackRuns_sorted, entries_bucket, ← storeRuns]
  split
  · next hnone =>
      have hover : ¬ ShownOver R threshold rows orgId key := fun h => h.1 hnone
      exact (verdict_nil hnone hover).symm
  · next hsome =>
      apply verdict_congr
      rw [indexed_iff, ShownOver, and_iff_right hsome]

end Fetched

end HuntPacksStore

namespace RuleHealth

open NoiseBaseline OrderedDict HuntPacksStore

variable {F : Type} {R : FloatOps F} {threshold : F} {rows : List RunLike} {key : RuleKey}
  {orgId : String} {collate : String → String → Bool} {now : ℤ}
  {catalog : List HuntPackCatalogEntry}

def consoleView (rows : List RunLike) (orgId : String) (key : RuleKey) : List Observation :=
  NoiseBaseline.observed (consoleRuns rows orgId) key

def storeView (rows : List RunLike) (orgId : String) (key : RuleKey) : List Observation :=
  NoiseBaseline.observed (storeRuns rows orgId) key

-- A row that is cut off is missed when the store shows one; of the others, the runs that only one of
-- the two windows has must not matter.
def ReadsTheSame (R : FloatOps F) (threshold : F) (rows : List RunLike) (orgId : String)
    (key : RuleKey) : Prop :=
  (CrowdedOut R threshold rows orgId key →
    ¬ Errs (storeView rows orgId key) ∧ ¬ ShownOver R threshold rows orgId key ∧
      ¬ Underfires (storeView rows orgId key)) ∧
  (¬ CrowdedOut R threshold rows orgId key →
    SameVerdict (OverFires R threshold rows orgId key) (ShownOver R threshold rows orgId key)
      (seenByBoth (consoleView rows orgId key) (storeView rows orgId key))
      (seenByOne (consoleView rows orgId key) (storeView rows orgId key)))

theorem views_nested : consoleView rows orgId key <+: storeView rows orgId key ∨
    storeView rows orgId key <+: consoleView rows orgId key := by
  rcases List.prefix_or_prefix_of_prefix (consoleRuns_first rows orgId)
    (storeRuns_first rows orgId) with h | h
  · exact Or.inl (observed_first h key)
  · exact Or.inr (observed_first h key)

theorem none_eq_verdict {obs : List Observation} {fires : Prop} [Decidable fires] :
    none = verdict obs fires ↔ ¬ Errs obs ∧ ¬ fires ∧ ¬ Underfires obs := by
  rw [verdict]
  split_ifs <;> simp_all

theorem same_state_iff :
    consoleState R threshold rows orgId key =
        storeState R threshold collate rows orgId now catalog key ↔
      ReadsTheSame R threshold rows orgId key := by
  classical
  rw [storeState_eq, ReadsTheSame]
  by_cases hcrowded : CrowdedOut R threshold rows orgId key
  · rw [consoleState_crowded hcrowded, none_eq_verdict]
    simp only [hcrowded, true_implies, not_true_eq_false, false_implies, and_true]
    rfl
  · rw [consoleState_eq hcrowded]
    simp only [hcrowded, false_implies, not_false_eq_true, true_implies, true_and]
    exact verdict_windows views_nested

section Flooded

def flooding : RunLike := { sweep 1 empty [] with packId := "other" }

def erring : RunLike := sweep 0 (empty.set "rule" ⟨some "Rule", some 0, some 1⟩) []

-- Fifty sweeps of another pack have come since the rule erred.
def flooded : List RunLike := List.replicate 50 flooding ++ [erring]

theorem of_mem_flooded {run : RunLike} (h : run ∈ flooded) : run = flooding ∨ run = erring := by
  rcases List.mem_append.mp h with h | h
  · exact Or.inl (List.eq_of_mem_replicate h)
  · exact Or.inr (List.mem_singleton.mp h)

theorem flooded_sorted : (flooded.mergeSort fun a b => b.startedAt ≤ a.startedAt) = flooded := by
  apply List.mergeSort_of_pairwise
  rw [flooded, List.pairwise_append]
  refine ⟨List.pairwise_replicate.mpr (Or.inr (by decide)), List.pairwise_singleton _ _, ?_⟩
  intro a ha b hb
  rw [List.eq_of_mem_replicate ha, List.mem_singleton.mp hb]
  decide

theorem flooded_console : consoleRuns flooded "org" = List.replicate 50 flooding := by
  have hfilter : (flooded.filter fun run => run.orgId = "org" ∧ ¬ incomplete run) = flooded := by
    rw [List.filter_eq_self]
    intro run hrun
    rcases of_mem_flooded hrun with rfl | rfl <;> rfl
  rw [consoleRuns, lookbackRows, hfilter, takeNewest, flooded_sorted]
  exact List.take_left' (List.length_replicate ..)

theorem flooded_store : storeRuns flooded "org" = flooded := by
  have hfilter : (flooded.filter fun run => run.orgId = "org") = flooded := by
    rw [List.filter_eq_self]
    intro run hrun
    rcases of_mem_flooded hrun with rfl | rfl <;> rfl
  have hpage : listPackRuns flooded "org" 1 RUN_PAGE_SIZE = flooded := by
    rw [listPackRuns, hfilter, flooded_sorted]
    exact List.take_of_length_le (by simp [flooded, RUN_PAGE_SIZE])
  rw [storeRuns, hpage, completedRuns, List.filter_eq_self]
  intro run hrun
  rcases of_mem_flooded hrun with rfl | rfl <;> rfl

theorem error_out_of_sight : ¬ ∀ (F : Type) (R : FloatOps F) (threshold : F)
    (collate : String → String → Bool) (rows : List RunLike) (orgId : String) (now : ℤ)
    (catalog : List HuntPackCatalogEntry) (key : RuleKey),
    consoleState R threshold rows orgId key =
      storeState R threshold collate rows orgId now catalog key := by
  classical
  intro h
  have hsame := h ℚ rational (4 / 5) (fun a b => a ≤ b) flooded "org" 0 [] ("pack", "rule")
  have hview : NoiseBaseline.observed (consoleRuns flooded "org") ("pack", "rule") = [] := by
    rw [flooded_console, observed_eq]
    exact List.filterMap_replicate_of_none rfl
  have hover : ¬ OverFires rational (4 / 5) flooded "org" ("pack", "rule") :=
    fun h => overfires_ne_nil h hview
  have hlisted : ¬ CrowdedOut rational (4 / 5) flooded "org" ("pack", "rule") := by
    rintro ⟨k, hk, -⟩
    rw [standing, verdict_nil hview hover] at hk
    cases hk
  have herrs : Errs (NoiseBaseline.observed (storeRuns flooded "org") ("pack", "rule")) := by
    rw [flooded_store, observed_eq, flooded, List.filterMap_append,
      List.filterMap_replicate_of_none rfl]
    exact ⟨_, rfl, by decide⟩
  rw [consoleState_eq hlisted, verdict_nil hview hover, storeState_eq, verdict,
    if_pos herrs] at hsame
  cases hsame

end Flooded

end RuleHealth

end BTagent
