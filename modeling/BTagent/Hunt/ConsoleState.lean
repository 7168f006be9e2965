import BTagent.Hunt.DirectionsDisjoint
import BTagent.Hunt.RuleHealth
import Mathlib.Data.List.Dedup

namespace BTagent

abbrev Observation := RunLike × RuleEntry

namespace RuleHealth

open NoiseBaseline OrderedDict

def BrokenRule.key {F : Type} (r : BrokenRule F) : RuleKey := (r.packId, r.ruleId)

variable {F : Type} {R : FloatOps F} {threshold : F} {runs rows : List RunLike} {key : RuleKey}
  {orgId : String} {seen older obs : List Observation}

def hits (obs : List Observation) : ℕ := (obs.map fun o => o.2.hitsOf).sum

def Quiet (obs : List Observation) : Prop := ∀ o ∈ obs, o.2.hitsOf = 0

-- The latest observation has errors.
def Errs (obs : List Observation) : Prop := ∃ o ∈ obs.head?, 0 < o.2.errorsOf

def Underfires (obs : List Observation) : Prop := UNDER_FIRING_MIN_RUNS ≤ obs.length ∧ Quiet obs

instance : DecidablePred Quiet := fun obs => inferInstanceAs (Decidable (∀ o ∈ obs, _ = _))

instance : DecidablePred Errs := fun obs => inferInstanceAs (Decidable (∃ o ∈ obs.head?, _ < _))

instance : DecidablePred Underfires := fun _ => inferInstanceAs (Decidable (_ ∧ _))

instance {minRuns : ℕ} : Decidable (Overfires R minRuns threshold obs) :=
  decidable_of_iff (minRuns ≤ obs.length ∧ (∃ o ∈ obs, hitIn o = true) ∧
    R.lt (R.div (obs.countP hitIn) obs.length) threshold = false)
    ⟨fun h => ⟨h.1, h.2.1, h.2.2⟩, fun h => ⟨h.enough, h.hit, h.rate⟩⟩

-- What newest-first observations say of a rule that is over-firing or not.
def verdict (obs : List Observation) (fires : Prop) [Decidable fires] : Option RuleState :=
  if Errs obs then some .errored
  else if fires then some .overFiring
  else if Underfires obs then some .underFiring
  else none

-- More observations, older than those seen, do not change whether the rule is under-firing.
def Steady (seen older : List Observation) : Prop :=
  Quiet seen →
    if UNDER_FIRING_MIN_RUNS ≤ seen.length then Quiet older
    else Quiet older → seen.length + older.length < UNDER_FIRING_MIN_RUNS

def SameVerdict (fires shown : Prop) (seen older : List Observation) : Prop :=
  Errs seen ∨ ((seen = [] → ¬ Errs older) ∧ (fires ↔ shown) ∧ (fires ∨ Steady seen older))

theorem verdict_nil {fires : Prop} [Decidable fires] (hobs : obs = []) (h : ¬ fires) :
    verdict obs fires = none := by
  subst hobs
  have herrs : ¬ Errs [] := by simp [Errs]
  have hfew : ¬ Underfires [] := fun h => absurd h.1 (by decide)
  rw [verdict, if_neg herrs, if_neg h, if_neg hfew]

theorem overfires_ne_nil {minRuns : ℕ} (h : Overfires R minRuns threshold obs) : obs ≠ [] := by
  obtain ⟨o, ho, -⟩ := h.hit
  exact List.ne_nil_of_mem ho

theorem verdict_congr {fires fires' : Prop} [Decidable fires] [Decidable fires']
    (h : fires ↔ fires') : verdict obs fires = verdict obs fires' := by
  simp only [verdict, h]

section Verdict
variable {fires shown : Prop} [Decidable fires] [Decidable shown]

theorem hits_eq_zero : hits obs = 0 ↔ Quiet obs := by
  induction obs with
  | nil => simp [hits, Quiet]
  | cons o obs ih =>
      rw [hits] at ih
      rw [hits, List.map_cons, List.sum_cons, Nat.add_eq_zero_iff, ih, Quiet, Quiet,
        List.forall_mem_cons]

theorem quiet_append : Quiet (seen ++ older) ↔ Quiet seen ∧ Quiet older :=
  List.forall_mem_append

theorem errs_append : Errs (seen ++ older) ↔ Errs seen ∨ (seen = [] ∧ Errs older) := by
  cases seen with
  | nil => simp [Errs]
  | cons o seen => simp [Errs]

theorem steady_iff : (Underfires seen ↔ Underfires (seen ++ older)) ↔ Steady seen older := by
  rw [Underfires, Underfires, Steady, quiet_append, List.length_append]
  by_cases hseen : Quiet seen
  · by_cases henough : UNDER_FIRING_MIN_RUNS ≤ seen.length
    · have hmore : UNDER_FIRING_MIN_RUNS ≤ seen.length + older.length := by omega
      simp [hseen, henough, hmore]
    · simp only [hseen, henough, false_and, false_iff, not_and, true_and, true_implies, if_false]
      exact ⟨fun h hquiet => not_le.mp fun hle => h hle hquiet,
        fun h hle hquiet => absurd (h hquiet) (not_lt.mpr hle)⟩
  · simp [hseen]

theorem verdict_append :
    verdict seen fires = verdict (seen ++ older) shown ↔ SameVerdict fires shown seen older := by
  rw [verdict, verdict, SameVerdict, ← steady_iff]
  by_cases hseen : Errs seen
  · simp [hseen, errs_append]
  by_cases holder : seen = [] ∧ Errs older
  · have hlonger : Errs (seen ++ older) := errs_append.mpr (Or.inr holder)
    rw [if_neg hseen, if_pos hlonger]
    constructor
    · intro h
      split_ifs at h <;> simp at h
    · rintro (herrs | ⟨hnone, -⟩)
      · exact absurd herrs hseen
      · exact absurd holder.2 (hnone holder.1)
  · have hlonger : ¬ Errs (seen ++ older) := by
      rw [errs_append]
      tauto
    have hnone : seen = [] → ¬ Errs older := fun hnil herrs => holder ⟨hnil, herrs⟩
    rw [if_neg hseen, if_neg hlonger, or_iff_right hseen, and_iff_right hnone]
    by_cases hover : fires <;> by_cases hshown : shown <;>
      by_cases hu : Underfires seen <;> by_cases hu' : Underfires (seen ++ older) <;>
        simp [hover, hshown, hu, hu']

theorem append_verdict :
    verdict (seen ++ older) fires = verdict seen shown ↔ SameVerdict fires shown seen older := by
  rw [eq_comm, verdict_append, SameVerdict, SameVerdict]
  tauto

end Verdict

section Aggregate

structure RuleAgg.Counts (agg : RuleAgg) (obs : List Observation) : Prop where
  observed : agg.observed = obs.length
  totalHits : agg.totalHits = hits obs
  latest : ∃ o, obs.head? = some o ∧ agg.lastErrors = o.2.errorsOf

theorem RuleAgg.counts_first (o : Observation) : ((RuleAgg.start key o).note o).Counts [o] :=
  ⟨rfl, by simp [RuleAgg.note, RuleAgg.start, hits], o, rfl, rfl⟩

theorem RuleAgg.Counts.note {agg : RuleAgg} (h : agg.Counts obs) (o : Observation) :
    (agg.note o).Counts (obs ++ [o]) := by
  obtain ⟨first, hfirst, herrors⟩ := h.latest
  refine ⟨by simp [RuleAgg.note, h.observed], by simp [RuleAgg.note, h.totalHits, hits], first, ?_,
    herrors⟩
  rw [List.head?_append, hfirst]
  rfl

theorem RuleAgg.Counts.verdict {agg : RuleAgg} (h : agg.Counts obs) (fires : Prop) [Decidable fires] :
    classifyRuleState agg.lastErrors fires agg.observed agg.totalHits =
      RuleHealth.verdict obs fires := by
  obtain ⟨first, hfirst, herrors⟩ := h.latest
  have herrs : Errs obs ↔ 0 < agg.lastErrors := by
    rw [herrors, Errs, hfirst]
    simp
  have hunder : Underfires obs ↔ UNDER_FIRING_MIN_RUNS ≤ agg.observed ∧ agg.totalHits = 0 := by
    rw [Underfires, h.observed, h.totalHits, hits_eq_zero]
  rw [classifyRuleState, RuleHealth.verdict]
  simp only [herrs, hunder, decide_eq_true_eq]

end Aggregate

section Windows

-- The entry a run has of a rule.
def entryOf (key : RuleKey) (run : RunLike) : Option RuleEntry :=
  if run.packId = key.1 then run.ruleStats.get? key.2 else none

def witnessed (key : RuleKey) (run : RunLike) : Option Observation :=
  (entryOf key run).map fun entry => (run, entry)

theorem valuesFor_observations (key : RuleKey) (run : RunLike) :
    valuesFor key (NoiseBaseline.observations run) = (witnessed key run).toList := by
  have hvalues : valuesFor key (observations run) =
      (run.ruleStats.entries.filter fun kv => (run.packId, kv.1) = key).map
        fun kv => (run, kv.2) := by
    simp [valuesFor, observations, List.filter_map, Function.comp_def]
  rw [hvalues, witnessed, entryOf]
  split
  · next hpack =>
      have hfilter : (run.ruleStats.entries.filter fun kv => (run.packId, kv.1) = key) =
          run.ruleStats.entries.filter fun kv => kv.1 = key.2 := by
        apply List.filter_congr
        intro kv _
        simp [Prod.ext_iff, hpack]
      have hentries : ((run.ruleStats.entries.filter fun kv => kv.1 = key.2).map (·.2)) =
          (run.ruleStats.get? key.2).toList := valuesFor_entries run.ruleStats key.2
      have hmap := congrArg (List.map fun entry => (run, entry)) hentries
      rw [List.map_map] at hmap
      rw [hfilter]
      exact hmap.trans (by cases run.ruleStats.get? key.2 <;> rfl)
  · next hpack =>
      have hnone : (run.ruleStats.entries.filter fun kv => (run.packId, kv.1) = key) = [] := by
        rw [List.filter_eq_nil_iff]
        intro kv _ hkey
        exact hpack (congrArg Prod.fst (of_decide_eq_true hkey))
      rw [hnone]
      rfl

theorem observed_eq (runs : List RunLike) (key : RuleKey) :
    observed runs key = runs.filterMap (witnessed key) := by
  induction runs with
  | nil => rfl
  | cons run runs ih =>
      have hcons : observed (run :: runs) key =
          valuesFor key (observations run) ++ observed runs key := by
        simp [observed, valuesFor]
      rw [hcons, valuesFor_observations, ih, List.filterMap_cons]
      cases witnessed key run <;> rfl

-- The completed runs of an organisation, newest first.
def completed (rows : List RunLike) (orgId : String) : List RunLike :=
  ((rows.filter fun run => run.orgId = orgId).mergeSort fun a b => b.startedAt ≤ a.startedAt).filter
    fun run => !incomplete run

def consoleRuns (rows : List RunLike) (orgId : String) : List RunLike :=
  lookbackRows orgId DEFAULT_LOOKBACK_RUNS rows

def storeRuns (rows : List RunLike) (orgId : String) : List RunLike :=
  HuntPacksStore.completedRuns
    (HuntPacksStore.listPackRuns rows orgId 1 HuntPacksStore.RUN_PAGE_SIZE)

theorem completedRuns_eq (runs : List RunLike) :
    HuntPacksStore.completedRuns runs = runs.filter fun run => !incomplete run := by
  apply List.filter_congr
  intro run _
  simp [incomplete, HuntPacksStore.INCOMPLETE_RUN_STATUSES, NoiseBaseline.INCOMPLETE_RUN_STATUSES]

theorem consoleRuns_first (rows : List RunLike) (orgId : String) :
    consoleRuns rows orgId <+: completed rows orgId := by
  have hfilter : (rows.filter fun run => run.orgId = orgId ∧ ¬ incomplete run) =
      (rows.filter fun run => run.orgId = orgId).filter fun run => !incomplete run := by
    rw [List.filter_filter]
    apply List.filter_congr
    intro run _
    simp [Bool.and_comm]
  rw [consoleRuns, lookbackRows, hfilter, takeNewest_filter]
  exact List.take_prefix _ _

theorem storeRuns_first (rows : List RunLike) (orgId : String) :
    storeRuns rows orgId <+: completed rows orgId := by
  rw [storeRuns, completedRuns_eq]
  exact (List.take_prefix _ _).filter _

theorem observed_first {runs runs' : List RunLike} (h : runs <+: runs') (key : RuleKey) :
    observed runs key <+: observed runs' key := by
  obtain ⟨rest, rfl⟩ := h
  rw [observed_eq, observed_eq, List.filterMap_append]
  exact List.prefix_append _ _

-- What both windows show of a rule, and what only the longer one shows.
def seenByBoth (xs ys : List Observation) : List Observation :=
  if xs.length ≤ ys.length then xs else ys

def seenByOne (xs ys : List Observation) : List Observation :=
  if xs.length ≤ ys.length then ys.drop xs.length else xs.drop ys.length

theorem verdict_windows {xs ys : List Observation} {fires shown : Prop} [Decidable fires]
    [Decidable shown] (h : xs <+: ys ∨ ys <+: xs) :
    verdict xs fires = verdict ys shown ↔
      SameVerdict fires shown (seenByBoth xs ys) (seenByOne xs ys) := by
  rw [seenByBoth, seenByOne]
  split
  · next hle =>
      have hprefix : xs <+: ys := by
        rcases h with h | h
        · exact h
        · rw [h.eq_of_length_le hle]
      obtain ⟨older, rfl⟩ := hprefix
      rw [List.drop_left]
      exact verdict_append
  · next hlt =>
      have hprefix : ys <+: xs := h.resolve_left fun h => hlt h.length_le
      obtain ⟨older, rfl⟩ := hprefix
      rw [List.drop_left]
      exact append_verdict

end Windows

section Console

-- Whether the console's rows make a rule over-firing.
abbrev OverFires (R : FloatOps F) (threshold : F) (rows : List RunLike) (orgId : String)
    (key : RuleKey) : Prop :=
  Overfires R 3 threshold (observed (consoleRuns rows orgId) key)

def standing (R : FloatOps F) (threshold : F) (rows : List RunLike) (orgId : String)
    (key : RuleKey) : Option SortKey :=
  (verdict (observed (consoleRuns rows orgId) key) (OverFires R threshold rows orgId key)).map
    fun state => sortKey state (hits (observed (consoleRuns rows orgId) key)) key

def consoleKeys (rows : List RunLike) (orgId : String) : List RuleKey :=
  (((consoleRuns rows orgId).flatMap observations).map Prod.fst).dedup

-- At least as many broken rules as are listed stand before this one.
def CrowdedOut (R : FloatOps F) (threshold : F) (rows : List RunLike) (orgId : String)
    (key : RuleKey) : Prop :=
  ∃ k ∈ standing R threshold rows orgId key, MAX_BROKEN_RULES ≤
    (consoleKeys rows orgId).countP fun key' =>
      (standing R threshold rows orgId key').any fun k' => k' < k

def consoleState (R : FloatOps F) (threshold : F) (rows : List RunLike) (orgId : String)
    (key : RuleKey) : Option RuleState :=
  ((ruleHealth R threshold rows orgId DEFAULT_LOOKBACK_RUNS).find? fun r => r.key = key).map
    BrokenRule.state

def overFiring (R : FloatOps F) (threshold : F) (rows : List RunLike) (orgId : String) :
    List RuleKey :=
  (computeNoiseBaseline R (consoleRuns rows orgId) 3 threshold).map NoisyRule.key

theorem mem_overFiring :
    key ∈ overFiring R threshold rows orgId ↔ OverFires R threshold rows orgId key := by
  rw [overFiring, mem_noisy, consoleRuns, admitted_lookback]
  rfl

def aggregated (runs : List RunLike) : OrderedDict RuleKey RuleAgg :=
  (runs.flatMap observations).foldl (tally RuleAgg.start RuleAgg.note) empty

theorem aggregated_counts {agg : RuleAgg} (h : (aggregated runs).get? key = some agg) :
    agg.Counts (observed runs key) :=
  tallied_invariant (P := fun obs (agg : RuleAgg) => agg.Counts obs) RuleAgg.counts_first
    (fun _ _ o hcounts => hcounts.note o) h

theorem mem_aggregated : key ∈ (aggregated runs).keys ↔
    key ∈ ((runs.flatMap observations).map Prod.fst).dedup := by
  rw [← get?_isSome, Option.isSome_iff_ne_none, aggregated, Ne, get?_tallied_eq_none,
    valuesFor_eq_nil, not_not, List.mem_dedup]

theorem brokenRules_eq (rows : List RunLike) (orgId : String) :
    brokenRules R threshold (consoleRuns rows orgId) =
      (aggregated (consoleRuns rows orgId)).entries.filterMap fun kv =>
        brokenRule R (overFiring R threshold rows orgId) kv.1 kv.2 := by
  rw [brokenRules, aggregated, List.foldl_flatMap]
  rfl

theorem brokenRule_eq {agg : RuleAgg} (hagg : agg.Counts (observed (consoleRuns rows orgId) key)) :
    (brokenRule R (overFiring R threshold rows orgId) key agg).map BrokenRule.sortKey =
      standing R threshold rows orgId key := by
  rw [brokenRule, hagg.verdict, verdict_congr mem_overFiring, Option.map_map, standing,
    ← hagg.totalHits]
  rfl

theorem brokenRule_state (R : FloatOps F) (threshold : F) {agg : RuleAgg}
    (hagg : agg.Counts (observed (consoleRuns rows orgId) key)) :
    (brokenRule R (overFiring R threshold rows orgId) key agg).map BrokenRule.state =
      verdict (observed (consoleRuns rows orgId) key) (OverFires R threshold rows orgId key) := by
  rw [brokenRule, hagg.verdict, verdict_congr mem_overFiring, Option.map_map]
  cases verdict (observed (consoleRuns rows orgId) key) (OverFires R threshold rows orgId key) <;>
    rfl

theorem brokenRule_key {fires : List RuleKey} {agg : RuleAgg} {r : BrokenRule F}
    (h : brokenRule R fires key agg = some r) : r.key = key := by
  obtain ⟨state, -, rfl⟩ := Option.map_eq_some_iff.mp h
  rfl

theorem map_filterMap_sublist {α β γ : Type*} {f : α → Option β} {g : β → γ} {h : α → γ}
    (hkey : ∀ a b, f a = some b → g b = h a) (xs : List α) :
    ((xs.filterMap f).map g).Sublist (xs.map h) := by
  induction xs with
  | nil => exact .slnil
  | cons a xs ih =>
      cases hf : f a with
      | none =>
          rw [List.filterMap_cons_none hf]
          exact ih.cons _
      | some b =>
          rw [List.filterMap_cons_some hf, List.map_cons, List.map_cons, hkey a b hf]
          exact ih.cons_cons _

theorem sortKeys_nodup : ((brokenRules R threshold (consoleRuns rows orgId)).map
    BrokenRule.sortKey).Nodup := by
  have hkeys : ((brokenRules R threshold (consoleRuns rows orgId)).map BrokenRule.key).Nodup := by
    rw [brokenRules_eq]
    exact (aggregated (consoleRuns rows orgId)).nodup.sublist
      (map_filterMap_sublist (fun kv r h => brokenRule_key h) _)
  apply List.Nodup.of_map fun k => ofLex (ofLex (ofLex k).2).2
  rw [List.map_map]
  exact hkeys

theorem countP_ahead (k : SortKey) :
    (brokenRules R threshold (consoleRuns rows orgId)).countP (fun r => r.sortKey < k) =
      (consoleKeys rows orgId).countP fun key' =>
        (standing R threshold rows orgId key').any fun k' => k' < k := by
  have hperm : (aggregated (consoleRuns rows orgId)).keys.Perm (consoleKeys rows orgId) :=
    (List.perm_ext_iff_of_nodup (aggregated _).nodup (List.nodup_dedup _)).mpr
      fun _ => mem_aggregated
  rw [← hperm.countP_eq, brokenRules_eq, List.countP_filterMap, OrderedDict.keys, List.countP_map]
  apply List.countP_congr
  intro kv hkv
  rw [Function.comp_apply, ← brokenRule_eq (aggregated_counts (mem_entries_iff.mp hkv))]
  cases brokenRule R (overFiring R threshold rows orgId) kv.1 kv.2 <;> simp

theorem ruleHealth_eq : ruleHealth R threshold rows orgId DEFAULT_LOOKBACK_RUNS =
    ((brokenRules R threshold (consoleRuns rows orgId)).mergeSort
      fun a b => a.sortKey ≤ b.sortKey).take MAX_BROKEN_RULES := by
  rw [ruleHealth, ← consoleRuns]
  cases hruns : consoleRuns rows orgId with
  | nil =>
      have hnone : brokenRules R threshold [] = [] := rfl
      rw [hnone, List.mergeSort_nil]
      rfl
  | cons run runs => rfl

theorem broken_row {r : BrokenRule F} :
    r ∈ brokenRules R threshold (consoleRuns rows orgId) ∧ r.key = key ↔
      ∃ agg, (aggregated (consoleRuns rows orgId)).get? key = some agg ∧
        brokenRule R (overFiring R threshold rows orgId) key agg = some r := by
  rw [brokenRules_eq]
  constructor
  · rintro ⟨hmem, rfl⟩
    obtain ⟨⟨key', agg⟩, hentry, hr⟩ := List.mem_filterMap.mp hmem
    rw [brokenRule_key hr]
    exact ⟨agg, mem_entries_iff.mp hentry, hr⟩
  · rintro ⟨agg, hagg, hr⟩
    exact ⟨List.mem_filterMap.mpr ⟨(key, agg), mem_entries_iff.mpr hagg, hr⟩, brokenRule_key hr⟩

theorem broken_unique {r r' : BrokenRule F}
    (h : r ∈ brokenRules R threshold (consoleRuns rows orgId) ∧ r.key = key)
    (h' : r' ∈ brokenRules R threshold (consoleRuns rows orgId) ∧ r'.key = key) : r = r' := by
  obtain ⟨agg, hagg, hr⟩ := broken_row.mp h
  obtain ⟨agg', hagg', hr'⟩ := broken_row.mp h'
  rw [hagg] at hagg'
  cases hagg'
  exact Option.some.inj (hr.symm.trans hr')

-- The row a broken rule has before the list is cut.
theorem exists_broken {state : RuleState}
    (h : verdict (observed (consoleRuns rows orgId) key) (OverFires R threshold rows orgId key) =
      some state) :
    ∃ r, (r ∈ brokenRules R threshold (consoleRuns rows orgId) ∧ r.key = key) ∧
      r.state = state ∧ standing R threshold rows orgId key = some r.sortKey := by
  cases hagg : (aggregated (consoleRuns rows orgId)).get? key with
  | none =>
      have hnone : observed (consoleRuns rows orgId) key = [] := get?_tallied_eq_none.mp hagg
      have hover : ¬ OverFires R threshold rows orgId key := fun h => overfires_ne_nil h hnone
      rw [verdict_nil hnone hover] at h
      cases h
  | some agg =>
      have hcounts := aggregated_counts hagg
      have hstate := (brokenRule_state R threshold hcounts).trans h
      obtain ⟨r, hr, hrstate⟩ := Option.map_eq_some_iff.mp hstate
      refine ⟨r, broken_row.mpr ⟨agg, hagg, hr⟩, hrstate, ?_⟩
      rw [← brokenRule_eq hcounts, hr]
      rfl

theorem crowdedOut_iff {r : BrokenRule F}
    (h : r ∈ brokenRules R threshold (consoleRuns rows orgId) ∧ r.key = key)
    (hstanding : standing R threshold rows orgId key = some r.sortKey) :
    CrowdedOut R threshold rows orgId key ↔
      r ∉ ruleHealth R threshold rows orgId DEFAULT_LOOKBACK_RUNS := by
  rw [ruleHealth_eq, mem_take_mergeSort sortKeys_nodup h.1, countP_ahead, CrowdedOut, hstanding,
    not_lt]
  simp

theorem find?_eq_some_of_unique {α : Type*} {p : α → Bool} {l : List α} {a : α} (ha : a ∈ l)
    (hp : p a = true) (huniq : ∀ b ∈ l, p b = true → b = a) : l.find? p = some a := by
  cases hfind : l.find? p with
  | none => exact absurd hp (List.find?_eq_none.mp hfind a ha)
  | some b => rw [huniq b (List.mem_of_find?_eq_some hfind) (List.find?_some hfind)]

theorem listed_broken {r : BrokenRule F}
    (h : r ∈ ruleHealth R threshold rows orgId DEFAULT_LOOKBACK_RUNS) :
    r ∈ brokenRules R threshold (consoleRuns rows orgId) := by
  rw [ruleHealth_eq] at h
  exact (List.mergeSort_perm _ _).mem_iff.mp (List.mem_of_mem_take h)

theorem consoleState_eq (h : ¬ CrowdedOut R threshold rows orgId key) :
    consoleState R threshold rows orgId key = verdict (observed (consoleRuns rows orgId) key)
      (OverFires R threshold rows orgId key) := by
  rw [consoleState]
  cases hverdict : verdict (observed (consoleRuns rows orgId) key)
      (OverFires R threshold rows orgId key) with
  | some state =>
      obtain ⟨r, hr, hstate, hstanding⟩ := exists_broken hverdict
      have hlisted := not_not.mp ((crowdedOut_iff hr hstanding).not.mp h)
      rw [find?_eq_some_of_unique hlisted (decide_eq_true hr.2), Option.map_some, hstate]
      intro r' hr' hkey
      exact broken_unique ⟨listed_broken hr', of_decide_eq_true hkey⟩ hr
  | none =>
      rw [Option.map_eq_none_iff, List.find?_eq_none]
      intro r hr hkey
      obtain ⟨agg, hagg, hbroken⟩ := broken_row.mp ⟨listed_broken hr, of_decide_eq_true hkey⟩
      have hstate := brokenRule_state R threshold (aggregated_counts hagg)
      rw [hverdict, hbroken] at hstate
      cases hstate

theorem consoleState_crowded (h : CrowdedOut R threshold rows orgId key) :
    consoleState R threshold rows orgId key = none := by
  have hcrowded := h
  obtain ⟨k, hk, -⟩ := hcrowded
  obtain ⟨state, hstate, -⟩ := Option.map_eq_some_iff.mp hk
  obtain ⟨r, hr, -, hstanding⟩ := exists_broken hstate
  have hcut := (crowdedOut_iff hr hstanding).mp h
  rw [consoleState, Option.map_eq_none_iff, List.find?_eq_none]
  intro r' hr' hkey
  exact hcut (broken_unique ⟨listed_broken hr', of_decide_eq_true hkey⟩ hr ▸ hr')

end Console

end RuleHealth

end BTagent
