import BTagent.Memory.MemoryService
import Mathlib.Algebra.Order.Field.Rat
import Mathlib.Data.List.Flatten
import Mathlib.Data.List.Nodup
import Mathlib.Data.List.Pairwise
import Mathlib.Data.List.Perm.Subperm

namespace BTagent

namespace MemoryService

open OrderedDict

variable {F : Type} {T : CharTable} {S : ScoreOps F} {threshold : F} {run : Consolidation F}
  {rows store group : List (AgentMemoryRow F)} {clusters : List (Cluster F)} {c : Cluster F}
  {row m : AgentMemoryRow F} {stamp flushedAt : ℤ}

section Clustering

def Near (T : CharTable) (S : ScoreOps F) (threshold : F) (c : Cluster F) : Prop :=
  ∀ loser ∈ c.losers,
    S.le threshold (contentSimilarity T S c.survivor.content loser.content) = true

theorem members_join :
    ((joinCluster T S threshold row clusters).flatMap Cluster.members).Perm
      (row :: clusters.flatMap Cluster.members) := by
  induction clusters with
  | nil => simp [joinCluster, Cluster.members]
  | cons c clusters ih =>
      rw [joinCluster]
      split
      · have hmove : (c.members ++ row :: clusters.flatMap Cluster.members).Perm
            (row :: (c.members ++ clusters.flatMap Cluster.members)) := List.perm_middle
        simpa [Cluster.members, List.append_assoc] using hmove
      · simp only [List.flatMap_cons]
        exact (List.Perm.append_left c.members ih).trans List.perm_middle

theorem near_join (h : ∀ c ∈ clusters, Near T S threshold c) :
    ∀ c ∈ joinCluster T S threshold row clusters, Near T S threshold c := by
  induction clusters with
  | nil => simp [joinCluster, Near]
  | cons c clusters ih =>
      obtain ⟨hc, hrest⟩ := List.forall_mem_cons.mp h
      rw [joinCluster]
      split
      · next hnear =>
          refine List.forall_mem_cons.mpr ⟨?_, hrest⟩
          intro loser hloser
          rcases List.mem_append.mp hloser with hloser | hloser
          · exact hc loser hloser
          · rw [List.mem_singleton.mp hloser]
            exact hnear
      · exact List.forall_mem_cons.mpr ⟨hc, ih hrest⟩

theorem foldl_join :
    ((rows.foldl (fun clusters row => joinCluster T S threshold row clusters)
      clusters).flatMap Cluster.members).Perm (clusters.flatMap Cluster.members ++ rows) := by
  induction rows generalizing clusters with
  | nil => simp
  | cons row rows ih =>
      rw [List.foldl_cons]
      refine ih.trans ?_
      exact (List.Perm.append_right rows members_join).trans List.perm_middle.symm

theorem near_foldl (h : ∀ c ∈ clusters, Near T S threshold c) :
    ∀ c ∈ rows.foldl (fun clusters row => joinCluster T S threshold row clusters) clusters,
      Near T S threshold c := by
  induction rows generalizing clusters with
  | nil => exact h
  | cons row rows ih => exact ih (near_join h)

theorem clustersOf_near : ∀ c ∈ clustersOf T S threshold group, Near T S threshold c := by
  intro c hc
  unfold clustersOf at hc
  split at hc
  · cases hc
  · exact near_foldl (by simp) c (List.mem_of_mem_filter hc)

theorem cluster_perm : ((cluster T S threshold rows).flatMap Cluster.members).Perm rows := by
  have hfold : ((rows.foldl (fun clusters row => joinCluster T S threshold row clusters)
      []).flatMap Cluster.members).Perm ([].flatMap Cluster.members ++ rows) := foldl_join
  rwa [List.flatMap_nil, List.nil_append] at hfold

theorem clustersOf_subperm :
    ((clustersOf T S threshold group).flatMap Cluster.members).Subperm group := by
  unfold clustersOf
  split
  · exact List.nil_subperm
  · apply List.Subperm.trans (List.filter_sublist.flatMap Cluster.members).subperm
    apply cluster_perm.subperm.trans
    exact (List.take_sublist _ _).subperm.trans (List.mergeSort_perm _ _).subperm

theorem clustersOf_nodup (h : group.Nodup) :
    ((clustersOf T S threshold group).flatMap Cluster.members).Nodup := by
  have hsubperm : ((clustersOf T S threshold group).flatMap Cluster.members).Subperm group :=
    clustersOf_subperm
  obtain ⟨l, hperm, hsub⟩ := hsubperm
  exact hperm.nodup_iff.mp (hsub.nodup h)

end Clustering

section Grouping

theorem group_eq {key : String × String} (h : (key, group) ∈ (groupRows rows).entries) :
    group = rows.filter fun row => (row.subject, row.tlpLevel) = key := by
  have hvalues : group = valuesFor key
      (rows.map fun row => ((row.subject, row.tlpLevel), row)) := by
    refine tallied_invariant (P := fun vs g => g = vs) (fun _ => rfl) ?_ (mem_entries_iff.mp h)
    rintro vs _ v rfl
    rfl
  rw [hvalues, valuesFor, List.filter_map, List.map_map]
  simp [Function.comp_def]

theorem mem_merged (h : c ∈ mergedClusters T S run store) :
    ∃ key group, (key, group) ∈ (groupRows (scannedRows run store)).entries ∧
      c ∈ clustersOf T S run.threshold group ∧
      ∀ row ∈ c.members, row ∈ scannedRows run store ∧ (row.subject, row.tlpLevel) = key := by
  obtain ⟨⟨key, group⟩, hgroup, hc⟩ := List.mem_flatMap.mp h
  refine ⟨key, group, hgroup, hc, ?_⟩
  intro row hrow
  have hmem : row ∈ group := clustersOf_subperm.subset (List.mem_flatMap.mpr ⟨c, hc, hrow⟩)
  rw [group_eq hgroup, List.mem_filter, decide_eq_true_eq] at hmem
  exact hmem

theorem mem_scanned (h : row ∈ scannedRows run store) :
    row ∈ store ∧ row.orgId = run.orgId ∧ row.supersededAt = none := by
  rw [scannedRows, List.mem_filter, decide_eq_true_eq] at h
  exact ⟨h.1, h.2.1, h.2.2.1⟩

-- Two clusters that hold a row of one id are one cluster.
theorem merged_apart (hids : (store.map (·.id)).Nodup) {c c' : Cluster F}
    (hc : c ∈ mergedClusters T S run store) (hc' : c' ∈ mergedClusters T S run store)
    {x y : AgentMemoryRow F} (hx : x ∈ c.members) (hy : y ∈ c'.members) (hid : x.id = y.id) :
    x = y ∧ c = c' ∧ c.members.Nodup := by
  obtain ⟨key, group, hgroup, hcg, hrows⟩ := mem_merged hc
  obtain ⟨key', group', hgroup', hcg', hrows'⟩ := mem_merged hc'
  have hsame : x = y := List.inj_on_of_nodup_map hids (mem_scanned (hrows x hx).1).1
    (mem_scanned (hrows' y hy).1).1 hid
  subst hsame
  have hkey : key = key' := (hrows x hx).2.symm.trans (hrows' x hy).2
  subst hkey
  have hgroups : group = group' := (group_eq hgroup).trans (group_eq hgroup').symm
  subst hgroups
  have hnodup : group.Nodup := by
    rw [group_eq hgroup]
    exact ((hids.of_map _).filter _).filter _
  have hmembers : ((clustersOf T S run.threshold group).flatMap Cluster.members).Nodup :=
    clustersOf_nodup hnodup
  obtain ⟨hinner, hdisjoint⟩ := List.nodup_flatMap.mp hmembers
  refine ⟨rfl, ?_, hinner c hcg⟩
  by_contra hne
  have : Std.Symm (Function.onFun List.Disjoint (Cluster.members (F := F))) :=
    ⟨fun _ _ h _ hx hy => h hy hx⟩
  exact hdisjoint.forall hcg hcg' hne hx hy

theorem survivor_not_loser (hids : (store.map (·.id)).Nodup) {c c' : Cluster F}
    (hc : c ∈ mergedClusters T S run store) (hc' : c' ∈ mergedClusters T S run store) :
    c.survivor.id ∉ c'.losers.map (·.id) := by
  intro hmem
  obtain ⟨loser, hloser, hid⟩ := List.mem_map.mp hmem
  obtain ⟨hsame, rfl, hnodup⟩ := merged_apart hids hc hc' List.mem_cons_self
    (List.mem_cons_of_mem _ hloser) hid.symm
  rw [← hsame] at hloser
  exact (List.nodup_cons.mp hnodup).1 hloser

end Grouping

section Rewriting

-- What consolidation never changes in a row.
structure SameFact (row row' : AgentMemoryRow F) : Prop where
  id : row'.id = row.id
  orgId : row'.orgId = row.orgId
  kind : row'.kind = row.kind
  subject : row'.subject = row.subject
  content : row'.content = row.content
  tlpLevel : row'.tlpLevel = row.tlpLevel

theorem rewrite_same : SameFact row (rewrite T S stamp flushedAt row c) := by
  unfold rewrite
  split
  · exact ⟨rfl, rfl, rfl, rfl, rfl, rfl⟩
  · split <;> exact ⟨rfl, rfl, rfl, rfl, rfl, rfl⟩

theorem SameFact.trans {row' row'' : AgentMemoryRow F} (h : SameFact row row')
    (h' : SameFact row' row'') : SameFact row row'' :=
  ⟨h'.id.trans h.id, h'.orgId.trans h.orgId, h'.kind.trans h.kind, h'.subject.trans h.subject,
    h'.content.trans h.content, h'.tlpLevel.trans h.tlpLevel⟩

theorem foldl_same :
    SameFact row (clusters.foldl (rewrite T S stamp flushedAt) row) := by
  induction clusters generalizing row with
  | nil => exact ⟨rfl, rfl, rfl, rfl, rfl, rfl⟩
  | cons c clusters ih => exact rewrite_same.trans ih

theorem foldl_map_rewrite :
    clusters.foldl (fun store c => store.map fun row => rewrite T S stamp flushedAt row c) store =
      store.map fun row => clusters.foldl (rewrite T S stamp flushedAt) row := by
  induction clusters generalizing store with
  | nil => simp
  | cons c clusters ih => rw [List.foldl_cons, ih, List.map_map]; rfl

-- A row that no cluster collapses stays live, and a survivor is stamped.
theorem foldl_survivor (hlosers : ∀ c ∈ clusters, row.id ∉ c.losers.map (·.id)) :
    (clusters.foldl (rewrite T S stamp flushedAt) row).supersededAt = row.supersededAt ∧
      ((row.updatedAt = stamp ∨ ∃ c ∈ clusters, row.id = c.survivor.id) →
        (clusters.foldl (rewrite T S stamp flushedAt) row).updatedAt = stamp) := by
  induction clusters generalizing row with
  | nil =>
      refine ⟨rfl, ?_⟩
      rintro (h | ⟨c, hc, -⟩)
      · exact h
      · cases hc
  | cons c clusters ih =>
      obtain ⟨hc, hrest⟩ := List.forall_mem_cons.mp hlosers
      have hid : (rewrite T S stamp flushedAt row c).id = row.id := rewrite_same.id
      have hlosers' : ∀ c' ∈ clusters, (rewrite T S stamp flushedAt row c).id ∉
          c'.losers.map (·.id) := by rwa [hid]
      obtain ⟨hlive, hstamp⟩ := ih hlosers'
      by_cases hsurvivor : row.id = c.survivor.id
      · have hrewrite : (rewrite T S stamp flushedAt row c).supersededAt = row.supersededAt ∧
            (rewrite T S stamp flushedAt row c).updatedAt = stamp := by
          rw [rewrite, if_pos hsurvivor]
          exact ⟨rfl, rfl⟩
        exact ⟨hlive.trans hrewrite.1, fun _ => hstamp (Or.inl hrewrite.2)⟩
      · have hsame : rewrite T S stamp flushedAt row c = row := by
          rw [rewrite, if_neg hsurvivor, if_neg hc]
        rw [hsame] at hlive hstamp
        rw [List.foldl_cons, hsame]
        refine ⟨hlive, ?_⟩
        rintro (h | ⟨c', hc', hid'⟩)
        · exact hstamp (Or.inl h)
        · rcases List.mem_cons.mp hc' with rfl | hc'
          · exact absurd hid' hsurvivor
          · exact hstamp (Or.inr ⟨c', hc', hid'⟩)

theorem rewrite_superseded (h : row.supersededAt ≠ none) :
    (rewrite T S stamp flushedAt row c).supersededAt ≠ none := by
  unfold rewrite
  split
  · exact h
  · split
    · nofun
    · exact h

theorem foldl_superseded (h : row.supersededAt ≠ none) :
    (clusters.foldl (rewrite T S stamp flushedAt) row).supersededAt ≠ none := by
  induction clusters generalizing row with
  | nil => exact h
  | cons c clusters ih => exact ih (rewrite_superseded h)

theorem foldl_loser (hsurvivors : ∀ c ∈ clusters, row.id ≠ c.survivor.id) (hc : c ∈ clusters)
    (hloser : row.id ∈ c.losers.map (·.id)) :
    (clusters.foldl (rewrite T S stamp flushedAt) row).supersededAt ≠ none := by
  induction clusters generalizing row with
  | nil => cases hc
  | cons c' clusters ih =>
      obtain ⟨hc', hrest⟩ := List.forall_mem_cons.mp hsurvivors
      rw [List.foldl_cons]
      rcases List.mem_cons.mp hc with rfl | hc
      · apply foldl_superseded
        rw [rewrite, if_neg hc', if_pos hloser]
        nofun
      · have hid : (rewrite T S stamp flushedAt row c').id = row.id := rewrite_same.id
        exact ih (by rwa [hid]) hc (by rwa [hid])

end Rewriting

section Recall

theorem mem_superseded (hids : (store.map (·.id)).Nodup) (hm : m ∈ store)
    (h : m.id ∈ (consolidateMemories T S run store).2.supersededIds) :
    ∃ c ∈ mergedClusters T S run store, m ∈ c.losers := by
  obtain ⟨loser, hloser, hid⟩ := List.mem_map.mp h
  obtain ⟨c, hc, hmem⟩ := List.mem_flatMap.mp hloser
  obtain ⟨key, group, -, -, hrows⟩ := mem_merged hc
  have hstore := (mem_scanned (hrows loser (List.mem_cons_of_mem _ hmem)).1).1
  obtain rfl := List.inj_on_of_nodup_map hids hstore hm hid
  exact ⟨c, hc, hmem⟩

-- The row that a superseded one is collapsed onto, as consolidation leaves it.
structure Survives (T : CharTable) (S : ScoreOps F) (run : Consolidation F)
    (store : List (AgentMemoryRow F)) (m r : AgentMemoryRow F) : Prop where
  stored : r ∈ (consolidateMemories T S run store).1
  live : r.supersededAt = none
  org : r.orgId = m.orgId
  subject : r.subject = m.subject
  tlpLevel : r.tlpLevel = m.tlpLevel
  near : S.le run.threshold (contentSimilarity T S r.content m.content) = true
  stamped : r.updatedAt = run.stamp

theorem survivor_of_superseded (hids : (store.map (·.id)).Nodup) (hm : m ∈ store)
    (h : m.id ∈ (consolidateMemories T S run store).2.supersededIds) :
    ∃ r, Survives T S run store m r := by
  obtain ⟨c, hc, hloser⟩ := mem_superseded hids hm h
  obtain ⟨key, group, hgroup, hcg, hrows⟩ := mem_merged hc
  obtain ⟨hscanned, hkey⟩ := hrows c.survivor List.mem_cons_self
  obtain ⟨hscanned', hkey'⟩ := hrows m (List.mem_cons_of_mem _ hloser)
  obtain ⟨hstored, horg, hlive⟩ := mem_scanned hscanned
  obtain ⟨-, horg', -⟩ := mem_scanned hscanned'
  obtain ⟨hsubject, htlp⟩ := Prod.ext_iff.mp (hkey.trans hkey'.symm)
  have hsame : SameFact c.survivor ((mergedClusters T S run store).foldl
      (rewrite T S run.stamp run.flushedAt) c.survivor) := foldl_same
  have hlosers : ∀ c' ∈ mergedClusters T S run store, c.survivor.id ∉ c'.losers.map (·.id) :=
    fun c' hc' => survivor_not_loser hids hc hc'
  obtain ⟨hkept, hstamp⟩ := foldl_survivor (T := T) (S := S) hlosers
  refine ⟨_, ?_, hkept.trans hlive, hsame.orgId.trans (horg.trans horg'.symm),
    hsame.subject.trans hsubject, hsame.tlpLevel.trans htlp, ?_, hstamp (Or.inr ⟨c, hc, rfl⟩)⟩
  · rw [consolidateMemories, foldl_map_rewrite]
    exact List.mem_map_of_mem hstored
  · rw [hsame.content]
    exact clustersOf_near c hcg m hloser

theorem recall_survives (hids : (store.map (·.id)).Nodup) (hm : m ∈ store)
    (hsuperseded : m.id ∈ (consolidateMemories T S run store).2.supersededIds)
    {orgId : String} {subject callerTlp : Option String} {limit : ℤ}
    (hbefore : m ∈ recallMemories store orgId subject none limit callerTlp false)
    {after : List (AgentMemoryRow F)} (hafter : after.Perm (consolidateMemories T S run store).1)
    (hlimit : ((after.filter (inScope orgId (coerceTlp callerTlp .green .white) subject none
      true)).countP fun r => run.stamp ≤ r.updatedAt) ≤ (max 1 limit).toNat) :
    ∃ r ∈ recallMemories after orgId subject none limit callerTlp false,
      r.supersededAt = none ∧ r.subject = m.subject ∧ r.tlpLevel = m.tlpLevel ∧
        S.le run.threshold (contentSimilarity T S r.content m.content) = true := by
  obtain ⟨r, hr⟩ := survivor_of_superseded hids hm hsuperseded
  refine ⟨r, ?_, hr.live, hr.subject, hr.tlpLevel, hr.near⟩
  have hscope := (List.mem_filter.mp (mem_of_mem_takeNewest hbefore)).2
  apply mem_takeNewest
  · refine List.mem_filter.mpr ⟨hafter.mem_iff.mpr hr.stored, ?_⟩
    unfold inScope at hscope ⊢
    rw [decide_eq_true_eq] at hscope ⊢
    obtain ⟨horg, htlp, -, hsubject, -⟩ := hscope
    refine ⟨hr.org.trans horg, hr.tlpLevel ▸ htlp, fun _ => hr.live, ?_, by simp⟩
    intro s hs
    exact hr.subject.trans (hsubject s hs)
  · rw [hr.stamped]
    exact hlimit

end Recall

section KindFilter

-- The store's unique key is (org, kind, subject), so a recall by kind never finds the survivor.
theorem kind_recall_loses (hkey : (store.map fun r => (r.orgId, r.kind, r.subject)).Nodup)
    (hids : (store.map (·.id)).Nodup) (hm : m ∈ store)
    (hsuperseded : m.id ∈ (consolidateMemories T S run store).2.supersededIds)
    {r : AgentMemoryRow F} (hr : r ∈ (consolidateMemories T S run store).1)
    (horg : r.orgId = m.orgId) (hsubject : r.subject = m.subject) (hkind : r.kind = m.kind) :
    r.supersededAt ≠ none := by
  rw [consolidateMemories, foldl_map_rewrite] at hr
  obtain ⟨old, hold, rfl⟩ := List.mem_map.mp hr
  have hsame : SameFact old ((mergedClusters T S run store).foldl
      (rewrite T S run.stamp run.flushedAt) old) := foldl_same
  have hm' : old = m := by
    apply List.inj_on_of_nodup_map hkey hold hm
    rw [← horg, ← hkind, ← hsubject, hsame.orgId, hsame.kind, hsame.subject]
  subst hm'
  obtain ⟨c, hc, hloser⟩ := mem_superseded hids hold hsuperseded
  have hid : old.id ∈ c.losers.map (·.id) := List.mem_map_of_mem hloser
  refine foldl_loser ?_ hc hid
  intro c' hc' hsurvivor
  exact survivor_not_loser hids hc' hc (hsurvivor ▸ hid)

end KindFilter

section Kinds

def words : ScoreOps ℚ where
  le x y := x ≤ y
  lt x y := x < y
  zero := 0
  one := 1
  minusOne := -1
  ratio a b := if a = b then 1 else 0

def note (id kind : String) (confidence : ℚ) (updatedAt : ℤ) : AgentMemoryRow ℚ where
  id := id
  orgId := "org"
  kind := kind
  subject := "203.0.113.9"
  content := "ip observed beaconing"
  source := "inv_1"
  confidence := some confidence
  tlpLevel := "green"
  updatedAt := updatedAt
  supersededAt := none

def beaconing : List (AgentMemoryRow ℚ) :=
  [note "mem_1" "observation" (9 / 10) 10, note "mem_2" "decision" (3 / 5) 20]

def nightly : Consolidation ℚ where
  orgId := "org"
  subject := none
  kind := none
  threshold := 17 / 20
  stamp := 100
  flushedAt := 100

theorem nightly_supersedes : (consolidateMemories .ascii words nightly beaconing).2.supersededIds =
    ["mem_2"] := by
  have hsorted : beaconing.mergeSort (survivesOver words) = beaconing :=
    List.mergeSort_of_pairwise (by decide +kernel)
  have hgroups : (groupRows (scannedRows nightly beaconing)).entries =
      [(("203.0.113.9", "green"), beaconing)] := rfl
  have hclusters : clustersOf .ascii words nightly.threshold beaconing =
      [⟨note "mem_1" "observation" (9 / 10) 10, [note "mem_2" "decision" (3 / 5) 20]⟩] := by
    rw [clustersOf, hsorted]
    decide +kernel
  rw [consolidateMemories, mergedClusters, hgroups, List.flatMap_singleton, hclusters]
  rfl

theorem kind_filter_loses_memory :
    ¬ ∀ {F : Type} (T : CharTable) (S : ScoreOps F) (run : Consolidation F)
      (store : List (AgentMemoryRow F)) (m : AgentMemoryRow F),
        (store.map (·.id)).Nodup → (store.map fun r => (r.orgId, r.kind, r.subject)).Nodup →
        m ∈ store → m.id ∈ (consolidateMemories T S run store).2.supersededIds →
        ∀ (orgId : String) (subject kind callerTlp : Option String),
          m ∈ recallMemories store orgId subject kind DEFAULT_RECALL_LIMIT callerTlp false →
          ∃ r ∈ recallMemories (consolidateMemories T S run store).1 orgId subject kind
              DEFAULT_RECALL_LIMIT callerTlp false,
            r.supersededAt = none ∧ r.subject = m.subject ∧ r.tlpLevel = m.tlpLevel ∧
              (r.content = m.content ∨
                S.le run.threshold (contentSimilarity T S r.content m.content) = true) := by
  intro h
  have hids : (beaconing.map (·.id)).Nodup := by decide
  have hkey : (beaconing.map fun r => (r.orgId, r.kind, r.subject)).Nodup := by decide
  have hm : note "mem_2" "decision" (3 / 5) 20 ∈ beaconing := by simp [beaconing]
  have hsuperseded : (note "mem_2" "decision" (3 / 5) 20).id ∈
      (consolidateMemories .ascii words nightly beaconing).2.supersededIds := by
    rw [nightly_supersedes]
    decide
  have hbefore : note "mem_2" "decision" (3 / 5) 20 ∈ recallMemories beaconing "org"
      (some "203.0.113.9") (some "decision") DEFAULT_RECALL_LIMIT (some "green") false := by
    apply mem_takeNewest
    · exact List.mem_filter.mpr ⟨hm, by decide⟩
    · decide
  obtain ⟨r, hr, hlive, hsubject, -⟩ :=
    h .ascii words nightly beaconing _ hids hkey hm hsuperseded "org" (some "203.0.113.9")
      (some "decision") (some "green") hbefore
  obtain ⟨hstored, hscope⟩ := List.mem_filter.mp (mem_of_mem_takeNewest hr)
  unfold inScope at hscope
  rw [decide_eq_true_eq] at hscope
  exact kind_recall_loses hkey hids hm hsuperseded hstored hscope.1 hsubject
    (hscope.2.2.2.2 "decision" rfl) hlive

theorem recall_survives_beaconing :
    ∃ r ∈ recallMemories (consolidateMemories .ascii words nightly beaconing).1 "org"
        (some "203.0.113.9") none DEFAULT_RECALL_LIMIT (some "green") false,
      r.supersededAt = none ∧ r.subject = "203.0.113.9" ∧ r.tlpLevel = "green" ∧
        words.le nightly.threshold
          (contentSimilarity .ascii words r.content "ip observed beaconing") = true := by
  have hids : (beaconing.map (·.id)).Nodup := by decide
  have hm : note "mem_2" "decision" (3 / 5) 20 ∈ beaconing := by simp [beaconing]
  have hsuperseded : (note "mem_2" "decision" (3 / 5) 20).id ∈
      (consolidateMemories .ascii words nightly beaconing).2.supersededIds := by
    rw [nightly_supersedes]
    decide
  have hbefore : note "mem_2" "decision" (3 / 5) 20 ∈ recallMemories beaconing "org"
      (some "203.0.113.9") none DEFAULT_RECALL_LIMIT (some "green") false := by
    apply mem_takeNewest
    · exact List.mem_filter.mpr ⟨hm, by decide⟩
    · decide
  refine recall_survives hids hm hsuperseded hbefore (List.Perm.refl _) ?_
  refine (List.countP_le_length).trans ((List.length_filter_le _ _).trans ?_)
  rw [consolidateMemories, foldl_map_rewrite, List.length_map]
  decide

end Kinds

end MemoryService

end BTagent
