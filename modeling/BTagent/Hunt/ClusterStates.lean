import BTagent.Hunt.TriageService

namespace BTagent

namespace HuntTriage
open Triage

def considered (states : List HuntFindingState) : List HuntFindingState :=
  states.filter (· ≠ .DISMISSED)

def stateOf (states : List HuntFindingState) : HuntFindingState :=
  if considered states ≠ [] ∧ ∀ s ∈ considered states, s = .SUPPRESSED then .SUPPRESSED
  else if considered states ≠ [] ∧ ∀ s ∈ considered states, s = .PROMOTED then .PROMOTED
  else .CLUSTERED

def memberStates (db : HuntDb) (clusterId : String) : List HuntFindingState :=
  (memberRows db.findings clusterId).map (·.state)

-- Every cluster counts its members and has the state they call for.
def RolledUp (db : HuntDb) : Prop :=
  ∀ c ∈ db.clusters, c.findingCount = (memberRows db.findings c.id).length ∧
    c.state = stateOf (memberStates db c.id)

structure Kept (db : HuntDb) : Prop where
  unique : ∀ c ∈ db.clusters, ∀ c' ∈ db.clusters, c.id = c'.id → c = c'
  linked : ∀ r ∈ db.findings, ∀ k, r.clusterId = some k →
    ∃ c ∈ db.clusters, c.id = k ∧ c.orgId = r.orgId
  live : ∀ r ∈ db.findings, r.state ≠ .DISMISSED
  rolledUp : RolledUp db

-- A finding that an active rule matches joins a member that is not suppressed.
def Surfaces (db : HuntDb) : Operation → Prop
  | .recordFinding now req => (suppressing db now req.orgId req.finding).isSome →
      ∃ c, findCluster db req.orgId (findingSignature req.finding) = some c ∧
        ∃ s ∈ memberStates db c.id, s ≠ .SUPPRESSED
  | _ => True

variable {T : CharTable} {db db' : HuntDb} {now : ℕ} {states : List HuntFindingState}
  {c c' : HuntFindingClusterRow} {k : String}

section StateOf

theorem considered_of_live (h : ∀ s ∈ states, s ≠ .DISMISSED) : considered states = states := by
  rw [considered, List.filter_eq_self]
  intro s hs
  simpa using h s hs

theorem stateOf_all {s : HuntFindingState} (hs : s = .SUPPRESSED ∨ s = .PROMOTED)
    (hne : states ≠ []) (h : ∀ t ∈ states, t = s) : stateOf states = s := by
  have hlive : considered states = states := by
    apply considered_of_live
    intro t ht
    rw [h t ht]
    rcases hs with rfl | rfl <;> decide
  rcases hs with rfl | rfl
  · rw [stateOf, hlive, if_pos ⟨hne, h⟩]
  · have hnot : ¬ (states ≠ [] ∧ ∀ t ∈ states, t = .SUPPRESSED) := by
      rintro ⟨_, hall⟩
      obtain ⟨t, ht⟩ := List.exists_mem_of_ne_nil states hne
      cases (h t ht).symm.trans (hall t ht)
    rw [stateOf, hlive, if_neg hnot, if_pos ⟨hne, h⟩]

theorem stateOf_mixed (hlive : ∀ s ∈ states, s ≠ .DISMISSED) {s t : HuntFindingState}
    (hs : s ∈ states) (ht : t ∈ states) (hsup : s ≠ .SUPPRESSED) (hpro : t ≠ .PROMOTED) :
    stateOf states = .CLUSTERED := by
  rw [stateOf, considered_of_live hlive, if_neg, if_neg]
  · exact fun h => hpro (h.2 t ht)
  · exact fun h => hsup (h.2 s hs)

theorem reopened_stateOf : reopened (stateOf states) = .CLUSTERED := by
  rw [stateOf]
  split_ifs <;> rfl

theorem rollUp_eq (hlive : ∀ s ∈ states, s ≠ .DISMISSED) (hne : states ≠ []) (s : HuntFindingState) :
    rollUp states s = stateOf states := by
  have hfilter : states.filter (· ≠ .DISMISSED) = states := considered_of_live hlive
  simp only [rollUp, hfilter, stateOf, considered_of_live hlive, List.all_eq_true,
    decide_eq_true_eq, ne_eq, hne, not_false_eq_true, true_and, if_false]

end StateOf

section Restate

theorem memberRows_map {f : HuntFindingRow → HuntFindingRow} {findings : List HuntFindingRow}
    (hf : ∀ r, (f r).clusterId = r.clusterId) :
    memberRows (findings.map f) k = (memberRows findings k).map f := by
  rw [memberRows, memberRows, List.filter_map]
  congr 1
  apply List.filter_congr
  intro r _
  simp [hf]

theorem recomputeCluster_id {findings : List HuntFindingRow} :
    (recomputeCluster now findings c).id = c.id := by
  simp only [recomputeCluster]
  split <;> rfl

theorem recomputeCluster_orgId {findings : List HuntFindingRow} :
    (recomputeCluster now findings c).orgId = c.orgId := by
  simp only [recomputeCluster]
  split <;> rfl

theorem recomputeCluster_count {findings : List HuntFindingRow} :
    (recomputeCluster now findings c).findingCount = c.findingCount := by
  simp only [recomputeCluster]
  split <;> rfl

theorem recomputeCluster_state {findings : List HuntFindingRow} :
    (recomputeCluster now findings c).state =
      rollUp ((memberRows findings c.id).map (·.state)) c.state := by
  simp only [recomputeCluster]
  split
  · assumption
  · rfl

theorem unique_map {f : HuntFindingClusterRow → HuntFindingClusterRow}
    {clusters : List HuntFindingClusterRow} (hid : ∀ c, (f c).id = c.id)
    (h : ∀ c ∈ clusters, ∀ c' ∈ clusters, c.id = c'.id → c = c') :
    ∀ c ∈ clusters.map f, ∀ c' ∈ clusters.map f, c.id = c'.id → c = c' := by
  intro c hc c' hc' heq
  obtain ⟨d, hd, rfl⟩ := List.mem_map.mp hc
  obtain ⟨d', hd', rfl⟩ := List.mem_map.mp hc'
  rw [hid, hid] at heq
  rw [h d hd d' hd' heq]

-- Findings get one state, and the clusters that hold one of them are rolled up anew.
structure Restates (s : HuntFindingState) (hit : HuntFindingRow → Bool)
    (f : HuntFindingRow → HuntFindingRow) : Prop where
  state : ∀ r, (f r).state = s
  clusterId : ∀ r, (f r).clusterId = r.clusterId
  orgId : ∀ r, (f r).orgId = r.orgId
  live : s ≠ .DISMISSED

theorem kept_restate {s : HuntFindingState} {hit : HuntFindingRow → Bool}
    {f : HuntFindingRow → HuntFindingRow} (hf : Restates s hit f) (h : Kept db)
    (rules : List SuppressionRuleRow) :
    Kept ⟨db.findings.map fun r => if hit r then f r else r,
      recomputeClusterStates now (clusterIds (db.findings.filter hit))
        (db.findings.map fun r => if hit r then f r else r) db.clusters, rules⟩ := by
  let g := fun r : HuntFindingRow => if hit r then f r else r
  let touch := fun c : HuntFindingClusterRow => if c.id ∈ clusterIds (db.findings.filter hit) then
    recomputeCluster now (db.findings.map g) c else c
  have hgcluster : ∀ r, (g r).clusterId = r.clusterId := by
    intro r
    by_cases hr : hit r = true <;> simp [g, hr, hf.clusterId]
  have hgorg : ∀ r, (g r).orgId = r.orgId := by
    intro r
    by_cases hr : hit r = true <;> simp [g, hr, hf.orgId]
  have hglive : ∀ r ∈ db.findings, (g r).state ≠ .DISMISSED := by
    intro r hmem
    by_cases hr : hit r = true
    · simp [g, hr, hf.state, hf.live]
    · simpa [g, hr] using h.live r hmem
  have htouch : ∀ c, (touch c).id = c.id ∧ (touch c).orgId = c.orgId ∧
      (touch c).findingCount = c.findingCount := by
    intro c
    by_cases hc : c.id ∈ clusterIds (db.findings.filter hit)
    · simp only [touch, if_pos hc]
      exact ⟨recomputeCluster_id, recomputeCluster_orgId, recomputeCluster_count⟩
    · simp [touch, if_neg hc]
  constructor
  · exact unique_map (f := touch) (fun c => (htouch c).1) h.unique
  · intro r hr k hk
    obtain ⟨r, hmem, rfl⟩ := List.mem_map.mp hr
    obtain ⟨c, hc, hid, horg⟩ := h.linked r hmem k ((hgcluster r).symm.trans hk)
    refine ⟨touch c, List.mem_map_of_mem hc, ?_, ?_⟩
    · rw [(htouch c).1, hid]
    · rw [(htouch c).2.1, horg]
      exact (hgorg r).symm
  · intro r hr
    obtain ⟨r, hmem, rfl⟩ := List.mem_map.mp hr
    exact hglive r hmem
  · intro c' hc'
    obtain ⟨c, hc, rfl⟩ := List.mem_map.mp hc'
    obtain ⟨hcount, hstate⟩ := h.rolledUp c hc
    have hrows : memberRows (db.findings.map g) c.id = (memberRows db.findings c.id).map g :=
      memberRows_map hgcluster
    constructor
    · show (touch c).findingCount = (memberRows (db.findings.map g) (touch c).id).length
      rw [(htouch c).1, (htouch c).2.2, hrows, List.length_map, hcount]
    · show (touch c).state = stateOf ((memberRows (db.findings.map g) (touch c).id).map (·.state))
      rw [(htouch c).1]
      by_cases htouched : c.id ∈ clusterIds (db.findings.filter hit)
      · -- a touched cluster has a member, so it is rolled up
        obtain ⟨r, hr, hrk⟩ := List.mem_filterMap.mp htouched
        have hmember : g r ∈ memberRows (db.findings.map g) c.id := by
          rw [memberRows, List.mem_filter]
          refine ⟨List.mem_map_of_mem (List.mem_filter.mp hr).1, ?_⟩
          simp [hgcluster, hrk]
        have hlive : ∀ s ∈ (memberRows (db.findings.map g) c.id).map (·.state), s ≠ .DISMISSED := by
          intro s hs
          obtain ⟨r', hr', rfl⟩ := List.mem_map.mp hs
          obtain ⟨r'', hr'', rfl⟩ := List.mem_map.mp (List.mem_filter.mp hr').1
          exact hglive r'' hr''
        simp only [touch, if_pos htouched]
        rw [recomputeCluster_state, rollUp_eq hlive]
        exact List.ne_nil_of_mem (List.mem_map_of_mem hmember)
      · simp only [touch, if_neg htouched]
        rw [hstate, memberStates, hrows, List.map_map]
        congr 1
        apply List.map_congr_left
        intro r hr
        obtain ⟨hmem, hrk⟩ := List.mem_filter.mp hr
        have hmiss : ¬ hit r = true := fun hhit => htouched
          (List.mem_filterMap.mpr ⟨r, List.mem_filter.mpr ⟨hmem, hhit⟩, of_decide_eq_true hrk⟩)
        simp [g, hmiss]

end Restate

section Record
variable {row r : HuntFindingRow} {req : NewFinding} {newId : String}
  {clusters : List HuntFindingClusterRow}

theorem upsert_cases (h : upsertClusterFor db now newId row = some (k, clusters)) :
    (∃ c, findCluster db row.orgId (findingSignature row.finding) = some c ∧ k = c.id ∧
      clusters = updateCluster c.id
        (fold ((memberRows db.findings c.id).map (·.finding) ++ [row.finding]) now) db.clusters) ∨
    (findCluster db row.orgId (findingSignature row.finding) = none ∧ k = newId ∧
      getCluster db newId = none ∧
      clusters = db.clusters ++ [fold [row.finding] now
        (newCluster newId row.orgId (findingSignature row.finding) row now)]) := by
  simp only [upsertClusterFor] at h
  cases hfind : findCluster db row.orgId (findingSignature row.finding) with
  | some c =>
      rw [hfind] at h
      cases h
      exact Or.inl ⟨c, rfl, rfl, rfl⟩
  | none =>
      rw [hfind] at h
      cases hget : getCluster db newId with
      | some d => simp [hget] at h
      | none =>
          simp only [hget, Option.isSome_none, Bool.false_eq_true, if_false] at h
          cases h
          exact Or.inr ⟨rfl, rfl, rfl, rfl⟩

theorem recordFinding_cases (h : recordFinding db now req = some db') :
    ∃ row r k, row.orgId = req.orgId ∧ row.finding = req.finding ∧
      upsertClusterFor db now req.clusterId row = some (k, db'.clusters) ∧
      db'.findings = db.findings ++ [r] ∧ r.clusterId = some k ∧ r.orgId = req.orgId ∧
      (r.state = .CLUSTERED ∨
        r.state = .SUPPRESSED ∧ (suppressing db now req.orgId req.finding).isSome) := by
  simp only [recordFinding] at h
  split at h
  · cases h
  split at h
  · cases h
  · rename_i k clusters hup
    split at h
    · cases h
      exact ⟨_, _, k, rfl, rfl, hup, rfl, rfl, rfl, Or.inl rfl⟩
    · rename_i rule hrule
      cases h
      refine ⟨_, _, k, rfl, rfl, hup, rfl, rfl, rfl, Or.inr ⟨rfl, ?_⟩⟩
      rw [hrule]
      rfl

theorem findCluster_mem {orgId signature : String} (h : findCluster db orgId signature = some c) :
    c ∈ db.clusters ∧ c.orgId = orgId := by
  have hkey : c.orgId = orgId ∧ c.signature = signature := by simpa using List.find?_some h
  exact ⟨List.mem_of_find?_eq_some h, hkey.1⟩

theorem memberRows_append (findings : List HuntFindingRow) (hr : r.clusterId = some k) :
    memberRows (findings ++ [r]) k = memberRows findings k ++ [r] := by
  simp [memberRows, hr]

theorem memberRows_append_ne (findings : List HuntFindingRow) {k' : String}
    (hr : r.clusterId = some k) (hne : k' ≠ k) :
    memberRows (findings ++ [r]) k' = memberRows findings k' := by
  simp [memberRows, hr, Ne.symm hne]

theorem memberStates_live (h : Kept db) : ∀ s ∈ memberStates db k, s ≠ .DISMISSED := by
  intro s hs
  obtain ⟨r, hr, rfl⟩ := List.mem_map.mp hs
  exact h.live r (List.mem_filter.mp hr).1

theorem memberRows_fresh (h : Kept db) (hnew : getCluster db k = none) :
    memberRows db.findings k = [] := by
  rw [memberRows, List.filter_eq_nil_iff]
  intro r hr hk
  obtain ⟨c, hc, hid, _⟩ := h.linked r hr k (of_decide_eq_true hk)
  have hmiss := List.find?_eq_none.mp hnew c hc
  exact hmiss (decide_eq_true hid)

theorem joined_state (h : Kept db) (hc : c ∈ db.clusters)
    (hr : r.state = .CLUSTERED ∨ r.state = .SUPPRESSED ∧ ∃ s ∈ memberStates db c.id, s ≠ .SUPPRESSED) :
    reopened c.state = stateOf (memberStates db c.id ++ [r.state]) := by
  have hlive : ∀ s ∈ memberStates db c.id ++ [r.state], s ≠ .DISMISSED := by
    intro s hs
    rcases List.mem_append.mp hs with hold | hnew
    · exact memberStates_live h s hold
    · rw [List.mem_singleton.mp hnew]
      rcases hr with hr | ⟨hr, _⟩ <;> rw [hr] <;> decide
  have hlast : r.state ∈ memberStates db c.id ++ [r.state] := by simp
  rw [(h.rolledUp c hc).2, reopened_stateOf]
  rcases hr with hr | ⟨hr, s, hs, hsup⟩
  · exact (stateOf_mixed hlive hlast hlast (by simp [hr]) (by simp [hr])).symm
  · exact (stateOf_mixed hlive (List.mem_append_left _ hs) hlast hsup (by simp [hr])).symm

theorem kept_join (h : Kept db) (hc : c ∈ db.clusters) (members : List HuntFinding)
    (hcount : members.length = (memberRows db.findings c.id).length + 1)
    (hk : r.clusterId = some c.id) (horg : r.orgId = c.orgId)
    (hr : r.state = .CLUSTERED ∨ r.state = .SUPPRESSED ∧ ∃ s ∈ memberStates db c.id, s ≠ .SUPPRESSED)
    (rules : List SuppressionRuleRow) :
    Kept ⟨db.findings ++ [r], updateCluster c.id (fold members now) db.clusters, rules⟩ := by
  let g := fun d : HuntFindingClusterRow => if d.id = c.id then fold members now d else d
  have hg : ∀ d, (g d).id = d.id ∧ (g d).orgId = d.orgId := by
    intro d
    by_cases hd : d.id = c.id <;> simp [g, hd, fold]
  constructor
  · exact unique_map (fun d => (hg d).1) h.unique
  · intro r' hr' j hj
    rcases List.mem_append.mp hr' with hold | hnew
    · obtain ⟨d, hd, hid, hdorg⟩ := h.linked r' hold j hj
      exact ⟨g d, List.mem_map_of_mem hd, (hg d).1.trans hid, (hg d).2.trans hdorg⟩
    · obtain rfl := List.mem_singleton.mp hnew
      refine ⟨g c, List.mem_map_of_mem hc, (hg c).1.trans ?_, (hg c).2.trans horg.symm⟩
      exact Option.some.inj (hk.symm.trans hj)
  · intro r' hr'
    rcases List.mem_append.mp hr' with hold | hnew
    · exact h.live r' hold
    · rw [List.mem_singleton.mp hnew]
      rcases hr with hr | ⟨hr, _⟩ <;> rw [hr] <;> decide
  · intro d' hd'
    obtain ⟨d, hd, rfl⟩ := List.mem_map.mp hd'
    by_cases heq : d.id = c.id
    · obtain rfl := h.unique d hd c hc heq
      simp only [if_pos, fold, memberStates, memberRows_append db.findings hk, List.length_append,
        List.length_singleton, List.map_append]
      exact ⟨hcount, joined_state h hc hr⟩
    · simp only [if_neg heq, memberStates, memberRows_append_ne db.findings hk heq]
      exact h.rolledUp d hd

theorem kept_open (h : Kept db) (hnew : getCluster db c.id = none) (hcount : c.findingCount = 1)
    (hstate : c.state = .CLUSTERED) (hk : r.clusterId = some c.id) (horg : r.orgId = c.orgId)
    (hr : r.state = .CLUSTERED) (rules : List SuppressionRuleRow) :
    Kept ⟨db.findings ++ [r], db.clusters ++ [c], rules⟩ := by
  have hfresh : ∀ d ∈ db.clusters, d.id ≠ c.id := by
    intro d hd hid
    exact List.find?_eq_none.mp hnew d hd (decide_eq_true hid)
  constructor
  · intro d hd d' hd' hid
    rcases List.mem_append.mp hd with hd | hd <;> rcases List.mem_append.mp hd' with hd' | hd'
    · exact h.unique d hd d' hd' hid
    · rw [List.mem_singleton.mp hd'] at hid
      exact absurd hid (hfresh d hd)
    · rw [List.mem_singleton.mp hd] at hid
      exact absurd hid.symm (hfresh d' hd')
    · rw [List.mem_singleton.mp hd, List.mem_singleton.mp hd']
  · intro r' hr' j hj
    rcases List.mem_append.mp hr' with hold | hlast
    · obtain ⟨d, hd, hid, hdorg⟩ := h.linked r' hold j hj
      exact ⟨d, List.mem_append_left _ hd, hid, hdorg⟩
    · obtain rfl := List.mem_singleton.mp hlast
      exact ⟨c, List.mem_append_right _ List.mem_cons_self, Option.some.inj (hk.symm.trans hj),
        horg.symm⟩
  · intro r' hr'
    rcases List.mem_append.mp hr' with hold | hlast
    · exact h.live r' hold
    · rw [List.mem_singleton.mp hlast, hr]
      decide
  · intro d hd
    rcases List.mem_append.mp hd with hold | hlast
    · simp only [memberStates, memberRows_append_ne db.findings hk (hfresh d hold)]
      exact h.rolledUp d hold
    · obtain rfl := List.mem_singleton.mp hlast
      simp only [memberStates, memberRows_append db.findings hk, memberRows_fresh h hnew]
      refine ⟨hcount, ?_⟩
      rw [hstate]
      simp only [List.nil_append, List.map_cons, List.map_nil, hr]
      decide

theorem kept_record (h : Kept db) (hg : Surfaces db (.recordFinding now req))
    (hstep : recordFinding db now req = some db') : Kept db' := by
  obtain ⟨row, r, k, horg, hfinding, hup, hfindings, hk, hrorg, hstate⟩ := recordFinding_cases hstep
  obtain ⟨findings, clusters, rules⟩ := db'
  obtain rfl : findings = _ := hfindings
  rcases upsert_cases hup with ⟨c, hfind, rfl, hclusters⟩ | ⟨hfind, rfl, hnew, hclusters⟩
  · obtain ⟨hc, hcorg⟩ := findCluster_mem hfind
    obtain rfl : clusters = _ := hclusters
    apply kept_join h hc _ (by simp) hk
    · rw [hrorg, hcorg, horg]
    · rcases hstate with hstate | ⟨hstate, hrule⟩
      · exact Or.inl hstate
      · obtain ⟨c', hfind', hs⟩ := hg hrule
        rw [← horg, ← hfinding, hfind] at hfind'
        cases hfind'
        exact Or.inr ⟨hstate, hs⟩
  · obtain rfl : clusters = _ := hclusters
    apply kept_open h hnew rfl rfl hk (hrorg.trans horg.symm)
    rcases hstate with hstate | ⟨_, hrule⟩
    · exact hstate
    · obtain ⟨c', hfind', _⟩ := hg hrule
      rw [← horg, ← hfinding, hfind] at hfind'
      cases hfind'

end Record

section Cluster

theorem kept_setState (h : Kept db) {s : HuntFindingState}
    (hs : ∀ c ∈ db.clusters, c.id = k → s = stateOf (memberStates db k)) :
    Kept (setClusterState k s now db) := by
  let g := fun d : HuntFindingClusterRow => if d.id = k then
    { d with state := s, updatedAt := now } else d
  have hg : ∀ d, (g d).id = d.id ∧ (g d).orgId = d.orgId := by
    intro d
    by_cases hd : d.id = k <;> simp [g, hd]
  constructor
  · exact unique_map (fun d => (hg d).1) h.unique
  · intro r hr j hj
    obtain ⟨d, hd, hid, hdorg⟩ := h.linked r hr j hj
    exact ⟨g d, List.mem_map_of_mem hd, (hg d).1.trans hid, (hg d).2.trans hdorg⟩
  · exact h.live
  · intro d' hd'
    obtain ⟨d, hd, rfl⟩ := List.mem_map.mp hd'
    obtain ⟨hcount, hstate⟩ := h.rolledUp d hd
    by_cases heq : d.id = k
    · subst heq
      simp only [if_true]
      exact ⟨hcount, hs d hd rfl⟩
    · simp only [if_neg heq]
      exact ⟨hcount, hstate⟩

theorem createSuppression_cases {req : NewSuppression}
    (h : createSuppression T db now req = some db') :
    ∃ rules, db' = ⟨db.findings.map fun r =>
        if suppressible req.orgId req.criteria r then suppressRow req.id r else r,
      recomputeClusterStates now
        (clusterIds (db.findings.filter (suppressible req.orgId req.criteria)))
        (db.findings.map fun r =>
          if suppressible req.orgId req.criteria r then suppressRow req.id r else r)
        db.clusters, rules⟩ := by
  simp only [createSuppression] at h
  split at h
  · cases h
  split at h
  · cases h
  split at h
  · cases h
  · cases h
    exact ⟨_, rfl⟩

theorem kept_create {req : NewSuppression} (h : Kept db)
    (hstep : createSuppression T db now req = some db') : Kept db' := by
  obtain ⟨rules, rfl⟩ := createSuppression_cases hstep
  have hf : Restates .SUPPRESSED (suppressible req.orgId req.criteria) (suppressRow req.id) := by
    constructor <;> intros <;> first | rfl | decide
  exact kept_restate hf h rules

theorem promote_cases {orgId investigationId : String} {findingIds : List String}
    (h : promoteToInvestigation db now orgId investigationId findingIds = some db') :
    ∃ rules, db' = ⟨db.findings.map fun r =>
        if decide (r.id ∈ findingIds ∧ r.orgId = orgId) then promoteRow investigationId r else r,
      recomputeClusterStates now
        (clusterIds (db.findings.filter fun r => decide (r.id ∈ findingIds ∧ r.orgId = orgId)))
        (db.findings.map fun r =>
          if decide (r.id ∈ findingIds ∧ r.orgId = orgId) then promoteRow investigationId r else r)
        db.clusters, rules⟩ := by
  simp only [promoteToInvestigation] at h
  split at h
  · cases h
  · cases h
    exact ⟨_, rfl⟩

theorem kept_promote {orgId investigationId : String} {findingIds : List String} (h : Kept db)
    (hstep : promoteToInvestigation db now orgId investigationId findingIds = some db') :
    Kept db' := by
  obtain ⟨rules, rfl⟩ := promote_cases hstep
  have hf : Restates .PROMOTED (fun r => decide (r.id ∈ findingIds ∧ r.orgId = orgId))
      (promoteRow investigationId) := by
    constructor <;> intros <;> first | rfl | decide
  exact kept_restate hf h rules

theorem suppressCluster_cases {criteria : Option SuppressionMatch} {req : NewSuppression}
    (h : suppressCluster T db now k criteria req = some db') :
    ∃ cluster m db₁, createSuppression T db now { req with criteria := m } = some db₁ ∧
      (db' = db₁ ∨ (memberRows db₁.findings cluster ≠ [] ∧
        (memberRows db₁.findings cluster).all
          (fun r => r.state = .SUPPRESSED || r.state = .DISMISSED)) ∧
        db' = setClusterState cluster .SUPPRESSED now db₁) := by
  have hlast : ∀ {cluster : HuntFindingClusterRow} {m : SuppressionMatch} {db₁ : HuntDb},
      createSuppression T db now { req with criteria := m } = some db₁ →
      (if memberRows db₁.findings cluster.id ≠ [] ∧ (memberRows db₁.findings cluster.id).all
          (fun r => r.state = .SUPPRESSED || r.state = .DISMISSED) then
        some (setClusterState cluster.id .SUPPRESSED now db₁) else some db₁) = some db' →
      ∃ cluster m db₁, createSuppression T db now { req with criteria := m } = some db₁ ∧
        (db' = db₁ ∨ (memberRows db₁.findings cluster ≠ [] ∧
          (memberRows db₁.findings cluster).all
            (fun r => r.state = .SUPPRESSED || r.state = .DISMISSED)) ∧
          db' = setClusterState cluster .SUPPRESSED now db₁) := by
    intro cluster m db₁ hcreate hend
    refine ⟨cluster.id, m, db₁, hcreate, ?_⟩
    split at hend
    · rename_i hrows
      cases hend
      exact Or.inr ⟨hrows, rfl⟩
    · cases hend
      exact Or.inl rfl
  simp only [suppressCluster, Option.bind_eq_bind, Option.bind_eq_some_iff] at h
  obtain ⟨cluster, _, h⟩ := h
  cases criteria with
  | none =>
      simp only [Option.bind_some, Option.bind_eq_some_iff] at h
      obtain ⟨db₁, hcreate, hend⟩ := h
      exact hlast hcreate hend
  | some m =>
      simp only at h
      split at h
      · cases h
      · simp only [Option.bind_some, Option.bind_eq_some_iff] at h
        obtain ⟨db₁, hcreate, hend⟩ := h
        exact hlast hcreate hend

theorem kept_suppressCluster {criteria : Option SuppressionMatch} {req : NewSuppression}
    (h : Kept db) (hstep : suppressCluster T db now k criteria req = some db') : Kept db' := by
  obtain ⟨cluster, m, db₁, hcreate, hlast⟩ := suppressCluster_cases hstep
  have hkept : Kept db₁ := kept_create h hcreate
  rcases hlast with rfl | ⟨⟨hne, hrows⟩, rfl⟩
  · exact hkept
  · apply kept_setState hkept
    rintro _ _ _
    have hall : ∀ s ∈ memberStates db₁ cluster, s = .SUPPRESSED := by
      intro s hs
      have hlive : s ≠ .DISMISSED := memberStates_live hkept s hs
      obtain ⟨r, hr, rfl⟩ := List.mem_map.mp hs
      have hdone := List.all_eq_true.mp hrows r hr
      simpa [hlive] using hdone
    refine (stateOf_all (Or.inl rfl) ?_ hall).symm
    simpa [memberStates] using hne

theorem member_orgId (h : Kept db) {r r' : HuntFindingRow} (hr : r ∈ db.findings)
    (hr' : r' ∈ db.findings) (hk : r.clusterId = some k) (hk' : r'.clusterId = some k) :
    r.orgId = r'.orgId := by
  obtain ⟨c, hc, hid, horg⟩ := h.linked r hr k hk
  obtain ⟨c', hc', hid', horg'⟩ := h.linked r' hr' k hk'
  obtain rfl := h.unique c hc c' hc' (hid.trans hid'.symm)
  exact horg.symm.trans horg'

theorem promoted_members {orgId investigationId : String} (h : Kept db) {r₀ : HuntFindingRow}
    (hr₀ : r₀ ∈ db.findings.filter (promotable orgId k))
    (hstep : promoteToInvestigation db now orgId investigationId
      ((db.findings.filter (promotable orgId k)).map (·.id)) = some db') :
    memberStates db' k ≠ [] ∧ ∀ s ∈ memberStates db' k, s = .PROMOTED := by
  obtain ⟨rules, rfl⟩ := promote_cases hstep
  obtain ⟨hmem₀, hkeys₀⟩ := List.mem_filter.mp hr₀
  have hkey₀ : ((r₀.clusterId = some k ∧ r₀.orgId = orgId) ∧ r₀.state ≠ .PROMOTED) ∧
      r₀.state ≠ .DISMISSED := by simpa [promotable] using hkeys₀
  have hids : ∀ r ∈ db.findings.filter (promotable orgId k),
      r.id ∈ (db.findings.filter (promotable orgId k)).map (·.id) :=
    fun r hr => List.mem_map_of_mem hr
  let g := fun r : HuntFindingRow =>
    if decide (r.id ∈ (db.findings.filter (promotable orgId k)).map (·.id) ∧ r.orgId = orgId) then
      promoteRow investigationId r else r
  have hg : ∀ r, (g r).clusterId = r.clusterId := by
    intro r
    simp only [g]
    split <;> rfl
  have hrows : memberRows (db.findings.map g) k = (memberRows db.findings k).map g :=
    memberRows_map hg
  have hstates : ∀ r ∈ memberRows db.findings k, (g r).state = .PROMOTED := by
    intro r hr
    obtain ⟨hmem, hk⟩ := List.mem_filter.mp hr
    have hk : r.clusterId = some k := of_decide_eq_true hk
    by_cases hdone : r.state = .PROMOTED
    · simp only [g]
      split
      · rfl
      · exact hdone
    · have horg : r.orgId = orgId :=
        (member_orgId h hmem hmem₀ hk hkey₀.1.1.1).trans hkey₀.1.1.2
      have hpick : r ∈ db.findings.filter (promotable orgId k) := by
        simp [List.mem_filter, promotable, hmem, hk, horg, hdone, h.live r hmem]
      have hhit : r.id ∈ (db.findings.filter (promotable orgId k)).map (·.id) ∧ r.orgId = orgId :=
        ⟨hids r hpick, horg⟩
      simp only [g, decide_eq_true hhit, if_true]
      rfl
  have hmember₀ : r₀ ∈ memberRows db.findings k := by
    simp [memberRows, hmem₀, hkey₀.1.1.1]
  constructor
  · show ((memberRows (db.findings.map g) k).map (·.state)) ≠ []
    rw [hrows]
    exact List.ne_nil_of_mem (List.mem_map_of_mem (List.mem_map_of_mem hmember₀))
  · show ∀ s ∈ (memberRows (db.findings.map g) k).map (·.state), s = .PROMOTED
    rw [hrows, List.map_map]
    intro s hs
    obtain ⟨r, hr, rfl⟩ := List.mem_map.mp hs
    exact hstates r hr

theorem kept_promoteCluster {orgId investigationId : String} (h : Kept db)
    (hstep : promoteCluster db now orgId k investigationId = some db') : Kept db' := by
  simp only [promoteCluster, Option.bind_eq_bind, Option.bind_eq_some_iff] at hstep
  obtain ⟨cluster, _, hstep⟩ := hstep
  split at hstep
  · cases hstep
  rename_i hrows
  rw [Option.bind_eq_some_iff] at hstep
  obtain ⟨db₁, hpromote, hlast⟩ := hstep
  cases hlast
  apply kept_setState (kept_promote h hpromote)
  rintro _ _ _
  obtain ⟨r₀, hr₀⟩ := List.exists_mem_of_ne_nil _ hrows
  obtain ⟨hne, hall⟩ := promoted_members h hr₀ hpromote
  exact (stateOf_all (Or.inr rfl) hne hall).symm

end Cluster

theorem kept_step {op : Operation} (h : Kept db) (hg : Surfaces db op)
    (hstep : (service T).step db op = some db') : Kept db' := by
  cases op with
  | recordFinding now req => exact kept_record h hg hstep
  | createSuppression now req => exact kept_create h hstep
  | suppressCluster now clusterId criteria req => exact kept_suppressCluster h hstep
  | promoteToInvestigation now orgId investigationId findingIds => exact kept_promote h hstep
  | promoteCluster now orgId clusterId investigationId => exact kept_promoteCluster h hstep
  | sweepStaleSuppressions now orgId =>
      cases hstep
      exact ⟨h.unique, h.linked, h.live, h.rolledUp⟩

theorem emptyDb_kept : Kept emptyDb := by
  constructor <;> intro _ h <;> cases h

instance (db : HuntDb) : Decidable (RolledUp db) :=
  inferInstanceAs (Decidable (∀ c ∈ db.clusters, _ ∧ _))

instance (db : HuntDb) : ∀ op, Decidable (Surfaces db op)
  | .recordFinding now req => decidable_of_iff
      ((suppressing db now req.orgId req.finding).isSome →
        (findCluster db req.orgId (findingSignature req.finding)).any
          fun c => (memberStates db c.id).any (· ≠ .SUPPRESSED))
      (by simp [Surfaces, Option.any_eq_true])
  | .createSuppression _ _ => isTrue trivial
  | .suppressCluster _ _ _ _ => isTrue trivial
  | .promoteToInvestigation _ _ _ _ => isTrue trivial
  | .promoteCluster _ _ _ _ => isTrue trivial
  | .sweepStaleSuppressions _ _ => isTrue trivial

def serviceLogon (source : HuntSource) : HuntFinding where
  source := source
  domain := .SIGMA
  title := "Service account logon"
  severity := .MEDIUM
  techniqueIds := ["T1078"]
  entities := []
  observables := []
  evidence := OrderedDict.empty

def knownLogons : NewSuppression where
  id := "sup-1"
  orgId := "org-1"
  name := "backup logons"
  reason := "the backup service logs on every night"
  criteria := ⟨some .HUNT_PACK, none, ["T1078"], [], [], []⟩
  expiresInHours := none
  reconfirmInHours := none
  acknowledgeOverbroad := false
  callerRole := "hunter"

def logon (id : String) (source : HuntSource) : NewFinding :=
  ⟨id, "clu-1", "org-1", serviceLogon source⟩

def analystLogons : List Operation :=
  [.createSuppression 0 knownLogons, .recordFinding 1 (logon "hf-1" .MANUAL),
    .recordFinding 2 (logon "hf-2" .HUNT_PACK),
    .promoteToInvestigation 3 "org-1" "inv-1" ["hf-1"]]

end HuntTriage

end BTagent
