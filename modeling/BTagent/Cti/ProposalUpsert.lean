import BTagent.Cti.Proposals
import Mathlib.Data.List.Nodup

namespace BTagent

namespace PersistRequest

variable {req : PersistRequest} {p q : DetectionProposal} {ps : List DetectionProposal}
  {r : StoredProposal} {rows : List StoredProposal} {s : ProposalUpserts} {k : ℕ}

section Rows

def touch (req : PersistRequest) (p : DetectionProposal) (r : StoredProposal) : StoredProposal :=
  if req.holds p r ∧ r.decided = false then req.refresh p r else r

-- What the whole list makes of a stored row.
def touched (req : PersistRequest) (ps : List DetectionProposal) (r : StoredProposal) :
    StoredProposal := ps.foldl (fun r p => req.touch p r) r

def newRows (req : PersistRequest) : ℕ → List DetectionProposal → List StoredProposal
  | _, [] => []
  | k, p :: ps => req.newRow k p :: newRows req (k + 1) ps

def absent (req : PersistRequest) (rows : List StoredProposal) (p : DetectionProposal) : Bool :=
  (rows.find? (req.holds p)).isNone

@[simp] theorem key_touch : (req.touch p r).key = r.key := by
  unfold touch
  split <;> rfl

@[simp] theorem decided_touch : (req.touch p r).decided = r.decided := by
  unfold touch
  split <;> rfl

@[simp] theorem holds_touch : req.holds q (req.touch p r) = req.holds q r := by
  simp only [holds, key_touch]

@[simp] theorem key_touched : (req.touched ps r).key = r.key := by
  induction ps generalizing r with
  | nil => rfl
  | cons p ps ih => rw [touched, List.foldl_cons, ← touched, ih, key_touch]

@[simp] theorem decided_touched : (req.touched ps r).decided = r.decided := by
  induction ps generalizing r with
  | nil => rfl
  | cons p ps ih => rw [touched, List.foldl_cons, ← touched, ih, decided_touch]

theorem touched_concat : req.touched (ps ++ [p]) r = req.touch p (req.touched ps r) := by
  simp [touched]

theorem touched_of_decided (h : r.decided = true) : req.touched ps r = r := by
  induction ps with
  | nil => rfl
  | cons p ps ih =>
      have hp : req.touch p r = r := by simp [touch, h]
      rw [touched, List.foldl_cons, hp, ← touched, ih]

theorem absent_map {f : StoredProposal → StoredProposal} (hf : ∀ r, (f r).key = r.key) :
    req.absent (rows.map f) p = req.absent rows p := by
  have hholds : (req.holds p ∘ f) = req.holds p := by
    funext r
    simp only [Function.comp_apply, holds, hf]
  rw [absent, List.find?_map, hholds, Option.isNone_map, absent]

theorem newRows_concat : req.newRows k (ps ++ [p]) =
    req.newRows k ps ++ [req.newRow (k + ps.length) p] := by
  induction ps generalizing k with
  | nil => rfl
  | cons q ps ih =>
      rw [List.cons_append, newRows, ih, newRows, List.length_cons, Nat.add_right_comm,
        Nat.add_assoc, List.cons_append]

theorem mem_newRows (h : r ∈ req.newRows k ps) : ∃ p ∈ ps, ∃ k, r = req.newRow k p := by
  induction ps generalizing k with
  | nil => cases h
  | cons p ps ih =>
      rcases List.mem_cons.mp h with rfl | h
      · exact ⟨p, List.mem_cons_self, k, rfl⟩
      · obtain ⟨q, hq, hr⟩ := ih h
        exact ⟨q, List.mem_cons_of_mem _ hq, hr⟩

theorem newRow_mem (req : PersistRequest) (k : ℕ) (h : p ∈ ps) : ∃ j, req.newRow j p ∈ req.newRows k ps := by
  induction ps generalizing k with
  | nil => cases h
  | cons q ps ih =>
      rcases List.mem_cons.mp h with rfl | h
      · exact ⟨k, List.mem_cons_self⟩
      · obtain ⟨j, hj⟩ := ih (k + 1) h
        exact ⟨j, List.mem_cons_of_mem _ hj⟩

theorem keys_newRows : (req.newRows k ps).map StoredProposal.key =
    ps.map fun p => (req.orgId, p.sourceStixId) := by
  induction ps generalizing k with
  | nil => rfl
  | cons p ps ih => rw [newRows, List.map_cons, ih, List.map_cons]; rfl

theorem absent_iff : req.absent rows p = true ↔ ∀ r ∈ rows, r.key ≠ (req.orgId, p.sourceStixId) := by
  simp [absent, holds]

end Rows

section Loop

theorem eq_of_holds (hunique : (rows.map StoredProposal.key).Nodup) {r r' : StoredProposal}
    (hr : r ∈ rows) (hr' : r' ∈ rows) (h : req.holds p r = true) (h' : req.holds p r' = true) :
    r = r' := by
  have hkey : r.key = r'.key := (of_decide_eq_true h).trans (of_decide_eq_true h').symm
  exact List.inj_on_of_nodup_map hunique hr hr' hkey

theorem upsert_rows (hunique : (s.rows.map StoredProposal.key).Nodup) :
    (req.upsert s p).rows = s.rows.map (req.touch p) := by
  have hsame : ∀ {rows : List StoredProposal}, (∀ r ∈ rows, req.touch p r = r) →
      rows = rows.map (req.touch p) := by
    intro rows hall
    rw [List.map_congr_left hall, List.map_id']
  unfold upsert
  cases hfind : s.rows.find? (req.holds p) with
  | none =>
      apply hsame
      intro r hr
      have hnone := List.find?_eq_none.mp hfind r hr
      simp [touch, hnone]
  | some r =>
      have hr := List.mem_of_find?_eq_some hfind
      have hholds : req.holds p r = true := List.find?_some hfind
      by_cases hdecided : r.decided = true
      · simp only [hdecided, if_true]
        apply hsame
        intro r' hr'
        by_cases hholds' : req.holds p r' = true
        · have hdecided' : r'.decided = true := eq_of_holds hunique hr hr' hholds hholds' ▸ hdecided
          simp [touch, hdecided']
        · simp [touch, hholds']
      · simp only [hdecided]
        apply List.map_congr_left
        intro r' hr'
        by_cases hholds' : req.holds p r' = true
        · have hundecided : r'.decided = false :=
            eq_of_holds hunique hr hr' hholds hholds' ▸ Bool.eq_false_of_not_eq_true hdecided
          simp [touch, hholds', hundecided]
        · simp [touch, hholds']

theorem upsert_added (req : PersistRequest) (s : ProposalUpserts) (p : DetectionProposal) :
    (req.upsert s p).added =
      s.added ++ (if req.absent s.rows p then [req.newRow s.created p] else []) ∧
    (req.upsert s p).created = s.created + (if req.absent s.rows p then 1 else 0) ∧
    (req.upsert s p).created + (req.upsert s p).updated + (req.upsert s p).unchanged =
      s.created + s.updated + s.unchanged + 1 := by
  unfold upsert absent
  cases hfind : s.rows.find? (req.holds p) with
  | none =>
      refine ⟨rfl, rfl, ?_⟩
      simp only
      omega
  | some r =>
      by_cases hdecided : r.decided = true
      · simp only [hdecided, if_true]
        simp
        omega
      · simp only [hdecided]
        simp
        omega

-- What the loop makes of the rows, whatever is repeated in the list.
theorem foldl_upsert (req : PersistRequest) (ps : List DetectionProposal)
    (hunique : (rows.map StoredProposal.key).Nodup) :
    let s := ps.foldl req.upsert ⟨rows, [], 0, 0, 0⟩
    s.rows = rows.map (req.touched ps) ∧ s.added = req.newRows 0 (ps.filter (req.absent rows)) ∧
      s.created = (ps.filter (req.absent rows)).length ∧
      s.created + s.updated + s.unchanged = ps.length := by
  induction ps using List.reverseRecOn with
  | nil => exact ⟨(List.map_id' rows).symm, rfl, rfl, rfl⟩
  | append_singleton ps p ih =>
      simp only [List.foldl_concat]
      generalize ps.foldl req.upsert ⟨rows, [], 0, 0, 0⟩ = s at ih ⊢
      obtain ⟨hrows, hadded, hcreated, hsum⟩ := ih
      have hkeys : (s.rows.map StoredProposal.key).Nodup := by
        rw [hrows, List.map_map]
        have hcomp : StoredProposal.key ∘ req.touched ps = StoredProposal.key := by
          funext r
          exact key_touched
        rwa [hcomp]
      have habsent : req.absent s.rows p = req.absent rows p := by
        rw [hrows]
        exact absent_map fun r => key_touched
      obtain ⟨hadd, hcount, htotal⟩ := req.upsert_added s p
      refine ⟨?_, ?_, ?_, ?_⟩
      · rw [upsert_rows hkeys, hrows, List.map_map]
        apply List.map_congr_left
        intro r _
        rw [touched_concat]
        rfl
      · rw [hadd, habsent, hadded, hcreated, List.filter_append]
        by_cases hp : req.absent rows p = true
        · simp [hp, newRows_concat]
        · simp [hp]
      · rw [hcount, habsent, hcreated, List.filter_append]
        by_cases hp : req.absent rows p = true
        · simp [hp]
        · simp [hp]
      · rw [htotal, hsum, List.length_append]
        rfl

end Loop

section Storable

-- The last proposal of the list that a stored row takes.
def lastFor (req : PersistRequest) (ps : List DetectionProposal) (r : StoredProposal) :
    Option DetectionProposal := (ps.filter fun p => req.holds p r).getLast?

theorem lastFor_concat : req.lastFor (ps ++ [p]) r =
    if req.holds p r then some p else req.lastFor ps r := by
  unfold lastFor
  by_cases hp : req.holds p r = true
  · simp [hp]
  · simp [hp]

theorem lastFor_holds (h : p ∈ req.lastFor ps r) : p ∈ ps ∧ req.holds p r = true :=
  List.mem_filter.mp (List.mem_of_mem_getLast? h)

theorem storable_congr {a b : StoredProposal} (hid : a.proposalId = b.proposalId)
    (hsource : a.sourceStixId = b.sourceStixId) (htitle : a.title = b.title)
    (hyaml : a.sigmaYaml = b.sigmaYaml) (hrationale : a.rationale = b.rationale)
    (htechniques : a.techniqueIds = b.techniqueIds) (hbundle : a.bundleId = b.bundleId) :
    a.Storable ↔ b.Storable := by
  unfold StoredProposal.Storable
  rw [hid, hsource, htitle, hyaml, hrationale, htechniques, hbundle]

theorem bundle_touched (req : PersistRequest) (ps : List DetectionProposal) (r : StoredProposal) :
    (req.touched ps r).bundleId = r.bundleId ∨
    (CtiDetection.truthy req.bundleId = true ∧ (req.touched ps r).bundleId = req.bundleId) := by
  induction ps using List.reverseRecOn with
  | nil => exact Or.inl rfl
  | append_singleton ps p ih =>
      rw [touched_concat]
      unfold touch
      split
      · by_cases hbundle : CtiDetection.truthy req.bundleId = true
        · exact Or.inr ⟨hbundle, by simp [refresh, hbundle]⟩
        · rcases ih with ih | ih
          · exact Or.inl (by simp [refresh, hbundle, ih])
          · exact absurd ih.1 hbundle
      · exact ih

theorem storable_refresh_touched :
    (req.refresh p (req.touched ps r)).Storable ↔ (req.refresh p r).Storable := by
  have hkey : (req.touched ps r).key = r.key := key_touched
  have hsource : (req.touched ps r).sourceStixId = r.sourceStixId := congrArg Prod.snd hkey
  refine storable_congr rfl hsource rfl rfl rfl rfl ?_
  simp only [refresh]
  rcases req.bundle_touched ps r with h | ⟨htruthy, h⟩
  · rw [h]
  · simp [htruthy]

theorem storable_touched (hr : r.Storable) : (req.touched ps r).Storable ↔
    (r.decided = false → ∀ p ∈ req.lastFor ps r, (req.refresh p r).Storable) := by
  by_cases hdecided : r.decided = true
  · rw [touched_of_decided hdecided]
    simp [hr, hdecided]
  · have hundecided : r.decided = false := Bool.eq_false_of_not_eq_true hdecided
    simp only [hundecided, true_implies]
    induction ps using List.reverseRecOn with
    | nil => simp [touched, lastFor, hr]
    | append_singleton ps p ih =>
        rw [touched_concat, lastFor_concat]
        by_cases hp : req.holds p r = true
        · have htouch : req.touch p (req.touched ps r) = req.refresh p (req.touched ps r) := by
            have hholds : req.holds p (req.touched ps r) = true := by
              simpa [holds] using hp
            simp [touch, hholds, hundecided]
          rw [htouch, storable_refresh_touched, if_pos hp]
          simp
        · have htouch : req.touch p (req.touched ps r) = req.touched ps r := by
            have hholds : req.holds p (req.touched ps r) = false := by
              simpa [holds] using hp
            simp [touch, hholds]
          rw [htouch, if_neg hp]
          exact ih

end Storable

end PersistRequest

namespace ProposalTable

open PersistRequest

variable {req : PersistRequest} {t t' : ProposalTable} {p : DetectionProposal}
  {ps : List DetectionProposal} {rows : List StoredProposal} {counts : UpsertCounts}

-- Each source id that no stored row has occurs once in the list, and what is written fits its columns.
structure Insertable (req : PersistRequest) (t : ProposalTable) (ps : List DetectionProposal) :
    Prop where
  once : ((ps.filter (req.absent t.rows)).map DetectionProposal.sourceStixId).Nodup
  fits_new : ∀ p ∈ ps, req.absent t.rows p = true → ∀ k, (req.newRow k p).Storable
  fits_stored : ∀ r ∈ t.rows, r.decided = false → ∀ p ∈ req.lastFor ps r, (req.refresh p r).Storable

theorem storable_newRow {j k : ℕ} : (req.newRow j p).Storable ↔ (req.newRow k p).Storable :=
  storable_congr rfl rfl rfl rfl rfl rfl rfl

theorem flush_ok_iff : (∃ t, flush rows = .ok t) ↔
    (rows.map StoredProposal.key).Nodup ∧ ∀ r ∈ rows, r.Storable := by
  unfold flush
  split_ifs with hunique hstorable
  · exact iff_of_true ⟨_, rfl⟩ ⟨hunique, hstorable⟩
  · refine iff_of_false ?_ fun h => hstorable h.2
    rintro ⟨t, ht⟩
    cases ht
  · refine iff_of_false ?_ fun h => hunique h.1
    rintro ⟨t, ht⟩
    cases ht

theorem flush_rows (h : flush rows = .ok t) : t.rows = rows := by
  unfold flush at h
  split_ifs at h with hunique hstorable
  cases h
  rfl

theorem persist_eq : t.persistProposals req ps =
    (flush (t.rows.map (req.touched ps) ++ req.newRows 0 (ps.filter (req.absent t.rows)))).map
      fun t' => (t', ⟨(ps.foldl req.upsert ⟨t.rows, [], 0, 0, 0⟩).created,
        (ps.foldl req.upsert ⟨t.rows, [], 0, 0, 0⟩).updated,
        (ps.foldl req.upsert ⟨t.rows, [], 0, 0, 0⟩).unchanged⟩) := by
  obtain ⟨hrows, hadded, -, -⟩ := foldl_upsert req ps t.unique
  rw [persistProposals, ← hrows, ← hadded]

theorem persisted_rows (h : t.persistProposals req ps = .ok (t', counts)) :
    t'.rows = t.rows.map (req.touched ps) ++ req.newRows 0 (ps.filter (req.absent t.rows)) ∧
      counts.created = (ps.filter (req.absent t.rows)).length ∧
      counts.created + counts.updated + counts.unchanged = ps.length := by
  obtain ⟨-, -, hcreated, hsum⟩ := foldl_upsert req ps t.unique
  rw [persist_eq] at h
  cases hflush : flush (t.rows.map (req.touched ps) ++
      req.newRows 0 (ps.filter (req.absent t.rows))) with
  | error e =>
      rw [hflush] at h
      cases h
  | ok u =>
      rw [hflush] at h
      cases h
      exact ⟨flush_rows hflush, hcreated, hsum⟩

theorem persist_ok_iff : (∃ t' counts, t.persistProposals req ps = .ok (t', counts)) ↔
    Insertable req t ps := by
  have hkeys : (t.rows.map (req.touched ps)).map StoredProposal.key = t.rows.map StoredProposal.key := by
    rw [List.map_map]
    exact List.map_congr_left fun r _ => key_touched
  have hok : (∃ t' counts, t.persistProposals req ps = .ok (t', counts)) ↔
      ∃ u, flush (t.rows.map (req.touched ps) ++
        req.newRows 0 (ps.filter (req.absent t.rows))) = .ok u := by
    rw [persist_eq]
    cases flush (t.rows.map (req.touched ps) ++
        req.newRows 0 (ps.filter (req.absent t.rows))) with
    | error e => simp [Except.map]
    | ok u => simp [Except.map]
  rw [hok, flush_ok_iff, List.map_append, hkeys, keys_newRows, List.nodup_append]
  have hdisjoint : ∀ a ∈ t.rows.map StoredProposal.key,
      ∀ b ∈ (ps.filter (req.absent t.rows)).map fun p => (req.orgId, p.sourceStixId), a ≠ b := by
    intro a ha b hb
    obtain ⟨r, hr, rfl⟩ := List.mem_map.mp ha
    obtain ⟨p, hp, rfl⟩ := List.mem_map.mp hb
    exact absent_iff.mp (List.mem_filter.mp hp).2 r hr
  have honce : ((ps.filter (req.absent t.rows)).map fun p => (req.orgId, p.sourceStixId)).Nodup ↔
      ((ps.filter (req.absent t.rows)).map DetectionProposal.sourceStixId).Nodup := by
    have hpairs : (ps.filter (req.absent t.rows)).map (fun p => (req.orgId, p.sourceStixId)) =
        ((ps.filter (req.absent t.rows)).map DetectionProposal.sourceStixId).map
          (Prod.mk req.orgId) := by
      rw [List.map_map]
      rfl
    rw [hpairs, List.nodup_map_iff (Prod.mk_right_injective req.orgId)]
  constructor
  · rintro ⟨⟨-, hnodup, -⟩, hall⟩
    refine ⟨honce.mp hnodup, ?_, ?_⟩
    · intro p hp habsent k
      obtain ⟨j, hj⟩ := req.newRow_mem 0 (List.mem_filter.mpr ⟨hp, habsent⟩)
      exact storable_newRow.mp (hall _ (List.mem_append_right _ hj))
    · intro r hr
      have hmem := List.mem_map_of_mem (f := req.touched ps) hr
      exact (storable_touched (t.storable r hr)).mp (hall _ (List.mem_append_left _ hmem))
  · intro h
    refine ⟨⟨t.unique, honce.mpr h.once, hdisjoint⟩, ?_⟩
    intro r hr
    rcases List.mem_append.mp hr with hr | hr
    · obtain ⟨r', hr', rfl⟩ := List.mem_map.mp hr
      exact (storable_touched (t.storable r' hr')).mpr (h.fits_stored r' hr')
    · obtain ⟨p, hp, k, rfl⟩ := mem_newRows hr
      obtain ⟨hp, habsent⟩ := List.mem_filter.mp hp
      exact h.fits_new p hp habsent k

-- What is promised of a list of proposals.
structure UpsertsAll (req : PersistRequest) (t : ProposalTable) (ps : List DetectionProposal)
    (t' : ProposalTable) (counts : UpsertCounts) : Prop where
  one_row : ∀ p ∈ ps, ∃ r, t'.rows.filter (req.holds p) = [r]
  decided_kept : ∀ r ∈ t.rows, r.decided = true → r ∈ t'.rows
  counted : counts.created + counts.updated + counts.unchanged = ps.length
  again : ∃ t'' updated unchanged, t'.persistProposals req ps = .ok (t'', ⟨0, updated, unchanged⟩)

theorem absent_persisted (hrows : t'.rows = t.rows.map (req.touched ps) ++
      req.newRows 0 (ps.filter (req.absent t.rows))) (hp : p ∈ ps) :
    req.absent t'.rows p = false := by
  rw [← Bool.not_eq_true, absent_iff]
  intro hnone
  by_cases habsent : req.absent t.rows p = true
  · obtain ⟨j, hj⟩ := req.newRow_mem 0 (List.mem_filter.mpr ⟨hp, habsent⟩)
    exact hnone _ (hrows ▸ List.mem_append_right _ hj) rfl
  · rw [absent_iff] at habsent
    push Not at habsent
    obtain ⟨r, hr, hkey⟩ := habsent
    have hmem : req.touched ps r ∈ t'.rows :=
      hrows ▸ List.mem_append_left _ (List.mem_map_of_mem hr)
    exact hnone _ hmem (key_touched.trans hkey)

theorem one_row_of_not_absent (h : req.absent t.rows p = false) :
    ∃ r, t.rows.filter (req.holds p) = [r] := by
  obtain ⟨r, hfind⟩ := Option.isSome_iff_exists.mp (Option.isNone_eq_false_iff.mp h)
  obtain ⟨hholds, before, after, hsplit, hbefore⟩ := List.find?_eq_some_iff_append.mp hfind
  refine ⟨r, ?_⟩
  have hafter : ∀ r' ∈ after, ¬req.holds p r' = true := by
    intro r' hr' hholds'
    have hunique := t.unique
    rw [hsplit, List.map_append, List.map_cons] at hunique
    have hnot := (List.nodup_cons.mp hunique.of_append_right).1
    have hkey : r'.key = r.key := (of_decide_eq_true hholds').trans (of_decide_eq_true hholds).symm
    exact hnot (hkey ▸ List.mem_map_of_mem hr')
  have hnone : before.filter (req.holds p) = [] :=
    List.filter_eq_nil_iff.mpr fun r' hr' => by simpa using hbefore r' hr'
  rw [hsplit, List.filter_append, hnone, List.filter_cons_of_pos hholds,
    List.filter_eq_nil_iff.mpr hafter]
  rfl

theorem upserts_of_insertable (h : Insertable req t ps)
    (hok : t.persistProposals req ps = .ok (t', counts)) : UpsertsAll req t ps t' counts := by
  obtain ⟨hrows, -, hsum⟩ := persisted_rows hok
  have hnone : ps.filter (req.absent t'.rows) = [] := by
    rw [List.filter_eq_nil_iff]
    intro p hp
    simp [absent_persisted hrows hp]
  refine ⟨fun p hp => one_row_of_not_absent (absent_persisted hrows hp), ?_, hsum, ?_⟩
  · intro r hr hdecided
    rw [hrows]
    have hmem := List.mem_map_of_mem (f := req.touched ps) hr
    rw [touched_of_decided hdecided] at hmem
    exact List.mem_append_left _ hmem
  · have hagain : Insertable req t' ps := by
      refine ⟨?_, ?_, ?_⟩
      · rw [hnone]
        exact List.nodup_nil
      · intro p hp habsent
        rw [absent_persisted hrows hp] at habsent
        cases habsent
      · intro r hr hundecided p hlast
        rw [hrows] at hr
        rcases List.mem_append.mp hr with hr | hr
        · obtain ⟨r', hr', rfl⟩ := List.mem_map.mp hr
          rw [storable_refresh_touched]
          rw [decided_touched] at hundecided
          have hsame : req.lastFor ps (req.touched ps r') = req.lastFor ps r' := by
            simp only [lastFor, holds, key_touched]
          exact h.fits_stored r' hr' hundecided p (hsame ▸ hlast)
        · obtain ⟨q, hq, k, rfl⟩ := mem_newRows hr
          obtain ⟨hp, hholds⟩ := lastFor_holds hlast
          obtain ⟨-, habsent⟩ := List.mem_filter.mp hq
          have hkey : (req.orgId, q.sourceStixId) = (req.orgId, p.sourceStixId) :=
            of_decide_eq_true hholds
          have hsource : q.sourceStixId = p.sourceStixId := congrArg Prod.snd hkey
          have habsent' : req.absent t.rows p = true := by
            rw [absent_iff] at habsent ⊢
            rwa [← hkey]
          have hfits := h.fits_new p hp habsent' 0
          have hsame : (req.refresh p (req.newRow k q)).Storable ↔ (req.newRow 0 p).Storable := by
            refine storable_congr rfl hsource rfl rfl rfl rfl ?_
            simp [refresh, newRow]
          exact hsame.mpr hfits
    obtain ⟨t'', counts', hsecond⟩ := persist_ok_iff.mpr hagain
    obtain ⟨-, hcreated, -⟩ := persisted_rows hsecond
    rw [hnone] at hcreated
    obtain ⟨created, updated, unchanged⟩ := counts'
    cases hcreated
    exact ⟨t'', updated, unchanged, hsecond⟩

-- The upsert is total and idempotent exactly where no new source id is repeated.
theorem upsert_total_iff (req : PersistRequest) (t : ProposalTable) (ps : List DetectionProposal) :
    (∃ t' counts, t.persistProposals req ps = .ok (t', counts) ∧ UpsertsAll req t ps t' counts) ↔
      Insertable req t ps := by
  rw [← persist_ok_iff]
  constructor
  · rintro ⟨t', counts, hok, -⟩
    exact ⟨t', counts, hok⟩
  · rintro ⟨t', counts, hok⟩
    exact ⟨t', counts, hok, upserts_of_insertable (persist_ok_iff.mp ⟨t', counts, hok⟩) hok⟩

-- Two versions of one indicator in a bundle, with different patterns.
def versions : List DetectionProposal :=
  ["c2.example", "c3.example"].map fun domain =>
    { id := "prop_1"
      sourceStixId := "indicator--1"
      title := "CTI-Derived Detection: Domain Name IOC — " ++ domain
      sigmaYaml := "title: " ++ domain
      techniqueIds := ["T1071.001"]
      confidence := 1 / 2
      rationale := "" }

def firstImport : PersistRequest := ⟨"org_1", some "bundle--1", fun _ _ _ => none, fun _ => "dprop_1"⟩

def noProposals : ProposalTable := ⟨[], List.nodup_nil, by simp⟩

theorem versions_refused : ¬∃ t counts,
    noProposals.persistProposals firstImport versions = .ok (t, counts) ∧
      UpsertsAll firstImport noProposals versions t counts := by
  rintro ⟨t, counts, hok, -⟩
  have hinsertable : Insertable firstImport noProposals versions := persist_ok_iff.mp ⟨t, counts, hok⟩
  exact absurd hinsertable.once (by decide +kernel)

end ProposalTable

end BTagent
