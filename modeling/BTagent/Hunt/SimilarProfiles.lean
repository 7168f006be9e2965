import BTagent.Hunt.Behavioral
import BTagent.Lib.Monads

namespace BTagent

namespace Behavioral
open Nearest

variable {pg : PgVector} {db : BehavioralDb} {req : SimilarRequest} {query : Centroid}

theorem dot_comm (a b : List ℝ) : dot a b = dot b a := by
  rw [dot, dot, List.zipWith_comm]
  simp only [mul_comm]

def IsZero (v : Centroid) : Prop := dot v.val v.val = 0

theorem cosine_zero {v : Centroid} (h : IsZero query ∨ IsZero v) : cosine query.val v.val = 1 :=
  if_pos h

theorem pgvector_distance {v : Centroid} (hq : ¬ IsZero query) (hv : ¬ IsZero v) :
    pg.distance v query = (cosine query.val v.val : WithTop ℝ) := by
  have hnone : ¬ (IsZero query ∨ IsZero v) := not_or.mpr ⟨hq, hv⟩
  have hcosine : cosine query.val v.val = 1 - dot query.val v.val /
      (√(dot query.val query.val) * √(dot v.val v.val)) := if_neg hnone
  rw [pg.distance_nonzero v query hv hq, hcosine, dot_comm v.val query.val,
    mul_comm (√(dot v.val v.val))]

section Counts
open Classical

variable {rows : List (BehavioralProfileRow × Centroid)} {t : ℝ}

noncomputable def near (query : Centroid) (t : ℝ) (rows : List (BehavioralProfileRow × Centroid)) :
    ℕ :=
  rows.countP fun rc => ¬ IsZero rc.2 ∧ cosine query.val rc.2.val ≤ t

noncomputable def zeros (rows : List (BehavioralProfileRow × Centroid)) : ℕ :=
  rows.countP fun rc => IsZero rc.2

noncomputable def columnDistances (pg : PgVector) (query : Centroid)
    (rows : List (BehavioralProfileRow × Centroid)) : List (WithTop ℝ) :=
  rows.map fun rc => pg.distance rc.2 query

noncomputable def scannedDistances (query : Centroid)
    (rows : List (BehavioralProfileRow × Centroid)) : List (WithTop ℝ) :=
  rows.map fun rc => (cosine query.val rc.2.val : WithTop ℝ)

theorem within_top {xs : List (WithTop ℝ)} : within ⊤ xs = xs.length := by
  rw [within, List.countP_eq_length]
  exact fun x _ => decide_eq_true le_top

theorem within_column (pg : PgVector) (hq : ¬ IsZero query) :
    within (t : WithTop ℝ) (columnDistances pg query rows) = near query t rows := by
  rw [within, columnDistances, List.countP_map, near]
  refine List.countP_congr fun rc _ => ?_
  by_cases hv : IsZero rc.2
  · simp [pg.distance_zero rc.2 query (Or.inl hv), hv]
  · simp [pgvector_distance hq hv, hv]

theorem within_scanned :
    within (t : WithTop ℝ) (scannedDistances query rows) =
      rows.countP fun rc => cosine query.val rc.2.val ≤ t := by
  rw [within, scannedDistances, List.countP_map]
  refine List.countP_congr fun rc _ => ?_
  simp

theorem countP_scanned :
    (rows.countP fun rc => cosine query.val rc.2.val ≤ t) =
      near query t rows + if 1 ≤ t then zeros rows else 0 := by
  induction rows with
  | nil => simp [near, zeros]
  | cons rc rows ih =>
      simp only [near, zeros, List.countP_cons] at ih ⊢
      rw [ih]
      by_cases hv : IsZero rc.2
      · have hone : cosine query.val rc.2.val = 1 := cosine_zero (Or.inr hv)
        by_cases ht : 1 ≤ t
        · simp [hone, hv, ht]
          omega
        · simp [hone, hv, ht]
      · simp only [hv, not_false_eq_true, true_and, decide_false, Bool.false_eq_true, if_false,
          Nat.add_zero]
        omega

theorem length_scanned : (scanned db req).length = min MAX_FALLBACK_SCAN (candidates db req).length := by
  rw [scanned, takeNewest, List.length_take, List.length_mergeSort]

theorem fallback_distances (hquery : toCentroidVector req.vector = some query) :
    (fallback db req).map (fun scored => scored.map fun rd => (rd.2 : WithTop ℝ)) =
      some (smallest (capped req) (scannedDistances query (scanned db req))) := by
  have hscored : (scanned db req).mapM (fun rc =>
      (cosineDistance query.val rc.2.val).map fun distance => (rc.1, distance)) =
        some ((scanned db req).map fun rc => (rc.1, cosine query.val rc.2.val)) := by
    refine Option.mapM_eq_map fun rc _ => ?_
    rw [cosineDistance, if_pos (query.property.trans rc.2.property.symm)]
    rfl
  simp only [fallback, hquery, hscored, Option.bind_eq_bind, Option.bind_some, Option.pure_def,
    Option.map_some]
  rw [map_smallest fun a b => WithTop.coe_le_coe.symm, List.map_map]
  rfl

theorem vectorPath_distances (hquery : toCentroidVector req.vector = some query) :
    (vectorPath pg db req).map (fun scored => scored.map Prod.snd) =
      some (smallest (capped req) (columnDistances pg query (candidates db req))) := by
  simp only [vectorPath, hquery, Option.bind_eq_bind, Option.bind_some, Option.pure_def,
    Option.map_some]
  rw [map_smallest fun a b => Iff.rfl, List.map_map]
  rfl

-- Within every distance, up to the limit, the scan of the newest profiles finds as many as there
-- are, where it counts a zero centroid as one at distance 1.
structure Covered (db : BehavioralDb) (req : SimilarRequest) (query : Centroid) : Prop where
  nonzero : IsZero query → candidates db req = []
  near : ¬ IsZero query → ∀ t : ℝ, min (capped req) (near query t (candidates db req)) =
    min (capped req) (near query t (scanned db req) + if 1 ≤ t then zeros (scanned db req) else 0)
  rows : (candidates db req).length ≤ MAX_FALLBACK_SCAN ∨ capped req ≤ MAX_FALLBACK_SCAN

theorem min_length_iff (pg : PgVector) (query : Centroid) : min (capped req) (columnDistances pg query (candidates db req)).length =
    min (capped req) (scannedDistances query (scanned db req)).length ↔
      (candidates db req).length ≤ MAX_FALLBACK_SCAN ∨ capped req ≤ MAX_FALLBACK_SCAN := by
  rw [columnDistances, List.length_map, scannedDistances, List.length_map, length_scanned]
  omega

theorem capped_pos : 1 ≤ capped req := by
  rw [capped]
  omega

theorem zero_query_iff (hzero : IsZero query) :
    smallest (capped req) (scannedDistances query (scanned db req)) =
        smallest (capped req) (columnDistances pg query (candidates db req)) ↔
      candidates db req = [] := by
  constructor
  · intro h
    have hone := smallest_eq_iff.mp h ((1 : ℝ) : WithTop ℝ)
    have hnone : within ((1 : ℝ) : WithTop ℝ) (columnDistances pg query (candidates db req)) = 0 := by
      rw [within, columnDistances, List.countP_map, List.countP_eq_zero]
      intro rc _ hle
      simp [pg.distance_zero rc.2 query (Or.inr hzero)] at hle
    have hall : within ((1 : ℝ) : WithTop ℝ) (scannedDistances query (scanned db req)) =
        (scanned db req).length := by
      rw [within_scanned, List.countP_eq_length]
      exact fun rc _ => decide_eq_true (cosine_zero (Or.inl hzero)).le
    have hpos : 1 ≤ capped req := capped_pos
    rw [hnone, hall, length_scanned] at hone
    have hempty : (candidates db req).length = 0 := by
      simp only [MAX_FALLBACK_SCAN] at hone
      omega
    exact List.eq_nil_of_length_eq_zero hempty
  · intro hnil
    have hscanned : scanned db req = [] := by
      apply List.eq_nil_of_length_eq_zero
      rw [length_scanned, hnil]
      rfl
    rw [hnil, hscanned]
    rfl

theorem nonzero_query_iff (hzero : ¬ IsZero query) :
    smallest (capped req) (scannedDistances query (scanned db req)) =
        smallest (capped req) (columnDistances pg query (candidates db req)) ↔
      (∀ t : ℝ, min (capped req) (near query t (candidates db req)) = min (capped req)
        (near query t (scanned db req) + if 1 ≤ t then zeros (scanned db req) else 0)) ∧
      ((candidates db req).length ≤ MAX_FALLBACK_SCAN ∨ capped req ≤ MAX_FALLBACK_SCAN) := by
  rw [smallest_eq_iff, ← min_length_iff pg query]
  constructor
  · intro h
    refine ⟨fun t => ?_, ?_⟩
    · rw [← countP_scanned, ← within_scanned, ← within_column pg hzero]
      exact (h t).symm
    · rw [← within_top, ← within_top]
      exact (h ⊤).symm
  · rintro ⟨hnear, hlength⟩ t
    induction t with
    | top =>
        rw [within_top, within_top]
        exact hlength.symm
    | coe t =>
        rw [within_scanned, countP_scanned, within_column pg hzero]
        exact (hnear t).symm

theorem covered_iff : Covered db req query ↔
    smallest (capped req) (scannedDistances query (scanned db req)) =
      smallest (capped req) (columnDistances pg query (candidates db req)) := by
  by_cases hzero : IsZero query
  · rw [zero_query_iff hzero]
    constructor
    · exact fun h => h.nonzero hzero
    · intro hnil
      refine ⟨fun _ => hnil, fun hnot => absurd hzero hnot, Or.inl ?_⟩
      rw [hnil]
      exact Nat.zero_le _
  · rw [nonzero_query_iff hzero]
    exact ⟨fun h => ⟨h.near hzero, h.rows⟩, fun h => ⟨fun hq => absurd hq hzero, fun _ => h.1, h.2⟩⟩

end Counts

section Example
open Classical

noncomputable def exactColumn : PgVector where
  distance a b := if IsZero a ∨ IsZero b then ⊤
    else ((1 - dot a.val b.val / (√(dot a.val a.val) * √(dot b.val b.val)) : ℝ) : WithTop ℝ)
  distance_nonzero _ _ ha hb := if_neg (not_or.mpr ⟨ha, hb⟩)
  distance_zero _ _ h := if_pos h

def padded (x : ℝ) (n : ℕ) : List ℝ := x :: List.replicate n 0

theorem dot_padded (x y : ℝ) (n : ℕ) : dot (padded x n) (padded y n) = x * y := by
  rw [dot, padded, padded, List.zipWith_cons_cons, List.zipWith_replicate, mul_zero, List.sum_cons,
    List.sum_replicate, smul_zero, add_zero]

theorem length_padded (x : ℝ) (n : ℕ) : (padded x n).length = n + 1 := by
  rw [padded, List.length_cons, List.length_replicate]

def axis (x : ℝ) : Centroid := ⟨padded x 1535, length_padded x 1535⟩

theorem dot_axis (x y : ℝ) : dot (axis x).val (axis y).val = x * y := dot_padded x y 1535

theorem cosine_axis {x y : ℝ} (hx : x ≠ 0) (hy : y ≠ 0) :
    cosine (axis x).val (axis y).val = 1 - x * y / (√(x * x) * √(y * y)) := by
  rw [cosine, dot_axis, dot_axis, dot_axis, if_neg]
  simp [hx, hy]

-- Five hundred profiles that point away, and an older one that points the same way.
noncomputable def awayRow (i : ℕ) : String × BehavioralProfileRow :=
  (String.ofList (List.replicate i 'p'),
    { orgId := "org_1", entityId := "bent_1", profileType := .CMDLINE_EMBEDDING
      centroid := some (axis (if i = 500 then 1 else -1)), frequencyMap := .empty, patternCount := 0
      sampleSize := 1, windowEnd := 500 - i })

theorem awayRows_nodup (n : ℕ) : (((List.range n).map awayRow).map Prod.fst).Nodup := by
  rw [List.map_map]
  refine List.Nodup.map_on ?_ List.nodup_range
  intro a _ b _ h
  have hlength := congrArg (fun s => s.toList.length) h
  simpa [awayRow] using hlength

noncomputable def awayDb (n : ℕ) : BehavioralDb where
  entities := OrderedDict.empty.set "bent_1" ⟨"bent_1", "org_1", none⟩
  profiles := ⟨(List.range n).map awayRow, awayRows_nodup n⟩
  outliers := .empty

noncomputable def nearestRequest : SimilarRequest where
  orgId := "org_1"
  vector := [1]
  profileType := none
  excludeEntityId := none
  limit := 1

theorem awayDb_candidates (n : ℕ) : candidates (awayDb n) nearestRequest =
    (List.range n).map fun i => ((awayRow i).2, axis (if i = 500 then 1 else -1)) := by
  have hentries : (awayDb n).profiles.entries = (List.range n).map awayRow := rfl
  rw [candidates, hentries, List.map_map, List.filterMap_map]
  conv_rhs => rw [← List.filterMap_eq_map]
  refine List.filterMap_congr fun i _ => ?_
  have hactive : active (awayDb n) "bent_1" = true := rfl
  have hclauses : (awayRow i).2.orgId = nearestRequest.orgId ∧
      active (awayDb n) (awayRow i).2.entityId ∧
      (∀ profileType ∈ nearestRequest.profileType, (awayRow i).2.profileType = profileType) ∧
      ∀ entityId ∈ nearestRequest.excludeEntityId, (awayRow i).2.entityId ≠ entityId := by
    refine ⟨rfl, hactive, ?_, ?_⟩
    · rintro _ ⟨⟩
    · rintro _ ⟨⟩
  exact if_pos (e := none) hclauses

theorem awayDb_scanned : scanned (awayDb 501) nearestRequest =
    (List.range 500).map fun i => ((awayRow i).2, axis (if i = 500 then 1 else -1)) := by
  have hsorted : ((List.range 501).map fun i =>
      ((awayRow i).2, axis (if i = 500 then 1 else -1))).Pairwise fun a b =>
        decide (b.1.windowEnd ≤ a.1.windowEnd) = true := by
    rw [List.pairwise_map]
    refine List.pairwise_lt_range.imp fun {i j} hij => ?_
    rw [decide_eq_true_eq]
    exact Nat.sub_le_sub_left hij.le 500
  rw [scanned, awayDb_candidates, takeNewest, List.mergeSort_of_pairwise hsorted, ← List.map_take,
    List.take_range]
  rfl

end Example

end Behavioral

end BTagent
