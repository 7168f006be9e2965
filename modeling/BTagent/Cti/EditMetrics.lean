import BTagent.Data.PyFloat
import BTagent.Lib.EditScripts

namespace BTagent

namespace EditExport
open EditScripts PyFloat

def MAX_DISTANCE_CHARS : ℕ := 20000

variable {α : Type*} [DecidableEq α]

-- The entry of the current row at `j`, appended to it; an index past a row raises.
def cell (previous : List ℕ) (ca : α) (current : List ℕ) (jcb : α × ℕ) : Option (List ℕ) := do
  let (cb, j) := jcb
  let deletion ← previous[j]?
  let insertion ← current[j - 1]?
  let substitution ← previous[j - 1]?
  return current ++
    [min (min (deletion + 1) (insertion + 1)) (substitution + if ca = cb then 0 else 1)]

def nextRow (b : List α) (previous : List ℕ) (ica : α × ℕ) : Option (List ℕ) :=
  (b.zipIdx 1).foldlM (cell previous ica.1) [ica.2]

def rows (a b : List α) : Option ℕ := do
  let previous ← (a.zipIdx 1).foldlM (nextRow b) (List.range (b.length + 1))
  previous.getLast?

def levenshtein (a b : List α) : Option ℕ :=
  if a = b then some 0
  else if a = [] then some b.length
  else if b = [] then some a.length
  else if a.length < b.length then rows b a
  else rows a b

structure EditDistanceMetrics where
  charDistance : ℕ
  normalizedDistance : ℚ
  similarity : ℚ
  draftChars : ℕ
  finalChars : ℕ
  truncated : Bool

def computeEditMetrics (draft final : List α) : Option EditDistanceMetrics := do
  let truncated := decide (max draft.length final.length > MAX_DISTANCE_CHARS)
  let a := draft.take MAX_DISTANCE_CHARS
  let b := final.take MAX_DISTANCE_CHARS
  let distance ← levenshtein a b
  let span := max a.length b.length
  let normalized := if span = 0 then 0 else roundDigits (toFloat (distance / span)) 6
  return {
    charDistance := distance
    normalizedDistance := normalized
    similarity := roundDigits (toFloat (1 - normalized)) 6
    draftChars := draft.length
    finalChars := final.length
    truncated := truncated }

section Rows

variable {p b done rest : List α} {row previous current : List ℕ} {ca cb : α}

-- The row of the prefix that is `p` read backwards, against every prefix of `b`.
structure IsRow (p b : List α) (row : List ℕ) : Prop where
  length : row.length = b.length + 1
  entry : ∀ j ≤ b.length, row[j]? = some (distance p (b.take j).reverse)

theorem isRow_first (b : List α) : IsRow [] b (List.range (b.length + 1)) := by
  refine ⟨List.length_range, fun j hj => ?_⟩
  rw [List.getElem?_range (Nat.lt_succ_of_le hj), distance_nil, List.length_reverse,
    List.length_take, Nat.min_eq_left hj]

theorem isRow_start (p : List α) : IsRow p [] [p.length] := by
  refine ⟨rfl, fun j hj => ?_⟩
  obtain rfl := Nat.le_zero.mp hj
  rw [List.take_nil, List.reverse_nil, distance_nil_right]
  rfl

theorem IsRow.last (h : IsRow p b row) : row.getLast? = some (distance p b.reverse) := by
  rw [List.getLast?_eq_getElem?, h.length, Nat.add_sub_cancel, h.entry _ le_rfl, List.take_length]

theorem IsRow.cell (hprevious : IsRow p (done ++ cb :: rest) previous)
    (hcurrent : IsRow (ca :: p) done current) :
    ∃ current', EditExport.cell previous ca current (cb, done.length + 1) = some current' ∧
      IsRow (ca :: p) (done ++ [cb]) current' := by
  have htake : (done ++ cb :: rest).take (done.length + 1) = done ++ [cb] := by
    rw [List.take_append, List.take_of_length_le (Nat.le_succ _), Nat.add_sub_cancel_left]
    rfl
  have hlength : (done ++ cb :: rest).length = done.length + rest.length + 1 := by
    rw [List.length_append, List.length_cons]
    omega
  have hdeletion : previous[done.length + 1]? = some (distance p (cb :: done.reverse)) := by
    rw [hprevious.entry _ (by omega), htake, List.reverse_append]
    rfl
  have hsubstitution : previous[done.length]? = some (distance p done.reverse) := by
    rw [hprevious.entry _ (by omega), List.take_left]
  have hinsertion : current[done.length]? = some (distance (ca :: p) done.reverse) := by
    rw [hcurrent.entry _ le_rfl, List.take_length]
  refine ⟨current ++ [distance (ca :: p) (cb :: done.reverse)], ?_, ?_, fun j hj => ?_⟩
  · simp only [EditExport.cell, hdeletion, hinsertion, hsubstitution, Nat.add_sub_cancel,
      Option.bind_eq_bind, Option.bind_some, Option.pure_def, distance_cons]
  · rw [List.length_append, hcurrent.length, List.length_append]
    rfl
  · rw [List.length_append, List.length_singleton] at hj
    by_cases hlast : j = done.length + 1
    · rw [hlast, List.getElem?_append_right hcurrent.length.le, hcurrent.length, Nat.sub_self,
        List.take_of_length_le (by simp), List.reverse_append]
      rfl
    · have hle : j ≤ done.length := by omega
      rw [List.getElem?_append_left (by rw [hcurrent.length]; omega), hcurrent.entry j hle,
        List.take_append_of_le_length hle]

theorem IsRow.fill (hprevious : IsRow p (done ++ rest) previous)
    (hcurrent : IsRow (ca :: p) done current) :
    ∃ row, (rest.zipIdx (done.length + 1)).foldlM (EditExport.cell previous ca) current = some row ∧
      IsRow (ca :: p) (done ++ rest) row := by
  induction rest generalizing done current with
  | nil =>
      rw [List.append_nil]
      exact ⟨current, rfl, hcurrent⟩
  | cons cb rest ih =>
      obtain ⟨current', hcell, hcurrent'⟩ := hprevious.cell hcurrent
      have happend : done ++ cb :: rest = done ++ [cb] ++ rest := by
        rw [List.append_assoc, List.singleton_append]
      rw [happend] at hprevious ⊢
      obtain ⟨row, hrow, hisRow⟩ := ih hprevious hcurrent'
      refine ⟨row, ?_, hisRow⟩
      rw [List.length_append, List.length_singleton] at hrow
      rw [List.zipIdx_cons, List.foldlM_cons, hcell]
      exact hrow

theorem IsRow.nextRow (ca : α) (h : IsRow p b previous) :
    ∃ row, EditExport.nextRow b previous (ca, p.length + 1) = some row ∧ IsRow (ca :: p) b row := by
  have hstart : IsRow (ca :: p) [] [p.length + 1] := isRow_start (ca :: p)
  exact h.fill hstart

theorem IsRow.outer (as : List α) (h : IsRow p b previous) :
    ∃ row, (as.zipIdx (p.length + 1)).foldlM (EditExport.nextRow b) previous = some row ∧
      IsRow (as.reverse ++ p) b row := by
  induction as generalizing p previous with
  | nil => exact ⟨previous, rfl, h⟩
  | cons ca as ih =>
      obtain ⟨current, hnext, hcurrent⟩ := h.nextRow ca
      obtain ⟨row, hrow, hisRow⟩ := ih hcurrent
      refine ⟨row, ?_, ?_⟩
      · rw [List.zipIdx_cons, List.foldlM_cons, hnext]
        exact hrow
      · rw [List.reverse_cons, List.append_assoc, List.singleton_append]
        exact hisRow

theorem rows_eq_distance (a b : List α) : rows a b = some (distance a b) := by
  obtain ⟨row, hrow, hisRow⟩ := (isRow_first b).outer a
  have hrow : (a.zipIdx 1).foldlM (nextRow b) (List.range (b.length + 1)) = some row := hrow
  rw [rows, hrow, Option.bind_eq_bind, Option.bind_some, hisRow.last, List.append_nil,
    distance_reverse]

end Rows

theorem levenshtein_eq_distance (a b : List α) : levenshtein a b = some (distance a b) := by
  rw [levenshtein]
  split
  · next hab => rw [hab, distance_self]
  · split
    · next ha => rw [ha, distance_nil]
    · split
      · next hb => rw [hb, distance_nil_right]
      · split
        · rw [rows_eq_distance, distance_comm]
        · exact rows_eq_distance a b

example : levenshtein "kitten".toList "sitting".toList = some 3 := by decide

theorem normalized_mem (a b : List α) :
    0 ≤ (distance a b / (max a.length b.length : ℕ) : ℚ) ∧
      (distance a b / (max a.length b.length : ℕ) : ℚ) ≤ 1 := by
  constructor
  · positivity
  · exact div_le_one_of_le₀ (Nat.cast_le.mpr (distance_le_max a b)) (Nat.cast_nonneg _)

theorem computeEditMetrics_mem (draft final : List α) :
    ∃ metrics, computeEditMetrics draft final = some metrics ∧
      0 ≤ metrics.normalizedDistance ∧ metrics.normalizedDistance ≤ 1 := by
  rw [computeEditMetrics, levenshtein_eq_distance]
  refine ⟨_, rfl, ?_⟩
  simp only
  split
  · exact ⟨le_rfl, zero_le_one⟩
  · obtain ⟨hzero, hone⟩ := normalized_mem (draft.take MAX_DISTANCE_CHARS)
      (final.take MAX_DISTANCE_CHARS)
    exact roundDigits_mem (toFloat_nonneg hzero) (toFloat_le_one hone) 6

theorem levenshtein_is_edit_distance (a b : List α) :
    ∃ n, levenshtein a b = some n ∧ IsLeast {k | Edits k a b} n ∧ levenshtein b a = some n ∧
      (∀ c, ∃ m k, levenshtein a c = some m ∧ levenshtein c b = some k ∧ n ≤ m + k) ∧
      n ≤ max a.length b.length ∧
      ∃ metrics, computeEditMetrics a b = some metrics ∧
        0 ≤ metrics.normalizedDistance ∧ metrics.normalizedDistance ≤ 1 := by
  refine ⟨distance a b, levenshtein_eq_distance a b, distance_isLeast a b, ?_, fun c => ?_,
    distance_le_max a b, computeEditMetrics_mem a b⟩
  · rw [levenshtein_eq_distance, distance_comm]
  · exact ⟨_, _, levenshtein_eq_distance a c, levenshtein_eq_distance c b, distance_triangle a c b⟩

end EditExport

end BTagent
