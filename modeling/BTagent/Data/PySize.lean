import BTagent.Data.PyRaises
import Mathlib.Tactic.Ring

namespace BTagent

namespace PyValue

variable {F : Type}

-- `int.bit_length`
def bits (n : ℤ) : ℕ := n.natAbs.size

def size : PyValue F → ℕ
  | bool b => bits b.toInt
  | int n => bits n
  | str s => s.length
  | list xs | tuple xs => xs.length
  | dict kvs => kvs.length
  | none | float _ | complex _ _ | ellipsis | method _ _ => 0

mutual

def bulk : PyValue F → ℕ
  | list xs | tuple xs => max xs.length (bulkAll xs)
  | dict kvs => max kvs.length (bulkFields kvs)
  | bool b => bits b.toInt
  | int n => bits n
  | str s => s.length
  | none | float _ | complex _ _ | ellipsis | method _ _ => 0

def bulkAll : List (PyValue F) → ℕ
  | [] => 0
  | x :: xs => max (bulk x) (bulkAll xs)

def bulkFields : List (String × PyValue F) → ℕ
  | [] => 0
  | (k, x) :: kvs => max k.length (max (bulk x) (bulkFields kvs))

end

theorem size_le_bulk (x : PyValue F) : x.size ≤ x.bulk := by
  cases x with
  | list xs | tuple xs => exact Nat.le_max_left _ _
  | dict kvs => exact Nat.le_max_left _ _
  | _ => exact Nat.le_refl _

section Bits
variable {m n : ℤ} {k : ℕ}

theorem bits_le_iff : bits n ≤ k ↔ n.natAbs < 2 ^ k := Nat.size_le

theorem natAbs_lt (n : ℤ) : n.natAbs < 2 ^ bits n := bits_le_iff.mp (Nat.le_refl _)

theorem bits_mono (h : m.natAbs ≤ n.natAbs) : bits m ≤ bits n := Nat.size_le_size h

theorem bits_natCast_le (k : ℕ) : bits k ≤ k := by
  rw [bits_le_iff, Int.natAbs_natCast]
  exact Nat.lt_two_pow_self

theorem bits_neg : bits (-n) = bits n := by
  rw [bits, Int.natAbs_neg]
  rfl

theorem bits_mul : bits (m * n) ≤ bits m + bits n := by
  rw [bits_le_iff, Int.natAbs_mul, pow_add]
  exact Nat.mul_lt_mul'' (natAbs_lt m) (natAbs_lt n)

theorem bits_pos (h : n ≠ 0) : 1 ≤ bits n := Nat.size_pos.mpr (Int.natAbs_pos.mpr h)

theorem bits_add : bits (m + n) ≤ bits m + bits n := by
  by_cases hm : m = 0
  · simp [hm]
  · by_cases hn : n = 0
    · simp [hn]
    · rw [bits_le_iff, pow_add]
      have hsum := Int.natAbs_add_le m n
      have hleft := natAbs_lt m
      have hright := natAbs_lt n
      have htwo : 2 ≤ 2 ^ bits m := Nat.le_self_pow (Nat.pos_iff_ne_zero.mp (bits_pos hm)) 2
      have htwo' : 2 ≤ 2 ^ bits n := Nat.le_self_pow (Nat.pos_iff_ne_zero.mp (bits_pos hn)) 2
      calc (m + n).natAbs < 2 ^ bits m + 2 ^ bits n := by omega
        _ ≤ 2 ^ bits m * 2 ^ bits n := Nat.add_le_mul htwo htwo'

theorem bits_sub : bits (m - n) ≤ bits m + bits n := by
  rw [sub_eq_add_neg, ← bits_neg (n := n)]
  exact bits_add

theorem bits_fdiv : bits (m.fdiv n) ≤ bits m := by
  rcases Int.le_total 0 n with hn | hn
  · rw [Int.fdiv_eq_ediv_of_nonneg m hn]
    exact bits_mono (Int.natAbs_ediv_le_natAbs m n)
  · rw [← Int.neg_fdiv_neg, Int.fdiv_eq_ediv_of_nonneg (-m) (by omega), ← bits_neg (n := m)]
    exact bits_mono (Int.natAbs_ediv_le_natAbs (-m) (-n))

theorem bits_emod (h : 0 < n) : bits (m % n) ≤ bits n := by
  apply bits_mono
  have hlow := Int.emod_nonneg m h.ne'
  have hhigh := Int.emod_lt_of_pos m h
  omega

theorem bits_fmod (h : n ≠ 0) : bits (m.fmod n) ≤ bits n := by
  rcases Int.lt_or_gt_of_ne h with hn | hn
  · have hneg : m.fmod n = -(-m % -n) := by
      rw [← Int.fmod_eq_emod_of_nonneg (-m) (by omega), Int.neg_fmod_neg, Int.neg_neg]
    rw [hneg, bits_neg, ← bits_neg (n := n)]
    exact bits_emod (by omega)
  · rw [Int.fmod_eq_emod_of_nonneg m hn.le]
    exact bits_emod hn

end Bits

section Parts
variable {xs ys : List (PyValue F)} {kvs : List (String × PyValue F)} {x : PyValue F} {k : String}
  {bound : ℕ}

theorem bulkAll_le_iff : bulkAll xs ≤ bound ↔ ∀ x ∈ xs, x.bulk ≤ bound := by
  induction xs with
  | nil => simp [bulkAll]
  | cons x xs ih => simp [bulkAll, ih]

theorem bulk_le_bulkAll (h : x ∈ xs) : x.bulk ≤ bulkAll xs :=
  bulkAll_le_iff.mp (Nat.le_refl _) x h

theorem bulkAll_append : bulkAll (xs ++ ys) ≤ bulkAll xs + bulkAll ys := by
  rw [bulkAll_le_iff]
  intro x hx
  rcases List.mem_append.mp hx with h | h
  · exact (bulk_le_bulkAll h).trans (Nat.le_add_right _ _)
  · exact (bulk_le_bulkAll h).trans (Nat.le_add_left _ _)

theorem bulk_lookup (h : kvs.lookup k = some x) : x.bulk ≤ bulkFields kvs := by
  induction kvs with
  | nil => cases h
  | cons kv kvs ih =>
      obtain ⟨k', y⟩ := kv
      rw [List.lookup_cons] at h
      simp only [bulkFields]
      split at h
      · cases h
        omega
      · exact (ih h).trans (by omega)

theorem key_le_bulkFields (h : (k, x) ∈ kvs) : k.length ≤ bulkFields kvs := by
  induction kvs with
  | nil => cases h
  | cons kv kvs ih =>
      obtain ⟨k', y⟩ := kv
      simp only [bulkFields]
      rcases List.mem_cons.mp h with heq | h
      · cases heq
        omega
      · exact (ih h).trans (by omega)

end Parts

section Operations
variable {I : Interpreter F} {op : Arith} {x y v : PyValue F} {m n : ℤ}

theorem bulk_of_int (h : number? x = some (.int n)) : x.bulk = bits n := by
  cases x with
  | bool b | int n =>
      cases h
      rfl
  | _ => cases h

theorem bulk_arithInt (h : arithInt I op m n = .ok v) : v.bulk ≤ bits m + bits n := by
  cases op with
  | add =>
      cases h
      exact bits_add
  | sub =>
      cases h
      exact bits_sub
  | mult =>
      cases h
      exact bits_mul
  | div =>
      simp only [arithInt] at h
      split at h
      · cases h
      · split at h <;> cases h
        exact Nat.zero_le _
  | floorDiv =>
      simp only [arithInt] at h
      split at h <;> cases h
      exact bits_fdiv.trans (Nat.le_add_right _ _)
  | mod =>
      simp only [arithInt] at h
      split at h
      · cases h
      · next hn =>
          cases h
          exact (bits_fmod hn).trans (Nat.le_add_left _ _)

theorem bulk_arithFloat {a b : F} (h : arithFloat I op a b = .ok v) : v.bulk = 0 := by
  cases op with
  | add | sub | mult =>
      cases h
      rfl
  | div | floorDiv | mod =>
      simp only [arithFloat] at h
      split at h <;> cases h
      rfl

theorem bulk_arithComplex {z w : F × F} (h : arithComplex I op z w = .ok v) : v.bulk = 0 := by
  cases op with
  | add | sub | mult =>
      cases h
      rfl
  | div =>
      simp only [arithComplex] at h
      split at h <;> cases h
      rfl
  | floorDiv | mod => cases h

theorem bulk_arithConverted {a b : Number F} (h : arithConverted I op a b = .ok v) : v.bulk = 0 := by
  unfold arithConverted at h
  split at h
  · cases h
  · obtain ⟨z, -, h⟩ := Except.bind_ok_iff.mp h
    obtain ⟨w, -, h⟩ := Except.bind_ok_iff.mp h
    exact bulk_arithComplex h

theorem bulk_arithNumber {a b : Number F} (h : arithNumber I op a b = .ok v) :
    v.bulk = 0 ∨ ∃ m n, a = .int m ∧ b = .int n ∧ v.bulk ≤ bits m + bits n := by
  cases a with
  | int m =>
      cases b with
      | int n => exact Or.inr ⟨m, n, rfl, rfl, bulk_arithInt h⟩
      | float b =>
          obtain ⟨a, -, h⟩ := Except.bind_ok_iff.mp h
          exact Or.inl (bulk_arithFloat h)
      | complex re im => exact Or.inl (bulk_arithConverted h)
  | float a =>
      cases b with
      | int n =>
          obtain ⟨b, -, h⟩ := Except.bind_ok_iff.mp h
          exact Or.inl (bulk_arithFloat h)
      | float b => exact Or.inl (bulk_arithFloat h)
      | complex re im => exact Or.inl (bulk_arithConverted h)
  | complex re im => cases b <;> exact Or.inl (bulk_arithConverted h)

theorem bulk_arithSequence (hrepeat : op = .mult → isSequence x = false ∧ isSequence y = false)
    (hformat : op = .mod → isText x = false) (h : arithSequence I op x y = .ok v) :
    v.bulk ≤ x.bulk + y.bulk := by
  cases op with
  | add =>
      simp only [arithSequence] at h
      split at h
      · cases h
        simp [bulk]
      · next xs ys =>
          cases h
          have hall : bulkAll (xs ++ ys) ≤ bulkAll xs + bulkAll ys := bulkAll_append
          simp only [bulk, List.length_append]
          omega
      · next xs ys =>
          cases h
          have hall : bulkAll (xs ++ ys) ≤ bulkAll xs + bulkAll ys := bulkAll_append
          simp only [bulk, List.length_append]
          omega
      · cases h
  | mult =>
      obtain ⟨hx, hy⟩ := hrepeat rfl
      have hrepetition : ∀ {z : PyValue F} {n : ℤ}, isSequence z = false →
          repetition z n ≠ .ok v := by
        intro z n hz h
        cases z with
        | str _ | list _ | tuple _ => cases hz
        | _ => cases h
      simp only [arithSequence] at h
      split at h
      · exact absurd h (hrepetition hx)
      · exact absurd h (hrepetition hy)
      · cases h
  | mod =>
      have hx := hformat rfl
      cases x with
      | str _ => cases hx
      | _ => cases h
  | sub | div | floorDiv => cases h

theorem bulk_arith (hrepeat : op = .mult → isSequence x = false ∧ isSequence y = false)
    (hformat : op = .mod → isText x = false) (h : arith I op x y = .ok v) :
    v.bulk ≤ x.bulk + y.bulk := by
  unfold arith at h
  split at h
  · next a b ha hb =>
      rcases bulk_arithNumber h with hzero | ⟨m, n, rfl, rfl, hv⟩
      · omega
      · rwa [bulk_of_int ha, bulk_of_int hb]
  · exact bulk_arithSequence hrepeat hformat h

theorem bulk_negative (h : negative I x = .ok v) : v.bulk ≤ x.bulk := by
  unfold negative at h
  split at h
  · next n hn =>
      cases h
      rw [bulk_of_int hn]
      exact bits_neg.le
  · cases h
    exact Nat.zero_le _
  · cases h
    exact Nat.zero_le _
  · cases h

theorem bulk_positive (h : positive x = .ok v) : v.bulk ≤ x.bulk := by
  unfold positive at h
  split at h
  · next n hn =>
      cases h
      exact (bulk_of_int hn).ge
  · cases h
    exact Nat.zero_le _
  · cases h
    exact Nat.zero_le _
  · cases h

theorem item_mem {α : Type} {xs : List α} {a : α} (h : item xs n = .ok a) : a ∈ xs := by
  unfold item at h
  split at h
  · next b hb =>
      split at h <;> cases h
      exact List.mem_of_getElem? hb
  · cases h

theorem bulk_char {s : String} {c : Char} (h : c ∈ s.toList) :
    (str (String.ofList [c]) : PyValue F).bulk ≤ s.length := by
  have hpos : 1 ≤ s.toList.length := List.length_pos_of_mem h
  rw [String.length_toList] at hpos
  simpa [bulk] using hpos

theorem bulk_getItem (h : getItem x y = .ok v) : v.bulk ≤ x.bulk := by
  cases x with
  | list xs | tuple xs =>
      simp only [getItem] at h
      split at h
      · exact (bulk_le_bulkAll (item_mem h)).trans (Nat.le_max_right _ _)
      · cases h
  | str s =>
      simp only [getItem] at h
      split at h
      · next n hn =>
          cases hitem : item s.toList n with
          | error exc =>
              rw [hitem] at h
              cases h
          | ok c =>
              rw [hitem] at h
              cases h
              exact bulk_char (item_mem hitem)
      · cases h
  | dict kvs =>
      simp only [getItem] at h
      split at h
      · split at h
        · next hlookup =>
            cases h
            exact (bulk_lookup hlookup).trans (Nat.le_max_right _ _)
        · cases h
      · split at h <;> cases h
  | _ => cases h

theorem bulk_plainInt {name : String} (h : plainAttribute.plainInt n name = some v) :
    v.bulk ≤ max 1 (bits n) := by
  unfold plainAttribute.plainInt at h
  split at h <;> cases h
  · exact Nat.le_max_right _ _
  · exact Nat.le_max_right _ _
  · exact Nat.zero_le _
  · exact Nat.le_max_left _ _

theorem bulk_getAttr {name : String} (h : getAttr I x name = .ok v) : v.bulk ≤ max 1 x.bulk := by
  unfold getAttr at h
  split at h
  · next w hplain =>
      cases h
      unfold plainAttribute at hplain
      split at hplain
      · exact bulk_plainInt hplain
      · exact bulk_plainInt hplain
      all_goals
        cases hplain
        try exact Nat.zero_le _
  · split at h <;> cases h
    exact Nat.zero_le _

theorem bulk_len (h : len x = .ok v) : v.bulk ≤ x.bulk := by
  cases x with
  | str s =>
      cases h
      exact bits_natCast_le _
  | list xs | tuple xs =>
      cases h
      exact (bits_natCast_le _).trans (Nat.le_max_left _ _)
  | dict kvs =>
      cases h
      exact (bits_natCast_le _).trans (Nat.le_max_left _ _)
  | _ => cases h

theorem bulk_callLen {xs : List (PyValue F)} (h : callLen xs = .ok v) : v.bulk ≤ bulkAll xs := by
  unfold callLen at h
  split at h
  · exact (bulk_len h).trans (Nat.le_max_left _ _)
  · cases h

theorem bulk_iterate {xs : List (PyValue F)} (h : iterate x = .ok xs) : bulkAll xs ≤ x.bulk := by
  rw [bulkAll_le_iff]
  intro y hy
  cases x with
  | str s =>
      cases h
      obtain ⟨c, hc, rfl⟩ := List.mem_map.mp hy
      exact bulk_char hc
  | list zs | tuple zs =>
      cases h
      exact (bulk_le_bulkAll hy).trans (Nat.le_max_right _ _)
  | dict kvs =>
      cases h
      obtain ⟨⟨k, z⟩, hkv, rfl⟩ := List.mem_map.mp hy
      exact (key_le_bulkFields hkv).trans (Nat.le_max_right _ _)
  | _ => cases h

theorem extremum_mem {r : Inequality} {xs : List (PyValue F)} (h : extremum I r x xs = .ok v) :
    v ∈ x :: xs := by
  induction xs generalizing x with
  | nil =>
      cases h
      exact List.mem_cons_self
  | cons y ys ih =>
      simp only [extremum] at h
      split at h
      · exact List.mem_cons_of_mem _ (ih h)
      · rcases List.mem_cons.mp (ih h) with rfl | h
        · exact List.mem_cons_self
        · exact List.mem_cons_of_mem _ (List.mem_cons_of_mem _ h)
      · cases h

theorem bulk_select {r : Inequality} {xs : List (PyValue F)} (h : select I r xs = .ok v) :
    v.bulk ≤ bulkAll xs := by
  match xs with
  | [] => cases h
  | [x] =>
      obtain ⟨ys, hys, h⟩ := Except.bind_ok_iff.mp h
      cases ys with
      | nil => cases h
      | cons y ys =>
          calc v.bulk ≤ bulkAll (y :: ys) := bulk_le_bulkAll (extremum_mem h)
            _ ≤ x.bulk := bulk_iterate hys
            _ ≤ bulkAll [x] := Nat.le_max_left _ _
  | x :: y :: ys => exact bulk_le_bulkAll (extremum_mem h)

end Operations

end PyValue

end BTagent
