import Mathlib.Data.List.Sort
import Mathlib.Order.Lattice

-- `ORDER BY value LIMIT k`: sorted lists, what stands at a place in them, and how many of the first
-- `k` values lie within a bound.
namespace Nearest

variable {α β : Type*}

def smallest [LinearOrder α] (k : ℕ) (xs : List α) : List α := (xs.insertionSort (· ≤ ·)).take k

section Ranks
variable {r : α → α → Prop} [DecidableRel r] [BEq α] [LawfulBEq α] {xs : List α} {a : α}

-- In a sorted list of different values, as many values stand before one as come before it.
theorem idxOf_eq_countP (hsorted : xs.Pairwise r) (hirrefl : ∀ a, ¬ r a a)
    (hasymm : ∀ a b, r a b → ¬ r b a) (ha : a ∈ xs) :
    xs.idxOf a = xs.countP fun b => r b a := by
  induction xs with
  | nil => cases ha
  | cons x xs ih =>
      obtain ⟨hx, hrest⟩ := List.pairwise_cons.mp hsorted
      by_cases heq : x = a
      · subst heq
        rw [List.idxOf_cons_self, List.countP_cons, decide_eq_false (hirrefl x)]
        have hnone : xs.countP (fun b => r b x) = 0 := by
          rw [List.countP_eq_zero]
          intro b hb hbefore
          exact hasymm x b (hx b hb) (of_decide_eq_true hbefore)
        rw [hnone]
        rfl
      · have hmem : a ∈ xs := (List.mem_cons.mp ha).resolve_left (Ne.symm heq)
        rw [List.idxOf_cons_ne _ heq, ih hrest hmem, List.countP_cons,
          decide_eq_true (hx a hmem)]
        rfl

end Ranks

section Counts
variable [LinearOrder α] {xs ys : List α} {k : ℕ} {t : α}

def within (t : α) (xs : List α) : ℕ := xs.countP fun x => x ≤ t

theorem within_take (hsorted : xs.Pairwise (· ≤ ·)) :
    within t (xs.take k) = min k (within t xs) := by
  induction xs generalizing k with
  | nil => simp [within]
  | cons x xs ih =>
      obtain ⟨hx, hrest⟩ := List.pairwise_cons.mp hsorted
      cases k with
      | zero => simp [within]
      | succ k =>
          have hstep := ih hrest (k := k)
          simp only [within, List.take_succ_cons, List.countP_cons] at hstep ⊢
          by_cases ht : x ≤ t
          · rw [hstep, decide_eq_true ht]
            simp only [if_true]
            omega
          · have hnone : xs.countP (fun y => decide (y ≤ t)) = 0 := by
              rw [List.countP_eq_zero]
              intro y hy hle
              exact ht ((hx y hy).trans (of_decide_eq_true hle))
            rw [hstep, decide_eq_false ht, hnone]
            simp

-- The first values of two lists are read off at the first value of either.
theorem eq_of_within (hxs : xs.Pairwise (· ≤ ·)) (hys : ys.Pairwise (· ≤ ·))
    (h : ∀ t, within t xs = within t ys) : xs = ys := by
  have hpos : ∀ {zs : List α} {z : α}, 0 < within z zs → ∃ y ∈ zs, y ≤ z := by
    intro zs z hz
    obtain ⟨y, hy, hle⟩ := List.countP_pos_iff.mp hz
    exact ⟨y, hy, of_decide_eq_true hle⟩
  have hself : ∀ (z : α) (zs : List α), 0 < within z (z :: zs) := by
    intro z zs
    exact List.countP_pos_iff.mpr ⟨z, List.mem_cons_self, decide_eq_true le_rfl⟩
  induction xs generalizing ys with
  | nil =>
      cases ys with
      | nil => rfl
      | cons y ys =>
          have hy := h y ▸ hself y ys
          cases hy
  | cons x xs ih =>
      cases ys with
      | nil =>
          have hx := h x ▸ hself x xs
          cases hx
      | cons y ys =>
          obtain ⟨hx, hxrest⟩ := List.pairwise_cons.mp hxs
          obtain ⟨hy, hyrest⟩ := List.pairwise_cons.mp hys
          have hyx : y ≤ x := by
            obtain ⟨z, hz, hle⟩ := hpos (h x ▸ hself x xs)
            rcases List.mem_cons.mp hz with rfl | hz
            · exact hle
            · exact (hy z hz).trans hle
          have hxy : x ≤ y := by
            obtain ⟨z, hz, hle⟩ := hpos ((h y).symm ▸ hself y ys)
            rcases List.mem_cons.mp hz with rfl | hz
            · exact hle
            · exact (hx z hz).trans hle
          obtain rfl := le_antisymm hxy hyx
          refine congrArg _ (ih hxrest hyrest fun t => ?_)
          have ht := h t
          simp only [within, List.countP_cons] at ht ⊢
          omega

theorem within_insertionSort : within t (xs.insertionSort (· ≤ ·)) = within t xs :=
  (List.perm_insertionSort _ xs).countP_eq _

theorem smallest_eq_iff :
    smallest k xs = smallest k ys ↔ ∀ t, min k (within t xs) = min k (within t ys) := by
  have hsorted : ∀ zs : List α, (zs.insertionSort (· ≤ ·)).Pairwise (· ≤ ·) :=
    fun zs => List.pairwise_insertionSort _ _
  have hcount : ∀ (zs : List α) (t : α), within t (smallest k zs) = min k (within t zs) := by
    intro zs t
    rw [smallest, within_take (hsorted zs), within_insertionSort]
  constructor
  · intro h t
    rw [← hcount, ← hcount, h]
  · intro h
    refine eq_of_within ?_ ?_ fun t => ?_
    · exact (hsorted xs).sublist (List.take_sublist _ _)
    · exact (hsorted ys).sublist (List.take_sublist _ _)
    · rw [hcount, hcount, h]

theorem pairwise_by {key : β → α} {rows : List β} :
    (rows.insertionSort fun a b => key a ≤ key b).Pairwise fun a b => key a ≤ key b := by
  have : Std.Total fun a b => key a ≤ key b := ⟨fun a b => le_total _ _⟩
  have : IsTrans β fun a b => key a ≤ key b := ⟨fun a b c => le_trans⟩
  exact List.pairwise_insertionSort _ rows

theorem map_smallest {r : β → β → Prop} [DecidableRel r] {key : β → α}
    (hr : ∀ a b, r a b ↔ key a ≤ key b) (rows : List β) :
    ((rows.insertionSort r).take k).map key = smallest k (rows.map key) := by
  rw [smallest, List.map_take, List.map_insertionSort _ (· ≤ ·)]
  exact fun a _ b _ => hr a b

end Counts

end Nearest
