import Mathlib.Data.List.Basic

namespace BTagent

variable {α β : Type*} {key : α → β} {xs : List α} {x y : α}

-- `x` stands in `xs` with no entry of its key before it.
def IsFirst (key : α → β) (xs : List α) (x : α) : Prop :=
  ∃ pre post, xs = pre ++ x :: post ∧ ∀ y ∈ pre, key y ≠ key x

theorem exists_split_concat {P : List α → Prop} :
    (∃ pre post, xs ++ [y] = pre ++ x :: post ∧ P pre) ↔
      (∃ pre post, xs = pre ++ x :: post ∧ P pre) ∨ (x = y ∧ P xs) := by
  constructor
  · rintro ⟨pre, post, hsplit, hpre⟩
    rcases List.eq_nil_or_concat post with rfl | ⟨post', last, rfl⟩
    · obtain ⟨rfl, hy⟩ := List.append_inj' hsplit rfl
      exact Or.inr ⟨(List.singleton_inj.mp hy).symm, hpre⟩
    · rw [List.concat_eq_append, ← List.cons_append, ← List.append_assoc] at hsplit
      exact Or.inl ⟨pre, post', (List.append_inj' hsplit rfl).1, hpre⟩
  · rintro (⟨pre, post, rfl, hpre⟩ | ⟨rfl, hpre⟩)
    · exact ⟨pre, post ++ [y], by rw [List.append_assoc, List.cons_append], hpre⟩
    · exact ⟨xs, [], rfl, hpre⟩

namespace IsFirst

theorem mem (h : IsFirst key xs x) : x ∈ xs := by
  obtain ⟨pre, post, rfl, -⟩ := h
  exact List.mem_append_right _ List.mem_cons_self

theorem concat_iff : IsFirst key (xs ++ [y]) x ↔
    IsFirst key xs x ∨ (x = y ∧ ∀ z ∈ xs, key z ≠ key x) := exists_split_concat

theorem exists_of_mem (h : x ∈ xs) : ∃ y, IsFirst key xs y ∧ key y = key x := by
  classical
  cases hfind : xs.find? fun y => key y = key x with
  | none =>
      have hnone := List.find?_eq_none.mp hfind x h
      exact absurd (decide_eq_true rfl) hnone
  | some y =>
      obtain ⟨hkey, pre, post, hsplit, hpre⟩ := List.find?_eq_some_iff_append.mp hfind
      rw [decide_eq_true_eq] at hkey
      refine ⟨y, ⟨pre, post, hsplit, fun z hz => ?_⟩, hkey⟩
      have hz' := hpre z hz
      rw [Bool.not_eq_true', decide_eq_false_iff_not] at hz'
      rwa [hkey]

theorem exists_iff {k : β} : (∃ y, IsFirst key xs y ∧ key y = k) ↔ ∃ y ∈ xs, key y = k := by
  constructor
  · exact fun ⟨y, hy, hk⟩ => ⟨y, hy.mem, hk⟩
  · rintro ⟨y, hy, rfl⟩
    exact exists_of_mem hy

theorem nil_iff : ¬ IsFirst key [] x := fun h => by cases h.mem

end IsFirst

end BTagent
