import Mathlib.Data.List.Basic
import Mathlib.Data.Set.Defs

-- Disjunctions of atoms that nothing negates, and conjunctions of them.
namespace Clauses

variable {α : Type*} {v : α → Bool} {c d : List α} {cs : Set (List α)}

def Holds (v : α → Bool) (c : List α) : Prop := ∃ a ∈ c, v a = true

def All (v : α → Bool) (cs : Set (List α)) : Prop := ∀ c ∈ cs, Holds v c

instance : Decidable (Holds v c) := inferInstanceAs (Decidable (∃ a ∈ c, _))

theorem Holds.mono (h : Holds v c) (hcd : c ⊆ d) : Holds v d := by
  obtain ⟨a, ha, hv⟩ := h
  exact ⟨a, hcd ha, hv⟩

@[simp] theorem not_holds_nil : ¬ Holds v ([] : List α) := by
  rintro ⟨_, h, _⟩
  cases h

@[simp] theorem holds_singleton {a : α} : Holds v [a] ↔ v a = true := by
  simp [Holds]

theorem holds_true (h : c ≠ []) : Holds (fun _ => true) c := by
  obtain ⟨a, ha⟩ := List.exists_mem_of_ne_nil c h
  exact ⟨a, ha, rfl⟩

theorem not_holds_false : ¬ Holds (fun _ => false) c := by
  rintro ⟨_, _, h⟩
  cases h

theorem entails_iff [DecidableEq α] : (∀ v, All v cs → Holds v d) ↔ ∃ c ∈ cs, c ⊆ d := by
  constructor
  · intro h
    by_contra hnone
    have hall : All (fun a => decide (a ∉ d)) cs := by
      intro c hc
      by_contra hfail
      refine hnone ⟨c, hc, fun a ha => ?_⟩
      by_contra hd
      exact hfail ⟨a, ha, decide_eq_true hd⟩
    obtain ⟨a, ha, hv⟩ := h _ hall
    exact of_decide_eq_true hv ha
  · rintro ⟨c, hc, hcd⟩ v hall
    exact (hall c hc).mono hcd

end Clauses
