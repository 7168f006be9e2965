import Mathlib.Data.List.Basic
import Mathlib.Data.List.Infix

-- Records that each name the link of the record before; `digest` is the link a record should have.
structure HashChain (ρ η : Type*) where
  prev : ρ → η
  link : ρ → η
  digest : ρ → η

namespace HashChain

variable {ρ η : Type*} (C : HashChain ρ η)

def Linked (p : η) : List ρ → Prop
  | [] => True
  | r :: rs => C.prev r = p ∧ C.digest r = C.link r ∧ Linked (C.link r) rs

def tip (p : η) : List ρ → η
  | [] => p
  | r :: rs => tip (C.link r) rs

variable {C} {p : η} {r : ρ} {rs rs' : List ρ}

@[simp] theorem tip_nil : C.tip p [] = p := rfl

@[simp] theorem tip_concat : C.tip p (rs ++ [r]) = C.link r := by
  induction rs generalizing p with
  | nil => rfl
  | cons a rs ih => exact ih

theorem tip_eq_getLast? : C.tip p rs = (rs.getLast?.map C.link).getD p := by
  induction rs using List.reverseRecOn with
  | nil => rfl
  | append_singleton rs r _ => simp

theorem linked_append : C.Linked p (rs ++ rs') ↔ C.Linked p rs ∧ C.Linked (C.tip p rs) rs' := by
  induction rs generalizing p with
  | nil => simp [Linked]
  | cons a rs ih => simp [Linked, ih, tip, and_assoc]

theorem linked_concat :
    C.Linked p (rs ++ [r]) ↔ C.Linked p rs ∧ C.prev r = C.tip p rs ∧ C.digest r = C.link r := by
  simp [linked_append, Linked]

theorem Linked.prefix_ (h : C.Linked p rs') (hp : rs <+: rs') : C.Linked p rs := by
  obtain ⟨rest, rfl⟩ := hp
  exact (linked_append.mp h).1

theorem eq_of_tip_eq (h : C.Linked p rs) (h' : C.Linked p rs')
    (hdigest : ∀ r ∈ rs, ∀ r' ∈ rs', C.digest r = C.digest r' → C.link r = C.link r' → r = r')
    (hroot : ∀ r ∈ rs, C.link r ≠ p) (hroot' : ∀ r ∈ rs', C.link r ≠ p)
    (htip : C.tip p rs = C.tip p rs') : rs = rs' := by
  induction rs using List.reverseRecOn generalizing rs' with
  | nil =>
      cases rs' using List.reverseRecOn with
      | nil => rfl
      | append_singleton rs' r' =>
          rw [tip_nil, tip_concat] at htip
          exact absurd htip.symm (hroot' r' (by simp))
  | append_singleton rs r ih =>
      cases rs' using List.reverseRecOn with
      | nil =>
          rw [tip_nil, tip_concat] at htip
          exact absurd htip (hroot r (by simp))
      | append_singleton rs' r' =>
          rw [tip_concat, tip_concat] at htip
          obtain ⟨hrs, hprev, hlink⟩ := linked_concat.mp h
          obtain ⟨hrs', hprev', hlink'⟩ := linked_concat.mp h'
          have hsame : r = r' :=
            hdigest r (by simp) r' (by simp) (hlink.trans (htip.trans hlink'.symm)) htip
          subst hsame
          have hinit : rs = rs' := by
            apply ih hrs hrs'
            · exact fun a ha b hb => hdigest a (by simp [ha]) b (by simp [hb])
            · exact fun a ha => hroot a (by simp [ha])
            · exact fun a ha => hroot' a (by simp [ha])
            · exact hprev.symm.trans hprev'
          rw [hinit]

end HashChain
