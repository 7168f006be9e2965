import Mathlib.Algebra.BigOperators.Group.List.Basic
import Mathlib.Data.List.Nodup
import Mathlib.Data.List.Perm.Basic
import Mathlib.Data.List.Perm.Subperm
import Mathlib.Logic.Function.Basic

-- A list of slots, each holding some items; what replacing one slot does to all items.
namespace Slots

variable {σ α : Type*} {slots : List σ} {i : ℕ} {a b : σ} (items : σ → List α)

theorem perm_eraseIdx (h : slots[i]? = some a) :
    (slots.flatMap items).Perm (items a ++ (slots.eraseIdx i).flatMap items) := by
  induction slots generalizing i with
  | nil => cases h
  | cons x xs ih =>
      cases i with
      | zero =>
          cases h
          rfl
      | succ i =>
          have hperm := (ih h).append_left (items x)
          simp only [List.flatMap_cons, List.eraseIdx_cons_succ]
          refine hperm.trans ?_
          rw [← List.append_assoc, ← List.append_assoc]
          exact List.perm_append_comm.append_right _

theorem set_eraseIdx : (slots.set i b).eraseIdx i = slots.eraseIdx i := by
  induction slots generalizing i with
  | nil => rfl
  | cons x xs ih =>
      cases i with
      | zero => rfl
      | succ i => simpa using ih

theorem set_perm (h : slots[i]? = some a) :
    ((slots.set i b).flatMap items).Perm (items b ++ (slots.eraseIdx i).flatMap items) := by
  have hb : (slots.set i b)[i]? = some b := by
    have hi : i < slots.length := (List.getElem?_eq_some_iff.mp h).1
    simp [hi]
  simpa only [set_eraseIdx] using perm_eraseIdx items hb

theorem count_set [DecidableEq σ] (h : slots[i]? = some a) (x : σ) :
    (slots.set i b).count x + (if a = x then 1 else 0) = slots.count x + (if b = x then 1 else 0) := by
  have hset := (set_perm (fun y => [y]) h (b := b)).count_eq x
  have hold := (perm_eraseIdx (fun y => [y]) h).count_eq x
  simp only [List.flatMap_singleton', List.singleton_append, List.count_cons, beq_iff_eq] at hset hold
  omega

theorem sum_set {M : Type*} [AddCommMonoid M] (f : σ → M) (h : slots[i]? = some a) :
    ((slots.set i b).map f).sum + f a = (slots.map f).sum + f b := by
  have hset := (set_perm (fun y => [f y]) h (b := b)).sum_eq
  have hold := (perm_eraseIdx (fun y => [f y]) h).sum_eq
  simp only [← List.map_eq_flatMap, List.singleton_append, List.sum_cons] at hset hold
  rw [hset, hold]
  ac_rfl

theorem set_subperm (h : slots[i]? = some a) (hab : (items b).Subperm (items a)) :
    ((slots.set i b).flatMap items).Subperm (slots.flatMap items) := by
  have hset := set_perm items h (b := b)
  have herase := perm_eraseIdx items h
  have happ := (List.subperm_append_right ((slots.eraseIdx i).flatMap items)).mpr hab
  exact (hset.subperm.trans happ).trans herase.symm.subperm

theorem set_cons (h : slots[i]? = some a) {x : α} (hab : (items b).Perm (x :: items a)) :
    ((slots.set i b).flatMap items).Perm (x :: slots.flatMap items) := by
  have hset := set_perm items h (b := b)
  have herase := perm_eraseIdx items h
  exact (hset.trans (hab.append_right _)).trans (herase.symm.cons x)

theorem unset_cons (h : slots[i]? = some a) {x : α} (hab : (items a).Perm (x :: items b)) :
    (slots.flatMap items).Perm (x :: (slots.set i b).flatMap items) := by
  have hset := set_perm items h (b := b)
  have herase := perm_eraseIdx items h
  exact (herase.trans (hab.append_right _)).trans (hset.symm.cons x)

theorem getElem?_set_cases {j : ℕ} {x : σ} (h : (slots.set i b)[j]? = some x) :
    (j = i ∧ x = b) ∨ (j ≠ i ∧ slots[j]? = some x) := by
  rcases eq_or_ne j i with rfl | hne
  · rw [List.getElem?_set] at h
    split at h
    · split at h
      · exact Or.inl ⟨rfl, (Option.some.inj h).symm⟩
      · cases h
    · next hne => exact absurd rfl hne
  · rw [List.getElem?_set_ne (Ne.symm hne)] at h
    exact Or.inr ⟨hne, h⟩

theorem mem_set {x : α} (h : slots[i]? = some a) (hx : x ∈ (slots.set i b).flatMap items) :
    x ∈ items b ∨ x ∈ slots.flatMap items := by
  rcases List.mem_append.mp ((set_perm items h).mem_iff.mp hx) with hb | he
  · exact Or.inl hb
  · exact Or.inr ((perm_eraseIdx items h).mem_iff.mpr (List.mem_append_right _ he))

section AtMostOne
variable {P : σ → Prop}

def AtMostOne (P : σ → Prop) (slots : List σ) : Prop :=
  ∀ (i j : ℕ) (a b : σ), slots[i]? = some a → slots[j]? = some b → P a → P b → i = j

theorem AtMostOne.mono {Q : σ → Prop} (h : AtMostOne Q slots) (hPQ : ∀ a, P a → Q a) :
    AtMostOne P slots :=
  fun i j a b hi hj ha hb => h i j a b hi hj (hPQ a ha) (hPQ b hb)

theorem AtMostOne.set (h : AtMostOne P slots) (ha : slots[i]? = some a) (hab : P b → P a) :
    AtMostOne P (slots.set i b) := by
  intro j k c d hj hk hc hd
  rcases getElem?_set_cases hj with ⟨rfl, rfl⟩ | ⟨-, hj⟩
  · rcases getElem?_set_cases hk with ⟨rfl, -⟩ | ⟨-, hk⟩
    · rfl
    · exact h j k a d ha hk (hab hc) hd
  · rcases getElem?_set_cases hk with ⟨rfl, rfl⟩ | ⟨-, hk⟩
    · exact h j k c a ‹_› ha hc (hab hd)
    · exact h j k c d ‹_› hk hc hd

theorem AtMostOne.set_alone (h : ∀ c ∈ slots, ¬ P c) : AtMostOne P (slots.set i b) := by
  intro j k c d hj hk hc hd
  rcases getElem?_set_cases hj with ⟨rfl, -⟩ | ⟨-, hj⟩
  · rcases getElem?_set_cases hk with ⟨rfl, -⟩ | ⟨-, hk⟩
    · rfl
    · exact absurd hd (h d (List.mem_of_getElem? hk))
  · exact absurd hc (h c (List.mem_of_getElem? hj))

theorem AtMostOne.append (h : AtMostOne P slots) (hb : ¬ P b) : AtMostOne P (slots ++ [b]) := by
  intro j k c d hj hk hc hd
  have hold : ∀ {i : ℕ} {x : σ}, (slots ++ [b])[i]? = some x → P x → slots[i]? = some x := by
    intro i x hi hx
    rcases Nat.lt_or_ge i slots.length with hlt | hge
    · rwa [List.getElem?_append_left hlt] at hi
    · rw [List.getElem?_append_right hge] at hi
      obtain rfl := List.mem_singleton.mp (List.mem_of_getElem? hi)
      exact absurd hx hb
  exact h j k c d (hold hj hc) (hold hk hd) hc hd

theorem AtMostOne.append_alone (h : ∀ c ∈ slots, ¬ P c) : AtMostOne P (slots ++ [b]) := by
  have hlast : ∀ {i : ℕ} {x : σ}, (slots ++ [b])[i]? = some x → P x → i = slots.length := by
    intro i x hi hx
    rcases Nat.lt_trichotomy i slots.length with hlt | heq | hgt
    · rw [List.getElem?_append_left hlt] at hi
      exact absurd hx (h x (List.mem_of_getElem? hi))
    · exact heq
    · rw [List.getElem?_eq_none (by rw [List.length_append]; exact hgt)] at hi
      cases hi
  intro j k c d hj hk hc hd
  exact (hlast hj hc).trans (hlast hk hd).symm

end AtMostOne

theorem forall_set {P : σ → Prop} (h : ∀ c ∈ slots, P c) (hb : P b) :
    ∀ c ∈ slots.set i b, P c := by
  intro c hc
  rcases List.mem_or_eq_of_mem_set hc with hc | rfl
  · exact h c hc
  · exact hb

section Staged
variable {τ : Type*} {P : σ → τ → Prop} {slots' : List σ} {stages : ℕ → τ} {stage : τ}

-- Each slot and the stage it is in fit together; slot `i` moves to another stage.
theorem staged_update (hold : ∀ (j : ℕ) (c : σ), slots[j]? = some c → P c (stages j))
    (hother : ∀ j ≠ i, slots'[j]? = slots[j]?)
    (hnew : ∀ (c : σ), slots'[i]? = some c → P c stage) :
    ∀ (j : ℕ) (c : σ), slots'[j]? = some c → P c (Function.update stages i stage j) := by
  intro j c hj
  rcases eq_or_ne j i with rfl | hne
  · rw [Function.update_self]
    exact hnew c hj
  · rw [Function.update_of_ne hne]
    exact hold j c (hother j hne ▸ hj)

theorem staged_set (hold : ∀ (j : ℕ) (c : σ), slots[j]? = some c → P c (stages j))
    (hnew : P b stage) :
    ∀ (j : ℕ) (c : σ), (slots.set i b)[j]? = some c → P c (Function.update stages i stage j) := by
  apply staged_update hold
  · intro j hne
    exact List.getElem?_set_ne hne.symm
  · intro c hc
    rcases getElem?_set_cases hc with ⟨-, rfl⟩ | ⟨hne, -⟩
    · exact hnew
    · exact absurd rfl hne

end Staged

end Slots
