import Mathlib.Data.List.Basic
import Mathlib.Order.Bounds.Basic
import Mathlib.Order.MinMax

namespace BTagent

namespace EditScripts

variable {α : Type*} {a b c xs ys zs : List α} {x y z : α} {n m : ℕ}

inductive Edit : List α → List α → Prop where
  | insert (before after : List α) (x : α) : Edit (before ++ after) (before ++ x :: after)
  | delete (before after : List α) (x : α) : Edit (before ++ x :: after) (before ++ after)
  | substitute (before after : List α) (x y : α) :
      Edit (before ++ x :: after) (before ++ y :: after)

inductive Edits : ℕ → List α → List α → Prop where
  | refl (a : List α) : Edits 0 a a
  | tail {n : ℕ} {a b c : List α} (h : Edits n a b) (he : Edit b c) : Edits (n + 1) a c

theorem Edit.symm (h : Edit a b) : Edit b a := by
  cases h with
  | insert before after x => exact .delete before after x
  | delete before after x => exact .insert before after x
  | substitute before after x y => exact .substitute before after y x

theorem Edit.cons (x : α) (h : Edit a b) : Edit (x :: a) (x :: b) := by
  cases h with
  | insert before after y => exact .insert (x :: before) after y
  | delete before after y => exact .delete (x :: before) after y
  | substitute before after y z => exact .substitute (x :: before) after y z

theorem Edit.reverse (h : Edit a b) : Edit a.reverse b.reverse := by
  cases h with
  | insert before after x =>
      simpa using Edit.insert after.reverse before.reverse x
  | delete before after x =>
      simpa using Edit.delete after.reverse before.reverse x
  | substitute before after x y =>
      simpa using Edit.substitute after.reverse before.reverse x y

theorem edit_nil (h : Edit [] b) : ∃ x, b = [x] := by
  generalize ha : ([] : List α) = a at h
  cases h with
  | insert before after x =>
      obtain ⟨rfl, rfl⟩ := List.append_eq_nil_iff.mp ha.symm
      exact ⟨x, rfl⟩
  | delete before after x => simp at ha
  | substitute before after x y => simp at ha

theorem edit_cons (h : Edit (x :: a) b) :
    (∃ y, b = y :: x :: a) ∨ b = a ∨ (∃ y, b = y :: a) ∨ ∃ c, b = x :: c ∧ Edit a c := by
  generalize hxa : x :: a = xa at h
  cases h with
  | insert before after y =>
      cases before with
      | nil => exact Or.inl ⟨y, rfl⟩
      | cons z before =>
          obtain ⟨rfl, rfl⟩ := List.cons.inj hxa
          exact Or.inr (Or.inr (Or.inr ⟨_, rfl, .insert before after y⟩))
  | delete before after y =>
      cases before with
      | nil =>
          obtain ⟨rfl, rfl⟩ := List.cons.inj hxa
          exact Or.inr (Or.inl rfl)
      | cons z before =>
          obtain ⟨rfl, rfl⟩ := List.cons.inj hxa
          exact Or.inr (Or.inr (Or.inr ⟨_, rfl, .delete before after y⟩))
  | substitute before after y z =>
      cases before with
      | nil =>
          obtain ⟨rfl, rfl⟩ := List.cons.inj hxa
          exact Or.inr (Or.inr (Or.inl ⟨z, rfl⟩))
      | cons w before =>
          obtain ⟨rfl, rfl⟩ := List.cons.inj hxa
          exact Or.inr (Or.inr (Or.inr ⟨_, rfl, .substitute before after y z⟩))

theorem Edits.cons (x : α) (h : Edits n a b) : Edits n (x :: a) (x :: b) := by
  induction h with
  | refl a => exact .refl _
  | tail h he ih => exact ih.tail (he.cons x)

theorem Edits.reverse (h : Edits n a b) : Edits n a.reverse b.reverse := by
  induction h with
  | refl a => exact .refl _
  | tail h he ih => exact ih.tail he.reverse

theorem Edits.trans (h : Edits n a b) (h' : Edits m b c) : Edits (n + m) a c := by
  induction h' with
  | refl b => exact h
  | tail h' he ih => exact (ih h).tail he

theorem Edits.head (he : Edit a b) (h : Edits n b c) : Edits (n + 1) a c := by
  rw [Nat.add_comm]
  exact ((Edits.refl a).tail he).trans h

theorem Edits.symm (h : Edits n a b) : Edits n b a := by
  induction h with
  | refl a => exact .refl a
  | tail h he ih => exact ih.head he.symm

-- A script that goes through both words once, from the left.
inductive Aligned : ℕ → List α → List α → Prop where
  | nil : Aligned 0 [] []
  | keep {n : ℕ} {xs ys : List α} (x : α) (h : Aligned n xs ys) : Aligned n (x :: xs) (x :: ys)
  | insert {n : ℕ} {xs ys : List α} (y : α) (h : Aligned n xs ys) : Aligned (n + 1) xs (y :: ys)
  | delete {n : ℕ} {xs ys : List α} (x : α) (h : Aligned n xs ys) : Aligned (n + 1) (x :: xs) ys
  | substitute {n : ℕ} {xs ys : List α} (x y : α) (h : Aligned n xs ys) :
      Aligned (n + 1) (x :: xs) (y :: ys)

theorem Aligned.refl (a : List α) : Aligned 0 a a := by
  induction a with
  | nil => exact .nil
  | cons x a ih => exact .keep x ih

theorem aligned_inserts (ys : List α) : Aligned ys.length [] ys := by
  induction ys with
  | nil => exact .nil
  | cons y ys ih => exact .insert y ih

theorem aligned_deletes (xs : List α) : Aligned xs.length xs [] := by
  induction xs with
  | nil => exact .nil
  | cons x xs ih => exact .delete x ih

theorem Aligned.edits (h : Aligned n a b) : Edits n a b := by
  induction h with
  | nil => exact .refl []
  | keep x h ih => exact ih.cons x
  | @insert n xs ys y h ih => exact ih.tail (.insert [] ys y)
  | @delete n xs ys x h ih => exact (ih.cons x).tail (.delete [] ys x)
  | @substitute n xs ys x y h ih => exact (ih.cons x).tail (.substitute [] ys x y)

theorem Aligned.edit (h : Aligned n a b) (he : Edit b c) : ∃ m ≤ n + 1, Aligned m a c := by
  induction h generalizing c with
  | nil =>
      obtain ⟨x, rfl⟩ := edit_nil he
      exact ⟨1, le_rfl, .insert x .nil⟩
  | @keep n xs ys x h ih =>
      obtain ⟨y, rfl⟩ | rfl | ⟨y, rfl⟩ | ⟨c, rfl, hrest⟩ := edit_cons he
      · exact ⟨n + 1, le_rfl, .insert y (.keep x h)⟩
      · exact ⟨n + 1, le_rfl, .delete x h⟩
      · exact ⟨n + 1, le_rfl, .substitute x y h⟩
      · obtain ⟨m, hm, hc⟩ := ih hrest
        exact ⟨m, hm, .keep x hc⟩
  | @insert n xs ys y h ih =>
      obtain ⟨z, rfl⟩ | rfl | ⟨z, rfl⟩ | ⟨c, rfl, hrest⟩ := edit_cons he
      · exact ⟨n + 2, le_rfl, .insert z (.insert y h)⟩
      · exact ⟨n, by omega, h⟩
      · exact ⟨n + 1, by omega, .insert z h⟩
      · obtain ⟨m, hm, hc⟩ := ih hrest
        exact ⟨m + 1, by omega, .insert y hc⟩
  | @delete n xs ys x h ih =>
      obtain ⟨m, hm, hc⟩ := ih he
      exact ⟨m + 1, by omega, .delete x hc⟩
  | @substitute n xs ys x y h ih =>
      obtain ⟨z, rfl⟩ | rfl | ⟨z, rfl⟩ | ⟨c, rfl, hrest⟩ := edit_cons he
      · exact ⟨n + 2, le_rfl, .insert z (.substitute x y h)⟩
      · exact ⟨n + 1, by omega, .delete x h⟩
      · exact ⟨n + 1, by omega, .substitute x z h⟩
      · obtain ⟨m, hm, hc⟩ := ih hrest
        exact ⟨m + 1, by omega, .substitute x y hc⟩

theorem aligned_of_edits (h : Edits n a b) : ∃ m ≤ n, Aligned m a b := by
  induction h with
  | refl a => exact ⟨0, le_rfl, .refl a⟩
  | tail h he ih =>
      obtain ⟨m, hm, hb⟩ := ih
      obtain ⟨k, hk, hc⟩ := hb.edit he
      exact ⟨k, by omega, hc⟩

section Distance

variable [DecidableEq α]

def distance : List α → List α → ℕ
  | [], ys => ys.length
  | xs, [] => xs.length
  | x :: xs, y :: ys =>
      min (min (distance xs (y :: ys) + 1) (distance (x :: xs) ys + 1))
        (distance xs ys + if x = y then 0 else 1)
  termination_by xs ys => xs.length + ys.length

theorem distance_nil (ys : List α) : distance [] ys = ys.length := by
  rw [distance]

theorem distance_nil_right (xs : List α) : distance xs [] = xs.length := by
  cases xs with
  | nil => exact distance_nil []
  | cons x xs => rw [distance]; exact List.cons_ne_nil x xs

theorem distance_cons (x : α) (xs : List α) (y : α) (ys : List α) :
    distance (x :: xs) (y :: ys) =
      min (min (distance xs (y :: ys) + 1) (distance (x :: xs) ys + 1))
        (distance xs ys + if x = y then 0 else 1) := by
  rw [distance]

theorem distance_cons_left_le (x : α) (xs ys : List α) :
    distance (x :: xs) ys ≤ distance xs ys + 1 := by
  cases ys with
  | nil => rw [distance_nil_right, distance_nil_right, List.length_cons]
  | cons y ys =>
      rw [distance_cons]
      omega

theorem distance_cons_right_le (xs : List α) (y : α) (ys : List α) :
    distance xs (y :: ys) ≤ distance xs ys + 1 := by
  cases xs with
  | nil => rw [distance_nil, distance_nil, List.length_cons]
  | cons x xs =>
      rw [distance_cons]
      omega

theorem distance_le_of_aligned (h : Aligned n a b) : distance a b ≤ n := by
  induction h with
  | nil => rw [distance_nil]; exact le_rfl
  | keep x h ih =>
      rw [distance_cons, if_pos rfl]
      omega
  | @insert n xs ys y h ih =>
      have hinsert := distance_cons_right_le xs y ys
      omega
  | @delete n xs ys x h ih =>
      have hdelete := distance_cons_left_le x xs ys
      omega
  | @substitute n xs ys x y h ih =>
      rw [distance_cons]
      split <;> omega

theorem aligned_distance (a b : List α) : Aligned (distance a b) a b := by
  induction a, b using distance.induct with
  | case1 ys =>
      rw [distance_nil]
      exact aligned_inserts ys
  | case2 xs hxs =>
      rw [distance_nil_right]
      exact aligned_deletes xs
  | case3 x xs y ys ihdelete ihinsert ihboth =>
      rw [distance_cons]
      obtain hmin | hmin := min_choice (min (distance xs (y :: ys) + 1) (distance (x :: xs) ys + 1))
        (distance xs ys + if x = y then 0 else 1)
      · rw [hmin]
        obtain hmin | hmin := min_choice (distance xs (y :: ys) + 1) (distance (x :: xs) ys + 1)
        · rw [hmin]
          exact .delete x ihdelete
        · rw [hmin]
          exact .insert y ihinsert
      · rw [hmin]
        by_cases hxy : x = y
        · rw [if_pos hxy, hxy]
          exact .keep y ihboth
        · rw [if_neg hxy]
          exact .substitute x y ihboth

theorem distance_isLeast (a b : List α) : IsLeast {n | Edits n a b} (distance a b) := by
  refine ⟨(aligned_distance a b).edits, fun n h => ?_⟩
  obtain ⟨m, hm, haligned⟩ := aligned_of_edits h
  exact (distance_le_of_aligned haligned).trans hm

theorem distance_le (h : Edits n a b) : distance a b ≤ n := (distance_isLeast a b).2 h

theorem edits_distance (a b : List α) : Edits (distance a b) a b := (distance_isLeast a b).1

theorem distance_self (a : List α) : distance a a = 0 := Nat.le_zero.mp (distance_le (.refl a))

theorem distance_comm (a b : List α) : distance a b = distance b a :=
  le_antisymm (distance_le (edits_distance b a).symm) (distance_le (edits_distance a b).symm)

theorem distance_triangle (a b c : List α) : distance a c ≤ distance a b + distance b c :=
  distance_le ((edits_distance a b).trans (edits_distance b c))

theorem distance_reverse (a b : List α) : distance a.reverse b.reverse = distance a b := by
  apply le_antisymm
  · exact distance_le (edits_distance a b).reverse
  · simpa using distance_le (edits_distance a.reverse b.reverse).reverse

theorem distance_le_max (a b : List α) : distance a b ≤ max a.length b.length := by
  induction a generalizing b with
  | nil =>
      rw [distance_nil]
      exact le_max_right _ _
  | cons x xs ih =>
      cases b with
      | nil =>
          rw [distance_nil_right]
          exact le_max_left _ _
      | cons y ys =>
          have hboth := ih ys
          rw [distance_cons, List.length_cons, List.length_cons]
          split <;> omega

end Distance

end EditScripts

end BTagent
