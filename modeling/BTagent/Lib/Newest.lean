import Mathlib.Data.List.Sort
import Mathlib.Order.Defs.LinearOrder

-- `ORDER BY key DESC LIMIT n`: rows of one key stay in the order in which the table has them.
def takeNewest {α τ : Type*} [LinearOrder τ] (key : α → τ) (n : ℕ) (rows : List α) : List α :=
  (rows.mergeSort fun a b => key b ≤ key a).take n

section Newest

variable {α τ : Type*} [LinearOrder τ] {key : α → τ} {n : ℕ} {rows : List α} {a : α}

theorem mem_of_mem_takeNewest (h : a ∈ takeNewest key n rows) : a ∈ rows :=
  (List.mergeSort_perm _ _).mem_iff.mp (List.mem_of_mem_take h)

theorem takeNewest_map {f : α → α} (hkey : ∀ a ∈ rows, key (f a) = key a) :
    takeNewest key n (rows.map f) = (takeNewest key n rows).map f := by
  rw [takeNewest, takeNewest, List.map_take, List.map_mergeSort]
  intro a ha b hb
  rw [hkey a ha, hkey b hb]

theorem takeNewest_of_sorted (hlength : rows.length ≤ n)
    (hsorted : rows.Pairwise fun a b => key b ≤ key a) : takeNewest key n rows = rows := by
  have hsame : (rows.mergeSort fun a b => key b ≤ key a) = rows :=
    List.mergeSort_of_pairwise (hsorted.imp fun h => decide_eq_true h)
  rw [takeNewest, hsame, List.take_of_length_le hlength]

theorem pairwise_newest :
    (rows.mergeSort fun a b => key b ≤ key a).Pairwise fun a b => key b ≤ key a := by
  have hsorted : (rows.mergeSort fun a b => key b ≤ key a).Pairwise
      fun a b => decide (key b ≤ key a) = true := by
    apply List.pairwise_mergeSort
    · intro a b c hab hbc
      exact decide_eq_true ((of_decide_eq_true hbc).trans (of_decide_eq_true hab))
    · intro a b
      simpa using le_total (key b) (key a)
  exact hsorted.imp fun h => of_decide_eq_true h

-- A row is among the first `n` where no more than `n` rows are as new as it, in whatever order the
-- table has them.
theorem mem_takeNewest (ha : a ∈ rows)
    (hfew : (rows.countP fun b => decide (key a ≤ key b)) ≤ n) : a ∈ takeNewest key n rows := by
  have hmem := (List.mergeSort_perm rows fun a b => decide (key b ≤ key a)).mem_iff.mpr ha
  obtain ⟨newer, older, hsplit⟩ := List.append_of_mem hmem
  have hsorted : (rows.mergeSort fun a b => key b ≤ key a).Pairwise fun a b => key b ≤ key a :=
    pairwise_newest
  rw [hsplit, List.pairwise_append] at hsorted
  have hnewer : ∀ b ∈ newer ++ [a], key a ≤ key b := by
    intro b hb
    rcases List.mem_append.mp hb with hb | hb
    · exact hsorted.2.2 b hb a (by simp)
    · rw [List.mem_singleton.mp hb]
  have hcount : (newer ++ [a]).length ≤ n := by
    calc (newer ++ [a]).length
        = (newer ++ [a]).countP fun b => decide (key a ≤ key b) :=
          (List.countP_eq_length.mpr fun b hb => decide_eq_true (hnewer b hb)).symm
      _ ≤ (newer ++ a :: older).countP fun b => decide (key a ≤ key b) := by
          rw [List.append_cons newer a older]
          exact (List.sublist_append_left (newer ++ [a]) older).countP_le
      _ = rows.countP fun b => decide (key a ≤ key b) := by
          rw [← hsplit]
          exact (List.mergeSort_perm _ _).countP_eq _
      _ ≤ n := hfew
  rw [takeNewest, hsplit, List.append_cons, List.take_append, List.take_of_length_le hcount]
  simp

-- A list that is cut where a condition begins to hold is cut at one place.
theorem eq_of_append_eq {p : α → Prop} {xs ys xs' ys' : List α} (h : xs ++ ys = xs' ++ ys')
    (hxs : ∀ x ∈ xs, ¬ p x) (hys : ∀ y ∈ ys, p y) (hxs' : ∀ x ∈ xs', ¬ p x)
    (hys' : ∀ y ∈ ys', p y) : xs = xs' ∧ ys = ys' := by
  rcases List.append_eq_append_iff.mp h with ⟨mid, rfl, rfl⟩ | ⟨mid, rfl, rfl⟩
  · cases mid with
    | nil => simp
    | cons m mid => exact absurd (hys m (by simp)) (hxs' m (by simp))
  · cases mid with
    | nil => simp
    | cons m mid => exact absurd (hys' m (by simp)) (hxs m (by simp))

theorem filter_mergeSort {le : α → α → Bool} (htrans : ∀ a b c, le a b = true → le b c = true →
    le a c = true) (htotal : ∀ a b, (le a b || le b a) = true) (p : α → Bool) (rows : List α) :
    (rows.mergeSort le).filter p = (rows.filter p).mergeSort le := by
  have hafter : ∀ {front back : List α} {a : α} {l : List α},
      l.mergeSort le = front ++ a :: back → ∀ b ∈ back, le a b = true := by
    intro front back a l hsplit
    have h := List.pairwise_mergeSort htrans htotal l
    rw [hsplit] at h
    exact (List.pairwise_cons.mp (List.pairwise_append.mp h).2.1).1
  induction rows with
  | nil => simp
  | cons a rows ih =>
      obtain ⟨front, back, hcons, hrest, hfront⟩ := List.mergeSort_cons htrans htotal a rows
      rw [hcons, List.filter_append]
      rw [hrest, List.filter_append] at ih
      cases hp : p a with
      | false => simpa [hp] using ih
      | true =>
          obtain ⟨front', back', hcons', hrest', hfront'⟩ :=
            List.mergeSort_cons htrans htotal a (rows.filter p)
          rw [List.filter_cons_of_pos hp, List.filter_cons_of_pos hp, hcons']
          rw [hrest'] at ih
          obtain ⟨hf, hb⟩ := eq_of_append_eq (p := fun b => le a b = true) ih
            (fun b hb => by simpa using hfront b (List.mem_of_mem_filter hb))
            (fun b hb => hafter hcons b (List.mem_of_mem_filter hb))
            (fun b hb => by simpa using hfront' b hb) (hafter hcons')
          rw [hf, hb]

theorem pairwise_mergeSort_key :
    (rows.mergeSort fun a b => key a ≤ key b).Pairwise fun a b => key a ≤ key b := by
  have hsorted : (rows.mergeSort fun a b => key a ≤ key b).Pairwise
      fun a b => decide (key a ≤ key b) = true := by
    apply List.pairwise_mergeSort
    · intro a b c hab hbc
      exact decide_eq_true ((of_decide_eq_true hab).trans (of_decide_eq_true hbc))
    · intro a b
      simpa using le_total (key a) (key b)
  exact hsorted.imp fun h => of_decide_eq_true h

-- The first `n` of the rows, where no two have one key, are those with fewer than `n` before them.
theorem mem_take_mergeSort (hkey : (rows.map key).Nodup) (ha : a ∈ rows) :
    a ∈ (rows.mergeSort fun a b => key a ≤ key b).take n ↔
      rows.countP (fun b => key b < key a) < n := by
  have hperm := List.mergeSort_perm rows fun a b => decide (key a ≤ key b)
  obtain ⟨front, back, hsplit⟩ := List.append_of_mem (hperm.mem_iff.mpr ha)
  have hnodup : ((front ++ a :: back).map key).Nodup := by
    rw [← hsplit]
    exact (hperm.map key).nodup_iff.mpr hkey
  have hsorted : (front ++ a :: back).Pairwise fun a b => key a ≤ key b :=
    hsplit ▸ pairwise_mergeSort_key
  rw [List.map_append, List.map_cons, List.nodup_append] at hnodup
  rw [List.pairwise_append, List.pairwise_cons] at hsorted
  obtain ⟨-, ⟨hafter, -⟩, hbefore⟩ := hsorted
  have hfront : ∀ b ∈ front, key b < key a := by
    intro b hb
    refine lt_of_le_of_ne (hbefore b hb a List.mem_cons_self) fun heq => ?_
    exact hnodup.2.2 _ (List.mem_map_of_mem hb) _ List.mem_cons_self heq
  have hcount : rows.countP (fun b => key b < key a) = front.length := by
    rw [← hperm.countP_eq, hsplit, List.countP_append, List.countP_cons]
    have hf : front.countP (fun b => key b < key a) = front.length :=
      List.countP_eq_length.mpr fun b hb => decide_eq_true (hfront b hb)
    have hb : back.countP (fun b => key b < key a) = 0 :=
      List.countP_eq_zero.mpr fun b hb => by simpa using hafter b hb
    simp [hf, hb]
  have hnot : a ∉ front := fun hmem => lt_irrefl _ (hfront a hmem)
  rw [hcount, hsplit, List.take_append, List.mem_append]
  constructor
  · rintro (h | h)
    · exact absurd (List.mem_of_mem_take h) hnot
    · by_contra hle
      rw [Nat.sub_eq_zero_of_le (not_lt.mp hle)] at h
      cases h
  · intro hlt
    obtain ⟨m, hm⟩ := Nat.exists_eq_add_of_lt hlt
    right
    rw [show n - front.length = m + 1 by omega, List.take_succ_cons]
    exact List.mem_cons_self

-- The newest rows of a kind are a beginning of the rows of that kind, all sorted at once.
theorem takeNewest_filter (p : α → Bool) (rows : List α) (n : ℕ) :
    takeNewest key n (rows.filter p) =
      ((rows.mergeSort fun a b => key b ≤ key a).filter p).take n := by
  rw [takeNewest, filter_mergeSort]
  · intro a b c hab hbc
    exact decide_eq_true ((of_decide_eq_true hbc).trans (of_decide_eq_true hab))
  · intro a b
    simpa using le_total (key b) (key a)

end Newest
