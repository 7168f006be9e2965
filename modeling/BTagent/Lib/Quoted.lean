import Mathlib.Data.List.DropRight
import Mathlib.Data.List.Infix

-- Texts put between marks: taking outer characters off, and escaping what would end the text.
namespace Quoted

variable {α : Type*} {p : α → Bool} {s a b m : List α} {c : α}

def stripBy (p : α → Bool) (s : List α) : List α := (s.dropWhile p).rdropWhile p

def Tight (p : α → Bool) (s : List α) : Prop :=
  (∀ c ∈ s.head?, p c = false) ∧ ∀ c ∈ s.getLast?, p c = false

instance (p : α → Bool) (s : List α) : Decidable (Tight p s) := by
  unfold Tight
  infer_instance

theorem tight_enclosed {d : α} (hc : p c = false) (hd : p d = false) : Tight p (c :: (s ++ [d])) := by
  constructor
  · rintro e ⟨⟩
    exact hc
  · intro e he
    rw [← List.cons_append, List.getLast?_concat] at he
    cases he
    exact hd

theorem dropWhile_surround (ha : ∀ c ∈ a, p c = true) (hm : ∀ c ∈ m.head?, p c = false) :
    (a ++ m).dropWhile p = m := by
  induction a with
  | nil =>
      cases m with
      | nil => rfl
      | cons c m =>
          have hc : p c = false := hm c rfl
          simp [hc]
  | cons c a ih =>
      have hc := ha c List.mem_cons_self
      rw [List.cons_append, List.dropWhile_cons, if_pos hc]
      exact ih fun d hd => ha d (List.mem_cons_of_mem _ hd)

theorem rdropWhile_surround (hb : ∀ c ∈ b, p c = true) (hm : ∀ c ∈ m.getLast?, p c = false) :
    (m ++ b).rdropWhile p = m := by
  rw [List.rdropWhile, List.reverse_append,
    dropWhile_surround (fun c hc => hb c (List.mem_reverse.mp hc)), List.reverse_reverse]
  simpa using hm

theorem stripBy_surround (ha : ∀ c ∈ a, p c = true) (hb : ∀ c ∈ b, p c = true) (hm : Tight p m) :
    stripBy p (a ++ (m ++ b)) = m := by
  unfold stripBy
  cases m with
  | nil =>
      have hall : ∀ c ∈ a ++ b, p c = true := by
        intro c hc
        rcases List.mem_append.mp hc with h | h
        · exact ha c h
        · exact hb c h
      rw [List.nil_append, List.dropWhile_eq_nil_iff.mpr hall]
      rfl
  | cons c m =>
      have hdrop : (a ++ (c :: m ++ b)).dropWhile p = c :: m ++ b :=
        dropWhile_surround ha hm.1
      rw [hdrop]
      exact rdropWhile_surround hb hm.2

theorem stripBy_of_tight (hs : Tight p s) : stripBy p s = s := by
  have h := stripBy_surround (a := []) (b := []) (by simp) (by simp) hs
  simpa using h

theorem exists_surround (p : α → Bool) (s : List α) :
    ∃ a b, s = a ++ (stripBy p s ++ b) ∧ (∀ c ∈ a, p c = true) ∧ (∀ c ∈ b, p c = true) := by
  refine ⟨s.takeWhile p, (s.dropWhile p).rtakeWhile p, ?_, ?_, ?_⟩
  · rw [stripBy, List.rdropWhile_append_rtakeWhile, List.takeWhile_append_dropWhile]
  · exact fun c hc => List.mem_takeWhile_imp hc
  · exact fun c hc => List.mem_rtakeWhile_imp hc

theorem head?_dropWhile : ∀ c ∈ (s.dropWhile p).head?, p c = false := by
  intro c hc
  have hnot := List.head?_dropWhile_not p s
  rw [hc] at hnot
  exact hnot

theorem getLast?_rdropWhile : ∀ c ∈ (s.rdropWhile p).getLast?, p c = false := by
  intro c hc
  rw [List.rdropWhile, List.getLast?_reverse] at hc
  exact head?_dropWhile c hc

theorem tight_stripBy (p : α → Bool) (s : List α) : Tight p (stripBy p s) := by
  refine ⟨?_, getLast?_rdropWhile⟩
  intro c hc
  obtain ⟨t, ht⟩ := List.rdropWhile_prefix p (l := s.dropWhile p)
  apply head?_dropWhile (s := s) c
  have hhead : ((s.dropWhile p).rdropWhile p).head? = some c := hc
  rw [← ht, List.head?_append, hhead]
  rfl

theorem infix_append_cons {w : List α} (hc : c ∉ w) :
    w <:+: a ++ c :: b ↔ w <:+: a ∨ w <:+: b := by
  constructor
  · rintro ⟨x, y, hxy⟩
    rw [List.append_assoc] at hxy
    rcases List.append_eq_append_iff.mp hxy with ⟨t, ha, hwy⟩ | ⟨t, hx, hcb⟩
    · rcases List.append_eq_append_iff.mp hwy with ⟨u, ht, -⟩ | ⟨u, hw, hcb⟩
      · exact Or.inl ⟨x, u, by rw [ha, ht, List.append_assoc]⟩
      · cases u with
        | nil => exact Or.inl ⟨x, [], by rw [ha, hw]; simp⟩
        | cons d u =>
            obtain ⟨rfl, -⟩ := List.cons.inj hcb
            exact absurd (by simp [hw]) hc
    · cases t with
      | nil =>
          cases w with
          | nil => exact Or.inl (List.nil_infix)
          | cons d w =>
              obtain ⟨rfl, -⟩ := List.cons.inj hcb
              exact absurd List.mem_cons_self hc
      | cons d t =>
          have hb : b = t ++ (w ++ y) := (List.cons.inj hcb).2
          exact Or.inr ⟨t, y, by rw [hb, List.append_assoc]⟩
  · rintro (⟨x, y, rfl⟩ | ⟨x, y, rfl⟩)
    · exact ⟨x, y ++ c :: b, by simp⟩
    · exact ⟨a ++ c :: x, y, by simp⟩

theorem infix_append_right {w : List α} (ha : ∀ c ∈ a, c ∉ w) : w <:+: a ++ b ↔ w <:+: b := by
  induction a with
  | nil => rfl
  | cons c a ih =>
      have hside := infix_append_cons (a := []) (b := a ++ b) (ha c List.mem_cons_self)
      have htail := ih fun d hd => ha d (List.mem_cons_of_mem c hd)
      rw [List.nil_append, htail] at hside
      rw [List.cons_append, hside, List.infix_nil]
      constructor
      · rintro (rfl | h)
        · exact List.nil_infix
        · exact h
      · exact Or.inr

theorem infix_append_left {w : List α} (hb : ∀ c ∈ b, c ∉ w) : w <:+: a ++ b ↔ w <:+: a := by
  rw [← List.reverse_infix, List.reverse_append, infix_append_right, List.reverse_infix]
  intro c hc hw
  exact hb c (List.mem_reverse.mp hc) (List.mem_reverse.mp hw)

theorem infix_stripBy {w : List α} (hw : ∀ c ∈ w, p c = false) :
    w <:+: stripBy p s ↔ w <:+: s := by
  obtain ⟨a, b, hs, ha, hb⟩ := exists_surround p s
  have hnot : ∀ c, p c = true → c ∉ w := by
    intro c hc hmem
    rw [hw c hmem] at hc
    cases hc
  conv_rhs => rw [hs]
  rw [infix_append_right fun c hc => hnot c (ha c hc),
    infix_append_left fun c hc => hnot c (hb c hc)]

theorem stripBy_enclosed (hc : p c = true) : stripBy p (c :: (s ++ [c])) = stripBy p s := by
  obtain ⟨a, b, hs, ha, hb⟩ := exists_surround p s
  have hsplit : c :: (s ++ [c]) = (c :: a) ++ (stripBy p s ++ (b ++ [c])) := by
    conv_lhs => rw [hs]
    simp
  rw [hsplit]
  apply stripBy_surround
  · intro d hd
    rcases List.mem_cons.mp hd with rfl | hd
    · exact hc
    · exact ha d hd
  · intro d hd
    rcases List.mem_append.mp hd with hd | hd
    · exact hb d hd
    · rwa [List.mem_singleton.mp hd]
  · exact tight_stripBy p s

theorem stripBy_ne_nil (hc : c ∈ s) (hp : p c = false) : stripBy p s ≠ [] := by
  intro hnil
  obtain ⟨a, b, hs, ha, hb⟩ := exists_surround p s
  rw [hnil, List.nil_append] at hs
  rw [hs] at hc
  have htrue : p c = true := by
    rcases List.mem_append.mp hc with h | h
    · exact ha c h
    · exact hb c h
  rw [htrue] at hp
  cases hp

theorem head?_append_of_forall (ha : ∀ c ∈ a, p c = false) (hb : ∀ c ∈ b.head?, p c = false) :
    ∀ c ∈ (a ++ b).head?, p c = false := by
  intro c hc
  cases a with
  | nil => exact hb c hc
  | cons d a =>
      cases hc
      exact ha c List.mem_cons_self

theorem getLast?_append_of_forall (hb : ∀ c ∈ b, p c = false) (ha : ∀ c ∈ a.getLast?, p c = false) :
    ∀ c ∈ (a ++ b).getLast?, p c = false := by
  intro c hc
  rw [← List.head?_reverse, List.reverse_append] at hc
  refine head?_append_of_forall (fun d hd => hb d (List.mem_reverse.mp hd)) ?_ c hc
  rwa [List.head?_reverse]

section Escape
variable {mark : α} {special : α → Bool}

-- A special character gets the mark before it.
def escape (mark : α) (special : α → Bool) (s : List α) : List α :=
  s.flatMap fun c => if special c then [mark, c] else [c]

theorem escape_cons : escape mark special (c :: s) =
    (if special c then [mark, c] else [c]) ++ escape mark special s := rfl

theorem escape_append : escape mark special (a ++ b) =
    escape mark special a ++ escape mark special b := List.flatMap_append

theorem escape_plain (h : ∀ c ∈ s, special c = false) : escape mark special s = s := by
  induction s with
  | nil => rfl
  | cons c s ih =>
      have hc : special c = false := h c List.mem_cons_self
      rw [escape_cons, ih fun d hd => h d (List.mem_cons_of_mem c hd), hc]
      rfl

theorem mem_escape {d : α} (h : d ∈ escape mark special s) : d = mark ∨ d ∈ s := by
  induction s with
  | nil => cases h
  | cons c s ih =>
      rw [escape_cons] at h
      rcases List.mem_append.mp h with h | h
      · split_ifs at h
        · rcases List.mem_cons.mp h with rfl | h
          · exact Or.inl rfl
          · exact Or.inr (List.mem_cons.mpr (Or.inl (List.mem_singleton.mp h)))
        · exact Or.inr (List.mem_cons.mpr (Or.inl (List.mem_singleton.mp h)))
      · exact (ih h).imp_right (List.mem_cons_of_mem _)

theorem length_le_escape : s.length ≤ (escape mark special s).length := by
  induction s with
  | nil => exact Nat.le_refl 0
  | cons c s ih =>
      rw [escape_cons, List.length_append, List.length_cons]
      split
      · simp only [List.length_cons, List.length_nil]
        omega
      · simp only [List.length_cons, List.length_nil]
        omega

theorem length_lt_escape (hc : c ∈ s) (hspecial : special c = true) :
    s.length < (escape mark special s).length := by
  induction s with
  | nil => cases hc
  | cons d s ih =>
      rw [escape_cons, List.length_append, List.length_cons]
      rcases List.mem_cons.mp hc with rfl | hs
      · have hle : s.length ≤ (escape mark special s).length := length_le_escape
        rw [if_pos hspecial]
        simp only [List.length_cons, List.length_nil]
        omega
      · have hlt := ih hs
        split
        · simp only [List.length_cons, List.length_nil]
          omega
        · simp only [List.length_cons, List.length_nil]
          omega

theorem head?_escape {d : α} (h : d ∈ (escape mark special s).head?) : d = mark ∨ d ∈ s.head? := by
  cases s with
  | nil => cases h
  | cons c s =>
      rw [escape_cons] at h
      split at h
      · exact Or.inl (Option.some.inj h).symm
      · exact Or.inr h

theorem getLast?_escape : (escape mark special s).getLast? = s.getLast? := by
  induction s using List.reverseRecOn with
  | nil => rfl
  | append_singleton s c _ =>
      unfold escape
      rw [List.flatMap_append, List.getLast?_concat, List.flatMap_singleton]
      split
      · exact List.getLast?_append_of_ne_nil _ (by simp)
      · exact List.getLast?_append_of_ne_nil _ (by simp)

theorem stripBy_escape_iff (hmark : p mark = false) :
    stripBy p (escape mark special s) = s ↔ (∀ c ∈ s, special c = false) ∧ Tight p s := by
  constructor
  · intro h
    have htight : Tight p s := h ▸ tight_stripBy p (escape mark special s)
    refine ⟨?_, htight⟩
    have hescaped : Tight p (escape mark special s) := by
      constructor
      · intro d hd
        rcases head?_escape hd with rfl | hs
        · exact hmark
        · exact htight.1 d hs
      · intro d hd
        rw [getLast?_escape] at hd
        exact htight.2 d hd
    rw [stripBy_of_tight hescaped] at h
    intro c hc
    by_contra hspecial
    have hlt : s.length < (escape mark special s).length :=
      length_lt_escape hc ((Bool.not_eq_false _).mp hspecial)
    rw [h] at hlt
    omega
  · rintro ⟨hplain, htight⟩
    rw [escape_plain hplain, stripBy_of_tight htight]

end Escape

end Quoted
