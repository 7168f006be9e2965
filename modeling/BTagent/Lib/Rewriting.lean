import BTagent.Lib.Regex

-- Texts in which the words of a pattern are replaced by marks. A mark stands between two characters
-- of `bar`, which no word of a solid pattern holds, so that what such a pattern finds in the
-- rewritten text was in the text before.
namespace Regex

section Words

-- Patterns whose matches do not depend on what stands around them.
def Plain : Regex → Prop
  | set _ => True
  | boundary => False
  | seq r s => Plain r ∧ Plain s
  | alt r s => Plain r ∧ Plain s
  | upTo n r => n = 0 ∨ Plain r
  | star r => ∃ p, r = set p

variable {isWord : Char → Bool} {r : Regex} {prev prev' : Option Char} {w rest rest' : List Char}
  {n : ℕ}

theorem Repeats.moved (hone : ∀ {prev prev' w rest rest'}, Matches isWord r prev w rest →
      Matches isWord r prev' w rest') (h : Repeats isWord r n prev w rest) :
    Repeats isWord r n prev' w rest' := by
  induction h generalizing prev' with
  | nil => exact .nil
  | cons hu _ ih => exact .cons (hone hu) ih

theorem Plain.moved (hr : Plain r) (h : Matches isWord r prev w rest) :
    Matches isWord r prev' w rest' := by
  induction r generalizing prev prev' w rest rest' with
  | set p => exact matches_set.mpr (matches_set.mp h)
  | boundary => exact hr.elim
  | seq r s ihr ihs =>
      obtain ⟨u, v, rfl, hu, hv⟩ := matches_seq.mp h
      exact matches_seq.mpr ⟨u, v, rfl, ihr hr.1 hu, ihs hr.2 hv⟩
  | alt r s ihr ihs =>
      rcases matches_alt.mp h with h | h
      · exact matches_alt.mpr (Or.inl (ihr hr.1 h))
      · exact matches_alt.mpr (Or.inr (ihs hr.2 h))
  | upTo n r ih =>
      rw [matches_upTo] at h ⊢
      rcases hr with rfl | hr
      · cases h
        exact .nil
      · exact h.moved fun hone => ih hr hone
  | star r _ =>
      obtain ⟨p, rfl⟩ := hr
      exact matches_star_set.mpr (matches_star_set.mp h)

def Word (isWord : Char → Bool) (r : Regex) (w : List Char) : Prop := Matches isWord r none w []

theorem Plain.word_iff (hr : Plain r) : Matches isWord r prev w rest ↔ Word isWord r w :=
  ⟨hr.moved, hr.moved⟩

def literal (s : List Char) : Regex := sets (s.map fun d c => c == d)

def atLeast (n : ℕ) (p : Char → Bool) : Regex := seq (sets (List.replicate n p)) (star (set p))

theorem plain_sets (ps : List (Char → Bool)) : Plain (sets ps) := by
  induction ps with
  | nil => exact Or.inl rfl
  | cons p ps ih => exact ⟨trivial, ih⟩

theorem plain_atLeast {p : Char → Bool} : Plain (atLeast n p) := ⟨plain_sets _, p, rfl⟩

theorem plain_plus {p : Char → Bool} : Plain (plus (set p)) := ⟨trivial, p, rfl⟩

theorem forall₂_beq {s : List Char} :
    List.Forall₂ (fun p c => p c = true) (s.map fun d c => c == d) w ↔ w = s := by
  induction s generalizing w with
  | nil => simp
  | cons d s ih =>
      simp only [List.map_cons, List.forall₂_cons_left_iff, ih]
      constructor
      · rintro ⟨c, _, hc, rfl, rfl⟩
        rw [eq_of_beq hc]
      · rintro rfl
        exact ⟨d, s, beq_self_eq_true d, rfl, rfl⟩

theorem matches_literal {s : List Char} : Matches isWord (literal s) prev w rest ↔ w = s := by
  rw [literal, matches_sets, forall₂_beq]

theorem forall₂_replicate {p : Char → Bool} :
    List.Forall₂ (fun p c => p c = true) (List.replicate n p) w ↔
      w.length = n ∧ ∀ c ∈ w, p c = true := by
  induction n generalizing w with
  | zero => simp +contextual
  | succ n ih =>
      rw [List.replicate_succ, List.forall₂_cons_left_iff]
      constructor
      · rintro ⟨c, u, hc, hu, rfl⟩
        obtain ⟨rfl, hall⟩ := ih.mp hu
        exact ⟨rfl, List.forall_mem_cons.mpr ⟨hc, hall⟩⟩
      · rintro ⟨hlen, hall⟩
        cases w with
        | nil => cases hlen
        | cons c u =>
            obtain ⟨hc, hall⟩ := List.forall_mem_cons.mp hall
            exact ⟨c, u, hc, ih.mpr ⟨Nat.succ.inj hlen, hall⟩, rfl⟩

theorem matches_atLeast {p : Char → Bool} :
    Matches isWord (atLeast n p) prev w rest ↔ n ≤ w.length ∧ ∀ c ∈ w, p c = true := by
  simp only [atLeast, matches_seq, matches_sets, matches_star_set, forall₂_replicate]
  constructor
  · rintro ⟨u, v, rfl, ⟨rfl, hu⟩, hv⟩
    rw [List.length_append]
    refine ⟨Nat.le_add_right _ _, ?_⟩
    intro c hc
    exact (List.mem_append.mp hc).elim (hu c) (hv c)
  · rintro ⟨hlen, hall⟩
    refine ⟨w.take n, w.drop n, (List.take_append_drop n w).symm, ⟨?_, ?_⟩, ?_⟩
    · rw [List.length_take, Nat.min_eq_left hlen]
    · exact fun c hc => hall c (List.mem_of_mem_take hc)
    · exact fun c hc => hall c (List.mem_of_mem_drop hc)

theorem matches_plus_set {p : Char → Bool} :
    Matches isWord (plus (set p)) prev w rest ↔ w ≠ [] ∧ ∀ c ∈ w, p c = true := by
  simp only [plus, matches_seq, matches_set, matches_star_set]
  constructor
  · rintro ⟨_, v, rfl, ⟨c, rfl, hc⟩, hv⟩
    exact ⟨by simp, List.forall_mem_cons.mpr ⟨hc, hv⟩⟩
  · rintro ⟨hne, hall⟩
    obtain ⟨c, v, rfl⟩ := List.exists_cons_of_ne_nil hne
    obtain ⟨hc, hv⟩ := List.forall_mem_cons.mp hall
    exact ⟨[c], v, rfl, ⟨c, rfl, hc⟩, hv⟩

end Words

section Scanning

-- The pieces that a scan for the words of `P` leaves.
inductive Scanned (P : List Char → Prop) : List Char → List Piece → Prop
  | nil : Scanned P [] []
  | between {c text ps} : (∀ w, P w → ¬w <+: c :: text) → Scanned P text ps →
      Scanned P (c :: text) (.between c :: ps)
  | found {w rest ps} : P w → Scanned P rest ps → Scanned P (w ++ rest) (.found w :: ps)

variable {isWord : Char → Bool} {r : Regex} {prev : Option Char} {text : List Char}

theorem scanned_scanFrom (hr : Plain r) (hempty : ¬Word isWord r []) :
    Scanned (Word isWord r) text (scanFrom isWord r 0 prev text) := by
  induction hlen : text.length using Nat.strong_induction_on generalizing text prev with
  | _ n ih =>
      cases text with
      | nil => exact .nil
      | cons c text =>
          rw [scanFrom]
          cases hhead : (splits isWord r prev (c :: text)).head? with
          | none =>
              refine .between ?_ (ih text.length (by simp [← hlen]) rfl)
              rintro w hw ⟨rest, hrest⟩
              have hmem : (w, rest) ∈ splits isWord r prev (w ++ rest) := hr.word_iff.mpr hw
              rw [hrest, List.head?_eq_none_iff.mp hhead] at hmem
              cases hmem
          | some m =>
              have hmem := List.mem_of_mem_head? hhead
              have hword : Word isWord r m.1 := hr.word_iff.mp (matches_of_mem hmem)
              obtain ⟨m, rest⟩ := m
              cases m with
              | nil => exact absurd hword hempty
              | cons a w =>
                  have happ : c :: text = a :: w ++ rest := sound_splits hmem
                  obtain ⟨rfl, htext⟩ : c = a ∧ text = w ++ rest := List.cons.inj happ
                  subst htext
                  have hshorter : rest.length < n := by
                    rw [← hlen, List.length_cons, List.length_append]
                    omega
                  simp only [scanFrom_skip]
                  exact .found hword (ih rest.length hshorter rfl)

theorem scanned_scan (hr : Plain r) (hempty : ¬Word isWord r []) :
    Scanned (Word isWord r) text (scan isWord r text) := scanned_scanFrom hr hempty

def render (f : List Char → List Char) (ps : List Piece) : List Char := ps.flatMap (Piece.replace f)

end Scanning

section Infixes

variable {α : Type*} {x y z sp : List α} {c : α}

theorem prefix_of_not_mem (hc : c ∉ x) (h : x <+: y ++ c :: z) : x <+: y := by
  induction y generalizing x with
  | nil =>
      cases x with
      | nil => exact List.nil_prefix
      | cons d x =>
          obtain ⟨rfl, -⟩ := List.cons_prefix_cons.mp h
          exact absurd List.mem_cons_self hc
  | cons d y ih =>
      cases x with
      | nil => exact List.nil_prefix
      | cons e x =>
          obtain ⟨rfl, hx⟩ := List.cons_prefix_cons.mp h
          exact List.cons_prefix_cons.mpr ⟨rfl, ih (fun hmem => hc (List.mem_cons_of_mem _ hmem)) hx⟩

theorem infix_of_not_mem (hc : c ∉ x) (h : x <:+: y ++ c :: z) : x <:+: y ∨ x <:+: z := by
  induction y with
  | nil =>
      rcases List.infix_cons_iff.mp h with h | h
      · exact Or.inl (prefix_of_not_mem hc h).isInfix
      · exact Or.inr h
  | cons d y ih =>
      rcases List.infix_cons_iff.mp h with h | h
      · exact Or.inl (prefix_of_not_mem (y := d :: y) hc h).isInfix
      · rcases ih h with h | h
        · exact Or.inl (h.trans (List.suffix_cons d y).isInfix)
        · exact Or.inr h

theorem append_cons_inj {y' z' : List α} (hy : c ∉ y) (hy' : c ∉ y')
    (h : y ++ c :: z = y' ++ c :: z') : y = y' ∧ z = z' := by
  induction y generalizing y' with
  | nil =>
      cases y' with
      | nil => exact ⟨rfl, (List.cons.inj h).2⟩
      | cons d y' =>
          obtain ⟨rfl, -⟩ := List.cons.inj h
          exact absurd List.mem_cons_self hy'
  | cons d y ih =>
      cases y' with
      | nil =>
          obtain ⟨rfl, -⟩ := List.cons.inj h
          exact absurd List.mem_cons_self hy
      | cons e y' =>
          obtain ⟨rfl, htail⟩ := List.cons.inj h
          obtain ⟨rfl, hz⟩ := ih (fun hmem => hy (List.mem_cons_of_mem _ hmem))
            (fun hmem => hy' (List.mem_cons_of_mem _ hmem)) htail
          exact ⟨rfl, hz⟩

theorem infix_of_blank {blank : α → Prop} (hne : x ≠ []) (hlast : ∀ c ∈ x.getLast?, ¬blank c)
    (hsp : ∀ c ∈ sp, blank c) (h : x <:+: y ++ sp) : x <:+: y := by
  induction sp using List.reverseRecOn with
  | nil => simpa using h
  | append_singleton sp c ih =>
      rw [← List.append_assoc] at h
      rcases List.infix_concat_iff.mp h with h | h
      · exfalso
        obtain ⟨t, ht⟩ := h
        have hget := congrArg List.getLast? ht
        rw [List.getLast?_append_of_ne_nil _ hne, List.getLast?_concat] at hget
        exact hlast c hget (hsp c (by simp))
      · exact ih (fun c hc => hsp c (List.mem_append_left _ hc)) h

-- An infix of two texts begins in the first one or lies in the second one.
theorem infix_append_cases (h : x <:+: y ++ z) :
    (∃ y₁ y₂, y = y₁ ++ y₂ ∧ y₂ ≠ [] ∧ x <+: y₂ ++ z) ∨ x <:+: z := by
  induction y with
  | nil => exact Or.inr h
  | cons d y ih =>
      rcases List.infix_cons_iff.mp h with h | h
      · exact Or.inl ⟨[], d :: y, rfl, List.cons_ne_nil _ _, h⟩
      · rcases ih h with ⟨y₁, y₂, rfl, hne, hx⟩ | h
        · exact Or.inl ⟨d :: y₁, y₂, rfl, hne, hx⟩
        · exact Or.inr h

-- A text that ends in a character of the first of two texts only lies in the first.
theorem prefix_of_last (hlast : x.getLast? = some c) (hc : c ∉ z) (h : x <+: y ++ z) :
    x <+: y := by
  obtain ⟨u, hu⟩ := h
  rcases List.append_eq_append_iff.mp hu with ⟨w, hy, -⟩ | ⟨w, hx, hz⟩
  · exact ⟨w, hy.symm⟩
  · cases w using List.reverseRecOn with
    | nil => rw [hx, List.append_nil]
    | append_singleton w d _ =>
        rw [hx, ← List.append_assoc, List.getLast?_concat] at hlast
        obtain rfl := Option.some.inj hlast
        refine absurd ?_ hc
        rw [hz]
        simp

end Infixes

section Marks

-- How the words of a pattern are replaced: a prefix of the word and blanks stand before the mark,
-- a suffix of the word after it.
structure Marked (blank bar : Char → Prop) (body : List Char → Prop) (w out : List Char) : Prop where
  parts : ∃ a sp c m d b, out = a ++ sp ++ c :: m ++ d :: b ∧ a <+: w ∧ b <:+ w ∧
    (∀ x ∈ sp, blank x) ∧ bar c ∧ bar d ∧ body m

structure Solid (blank bar : Char → Prop) (x : List Char) : Prop where
  ne_nil : x ≠ []
  no_bar : ∀ c ∈ x, ¬bar c
  last : ∀ c ∈ x.getLast?, ¬blank c

variable {blank bar : Char → Prop} {body P Q : List Char → Prop} {f : List Char → List Char}
  {ps : List Piece} {text left x : List Char}

theorem infix_render (hf : ∀ w, P w → Marked blank bar body w (f w)) (h : Scanned P text ps)
    (hx : Solid blank bar x) (hin : x <:+: left ++ render f ps) :
    x <:+: left ++ text ∨ ∃ m, body m ∧ x <:+: m := by
  induction h generalizing left with
  | nil => exact Or.inl hin
  | @between c text ps _ _ ih =>
      have hstep : x <:+: (left ++ [c]) ++ render f ps := by
        rw [List.append_assoc]
        exact hin
      have hback := ih hstep
      rwa [List.append_assoc] at hback
  | @found w rest ps hw _ ih =>
      obtain ⟨a, sp, c, m, d, b, hout, ⟨w₂, hw₂⟩, ⟨w₁, hw₁⟩, hsp, hc, hd, hm⟩ := (hf w hw).parts
      have hrender : left ++ render f (.found w :: ps) =
          (left ++ a ++ sp) ++ c :: (m ++ d :: (b ++ render f ps)) := by
        simp only [render, List.flatMap_cons, Piece.replace, hout, List.append_assoc,
          List.cons_append]
      rw [hrender] at hin
      rcases infix_of_not_mem (fun hmem => hx.no_bar c hmem hc) hin with hin | hin
      · left
        have hbefore : x <:+: left ++ a := infix_of_blank hx.ne_nil hx.last hsp hin
        refine hbefore.trans ⟨[], w₂ ++ rest, ?_⟩
        rw [← hw₂]
        simp
      · rcases infix_of_not_mem (fun hmem => hx.no_bar d hmem hd) hin with hin | hin
        · exact Or.inr ⟨m, hm, hin⟩
        · rcases ih hin with hin | hin
          · left
            refine hin.trans ⟨left ++ w₁, [], ?_⟩
            rw [← hw₁]
            simp
          · exact Or.inr hin

-- No word begins in `left`, when `text` follows.
def NoStart (P : List Char → Prop) (left text : List Char) : Prop :=
  ∀ y z, left = y ++ z → z ≠ [] → ∀ x, P x → ¬x <+: z ++ text

theorem NoStart.concat {c : Char} (h : NoStart P left (c :: text))
    (hc : ∀ w, P w → ¬w <+: c :: text) : NoStart P (left ++ [c]) text := by
  intro y z heq hne x hx hpre
  cases z using List.reverseRecOn with
  | nil => exact hne rfl
  | append_singleton z d _ =>
      rw [← List.append_assoc] at heq
      obtain ⟨hleft, hd⟩ := List.append_inj' heq rfl
      obtain rfl := (List.cons.inj hd).1
      rw [List.append_assoc] at hpre
      cases z with
      | nil => exact hc x hx hpre
      | cons e z => exact h y (e :: z) hleft (List.cons_ne_nil _ _) x hx hpre

theorem NoStart.nil : NoStart P [] text := by
  intro y z heq hne
  exact absurd (List.append_eq_nil_iff.mp heq.symm).2 hne

-- A word begins with no character of what a mark leaves after it, and is no part of what stays before.
structure SelfMarked (blank bar : Char → Prop) (body P : List Char → Prop) (w out : List Char) :
    Prop where
  parts : ∃ a sp c m d b, out = a ++ sp ++ c :: m ++ d :: b ∧ a <+: w ∧ b <:+ w ∧
    (∀ x ∈ sp, blank x) ∧ bar c ∧ bar d ∧ body m ∧ (∀ text, NoStart P b text) ∧
    ∀ x, P x → ¬x <:+: a

theorem SelfMarked.marked {w out : List Char} (h : SelfMarked blank bar body P w out) :
    Marked blank bar body w out := by
  obtain ⟨a, sp, c, m, d, b, hout, ha, hb, hsp, hc, hd, hm, -, -⟩ := h.parts
  exact ⟨a, sp, c, m, d, b, hout, ha, hb, hsp, hc, hd, hm⟩

-- What the words of `P` have been replaced in holds no further word of `P`.
theorem fresh_render (hf : ∀ w, P w → SelfMarked blank bar body P w (f w)) (h : Scanned P text ps)
    (hsolid : ∀ x, P x → Solid blank bar x) (hbody : ∀ m, body m → ∀ x, P x → ¬x <:+: m)
    (hleft : NoStart P left text) : ∀ x, P x → ¬x <:+: left ++ render f ps := by
  intro x hx hin
  induction h generalizing left with
  | nil =>
      rcases infix_append_cases hin with ⟨y, z, rfl, hne, hpre⟩ | hin
      · exact hleft y z rfl hne x hx hpre
      · exact (hsolid x hx).ne_nil (List.infix_nil.mp hin)
  | @between c text ps hc _ ih =>
      apply ih (hleft.concat hc)
      rw [List.append_assoc]
      exact hin
  | @found w rest ps hw _ ih =>
      obtain ⟨a, sp, c, m, d, b, hout, ⟨w₂, hw₂⟩, -, hsp, hc, hd, hm, hb, ha⟩ := (hf w hw).parts
      have hrender : left ++ render f (.found w :: ps) =
          (left ++ a ++ sp) ++ c :: (m ++ d :: (b ++ render f ps)) := by
        simp only [render, List.flatMap_cons, Piece.replace, hout, List.append_assoc,
          List.cons_append]
      rw [hrender] at hin
      have hxs := hsolid x hx
      rcases infix_of_not_mem (fun hmem => hxs.no_bar c hmem hc) hin with hin | hin
      · rcases infix_append_cases (infix_of_blank hxs.ne_nil hxs.last hsp hin) with
          ⟨y, z, rfl, hne, hpre⟩ | hin
        · apply hleft y z rfl hne x hx
          rw [← hw₂]
          exact hpre.trans ⟨w₂ ++ rest, by simp⟩
        · exact ha x hx hin
      · rcases infix_of_not_mem (fun hmem => hxs.no_bar d hmem hd) hin with hin | hin
        · exact hbody m hm x hx hin
        · exact ih (hb rest) hin

theorem render_of_fixed (h : Scanned P text ps) (hfixed : ∀ w, P w → w <:+: text → f w = w) :
    render f ps = text := by
  induction h with
  | nil => rfl
  | @between c text ps _ _ ih =>
      have hrest : ∀ w, P w → w <:+: text → f w = w :=
        fun w hw hin => hfixed w hw (hin.trans (List.suffix_cons c text).isInfix)
      rw [render, List.flatMap_cons, ← render, ih hrest]
      rfl
  | @found w rest ps hw _ ih =>
      have hrest : ∀ w, P w → w <:+: rest → f w = w :=
        fun v hv hin => hfixed v hv (hin.trans (List.suffix_append w rest).isInfix)
      rw [render, List.flatMap_cons, ← render, ih hrest, Piece.replace,
        hfixed w hw (List.prefix_append w rest).isInfix]

-- Texts of `S` with marks between them.
inductive Stitched (bar : Char → Prop) (body S : List Char → Prop) : List Char → Prop
  | last {y} : S y → Stitched bar body S y
  | cons {y c m d z} : S y → bar c → bar d → body m → Stitched bar body S z →
      Stitched bar body S (y ++ c :: (m ++ d :: z))

theorem Stitched.mono {S S' : List Char → Prop} {z : List Char} (h : Stitched bar body S z)
    (hmono : ∀ y, S y → S' y) : Stitched bar body S' z := by
  induction h with
  | last hy => exact .last (hmono _ hy)
  | cons hy hc hd hm _ ih => exact .cons (hmono _ hy) hc hd hm ih

theorem infix_stitched {S : List Char → Prop} {z : List Char} (h : Stitched bar body S z)
    (hx : Solid blank bar x) (hin : x <:+: z) :
    (∃ y, S y ∧ x <:+: y) ∨ ∃ m, body m ∧ x <:+: m := by
  induction h with
  | last hy => exact Or.inl ⟨_, hy, hin⟩
  | cons hy hc hd hm _ ih =>
      rcases infix_of_not_mem (fun hmem => hx.no_bar _ hmem hc) hin with hin | hin
      · exact Or.inl ⟨_, hy, hin⟩
      · rcases infix_of_not_mem (fun hmem => hx.no_bar _ hmem hd) hin with hin | hin
        · exact Or.inr ⟨_, hm, hin⟩
        · exact ih hin

end Marks

section Cuts

variable {P : List Char → Prop} {f : List Char → List Char} {text x w : List Char} {ps : List Piece}

theorem Scanned.render_id (h : Scanned P text ps) : render id ps = text := by
  induction h with
  | nil => rfl
  | @between c text ps _ _ ih => exact congrArg (c :: ·) ih
  | @found w rest ps _ _ ih => exact congrArg (w ++ ·) ih

theorem Scanned.word (h : Scanned P text ps) (hw : .found w ∈ ps) : P w := by
  induction h with
  | nil => cases hw
  | between _ _ ih =>
      rcases List.mem_cons.mp hw with hw | hw
      · cases hw
      · exact ih hw
  | found hword _ ih =>
      rcases List.mem_cons.mp hw with hw | hw
      · cases hw
        exact hword
      · exact ih hw

theorem render_append {qs : List Piece} : render f (ps ++ qs) = render f ps ++ render f qs :=
  List.flatMap_append

theorem infix_render_mid {pre mid post : List Piece} : render f mid <:+: render f (pre ++ mid ++ post) :=
  ⟨render f pre, render f post, by rw [render_append, render_append]⟩

-- A text whose last character no replacement holds ends between two pieces.
theorem prefix_render (hlast : ∀ d ∈ x.getLast?, ∀ w, .found w ∈ ps → d ∉ f w)
    (h : x <+: render f ps) : ∃ mid post, ps = mid ++ post ∧ render f mid = x := by
  induction ps generalizing x with
  | nil => exact ⟨[], [], rfl, (List.prefix_nil.mp h).symm⟩
  | cons p ps ih =>
      have hrest : ∀ {v u : List Char}, x = v ++ u →
          ∀ d ∈ u.getLast?, ∀ w, .found w ∈ ps → d ∉ f w := by
        intro v u hx d hd w hw
        apply hlast d _ w (List.mem_cons_of_mem p hw)
        rw [hx, List.getLast?_append, Option.mem_def.mp hd]
        rfl
      cases x with
      | nil => exact ⟨[], p :: ps, rfl, rfl⟩
      | cons a x =>
          cases p with
          | between c =>
              obtain ⟨rfl, hx⟩ := List.cons_prefix_cons.mp h
              obtain ⟨mid, post, rfl, hmid⟩ := ih (hrest (v := [a]) rfl) hx
              exact ⟨.between a :: mid, post, rfl, congrArg (a :: ·) hmid⟩
          | found w =>
              obtain ⟨z, hz⟩ := h
              have hsplit : a :: x ++ z = f w ++ render f ps := hz
              rcases List.append_eq_append_iff.mp hsplit with ⟨u, hword, -⟩ | ⟨u, hx, hu⟩
              · -- the text would end in the replacement
                exfalso
                obtain ⟨d, hd⟩ : ∃ d, (a :: x).getLast? = some d :=
                  ⟨_, List.getLast?_eq_some_getLast (List.cons_ne_nil a x)⟩
                apply hlast d hd w List.mem_cons_self
                rw [hword]
                exact List.mem_append_left _ (List.mem_of_getLast? hd)
              · obtain ⟨mid, post, rfl, hmid⟩ := ih (hrest hx) ⟨z, hu.symm⟩
                exact ⟨.found w :: mid, post, rfl, by rw [hx, ← hmid]; rfl⟩

theorem infix_render_cut (hhead : ∀ d ∈ x.head?, ∀ w, .found w ∈ ps → d ∉ f w)
    (hlast : ∀ d ∈ x.getLast?, ∀ w, .found w ∈ ps → d ∉ f w) (h : x <:+: render f ps) :
    ∃ pre mid post, ps = pre ++ mid ++ post ∧ render f mid = x := by
  induction ps with
  | nil => exact ⟨[], [], [], rfl, (List.infix_nil.mp h).symm⟩
  | cons p ps ih =>
      have hlater : x <:+: render f ps →
          ∃ pre mid post, p :: ps = pre ++ mid ++ post ∧ render f mid = x := by
        intro hin
        obtain ⟨pre, mid, post, rfl, hmid⟩ := ih
          (fun d hd w hw => hhead d hd w (List.mem_cons_of_mem p hw))
          (fun d hd w hw => hlast d hd w (List.mem_cons_of_mem p hw)) hin
        exact ⟨p :: pre, mid, post, rfl, hmid⟩
      cases p with
      | between c =>
          rcases List.infix_cons_iff.mp h with hpre | hin
          · obtain ⟨mid, post, hps, hmid⟩ := prefix_render hlast hpre
            exact ⟨[], mid, post, hps, hmid⟩
          · exact hlater hin
      | found w =>
          rcases infix_append_cases h with ⟨y, z, hword, hne, hpre⟩ | hin
          · cases x with
            | nil => exact ⟨[], [], _, rfl, rfl⟩
            | cons a x =>
                obtain ⟨d, z, rfl⟩ := List.exists_cons_of_ne_nil hne
                obtain ⟨rfl, -⟩ := List.cons_prefix_cons.mp hpre
                have htext : f w = y ++ a :: z := hword
                refine absurd ?_ (hhead a rfl w List.mem_cons_self)
                rw [htext]
                simp
          · exact hlater hin

end Cuts

section Spans

-- Where the words begin and end, the first piece at place `i`.
def spans : ℕ → List Piece → List (ℕ × ℕ)
  | _, [] => []
  | i, .between _ :: ps => spans (i + 1) ps
  | i, .found w :: ps => (i, i + w.length) :: spans (i + w.length) ps

end Spans

end Regex
