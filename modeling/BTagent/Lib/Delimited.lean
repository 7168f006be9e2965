import BTagent.Lib.Regex

namespace Regex

-- The matches of `r` are the words of `P`, wherever they stand; each ends at its first `stop`.
structure Delimited (isWord : Char → Bool) (r : Regex) (stop : Char) (P : List Char → Prop) :
    Prop where
  matches_iff : ∀ {prev w rest}, Matches isWord r prev w rest ↔ P w
  stop_last : ∀ {w}, P w → ∃ x, w = x ++ [stop] ∧ stop ∉ x

-- A word that begins in `a` ends in `b`.
def Across (P : List Char → Prop) (a b : List Char) : Prop :=
  ∃ x y, x ≠ [] ∧ y ≠ [] ∧ x <:+ a ∧ y <+: b ∧ P (x ++ y)

def AcrossParts (P : List Char → Prop) : List (List Char) → Prop
  | [] => False
  | part :: parts => Across P part parts.flatten ∨ AcrossParts P parts

namespace Delimited

variable {isWord : Char → Bool} {r : Regex} {stop : Char} {P : List Char → Prop}
  {prev : Option Char} {w v rest text a b : List Char}

section
variable (D : Delimited isWord r stop P)
include D

theorem ne_nil (hw : P w) : w ≠ [] := by
  obtain ⟨x, rfl, -⟩ := D.stop_last hw
  simp

theorem prefix_unique (hw : P w) (hv : P v) (h : w <+: v) : w = v := by
  obtain ⟨x, rfl, hx⟩ := D.stop_last hw
  obtain ⟨y, rfl, hy⟩ := D.stop_last hv
  obtain ⟨t, ht⟩ := h
  cases t using List.reverseRecOn with
  | nil => simpa using ht
  | append_singleton t c _ =>
      have hinit := (List.append_inj' (by simpa using ht : (x ++ [stop] ++ t) ++ [c] = y ++ [stop]) rfl).1
      rw [← hinit] at hy
      simp at hy

theorem head?_found (hw : P w) :
    (splits isWord r prev (w ++ rest)).head? = some (w, rest) := by
  apply head?_of_unique (D.matches_iff.mpr hw)
  intro v rest' hv
  have hpv := D.matches_iff.mp (matches_of_mem hv)
  have happ := sound_splits hv
  rcases List.prefix_or_prefix_of_prefix (List.prefix_append w rest)
    (happ ▸ List.prefix_append v rest') with h | h
  · exact (D.prefix_unique hw hpv h).symm
  · exact D.prefix_unique hpv hw h

theorem head?_none (h : ∀ w, P w → ¬ w <+: text) :
    (splits isWord r prev text).head? = none := by
  by_contra hne
  obtain ⟨⟨w, rest⟩, hm⟩ := Option.ne_none_iff_exists'.mp hne
  have hmem := List.mem_of_mem_head? hm
  exact h w (D.matches_iff.mp (matches_of_mem hmem))
    (sound_splits hmem ▸ List.prefix_append w rest)

theorem scanFrom_between {c : Char} (h : ∀ w, P w → ¬ w <+: c :: text) :
    scanFrom isWord r 0 prev (c :: text) = .between c :: scanFrom isWord r 0 (some c) text := by
  simp [scanFrom, D.head?_none h]

theorem scanFrom_found (hw : P w) : scanFrom isWord r 0 prev (w ++ rest) =
    .found w :: scanFrom isWord r 0 (lastOf prev w) rest := by
  obtain ⟨c, v, rfl⟩ := List.exists_cons_of_ne_nil (D.ne_nil hw)
  have hhead : (splits isWord r prev (c :: v ++ rest)).head? = some (c :: v, rest) :=
    D.head?_found hw
  rw [← lastOf_cons, ← scanFrom_skip]
  simp only [List.cons_append] at hhead ⊢
  simp [scanFrom, hhead]

theorem induct {motive : List Char → Prop} (nil : motive [])
    (found : ∀ w rest, P w → motive rest → motive (w ++ rest))
    (between : ∀ c text, (∀ w, P w → ¬ w <+: c :: text) → motive text → motive (c :: text)) :
    ∀ text, motive text := by
  intro text
  induction hlen : text.length using Nat.strong_induction_on generalizing text with
  | _ n ih =>
      cases text with
      | nil => exact nil
      | cons c text =>
          by_cases hword : ∃ w, P w ∧ w <+: c :: text
          · obtain ⟨w, hw, rest, hrest⟩ := hword
            rw [← hrest]
            have hpos := List.length_pos_of_ne_nil (D.ne_nil hw)
            have hsum := congrArg List.length hrest
            rw [List.length_append] at hsum
            exact found w rest hw (ih _ (by omega) rest rfl)
          · have hnone : ∀ w, P w → ¬ w <+: c :: text := fun w hw hp => hword ⟨w, hw, hp⟩
            simp only [List.length_cons] at hlen
            exact between c text hnone (ih _ (by omega) text rfl)

theorem scanFrom_eq : scanFrom isWord r 0 prev text = scan isWord r text := by
  suffices h : ∀ prev prev', scanFrom isWord r 0 prev text = scanFrom isWord r 0 prev' text from
    h prev none
  induction text using D.induct with
  | nil => exact fun _ _ => rfl
  | found w rest hw ih =>
      intro prev prev'
      rw [D.scanFrom_found hw, D.scanFrom_found hw, ih (lastOf prev w) (lastOf prev' w)]
  | between c text hnone _ =>
      intro prev prev'
      rw [D.scanFrom_between hnone, D.scanFrom_between hnone]

theorem scan_found (hw : P w) : scan isWord r (w ++ rest) = .found w :: scan isWord r rest := by
  rw [scan, D.scanFrom_found hw, D.scanFrom_eq]

theorem scan_between {c : Char} (h : ∀ w, P w → ¬ w <+: c :: text) :
    scan isWord r (c :: text) = .between c :: scan isWord r text := by
  rw [scan, D.scanFrom_between h, D.scanFrom_eq]

theorem scan_append (h : ¬ Across P a b) :
    scan isWord r (a ++ b) = scan isWord r a ++ scan isWord r b := by
  induction a using D.induct with
  | nil => rfl
  | found w rest hw ih =>
      have hrest : ¬ Across P rest b := by
        rintro ⟨x, y, hx, hy, hxa, hyb, hxy⟩
        exact h ⟨x, y, hx, hy, hxa.trans (List.suffix_append w rest), hyb, hxy⟩
      rw [List.append_assoc, D.scan_found hw, D.scan_found hw, ih hrest, List.cons_append]
  | between c text hnone ih =>
      have htext : ¬ Across P text b := by
        rintro ⟨x, y, hx, hy, hxa, hyb, hxy⟩
        exact h ⟨x, y, hx, hy, hxa.trans (List.suffix_cons c text), hyb, hxy⟩
      have hnone' : ∀ w, P w → ¬ w <+: c :: (text ++ b) := by
        intro w hw hpre
        rw [← List.cons_append] at hpre
        obtain ⟨tail, htail⟩ := hpre
        rcases List.append_eq_append_iff.mp htail with ⟨u, hu, -⟩ | ⟨y, hy, hb⟩
        · exact hnone w hw ⟨u, hu.symm⟩
        · cases y with
          | nil => exact hnone w hw ⟨[], by simpa using hy⟩
          | cons d y =>
              rw [hy] at hw
              exact h ⟨c :: text, d :: y, by simp, by simp, List.suffix_refl _, ⟨tail, hb.symm⟩, hw⟩
      rw [List.cons_append, D.scan_between hnone', D.scan_between hnone, ih htext, List.cons_append]

theorem scan_across (h : Across P a b) (rest : List Piece) :
    scan isWord r (a ++ b) ≠ scan isWord r a ++ rest := by
  induction a using D.induct generalizing rest with
  | nil =>
      obtain ⟨x, y, hx, -, hxa, -, -⟩ := h
      exact absurd (List.suffix_nil.mp hxa) hx
  | found w tail hw ih =>
      rw [List.append_assoc, D.scan_found hw, D.scan_found hw, List.cons_append]
      intro heq
      refine ih ?_ rest (List.cons.inj heq).2
      obtain ⟨x, y, hx, hy, hxa, hyb, hxy⟩ := h
      refine ⟨x, y, hx, hy, ?_, hyb, hxy⟩
      rcases List.suffix_or_suffix_of_suffix hxa (List.suffix_append w tail) with hs | hs
      · exact hs
      · obtain ⟨u, rfl⟩ := hs
        cases u with
        | nil => exact List.suffix_refl _
        | cons c u =>
            -- the word would hold the stop that ends `w`
            obtain ⟨z, hz⟩ := hxa
            have hwu : w = z ++ c :: u := by
              have hassoc : (z ++ c :: u) ++ tail = w ++ tail := by simpa using hz
              exact (List.append_cancel_right hassoc).symm
            obtain ⟨v, hv, -⟩ := D.stop_last hw
            obtain ⟨v', hv', hnot⟩ := D.stop_last hxy
            have hstop : stop ∈ c :: u ++ tail := by
              have hlast := congrArg List.getLast? (hwu.symm.trans hv)
              rw [List.getLast?_append, List.getLast?_concat] at hlast
              have hmem : stop ∈ (c :: u).getLast? := by simpa using hlast
              exact List.mem_append_left _ (List.mem_of_getLast? hmem)
            have hinit : c :: u ++ tail <+: v' := by
              cases y using List.reverseRecOn with
              | nil => exact absurd rfl hy
              | append_singleton y d _ =>
                  rw [← List.append_assoc] at hv'
                  exact ⟨y, (List.append_inj' hv' rfl).1⟩
            exact absurd (hinit.subset hstop) hnot
  | between c text hnone ih =>
      by_cases hword : ∃ w, P w ∧ w <+: c :: (text ++ b)
      · obtain ⟨w, hw, tail, htail⟩ := hword
        rw [List.cons_append, ← htail, D.scan_found hw, D.scan_between hnone]
        exact fun heq => absurd (List.cons.inj heq).1 (by simp)
      · have hnone' : ∀ w, P w → ¬ w <+: c :: (text ++ b) := fun w hw hp => hword ⟨w, hw, hp⟩
        rw [List.cons_append, D.scan_between hnone', D.scan_between hnone]
        intro heq
        refine ih ?_ rest (List.cons.inj heq).2
        obtain ⟨x, y, hx, hy, hxa, ⟨tail, hb⟩, hxy⟩ := h
        rcases List.suffix_cons_iff.mp hxa with rfl | hxa
        · exact absurd ⟨tail, by rw [← hb]; simp⟩ (hnone' _ hxy)
        · exact ⟨x, y, hx, hy, hxa, ⟨tail, hb⟩, hxy⟩

theorem scan_flatten_iff {parts : List (List Char)} :
    scan isWord r parts.flatten = parts.flatMap (scan isWord r) ↔ ¬ AcrossParts P parts := by
  induction parts with
  | nil => simp [AcrossParts, scan, scanFrom]
  | cons part parts ih =>
      simp only [List.flatten_cons, List.flatMap_cons, AcrossParts, not_or]
      by_cases hacross : Across P part parts.flatten
      · simp only [hacross, not_true_eq_false, false_and, iff_false]
        exact D.scan_across hacross _
      · rw [D.scan_append hacross, List.append_cancel_left_eq, ih]
        simp [hacross]

theorem scan_plain (h : ∀ w, P w → ¬ w <:+: text) :
    scan isWord r text = text.map .between := by
  induction text with
  | nil => rfl
  | cons c text ih =>
      have hnone : ∀ w, P w → ¬ w <+: c :: text := fun w hw hp => h w hw hp.isInfix
      rw [D.scan_between hnone, List.map_cons, ih]
      exact fun w hw hsub => h w hw (hsub.trans (List.suffix_cons c text).isInfix)

end

end Delimited

end Regex
