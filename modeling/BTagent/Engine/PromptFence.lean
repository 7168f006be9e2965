import BTagent.Data.CharTable
import BTagent.Lib.Delimited

namespace BTagent

namespace PromptFence
open Regex

def TAG_NAMES : List String := ["external-data", "agent-memory", "knowledge-context"]

variable (T : CharTable)

def space : Regex := set T.isSpace

def name (text : String) : Regex := sets (text.toList.map T.sameLetter)

def names : Regex :=
  alt (name T "external-data") (alt (name T "agent-memory") (name T "knowledge-context"))

-- `_ANY_SENTINEL_RE`
def ANY_SENTINEL : Regex :=
  seq (char '<') (seq (star (space T)) (seq (opt (char '/')) (seq (star (space T))
    (seq (names T) (seq boundary (seq (star (set (· != '>'))) (char '>')))))))

def escapeChar (c : Char) : List Char :=
  if c = '<' then "&lt;".toList else if c = '>' then "&gt;".toList else [c]

def escape (w : List Char) : List Char := w.flatMap escapeChar

def neutralize (text : List Char) : List Char := sub T.isWord (ANY_SENTINEL T) escape text

def neutralizeSentinels (text : String) : String := String.ofList (neutralize T text.toList)

def IsName (w : List Char) : Prop :=
  ∃ text ∈ TAG_NAMES, List.Forall₂ (fun c d => T.sameLetter c d = true) text.toList w

def IsTag (w : List Char) : Prop :=
  ∃ before slash after word attrs,
    w = '<' :: (before ++ (slash ++ (after ++ (word ++ (attrs ++ ['>']))))) ∧
    (∀ c ∈ before, T.isSpace c = true) ∧ (slash = [] ∨ slash = ['/']) ∧
    (∀ c ∈ after, T.isSpace c = true) ∧ IsName T word ∧
    AtBoundary T.isWord word.getLast? (attrs ++ ['>']).head? ∧ ∀ c ∈ attrs, (c != '>') = true

variable {T} {prev : Option Char} {w rest text x y : List Char} {c : Char}

section Tag

theorem matches_name {text : String} : Matches T.isWord (name T text) prev w rest ↔
    List.Forall₂ (fun c d => T.sameLetter c d = true) text.toList w := by
  rw [name, matches_sets, List.forall₂_map_left_iff]

theorem matches_names : Matches T.isWord (names T) prev w rest ↔ IsName T w := by
  simp only [names, matches_alt, matches_name, IsName, TAG_NAMES, List.mem_cons, List.not_mem_nil,
    or_false, exists_eq_or_imp, exists_eq_left]

theorem not_in_name (hc : c.toNat < 128)
    (hname : ∀ text ∈ TAG_NAMES, ∀ d ∈ text.toList, (d.toLower == c.toLower) = false)
    (h : IsName T w) : c ∉ w := by
  obtain ⟨text, htext, hall⟩ := h
  intro hmem
  obtain ⟨i, hi⟩ := List.mem_iff_getElem?.mp hmem
  have hascii : ∀ text ∈ TAG_NAMES, ∀ d ∈ text.toList, d.toNat < 128 := by decide
  have hlen := hall.length_eq
  have hlt : i < w.length := (List.getElem?_eq_some_iff.mp hi).1
  have hletter := (List.forall₂_iff_get.mp hall).2 i (by omega) hlt
  have hd : text.toList.get ⟨i, by omega⟩ ∈ text.toList := List.get_mem _ _
  have hci : w.get ⟨i, hlt⟩ = c := (List.getElem?_eq_some_iff.mp hi).2
  rw [hci, T.letter_ascii _ _ (hascii text htext _ hd) hc, hname text htext _ hd] at hletter
  cases hletter

theorem plain_of_ascii (hc : c.toNat < 128)
    (hspace : (c == ' ' || (9 ≤ c.toNat && c.toNat ≤ 13) || (28 ≤ c.toNat && c.toNat ≤ 31)) = false)
    (hname : ∀ text ∈ TAG_NAMES, ∀ d ∈ text.toList, (d.toLower == c.toLower) = false) :
    T.isSpace c = false ∧ ∀ w, IsName T w → c ∉ w :=
  ⟨(T.space_ascii c hc).trans hspace, fun _ h => not_in_name hc hname h⟩

theorem head_plain {before slash after word : List Char}
    (hc : T.isSpace c = false ∧ ∀ w, IsName T w → c ∉ w) (hne : c ≠ '/')
    (hbefore : ∀ c ∈ before, T.isSpace c = true) (hslash : slash = [] ∨ slash = ['/'])
    (hafter : ∀ c ∈ after, T.isSpace c = true) (hname : IsName T word) :
    c ∉ before ++ (slash ++ (after ++ word)) := by
  have hblank : ∀ {cs : List Char}, (∀ c ∈ cs, T.isSpace c = true) → c ∉ cs := by
    intro cs hcs hmem
    have htrue := hcs c hmem
    rw [hc.1] at htrue
    cases htrue
  have hslash' : c ∉ slash := by
    rcases hslash with rfl | rfl
    · exact List.not_mem_nil
    · simpa using hne
  simp [hblank hbefore, hslash', hblank hafter, hc.2 word hname]

theorem head_any {d : Char} (hd : T.isWord d = false) :
    (x ++ d :: y).head?.any T.isWord = x.head?.any T.isWord := by
  cases x with
  | nil => simp [hd]
  | cons c x => rfl

theorem name_ne_nil (h : IsName T w) : w ≠ [] := by
  obtain ⟨text, htext, hall⟩ := h
  rintro rfl
  have hne : ∀ text ∈ TAG_NAMES, text.toList ≠ [] := by decide
  exact hne text htext (List.forall₂_nil_right_iff.mp hall)

theorem matches_sentinel : Matches T.isWord (ANY_SENTINEL T) prev w rest ↔ IsTag T w := by
  constructor
  · intro h
    obtain ⟨_, _, rfl, hopen, h⟩ := matches_seq.mp h
    obtain rfl := matches_char.mp hopen
    obtain ⟨before, _, rfl, hbefore, h⟩ := matches_seq.mp h
    obtain ⟨slash, _, rfl, hslash, h⟩ := matches_seq.mp h
    obtain ⟨after, _, rfl, hafter, h⟩ := matches_seq.mp h
    obtain ⟨word, _, rfl, hword, h⟩ := matches_seq.mp h
    obtain ⟨_, _, rfl, hbound, h⟩ := matches_seq.mp h
    obtain ⟨rfl, hat⟩ := matches_boundary.mp hbound
    obtain ⟨attrs, _, rfl, hattrs, hclose⟩ := matches_seq.mp h
    obtain rfl := matches_char.mp hclose
    have hname := matches_names.mp hword
    refine ⟨before, slash, after, word, attrs, by simp, matches_star_set.mp hbefore, ?_,
      matches_star_set.mp hafter, hname, ?_, matches_star_set.mp hattrs⟩
    · rcases matches_opt.mp hslash with hnone | hone
      · exact Or.inl hnone
      · exact Or.inr (matches_char.mp hone)
    · have hlast : ∀ {prev}, lastOf prev word = word.getLast? := by
        intro prev
        rw [lastOf, List.getLast?_eq_some_getLast (name_ne_nil hname)]
        rfl
      rw [hlast] at hat
      cases attrs <;> exact hat
  · rintro ⟨before, slash, after, word, attrs, rfl, hbefore, hslash, hafter, hname, hat, hattrs⟩
    refine matches_seq.mpr ⟨['<'], _, rfl, matches_char.mpr rfl, ?_⟩
    refine matches_seq.mpr ⟨before, _, rfl, matches_star_set.mpr hbefore, ?_⟩
    refine matches_seq.mpr ⟨slash, _, rfl, matches_opt.mpr ?_, ?_⟩
    · rcases hslash with rfl | rfl
      · exact Or.inl rfl
      · exact Or.inr (matches_char.mpr rfl)
    refine matches_seq.mpr ⟨after, _, rfl, matches_star_set.mpr hafter, ?_⟩
    refine matches_seq.mpr ⟨word, _, rfl, matches_names.mpr hname, ?_⟩
    refine matches_seq.mpr ⟨[], attrs ++ ['>'], rfl, matches_boundary.mpr ⟨rfl, ?_⟩, ?_⟩
    · rw [lastOf, List.getLast?_eq_some_getLast (name_ne_nil hname)]
      rw [List.getLast?_eq_some_getLast (name_ne_nil hname)] at hat
      cases attrs <;> exact hat
    · exact matches_seq.mpr ⟨attrs, ['>'], rfl, matches_star_set.mpr hattrs, matches_char.mpr rfl⟩

theorem delimited : Delimited T.isWord (ANY_SENTINEL T) '>' (IsTag T) := by
  refine ⟨matches_sentinel, ?_⟩
  rintro w ⟨before, slash, after, word, attrs, rfl, hbefore, hslash, hafter, hname, -, hattrs⟩
  refine ⟨'<' :: (before ++ (slash ++ (after ++ (word ++ attrs)))), by simp, ?_⟩
  have hgt := plain_of_ascii (T := T) (c := '>') (by decide) (by decide) (by decide)
  have hhead := head_plain hgt (by decide) hbefore hslash hafter hname
  have hattrs' : '>' ∉ attrs := fun hmem => absurd (hattrs _ hmem) (by decide)
  simp only [List.mem_append, not_or] at hhead
  simp [hhead, hattrs']

end Tag

section Neutralize

theorem neutralize_found (hw : IsTag T w) :
    neutralize T (w ++ rest) = escape w ++ neutralize T rest := by
  rw [neutralize, sub, delimited.scan_found hw, List.flatMap_cons]
  rfl

theorem neutralize_between (h : ∀ w, IsTag T w → ¬ w <+: c :: text) :
    neutralize T (c :: text) = c :: neutralize T text := by
  rw [neutralize, sub, delimited.scan_between h, List.flatMap_cons]
  rfl

theorem escape_plain : '<' ∉ escape w ∧ '>' ∉ escape w := by
  have hchar : ∀ c, '<' ∉ escapeChar c ∧ '>' ∉ escapeChar c := by
    intro c
    unfold escapeChar
    split
    · decide
    · split
      · decide
      · next hlt hgt =>
          simp only [List.mem_singleton]
          exact ⟨fun h => hlt h.symm, fun h => hgt h.symm⟩
  constructor
  · intro hmem
    obtain ⟨c, -, hc⟩ := List.mem_flatMap.mp hmem
    exact (hchar c).1 hc
  · intro hmem
    obtain ⟨c, -, hc⟩ := List.mem_flatMap.mp hmem
    exact (hchar c).2 hc

theorem escape_tag (hw : IsTag T w) : ∃ tail, escape w = '&' :: tail := by
  obtain ⟨before, slash, after, word, attrs, rfl, -⟩ := hw
  exact ⟨_, rfl⟩

theorem neutralize_copies (hx : '&' ∉ x) (h : neutralize T text = x ++ y) :
    ∃ tail, text = x ++ tail ∧ y = neutralize T tail := by
  induction text using (delimited (T := T)).induct generalizing x with
  | nil =>
      have hnil : x ++ y = [] := h.symm
      obtain ⟨rfl, rfl⟩ := List.append_eq_nil_iff.mp hnil
      exact ⟨[], rfl, rfl⟩
  | found w rest hw _ =>
      cases x with
      | nil => exact ⟨_, rfl, h.symm⟩
      | cons c x =>
          obtain ⟨tail, htail⟩ := escape_tag hw
          rw [neutralize_found hw, htail] at h
          obtain ⟨rfl, -⟩ := List.cons.inj h
          simp at hx
  | between d text hnone ih =>
      cases x with
      | nil => exact ⟨_, rfl, h.symm⟩
      | cons c x =>
          rw [neutralize_between hnone] at h
          obtain ⟨rfl, hrest⟩ := List.cons.inj h
          obtain ⟨tail, rfl, hy⟩ := ih (fun hmem => hx (List.mem_cons_of_mem _ hmem)) hrest
          exact ⟨tail, rfl, hy⟩

theorem neutralize_head :
    (neutralize T text).head?.any T.isWord = text.head?.any T.isWord := by
  induction text using (delimited (T := T)).induct with
  | nil => rfl
  | found w rest hw _ =>
      obtain ⟨tail, htail⟩ := escape_tag hw
      rw [neutralize_found hw, htail]
      obtain ⟨before, slash, after, word, attrs, rfl, -⟩ := hw
      have hamp : T.isWord '&' = false := (T.word_ascii _ (by decide)).trans (by decide)
      have hlt : T.isWord '<' = false := (T.word_ascii _ (by decide)).trans (by decide)
      simp [hamp, hlt]
  | between c text hnone _ =>
      rw [neutralize_between hnone]
      rfl

theorem mem_of_neutralize (h : '>' ∈ neutralize T text) : '>' ∈ text := by
  induction text using (delimited (T := T)).induct with
  | nil => exact h
  | found w rest hw ih =>
      rw [neutralize_found hw] at h
      rcases List.mem_append.mp h with h | h
      · exact absurd h escape_plain.2
      · exact List.mem_append_right _ (ih h)
  | between c text hnone ih =>
      rw [neutralize_between hnone] at h
      rcases List.mem_cons.mp h with rfl | h
      · exact List.mem_cons_self
      · exact List.mem_cons_of_mem _ (ih h)

theorem tag_of_head {before slash after word : List Char}
    (hbefore : ∀ c ∈ before, T.isSpace c = true) (hslash : slash = [] ∨ slash = ['/'])
    (hafter : ∀ c ∈ after, T.isSpace c = true) (hname : IsName T word)
    (hat : AtBoundary T.isWord word.getLast? (neutralize T text ++ ['>']).head?)
    (hstop : '>' ∈ text) :
    ∃ w, IsTag T w ∧ w <+: '<' :: ((before ++ (slash ++ (after ++ word))) ++ text) := by
  have hgt : T.isWord '>' = false := (T.word_ascii _ (by decide)).trans (by decide)
  obtain ⟨attrs, tail, rfl, hfirst⟩ := List.eq_append_cons_of_mem hstop
  refine ⟨'<' :: (before ++ (slash ++ (after ++ (word ++ (attrs ++ ['>']))))), ?_, tail, by simp⟩
  refine ⟨before, slash, after, word, attrs, rfl, hbefore, hslash, hafter, hname, ?_, ?_⟩
  · rw [AtBoundary, head_any hgt] at hat ⊢
    rwa [neutralize_head, head_any hgt] at hat
  · intro c hc
    rw [bne_iff_ne]
    rintro rfl
    exact hfirst hc

theorem tag_of_neutralized (hw : IsTag T w) (h : w <+: '<' :: neutralize T text) :
    ∃ w', IsTag T w' ∧ w' <+: '<' :: text := by
  obtain ⟨before, slash, after, word, attrs, rfl, hbefore, hslash, hafter, hname, hat, -⟩ := hw
  have hgt : T.isWord '>' = false := (T.word_ascii _ (by decide)).trans (by decide)
  have hamp := plain_of_ascii (T := T) (c := '&') (by decide) (by decide) (by decide)
  have hhead := head_plain hamp (by decide) hbefore hslash hafter hname
  obtain ⟨tail, htail⟩ := h
  have hsplit : neutralize T text =
      (before ++ (slash ++ (after ++ word))) ++ (attrs ++ '>' :: tail) := by
    simpa using (List.cons.inj htail).2.symm
  obtain ⟨text', rfl, hattrs⟩ := neutralize_copies hhead hsplit
  have hstop : '>' ∈ text' := mem_of_neutralize (T := T) (by rw [← hattrs]; simp)
  apply tag_of_head hbefore hslash hafter hname _ hstop
  rw [← hattrs, AtBoundary, head_any hgt, head_any hgt]
  rwa [AtBoundary, head_any hgt] at hat

theorem neutralize_suffix (h : '<' :: y <:+ neutralize T text) :
    ∃ tail, y = neutralize T tail ∧ '<' :: tail <:+ text ∧ ∀ w, IsTag T w → ¬ w <+: '<' :: tail := by
  induction text using (delimited (T := T)).induct with
  | nil => cases List.suffix_nil.mp h
  | found w rest hw ih =>
      have hlift : ∀ {tail}, '<' :: tail <:+ rest → '<' :: tail <:+ w ++ rest :=
        fun htail => htail.trans (List.suffix_append w rest)
      rw [neutralize_found hw] at h
      rcases List.suffix_or_suffix_of_suffix h (List.suffix_append _ _) with hs | ⟨u, hu⟩
      · obtain ⟨tail, hy, htail, hnone⟩ := ih hs
        exact ⟨tail, hy, hlift htail, hnone⟩
      · cases u with
        | nil =>
            obtain ⟨tail, hy, htail, hnone⟩ := ih (by rw [← hu]; exact List.suffix_refl _)
            exact ⟨tail, hy, hlift htail, hnone⟩
        | cons c u =>
            obtain ⟨z, hz⟩ := h
            rw [← hu, ← List.append_assoc] at hz
            have hmem := List.append_cancel_right hz
            obtain ⟨rfl, -⟩ := List.cons.inj hu
            exact absurd (hmem ▸ by simp : '<' ∈ escape w) escape_plain.1
  | between c text hnone ih =>
      rw [neutralize_between hnone] at h
      rcases List.suffix_cons_iff.mp h with heq | hs
      · obtain ⟨rfl, rfl⟩ := List.cons.inj heq
        exact ⟨text, rfl, List.suffix_refl _, hnone⟩
      · obtain ⟨tail, hy, htail, hnone⟩ := ih hs
        exact ⟨tail, hy, htail.trans (List.suffix_cons c text), hnone⟩

theorem neutralize_no_tag (hw : IsTag T w) : ¬ w <:+: neutralize T text := by
  rintro ⟨u, v, huv⟩
  obtain ⟨rest, rfl⟩ : ∃ rest, w = '<' :: rest := by
    obtain ⟨before, slash, after, word, attrs, rfl, -⟩ := hw
    exact ⟨_, rfl⟩
  have hsuffix : '<' :: (rest ++ v) <:+ neutralize T text := ⟨u, by simpa using huv⟩
  obtain ⟨tail, htail, -, hnone⟩ := neutralize_suffix hsuffix
  have hstart : '<' :: rest <+: '<' :: neutralize T tail := ⟨v, by rw [← htail]; simp⟩
  obtain ⟨w', hw', hpre⟩ := tag_of_neutralized hw hstart
  exact hnone w' hw' hpre

theorem scan_neutralize : scan T.isWord (ANY_SENTINEL T) (neutralize T text) =
    (neutralize T text).map .between :=
  delimited.scan_plain fun _ hw => neutralize_no_tag hw

end Neutralize

end PromptFence

end BTagent
