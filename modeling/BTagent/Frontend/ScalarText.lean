import Mathlib.Algebra.Order.BigOperators.Group.List
import BTagent.Frontend.PlaybookGraph

namespace BTagent

namespace PlaybookGraph

def readValue (value : Line) : Line := unquote (trim value)

def readText (v : String) : String := String.ofList (readValue (yamlEscape v))

-- A text without a character that is written another way than it is read.
def Verbatim (v : String) : Prop :=
  if special v.toList then '\x22' ∉ v.toList ∧ '\\' ∉ v.toList ∧ '\n' ∉ v.toList
  else trim v.toList = v.toList

instance : DecidablePred Verbatim := fun _ => inferInstanceAs (Decidable (ite _ _ _))

section Escape
variable {v : Line}

theorem mem_escaped {c : Char} (h : c ∈ v) : c ∈ v.flatMap escapeChar := by
  apply List.mem_flatMap.mpr
  refine ⟨c, h, ?_⟩
  unfold escapeChar
  split
  · simp_all
  split
  · simp_all
  · simp

theorem mem_of_mem_escaped {c : Char} (hc : c ≠ '\\') (h : c ∈ v.flatMap escapeChar) : c ∈ v := by
  obtain ⟨d, hd, hmem⟩ := List.mem_flatMap.mp h
  have hcd : c = d := by
    unfold escapeChar at hmem
    split at hmem
    · simp_all
    split at hmem
    · simp_all
    · simpa using hmem
  rwa [hcd]

theorem length_le_escaped : v.length ≤ (v.flatMap escapeChar).length := by
  induction v with
  | nil => rfl
  | cons c cs ih =>
      have hone : 1 ≤ (escapeChar c).length := by
        unfold escapeChar
        split_ifs <;> simp
      rw [List.flatMap_cons, List.length_append, List.length_cons]
      omega

theorem escaped_of_length (h : (v.flatMap escapeChar).length = v.length) :
    '\x22' ∉ v ∧ '\\' ∉ v := by
  induction v with
  | nil => simp
  | cons c cs ih =>
      have hrest := length_le_escaped (v := cs)
      rw [List.flatMap_cons, List.length_append, List.length_cons] at h
      by_cases hslash : c = '\\'
      · rw [escapeChar, if_pos hslash, List.length_cons, List.length_singleton] at h
        omega
      by_cases hquote : c = '\x22'
      · rw [escapeChar, if_neg hslash, if_pos hquote, List.length_cons,
          List.length_singleton] at h
        omega
      rw [escapeChar, if_neg hslash, if_neg hquote, List.length_singleton] at h
      obtain ⟨hq, hs⟩ := ih (by omega)
      simp only [List.mem_cons, not_or]
      exact ⟨⟨fun hc => hquote hc.symm, hq⟩, fun hc => hslash hc.symm, hs⟩

theorem escaped_eq (hquote : '\x22' ∉ v) (hslash : '\\' ∉ v) : v.flatMap escapeChar = v := by
  induction v with
  | nil => rfl
  | cons c cs ih =>
      simp only [List.mem_cons, not_or] at hquote hslash
      rw [List.flatMap_cons, ih hquote.2 hslash.2, escapeChar, if_neg (Ne.symm hslash.1),
        if_neg (Ne.symm hquote.1), List.singleton_append]

theorem head_escaped (h : v.head? = some ' ') : (v.flatMap escapeChar).head? = some ' ' := by
  cases v with
  | nil => simp at h
  | cons c cs =>
      have hc : c = ' ' := by simpa using h
      subst hc
      rfl

theorem last_escaped (h : v.getLast? = some ' ') :
    (v.flatMap escapeChar).getLast? = some ' ' := by
  obtain ⟨cs, rfl⟩ := List.getLast?_eq_some_iff.mp h
  rw [List.flatMap_append, List.flatMap_singleton]
  have hspace : escapeChar ' ' = [' '] := by decide
  rw [hspace, List.getLast?_concat]

theorem special_escaped (h : special v = true) : special (v.flatMap escapeChar) = true := by
  simp only [special, decide_eq_true_eq] at h ⊢
  exact h.imp mem_escaped (Or.imp mem_escaped (Or.imp mem_escaped (Or.imp mem_escaped
    (Or.imp mem_escaped (Or.imp head_escaped last_escaped)))))

end Escape

section Quotes
variable {l : Line}

theorem unquote_quoted (l : Line) : unquote ('\x22' :: (l ++ ['\x22'])) = l := by
  have hquote : isQuote '\x22' = true := by decide
  simp [unquote, hquote]

theorem unquote_bare (h : ∀ c ∈ l, isQuote c = false) : unquote l = l := by
  cases l with
  | nil => rfl
  | cons c cs =>
      simp only [unquote, h c List.mem_cons_self, Bool.false_eq_true, if_false]
      cases hlast : (c :: cs).getLast? with
      | none => rfl
      | some d =>
          simp [h d (List.mem_of_getLast? hlast)]

theorem mem_of_mem_unopened {c : Char} {ds : Line}
    (h : c ∈ match ds with
      | d :: es => if isQuote d then es else d :: es
      | [] => []) : c ∈ ds := by
  cases ds with
  | nil => exact h
  | cons d es =>
      dsimp only at h
      split at h
      · exact List.mem_cons_of_mem d h
      · exact h

theorem mem_of_mem_unquote {c : Char} (h : c ∈ unquote l) : c ∈ l := by
  unfold unquote at h
  dsimp only at h
  split at h
  · split at h
    · exact mem_of_mem_unopened (List.dropLast_subset _ h)
    · exact mem_of_mem_unopened h
  · exact mem_of_mem_unopened h

end Quotes

section Trim
variable {l : Line}

theorem trim_sublist (l : Line) : (trim l).Sublist l :=
  (List.rdropWhile_prefix isSpace _).sublist.trans (List.dropWhile_suffix isSpace).sublist

theorem mem_of_mem_trim {c : Char} (h : c ∈ trim l) : c ∈ l := (trim_sublist l).subset h

theorem trim_solid (h : ∀ c ∈ l, isSpace c = false) : trim l = l := by
  have hdrop : l.dropWhile isSpace = l := by
    cases l with
    | nil => rfl
    | cons c cs => rw [List.dropWhile_cons_of_neg (by simp [h c List.mem_cons_self])]
  rw [trim, Lines.trim, hdrop, List.rdropWhile_eq_self_iff]
  intro hne
  simp [h _ (List.getLast_mem hne)]

theorem isSpace_blank : isSpace ' ' = true := by decide

theorem trim_plain (h : special l = false) : special (trim l) = false := by
  simp only [special, decide_eq_false_iff_not, not_or] at h ⊢
  obtain ⟨hcolon, hhash, hsingle, hdouble, hline, -, -⟩ := h
  refine ⟨mt mem_of_mem_trim hcolon, mt mem_of_mem_trim hhash, mt mem_of_mem_trim hsingle,
    mt mem_of_mem_trim hdouble, mt mem_of_mem_trim hline, fun hhead => ?_, fun hlast => ?_⟩
  · simpa [isSpace_blank] using Lines.head_trim hhead
  · simpa [isSpace_blank] using Lines.last_trim hlast

end Trim

theorem readValue_bare {l : Line} (h : special l = false) : readValue l = trim l := by
  have hbare : ∀ c ∈ trim l, isQuote c = false := by
    intro c hc
    have hmem := mem_of_mem_trim hc
    simp only [special, decide_eq_false_iff_not, not_or] at h
    simp only [isQuote, decide_eq_false_iff_not, not_or]
    exact ⟨fun hq => h.2.2.2.1 (hq ▸ hmem), fun hq => h.2.2.1 (hq ▸ hmem)⟩
  exact unquote_bare hbare

theorem readValue_quoted (l : Line) : readValue ('\x22' :: (l ++ ['\x22'])) = l := by
  have hquote : isSpace '\x22' = false := by decide
  have htrim : trim ('\x22' :: (l ++ ['\x22'])) = '\x22' :: (l ++ ['\x22']) := by
    have hleft : ∀ c ∈ ([] : Line), isSpace c = true := by simp
    have happend := Lines.trim_append_cons hleft hquote (l ++ ['\x22'])
    rwa [List.rdropWhile_concat_neg isSpace l '\x22' (by simp [hquote])] at happend
  rw [readValue, htrim, unquote_quoted]

theorem readText_special {l : Line} (h : special l = true) (v : String) (hv : v.toList = l) :
    (readText v).toList = l.flatMap escapeChar := by
  rw [readText, String.toList_ofList, yamlEscape, hv, if_pos h, readValue_quoted]

theorem readText_bare {l : Line} (h : special l = false) (v : String) (hv : v.toList = l) :
    (readText v).toList = trim l := by
  rw [readText, String.toList_ofList, yamlEscape, hv, if_neg (by simp [h]), readValue_bare h]

theorem readText_verbatim {v : String} (h : Verbatim v) : readText v = v := by
  rw [← String.toList_inj]
  cases hv : special v.toList with
  | true =>
      rw [Verbatim, if_pos hv] at h
      rw [readText_special hv v rfl, escaped_eq h.1 h.2.1]
  | false =>
      rw [Verbatim, if_neg (by simp [hv])] at h
      rw [readText_bare hv v rfl, h]

theorem verbatim_of_readText {v : String} (hline : '\n' ∉ v.toList) (h : readText v = v) :
    Verbatim v := by
  rw [← String.toList_inj] at h
  cases hv : special v.toList with
  | true =>
      rw [readText_special hv v rfl] at h
      obtain ⟨hquote, hslash⟩ := escaped_of_length (congrArg List.length h)
      rw [Verbatim, if_pos hv]
      exact ⟨hquote, hslash, hline⟩
  | false =>
      rw [readText_bare hv v rfl] at h
      rwa [Verbatim, if_neg (by simp [hv])]

theorem Verbatim.line {v : String} (h : Verbatim v) : '\n' ∉ v.toList := by
  cases hv : special v.toList with
  | true =>
      rw [Verbatim, if_pos hv] at h
      exact h.2.2
  | false =>
      simp only [special, decide_eq_false_iff_not, not_or] at hv
      exact hv.2.2.2.2.1

-- An escaped text only grows and a bare one only shrinks, and no text passes from one kind to
-- the other.
def weight (v : String) : ℤ :=
  if special v.toList then v.toList.length else -v.toList.length

theorem weight_le (v : String) : weight v ≤ weight (readText v) := by
  cases hv : special v.toList with
  | true =>
      have hread := readText_special hv v rfl
      have hgrow := length_le_escaped (v := v.toList)
      rw [weight, weight, hread, if_pos hv, if_pos (special_escaped hv)]
      exact_mod_cast hgrow
  | false =>
      have hread := readText_bare hv v rfl
      have hshrink := (trim_sublist v.toList).length_le
      rw [weight, weight, hread, if_neg (by simp [hv]), if_neg (by simp [trim_plain hv])]
      omega

theorem readText_of_weight {v : String} (h : weight (readText v) = weight v) :
    readText v = v := by
  rw [← String.toList_inj]
  cases hv : special v.toList with
  | true =>
      have hread := readText_special hv v rfl
      rw [weight, weight, hread, if_pos hv, if_pos (special_escaped hv)] at h
      obtain ⟨hquote, hslash⟩ := escaped_of_length (by exact_mod_cast h)
      rw [hread, escaped_eq hquote hslash]
  | false =>
      have hread := readText_bare hv v rfl
      rw [weight, weight, hread, if_neg (by simp [trim_plain hv]), if_neg (by simp [hv])] at h
      rw [hread]
      exact (trim_sublist v.toList).eq_of_length (by omega)

theorem readText_of_perm {ids : List String} (h : List.Perm (ids.map readText) ids) :
    ∀ v ∈ ids, readText v = v := by
  have hsum := (h.map weight).sum_eq
  simp only [List.map_map, Function.comp_def] at hsum
  intro v hv
  by_contra hne
  have hgrow : weight v < weight (readText v) := by
    refine lt_of_le_of_ne (weight_le v) fun heq => hne (readText_of_weight ?_)
    exact heq.symm
  have hlt := List.sum_lt_sum weight (fun v => weight (readText v)) (fun v _ => weight_le v)
    ⟨v, hv, hgrow⟩
  exact absurd hsum hlt.ne'

end PlaybookGraph

end BTagent
