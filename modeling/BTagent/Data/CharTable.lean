import Mathlib.Data.List.DropRight
import Mathlib.Data.Nat.Notation

namespace BTagent

-- A statement about the characters of a text is decided along the text, never over all of `Char`.
instance decidableAllChars (p : Char → Prop) [DecidablePred p] (l : List Char) :
    Decidable (∀ c ∈ l, p c) :=
  List.decidableBAll p l

instance decidableAnyChar (p : Char → Prop) [DecidablePred p] (l : List Char) :
    Decidable (∃ c ∈ l, p c) :=
  List.decidableBEx p l

instance decidableAllOptionChar (p : Char → Prop) [DecidablePred p] (o : Option Char) :
    Decidable (∀ c ∈ o, p c) :=
  Option.decidableForallMem o

instance decidableAnyOptionChar (p : Char → Prop) [DecidablePred p] (o : Option Char) :
    Decidable (∃ c ∈ o, p c) :=
  Option.decidableExistsMem o

-- What Python's Unicode tables say of a character, `str.lower`, and which characters a letter of
-- a pattern stands for where case is ignored.
structure CharTable where
  isDigit : Char → Bool
  isWord : Char → Bool
  isSpace : Char → Bool
  sameLetter : Char → Char → Bool
  lower : String → String
  digit_ascii : ∀ c, c.toNat < 128 → isDigit c = c.isDigit
  word_ascii : ∀ c, c.toNat < 128 → isWord c = (c.isAlphanum || c == '_')
  space_ascii : ∀ c, c.toNat < 128 → isSpace c =
    (c == ' ' || (9 ≤ c.toNat && c.toNat ≤ 13) || (28 ≤ c.toNat && c.toNat ≤ 31))
  letter_ascii : ∀ c d, c.toNat < 128 → d.toNat < 128 → sameLetter c d = (c.toLower == d.toLower)
  word_of_digit : ∀ c, isDigit c = true → isWord c = true
  lower_ascii : ∀ s, (∀ c ∈ s.toList, c.toNat < 128) → lower s = s.map Char.toLower

namespace CharTable

theorem isWord_newline (T : CharTable) : T.isWord '\n' = false := by
  rw [T.word_ascii _ (by decide)]
  decide

theorem isDigit_of_ascii (T : CharTable) {c : Char} (h : c.isDigit = true) : T.isDigit c = true := by
  have hrange : 48 ≤ c.toNat ∧ c.toNat ≤ 57 := Char.isDigit_iff_toNat.mp h
  rw [T.digit_ascii c (by omega)]
  exact h

theorem isSpace_of_graphic (T : CharTable) {c : Char} (h : 33 ≤ c.toNat ∧ c.toNat < 127) :
    T.isSpace c = false := by
  rw [T.space_ascii c (by omega)]
  have hne : c ≠ ' ' := by
    rintro rfl
    exact absurd h.1 (by decide)
  simp only [beq_eq_false_iff_ne.mpr hne, Bool.false_or, Bool.or_eq_false_iff, Bool.and_eq_false_iff,
    decide_eq_false_iff_not]
  omega

def strip (T : CharTable) (s : String) : String :=
  String.ofList ((s.toList.dropWhile T.isSpace).rdropWhile T.isSpace)

theorem strip_strip (T : CharTable) (s : String) : T.strip (T.strip s) = T.strip s := by
  have hhead : ((s.toList.dropWhile T.isSpace).rdropWhile T.isSpace).dropWhile T.isSpace =
      (s.toList.dropWhile T.isSpace).rdropWhile T.isSpace := by
    rw [List.dropWhile_eq_self_iff]
    intro hpos
    have hpre := List.rdropWhile_prefix T.isSpace (l := s.toList.dropWhile T.isSpace)
    rw [hpre.getElem hpos]
    exact List.dropWhile_get_zero_not _ _ _
  simp only [strip, String.toList_ofList, hhead, List.rdropWhile_idempotent]

def ascii : CharTable where
  isDigit := Char.isDigit
  isWord c := c.isAlphanum || c == '_'
  isSpace c := c == ' ' || (9 ≤ c.toNat && c.toNat ≤ 13) || (28 ≤ c.toNat && c.toNat ≤ 31)
  sameLetter c d := c.toLower == d.toLower
  lower s := s.map Char.toLower
  digit_ascii _ _ := rfl
  word_ascii _ _ := rfl
  space_ascii _ _ := rfl
  letter_ascii _ _ _ _ := rfl
  word_of_digit c h := by simp [Char.isAlphanum, h]
  lower_ascii _ _ := rfl

end CharTable

end BTagent
