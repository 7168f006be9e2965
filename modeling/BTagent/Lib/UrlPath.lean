import Mathlib.Data.List.Basic
import Mathlib.Tactic.IntervalCases

namespace UrlPath

section Percent

def isUnreserved (c : Char) : Bool := c.isAlphanum || c ∈ ['_', '.', '-', '~']

def hexDigit (n : ℕ) : Char := if n < 10 then Char.ofNat (48 + n) else Char.ofNat (55 + n)

def hexValue (c : Char) : Option ℕ :=
  if '0' ≤ c ∧ c ≤ '9' then some (c.toNat - 48)
  else if 'A' ≤ c ∧ c ≤ 'F' then some (c.toNat - 55)
  else if 'a' ≤ c ∧ c ≤ 'f' then some (c.toNat - 87)
  else none

def utf8 (text : List Char) : List UInt8 := text.flatMap String.utf8EncodeChar

def escapeByte (b : UInt8) : List Char := ['%', hexDigit (b.toNat / 16), hexDigit (b.toNat % 16)]

def quoteChar (c : Char) : List Char :=
  if isUnreserved c then [c] else (String.utf8EncodeChar c).flatMap escapeByte

def quote (text : List Char) : List Char := text.flatMap quoteChar

def hexByte (h l : Char) : Option UInt8 := do
  let a ← hexValue h
  let b ← hexValue l
  return UInt8.ofNat (16 * a + b)

-- A percent sign that two hexadecimal digits do not follow stands for itself.
def percentDecode : List Char → List UInt8
  | [] => []
  | '%' :: h :: l :: rest =>
      match hexByte h l with
      | some b => b :: percentDecode rest
      | none => String.utf8EncodeChar '%' ++ percentDecode (h :: l :: rest)
  | c :: rest => String.utf8EncodeChar c ++ percentDecode rest

variable {c : Char} {b : UInt8} {n : ℕ} {text rest : List Char}

theorem hexValue_hexDigit (h : n < 16) : hexValue (hexDigit n) = some n := by
  interval_cases n <;> decide

theorem percentDecode_escapeByte (b : UInt8) (rest : List Char) :
    percentDecode (escapeByte b ++ rest) = b :: percentDecode rest := by
  have hlt : b.toNat < 256 := b.toNat_lt
  have hbyte : hexByte (hexDigit (b.toNat / 16)) (hexDigit (b.toNat % 16)) = some b := by
    rw [hexByte, hexValue_hexDigit (by omega), hexValue_hexDigit (by omega)]
    have hsum : 16 * (b.toNat / 16) + b.toNat % 16 = b.toNat := Nat.div_add_mod _ _
    rw [Option.bind_eq_bind, Option.bind_some, Option.bind_some, hsum, UInt8.ofNat_toNat]
    rfl
  simp [escapeByte, percentDecode, hbyte]

theorem percentDecode_escapeBytes (bs : List UInt8) (rest : List Char) :
    percentDecode (bs.flatMap escapeByte ++ rest) = bs ++ percentDecode rest := by
  induction bs with
  | nil => rfl
  | cons b bs ih =>
      rw [List.flatMap_cons, List.append_assoc, percentDecode_escapeByte, ih, List.cons_append]

theorem percentDecode_cons (h : c ≠ '%') (rest : List Char) :
    percentDecode (c :: rest) = String.utf8EncodeChar c ++ percentDecode rest := by
  rw [percentDecode]
  rintro _ _ _ rfl
  exact absurd rfl h

theorem unreserved_ne_percent (h : isUnreserved c = true) : c ≠ '%' := by
  rintro rfl
  exact absurd h (by decide)

theorem percentDecode_quoteChar (c : Char) (rest : List Char) :
    percentDecode (quoteChar c ++ rest) = String.utf8EncodeChar c ++ percentDecode rest := by
  by_cases h : isUnreserved c = true
  · rw [quoteChar, if_pos h]
    exact percentDecode_cons (unreserved_ne_percent h) rest
  · rw [quoteChar, if_neg h, percentDecode_escapeBytes]

theorem percentDecode_quote (text : List Char) : percentDecode (quote text) = utf8 text := by
  induction text with
  | nil => rfl
  | cons c text ih =>
      rw [quote, List.flatMap_cons, percentDecode_quoteChar, utf8, List.flatMap_cons]
      exact congrArg _ ih

theorem utf8_eq_nil (h : utf8 text = []) : text = [] := by
  cases text with
  | nil => rfl
  | cons c text =>
      rw [utf8, List.flatMap_cons] at h
      have hchar := congrArg List.length (List.append_eq_nil_iff.mp h).1
      rw [String.length_utf8EncodeChar] at hchar
      exact absurd hchar (Nat.ne_of_gt c.utf8Size_pos)

theorem quote_unreserved (h : ∀ c ∈ text, isUnreserved c = true) : quote text = text := by
  induction text with
  | nil => rfl
  | cons c text ih =>
      rw [quote, List.flatMap_cons, quoteChar, if_pos (h c List.mem_cons_self)]
      exact congrArg _ (ih fun x hx => h x (List.mem_cons_of_mem c hx))

theorem quote_without_percent (h : '%' ∉ quote text) : quote text = text := by
  apply quote_unreserved
  intro c hc
  by_contra hreserved
  apply h
  refine List.mem_flatMap.mpr ⟨c, hc, ?_⟩
  rw [quoteChar, if_neg hreserved]
  cases hbytes : String.utf8EncodeChar c with
  | nil =>
      have hlength := String.length_utf8EncodeChar c
      rw [hbytes] at hlength
      exact absurd hlength.symm (Nat.ne_of_gt c.utf8Size_pos)
  | cons b bs => exact List.mem_flatMap.mpr ⟨b, List.mem_cons_self, List.mem_cons_self⟩

theorem hexDigit_alphanum (h : n < 16) : (hexDigit n).isAlphanum = true := by
  interval_cases n <;> decide

theorem mem_quote (h : c ∈ quote text) : isUnreserved c = true ∨ c = '%' := by
  obtain ⟨x, -, hx⟩ := List.mem_flatMap.mp h
  rw [quoteChar] at hx
  split at hx
  · next hunreserved =>
      rw [List.mem_singleton.mp hx]
      exact Or.inl hunreserved
  · obtain ⟨b, -, hb⟩ := List.mem_flatMap.mp hx
    have hlt : b.toNat < 256 := b.toNat_lt
    have hdigit : ∀ n < 16, isUnreserved (hexDigit n) = true := by
      intro n hn
      rw [isUnreserved, hexDigit_alphanum hn, Bool.true_or]
    simp only [escapeByte, List.mem_cons, List.not_mem_nil, or_false] at hb
    rcases hb with rfl | rfl | rfl
    · exact Or.inr rfl
    · exact Or.inl (hdigit _ (by omega))
    · exact Or.inl (hdigit _ (by omega))

end Percent

section DotSegments

abbrev Segment := List Char

def IsDot (s : Segment) : Prop := s = ['.'] ∨ s = ['.', '.']

instance (s : Segment) : Decidable (IsDot s) := inferInstanceAs (Decidable (_ ∨ _))

-- The segments of an absolute path, between its slashes.
def segments (path : List Char) : List Segment := path.tail.splitOn '/'

-- The output, last segment first; a dot segment at the end leaves the slash before it.
def removeFrom : List Segment → List Segment → List Segment
  | out, [] => out.reverse
  | out, [s] =>
      if s = ['.'] then ([] :: out).reverse
      else if s = ['.', '.'] then ([] :: out.tail).reverse
      else (s :: out).reverse
  | out, s :: t :: rest =>
      if s = ['.'] then removeFrom out (t :: rest)
      else if s = ['.', '.'] then removeFrom out.tail (t :: rest)
      else removeFrom (s :: out) (t :: rest)

def removeDotSegments (ss : List Segment) : List Segment := removeFrom [] ss

variable {out ss : List Segment}

theorem removeFrom_kept (h : ∀ s ∈ ss, ¬ IsDot s) : removeFrom out ss = out.reverse ++ ss := by
  induction out, ss using removeFrom.induct with
  | case1 out => rw [removeFrom, List.append_nil]
  | case2 out => exact absurd (Or.inl rfl) (h _ List.mem_cons_self)
  | case3 out _ => exact absurd (Or.inr rfl) (h _ List.mem_cons_self)
  | case4 out s hone htwo => rw [removeFrom, if_neg hone, if_neg htwo, List.reverse_cons]
  | case5 out t rest ih => exact absurd (Or.inl rfl) (h _ List.mem_cons_self)
  | case6 out t rest _ ih => exact absurd (Or.inr rfl) (h _ List.mem_cons_self)
  | case7 out s t rest hone htwo ih =>
      rw [removeFrom, if_neg hone, if_neg htwo, ih fun x hx => h x (List.mem_cons_of_mem s hx),
        List.reverse_cons, List.append_assoc, List.singleton_append]

theorem length_removeFrom_le (out ss : List Segment) :
    (removeFrom out ss).length ≤ out.length + ss.length := by
  induction out, ss using removeFrom.induct with
  | case1 out => simp [removeFrom]
  | case2 out => simp [removeFrom]
  | case3 out _ => simp [removeFrom]
  | case4 out s hone htwo => simp [removeFrom, hone, htwo]
  | case5 out t rest ih =>
      rw [removeFrom, if_pos rfl]
      simp only [List.length_cons] at ih ⊢
      omega
  | case6 out t rest hne ih =>
      rw [removeFrom, if_neg hne, if_pos rfl]
      simp only [List.length_cons, List.length_tail] at ih ⊢
      omega
  | case7 out s t rest hone htwo ih =>
      rw [removeFrom, if_neg hone, if_neg htwo]
      simp only [List.length_cons] at ih ⊢
      omega

-- As many segments are left only where none is a dot segment or the last one is emptied.
theorem kept_or_emptied (h : (removeFrom out ss).length = out.length + ss.length) :
    (∀ s ∈ ss, ¬ IsDot s) ∨
      ∃ init s ss', ss = init ++ [s] ∧ IsDot s ∧ removeFrom out ss = ss' ++ [[]] := by
  induction out, ss using removeFrom.induct with
  | case1 out => exact Or.inl fun s hs => absurd hs List.not_mem_nil
  | case2 out =>
      refine Or.inr ⟨[], _, out.reverse, rfl, Or.inl rfl, ?_⟩
      rw [removeFrom, if_pos rfl, List.reverse_cons]
  | case3 out hne =>
      refine Or.inr ⟨[], _, out.tail.reverse, rfl, Or.inr rfl, ?_⟩
      rw [removeFrom, if_neg hne, if_pos rfl, List.reverse_cons]
  | case4 out s hone htwo =>
      refine Or.inl fun x hx => ?_
      rw [List.mem_singleton.mp hx]
      exact not_or.mpr ⟨hone, htwo⟩
  | case5 out t rest ih =>
      have hle := length_removeFrom_le out (t :: rest)
      rw [removeFrom, if_pos rfl] at h
      simp only [List.length_cons] at h hle
      omega
  | case6 out t rest hne ih =>
      have hle := length_removeFrom_le out.tail (t :: rest)
      rw [removeFrom, if_neg hne, if_pos rfl] at h
      simp only [List.length_cons, List.length_tail] at h hle
      omega
  | case7 out s t rest hone htwo ih =>
      rw [removeFrom, if_neg hone, if_neg htwo] at h ⊢
      rcases ih (by simp only [List.length_cons] at h ⊢; omega) with hkept | hemptied
      · refine Or.inl fun x hx => ?_
        rcases List.mem_cons.mp hx with rfl | hx
        · exact not_or.mpr ⟨hone, htwo⟩
        · exact hkept x hx
      · obtain ⟨init, d, ss', hlast, hdot, hremove⟩ := hemptied
        exact Or.inr ⟨s :: init, d, ss', congrArg (List.cons s) hlast, hdot, hremove⟩

end DotSegments

end UrlPath
