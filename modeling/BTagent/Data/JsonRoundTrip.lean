import BTagent.Data.JsJson
import Mathlib.Data.List.Sort

namespace BTagent

namespace JsonText

section Strings
variable {style : JsonStyle} {cs rest : List Char}

theorem digitChar_hex : ∀ d < 16,
    Ipv6.isHex (Nat.digitChar d) = true ∧ Ipv6.hexValue (Nat.digitChar d) = d := by
  decide

theorem hexQuad_escape {n : ℕ} (h : n < 65536) (cs : List Char) :
    hexQuad ((unicodeEscape n).drop 2 ++ cs) = some (n, cs) := by
  have hdigit := fun k => digitChar_hex (k % 16) (Nat.mod_lt _ (by decide))
  have hvalue : ((0 * 16 + n / 4096 % 16) * 16 + n / 256 % 16) * 16 + n / 16 % 16 =
      n / 16 := by omega
  simp only [unicodeEscape, List.drop_succ_cons, List.drop_zero, List.cons_append,
    List.nil_append, hexQuad, List.all_cons, List.all_nil, (hdigit _).1, Ipv6.hexadecimal,
    List.foldl_cons, List.foldl_nil, (hdigit _).2, hvalue, Bool.and_self, if_true]
  congr 2
  omega

theorem not_surrogate (c : Char) : c.toNat < 55296 ∨ 57343 < c.toNat := by
  rcases c.valid with h | ⟨h, -⟩
  · exact Or.inl h
  · exact Or.inr h

theorem unicodeChar_plain {c : Char} (h : c.toNat < 65536) (cs : List Char) :
    unicodeChar ((unicodeEscape c.toNat).drop 2 ++ cs) = some (c, cs) := by
  have hvalid := not_surrogate c
  have hhigh : ¬ (55296 ≤ c.toNat ∧ c.toNat < 56320) := by omega
  have hlow : ¬ (56320 ≤ c.toNat ∧ c.toNat < 57344) := by omega
  rw [unicodeChar, hexQuad_escape h]
  simp only [Option.bind_eq_bind, Option.bind_some, hhigh, hlow, if_false, Char.ofNat_toNat]

theorem unicodeChar_pair {c : Char} {high low : ℕ} (hhigh : 55296 ≤ high ∧ high < 56320)
    (hlow : 56320 ≤ low ∧ low < 57344)
    (hcode : 65536 + (high - 55296) * 1024 + (low - 56320) = c.toNat) (cs : List Char) :
    unicodeChar ((unicodeEscape high).drop 2 ++ (unicodeEscape low ++ cs)) = some (c, cs) := by
  have hpair : lowSurrogate (unicodeEscape low ++ cs) = some (low, cs) := by
    have hquad := hexQuad_escape (by omega : low < 65536) cs
    simp only [unicodeEscape, List.drop_succ_cons, List.drop_zero] at hquad
    simp only [unicodeEscape, List.cons_append, lowSurrogate] at hquad ⊢
    rw [hquad, Option.filter_some_pos (by simpa using hlow)]
  rw [unicodeChar, hexQuad_escape (by omega)]
  simp only [Option.bind_eq_bind, Option.bind_some, hhigh, and_self, if_true, hpair, hcode,
    Char.ofNat_toNat]

theorem toNat_lt (c : Char) : c.toNat < 1114112 := by
  rcases c.valid with h | ⟨-, h⟩
  · exact lt_trans h (by decide)
  · exact h

theorem stringBody_escaped (style : JsonStyle) (c : Char) (n : ℕ) :
    stringBody (n + 1) (escapeChar style c ++ cs) =
      (stringBody n cs).map fun body => (c :: body.1, body.2) := by
  have hbind : ∀ o : Option (List Char × List Char),
      (o.bind fun body => some (c :: body.1, body.2)) =
        o.map fun body => (c :: body.1, body.2) := by
    intro o
    cases o <;> rfl
  have hplain : c.toNat < 65536 → stringBody (n + 1) (unicodeEscape c.toNat ++ cs) =
      (stringBody n cs).map fun body => (c :: body.1, body.2) := by
    intro h
    have hchar := unicodeChar_plain h cs
    simp only [unicodeEscape, List.drop_succ_cons, List.drop_zero] at hchar
    simp only [unicodeEscape, List.cons_append, stringBody] at hchar ⊢
    rw [hchar]
    exact hbind _
  rw [escapeChar]
  split
  · next h => subst h; simpa [stringBody, simpleEscape] using hbind _
  split
  · next h => subst h; simpa [stringBody, simpleEscape] using hbind _
  split
  · next h => subst h; simpa [stringBody, simpleEscape] using hbind _
  split
  · next h => subst h; simpa [stringBody, simpleEscape] using hbind _
  split
  · next h => subst h; simpa [stringBody, simpleEscape] using hbind _
  split
  · next h => subst h; simpa [stringBody, simpleEscape] using hbind _
  split
  · next h => subst h; simpa [stringBody, simpleEscape] using hbind _
  split
  · next h => exact hplain (by omega)
  split
  · split
    · next h => exact hplain h
    · next h =>
        have hlimit := toNat_lt c
        generalize hhigh : 55296 + (c.toNat - 65536) / 1024 = high
        generalize hlow : 56320 + (c.toNat - 65536) % 1024 = low
        have hcode : 65536 + (high - 55296) * 1024 + (low - 56320) = c.toNat := by omega
        have hchar := unicodeChar_pair (by omega : 55296 ≤ high ∧ high < 56320)
          (by omega : 56320 ≤ low ∧ low < 57344) hcode cs
        rw [List.append_assoc]
        generalize unicodeEscape low ++ cs = cs at hchar ⊢
        simp only [unicodeEscape, List.drop_succ_cons, List.drop_zero] at hchar
        simp only [unicodeEscape, List.cons_append, stringBody] at hchar ⊢
        rw [hchar]
        exact hbind _
  · next hquote hslash _ _ _ _ _ hcontrol _ =>
      rw [List.singleton_append, stringBody]
      · rw [if_neg hcontrol]
        exact hbind _
      all_goals simp_all

theorem stringBody_quoted (style : JsonStyle) (s : List Char) {n : ℕ} (hn : s.length < n) :
    stringBody n (s.flatMap (escapeChar style) ++ '\x22' :: rest) = some (s, rest) := by
  induction s generalizing n with
  | nil =>
      obtain ⟨m, rfl⟩ := Nat.exists_eq_succ_of_ne_zero (by omega : n ≠ 0)
      rfl
  | cons c s ih =>
      obtain ⟨m, rfl⟩ := Nat.exists_eq_succ_of_ne_zero (by omega : n ≠ 0)
      rw [List.flatMap_cons, List.append_assoc, stringBody_escaped,
        ih (by rw [List.length_cons] at hn; omega)]
      rfl

theorem length_le_escaped (style : JsonStyle) (s : List Char) :
    s.length ≤ (s.flatMap (escapeChar style)).length := by
  induction s with
  | nil => rfl
  | cons c s ih =>
      have hone : 1 ≤ (escapeChar style c).length := by
        rw [escapeChar]
        split_ifs <;> simp [unicodeEscape]
      rw [List.flatMap_cons, List.length_append, List.length_cons]
      omega

theorem quote_toList (style : JsonStyle) (s : String) :
    (quote style s).toList = '\x22' :: (s.toList.flatMap (escapeChar style) ++ ['\x22']) := by
  rw [quote, String.toList_ofList]

theorem scanString_quoted (style : JsonStyle) (s : String) (rest : List Char) :
    scanString (s.toList.flatMap (escapeChar style) ++ '\x22' :: rest) = some (s, rest) := by
  have hlen := length_le_escaped style s.toList
  rw [scanString, stringBody_quoted, Option.map_some, String.ofList_toList]
  rw [List.length_append]
  omega

end Strings

section Numbers
variable {P : Python} {n : ℕ} {rest : List Char}

-- What `number` makes of a text.
def NumberText.value (P : Python) (t : NumberText) : Json :=
  if t.frac.isEmpty ∧ t.power.isEmpty then
    .int (if t.sign.isEmpty then (BTagent.decimal t.whole : ℤ) else -(BTagent.decimal t.whole : ℤ))
  else .float (P.floatRepr (String.ofList t.chars))

theorem number_chars (t : NumberText) (hrest : Ends rest) :
    number P (t.chars ++ rest) = some (t.value P, rest) := by
  have hwhole : integerPart (t.whole ++ (t.frac ++ (t.power ++ rest))) =
      some (t.whole, t.frac ++ (t.power ++ rest)) :=
    integerPart_digits t.digits t.unpadded fun c hc => frac_head t c hc hrest
  have hminus : minus (t.sign ++ (t.whole ++ (t.frac ++ (t.power ++ rest)))) =
      (t.sign, t.whole ++ (t.frac ++ (t.power ++ rest))) := by
    rcases t.signed with h | h
    · rw [h, List.nil_append]
      exact minus_digits t.digits.1 t.digits.2
    · rw [h]
      rfl
  have htext : t.chars ++ rest = t.sign ++ (t.whole ++ (t.frac ++ (t.power ++ rest))) := by
    simp [NumberText.chars]
  rw [htext, number, hminus]
  simp only [hwhole, fraction_text t hrest, exponent_text t hrest, Option.bind_eq_bind,
    Option.bind_some, NumberText.value, NumberText.chars]
  split <;> rfl

theorem number_begins (t : NumberText) :
    ∃ d cs, d.isDigit = true ∧ (t.chars = d :: cs ∨ t.chars = '-' :: d :: cs) := by
  obtain ⟨d, ds, hwhole⟩ := List.exists_cons_of_ne_nil t.digits.1
  refine ⟨d, ds ++ t.frac ++ t.power, t.digits.2 d (hwhole ▸ List.mem_cons_self), ?_⟩
  rcases t.signed with h | h
  · left
    rw [NumberText.chars, h, hwhole]
    rfl
  · right
    rw [NumberText.chars, h, hwhole]
    rfl

theorem digit_ne {d : Char} (h : d.isDigit = true) {c : Char} (hc : c.isDigit = false) : c ≠ d := by
  rintro rfl
  exact Bool.false_ne_true (hc.symm.trans h)

theorem scanValue_text (t : NumberText) (hrest : Ends rest) :
    scanValue P (n + 1) (t.chars ++ rest) = some (t.value P, rest) := by
  obtain ⟨d, cs, hd, htext⟩ := number_begins t
  have hne := fun c => @digit_ne d hd c
  have hscalar : scalar P (t.chars ++ rest) = some (t.value P, rest) := by
    have hconstants : constants.find? (fun kv => kv.1.toList.isPrefixOf (t.chars ++ rest)) =
        none := by
      rcases htext with h | h <;>
        simp [constants, h, hne 'n' rfl, hne 't' rfl, hne 'f' rfl, hne 'N' rfl, hne 'I' rfl,
          hne '-' rfl]
    rw [scalar, hconstants]
    exact number_chars t hrest
  rw [scanValue]
  · exact hscalar
  all_goals
    intro ds h
    rcases htext with htext | htext <;> rw [htext, List.cons_append] at h
    · exact hne _ rfl (List.cons.inj h).1.symm
    · exact absurd (List.cons.inj h).1 (by decide)

theorem toDigits_unpadded (n : ℕ) :
    (Nat.toDigits 10 n).head? = some '0' → Nat.toDigits 10 n = ['0'] := by
  induction n using Nat.strong_induction_on with
  | _ n ih =>
      rw [Nat.toDigits_eq_if (by decide)]
      split
      · intro h
        rw [List.head?_cons] at h
        rw [Option.some.inj h]
      · next hn =>
          have hne : Nat.toDigits 10 (n / 10) ≠ [] := Nat.toDigits_ne_nil
          rw [List.head?_append_of_ne_nil _ hne]
          intro h
          have hzero := congrArg (fun cs => Nat.ofDigitChars 10 cs 0) (ih (n / 10) (by omega) h)
          simp only [Nat.ofDigitChars_ten_toDigits] at hzero
          have hten : n / 10 = 0 := hzero
          omega

def intText (negative : Bool) (n : ℕ) : NumberText where
  sign := if negative then ['-'] else []
  whole := Nat.toDigits 10 n
  frac := []
  power := []
  signed := by cases negative <;> simp
  digits := ⟨Nat.toDigits_ne_nil, fun d hd => Nat.isDigit_of_mem_toDigits (by decide) le_rfl hd⟩
  unpadded := toDigits_unpadded n
  fraction := Or.inl rfl
  exponent := Or.inl rfl

theorem decimal_toDigits (n : ℕ) : BTagent.decimal (Nat.toDigits 10 n) = n := by
  have h := Nat.ofDigitChars_ten_toDigits (n := n)
  rw [Nat.ofDigitChars_eq_foldl] at h
  rw [BTagent.decimal]
  refine Eq.trans ?_ h
  congr 1
  funext k c
  rw [Nat.mul_comm]
  rfl

theorem toString_int (n : ℤ) : ∃ t : NumberText, (toString n).toList = t.chars ∧
    t.value P = .int n := by
  cases n with
  | ofNat m =>
      refine ⟨intText false m, ?_, ?_⟩
      · simp [NumberText.chars, intText, toString, Int.repr, Nat.toList_repr]
      · simp [NumberText.value, intText, decimal_toDigits]
  | negSucc m =>
      refine ⟨intText true (m + 1), ?_, ?_⟩
      · simp [NumberText.chars, intText, toString, Int.repr, Nat.toList_repr]
      · simp [NumberText.value, intText, decimal_toDigits, Int.negSucc_eq]

end Numbers

mutual

-- The value with the keys of each object in the order in which they are written.
def ordered (style : JsonStyle) : Json → Json
  | .arr xs => .arr (orderedList style xs)
  | .obj kvs => .obj (orderFields style (orderedFields style kvs))
  | x => x

def orderedList (style : JsonStyle) : List Json → List Json
  | [] => []
  | x :: xs => ordered style x :: orderedList style xs

def orderedFields (style : JsonStyle) : List (String × Json) → List (String × Json)
  | [] => []
  | (k, v) :: kvs => (k, ordered style v) :: orderedFields style kvs

end

-- The text of a float is a number that is no integer, and the interpreter reads it as it is.
def ReadsFloat (P : Python) : Json → Prop
  | .float r => r = "nan" ∨ r = "inf" ∨ r = "-inf" ∨
      ∃ t : NumberText, r.toList = t.chars ∧ ¬(t.frac = [] ∧ t.power = []) ∧ P.floatRepr r = r
  | _ => True

def Readable (P : Python) (x : Json) : Prop :=
  x.Throughout Json.DistinctKeys ∧ x.Throughout (ReadsFloat P)

-- Separators that a comma and a colon begin, with blanks behind them.
structure Spaced (style : JsonStyle) : Prop where
  item : ∃ n, style.itemSeparator.toList = ',' :: List.replicate n ' '
  key : ∃ n, style.keySeparator.toList = ':' :: List.replicate n ' '

def text (style : JsonStyle) (x : Json) : List Char := (dumps style x).toList

section Scalars
variable {P : Python} {style : JsonStyle} {n : ℕ} {rest : List Char} {r : String}
  {x : Json}

theorem text_null : text style .null = ['n', 'u', 'l', 'l'] := by
  rw [text, dumps]
  rfl

theorem text_bool (b : Bool) : text style (.bool b) =
    if b then ['t', 'r', 'u', 'e'] else ['f', 'a', 'l', 's', 'e'] := by
  cases b <;> rw [text, dumps] <;> rfl

theorem text_nan : text style (.float "nan") = ['N', 'a', 'N'] := by
  rw [text, dumps, floatText, if_pos rfl]
  rfl

theorem text_inf :
    text style (.float "inf") = ['I', 'n', 'f', 'i', 'n', 'i', 't', 'y'] := by
  rw [text, dumps, floatText, if_neg (by decide), if_pos rfl]
  rfl

theorem text_minusInf :
    text style (.float "-inf") = ['-', 'I', 'n', 'f', 'i', 'n', 'i', 't', 'y'] := by
  rw [text, dumps, floatText, if_neg (by decide), if_neg (by decide), if_pos rfl]
  rfl

theorem floatText_number (t : NumberText) (h : r.toList = t.chars) : floatText r = r := by
  obtain ⟨d, cs, hd, htext⟩ := number_begins t
  have hne : ∀ s : String, s.toList.head? ≠ some d → s.toList.head? ≠ some '-' → r ≠ s := by
    rintro s hdigit hminus rfl
    rcases htext with htext | htext <;> rw [h, htext, List.head?_cons] at hdigit hminus
    · exact hdigit rfl
    · exact hminus rfl
  have hinf : r ≠ "-inf" := by
    rintro rfl
    rcases htext with htext | htext <;> rw [htext] at h
    · have hdash := (List.cons.inj h).1
      rw [← hdash] at hd
      exact absurd hd (by decide)
    · have hi := (List.cons.inj (List.cons.inj h).2).1
      rw [← hi] at hd
      exact absurd hd (by decide)
  have hletter : ∀ c : Char, c.isDigit = false → some c ≠ some d := fun c hc heq =>
    digit_ne hd hc (Option.some.inj heq)
  rw [floatText, if_neg (hne "nan" (hletter 'n' rfl) (by decide)),
    if_neg (hne "inf" (hletter 'i' rfl) (by decide)), if_neg hinf]

theorem scanValue_float (h : ReadsFloat P (.float r)) (hrest : Ends rest) :
    scanValue P (n + 1) (text style (.float r) ++ rest) = some (.float r, rest) := by
  rcases h with rfl | rfl | rfl | ⟨t, ht, hplain, hread⟩
  · rw [text_nan]
    rfl
  · rw [text_inf]
    rfl
  · rw [text_minusInf]
    rfl
  · have hvalue : t.value P = .float r := by
      have hr : String.ofList t.chars = r := by rw [← ht, String.ofList_toList]
      rw [NumberText.value, if_neg (by simpa using hplain), hr, hread]
    rw [text, dumps, floatText_number t ht, ht, scanValue_text t hrest, hvalue]

-- What a value can begin with.
def Begins (c : Char) : Prop :=
  c ∈ ['n', 't', 'f', 'N', 'I', '-', '\x22', '[', '\x7b'] ∨ c.isDigit = true

theorem begins_solid {c : Char} (h : Begins c) : isBlank c = false ∧ c ≠ ']' ∧ c ≠ '\x7d' := by
  rcases h with h | h
  · have hall : ∀ c ∈ ['n', 't', 'f', 'N', 'I', '-', '\x22', '[', '\x7b'],
        isBlank c = false ∧ c ≠ ']' ∧ c ≠ '\x7d' := by decide
    exact hall c h
  · refine ⟨?_, (digit_ne h rfl).symm, (digit_ne h rfl).symm⟩
    rw [isBlank, decide_eq_false_iff_not]
    rintro (rfl | rfl | rfl | rfl) <;> exact absurd h (by decide)

theorem skipBlank_solid {c : Char} (h : isBlank c = false) : skipBlank (c :: rest) = c :: rest := by
  rw [skipBlank, List.dropWhile_cons, h]
  rfl

theorem number_text_begins (t : NumberText) : ∃ c cs, t.chars = c :: cs ∧ Begins c := by
  obtain ⟨d, cs, hd, h | h⟩ := number_begins t
  · exact ⟨d, cs, h, Or.inr hd⟩
  · exact ⟨'-', d :: cs, h, Or.inl (by decide)⟩

theorem text_begins (style : JsonStyle) (h : x.Throughout (ReadsFloat P)) :
    ∃ c cs, text style x = c :: cs ∧ Begins c := by
  cases x with
  | null => exact ⟨'n', _, text_null, Or.inl (by decide)⟩
  | bool b =>
      cases b
      · exact ⟨'f', _, text_bool false, Or.inl (by decide)⟩
      · exact ⟨'t', _, text_bool true, Or.inl (by decide)⟩
  | int n =>
      obtain ⟨t, ht, -⟩ := toString_int (P := P) n
      obtain ⟨c, cs, hcs, hc⟩ := number_text_begins t
      exact ⟨c, cs, ht.trans hcs, hc⟩
  | float r =>
      rcases h with rfl | rfl | rfl | ⟨t, ht, -, -⟩
      · exact ⟨'N', _, text_nan, Or.inl (by decide)⟩
      · exact ⟨'I', _, text_inf, Or.inl (by decide)⟩
      · exact ⟨'-', _, text_minusInf, Or.inl (by decide)⟩
      · obtain ⟨c, cs, hcs, hc⟩ := number_text_begins t
        exact ⟨c, cs, by rw [text, dumps, floatText_number t ht, ht, hcs], hc⟩
  | str s => exact ⟨'\x22', _, quote_toList style s, Or.inl (by decide)⟩
  | arr xs => exact ⟨'[', _, by rw [text, dumps, String.toList_append, String.toList_append]; rfl,
      Or.inl (by decide)⟩
  | obj kvs => exact ⟨'\x7b', _, by
      rw [text, dumps, objectText, String.toList_append, String.toList_append]; rfl,
      Or.inl (by decide)⟩

end Scalars

section Texts
variable {style : JsonStyle} {α β : Type}

def joined (style : JsonStyle) (texts : List (List Char)) : List Char :=
  style.itemSeparator.toList.intercalate texts

def fieldText (style : JsonStyle) (kv : String × Json) : List Char :=
  (quote style kv.1).toList ++ (style.keySeparator.toList ++ text style kv.2)

theorem orderFields_map (f : α → β) (kvs : List (String × α)) :
    orderFields style (kvs.map fun kv => (kv.1, f kv.2)) =
      (orderFields style kvs).map fun kv => (kv.1, f kv.2) := by
  rw [orderFields, orderFields]
  split
  · exact (List.map_insertionSort CodePointLe CodePointLe
      (fun kv : String × α => (kv.1, f kv.2)) kvs fun _ _ _ _ => Iff.rfl).symm
  · rfl

theorem orderFields_perm (kvs : List (String × α)) : (orderFields style kvs).Perm kvs := by
  rw [orderFields]
  split
  · exact List.perm_insertionSort CodePointLe kvs
  · exact List.Perm.refl kvs

theorem dumpsList_eq_map (xs : List Json) : dumpsList style xs = xs.map (dumps style) := by
  induction xs with
  | nil => rfl
  | cons x xs ih => rw [dumpsList, ih, List.map_cons]

theorem orderedList_eq_map (xs : List Json) : orderedList style xs = xs.map (ordered style) := by
  induction xs with
  | nil => rfl
  | cons x xs ih => rw [orderedList, ih, List.map_cons]

theorem orderedFields_eq_map (kvs : List (String × Json)) :
    orderedFields style kvs = kvs.map fun kv => (kv.1, ordered style kv.2) := by
  induction kvs with
  | nil => rfl
  | cons kv kvs ih => rw [orderedFields, ih, List.map_cons]

theorem text_arr (xs : List Json) :
    text style (.arr xs) = '[' :: (joined style (xs.map (text style)) ++ [']']) := by
  rw [text, dumps, String.toList_append, String.toList_append, String.toList_intercalate,
    dumpsList_eq_map, List.map_map]
  rfl

theorem text_obj (kvs : List (String × Json)) : text style (.obj kvs) =
    '\x7b' :: (joined style ((orderFields style kvs).map (fieldText style)) ++ ['\x7d']) := by
  have hfields : ((orderFields style (dumpsFields style kvs)).map fun kv =>
      quote style kv.1 ++ style.keySeparator ++ kv.2).map String.toList =
        (orderFields style kvs).map (fieldText style) := by
    rw [dumpsFields_eq_map, orderFields_map, List.map_map, List.map_map]
    refine List.map_congr_left fun kv _ => ?_
    simp [fieldText, text]
  rw [text, dumps, objectText, String.toList_append, String.toList_append,
    String.toList_intercalate, hfields]
  rfl

theorem joined_singleton {cs : List Char} : joined style [cs] = cs := List.intercalate_singleton

theorem joined_cons {cs : List Char} {texts : List (List Char)} (h : texts ≠ []) :
    joined style (cs :: texts) =
      cs ++ (style.itemSeparator.toList ++ joined style texts) := by
  rw [joined, List.intercalate_cons_of_ne_nil h, List.append_assoc]
  rfl

theorem skipBlank_spaces (n : ℕ) (cs : List Char) :
    skipBlank (List.replicate n ' ' ++ cs) = skipBlank cs := by
  apply List.dropWhile_append_of_pos
  intro c hc
  rw [List.eq_of_mem_replicate hc]
  rfl

end Texts

section Values
variable {P : Python} {style : JsonStyle}

-- A value is read back from its text, up to what stands behind it.
def Scans (P : Python) (style : JsonStyle) (x : Json) : Prop :=
  ∀ n rest, (text style x).length ≤ n → Ends rest →
    scanValue P n (text style x ++ rest) = some (ordered style x, rest)

theorem ends_of {c : Char} (rest : List Char) (h : c ∈ [',', ']', '\x7d']) : Ends (c :: rest) := by
  rintro _ ⟨⟩
  have hall : ∀ c ∈ [',', ']', '\x7d'], c.isDigit = false ∧ c ≠ '.' ∧ c ≠ 'e' ∧ c ≠ 'E' := by
    decide
  exact hall c h

theorem ends_separator (hstyle : Spaced style) (rest : List Char) :
    Ends (style.itemSeparator.toList ++ rest) := by
  obtain ⟨n, hn⟩ := hstyle.item
  rw [hn]
  exact ends_of _ (by simp)

theorem scanElements_joined (hstyle : Spaced style) {xs : List Json} (hne : xs ≠ [])
    (hxs : ∀ x ∈ xs, Scans P style x ∧ x.Throughout (ReadsFloat P)) {n : ℕ}
    (hn : (joined style (xs.map (text style))).length < n) (rest : List Char) :
    scanElements P n (joined style (xs.map (text style)) ++ ']' :: rest) =
      some (xs.map (ordered style), rest) := by
  induction xs generalizing n with
  | nil => exact absurd rfl hne
  | cons x xs ih =>
      obtain ⟨⟨hx, -⟩, hrest⟩ := List.forall_mem_cons.mp hxs
      obtain ⟨m, rfl⟩ := Nat.exists_eq_succ_of_ne_zero (by omega : n ≠ 0)
      cases xs with
      | nil =>
          rw [List.map_singleton, joined_singleton] at hn ⊢
          rw [scanElements, hx m _ (by omega) (ends_of rest (by simp))]
          simp only [Option.bind_eq_bind, Option.bind_some, skipBlank_solid (c := ']') rfl]
          rfl
      | cons y ys =>
          have hys : (y :: ys).map (text style) ≠ [] := by simp
          rw [List.map_cons, joined_cons hys] at hn ⊢
          rw [List.length_append, List.length_append] at hn
          obtain ⟨k, hk⟩ := hstyle.item
          obtain ⟨c, cs, hcs, hc⟩ := text_begins style (hrest y List.mem_cons_self).2
          have hnext := ih (List.cons_ne_nil y ys) hrest (n := m)
            (by rw [hk, List.length_cons] at hn; omega)
          have hopen : ∃ ds,
              joined style ((y :: ys).map (text style)) ++ ']' :: rest = c :: ds := by
            cases ys with
            | nil => exact ⟨_, by rw [List.map_singleton, joined_singleton, hcs]; rfl⟩
            | cons z zs => exact ⟨_, by rw [List.map_cons, joined_cons (by simp), hcs]; rfl⟩
          obtain ⟨ds, hds⟩ := hopen
          rw [List.append_assoc, List.append_assoc, scanElements,
            hx m _ (by omega) (ends_separator hstyle _)]
          simp only [Option.bind_eq_bind, Option.bind_some, hk, List.cons_append,
            skipBlank_solid (c := ',') rfl, skipBlank_spaces]
          rw [hds, skipBlank_solid (begins_solid hc).1, ← hds, hnext]
          rfl

-- A member is read up to what stands behind its value.
theorem scanMembers_field (hstyle : Spaced style) {kv : String × Json} {n : ℕ}
    {tail : List Char}
    (hv : scanValue P n (text style kv.2 ++ tail) = some (ordered style kv.2, tail))
    (hread : kv.2.Throughout (ReadsFloat P)) :
    (∀ cs, skipBlank tail = '\x7d' :: cs →
      scanMembers P (n + 1) (fieldText style kv ++ tail) =
        some ([(kv.1, ordered style kv.2)], cs)) ∧
    (∀ cs kvs out, skipBlank tail = ',' :: cs →
      scanMembers P n (skipBlank cs) = some (kvs, out) →
        scanMembers P (n + 1) (fieldText style kv ++ tail) =
          some ((kv.1, ordered style kv.2) :: kvs, out)) := by
  obtain ⟨k, hk⟩ := hstyle.key
  obtain ⟨c, cs, hcs, hc⟩ := text_begins style hread
  have hskip : skipBlank (text style kv.2 ++ tail) = text style kv.2 ++ tail := by
    rw [hcs, List.cons_append, skipBlank_solid (begins_solid hc).1]
  have hkey := scanString_quoted style kv.1
    (':' :: (List.replicate k ' ' ++ (text style kv.2 ++ tail)))
  have hfield : fieldText style kv ++ tail = '\x22' :: (kv.1.toList.flatMap (escapeChar style) ++
      '\x22' :: ':' :: (List.replicate k ' ' ++ (text style kv.2 ++ tail))) := by
    rw [fieldText, quote_toList, hk]
    simp
  constructor
  · intro cs hclose
    rw [hfield, scanMembers, hkey]
    simp only [Option.bind_eq_bind, Option.bind_some, skipBlank_solid (c := ':') rfl,
      skipBlank_spaces, hskip, hv, hclose]
  · intro cs kvs out hcomma hmore
    rw [hfield, scanMembers, hkey]
    simp only [Option.bind_eq_bind, Option.bind_some, skipBlank_solid (c := ':') rfl,
      skipBlank_spaces, hskip, hv, hcomma, hmore]

theorem fieldText_begins (style : JsonStyle) (kv : String × Json) :
    ∃ cs, fieldText style kv = '\x22' :: cs :=
  ⟨_, by rw [fieldText, quote_toList, List.cons_append]⟩

theorem scanMembers_joined (hstyle : Spaced style) {kvs : List (String × Json)} (hne : kvs ≠ [])
    (hkvs : ∀ kv ∈ kvs, Scans P style kv.2 ∧ kv.2.Throughout (ReadsFloat P)) {n : ℕ}
    (hn : (joined style (kvs.map (fieldText style))).length < n) (rest : List Char) :
    scanMembers P n (joined style (kvs.map (fieldText style)) ++ '\x7d' :: rest) =
      some (kvs.map fun kv => (kv.1, ordered style kv.2), rest) := by
  induction kvs generalizing n with
  | nil => exact absurd rfl hne
  | cons kv kvs ih =>
      obtain ⟨⟨hv, hread⟩, hrest⟩ := List.forall_mem_cons.mp hkvs
      obtain ⟨m, rfl⟩ := Nat.exists_eq_succ_of_ne_zero (by omega : n ≠ 0)
      have hlength : (text style kv.2).length ≤ (fieldText style kv).length := by
        rw [fieldText, List.length_append, List.length_append]
        omega
      cases kvs with
      | nil =>
          rw [List.map_singleton, joined_singleton] at hn ⊢
          exact (scanMembers_field hstyle (hv m _ (by omega) (ends_of rest (by simp))) hread).1
            rest (skipBlank_solid rfl)
      | cons kv' kvs =>
          have hfields : (kv' :: kvs).map (fieldText style) ≠ [] := by simp
          rw [List.map_cons, joined_cons hfields] at hn ⊢
          rw [List.length_append, List.length_append] at hn
          obtain ⟨k, hk⟩ := hstyle.item
          have hnext := ih (List.cons_ne_nil kv' kvs) hrest (n := m)
            (by rw [hk, List.length_cons] at hn; omega)
          obtain ⟨cs, hcs⟩ := fieldText_begins style kv'
          have hopen : ∃ ds, joined style ((kv' :: kvs).map (fieldText style)) ++ '\x7d' :: rest =
              '\x22' :: ds := by
            cases kvs with
            | nil => exact ⟨_, by rw [List.map_singleton, joined_singleton, hcs]; rfl⟩
            | cons z zs => exact ⟨_, by rw [List.map_cons, joined_cons (by simp), hcs]; rfl⟩
          obtain ⟨ds, hds⟩ := hopen
          rw [List.append_assoc, List.append_assoc]
          refine (scanMembers_field hstyle
            (hv m _ (by omega) (ends_separator hstyle _)) hread).2 _ _ rest
              (by rw [hk, List.cons_append, skipBlank_solid rfl]) ?_
          rw [skipBlank_spaces, hds, skipBlank_solid rfl, ← hds]
          exact hnext

theorem scanValue_arr (hstyle : Spaced style) {xs : List Json}
    (hxs : ∀ x ∈ xs, Scans P style x ∧ x.Throughout (ReadsFloat P)) :
    Scans P style (.arr xs) := by
  intro n rest hn _
  rw [text_arr] at hn ⊢
  rw [List.length_cons, List.length_append] at hn
  obtain ⟨m, rfl⟩ := Nat.exists_eq_succ_of_ne_zero (by omega : n ≠ 0)
  rw [ordered, orderedList_eq_map]
  cases xs with
  | nil => rfl
  | cons x xs =>
      obtain ⟨c, cs, hcs, hc⟩ := text_begins style (hxs x List.mem_cons_self).2
      have hscan := scanElements_joined hstyle (List.cons_ne_nil x xs) hxs (n := m)
        (by simp only [List.length_singleton] at hn; omega) rest
      have hopen : ∃ ds, joined style ((x :: xs).map (text style)) ++ ']' :: rest = c :: ds := by
        cases xs with
        | nil => exact ⟨_, by rw [List.map_singleton, joined_singleton, hcs]; rfl⟩
        | cons z zs => exact ⟨_, by rw [List.map_cons, joined_cons (by simp), hcs]; rfl⟩
      obtain ⟨ds, hds⟩ := hopen
      obtain ⟨hblank, hbracket, -⟩ := begins_solid hc
      rw [List.cons_append, List.append_assoc, List.singleton_append, hds, scanValue,
        skipBlank_solid hblank]
      split
      · next h => exact absurd (List.cons.inj h).1 hbracket
      · rw [← hds, hscan]
        rfl

theorem scanValue_obj (hstyle : Spaced style) {kvs : List (String × Json)}
    (hnodup : (kvs.map Prod.fst).Nodup)
    (hkvs : ∀ kv ∈ kvs, Scans P style kv.2 ∧ kv.2.Throughout (ReadsFloat P)) :
    Scans P style (.obj kvs) := by
  intro n rest hn _
  have hperm : (orderFields style kvs).Perm kvs := orderFields_perm kvs
  rw [text_obj] at hn ⊢
  rw [List.length_cons, List.length_append] at hn
  obtain ⟨m, rfl⟩ := Nat.exists_eq_succ_of_ne_zero (by omega : n ≠ 0)
  rw [ordered, orderedFields_eq_map, orderFields_map]
  have hfields := fun kv hkv => hkvs kv (hperm.mem_iff.mp hkv)
  have hkeys : ((orderFields style kvs).map Prod.fst).Nodup :=
    (hperm.map Prod.fst).nodup_iff.mpr hnodup
  generalize orderFields style kvs = fields at hn hfields hkeys ⊢
  cases fields with
  | nil => rfl
  | cons kv fields =>
      obtain ⟨cs, hcs⟩ := fieldText_begins style kv
      have hscan := scanMembers_joined hstyle (List.cons_ne_nil kv fields) hfields (n := m)
        (by simp only [List.length_singleton] at hn; omega) rest
      have hopen : ∃ ds, joined style ((kv :: fields).map (fieldText style)) ++ '\x7d' :: rest =
          '\x22' :: ds := by
        cases fields with
        | nil => exact ⟨_, by rw [List.map_singleton, joined_singleton, hcs]; rfl⟩
        | cons z zs => exact ⟨_, by rw [List.map_cons, joined_cons (by simp), hcs]; rfl⟩
      obtain ⟨ds, hds⟩ := hopen
      have hkeys' : (((kv :: fields).map fun kv => (kv.1, ordered style kv.2)).map
          Prod.fst).Nodup := by
        rwa [List.map_map]
      have hbrace : scanValue P (m + 1) ('\x7b' :: '\x22' :: ds) =
          (scanMembers P m ('\x22' :: ds)).map fun kvs =>
            (.obj (OrderedDict.empty.update kvs.1).entries, kvs.2) := by
        rw [scanValue, skipBlank_solid rfl]
        rfl
      rw [List.cons_append, List.append_assoc, List.singleton_append, hds, hbrace, ← hds, hscan,
        Option.map_some, OrderedDict.entries_update_nodup hkeys']

mutual

theorem scans (hstyle : Spaced style) : ∀ x : Json, x.Throughout Json.DistinctKeys →
    x.Throughout (ReadsFloat P) → Scans P style x
  | .null, _, _ => by
      intro n rest hn _
      rw [text_null] at hn ⊢
      obtain ⟨m, rfl⟩ := Nat.exists_eq_succ_of_ne_zero (by rintro rfl; simp at hn : n ≠ 0)
      rfl
  | .bool b, _, _ => by
      intro n rest hn _
      rw [text_bool] at hn ⊢
      have hpos : n ≠ 0 := by
        rintro rfl
        cases b <;> simp at hn
      obtain ⟨m, rfl⟩ := Nat.exists_eq_succ_of_ne_zero hpos
      cases b <;> rfl
  | .int k, _, hread => by
      intro n rest hn hrest
      obtain ⟨c, cs, hcs, -⟩ := text_begins style hread
      obtain ⟨t, ht, hvalue⟩ := toString_int (P := P) k
      obtain ⟨m, rfl⟩ := Nat.exists_eq_succ_of_ne_zero (by rintro rfl; simp [hcs] at hn : n ≠ 0)
      have htext : text style (.int k) = t.chars := ht
      rw [htext, scanValue_text t hrest, hvalue]
      rfl
  | .float r, _, hread => by
      intro n rest hn hrest
      obtain ⟨c, cs, hcs, -⟩ := text_begins style hread
      obtain ⟨m, rfl⟩ := Nat.exists_eq_succ_of_ne_zero (by rintro rfl; simp [hcs] at hn : n ≠ 0)
      exact scanValue_float hread hrest
  | .str s, _, _ => by
      intro n rest hn _
      have htext : text style (.str s) = _ := quote_toList style s
      rw [htext] at hn ⊢
      obtain ⟨m, rfl⟩ := Nat.exists_eq_succ_of_ne_zero (by rintro rfl; simp at hn : n ≠ 0)
      rw [List.cons_append, List.append_assoc, List.singleton_append, scanValue,
        scanString_quoted]
      rfl
  | .arr xs, hkeys, hread => scanValue_arr hstyle (scansList hstyle xs hkeys.2 hread.2)
  | .obj kvs, hkeys, hread =>
      scanValue_obj hstyle hkeys.1 (scansFields hstyle kvs hkeys.2 hread.2)

theorem scansList (hstyle : Spaced style) : ∀ xs : List Json,
    Json.ThroughoutList Json.DistinctKeys xs → Json.ThroughoutList (ReadsFloat P) xs →
    ∀ x ∈ xs, Scans P style x ∧ x.Throughout (ReadsFloat P)
  | [], _, _ => fun _ h => absurd h List.not_mem_nil
  | x :: xs, hkeys, hread => List.forall_mem_cons.mpr
      ⟨⟨scans hstyle x hkeys.1 hread.1, hread.1⟩, scansList hstyle xs hkeys.2 hread.2⟩

theorem scansFields (hstyle : Spaced style) : ∀ kvs : List (String × Json),
    Json.ThroughoutFields Json.DistinctKeys kvs → Json.ThroughoutFields (ReadsFloat P) kvs →
    ∀ kv ∈ kvs, Scans P style kv.2 ∧ kv.2.Throughout (ReadsFloat P)
  | [], _, _ => fun _ h => absurd h List.not_mem_nil
  | (_, v) :: kvs, hkeys, hread => List.forall_mem_cons.mpr
      ⟨⟨scans hstyle v hkeys.1 hread.1, hread.1⟩, scansFields hstyle kvs hkeys.2 hread.2⟩

end

-- `json.loads(json.dumps(x))`, whatever the separators, the escapes and the order of the keys.
theorem loads_dumps (hstyle : Spaced style) {x : Json} (hx : Readable P x) :
    loads P (dumps style x) = some (ordered style x) := by
  obtain ⟨c, cs, hcs, hc⟩ := text_begins style hx.2
  have hskip : skipBlank (text style x) = text style x := by
    rw [hcs, skipBlank_solid (begins_solid hc).1]
  have hscan := scans hstyle x hx.1 hx.2 (2 * (text style x).length + 2) [] (by omega) ends_nil
  rw [List.append_nil] at hscan
  have htext : (dumps style x).toList = text style x := rfl
  rw [loads, htext, hskip, hscan]
  rfl

theorem dumps_injective (hstyle : Spaced style) {x y : Json} (hx : Readable P x)
    (hy : Readable P y) (h : dumps style x = dumps style y) :
    ordered style x = ordered style y := by
  have hread := loads_dumps hstyle hx
  rw [h, loads_dumps hstyle hy] at hread
  exact (Option.some.inj hread).symm

end Values

end JsonText

end BTagent
