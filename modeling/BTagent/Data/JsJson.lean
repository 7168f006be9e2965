import BTagent.Data.PyJson

namespace BTagent

namespace JsonText

def Digits (ds : List Char) : Prop := ds ≠ [] ∧ ∀ d ∈ ds, d.isDigit = true

-- The text of a number: a whole part, and where they stand a fraction and a power of ten.
structure NumberText where
  sign : List Char
  whole : List Char
  frac : List Char
  power : List Char
  signed : sign = [] ∨ sign = ['-']
  digits : Digits whole
  unpadded : whole.head? = some '0' → whole = ['0']
  fraction : frac = [] ∨ ∃ ds, Digits ds ∧ frac = '.' :: ds
  exponent : power = [] ∨ ∃ sign ds, (sign = '+' ∨ sign = '-') ∧ Digits ds ∧
    power = 'e' :: sign :: ds

def NumberText.chars (t : NumberText) : List Char := t.sign ++ t.whole ++ t.frac ++ t.power

-- A number that stands before `rest` ends there.
def Ends (rest : List Char) : Prop :=
  ∀ c ∈ rest.head?, c.isDigit = false ∧ c ≠ '.' ∧ c ≠ 'e' ∧ c ≠ 'E'

section Number
variable {ds rest cs frac power : List Char}

theorem ends_nil : Ends [] := by simp [Ends]

theorem takeWhile_digits (hds : ∀ d ∈ ds, d.isDigit = true)
    (hrest : ∀ c ∈ rest.head?, c.isDigit = false) :
    (ds ++ rest).takeWhile Char.isDigit = ds ∧ (ds ++ rest).dropWhile Char.isDigit = rest := by
  rw [List.takeWhile_append_of_pos hds, List.dropWhile_append_of_pos hds]
  cases rest with
  | nil => simp
  | cons c rest =>
      have hc : c.isDigit = false := hrest c rfl
      simp [hc]

theorem minus_digits (hne : ds ≠ []) (hds : ∀ d ∈ ds, d.isDigit = true) :
    minus (ds ++ rest) = ([], ds ++ rest) := by
  cases ds with
  | nil => exact absurd rfl hne
  | cons d ds =>
      have hd : d.isDigit = true := hds d List.mem_cons_self
      have hminus : d ≠ '-' := by
        rintro rfl
        exact absurd hd (by decide)
      rw [List.cons_append, minus]
      intro cs h
      exact hminus (List.cons.inj h).1

theorem integerPart_digits (hds : Digits ds) (hpad : ds.head? = some '0' → ds = ['0'])
    (hrest : ∀ c ∈ rest.head?, c.isDigit = false) :
    integerPart (ds ++ rest) = some (ds, rest) := by
  by_cases hzero : ds.head? = some '0'
  · rw [hpad hzero]
    rfl
  · obtain ⟨htake, hdrop⟩ := takeWhile_digits hds.2 hrest
    rw [integerPart, htake, hdrop, if_neg]
    · simpa using hds.1
    · intro cs h
      apply hzero
      cases ds with
      | nil => exact absurd rfl hds.1
      | cons d ds => rw [List.head?_cons, (List.cons.inj h).1]

theorem fraction_digits (hds : Digits ds) (hrest : ∀ c ∈ rest.head?, c.isDigit = false) :
    fraction ('.' :: (ds ++ rest)) = ('.' :: ds, rest) := by
  obtain ⟨htake, hdrop⟩ := takeWhile_digits hds.2 hrest
  simp [fraction, htake, hdrop, hds.1]

theorem fraction_none (hrest : ∀ c ∈ rest.head?, c ≠ '.') : fraction rest = ([], rest) := by
  cases rest with
  | nil => rfl
  | cons c rest =>
      rw [fraction]
      intro cs h
      exact hrest c rfl (List.cons.inj h).1

theorem exponent_digits {sign : Char} (hsign : sign = '+' ∨ sign = '-') (hds : Digits ds)
    (hrest : ∀ c ∈ rest.head?, c.isDigit = false) :
    exponent ('e' :: sign :: (ds ++ rest)) = ('e' :: sign :: ds, rest) := by
  obtain ⟨htake, hdrop⟩ := takeWhile_digits hds.2 hrest
  rcases hsign with rfl | rfl <;> simp [exponent, exponentSign, htake, hdrop, hds.1]

theorem exponent_none (hrest : ∀ c ∈ rest.head?, c ≠ 'e' ∧ c ≠ 'E') :
    exponent rest = ([], rest) := by
  cases rest with
  | nil => rfl
  | cons c rest =>
      obtain ⟨hlower, hupper⟩ := hrest c rfl
      simp [exponent, hlower, hupper]

theorem head?_append_of {p : Char → Prop} (hfrac : ∀ c ∈ frac.head?, p c)
    (hrest : ∀ c ∈ rest.head?, p c) : ∀ c ∈ (frac ++ rest).head?, p c := by
  cases frac with
  | nil => exact hrest
  | cons d frac => exact hfrac

theorem power_head (t : NumberText) : ∀ c ∈ t.power.head?, c.isDigit = false ∧ c ≠ '.' := by
  rcases t.exponent with h | ⟨sign, ds, -, -, h⟩
  · simp [h]
  · rintro c hc
    rw [h] at hc
    cases hc
    decide

theorem frac_head (t : NumberText) :
    ∀ c ∈ (t.frac ++ (t.power ++ rest)).head?, Ends rest → c.isDigit = false := by
  intro c hc hrest
  rcases t.fraction with h | ⟨ds, -, h⟩
  · rw [h, List.nil_append] at hc
    exact head?_append_of (fun c hc => (power_head t c hc).1) (fun c hc => (hrest c hc).1) c hc
  · rw [h] at hc
    cases hc
    rfl

theorem fraction_text (t : NumberText) (hrest : Ends rest) :
    JsonText.fraction (t.frac ++ (t.power ++ rest)) = (t.frac, t.power ++ rest) := by
  have hhead : ∀ c ∈ (t.power ++ rest).head?, c.isDigit = false ∧ c ≠ '.' :=
    head?_append_of (power_head t) fun c hc => ⟨(hrest c hc).1, (hrest c hc).2.1⟩
  rcases t.fraction with h | ⟨ds, hds, h⟩
  · rw [h, List.nil_append, fraction_none fun c hc => (hhead c hc).2]
  · rw [h, List.cons_append, fraction_digits hds fun c hc => (hhead c hc).1]

theorem exponent_text (t : NumberText) (hrest : Ends rest) :
    JsonText.exponent (t.power ++ rest) = (t.power, rest) := by
  rcases t.exponent with h | ⟨sign, ds, hsign, hds, h⟩
  · rw [h, List.nil_append, exponent_none fun c hc => (hrest c hc).2.2]
  · rw [h, List.cons_append, List.cons_append,
      exponent_digits hsign hds fun c hc => (hrest c hc).1]

end Number

end JsonText

-- A language's numbers: `text` is `String(n)` and `number` reads a literal. Numbers that are
-- `===` are one, and a finite number is read back from its text.
structure JsNumbers where
  Num : Type
  finite : Num → Bool
  integer : Num → Bool
  text : Num → List Char
  number : List Char → Num
  literal : ∀ n, finite n = true → ∃ t : JsonText.NumberText, text n = t.chars
  number_text : ∀ n, finite n = true → number (text n) = n

-- A value of JavaScript that JSON can write; an object lists its keys in their order.
inductive JsJson (N : JsNumbers) where
  | null
  | bool (b : Bool)
  | num (n : N.Num)
  | str (s : String)
  | arr (xs : List (JsJson N))
  | obj (kvs : List (String × JsJson N))

namespace JsJson

-- The keys that are array indices.
def arrayIndex (key : String) : Option ℕ :=
  let n := decimal key.toList
  if n < 4294967295 ∧ (Nat.repr n).toList = key.toList then some n else none

def IndexLe {α : Type*} (a b : String × α) : Prop :=
  (arrayIndex a.1).getD 0 ≤ (arrayIndex b.1).getD 0

instance {α : Type*} (a b : String × α) : Decidable (IndexLe a b) :=
  inferInstanceAs (Decidable (_ ≤ _))

-- Array indices come first, by size, and then the other keys, as they were added.
def ownOrder {α : Type*} (kvs : List (String × α)) : List (String × α) :=
  (kvs.filter fun kv => (arrayIndex kv.1).isSome).insertionSort IndexLe ++
    kvs.filter fun kv => (arrayIndex kv.1).isNone

variable {N : JsNumbers}

mutual

-- What `JSON.parse` can return: the numbers are finite and no object has a key twice.
def WellFormed : JsJson N → Prop
  | null => True
  | bool _ => True
  | num n => N.finite n = true
  | str _ => True
  | arr xs => WellFormedList xs
  | obj kvs => WellFormedFields kvs ∧ (kvs.map Prod.fst).Nodup ∧ ownOrder kvs = kvs

def WellFormedList : List (JsJson N) → Prop
  | [] => True
  | x :: xs => WellFormed x ∧ WellFormedList xs

def WellFormedFields : List (String × JsJson N) → Prop
  | [] => True
  | (_, v) :: kvs => WellFormed v ∧ WellFormedFields kvs

end

def jsStyle : JsonStyle := ⟨",", ":", false, false⟩

def quote (s : String) : List Char :=
  '\x22' :: (s.toList.flatMap (JsonText.escapeChar jsStyle) ++ ['\x22'])

-- What stands between a key and its value.
def colon (gap : ℕ) : List Char := if gap = 0 then [':'] else [':', ' ']

def newline (gap level : ℕ) : List Char :=
  if gap = 0 then [] else '\n' :: List.replicate (gap * level) ' '

def block (gap level : ℕ) (left right : Char) (items : List (List Char)) : List Char :=
  if items.isEmpty then [left, right]
  else left :: (newline gap (level + 1) ++ (',' :: newline gap (level + 1)).intercalate items ++
    newline gap level ++ [right])

mutual

-- `JSON.stringify(value, null, gap)`
def stringify (gap level : ℕ) : JsJson N → List Char
  | null => "null".toList
  | bool b => (if b then "true" else "false").toList
  | num n => if N.finite n then N.text n else "null".toList
  | str s => quote s
  | arr xs => block gap level '[' ']' (stringifyList gap (level + 1) xs)
  | obj kvs => block gap level '\x7b' '\x7d' (stringifyFields gap (level + 1) kvs)

def stringifyList (gap level : ℕ) : List (JsJson N) → List (List Char)
  | [] => []
  | x :: xs => stringify gap level x :: stringifyList gap level xs

def stringifyFields (gap level : ℕ) : List (String × JsJson N) → List (List Char)
  | [] => []
  | (k, v) :: kvs =>
      (quote k ++ (colon gap ++ stringify gap level v)) ::
        stringifyFields gap level kvs

end

open JsonText in
def scanNumber (cs : List Char) : Option (JsJson N × List Char) := do
  let (sign, cs) := minus cs
  let (whole, cs) ← integerPart cs
  let (frac, cs) := JsonText.fraction cs
  let (power, cs) := exponent cs
  some (.num (N.number (sign ++ whole ++ frac ++ power)), cs)

def constants : List (List Char × JsJson N) :=
  [("null".toList, .null), ("true".toList, .bool true), ("false".toList, .bool false)]

def scanScalar (cs : List Char) : Option (JsJson N × List Char) :=
  match constants.find? fun kv => kv.1.isPrefixOf cs with
  | some kv => some (kv.2, cs.drop kv.1.length)
  | none => scanNumber cs

section
open JsonText

mutual

def scanValue : ℕ → List Char → Option (JsJson N × List Char)
  | 0, _ => none
  | n + 1, cs =>
      match cs with
      | '\x22' :: cs => (scanString cs).map fun s => (.str s.1, s.2)
      | '[' :: cs =>
          match skipBlank cs with
          | ']' :: cs => some (.arr [], cs)
          | cs => (scanElements n cs).map fun xs => (.arr xs.1, xs.2)
      | '\x7b' :: cs =>
          match skipBlank cs with
          | '\x7d' :: cs => some (.obj [], cs)
          | cs => (scanMembers n cs).map fun kvs =>
              (.obj (ownOrder (OrderedDict.empty.update kvs.1).entries), kvs.2)
      | cs => scanScalar cs

def scanElements : ℕ → List Char → Option (List (JsJson N) × List Char)
  | 0, _ => none
  | n + 1, cs => do
      let (x, cs) ← scanValue n cs
      match skipBlank cs with
      | ',' :: cs => do
          let (xs, cs) ← scanElements n (skipBlank cs)
          some (x :: xs, cs)
      | ']' :: cs => some ([x], cs)
      | _ => none

def scanMembers : ℕ → List Char → Option (List (String × JsJson N) × List Char)
  | 0, _ => none
  | n + 1, cs =>
      match cs with
      | '\x22' :: cs => do
          let (key, cs) ← scanString cs
          match skipBlank cs with
          | ':' :: cs => do
              let (x, cs) ← scanValue n (skipBlank cs)
              match skipBlank cs with
              | ',' :: cs => do
                  let (kvs, cs) ← scanMembers n (skipBlank cs)
                  some ((key, x) :: kvs, cs)
              | '\x7d' :: cs => some ([(key, x)], cs)
              | _ => none
          | _ => none
      | _ => none

end

-- `JSON.parse(text)`
def parse (text : List Char) : Option (JsJson N) := do
  let (x, cs) ← scanValue (2 * text.length + 2) (skipBlank text)
  if (skipBlank cs).isEmpty then some x else none

end

section Strings
open JsonText
variable {cs rest : List Char}

theorem control_digits : ∀ n < 32,
    [(n / 4096 % 16).digitChar, (n / 256 % 16).digitChar, (n / 16 % 16).digitChar,
      (n % 16).digitChar].all Ipv6.isHex = true ∧
    Ipv6.hexadecimal [(n / 4096 % 16).digitChar, (n / 256 % 16).digitChar,
      (n / 16 % 16).digitChar, (n % 16).digitChar] = n := by
  decide

theorem unicodeChar_control {c : Char} (h : c.toNat < 32) (cs : List Char) :
    unicodeChar ((unicodeEscape c.toNat).drop 2 ++ cs) = some (c, cs) := by
  obtain ⟨hhex, hvalue⟩ := control_digits c.toNat h
  have hhigh : ¬ (55296 ≤ c.toNat ∧ c.toNat < 56320) := by omega
  have hlow : ¬ (56320 ≤ c.toNat ∧ c.toNat < 57344) := by omega
  simp only [unicodeEscape, List.drop_succ_cons, List.drop_zero, List.cons_append, List.nil_append,
    unicodeChar, hexQuad, hhex, hvalue, if_true, Option.bind_eq_bind, Option.bind_some, hhigh, hlow,
    if_false, Char.ofNat_toNat]

theorem stringBody_escape (c : Char) (n : ℕ) :
    stringBody (n + 1) (escapeChar jsStyle c ++ cs) =
      (stringBody n cs).map fun body => (c :: body.1, body.2) := by
  have hbind : ∀ o : Option (List Char × List Char),
      (o.bind fun body => some (c :: body.1, body.2)) =
        o.map fun body => (c :: body.1, body.2) := by
    intro o
    cases o <;> rfl
  rw [escapeChar]
  split
  · next h => subst h; simpa [stringBody, simpleEscape] using hbind _
  split
  · next h => subst h; simpa [stringBody, simpleEscape] using hbind _
  split
  · next h => subst h; simpa [stringBody, simpleEscape] using hbind _
  split
  · next h => subst h; simpa [stringBody, simpleEscape] using hbind _
  split
  · next h => subst h; simpa [stringBody, simpleEscape] using hbind _
  split
  · next h => subst h; simpa [stringBody, simpleEscape] using hbind _
  split
  · next h => subst h; simpa [stringBody, simpleEscape] using hbind _
  split
  · next h =>
      have hchar := unicodeChar_control h cs
      simp only [unicodeEscape, List.drop_succ_cons, List.drop_zero] at hchar
      simp only [unicodeEscape, List.cons_append, stringBody] at hchar ⊢
      rw [hchar]
      exact hbind _
  · next hquote hslash _ _ _ _ _ hcontrol =>
      rw [if_neg (by simp [jsStyle]), List.singleton_append, stringBody]
      · rw [if_neg hcontrol]
        exact hbind _
      all_goals simp_all

theorem stringBody_text (s : List Char) {n : ℕ} (hn : s.length < n) :
    stringBody n (s.flatMap (escapeChar jsStyle) ++ '\x22' :: rest) = some (s, rest) := by
  induction s generalizing n with
  | nil =>
      obtain ⟨m, rfl⟩ := Nat.exists_eq_succ_of_ne_zero (by omega : n ≠ 0)
      rfl
  | cons c s ih =>
      obtain ⟨m, rfl⟩ := Nat.exists_eq_succ_of_ne_zero (by omega : n ≠ 0)
      rw [List.flatMap_cons, List.append_assoc, stringBody_escape,
        ih (by rw [List.length_cons] at hn; omega)]
      rfl

theorem length_escaped (s : List Char) : s.length ≤ (s.flatMap (escapeChar jsStyle)).length := by
  induction s with
  | nil => rfl
  | cons c s ih =>
      have hone : 1 ≤ (escapeChar jsStyle c).length := by
        rw [escapeChar]
        split_ifs <;> simp [unicodeEscape]
      rw [List.flatMap_cons, List.length_append, List.length_cons]
      omega

theorem scanString_quote (s : String) (rest : List Char) :
    scanString ((quote s).drop 1 ++ rest) = some (s, rest) := by
  have hlen := length_escaped s.toList
  rw [quote, List.drop_succ_cons, List.drop_zero, List.append_assoc, List.singleton_append,
    scanString, stringBody_text, Option.map_some, String.ofList_toList]
  rw [List.length_append]
  omega

end Strings

section Lines
open JsonText
variable {gap level : ℕ} {rest : List Char} {c : Char}

theorem skipBlank_newline (gap level : ℕ) (rest : List Char) :
    skipBlank (newline gap level ++ rest) = skipBlank rest := by
  rw [newline]
  split
  · rfl
  · apply List.dropWhile_append_of_pos
    intro c hc
    rcases List.mem_cons.mp hc with rfl | hc
    · rfl
    · rw [List.eq_of_mem_replicate hc]
      rfl

theorem skipBlank_solid (h : isBlank c = false) : skipBlank (c :: rest) = c :: rest := by
  rw [skipBlank, List.dropWhile_cons, h]
  rfl

theorem ends_newline (gap level : ℕ) (h : Ends rest) : Ends (newline gap level ++ rest) := by
  rw [newline]
  split
  · exact h
  · rintro c ⟨⟩
    decide

-- What a value can begin with.
def Opens (c : Char) : Prop :=
  c ∈ ['n', 't', 'f', '\x22', '[', '\x7b', '-'] ∨ c.isDigit = true

theorem opens_solid (h : Opens c) : isBlank c = false ∧ c ≠ ']' ∧ c ≠ '\x7d' := by
  rcases h with h | h
  · have hall : ∀ c ∈ ['n', 't', 'f', '\x22', '[', '\x7b', '-'],
        isBlank c = false ∧ c ≠ ']' ∧ c ≠ '\x7d' := by decide
    exact hall c h
  · have hne : ∀ d : Char, d.isDigit = false → c ≠ d := by
      rintro d hd rfl
      exact Bool.false_ne_true (hd.symm.trans h)
    refine ⟨?_, hne _ rfl, hne _ rfl⟩
    rw [isBlank, decide_eq_false_iff_not]
    rintro (rfl | rfl | rfl | rfl) <;> exact absurd h (by decide)

theorem block_opens (gap level : ℕ) (left right : Char) (items : List (List Char)) :
    ∃ cs, block gap level left right items = left :: cs := by
  rw [block]
  split <;> exact ⟨_, rfl⟩

theorem number_opens (t : NumberText) :
    ∃ c cs, t.chars = c :: cs ∧ (c = '-' ∨ c.isDigit = true) := by
  rcases t.signed with h | h
  · obtain ⟨d, ds, hwhole⟩ := List.exists_cons_of_ne_nil t.digits.1
    refine ⟨d, ds ++ t.frac ++ t.power, ?_, Or.inr (t.digits.2 d (hwhole ▸ List.mem_cons_self))⟩
    rw [NumberText.chars, h, hwhole]
    rfl
  · refine ⟨'-', t.whole ++ t.frac ++ t.power, ?_, Or.inl rfl⟩
    rw [NumberText.chars, h]
    rfl

theorem stringify_opens (gap level : ℕ) (v : JsJson N) :
    ∃ c cs, stringify gap level v = c :: cs ∧ Opens c := by
  have hnull : Opens 'n' := Or.inl (by decide)
  cases v with
  | null => exact ⟨'n', _, rfl, hnull⟩
  | bool b =>
      cases b
      · exact ⟨'f', _, rfl, Or.inl (by decide)⟩
      · exact ⟨'t', _, rfl, Or.inl (by decide)⟩
  | num n =>
      rw [stringify]
      split
      · next h =>
          obtain ⟨t, ht⟩ := N.literal n h
          obtain ⟨c, cs, hcs, hc⟩ := number_opens t
          refine ⟨c, cs, ht.trans hcs, ?_⟩
          rcases hc with rfl | hc
          · exact Or.inl (by decide)
          · exact Or.inr hc
      · exact ⟨'n', _, rfl, hnull⟩
  | str s => exact ⟨'\x22', _, rfl, Or.inl (by decide)⟩
  | arr xs =>
      obtain ⟨cs, h⟩ := block_opens gap level '[' ']' (stringifyList gap (level + 1) xs)
      exact ⟨'[', cs, by rw [stringify, h], Or.inl (by decide)⟩
  | obj kvs =>
      obtain ⟨cs, h⟩ := block_opens gap level '\x7b' '\x7d' (stringifyFields gap (level + 1) kvs)
      exact ⟨'\x7b', cs, by rw [stringify, h], Or.inl (by decide)⟩

theorem skipBlank_stringify (gap level : ℕ) (v : JsJson N) (rest : List Char) :
    skipBlank (stringify gap level v ++ rest) = stringify gap level v ++ rest := by
  obtain ⟨c, cs, h, hc⟩ := stringify_opens gap level v
  rw [h, List.cons_append, skipBlank_solid (opens_solid hc).1]

end Lines

section Scalars
open JsonText
variable {n : ℕ} {rest : List Char}

theorem scanNumber_chars (t : NumberText) (hrest : Ends rest) :
    scanNumber (t.chars ++ rest) = some (.num (N.number t.chars), rest) := by
  have hwhole : integerPart (t.whole ++ (t.frac ++ (t.power ++ rest))) =
      some (t.whole, t.frac ++ (t.power ++ rest)) :=
    integerPart_digits t.digits t.unpadded fun c hc => frac_head t c hc hrest
  have hminus : minus (t.sign ++ (t.whole ++ (t.frac ++ (t.power ++ rest)))) =
      (t.sign, t.whole ++ (t.frac ++ (t.power ++ rest))) := by
    rcases t.signed with h | h
    · rw [h, List.nil_append]
      exact minus_digits t.digits.1 t.digits.2
    · rw [h]
      rfl
  have htext : t.chars ++ rest = t.sign ++ (t.whole ++ (t.frac ++ (t.power ++ rest))) := by
    simp [NumberText.chars]
  rw [htext, scanNumber, hminus]
  simp only [hwhole, fraction_text t hrest, exponent_text t hrest, Option.bind_eq_bind,
    Option.bind_some, NumberText.chars]

theorem scanValue_number (t : NumberText) (hrest : Ends rest) :
    scanValue (n + 1) (t.chars ++ rest) = some (JsJson.num (N.number t.chars), rest) := by
  obtain ⟨c, cs, hcs, hc⟩ := number_opens t
  have hne : ∀ d : Char, d.isDigit = false → d ≠ '-' → c ≠ d := by
    rintro d hdigit hdash rfl
    rcases hc with h | h
    · exact hdash h
    · exact Bool.false_ne_true (hdigit.symm.trans h)
  have hn := (hne 'n' rfl (by decide)).symm
  have ht := (hne 't' rfl (by decide)).symm
  have hf := (hne 'f' rfl (by decide)).symm
  have hconstants :
      (constants (N := N)).find? (fun kv => kv.1.isPrefixOf (c :: (cs ++ rest))) = none := by
    simp [constants, hn, ht, hf]
  have hscalar : scanScalar (N := N) (t.chars ++ rest) =
      some (JsJson.num (N.number t.chars), rest) := by
    rw [scanScalar, hcs, List.cons_append, hconstants, ← List.cons_append, ← hcs]
    exact scanNumber_chars t hrest
  rw [scanValue]
  · exact hscalar
  all_goals
    intro ds h
    rw [hcs, List.cons_append] at h
    exact hne _ (by decide) (by decide) (List.cons.inj h).1

end Scalars

section Values
open JsonText
variable {gap level n : ℕ} {rest : List Char}

-- The items of a block with what separates them.
def items (gap level : ℕ) (texts : List (List Char)) : List Char :=
  (',' :: newline gap level).intercalate texts

theorem items_cons {x : List Char} {texts : List (List Char)} (h : texts ≠ []) :
    items gap level (x :: texts) = x ++ (',' :: (newline gap level ++ items gap level texts)) := by
  rw [items, List.intercalate_cons_of_ne_nil h, List.append_assoc, List.cons_append]
  rfl

theorem items_singleton {x : List Char} : items gap level [x] = x := List.intercalate_singleton

theorem block_items {left right : Char} {texts : List (List Char)} (h : texts ≠ []) :
    block gap level left right texts = left :: (newline gap (level + 1) ++
      (items gap (level + 1) texts ++ (newline gap level ++ [right]))) := by
  rw [block, if_neg (by simpa using h), items]
  simp

theorem stringifyList_ne {xs : List (JsJson N)} (gap level : ℕ) (h : xs ≠ []) :
    stringifyList gap level xs ≠ [] := by
  cases xs with
  | nil => exact absurd rfl h
  | cons x xs => simp [stringifyList]

theorem stringifyFields_ne {kvs : List (String × JsJson N)} (gap level : ℕ) (h : kvs ≠ []) :
    stringifyFields gap level kvs ≠ [] := by
  cases kvs with
  | nil => exact absurd rfl h
  | cons kv kvs => simp [stringifyFields]

theorem items_opens {xs : List (JsJson N)} (gap level : ℕ) (h : xs ≠ []) :
    ∃ c cs, items gap level (stringifyList gap level xs) = c :: cs ∧ Opens c := by
  cases xs with
  | nil => exact absurd rfl h
  | cons x xs =>
      obtain ⟨c, cs, hcs, hc⟩ := stringify_opens gap level x
      cases xs with
      | nil => exact ⟨c, cs, by rw [stringifyList, stringifyList, items_singleton, hcs], hc⟩
      | cons y ys =>
          have hitems : items gap level (stringifyList gap level (x :: y :: ys)) = _ :=
            items_cons (stringifyList_ne gap level (List.cons_ne_nil y ys))
          rw [hcs, List.cons_append] at hitems
          exact ⟨c, _, hitems, hc⟩

theorem scanValue_bracket {c : Char} {cs : List Char} (hc : Opens c) :
    scanValue (N := N) (n + 1) ('[' :: (newline gap level ++ c :: cs)) =
      (scanElements n (c :: cs)).map fun xs => (.arr xs.1, xs.2) := by
  obtain ⟨hblank, hbracket, -⟩ := opens_solid hc
  have hskip : skipBlank (newline gap level ++ c :: cs) = c :: cs :=
    (skipBlank_newline gap level _).trans (skipBlank_solid hblank)
  rw [scanValue, hskip]
  split
  · next h => exact absurd (List.cons.inj h).1 hbracket
  · rfl

theorem scanValue_brace {cs : List Char} :
    scanValue (N := N) (n + 1) ('\x7b' :: (newline gap level ++ '\x22' :: cs)) =
      (scanMembers n ('\x22' :: cs)).map fun kvs =>
        (.obj (ownOrder (OrderedDict.empty.update kvs.1).entries), kvs.2) := by
  have hskip : skipBlank (newline gap level ++ '\x22' :: cs) = '\x22' :: cs :=
    (skipBlank_newline gap level _).trans (skipBlank_solid rfl)
  rw [scanValue, hskip]
  rfl

theorem quote_cons (s : String) : quote s = '\x22' :: (quote s).drop 1 := rfl

theorem skipBlank_colon (gap level : ℕ) (v : JsJson N) (rest : List Char) :
    ∃ cs, colon gap ++ (stringify gap level v ++ rest) = ':' :: cs ∧
      skipBlank cs = stringify gap level v ++ rest := by
  rw [colon]
  split
  · exact ⟨_, rfl, skipBlank_stringify gap level v rest⟩
  · refine ⟨' ' :: (stringify gap level v ++ rest), rfl, ?_⟩
    exact skipBlank_stringify gap level v rest

theorem fields_open {kvs : List (String × JsJson N)} (gap level : ℕ) (h : kvs ≠ []) :
    ∃ cs, items gap level (stringifyFields gap level kvs) = '\x22' :: cs := by
  obtain ⟨kv, kvs, rfl⟩ := List.exists_cons_of_ne_nil h
  cases kvs with
  | nil => exact ⟨_, by rw [stringifyFields, stringifyFields, items_singleton, quote_cons]; rfl⟩
  | cons kv' kvs =>
      have hitems : items gap level (stringifyFields gap level (kv :: kv' :: kvs)) = _ :=
        items_cons (stringifyFields_ne gap level (List.cons_ne_nil kv' kvs))
      rw [quote_cons] at hitems
      exact ⟨_, hitems⟩

-- A member is read up to what stands behind its value.
theorem scanMembers_key {v : JsJson N} {tail : List Char} (k : String)
    (hv : scanValue n (stringify gap level v ++ tail) = some (v, tail)) :
    scanMembers (n + 1) (quote k ++ (colon gap ++ (stringify gap level v ++ tail))) =
      match skipBlank tail with
      | ',' :: cs => do
          let (kvs, cs) ← scanMembers n (skipBlank cs)
          some ((k, v) :: kvs, cs)
      | '\x7d' :: cs => some ([(k, v)], cs)
      | _ => none := by
  obtain ⟨cs, hcs, hskip⟩ := skipBlank_colon gap level v tail
  have hkey : scanString ((quote k).drop 1 ++ ':' :: cs) = some (k, ':' :: cs) :=
    scanString_quote k _
  rw [hcs, quote_cons, List.cons_append, scanMembers, hkey]
  simp only [Option.bind_eq_bind, Option.bind_some, skipBlank_solid (c := ':') rfl, hskip, hv]

theorem ends_comma (rest : List Char) : Ends (',' :: rest) := by
  rintro c ⟨⟩
  decide

theorem ends_bracket (rest : List Char) : Ends (']' :: rest) := by
  rintro c ⟨⟩
  decide

theorem ends_brace (rest : List Char) : Ends ('\x7d' :: rest) := by
  rintro c ⟨⟩
  decide

mutual

theorem scanValue_stringify : ∀ (v : JsJson N), v.WellFormed → ∀ (gap level n : ℕ)
    (rest : List Char), (stringify gap level v).length ≤ n → Ends rest →
    scanValue n (stringify gap level v ++ rest) = some (v, rest)
  | v, hv, gap, level, 0, rest, hn, _ => by
      obtain ⟨c, cs, hcs, -⟩ := stringify_opens gap level v
      rw [hcs] at hn
      exact absurd hn (by simp)
  | null, _, _, _, _ + 1, _, _, _ => rfl
  | bool true, _, _, _, _ + 1, _, _, _ => rfl
  | bool false, _, _, _, _ + 1, _, _, _ => rfl
  | num x, hv, _, _, n + 1, rest, _, hrest => by
      have hfinite : N.finite x = true := hv
      obtain ⟨t, ht⟩ := N.literal x hfinite
      rw [stringify, if_pos hfinite, ht, scanValue_number t hrest, ← ht, N.number_text x hfinite]
  | str s, _, _, _, n + 1, rest, _, _ => by
      have hscan := scanString_quote s rest
      rw [quote, List.drop_succ_cons, List.drop_zero] at hscan
      rw [stringify, quote, List.cons_append, scanValue, hscan]
      rfl
  | arr [], _, _, _, _ + 1, _, _, _ => rfl
  | arr (x :: xs), hv, gap, level, n + 1, rest, hn, _ => by
      have hne := stringifyList_ne gap (level + 1) (List.cons_ne_nil x xs)
      rw [stringify, block_items hne] at hn ⊢
      simp only [List.length_cons, List.length_append, List.length_nil] at hn
      have hscan := scanElements_stringify (x :: xs) (List.cons_ne_nil x xs) hv gap (level + 1)
        level n rest (by omega)
      obtain ⟨c, cs, hcs, hc⟩ := items_opens gap (level + 1) (List.cons_ne_nil x xs)
      rw [hcs, List.cons_append] at hscan
      rw [hcs]
      simp only [List.cons_append, List.append_assoc, List.nil_append] at hscan ⊢
      rw [scanValue_bracket hc, hscan]
      rfl
  | obj [], _, _, _, _ + 1, _, _, _ => rfl
  | obj (kv :: kvs), hv, gap, level, n + 1, rest, hn, _ => by
      have hne := stringifyFields_ne gap (level + 1) (List.cons_ne_nil kv kvs)
      obtain ⟨hfields, hnodup, hown⟩ := hv
      rw [stringify, block_items hne] at hn ⊢
      simp only [List.length_cons, List.length_append, List.length_nil] at hn
      have hscan := scanMembers_stringify (kv :: kvs) (List.cons_ne_nil kv kvs) hfields gap
        (level + 1) level n rest (by omega)
      obtain ⟨cs, hcs⟩ := fields_open gap (level + 1) (List.cons_ne_nil kv kvs)
      rw [hcs, List.cons_append] at hscan
      rw [hcs]
      simp only [List.cons_append, List.append_assoc, List.nil_append] at hscan ⊢
      rw [scanValue_brace, hscan, Option.map_some, OrderedDict.entries_update_nodup hnodup, hown]

theorem scanElements_stringify : ∀ (xs : List (JsJson N)), xs ≠ [] → WellFormedList xs →
    ∀ (gap level outer n : ℕ) (rest : List Char),
    (items gap level (stringifyList gap level xs)).length < n →
    scanElements n (items gap level (stringifyList gap level xs) ++
      (newline gap outer ++ ']' :: rest)) = some (xs, rest)
  | [], hne, _, _, _, _, _, _, _ => absurd rfl hne
  | x :: [], _, hv, gap, level, outer, n + 1, rest, hn => by
      rw [stringifyList, stringifyList, items_singleton] at hn ⊢
      have hx := scanValue_stringify x hv.1 gap level n _ (by omega)
        (ends_newline gap outer (ends_bracket rest))
      rw [scanElements, hx]
      simp only [Option.bind_eq_bind, Option.bind_some, skipBlank_newline,
        skipBlank_solid (c := ']') rfl]
  | x :: y :: ys, _, hv, gap, level, outer, n + 1, rest, hn => by
      have hne := stringifyList_ne gap level (List.cons_ne_nil y ys)
      rw [stringifyList, items_cons hne] at hn ⊢
      simp only [List.length_append, List.length_cons] at hn
      have hx := fun cs => scanValue_stringify x hv.1 gap level n _ (by omega) (ends_comma cs)
      have hys := scanElements_stringify (y :: ys) (List.cons_ne_nil y ys) hv.2 gap level outer n
        rest (by omega)
      obtain ⟨c, cs, hcs, hc⟩ := items_opens gap level (List.cons_ne_nil y ys)
      rw [hcs] at hys ⊢
      simp only [List.cons_append, List.append_assoc] at hys ⊢
      rw [scanElements, hx]
      simp only [Option.bind_eq_bind, Option.bind_some, skipBlank_solid (c := ',') rfl,
        skipBlank_newline, skipBlank_solid (opens_solid hc).1, hys]

theorem scanMembers_stringify : ∀ (kvs : List (String × JsJson N)), kvs ≠ [] →
    WellFormedFields kvs → ∀ (gap level outer n : ℕ) (rest : List Char),
    (items gap level (stringifyFields gap level kvs)).length < n →
    scanMembers n (items gap level (stringifyFields gap level kvs) ++
      (newline gap outer ++ '\x7d' :: rest)) = some (kvs, rest)
  | [], hne, _, _, _, _, _, _, _ => absurd rfl hne
  | (k, v) :: [], _, hv, gap, level, outer, n + 1, rest, hn => by
      rw [stringifyFields, stringifyFields, items_singleton] at hn ⊢
      simp only [List.length_append] at hn
      have hx := scanValue_stringify v hv.1 gap level n _ (by omega)
        (ends_newline gap outer (ends_brace rest))
      simp only [List.append_assoc]
      rw [scanMembers_key k hx, skipBlank_newline, skipBlank_solid rfl]
      rfl
  | (k, v) :: kv :: kvs, _, hv, gap, level, outer, n + 1, rest, hn => by
      have hne := stringifyFields_ne gap level (List.cons_ne_nil kv kvs)
      rw [stringifyFields, items_cons hne] at hn ⊢
      simp only [List.length_append, List.length_cons] at hn
      have hx := fun cs => scanValue_stringify v hv.1 gap level n _ (by omega) (ends_comma cs)
      have hkvs := scanMembers_stringify (kv :: kvs) (List.cons_ne_nil kv kvs) hv.2 gap level
        outer n rest (by omega)
      obtain ⟨cs, hcs⟩ := fields_open gap level (List.cons_ne_nil kv kvs)
      rw [hcs] at hkvs ⊢
      simp only [List.cons_append, List.append_assoc] at hkvs ⊢
      rw [scanMembers_key k (hx _), skipBlank_solid rfl]
      simp only [skipBlank_newline, skipBlank_solid (c := '\x22') rfl, hkvs, Option.bind_eq_bind,
        Option.bind_some]

end

theorem parse_stringify {v : JsJson N} (hv : v.WellFormed) (gap : ℕ) :
    parse (stringify gap 0 v) = some v := by
  have hskip := skipBlank_stringify gap 0 v []
  have hscan := scanValue_stringify v hv gap 0 (2 * (stringify gap 0 v).length + 2) []
    (by omega) ends_nil
  rw [List.append_nil] at hskip hscan
  rw [parse, hskip, hscan]
  rfl

end Values

section Ends
open JsonText
variable {gap level : ℕ}

-- What a value can end with.
def Closes (c : Char) : Prop := c ∈ ['l', 'e', '\x22', ']', '\x7d'] ∨ c.isDigit = true

theorem getLast?_digits {ds cs : List Char} (h : Digits ds) :
    ∀ c ∈ (cs ++ ds).getLast?, c.isDigit = true := by
  intro c hc
  rw [List.getLast?_append_of_ne_nil cs h.1] at hc
  exact h.2 c (List.mem_of_getLast? hc)

theorem number_closes (t : NumberText) : ∀ c ∈ t.chars.getLast?, c.isDigit = true := by
  have hwhole : ∀ c ∈ (t.sign ++ t.whole).getLast?, c.isDigit = true := getLast?_digits t.digits
  have hfrac : ∀ c ∈ (t.sign ++ t.whole ++ t.frac).getLast?, c.isDigit = true := by
    rcases t.fraction with h | ⟨ds, hds, h⟩
    · rwa [h, List.append_nil]
    · rw [h, ← List.concat_append]
      exact getLast?_digits hds
  rw [NumberText.chars]
  rcases t.exponent with h | ⟨sign, ds, -, hds, h⟩
  · rwa [h, List.append_nil]
  · rw [h, ← List.concat_append, ← List.concat_append]
    exact getLast?_digits hds

theorem block_closes {left right : Char} (texts : List (List Char)) :
    (block gap level left right texts).getLast? = some right := by
  rw [block]
  split
  · rfl
  · rw [← List.cons_append, List.getLast?_concat]

theorem stringify_closes (gap level : ℕ) (v : JsJson N) :
    ∀ c ∈ (stringify gap level v).getLast?, Closes c := by
  intro c hc
  cases v with
  | null => cases hc; exact Or.inl (by decide)
  | bool b => cases b <;> cases hc <;> exact Or.inl (by decide)
  | num n =>
      rw [stringify] at hc
      split at hc
      · next h =>
          obtain ⟨t, ht⟩ := N.literal n h
          rw [ht] at hc
          exact Or.inr (number_closes t c hc)
      · cases hc
        exact Or.inl (by decide)
  | str s =>
      rw [stringify, quote, ← List.cons_append, List.getLast?_concat] at hc
      cases hc
      exact Or.inl (by decide)
  | arr xs =>
      rw [stringify, block_closes] at hc
      cases hc
      exact Or.inl (by decide)
  | obj kvs =>
      rw [stringify, block_closes] at hc
      cases hc
      exact Or.inl (by decide)

end Ends

end JsJson

end BTagent
