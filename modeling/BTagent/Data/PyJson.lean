import BTagent.Data.CharTable
import BTagent.Data.IpAddress
import BTagent.Data.JsonText

namespace BTagent

-- The tables and the float conversion of the interpreter: `floatRepr` is `repr(float(text))`.
structure Python where
  chars : CharTable
  isPrintable : Char → Bool
  floatRepr : String → String

namespace Python

def hexDigits (width n : ℕ) : List Char :=
  let digits := Nat.toDigits 16 n
  List.replicate (width - digits.length) '0' ++ digits

def reprChar (P : Python) (quote c : Char) : List Char :=
  if c = quote ∨ c = '\\' then ['\\', c]
  else if c = '\n' then ['\\', 'n']
  else if c = '\r' then ['\\', 'r']
  else if c = '\t' then ['\\', 't']
  else if c.toNat < 32 ∨ c.toNat = 127 then '\\' :: 'x' :: hexDigits 2 c.toNat
  else if c.toNat < 127 ∨ P.isPrintable c then [c]
  else if c.toNat < 256 then '\\' :: 'x' :: hexDigits 2 c.toNat
  else if c.toNat < 65536 then '\\' :: 'u' :: hexDigits 4 c.toNat
  else '\\' :: 'U' :: hexDigits 8 c.toNat

def reprStr (P : Python) (s : String) : String :=
  let cs := s.toList
  let quote := if '\x27' ∈ cs ∧ '\x22' ∉ cs then '\x22' else '\x27'
  String.ofList (quote :: (cs.flatMap (P.reprChar quote) ++ [quote]))

mutual

def repr (P : Python) : Json → String
  | .null => "None"
  | .bool b => if b then "True" else "False"
  | .int n => toString n
  | .float r => r
  | .str s => P.reprStr s
  | .arr xs => "[" ++ ", ".intercalate (P.reprList xs) ++ "]"
  | .obj kvs => "\x7b" ++ ", ".intercalate (P.reprFields kvs) ++ "\x7d"

def reprList (P : Python) : List Json → List String
  | [] => []
  | x :: xs => P.repr x :: P.reprList xs

def reprFields (P : Python) : List (String × Json) → List String
  | [] => []
  | (k, v) :: kvs => (P.reprStr k ++ ": " ++ P.repr v) :: P.reprFields kvs

end

def str (P : Python) : Json → String
  | .str s => s
  | x => P.repr x

def truth : Json → Bool
  | .null => false
  | .bool b => b
  | .int n => n ≠ 0
  | .float r => r ≠ "0.0" ∧ r ≠ "-0.0"
  | .str s => s ≠ ""
  | .arr xs => ¬ xs.isEmpty
  | .obj kvs => ¬ kvs.isEmpty

-- `len(x)`; a number or None has none.
def len : Json → Option ℕ
  | .str s => some s.length
  | .arr xs => some xs.length
  | .obj kvs => some kvs.length
  | _ => none

end Python

namespace JsonText

-- `json.loads`: a scanner gives the value and what is left of the text.
abbrev Scan (α : Type) := List Char → Option (α × List Char)

def isBlank (c : Char) : Bool := c = ' ' ∨ c = '\t' ∨ c = '\n' ∨ c = '\r'

def skipBlank (cs : List Char) : List Char := cs.dropWhile isBlank

def simpleEscape : Char → Option Char
  | '\x22' => some '\x22'
  | '\\' => some '\\'
  | '/' => some '/'
  | 'b' => some '\x08'
  | 'f' => some '\x0c'
  | 'n' => some '\n'
  | 'r' => some '\r'
  | 't' => some '\t'
  | _ => none

def hexQuad : Scan ℕ
  | a :: b :: c :: d :: cs =>
      if [a, b, c, d].all Ipv6.isHex then some (Ipv6.hexadecimal [a, b, c, d], cs) else none
  | _ => none

-- The low half of a surrogate pair, where it follows.
def lowSurrogate : Scan ℕ
  | '\\' :: 'u' :: cs => (hexQuad cs).filter fun low => 56320 ≤ low.1 ∧ low.1 < 57344
  | _ => none

-- A half that stands alone is read as U+FFFD.
def unicodeChar (cs : List Char) : Option (Char × List Char) := do
  let (code, cs) ← hexQuad cs
  if 55296 ≤ code ∧ code < 56320 then
    match lowSurrogate cs with
    | some (low, cs) => some (Char.ofNat (65536 + (code - 55296) * 1024 + (low - 56320)), cs)
    | none => some (Char.ofNat 65533, cs)
  else if 56320 ≤ code ∧ code < 57344 then some (Char.ofNat 65533, cs)
  else some (Char.ofNat code, cs)

def stringBody : ℕ → Scan (List Char)
  | 0, _ => none
  | n + 1, cs =>
      match cs with
      | '\x22' :: cs => some ([], cs)
      | '\\' :: 'u' :: cs => do
          let (c, cs) ← unicodeChar cs
          let (body, cs) ← stringBody n cs
          some (c :: body, cs)
      | '\\' :: c :: cs => do
          let c ← simpleEscape c
          let (body, cs) ← stringBody n cs
          some (c :: body, cs)
      | c :: cs =>
          if c.toNat < 32 then none
          else do
            let (body, cs) ← stringBody n cs
            some (c :: body, cs)
      | [] => none

def scanString (cs : List Char) : Option (String × List Char) :=
  (stringBody (cs.length + 1) cs).map fun body => (String.ofList body.1, body.2)

def integerPart : Scan (List Char)
  | '0' :: cs => some (['0'], cs)
  | cs =>
      let digits := cs.takeWhile Char.isDigit
      if digits.isEmpty then none else some (digits, cs.dropWhile Char.isDigit)

def fraction : List Char → List Char × List Char
  | '.' :: cs =>
      let digits := cs.takeWhile Char.isDigit
      if digits.isEmpty then ([], '.' :: cs) else ('.' :: digits, cs.dropWhile Char.isDigit)
  | cs => ([], cs)

def exponentSign : List Char → List Char × List Char
  | '+' :: cs => (['+'], cs)
  | '-' :: cs => (['-'], cs)
  | cs => ([], cs)

def exponent : List Char → List Char × List Char
  | c :: cs =>
      if c = 'e' ∨ c = 'E' then
        let (sign, digits) := exponentSign cs
        let power := digits.takeWhile Char.isDigit
        if power.isEmpty then ([], c :: cs)
        else (c :: (sign ++ power), digits.dropWhile Char.isDigit)
      else ([], c :: cs)
  | [] => ([], [])

def minus : List Char → List Char × List Char
  | '-' :: cs => (['-'], cs)
  | cs => ([], cs)

def number (P : Python) (cs : List Char) : Option (Json × List Char) := do
  let (sign, cs) := minus cs
  let (whole, cs) ← integerPart cs
  let (frac, cs) := fraction cs
  let (power, cs) := exponent cs
  if frac.isEmpty ∧ power.isEmpty then
    let n : ℤ := BTagent.decimal whole
    some (.int (if sign.isEmpty then n else -n), cs)
  else some (.float (P.floatRepr (String.ofList (sign ++ whole ++ frac ++ power))), cs)

def constants : List (String × Json) :=
  [("null", .null), ("true", .bool true), ("false", .bool false), ("NaN", .float "nan"),
    ("Infinity", .float "inf"), ("-Infinity", .float "-inf")]

def scalar (P : Python) (cs : List Char) : Option (Json × List Char) :=
  match constants.find? fun kv => kv.1.toList.isPrefixOf cs with
  | some kv => some (kv.2, cs.drop kv.1.length)
  | none => number P cs

mutual

def scanValue (P : Python) : ℕ → Scan Json
  | 0, _ => none
  | n + 1, cs =>
      match cs with
      | '\x22' :: cs => (scanString cs).map fun s => (.str s.1, s.2)
      | '[' :: cs =>
          match skipBlank cs with
          | ']' :: cs => some (.arr [], cs)
          | cs => (scanElements P n cs).map fun xs => (.arr xs.1, xs.2)
      | '\x7b' :: cs =>
          match skipBlank cs with
          | '\x7d' :: cs => some (.obj [], cs)
          | cs => (scanMembers P n cs).map fun kvs =>
              (.obj (OrderedDict.empty.update kvs.1).entries, kvs.2)
      | cs => scalar P cs

def scanElements (P : Python) : ℕ → Scan (List Json)
  | 0, _ => none
  | n + 1, cs => do
      let (x, cs) ← scanValue P n cs
      match skipBlank cs with
      | ',' :: cs => do
          let (xs, cs) ← scanElements P n (skipBlank cs)
          some (x :: xs, cs)
      | ']' :: cs => some ([x], cs)
      | _ => none

def scanMembers (P : Python) : ℕ → Scan (List (String × Json))
  | 0, _ => none
  | n + 1, cs =>
      match cs with
      | '\x22' :: cs => do
          let (key, cs) ← scanString cs
          match skipBlank cs with
          | ':' :: cs => do
              let (x, cs) ← scanValue P n (skipBlank cs)
              match skipBlank cs with
              | ',' :: cs => do
                  let (kvs, cs) ← scanMembers P n (skipBlank cs)
                  some ((key, x) :: kvs, cs)
              | '\x7d' :: cs => some ([(key, x)], cs)
              | _ => none
          | _ => none
      | _ => none

end

def loads (P : Python) (text : String) : Option Json := do
  let cs := text.toList
  let (x, cs) ← scanValue P (2 * cs.length + 2) (skipBlank cs)
  if (skipBlank cs).isEmpty then some x else none

def pythonStyle : JsonStyle := ⟨", ", ": ", true, false⟩

def newline (level : ℕ) : String := "\n" ++ String.ofList (List.replicate (2 * level) ' ')

def block (level : ℕ) (left right : String) (items : List String) : String :=
  if items.isEmpty then left ++ right
  else left ++ newline (level + 1) ++ ("," ++ newline (level + 1)).intercalate items ++
    newline level ++ right

mutual

-- `json.dumps(x, indent=2)`
def dumpsIndented (level : ℕ) : Json → String
  | .arr xs => block level "[" "]" (dumpsIndentedList (level + 1) xs)
  | .obj kvs => block level "\x7b" "\x7d" (dumpsIndentedFields (level + 1) kvs)
  | x => dumps pythonStyle x

def dumpsIndentedList (level : ℕ) : List Json → List String
  | [] => []
  | x :: xs => dumpsIndented level x :: dumpsIndentedList level xs

def dumpsIndentedFields (level : ℕ) : List (String × Json) → List String
  | [] => []
  | (k, v) :: kvs =>
      (quote pythonStyle k ++ ": " ++ dumpsIndented level v) :: dumpsIndentedFields level kvs

end

end JsonText

end BTagent
