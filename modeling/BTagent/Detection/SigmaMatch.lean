import BTagent.Data.CharTable
import BTagent.Data.PyJson
import BTagent.Lib.OrderedDict
import BTagent.Lib.Quoted
import BTagent.Lib.Regex
import Mathlib.Data.Rat.Defs

namespace BTagent

-- The results of the named detections of a rule.
abbrev DetectionResults := OrderedDict String Bool

-- What is left of a list of tokens after some have been read.
abbrev Rest (ts : List String) := { rest : List String // rest.length ≤ ts.length }

namespace SigmaCondition

variable (T : CharTable)

def isWordChar (c : Char) : Bool := !T.isSpace c && c != '(' && c != ')'

-- `\(|\)|[^\s()]+`
def condToken : Regex :=
  .alt (.char '(') (.alt (.char ')') (.plus (.set (isWordChar T))))

def tokens (condition : String) : List String :=
  (Regex.finditer T.isWord (condToken T) (T.strip condition).toList).map String.ofList

-- `re.escape(pattern)` with `.*` for each escaped star, under IGNORECASE.
def selectorRegex : List Char → Regex
  | [] => .sets []
  | c :: pattern =>
      .seq (if c = '*' then .star (.set (· != '\n')) else .set (T.sameLetter c))
        (selectorRegex pattern)

-- `$` holds at the end and before a newline at the end.
def regexMatch (pattern name : String) : Bool :=
  (Regex.splits T.isWord (selectorRegex T pattern.toList) none name.toList).any fun m =>
    m.2 = [] ∨ m.2 = ['\n']

def selectorMatches (pattern : String) (keys : List String) : List String :=
  if T.lower pattern = "them" then keys else keys.filter (regexMatch T pattern)

variable (results : DetectionResults)

def lookup (name : String) : Bool := (results.get? name).getD false

def quantified (word pattern : String) : Bool :=
  let matched := selectorMatches T pattern results.keys
  if T.lower word = "all" then !matched.isEmpty && matched.all (lookup results)
  else matched.any (lookup results)

def quantifiers : List String := ["1", "all", "any"]

mutual

def parseOr (ts : List String) : Bool × Rest ts :=
  match parseAnd ts with
  | (val, ⟨rest, hrest⟩) =>
      match orLoop val rest with
      | (val, ⟨rest', hrest'⟩) => (val, ⟨rest', hrest'.trans hrest⟩)
termination_by 3 * ts.length + 2

def orLoop (val : Bool) (ts : List String) : Bool × Rest ts :=
  match ts with
  | [] => (val, ⟨[], le_refl _⟩)
  | tok :: ts =>
      if T.lower tok = "or" then
        match parseAnd ts with
        | (right, ⟨rest, hrest⟩) =>
            match orLoop (val || right) rest with
            | (val, ⟨rest', hrest'⟩) => (val, ⟨rest', (hrest'.trans hrest).trans (Nat.le_succ _)⟩)
      else (val, ⟨tok :: ts, le_refl _⟩)
termination_by 3 * ts.length

def parseAnd (ts : List String) : Bool × Rest ts :=
  match parseUnary ts with
  | (val, ⟨rest, hrest⟩) =>
      match andLoop val rest with
      | (val, ⟨rest', hrest'⟩) => (val, ⟨rest', hrest'.trans hrest⟩)
termination_by 3 * ts.length + 1

def andLoop (val : Bool) (ts : List String) : Bool × Rest ts :=
  match ts with
  | [] => (val, ⟨[], le_refl _⟩)
  | tok :: ts =>
      if T.lower tok = "and" then
        match parseUnary ts with
        | (right, ⟨rest, hrest⟩) =>
            match andLoop (val && right) rest with
            | (val, ⟨rest', hrest'⟩) => (val, ⟨rest', (hrest'.trans hrest).trans (Nat.le_succ _)⟩)
      else (val, ⟨tok :: ts, le_refl _⟩)
termination_by 3 * ts.length

def parseUnary (ts : List String) : Bool × Rest ts :=
  match ts with
  | [] => (false, ⟨[], le_refl _⟩)
  | tok :: ts =>
      if T.lower tok = "not" then
        match parseUnary ts with
        | (val, ⟨rest, hrest⟩) => (!val, ⟨rest, hrest.trans (Nat.le_succ _)⟩)
      else if tok = "(" then
        match parseOr ts with
        | (val, ⟨rest, hrest⟩) =>
            match rest, hrest with
            | ")" :: rest', hrest => (val, ⟨rest', (Nat.le_of_succ_le hrest).trans (Nat.le_succ _)⟩)
            | rest, hrest => (val, ⟨rest, hrest.trans (Nat.le_succ _)⟩)
      else
        match ts with
        | word :: pattern :: rest =>
            if T.lower tok ∈ quantifiers ∧ T.lower word = "of" then
              (quantified T results tok pattern,
                ⟨rest, (Nat.le_succ _).trans ((Nat.le_succ _).trans (Nat.le_succ _))⟩)
            else (lookup results tok, ⟨word :: pattern :: rest, Nat.le_succ _⟩)
        | rest => (lookup results tok, ⟨rest, Nat.le_succ _⟩)
termination_by 3 * ts.length

end

def evaluateCondition (condition : String) : Bool := (parseOr T results (tokens T condition)).1

end SigmaCondition

-- The parts of a `SigmaString`.
inductive StringPart where
  | text (s : String)
  | multi
  | single
  deriving DecidableEq

-- A number is what its int or float stands for; the flags of a regular expression are in its text.
inductive SigmaValue where
  | string (parts : List StringPart)
  | number (q : ℚ)
  | bool (b : Bool)
  | null
  | regex (pattern : String)
  deriving DecidableEq

inductive SigmaModifier where
  | contains
  | startswith
  | endswith
  | all
  | re
  | other (name : String)
  deriving DecidableEq

-- The modifiers have been applied to the values: `contains` has put wildcards around a string and
-- `re` has made an expression of it.
structure DetectionItem where
  field : Option String
  modifiers : List SigmaModifier
  values : List SigmaValue
  nonempty : values ≠ []

inductive ItemLinking where
  | or
  | and
  deriving DecidableEq

inductive SigmaDetection where
  | item (i : DetectionItem)
  | group (linking : ItemLinking) (members : List SigmaDetection)

-- The interpreter with the value of a float's text, of a decimal digit, and `re.search`. No star
-- changes how the letters next to it are lowered.
structure SigmaPython extends Python where
  floatValue : String → ℚ
  digitValue : Char → ℕ
  search : String → String → Bool
  lower_star_left : ∀ s, chars.lower ("*" ++ s) = "*" ++ chars.lower s
  lower_star_right : ∀ s, chars.lower (s ++ "*") = chars.lower s ++ "*"

namespace SigmaMatch

def StringPart.plain : StringPart → String
  | .text s => s
  | .multi => "*"
  | .single => "?"

-- `to_plain`
def toPlain : List StringPart → String
  | [] => ""
  | p :: ps => StringPart.plain p ++ toPlain ps

variable (P : SigmaPython)

def lowered (s : String) : List Char := (P.chars.lower s).toList

-- `_as_bool`
def asBool : Json → Option Bool
  | .bool b => some b
  | .str s =>
      let word := P.chars.lower (P.chars.strip s)
      if word = "true" then some true else if word = "false" then some false else none
  | .int n => if n = 0 then some false else if n = 1 then some true else none
  | _ => none

def unsigned (cs : List Char) : Option ℕ :=
  let groups := cs.splitOn '_'
  if (∀ g ∈ groups, g ≠ [] ∧ g.all P.chars.isDigit) ∧ groups.flatten.length ≤ 4300 then
    some (groups.flatten.foldl (fun n c => n * 10 + P.digitValue c) 0)
  else none

-- `int` of a text
def readInt (s : String) : Option ℤ :=
  match (P.chars.strip s).toList with
  | '-' :: cs => (unsigned P cs).map fun n => -(n : ℤ)
  | '+' :: cs => (unsigned P cs).map fun n => (n : ℤ)
  | cs => (unsigned P cs).map fun n => (n : ℤ)

def truncate (q : ℚ) : ℤ := q.num.tdiv q.den

-- `int(x)`, where it raises nothing.
def intOf : Json → Option ℤ
  | .bool b => some (if b then 1 else 0)
  | .int n => some n
  | .float r => some (truncate (P.floatValue r))
  | .str s => readInt P s
  | _ => none

def isStar (c : Char) : Bool := c == '*'

def stringMatches (modifiers : List SigmaModifier) (plain field : List Char) : Bool :=
  let starts := plain.head? = some '*'
  let ends := plain.getLast? = some '*'
  if .endswith ∈ modifiers ∨ (starts ∧ ¬ ends) then plain.dropWhile isStar <:+ field
  else if .startswith ∈ modifiers ∨ (ends ∧ ¬ starts) then plain.rdropWhile isStar <+: field
  else if .contains ∈ modifiers ∨ (starts ∧ ends) then Quoted.stripBy isStar plain <:+: field
  else field = plain

-- `_sigma_value_matches_event_field`
def valueMatches (modifiers : List SigmaModifier) (field : Json) : SigmaValue → Bool
  | .bool b => asBool P field = some b
  | .number q => intOf P field = some (truncate q)
  | .string parts => stringMatches modifiers (lowered P (toPlain parts)) (lowered P (P.str field))
  | .null => false
  | .regex _ => false

variable (event : Dict)

-- `event.get(field)` where it is not None.
def present (field : String) : Option Json :=
  match event.get? field with
  | some .null => none
  | found => found

def matchDetectionItem (item : DetectionItem) : Bool :=
  match item.field with
  | none => false
  | some field =>
      match present event field with
      | none => false
      | some x => item.values.any (valueMatches P item.modifiers x)

mutual

def matchDetection : SigmaDetection → Bool
  | .item i => matchDetectionItem P event i
  | .group _ [] => false
  | .group .or (m :: members) => anyMatches (m :: members)
  | .group .and (m :: members) => allMatch (m :: members)

def anyMatches : List SigmaDetection → Bool
  | [] => false
  | m :: members => matchDetection m || anyMatches members

def allMatch : List SigmaDetection → Bool
  | [] => true
  | m :: members => matchDetection m && allMatch members

end

end SigmaMatch

end BTagent
