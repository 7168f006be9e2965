import BTagent.Lib.OrderedDict

namespace BTagent

inductive Scalar where
  | str (s : String)
  | int (n : Int)
  | float (repr : String)
  deriving DecidableEq

-- `str`
def Scalar.text : Scalar → String
  | str s => s
  | int n => toString n
  | float r => r

inductive Operator where
  | EQ
  | NE
  | CONTAINS
  | STARTSWITH
  | ENDSWITH
  | GT
  | LT
  | GTE
  | LTE
  | IN
  | REGEX
  deriving DecidableEq

inductive LogicOp where
  | AND
  | OR
  deriving DecidableEq

inductive QueryValue where
  | one (s : Scalar)
  | many (xs : List String)
  deriving DecidableEq

-- A field is a canonical name: a pipe is what the target languages put after one. A list is only
-- valid with IN.
structure QueryCondition where
  field : String
  op : Operator
  value : QueryValue
  canonical : '|' ∉ field.toList
  listed : ∀ xs, value = .many xs → op = .IN

structure QueryIR where
  title : String
  dataSource : String
  conditions : List QueryCondition
  logic : LogicOp
  timeWindowHours : Option ℕ
  limit : Option ℕ

-- What a term of a search compares a field by.
inductive Relation where
  | eq
  | contains
  | startswith
  | endswith
  | gt
  | lt
  | gte
  | lte
  | regex
  deriving DecidableEq

def Operator.relation : Operator → Relation
  | EQ | NE | IN => .eq
  | CONTAINS => .contains
  | STARTSWITH => .startswith
  | ENDSWITH => .endswith
  | GT => .gt
  | LT => .lt
  | GTE => .gte
  | LTE => .lte
  | REGEX => .regex

structure FieldTest where
  field : String
  relation : Relation
  value : Scalar
  deriving DecidableEq

def QueryValue.values : QueryValue → List Scalar
  | one s => [s]
  | many xs => xs.map .str

def orEmpty (hours : Option ℕ) (f : ℕ → String) : String :=
  match hours with
  | none => ""
  | some 0 => ""
  | some n => f n

section Splunk

inductive SplunkTerm where
  | test (t : FieldTest)
  | unequal (field : String) (value : Scalar)
  | anyOf (field : String) (values : List Scalar)

def escapeQuoted (c : Char) : List Char :=
  if c = '\\' then ['\\', '\\'] else if c = '\x22' then ['\\', '\x22'] else [c]

-- `_q`
def quoted : Scalar → String
  | .str s => "\x22" ++ String.ofList (s.toList.flatMap escapeQuoted) ++ "\x22"
  | .int n => toString n
  | .float r => r

def FieldTest.splunkText (t : FieldTest) : String :=
  match t.relation with
  | .eq => t.field ++ "=" ++ quoted t.value
  | .contains => t.field ++ "=\x22*" ++ t.value.text ++ "*\x22"
  | .startswith => t.field ++ "=\x22" ++ t.value.text ++ "*\x22"
  | .endswith => t.field ++ "=\x22*" ++ t.value.text ++ "\x22"
  | .gt => t.field ++ ">" ++ t.value.text
  | .lt => t.field ++ "<" ++ t.value.text
  | .gte => t.field ++ ">=" ++ t.value.text
  | .lte => t.field ++ "<=" ++ t.value.text
  | .regex => "| regex " ++ t.field ++ "=\x22" ++ t.value.text ++ "\x22"

def SplunkTerm.text : SplunkTerm → String
  | test t => t.splunkText
  | unequal field value => field ++ "!=" ++ quoted value
  | anyOf field values =>
      "(" ++ " OR ".intercalate (values.map fun x => field ++ "=" ++ quoted x) ++ ")"

-- `_splunk_cond`; only under IN can the value be a list.
def splunkCond (c : QueryCondition) : SplunkTerm :=
  match c.op, c.value with
  | .IN, value => .anyOf c.field value.values
  | .NE, .one v => .unequal c.field v
  | op, .one v => .test ⟨c.field, op.relation, v⟩
  | _, .many xs => .anyOf c.field (xs.map .str)

structure SplunkSearch where
  index : String
  terms : List SplunkTerm
  logic : LogicOp
  earliest : Option ℕ
  filters : List SplunkTerm
  head : Option ℕ

def join (conds : List String) (logic : LogicOp) (sepAnd sepOr : String) : String :=
  (if logic = .AND then sepAnd else sepOr).intercalate conds

def SplunkSearch.text (s : SplunkSearch) : String :=
  let parts := ["index=" ++ s.index] ++
    if s.terms = [] then [] else [join (s.terms.map SplunkTerm.text) s.logic " " " OR "]
  " ".intercalate parts ++ orEmpty s.earliest (fun hours => " earliest=-" ++ toString hours ++ "h") ++
    String.join (s.filters.map fun r => " " ++ r.text) ++
      orEmpty s.head fun limit => " | head " ++ toString limit

def splunkSearch (ir : QueryIR) : SplunkSearch where
  index := ir.dataSource
  terms := (ir.conditions.filter fun c => c.op ≠ .REGEX).map splunkCond
  logic := ir.logic
  earliest := ir.timeWindowHours
  filters := (ir.conditions.filter fun c => c.op = .REGEX).map splunkCond
  head := ir.limit

def renderSplunk (ir : QueryIR) : String := (splunkSearch ir).text

end Splunk

section Sigma

def sigmaModifier : Operator → String
  | .CONTAINS => "|contains"
  | .STARTSWITH => "|startswith"
  | .ENDSWITH => "|endswith"
  | .REGEX => "|re"
  | .GT => "|gt"
  | .LT => "|lt"
  | .GTE => "|gte"
  | .LTE => "|lte"
  | .EQ | .NE | .IN => ""

def sigmaKey (c : QueryCondition) : String := c.field ++ sigmaModifier c.op

-- `_sigma_sq`
def singleQuoted (s : String) : String :=
  "'" ++ String.ofList (s.toList.flatMap fun c => if c = '\'' then ['\'', '\''] else [c]) ++ "'"

-- `_sigma_value`
def sigmaValue : QueryValue → String
  | .many xs => "[" ++ ", ".intercalate (xs.map singleQuoted) ++ "]"
  | .one (.str s) => singleQuoted s
  | .one v => v.text

inductive SigmaCondition where
  | identifier (name : String)
  | oneOf (stem : String)

def SigmaCondition.text : SigmaCondition → String
  | identifier name => name
  | oneOf stem => "1 of " ++ stem ++ "*"

abbrev SigmaItems := List (String × QueryValue)

structure SigmaRule where
  title : String
  category : String
  detection : List (String × SigmaItems)
  condition : SigmaCondition

def sigmaLines (selection : String × SigmaItems) : List String :=
  ("  " ++ selection.1 ++ ":") ::
    selection.2.map fun kv => "    " ++ kv.1 ++ ": " ++ sigmaValue kv.2

def SigmaRule.text (rule : SigmaRule) : String :=
  "\n".intercalate (["title: " ++ rule.title, "logsource:", "  category: " ++ rule.category,
    "detection:"] ++ rule.detection.flatMap sigmaLines ++ ["  condition: " ++ rule.condition.text])

def selectionName (i : ℕ) : String := "sel_" ++ toString i

def sigmaRule (ir : QueryIR) : SigmaRule where
  title := ir.title
  category := ir.dataSource
  detection :=
    match ir.logic with
    | .AND => [("selection", ir.conditions.map fun c => (sigmaKey c, c.value))]
    | .OR => ir.conditions.mapIdx fun i c => (selectionName i, [(sigmaKey c, c.value)])
  condition :=
    match ir.logic with
    | .AND => .identifier "selection"
    | .OR => .oneOf "sel_"

def renderSigma (ir : QueryIR) : String := (sigmaRule ir).text

end Sigma

end BTagent
