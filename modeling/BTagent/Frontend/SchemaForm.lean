import BTagent.Data.JsJson
import BTagent.Frontend.PlaybookGraph
import BTagent.Lib.Regex

namespace BTagent

namespace SchemaForm

open PlaybookGraph (trim)

-- `others` holds the keywords that the form does not read.
structure JsonSchemaProperty (N : JsNumbers) where
  type : Option String
  title : Option String
  description : Option String
  default : Option (JsJson N)
  examples : Option (List (JsJson N))
  enum : Option (List (JsJson N))
  ref : Option String
  anyOf : Option (List (JsonSchemaProperty N))
  others : OrderedDict String (JsJson N)

structure JsonSchemaObject (N : JsNumbers) where
  properties : Option (OrderedDict String (JsonSchemaProperty N))
  required : Option (List String)
  defs : Option (OrderedDict String (JsonSchemaProperty N))

inductive FieldKind where
  | string
  | number
  | integer
  | boolean
  | enum
  | json
  deriving DecidableEq

structure SchemaField (N : JsNumbers) where
  name : String
  label : String
  description : String
  required : Bool
  kind : FieldKind
  enumOptions : Option (List (List Char))
  defaultValue : Option (JsJson N)
  example? : Option (List Char)

variable {N : JsNumbers}

-- `{ ...inner, ...outer }`
def spread (inner outer : JsonSchemaProperty N) : JsonSchemaProperty N where
  type := outer.type.or inner.type
  title := outer.title.or inner.title
  description := outer.description.or inner.description
  default := outer.default.or inner.default
  examples := outer.examples.or inner.examples
  enum := outer.enum.or inner.enum
  ref := outer.ref.or inner.ref
  anyOf := outer.anyOf.or inner.anyOf
  others := inner.others.update outer.others.entries

def stripRef (prop : JsonSchemaProperty N) : JsonSchemaProperty N := { prop with ref := none }

def isLineEnd (c : Char) : Bool := c.toNat ∈ [10, 13, 8232, 8233]

-- The name in a `#/$defs/` reference; a line end is no part of one.
def defName (ref : String) : Option String :=
  if "#/$defs/".toList.isPrefixOf ref.toList then
    let name := ref.toList.drop 8
    if name ≠ [] ∧ ¬ name.any isLineEnd then some (String.ofList name) else none
  else none

def definition (root : JsonSchemaObject N) (ref : String) : Option (JsonSchemaProperty N) := do
  let defs ← root.defs
  let name ← defName ref
  defs.get? name

def resolveRef (root : JsonSchemaObject N) (prop : JsonSchemaProperty N) : JsonSchemaProperty N :=
  match prop.ref with
  | none => prop
  | some ref =>
      if ref = "" then prop
      else
        match definition root ref with
        | some resolved => spread resolved (stripRef prop)
        | none => stripRef prop

def collapseNullableUnion (root : JsonSchemaObject N) (prop : JsonSchemaProperty N) :
    JsonSchemaProperty N :=
  match prop.anyOf with
  | none => prop
  | some branches =>
      match branches.filter fun b => b.type ≠ some "null" with
      | [only] => spread (resolveRef root only) { prop with anyOf := none }
      | _ => prop

def kindOf (prop : JsonSchemaProperty N) : FieldKind :=
  if prop.enum.isSome then .enum
  else if prop.type = some "string" then .string
  else if prop.type = some "integer" then .integer
  else if prop.type = some "number" then .number
  else if prop.type = some "boolean" then .boolean
  else .json

mutual

-- `String(value)`; an object with a key `toString` has none and raises.
def toText : JsJson N → Option (List Char)
  | .null => some "null".toList
  | .bool b => some (if b then "true" else "false").toList
  | .num n => some (N.text n)
  | .str s => some s.toList
  | .arr xs => (toTextList xs).map [','].intercalate
  | .obj kvs =>
      if "toString" ∈ kvs.map Prod.fst then none else some "[object Object]".toList

def toTextList : List (JsJson N) → Option (List (List Char))
  | [] => some []
  | .null :: xs => (toTextList xs).map fun texts => [] :: texts
  | x :: xs => do
      let text ← toText x
      let texts ← toTextList xs
      some (text :: texts)

end

def fieldOf (root : JsonSchemaObject N) (name : String) (rawProp : JsonSchemaProperty N) :
    Option (SchemaField N) := do
  let prop := collapseNullableUnion root (resolveRef root rawProp)
  let kind := kindOf prop
  let examples ← ((prop.examples.getD []).take 1).mapM toText
  let enumOptions ←
    (if kind = .enum then ((prop.enum.getD []).mapM toText).map some else some none)
  some
    { name := name
      label := (prop.title.filter (· ≠ "")).getD name
      description := prop.description.getD ""
      required := name ∈ root.required.getD []
      kind := kind
      enumOptions := enumOptions
      defaultValue := prop.default
      example? := examples.head? }

def extractFields (schema : Option (JsonSchemaObject N)) : Option (List (SchemaField N)) :=
  match schema with
  | none => some []
  | some root =>
      match root.properties with
      | none => some []
      | some props => props.entries.mapM fun kv => fieldOf root kv.1 kv.2

def valueToInput (value : Option (JsJson N)) (kind : FieldKind) : List Char :=
  match value with
  | none => []
  | some v =>
      if kind = .json then v.stringify 2 0
      else
        match v with
        | .str s => s.toList
        | v => v.stringify 0 0

def digit : Regex := .set Char.isDigit

def NUMERIC_RE : Regex :=
  .seq (.opt (.char '-'))
    (.seq
      (.alt (.seq (.plus digit) (.seq (.opt (.char '.')) (.star digit)))
        (.seq (.char '.') (.plus digit)))
      (.opt (.seq (.set fun c => c = 'e' ∨ c = 'E')
        (.seq (.opt (.set fun c => c = '+' ∨ c = '-')) (.plus digit)))))

def isNumeric (text : List Char) : Bool := Regex.fullmatch (fun _ => false) NUMERIC_RE text

inductive CoerceResult (N : JsNumbers) where
  | remove
  | value (v : JsJson N)
  | error (message : String)

def coerceInput (kind : FieldKind) (raw : List Char) : CoerceResult N :=
  let text := trim raw
  if text = [] then .remove
  else
    match kind with
    | .string | .enum => .value (.str (String.ofList raw))
    | .integer | .number =>
        if isNumeric text then .value (.num (N.number text)) else .value (.str (String.ofList raw))
    | .boolean =>
        if text = "true".toList then .value (.bool true)
        else if text = "false".toList then .value (.bool false)
        else .value (.str (String.ofList raw))
    | .json =>
        match JsJson.parse text with
        | some v => .value v
        | none => .error "invalid JSON"

def applyFieldInput (config : OrderedDict String (JsJson N)) (field : SchemaField N)
    (raw : List Char) : Option (OrderedDict String (JsJson N)) :=
  match coerceInput field.kind raw with
  | .error _ => none
  | .remove => some (config.filterKeys (· ≠ field.name))
  | .value v => some (config.set field.name v)

end SchemaForm

end BTagent
