import BTagent.Lib.OrderedDict

namespace BTagent

-- Plain JSON data. A float is kept as the text Python's `repr` prints for it.
inductive Json where
  | null
  | bool (b : Bool)
  | int (n : Int)
  | float (repr : String)
  | str (s : String)
  | arr (xs : List Json)
  | obj (kvs : List (String × Json))
  deriving Repr, BEq

-- What `yaml.safe_load` returns: mappings may have any scalar key.
inductive Yaml where
  | null
  | bool (b : Bool)
  | int (n : Int)
  | float (repr : String)
  | str (s : String)
  | timestamp (iso : String)
  | binary (text : String)
  | seq (xs : List Yaml)
  | map (kvs : List (Yaml × Yaml))
  | set (xs : List Yaml)
  deriving Repr

abbrev Dict := OrderedDict String Json

namespace Yaml

-- The text pydantic gives a non-string key when it dumps in JSON mode.
def keyText : Yaml → String
  | null => "None"
  | bool b => if b then "true" else "false"
  | int n => toString n
  | float r => r
  | str s => s
  | timestamp iso => iso
  | binary t => t
  | _ => ""

mutual

-- `model_dump(mode="json")` on an untyped value.
def toJson : Yaml → Json
  | null => .null
  | bool b => .bool b
  | int n => .int n
  | float r => .float r
  | str s => .str s
  | timestamp iso => .str iso
  | binary t => .str t
  | seq xs => .arr (toJsonList xs)
  | map kvs => .obj (toJsonFields kvs)
  | set xs => .arr (toJsonList xs)

def toJsonList : List Yaml → List Json
  | [] => []
  | x :: xs => toJson x :: toJsonList xs

def toJsonFields : List (Yaml × Yaml) → List (String × Json)
  | [] => []
  | kv :: kvs => (keyText kv.1, toJson kv.2) :: toJsonFields kvs

end

def lookup (k : String) : List (Yaml × Yaml) → Option Yaml
  | [] => none
  | (str s, v) :: kvs => if s = k then some v else lookup k kvs
  | _ :: kvs => lookup k kvs

-- Keys outside an allowlist; a key that is no string is never in one.
def unknownKeys (allowed : List String) (kvs : List (Yaml × Yaml)) : List String :=
  kvs.filterMap fun kv =>
    match kv.1 with
    | str s => if s ∈ allowed then none else some s
    | k => some (keyText k)

def pairOf : Yaml → Option (Yaml × Yaml)
  | seq [k, v] => some (k, v)
  | set [k, v] => some (k, v)
  | map [(k, _), (k', _)] => some (k, k')
  | str s =>
      match s.toList with
      | [a, b] => some (str (String.ofList [a]), str (String.ofList [b]))
      | _ => none
  | _ => none

def strField : Yaml × Yaml → Option (String × Yaml)
  | (str s, v) => some (s, v)
  | _ => none

def hashable : Yaml → Bool
  | seq _ | map _ | set _ => false
  | _ => true

-- The pairs Python's `dict(x)` reads, or `none` where it raises.
def dictPairs : Yaml → Option (List (Yaml × Yaml))
  | map kvs => some kvs
  | seq xs | set xs => (xs.mapM pairOf).filter fun kvs => kvs.all fun kv => hashable kv.1
  | str s => if s = "" then some [] else none
  | binary t => if t = "" then some [] else none
  | _ => none

-- `dict(x)` validated as `dict[str, Any]`.
def strDict (y : Yaml) : Option (OrderedDict String Yaml) :=
  (dictPairs y).bind fun kvs => (kvs.mapM strField).map OrderedDict.empty.update

end Yaml

end BTagent
