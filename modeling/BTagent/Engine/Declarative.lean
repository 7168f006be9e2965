import BTagent.Data.PyJson

namespace BTagent

inductive PaginationStyle where
  | NONE
  | CURSOR
  | PAGE
  | OFFSET
  deriving DecidableEq

structure PaginationSpec where
  style : PaginationStyle
  itemsPath : Option String
  itemsKey : String
  cursorParam : Option String
  cursorPath : Option String
  pageParam : Option String
  offsetParam : Option String
  limitParam : Option String
  pageSize : Option ℕ
  startPage : ℕ
  maxPages : ℕ
  maxPages_pos : 1 ≤ maxPages

structure ResponseMapping where
  root : Option String
  fields : OrderedDict String String
  constants : Dict
  notFoundStatuses : List ℤ
  notFoundOutput : Dict

-- What the loop reads of a routing spec; `queryParams` are the names declared at the query.
structure RoutingSpec where
  queryParams : List String
  pagination : PaginationSpec
  response : ResponseMapping

structure HTTPResponse where
  statusCode : ℤ
  jsonBody : Json

inductive ConnectorError where
  | config (clash : List String)
  | transport
  | http (statusCode : ℤ)
  | typeError

namespace Declarative

structure Segment where
  key : List Char
  project : Bool

def segmentOf (text : List Char) : Segment :=
  if ['[', '*', ']'] <:+ text then ⟨text.take (text.length - 3), true⟩ else ⟨text, false⟩

def isIndex (key : List Char) : Bool := key ≠ [] ∧ ∀ c ∈ key, c.isDigit = true

def indexOf (key : List Char) : ℕ := key.foldl (fun n c => 10 * n + (c.toNat - 48)) 0

def child (key : List Char) : Json → Option Json
  | .obj kvs => OrderedDict.find (String.ofList key) kvs
  | .arr xs => if isIndex key then xs[indexOf key]? else none
  | _ => none

def isNone : Json → Bool
  | .null => true
  | _ => false

-- `_walk`; a missing segment gives None, as a null value does.
def walk : List Segment → Json → Json
  | [], node => node
  | segment :: rest, node =>
      match child segment.key node with
      | none => .null
      | some value =>
          if segment.project then
            match value with
            | .arr xs => .arr ((xs.map (walk rest)).filter fun got => !isNone got)
            | _ => .null
          else walk rest value

def extractPath (data : Json) (path : String) : Json :=
  if path = "" then data else walk ((path.toList.splitOn '.').map segmentOf) data

-- `str(..)` of an optional name
def nameOf (name : Option String) : String := name.getD "None"

def apply (mapping : ResponseMapping) (body : Json) : Dict :=
  let scope := match mapping.root with
    | some root => if root = "" then body else extractPath body root
    | none => body
  mapping.fields.entries.foldl (fun mapped field =>
    let value := extractPath scope field.2
    if isNone value then mapped else mapped.set field.1 value) mapping.constants

-- The declared query parameters that a pagination parameter would overwrite.
def clash (spec : RoutingSpec) : List String :=
  let p := spec.pagination
  let controlParams := [p.cursorParam, p.pageParam, p.offsetParam, p.limitParam].filterMap
    fun name => name.filter (· ≠ "")
  if p.style = .NONE then [] else spec.queryParams.filter (· ∈ controlParams)

def firstQuery (p : PaginationSpec) : Dict :=
  let start := match p.style with
    | .PAGE => OrderedDict.empty.set (nameOf p.pageParam) (.int p.startPage)
    | .OFFSET => OrderedDict.empty.set (nameOf p.offsetParam) (.int 0)
    | _ => OrderedDict.empty
  match p.limitParam, p.pageSize with
  | some limit, some size =>
      if p.style = .NONE ∨ limit = "" ∨ size = 0 then start else start.set limit (.int size)
  | _, _ => start

-- `int(extra_query[name])`: the loop has put an integer there.
def counterOf (query : Dict) (name : String) : ℤ :=
  match query.get? name with
  | some (.int n) => n
  | _ => 0

def itemsOf (p : PaginationSpec) (body : Json) : List Json :=
  match extractPath body (nameOf p.itemsPath) with
  | .arr xs => xs
  | _ => []

-- The query that follows a page, where the page does not end the pagination.
def nextQuery (p : PaginationSpec) (query : Dict) (body : Json) : Option Dict :=
  let pageItems := itemsOf p body
  match p.style with
  | .NONE => none
  | .CURSOR =>
      let cursor := extractPath body (nameOf p.cursorPath)
      if Python.truth cursor then some (query.set (nameOf p.cursorParam) cursor) else none
  | .PAGE =>
      if pageItems.isEmpty then none
      else some (query.set (nameOf p.pageParam) (.int (counterOf query (nameOf p.pageParam) + 1)))
  | .OFFSET =>
      if pageItems.isEmpty then none
      else some (query.set (nameOf p.offsetParam)
        (.int (counterOf query (nameOf p.offsetParam) + pageItems.length)))

-- Whether there is more where the page cap stops the loop.
def moreAtCap (p : PaginationSpec) (body : Json) : Bool :=
  match p.style with
  | .CURSOR => Python.truth (extractPath body (nameOf p.cursorPath))
  | _ => !(itemsOf p body).isEmpty

structure PageState where
  collected : List Json
  firstBody : Json
  extraQuery : Dict
  pages : ℕ
  truncated : Bool

def PageState.initial (p : PaginationSpec) : PageState := ⟨[], .null, firstQuery p, 0, false⟩

def fetched (p : PaginationSpec) (s : PageState) (body : Json) : PageState where
  collected := if p.style = .NONE then s.collected else s.collected ++ itemsOf p body
  firstBody := if isNone s.firstBody then body else s.firstBody
  extraQuery := s.extraQuery
  pages := s.pages + 1
  truncated := s.truncated

-- What `_send_with_retry` gives at its n-th call, by the pagination part of the query.
abbrev Server := ℕ → Dict → Except ConnectorError HTTPResponse

-- The loop; `.ok none` is a not-found status before any page.
def pageLoop (spec : RoutingSpec) (send : Server) :
    ℕ → PageState → Option (Except ConnectorError (Option PageState))
  | 0, _ => none
  | fuel + 1, s =>
      match send s.pages s.extraQuery with
      | .error e => some (.error e)
      | .ok response =>
          if response.statusCode ∈ spec.response.notFoundStatuses then
            some (.ok (if s.pages = 0 then none else some s))
          else if ¬(200 ≤ response.statusCode ∧ response.statusCode < 300) then
            some (.error (.http response.statusCode))
          else
            let p := spec.pagination
            let s' := fetched p s response.jsonBody
            if p.style = .NONE then some (.ok (some s'))
            else if p.maxPages ≤ s'.pages then
              some (.ok (some { s' with truncated := moreAtCap p response.jsonBody }))
            else
              match nextQuery p s'.extraQuery response.jsonBody with
              | none => some (.ok (some s'))
              | some query => pageLoop spec send fuel { s' with extraQuery := query }

-- `mapped.setdefault("_pagination", {})["truncated"] = True`
def markTruncated (mapped : Dict) : Except ConnectorError Dict :=
  match mapped.get? "_pagination" with
  | none => .ok (mapped.set "_pagination" (.obj [("truncated", .bool true)]))
  | some (.obj kvs) =>
      .ok (mapped.set "_pagination" (.obj (OrderedDict.put "truncated" (.bool true) kvs)))
  | some _ => .error .typeError

def mapOutput (spec : RoutingSpec) (s : PageState) : Except ConnectorError Dict :=
  let mapped := apply spec.response s.firstBody
  if spec.pagination.style = .NONE then .ok mapped
  else
    let withItems := mapped.set spec.pagination.itemsKey (.arr s.collected)
    if s.truncated then markTruncated withItems else .ok withItems

def outputOf (spec : RoutingSpec) :
    Except ConnectorError (Option PageState) → Except ConnectorError Dict
  | .error e => .error e
  | .ok none => .ok spec.response.notFoundOutput
  | .ok (some s) => mapOutput spec s

def run (spec : RoutingSpec) (send : Server) (fuel : ℕ) : Option (Except ConnectorError Dict) :=
  if clash spec ≠ [] then some (.error (.config (clash spec)))
  else (pageLoop spec send fuel (.initial spec.pagination)).map (outputOf spec)

end Declarative

end BTagent
