import BTagent.Data.CharTable
import BTagent.Lib.Newest
import BTagent.Lib.OrderedDict
import BTagent.Security.TlpEgress

namespace BTagent

-- Times are in microseconds, a confidence is a float.
structure AgentMemoryRow (F : Type) where
  id : String
  orgId : String
  kind : String
  subject : String
  content : String
  source : String
  confidence : Option F
  tlpLevel : String
  updatedAt : ℤ
  supersededAt : Option ℤ
  deriving DecidableEq

-- The floats of the service: `<=` and `<`, three constants, and `SequenceMatcher(None, a, b).ratio()`.
structure ScoreOps (F : Type) where
  le : F → F → Bool
  lt : F → F → Bool
  zero : F
  one : F
  minusOne : F
  ratio : String → String → F

namespace MemoryService

variable {F : Type}

def DEFAULT_RECALL_LIMIT : ℤ := 20

def MAX_CONSOLIDATION_GROUP : ℕ := 200

def MAX_SOURCE_LEN : ℕ := 256

def coerceTlp (value : Option String) (default failClosed : TLP) : TLP :=
  match value with
  | none => default
  | some text => (TLP.ofText text).getD failClosed

def allowedTlpValues (callerTlp : TLP) : List String :=
  (TLP.all.filter fun t => t.order ≤ callerTlp.order).map TLP.value

def inScope (orgId : String) (clearance : TLP) (subject kind : Option String) (liveOnly : Bool)
    (row : AgentMemoryRow F) : Bool :=
  row.orgId = orgId ∧ row.tlpLevel ∈ allowedTlpValues clearance ∧
    (liveOnly = true → row.supersededAt = none) ∧ (∀ s ∈ subject, row.subject = s) ∧
    ∀ k ∈ kind, row.kind = k

def recallMemories (rows : List (AgentMemoryRow F)) (orgId : String) (subject kind : Option String)
    (limit : ℤ) (callerTlp : Option String) (includeSuperseded : Bool) :
    List (AgentMemoryRow F) :=
  let clearance := coerceTlp callerTlp .green .white
  takeNewest AgentMemoryRow.updatedAt (max 1 limit).toNat
    (rows.filter (inScope orgId clearance subject kind !includeSuperseded))

def normalise (T : CharTable) (text : String) : String :=
  let unpunctuated := (T.lower text).toList.map fun c => if T.isWord c || T.isSpace c then c else ' '
  let collapsed := unpunctuated.foldr (fun c cs =>
    if T.isSpace c then if cs.head? = some ' ' then cs else ' ' :: cs else c :: cs) []
  T.strip (String.ofList collapsed)

def contentSimilarity (T : CharTable) (S : ScoreOps F) (left right : String) : F :=
  let a := normalise T left
  let b := normalise T right
  if a = "" ∨ b = "" then S.zero else if a = b then S.one else S.ratio a b

-- `sorted(.., reverse=True)` by confidence, then by time; it keeps the order of equal rows.
def survivesOver (S : ScoreOps F) (a b : AgentMemoryRow F) : Bool :=
  let left := a.confidence.getD S.minusOne
  let right := b.confidence.getD S.minusOne
  if S.le left right && S.le right left then b.updatedAt ≤ a.updatedAt else S.le right left

-- A cluster is never empty: its first row is the one that will survive.
structure Cluster (F : Type) where
  survivor : AgentMemoryRow F
  losers : List (AgentMemoryRow F)
  deriving DecidableEq

namespace Cluster

def members (c : Cluster F) : List (AgentMemoryRow F) := c.survivor :: c.losers

end Cluster

def joinCluster (T : CharTable) (S : ScoreOps F) (threshold : F) (row : AgentMemoryRow F) :
    List (Cluster F) → List (Cluster F)
  | [] => [⟨row, []⟩]
  | c :: clusters =>
      if S.le threshold (contentSimilarity T S c.survivor.content row.content) then
        { c with losers := c.losers ++ [row] } :: clusters
      else c :: joinCluster T S threshold row clusters

def cluster (T : CharTable) (S : ScoreOps F) (threshold : F) (rows : List (AgentMemoryRow F)) :
    List (Cluster F) :=
  rows.foldl (fun clusters row => joinCluster T S threshold row clusters) []

def mergeSources (T : CharTable) (c : Cluster F) : String :=
  let seen := (c.members.flatMap fun row => row.source.splitOn ",").foldl (fun seen part =>
    let part := T.strip part
    if part ≠ "" ∧ part ∉ seen then seen ++ [part] else seen) []
  String.ofList ((",".intercalate seen).toList.take MAX_SOURCE_LEN)

-- `max(confidences)` keeps the first of equal values.
def bestConfidence (S : ScoreOps F) (c : Cluster F) : Option F :=
  (c.members.filterMap (·.confidence)).foldl (fun best confidence =>
    match best with
    | none => some confidence
    | some b => if S.lt b confidence then some confidence else some b) none

-- A row that a cluster names is written; `flushedAt` is the time at which a written row is stamped
-- where nothing set `updated_at`.
def rewrite (T : CharTable) (S : ScoreOps F) (stamp flushedAt : ℤ) (row : AgentMemoryRow F)
    (c : Cluster F) : AgentMemoryRow F :=
  if row.id = c.survivor.id then
    { row with
      confidence := (bestConfidence S c).or row.confidence
      source := mergeSources T c
      updatedAt := stamp }
  else if row.id ∈ c.losers.map (·.id) then
    { row with supersededAt := some stamp, updatedAt := flushedAt }
  else row

structure ConsolidationResult where
  scanned : ℕ
  groups : ℕ
  merged : ℕ
  superseded : ℕ
  supersededIds : List String

structure Consolidation (F : Type) where
  orgId : String
  subject : Option String
  kind : Option String
  threshold : F
  stamp : ℤ
  flushedAt : ℤ

def scannedRows (run : Consolidation F) (store : List (AgentMemoryRow F)) :
    List (AgentMemoryRow F) :=
  store.filter fun row => row.orgId = run.orgId ∧ row.supersededAt = none ∧
    (∀ s ∈ run.subject, row.subject = s) ∧ ∀ k ∈ run.kind, row.kind = k

def groupRows (rows : List (AgentMemoryRow F)) :
    OrderedDict (String × String) (List (AgentMemoryRow F)) :=
  (rows.map fun row => ((row.subject, row.tlpLevel), row)).foldl
    (OrderedDict.tally (fun _ _ => []) fun group row => group ++ [row]) OrderedDict.empty

def clustersOf (T : CharTable) (S : ScoreOps F) (threshold : F) (group : List (AgentMemoryRow F)) :
    List (Cluster F) :=
  if group.length < 2 then []
  else
    let ordered := (group.mergeSort (survivesOver S)).take MAX_CONSOLIDATION_GROUP
    (cluster T S threshold ordered).filter fun c => 2 ≤ c.members.length

def mergedClusters (T : CharTable) (S : ScoreOps F) (run : Consolidation F)
    (store : List (AgentMemoryRow F)) : List (Cluster F) :=
  (groupRows (scannedRows run store)).entries.flatMap fun kv => clustersOf T S run.threshold kv.2

def consolidateMemories (T : CharTable) (S : ScoreOps F) (run : Consolidation F)
    (store : List (AgentMemoryRow F)) : List (AgentMemoryRow F) × ConsolidationResult :=
  let clusters := mergedClusters T S run store
  let losers := clusters.flatMap (·.losers)
  (clusters.foldl (fun store c => store.map fun row => rewrite T S run.stamp run.flushedAt row c)
      store,
    { scanned := (scannedRows run store).length
      groups := clusters.length
      merged := clusters.length
      superseded := losers.length
      supersededIds := losers.map (·.id) })

end MemoryService

end BTagent
