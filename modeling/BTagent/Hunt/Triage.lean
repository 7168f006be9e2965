import BTagent.Data.Json
import Mathlib.Data.List.Dedup
import Mathlib.Data.String.Basic

namespace BTagent

inductive Severity where
  | INFO
  | LOW
  | MEDIUM
  | HIGH
  | CRITICAL
  deriving DecidableEq

-- `_SEVERITY_RANK`
def Severity.rank : Severity → ℕ
  | INFO => 0
  | LOW => 1
  | MEDIUM => 2
  | HIGH => 3
  | CRITICAL => 4

inductive HuntDomain where
  | SIGMA
  | BEHAVIORAL
  | IDENTITY
  | CLOUD
  | CROSS_INVESTIGATION
  | AGENTIC
  | EMAIL
  | DECEPTION
  deriving DecidableEq

def HuntDomain.value : HuntDomain → String
  | SIGMA => "sigma"
  | BEHAVIORAL => "behavioral"
  | IDENTITY => "identity"
  | CLOUD => "cloud"
  | CROSS_INVESTIGATION => "cross_investigation"
  | AGENTIC => "agentic"
  | EMAIL => "email"
  | DECEPTION => "deception"

inductive HuntSource where
  | HUNT_PACK
  | BEHAVIORAL
  | IDENTITY
  | CLOUD
  | CROSS_INVESTIGATION
  | AGENTIC
  | EMAIL_SECURITY
  | DECEPTION
  | NDR
  | MANUAL
  deriving DecidableEq

inductive HuntFindingState where
  | NEW
  | CLUSTERED
  | TRIAGED
  | SUPPRESSED
  | PROMOTED
  | DISMISSED
  deriving DecidableEq

structure HuntEntity where
  kind : String
  value : String

structure HuntObservable where
  type : String
  value : String

structure HuntFinding where
  source : HuntSource
  domain : HuntDomain
  title : String
  severity : Severity
  techniqueIds : List String
  entities : List HuntEntity
  observables : List HuntObservable
  evidence : Dict

structure SuppressionMatch where
  source : Option HuntSource
  domain : Option HuntDomain
  techniqueIds : List String
  entityValues : List String
  observableValues : List String
  ruleIds : List String

namespace Triage

def sorted (xs : List String) : List String := xs.insertionSort (· ≤ ·)

def commaJoined (xs : List String) : String := ",".intercalate xs

def findingSignature (f : HuntFinding) : String :=
  let techniques := commaJoined (sorted f.techniqueIds)
  let entityKinds := commaJoined (sorted (f.entities.map (·.kind)).dedup)
  let observableTypes := commaJoined (sorted (f.observables.map (·.type)).dedup)
  f.domain.value ++ "|" ++ techniques ++ "|" ++ entityKinds ++ "|" ++ observableTypes

-- `max` keeps the first of several highest.
def maxSeverity (findings : List HuntFinding) : Severity :=
  findings.foldl (fun s f => if s.rank < f.severity.rank then f.severity else s) .INFO

def unionTechniques (findings : List HuntFinding) : List String :=
  sorted (findings.flatMap (·.techniqueIds)).dedup

def matchForCluster : List HuntFinding → SuppressionMatch
  | [] => ⟨none, none, [], [], [], []⟩
  | f :: fs => ⟨none, some f.domain, unionTechniques (f :: fs), [], [], []⟩

def overlaps (wanted found : List String) : Bool := wanted.any fun x => found.contains x

def suppressionMatches (m : SuppressionMatch) (f : HuntFinding) : Bool :=
  (m.source.all fun s => f.source = s) && (m.domain.all fun d => f.domain = d) &&
    (m.techniqueIds.isEmpty || overlaps m.techniqueIds f.techniqueIds) &&
    (m.entityValues.isEmpty || overlaps m.entityValues (f.entities.map (·.value))) &&
    (m.observableValues.isEmpty || overlaps m.observableValues (f.observables.map (·.value))) &&
    (m.ruleIds.isEmpty ||
      match f.evidence.get? "rule_id" with
      | some (.str ruleId) => m.ruleIds.contains ruleId
      | _ => false)

-- The ids of the rules that match one of the findings; both lists run alike.
def harmfulSuppressions (rules : List (String × SuppressionMatch)) (promoted : List HuntFinding) :
    List String :=
  sorted ((rules.filter fun r => promoted.any (suppressionMatches r.2)).map Prod.fst)

-- More than half of the sample, or more than five techniques among what matches.
def isOverbroad (m : SuppressionMatch) (sample : List HuntFinding) : Bool :=
  let noCriterion := m.source.isNone && m.domain.isNone && m.techniqueIds.isEmpty &&
    m.entityValues.isEmpty && m.observableValues.isEmpty && m.ruleIds.isEmpty
  let matched := sample.filter (suppressionMatches m)
  noCriterion || (!sample.isEmpty &&
    (sample.length < 2 * matched.length || 5 < (unionTechniques matched).length))

end Triage

end BTagent
