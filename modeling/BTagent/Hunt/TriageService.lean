import BTagent.Data.CharTable
import BTagent.Hunt.Triage
import BTagent.Lib.Machine
import Mathlib.Data.List.Sort

namespace BTagent

structure HuntFindingRow where
  id : String
  orgId : String
  finding : HuntFinding
  state : HuntFindingState
  signature : String
  clusterId : Option String
  suppressedBy : Option String
  investigationId : Option String
  createdAt : ℕ

structure HuntFindingClusterRow where
  id : String
  orgId : String
  signature : String
  title : String
  domain : HuntDomain
  severity : Severity
  techniqueIds : List String
  findingCount : ℕ
  state : HuntFindingState
  representativeFindingId : String
  updatedAt : ℕ

inductive SuppressionState where
  | ACTIVE
  | NEEDS_RECONFIRM
  | EXPIRED
  | REVOKED
  deriving DecidableEq

structure SuppressionRuleRow where
  id : String
  orgId : String
  name : String
  reason : String
  criteria : SuppressionMatch
  state : SuppressionState
  matchCount : ℕ
  expiresAt : Option ℕ
  reconfirmAt : ℕ
  harmfulFindingId : Option String

structure HuntDb where
  findings : List HuntFindingRow
  clusters : List HuntFindingClusterRow
  rules : List SuppressionRuleRow

namespace HuntTriage
open Triage

variable (T : CharTable)

def OVERBROAD_SAMPLE_SIZE : ℕ := 200

def DEFAULT_RECONFIRM_HOURS : ℕ := 90 * 24

def getCluster (db : HuntDb) (id : String) : Option HuntFindingClusterRow :=
  db.clusters.find? fun c => c.id = id

def findCluster (db : HuntDb) (orgId signature : String) : Option HuntFindingClusterRow :=
  db.clusters.find? fun c => c.orgId = orgId ∧ c.signature = signature

def memberRows (findings : List HuntFindingRow) (clusterId : String) : List HuntFindingRow :=
  findings.filter fun r => r.clusterId = some clusterId

def updateCluster (id : String) (f : HuntFindingClusterRow → HuntFindingClusterRow)
    (clusters : List HuntFindingClusterRow) : List HuntFindingClusterRow :=
  clusters.map fun c => if c.id = id then f c else c

def reopened (state : HuntFindingState) : HuntFindingState :=
  if state = .PROMOTED ∨ state = .SUPPRESSED then .CLUSTERED else state

def fold (members : List HuntFinding) (now : ℕ) (c : HuntFindingClusterRow) :
    HuntFindingClusterRow :=
  { c with
    findingCount := members.length
    severity := maxSeverity members
    techniqueIds := unionTechniques members
    updatedAt := now
    state := reopened c.state }

def newCluster (id orgId signature : String) (row : HuntFindingRow) (now : ℕ) :
    HuntFindingClusterRow where
  id := id
  orgId := orgId
  signature := signature
  title := row.finding.title
  domain := row.finding.domain
  severity := row.finding.severity
  techniqueIds := row.finding.techniqueIds
  findingCount := 0
  state := .CLUSTERED
  representativeFindingId := row.id
  updatedAt := now

-- The cluster's id and the clusters after; a new cluster gets the id `newId`.
def upsertClusterFor (db : HuntDb) (now : ℕ) (newId : String) (row : HuntFindingRow) :
    Option (String × List HuntFindingClusterRow) :=
  let signature := findingSignature row.finding
  match findCluster db row.orgId signature with
  | some c =>
      let members := (memberRows db.findings c.id).map (·.finding) ++ [row.finding]
      some (c.id, updateCluster c.id (fold members now) db.clusters)
  | none =>
      if (getCluster db newId).isSome then none
      else some (newId, db.clusters ++
        [fold [row.finding] now (newCluster newId row.orgId signature row now)])

def activeSuppressions (db : HuntDb) (now : ℕ) (orgId : String) : List SuppressionRuleRow :=
  db.rules.filter fun r => r.orgId = orgId ∧ r.state = .ACTIVE ∧ r.expiresAt.all (now < ·)

def suppressing (db : HuntDb) (now : ℕ) (orgId : String) (f : HuntFinding) :
    Option SuppressionRuleRow :=
  (activeSuppressions db now orgId).find? fun r => suppressionMatches r.criteria f

def countMatch (rule : SuppressionRuleRow) (rules : List SuppressionRuleRow) :
    List SuppressionRuleRow :=
  rules.map fun r => if r.id = rule.id then { r with matchCount := r.matchCount + 1 } else r

structure NewFinding where
  id : String
  clusterId : String
  orgId : String
  finding : HuntFinding

def recordFinding (db : HuntDb) (now : ℕ) (req : NewFinding) : Option HuntDb :=
  let row : HuntFindingRow :=
    { id := req.id, orgId := req.orgId, finding := req.finding, state := .NEW,
      signature := findingSignature req.finding, clusterId := none, suppressedBy := none,
      investigationId := none, createdAt := now }
  if db.findings.any fun r => r.id = req.id then none
  else
    match upsertClusterFor db now req.clusterId row with
    | none => none
    | some (clusterId, clusters) =>
        let row := { row with clusterId := some clusterId, state := .CLUSTERED }
        match suppressing db now req.orgId req.finding with
        | none => some { db with findings := db.findings ++ [row], clusters := clusters }
        | some rule =>
            let row := { row with state := .SUPPRESSED, suppressedBy := some rule.id }
            some { findings := db.findings ++ [row], clusters := clusters,
                   rules := countMatch rule db.rules }

def rollUp (states : List HuntFindingState) (state : HuntFindingState) : HuntFindingState :=
  let considered := states.filter (· ≠ .DISMISSED)
  if considered = [] then state
  else if considered.all (· = .SUPPRESSED) then .SUPPRESSED
  else if considered.all (· = .PROMOTED) then .PROMOTED
  else .CLUSTERED

def recomputeCluster (now : ℕ) (findings : List HuntFindingRow) (c : HuntFindingClusterRow) :
    HuntFindingClusterRow :=
  let state := rollUp ((memberRows findings c.id).map (·.state)) c.state
  if c.state = state then c else { c with state := state, updatedAt := now }

def recomputeClusterStates (now : ℕ) (touched : List String) (findings : List HuntFindingRow)
    (clusters : List HuntFindingClusterRow) : List HuntFindingClusterRow :=
  clusters.map fun c => if c.id ∈ touched then recomputeCluster now findings c else c

def clusterIds (rows : List HuntFindingRow) : List String := rows.filterMap (·.clusterId)

structure NewSuppression where
  id : String
  orgId : String
  name : String
  reason : String
  criteria : SuppressionMatch
  expiresInHours : Option ℕ
  reconfirmInHours : Option ℕ
  acknowledgeOverbroad : Bool
  callerRole : String

def sampleOf (db : HuntDb) (orgId : String) : List HuntFinding :=
  (((db.findings.filter fun r => r.orgId = orgId).mergeSort fun a b => b.createdAt ≤ a.createdAt).take
    OVERBROAD_SAMPLE_SIZE).map (·.finding)

def suppressible (orgId : String) (criteria : SuppressionMatch) (r : HuntFindingRow) : Bool :=
  r.orgId = orgId && (r.state = .NEW || r.state = .CLUSTERED || r.state = .TRIAGED) &&
    suppressionMatches criteria r.finding

def suppressRow (ruleId : String) (r : HuntFindingRow) : HuntFindingRow :=
  { r with state := .SUPPRESSED, suppressedBy := some ruleId }

-- Hours that are zero count as not given.
def orDefault (hours : Option ℕ) : Option ℕ := hours.filter (· ≠ 0)

def createSuppression (db : HuntDb) (now : ℕ) (req : NewSuppression) : Option HuntDb :=
  if T.strip req.reason = "" then none
  else if isOverbroad req.criteria (sampleOf db req.orgId) ∧
      ¬ (req.acknowledgeOverbroad ∧ (req.callerRole = "incident_commander" ∨
        req.callerRole = "admin")) then none
  else if db.rules.any fun r => r.id = req.id then none
  else
    let hit := suppressible req.orgId req.criteria
    let findings := db.findings.map fun r => if hit r then suppressRow req.id r else r
    let rule : SuppressionRuleRow :=
      { id := req.id, orgId := req.orgId, name := req.name, reason := req.reason,
        criteria := req.criteria, state := .ACTIVE, matchCount := (db.findings.filter hit).length,
        expiresAt := (orDefault req.expiresInHours).map (now + ·),
        reconfirmAt := now + (orDefault req.reconfirmInHours).getD DEFAULT_RECONFIRM_HOURS,
        harmfulFindingId := none }
    some { findings := findings
           clusters := recomputeClusterStates now (clusterIds (db.findings.filter hit)) findings
             db.clusters
           rules := db.rules ++ [rule] }

def markHarmful (active : List String) (promoted : List HuntFindingRow)
    (r : SuppressionRuleRow) : SuppressionRuleRow :=
  match promoted.find? fun f => suppressionMatches r.criteria f.finding with
  | some f =>
      if r.id ∈ active ∧ r.harmfulFindingId = none then { r with harmfulFindingId := some f.id }
      else r
  | none => r

def promoteRow (investigationId : String) (r : HuntFindingRow) : HuntFindingRow :=
  { r with state := .PROMOTED, investigationId := some investigationId }

def promoteToInvestigation (db : HuntDb) (now : ℕ) (orgId investigationId : String)
    (findingIds : List String) : Option HuntDb :=
  let hit := fun r : HuntFindingRow => decide (r.id ∈ findingIds ∧ r.orgId = orgId)
  let promoted := db.findings.filter hit
  if promoted = [] then none
  else
    let findings := db.findings.map fun r => if hit r then promoteRow investigationId r else r
    some { findings := findings
           clusters := recomputeClusterStates now (clusterIds promoted) findings db.clusters
           rules := db.rules.map (markHarmful ((activeSuppressions db now orgId).map (·.id))
             promoted) }

def setClusterState (id : String) (state : HuntFindingState) (now : ℕ) (db : HuntDb) : HuntDb :=
  { db with
    clusters := updateCluster id (fun c => { c with state := state, updatedAt := now }) db.clusters }

def suppressCluster (db : HuntDb) (now : ℕ) (clusterId : String)
    (criteria : Option SuppressionMatch) (req : NewSuppression) : Option HuntDb := do
  let cluster ← getCluster db clusterId
  let members := (memberRows db.findings cluster.id).map (·.finding)
  let criteria ←
    match criteria with
    | none => some (matchForCluster members)
    | some m => if members ≠ [] ∧ ¬ members.any (suppressionMatches m) then none else some m
  let db ← createSuppression T db now { req with criteria := criteria }
  let rows := memberRows db.findings cluster.id
  if rows ≠ [] ∧ rows.all fun r => r.state = .SUPPRESSED || r.state = .DISMISSED then
    some (setClusterState cluster.id .SUPPRESSED now db)
  else some db

def promotable (orgId clusterId : String) (r : HuntFindingRow) : Bool :=
  r.clusterId = some clusterId && r.orgId = orgId && r.state ≠ .PROMOTED && r.state ≠ .DISMISSED

def promoteCluster (db : HuntDb) (now : ℕ) (orgId clusterId investigationId : String) :
    Option HuntDb := do
  let cluster ← getCluster db clusterId
  let rows := db.findings.filter (promotable orgId cluster.id)
  if rows = [] then none
  else do
    let db ← promoteToInvestigation db now orgId investigationId (rows.map (·.id))
    some (setClusterState cluster.id .PROMOTED now db)

def sweepRule (now : ℕ) (r : SuppressionRuleRow) : SuppressionRuleRow :=
  if r.state ≠ .ACTIVE then r
  else if r.expiresAt.any (· ≤ now) then { r with state := .EXPIRED }
  else if r.reconfirmAt ≤ now then { r with state := .NEEDS_RECONFIRM }
  else r

def sweepStaleSuppressions (db : HuntDb) (now : ℕ) (orgId : Option String) : HuntDb :=
  { db with rules := db.rules.map fun r => if orgId.all (r.orgId = ·) then sweepRule now r else r }

inductive Operation where
  | recordFinding (now : ℕ) (req : NewFinding)
  | createSuppression (now : ℕ) (req : NewSuppression)
  | suppressCluster (now : ℕ) (clusterId : String) (criteria : Option SuppressionMatch)
      (req : NewSuppression)
  | promoteToInvestigation (now : ℕ) (orgId investigationId : String) (findingIds : List String)
  | promoteCluster (now : ℕ) (orgId clusterId investigationId : String)
  | sweepStaleSuppressions (now : ℕ) (orgId : Option String)

-- An operation that raises leaves the database as it was.
def service : Machine HuntDb Operation where
  step db
    | .recordFinding now req => HuntTriage.recordFinding db now req
    | .createSuppression now req => HuntTriage.createSuppression T db now req
    | .suppressCluster now clusterId criteria req =>
        HuntTriage.suppressCluster T db now clusterId criteria req
    | .promoteToInvestigation now orgId investigationId findingIds =>
        HuntTriage.promoteToInvestigation db now orgId investigationId findingIds
    | .promoteCluster now orgId clusterId investigationId =>
        HuntTriage.promoteCluster db now orgId clusterId investigationId
    | .sweepStaleSuppressions now orgId => some (HuntTriage.sweepStaleSuppressions db now orgId)

def emptyDb : HuntDb := ⟨[], [], []⟩

end HuntTriage

end BTagent
