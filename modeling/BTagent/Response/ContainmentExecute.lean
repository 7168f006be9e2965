import BTagent.Audit.Ledger
import BTagent.Response.Safelist

namespace BTagent

-- A dictionary with string keys, none of them twice at any depth.
structure Response where
  fields : Dict
  keyed : (Json.obj fields.entries).Throughout Json.DistinctKeys

namespace Response

theorem throughoutFields_iff {P : Json → Prop} {kvs : List (String × Json)} :
    Json.ThroughoutFields P kvs ↔ ∀ kv ∈ kvs, kv.2.Throughout P := by
  induction kvs with
  | nil => simp [Json.ThroughoutFields]
  | cons kv kvs ih => simp [Json.ThroughoutFields, ih]

theorem mem_put {kvs : List (String × Json)} {k : String} {v : Json} {kv : String × Json}
    (h : kv ∈ OrderedDict.put k v kvs) : kv = (k, v) ∨ kv ∈ kvs := by
  induction kvs with
  | nil => simpa [OrderedDict.put] using h
  | cons first kvs ih =>
      simp only [OrderedDict.put] at h
      split at h
      · rcases List.mem_cons.mp h with rfl | h
        · exact Or.inl rfl
        · exact Or.inr (List.mem_cons_of_mem _ h)
      · rcases List.mem_cons.mp h with rfl | h
        · exact Or.inr List.mem_cons_self
        · exact (ih h).imp_right (List.mem_cons_of_mem _)

def empty : Response := ⟨.empty, List.nodup_nil, trivial⟩

def set (r : Response) (k : String) (v : Json) (hv : v.Throughout Json.DistinctKeys) : Response where
  fields := r.fields.set k v
  keyed := by
    refine ⟨(r.fields.set k v).nodup, throughoutFields_iff.mpr fun kv hkv => ?_⟩
    rcases mem_put hkv with rfl | hmem
    · exact hv
    · exact throughoutFields_iff.mp r.keyed.2 kv hmem

def setText (r : Response) (k v : String) : Response := r.set k (.str v) trivial

def setBool (r : Response) (k : String) (b : Bool) : Response := r.set k (.bool b) trivial

def setResponse (r : Response) (k : String) (v : Response) : Response :=
  r.set k (.obj v.fields.entries) v.keyed

end Response

-- What a connector call can raise.
inductive ToolError where
  | mcpPolicyRefused (reason status : String)
  | liveDispatchDisabled (message : String)
  | other (message : String)

def ToolError.text : ToolError → String
  | mcpPolicyRefused reason _ => reason
  | liveDispatchDisabled message => message
  | other message => message

namespace ContainmentExecute
open SafelistPolicy

structure IsolationRoute where
  module : String
  clsName : String
  method : String
  targetKwarg : String

def ISOLATION_ROUTES : String → Option IsolationRoute
  | "crowdstrike" => some ⟨"btagent_agents.mcp.servers.crowdstrike_mcp", "CrowdStrikeMCPServer",
      "cs_isolate_host", "hostname"⟩
  | "defender" => some ⟨"btagent_agents.mcp.servers.defender_endpoint_mcp",
      "DefenderEndpointMCPServer", "mde_isolate_machine", "hostname"⟩
  | "cortex" => some ⟨"btagent_agents.mcp.servers.cortex_mcp", "CortexXDRMCPServer",
      "cortex_isolate_endpoint", "endpoint_id"⟩
  | _ => none

structure Incident where
  shortDescription : String
  description : String
  priority : String
  category : String

-- What the service reaches outside: the mock switch, the manifest gate, the servers, and the id of
-- the next audit row. A ticket's answer need not be a dictionary.
structure Services where
  mockConnectors : Bool
  guardDispatch : String → Except ToolError Unit
  call : IsolationRoute → String → Except ToolError Response
  createSecurityIncident : Incident → Except ToolError (Option Response)
  auditId : String

variable (T : CharTable) (S : Services)

def mockEnvelope (actionType connector target : String) : Response :=
  (((((Response.empty.setText "status" "success").setBool "is_mock" true).setText "action"
    actionType).setText "connector" connector).setText "target" target).setText "note"
      "mock dispatch — no live connector wired for this action"

def dispatch (actionType connector target : String) : Except ToolError Response :=
  if ¬ S.mockConnectors then
    .error (.liveDispatchDisabled
      ("Live containment execution is not enabled. Connectors remain " ++
        "mock-first (BTAGENT_MOCK_CONNECTORS); the live dispatch path is a " ++
        "guarded placeholder and #106 does not unbolt it."))
  else
    match if actionType = "isolate_host" then ISOLATION_ROUTES connector else none with
    | some route => do
        S.guardDispatch route.method
        S.call route target
    | none => .ok (mockEnvelope actionType connector target)

-- `str` of a value that is not a string is never `success`.
def outcomeFor (toolResponse : Response) : AuditOutcome :=
  match (toolResponse.fields.get? "status").getD (.str "success") with
  | .str s => if T.lower s = "success" then .SUCCESS else .FAILURE
  | _ => .FAILURE

def BLOCK_ACTION_TYPES : List String := ["block_ip", "block_domain"]

def CLOUD_IAM_ACTION_TYPES : List String := ["revoke_role", "freeze_access_key", "detach_policy"]

def ACCOUNT_ACTION_TYPES : List String := ["disable_account"]

def PRINCIPAL_SCREENED_ACTION_TYPES : List String := CLOUD_IAM_ACTION_TYPES ++ ACCOUNT_ACTION_TYPES

def SAFELIST_SCREENED_ACTION_TYPES : List String :=
  BLOCK_ACTION_TYPES ++ PRINCIPAL_SCREENED_ACTION_TYPES

def iocSafelisted (policy : SafelistPolicy) (iocType value : String) : Bool :=
  let t := T.lower (T.strip iocType)
  if t = "ip" then policy.ipSafelisted T value
  else if t = "domain" then policy.domainSafelisted T value
  else if t = "url" then policy.urlSafelisted T value
  else false

def targetSafelisted (policy : SafelistPolicy) (actionType target : String) : Bool :=
  if actionType = "block_ip" then policy.ipSafelisted T target
  else if actionType = "block_domain" then policy.domainSafelisted T target
  else if actionType ∈ PRINCIPAL_SCREENED_ACTION_TYPES then policy.principalSafelisted T target
  else false

-- The rows of `response_safelist`, with the organisation each belongs to.
structure ResponseSafelistRow where
  orgId : String
  entryType : String
  value : String

def entriesOf (rows : List ResponseSafelistRow) (orgId entryType : String) : List String :=
  (rows.filter fun r => r.orgId = orgId ∧ r.entryType = entryType).map (·.value)

def loadPolicy (rows : List ResponseSafelistRow) (orgId : String) : SafelistPolicy :=
  (BASELINE_SAFELIST T).merge T (entriesOf rows orgId "ip") (entriesOf rows orgId "domain")
    (entriesOf rows orgId "principal")

structure ExecutionResult where
  httpStatus : ℕ
  executed : Bool
  outcome : String
  message : Option String
  tool : String
  target : String
  toolResponse : Option Response
  auditId : String
  approverId : String
  changeRef : Json

structure Dispatch where
  actionType : String
  connector : String
  target : String
  deriving DecidableEq

-- What one call leaves behind: what it returns or raises, what it handed to `_dispatch`, and the
-- rows it gave the audit trail.
structure Execution where
  result : Except ToolError ExecutionResult
  dispatched : List Dispatch
  rows : List AuditEntry

def auditRow (actorId orgId action resource : String) (outcome : AuditOutcome)
    (details : Response) : AuditEntry where
  actor := actorId
  category := .CONTAINMENT
  action := action
  resource := resource
  outcome := outcome
  details := some details.fields
  orgId := orgId
  keyed d hd := by
    obtain rfl := Option.some.inj hd
    exact details.keyed

def recordDenial (actorId orgId action resource target tool reason : String)
    (extra : Response → Response) (dispatched : List Dispatch) : Execution where
  result := .ok {
    httpStatus := 403
    executed := false
    outcome := AuditOutcome.DENIED.value
    message := some reason
    tool := tool
    target := target
    toolResponse := none
    auditId := S.auditId
    approverId := actorId
    changeRef := .null }
  dispatched := dispatched
  rows := [auditRow actorId orgId action resource .DENIED (extra ((((Response.empty.setText
    "approver_id" actorId).setText "target" target).setText "tool" tool).setText "reason" reason))]

structure ResponseActionRequest where
  actorId : String
  orgId : String
  actionId : String
  actionType : String
  connector : String
  target : String
  description : String
  approved : Bool

def isMock (toolResponse : Response) : Json := (toolResponse.fields.get? "is_mock").getD (.bool true)

theorem keyed_get? (r : Response) {k : String} {v : Json} (h : r.fields.get? k = some v) :
    v.Throughout Json.DistinctKeys :=
  Response.throughoutFields_iff.mp r.keyed.2 _ (OrderedDict.mem_of_find h)

theorem keyed_getD (r : Response) (k : String) {d : Json} (hd : d.Throughout Json.DistinctKeys) :
    ((r.fields.get? k).getD d).Throughout Json.DistinctKeys := by
  cases h : r.fields.get? k with
  | none => exact hd
  | some v => exact keyed_get? r h

theorem keyed_isMock (r : Response) : (isMock r).Throughout Json.DistinctKeys :=
  keyed_getD r _ trivial

def executed (actorId connector target : String) (outcome : AuditOutcome) (toolResponse : Response)
    (changeRef : Json) : ExecutionResult where
  httpStatus := 200
  executed := outcome = .SUCCESS
  outcome := outcome.value
  message := none
  tool := connector
  target := target
  toolResponse := some toolResponse
  auditId := S.auditId
  approverId := actorId
  changeRef := changeRef

def executeResponseAction (rows : List ResponseSafelistRow) (req : ResponseActionRequest) :
    Execution :=
  let resource := "response_action:" ++ req.actionId
  let action := "execute:" ++ req.actionType
  let deny := recordDenial S req.actorId req.orgId action resource req.target req.connector
  let policy := loadPolicy T rows req.orgId
  let dispatched := [⟨req.actionType, req.connector, req.target⟩]
  if ¬ req.approved then
    deny "Action is not approved (the HITL half of the double-gate is missing)." id []
  else if req.actionType ∈ SAFELIST_SCREENED_ACTION_TYPES ∧
      targetSafelisted T policy req.actionType req.target then
    let noun :=
      if req.actionType ∈ PRINCIPAL_SCREENED_ACTION_TYPES then "never-touch" else "never-block"
    deny ("Target is on the org " ++ noun ++ " safelist (collateral-outage guard).") id []
  else
    match dispatch S req.actionType req.connector req.target with
    | .error (.mcpPolicyRefused reason status) =>
        deny ("Manifest policy refused dispatch: " ++ reason) (·.setText "policy_status" status)
          dispatched
    | .error (.liveDispatchDisabled message) =>
        deny ("Live dispatch is disabled: " ++ message) (·.setBool "mock_connectors" false)
          dispatched
    | .error (.other message) => ⟨.error (.other message), dispatched, []⟩
    | .ok toolResponse =>
        let outcome := outcomeFor T toolResponse
        let details := ((((Response.empty.setText "approver_id" req.actorId).setText "connector"
          req.connector).setText "target" req.target).setText "description" req.description)
        let details := (details.set "mock" (isMock toolResponse)
          (keyed_isMock toolResponse)).setResponse "tool_response" toolResponse
        ⟨.ok (executed S req.actorId req.connector req.target outcome toolResponse .null),
          dispatched, [auditRow req.actorId req.orgId action resource outcome details]⟩

structure BulkBlockRequest where
  actorId : String
  orgId : String
  actionId : String
  iocType : String
  iocValue : String
  tool : String
  policyObject : String
  rollback : Option String
  approved : Bool

-- A text where Python's `or` puts another for an empty one.
def orElse (s default : String) : String := if s = "" then default else s

def ticketFailed (e : ToolError) : Json × Response :=
  (.null, (Response.empty.setText "status" "error").setText "message" e.text)

def attachChangeRecord (req : BulkBlockRequest) : Json × Response :=
  match S.guardDispatch "snow_create_security_incident" with
  | .error e => ticketFailed e
  | .ok () =>
      match S.createSecurityIncident {
          shortDescription := "Containment change: block " ++ req.iocType ++ " " ++ req.iocValue
          description := "Bulk IOC block executed via " ++ req.tool ++ ":" ++
            orElse req.policyObject "blocklist" ++ ". Rollback: " ++
            orElse (req.rollback.getD "") "n/a" ++ "."
          priority := "2-high"
          category := "containment" } with
      | .error e => ticketFailed e
      | .ok none => (.null, .empty)
      | .ok (some response) => ((response.fields.get? "number").getD .null, response)

theorem keyed_changeRef (req : BulkBlockRequest) :
    (attachChangeRecord S req).1.Throughout Json.DistinctKeys := by
  simp only [attachChangeRecord, ticketFailed]
  split
  · trivial
  · split
    · trivial
    · trivial
    · exact keyed_getD _ _ trivial

def executeBulkBlock (rows : List ResponseSafelistRow) (req : BulkBlockRequest) : Execution :=
  let resource := "mitigation_action:" ++ req.actionId
  let action := "execute:block_ioc"
  let deny := recordDenial S req.actorId req.orgId action resource req.iocValue req.tool
  let policy := loadPolicy T rows req.orgId
  let dispatched := [⟨"block_ioc", req.tool, req.iocValue⟩]
  if ¬ req.approved then
    deny "Action is not approved (the HITL half of the double-gate is missing)."
      (·.setText "ioc_type" req.iocType) []
  else if iocSafelisted T policy req.iocType req.iocValue then
    deny "IOC is on the org never-block safelist (collateral-outage guard)."
      (·.setText "ioc_type" req.iocType) []
  else
    match dispatch S "block_ioc" req.tool req.iocValue with
    | .error (.liveDispatchDisabled message) =>
        deny ("Live dispatch is disabled: " ++ message)
          (fun d => (d.setText "ioc_type" req.iocType).setBool "mock_connectors" false) dispatched
    | .error e => ⟨.error e, dispatched, []⟩
    | .ok toolResponse =>
        let outcome := outcomeFor T toolResponse
        let change := attachChangeRecord S req
        let details := ((((Response.empty.setText "approver_id" req.actorId).setText "ioc_type"
          req.iocType).setText "ioc_value" req.iocValue).setText "tool" req.tool).setText
            "policy_object" req.policyObject
        let details := (details.set "change_ref" change.1 (keyed_changeRef S req)).setResponse
          "change_response" change.2
        let details := (details.set "mock" (isMock toolResponse)
          (keyed_isMock toolResponse)).setResponse "tool_response" toolResponse
        ⟨.ok (executed S req.actorId req.tool req.iocValue outcome toolResponse change.1),
          dispatched, [auditRow req.actorId req.orgId action resource outcome details]⟩

end ContainmentExecute

end BTagent
