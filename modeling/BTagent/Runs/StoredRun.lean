import BTagent.Engine.EvidenceChain
import BTagent.Lib.Monads
import BTagent.Runs.RunRow
import BTagent.Workflows.Versions

namespace BTagent

namespace Json

-- `bool(value)`
def truthy : Json → Bool
  | null => false
  | bool b => b
  | int n => n ≠ 0
  | float repr => repr ∉ ["0.0", "-0.0"]
  | str s => s ≠ ""
  | arr xs => !xs.isEmpty
  | obj kvs => !kvs.isEmpty

def hashable : Json → Bool
  | arr _ | obj _ => false
  | _ => true

end Json

namespace TLP

def parse (text : String) : Option TLP :=
  [red, amberStrict, amber, green, white].find? fun t => t.value = text

theorem parse_isSome {text : String} : (parse text).isSome ↔ ∃ t : TLP, t.value = text := by
  simp only [parse, List.find?_isSome, decide_eq_true_eq]
  constructor
  · rintro ⟨t, -, h⟩
    exact ⟨t, h⟩
  · rintro ⟨t, h⟩
    exact ⟨t, by cases t <;> simp, h⟩

end TLP

namespace AutonomyLevel

def value : AutonomyLevel → String
  | l0Manual => "L0"
  | l1Assisted => "L1"
  | l2Supervised => "L2"
  | l3Autonomous => "L3"
  | l4FullAuto => "L4"

def parse (text : String) : Option AutonomyLevel :=
  [l0Manual, l1Assisted, l2Supervised, l3Autonomous, l4FullAuto].find? fun a => a.value = text

theorem parse_isSome {text : String} :
    (parse text).isSome ↔ ∃ a : AutonomyLevel, a.value = text := by
  simp only [parse, List.find?_isSome, decide_eq_true_eq]
  constructor
  · rintro ⟨a, -, h⟩
    exact ⟨a, h⟩
  · rintro ⟨a, h⟩
    exact ⟨a, by cases a <;> simp, h⟩

end AutonomyLevel

def WorkflowRunStatus.value : WorkflowRunStatus → String
  | pending => "pending"
  | running => "running"
  | succeeded => "succeeded"
  | failed => "failed"
  | paused => "paused"

-- A row of `workflow_runs` as stored. A JSONB column may hold `null`, and its elements anything.
structure StoredRun where
  id : String
  triggeredBy : Option String
  investigationId : Option String
  status : String
  activeTlp : Option String
  agentAutonomy : Option String
  pausedNodeId : Option String
  approvedSteps : Option (List Json)
  triggerPayload : Option Dict
  outputs : Option Dict
  finalOutput : Option Json
  nodesExecuted : Option (List Json)
  evidenceChain : Option (List Json)
  error : Option String

inductive ResumeError where
  | database (what : String)
  | runNotResumable (message : String)
  | workflowNotExecutable (message : String)
  | validation (model : String)
  | unhashable
  | unorderable
  | notMember (enumeration value : String)
  deriving DecidableEq, Repr

-- What the calls to the database meet: the claim's transaction, the refresh, the read of the
-- org's stored autonomy overrides.
structure ResumeDb where
  claim : Except ResumeError Unit
  refresh : Except ResumeError Unit
  orgAutonomy : Except ResumeError (Option (Option Dict))

structure ResumeRequest where
  orgId : String
  version : WorkflowVersionRow
  integrationAutonomy : Option IntegrationAutonomy
  db : ResumeDb

-- Pydantic's part: the text of a refusal, reading a timestamp, dumping a record.
structure ResumeDeps where
  validationText : Dict → String
  parseTimestamp : Json → Option Timestamp
  dumpRecord : EvidenceRecord → Json

structure RunContext where
  runId : String
  workflowRunId : Option String
  investigationId : Option String
  orgId : String
  userId : Option String
  tlpLevel : String

-- The arguments of `_run_capture`, and the checkpoint that a failed attempt keeps.
structure Launch where
  workflow : Workflow
  triggerPayload : Dict
  ctx : RunContext
  activeTlp : TLP
  agentAutonomy : AutonomyLevel
  integrationAutonomy : IntegrationAutonomy
  resumeState : WorkflowState
  approvedSteps : List Json
  priorEvidence : List EvidenceRecord
  priorOutputs : Dict
  priorNodesExecuted : List Json

namespace EngineWorkflow

def textOr (kvs : List (String × Json)) (field unset : String) : String :=
  match OrderedDict.find field kvs with
  | some (.str s) => s
  | _ => unset

def readNode : Json → Option WorkflowNode
  | .obj kvs => some {
      stepId := textOr kvs "step_id" ""
      nodeId := textOr kvs "node_id" ""
      name := textOr kvs "name" ""
      config :=
        match OrderedDict.find "config" kvs with
        | some (.obj config) => OrderedDict.empty.update config
        | _ => .empty }
  | _ => none

def readEdge : Json → Option WorkflowEdge
  | .obj kvs => some ⟨textOr kvs "source" "", textOr kvs "target" "", textOr kvs "label" "next"⟩
  | _ => none

def readTuple {α : Type} (read : Json → Option α) : Option Json → List α
  | some (.arr xs) => xs.filterMap read
  | _ => []

-- The graph of a definition that `Workflow.model_validate` accepts.
def readWorkflow (definition : Dict) : Workflow where
  name := textOr definition.entries "name" ""
  nodes := readTuple readNode (definition.get? "nodes")
  edges := readTuple readEdge (definition.get? "edges")

end EngineWorkflow

namespace AutonomyService

def EDITABLE_CATEGORIES : List String :=
  ["siem_query", "edr_query", "cti_lookup", "playbook_execution"]

def level (overrides : Dict) (category : String) (shared : AutonomyLevel) : AutonomyLevel :=
  match overrides.get? category with
  | some (.str text) => (AutonomyLevel.parse text).getD shared
  | _ => shared

-- Looking up a level in the set of the valid ones hashes it.
def getEffectiveAutonomy (overrides : Dict) : Except ResumeError IntegrationAutonomy :=
  if overrides.entries.any fun kv => kv.1 ∈ EDITABLE_CATEGORIES && !kv.2.hashable then
    .error .unhashable
  else
    .ok {
      siemQuery := level overrides "siem_query" .l3Autonomous
      edrQuery := level overrides "edr_query" .l3Autonomous
      ctiLookup := level overrides "cti_lookup" .l3Autonomous
      playbookExecution := level overrides "playbook_execution" .l2Supervised }

end AutonomyService

namespace StoredRun

variable (D : ResumeDeps) (req : ResumeRequest) (row : StoredRun)

def pausedNode : Except ResumeError String :=
  match row.pausedNodeId with
  | some paused =>
      if paused = "" then
        .error (.runNotResumable s!"Run {row.id} has no paused_node_id; cannot resume.")
      else .ok paused
  | none => .error (.runNotResumable s!"Run {row.id} has no paused_node_id; cannot resume.")

-- `_load_workflow`
def loadWorkflow (version : WorkflowVersionRow) : Except ResumeError Workflow :=
  if EngineWorkflow.modelValidate version.definition then
    let workflow := EngineWorkflow.readWorkflow version.definition
    if workflow.nodes = [] then .error (.workflowNotExecutable
      s!"Version {version.versionNumber} has no nodes; nothing to run.")
    else .ok workflow
  else .error (.workflowNotExecutable
    (s!"Version {version.versionNumber} definition is not a valid workflow graph: " ++
      D.validationText version.definition))

-- `_RehydratedOutput.model_validate(payload or {})`
def rehydratedOutput (payload : Json) : Except ResumeError Dict :=
  if payload.truthy then
    match payload with
    | .obj kvs => .ok (OrderedDict.empty.update kvs)
    | _ => .error (.validation "_RehydratedOutput")
  else .ok .empty

def rehydratedEntry (kv : String × Json) : Except ResumeError (StepId × Dict) := do
  let output ← rehydratedOutput kv.2
  return (kv.1, output)

def executedStep : Json → Except ResumeError StepId
  | .str s => .ok s
  | _ => .error (.validation "WorkflowState")

-- `_rehydrate_state`
def rehydrateState : Except ResumeError WorkflowState := do
  let outputs ← (row.outputs.getD .empty).entries.mapM rehydratedEntry
  let nodesExecuted ← (row.nodesExecuted.getD []).mapM executedStep
  return ⟨OrderedDict.empty.update outputs, nodesExecuted, [], row.triggerPayload.getD .empty⟩

-- `set(approved_steps or []) | {paused_node_id}`, by its members.
def approve (paused : String) : Except ResumeError (List Json) :=
  let approved := row.approvedSteps.getD []
  if approved.all Json.hashable then .ok (.str paused :: approved) else .error .unhashable

def recordFields : List String :=
  ["run_id", "node_id", "prev_hash", "link_hash", "input_hash", "output_hash", "timestamp"]

def text (entry : Dict) (field : String) : Option String :=
  match entry.get? field with
  | some (.str s) => some s
  | _ => none

-- `EvidenceRecord.model_validate`
def readRecord : Json → Option EvidenceRecord
  | .obj kvs =>
      let entry : Dict := OrderedDict.empty.update kvs
      if entry.keys.all (· ∈ recordFields) then do
        let runId ← text entry "run_id"
        let nodeId ← text entry "node_id"
        let prevHash ← text entry "prev_hash"
        let linkHash ← text entry "link_hash"
        let inputHash ← text entry "input_hash"
        let outputHash ← text entry "output_hash"
        let timestamp ← (entry.get? "timestamp").bind D.parseTimestamp
        return ⟨runId, nodeId, prevHash, linkHash, inputHash, outputHash, timestamp⟩
      else none
  | _ => none

def evidenceRecord (entry : Json) : Except ResumeError EvidenceRecord :=
  match readRecord D entry with
  | some record => .ok record
  | none => .error (.validation "EvidenceRecord")

-- An enum read from a nullable text column; an empty text counts as none.
def member {α : Type} (enumeration : String) (parse : String → Option α) (unset : α) :
    Option String → Except ResumeError α
  | none => .ok unset
  | some text =>
      if text = "" then .ok unset
      else
        match parse text with
        | some x => .ok x
        | none => .error (.notMember enumeration text)

def resolveAutonomy : Except ResumeError IntegrationAutonomy :=
  match req.integrationAutonomy with
  | some autonomy => .ok autonomy
  | none => do
      let stored ← req.db.orgAutonomy
      AutonomyService.getEffectiveAutonomy (stored.join.getD .empty)

-- `resume_run` from the commit of its claim to the call of the engine.
def prepare : Except ResumeError Launch := do
  req.db.refresh
  let paused ← row.pausedNode
  let workflow ← loadWorkflow D req.version
  let resumeState ← row.rehydrateState
  let approvedSteps ← row.approve paused
  let priorEvidence ← (row.evidenceChain.getD []).mapM (evidenceRecord D)
  let activeTlp ← member "TLP" TLP.parse .red row.activeTlp
  let agentAutonomy ← member "AutonomyLevel" AutonomyLevel.parse .l2Supervised row.agentAutonomy
  let integrationAutonomy ← resolveAutonomy req
  return {
    workflow := workflow
    triggerPayload := row.triggerPayload.getD .empty
    ctx := ⟨row.id, some row.id, row.investigationId, req.orgId, row.triggeredBy, activeTlp.value⟩
    activeTlp := activeTlp
    agentAutonomy := agentAutonomy
    integrationAutonomy := integrationAutonomy
    resumeState := resumeState
    approvedSteps := approvedSteps
    priorEvidence := priorEvidence
    priorOutputs := row.outputs.getD .empty
    priorNodesExecuted := row.nodesExecuted.getD [] }

def Names {α : Type} (parse : String → Option α) (column : Option String) : Prop :=
  ∀ text ∈ column, text ≠ "" → (parse text).isSome

-- The org's overrides can be read, and the level of every editable category be hashed.
def ReadableOverrides (db : ResumeDb) : Prop :=
  ∃ stored, db.orgAutonomy = .ok stored ∧
    ∀ kv ∈ (stored.join.getD .empty).entries,
      kv.1 ∈ AutonomyService.EDITABLE_CATEGORIES → kv.2.hashable

structure Resumable : Prop where
  refreshed : req.db.refresh = .ok ()
  paused : ∃ paused, row.pausedNodeId = some paused ∧ paused ≠ ""
  executable : EngineWorkflow.modelValidate req.version.definition = true ∧
    (EngineWorkflow.readWorkflow req.version.definition).nodes ≠ []
  outputs : ∀ kv ∈ (row.outputs.getD .empty).entries, kv.2.truthy → ∃ kvs, kv.2 = .obj kvs
  nodes : ∀ x ∈ row.nodesExecuted.getD [], ∃ stepId, x = .str stepId
  approvals : ∀ x ∈ row.approvedSteps.getD [], x.hashable
  evidence : ∀ entry ∈ row.evidenceChain.getD [], (readRecord D entry).isSome
  tlp : Names TLP.parse row.activeTlp
  autonomy : Names AutonomyLevel.parse row.agentAutonomy
  posture : req.integrationAutonomy = none → ReadableOverrides req.db

section Spec
variable {D req row}

theorem pausedNode_ok_iff :
    (∃ paused, row.pausedNode = .ok paused) ↔
      ∃ paused, row.pausedNodeId = some paused ∧ paused ≠ "" := by
  unfold pausedNode
  cases hp : row.pausedNodeId with
  | none => simp
  | some paused => by_cases h : paused = "" <;> simp [h]

theorem loadWorkflow_ok_iff {version : WorkflowVersionRow} :
    (∃ workflow, loadWorkflow D version = .ok workflow) ↔
      EngineWorkflow.modelValidate version.definition = true ∧
        (EngineWorkflow.readWorkflow version.definition).nodes ≠ [] := by
  unfold loadWorkflow
  by_cases hvalid : EngineWorkflow.modelValidate version.definition = true
  · by_cases hnodes : (EngineWorkflow.readWorkflow version.definition).nodes = []
    · simp [hvalid, hnodes]
    · simp [hvalid, hnodes]
  · simp [hvalid]

theorem rehydratedOutput_ok_iff {payload : Json} :
    (∃ output, rehydratedOutput payload = .ok output) ↔
      (payload.truthy → ∃ kvs, payload = .obj kvs) := by
  unfold rehydratedOutput
  by_cases h : payload.truthy = true
  · cases payload <;> simp [h]
  · simp [h]

theorem executedStep_ok_iff {x : Json} :
    (∃ stepId, executedStep x = .ok stepId) ↔ ∃ stepId, x = .str stepId := by
  cases x <;> simp [executedStep]

theorem rehydratedEntry_ok_iff {kv : String × Json} :
    (∃ entry, rehydratedEntry kv = .ok entry) ↔ (kv.2.truthy → ∃ kvs, kv.2 = .obj kvs) := by
  rw [rehydratedEntry, Except.bind_succeeds, ← rehydratedOutput_ok_iff]
  exact ⟨fun ⟨output, h, _⟩ => ⟨output, h⟩, fun ⟨output, h⟩ => ⟨output, h, _, rfl⟩⟩

theorem rehydrateState_ok_iff :
    (∃ state, row.rehydrateState = .ok state) ↔
      (∀ kv ∈ (row.outputs.getD .empty).entries, kv.2.truthy → ∃ kvs, kv.2 = .obj kvs) ∧
        ∀ x ∈ row.nodesExecuted.getD [], ∃ stepId, x = .str stepId := by
  simp only [rehydrateState, Except.bind_succeeds, ← rehydratedEntry_ok_iff,
    ← executedStep_ok_iff]
  constructor
  · rintro ⟨outputs, houtputs, nodes, hnodes, -⟩
    exact ⟨Except.mapM_succeeds.mp ⟨outputs, houtputs⟩, Except.mapM_succeeds.mp ⟨nodes, hnodes⟩⟩
  · rintro ⟨houtputs, hnodes⟩
    obtain ⟨outputs, houtputs⟩ := Except.mapM_succeeds.mpr houtputs
    obtain ⟨nodes, hnodes⟩ := Except.mapM_succeeds.mpr hnodes
    exact ⟨outputs, houtputs, nodes, hnodes, _, rfl⟩

theorem approve_ok_iff {paused : String} :
    (∃ approved, row.approve paused = .ok approved) ↔
      ∀ x ∈ row.approvedSteps.getD [], x.hashable := by
  simp only [approve, ← List.all_eq_true]
  split <;> simp_all

theorem evidenceRecord_ok_iff {entry : Json} :
    (∃ record, evidenceRecord D entry = .ok record) ↔ (readRecord D entry).isSome := by
  unfold evidenceRecord
  cases readRecord D entry <;> simp

theorem member_ok_iff {α : Type} {enumeration : String} {parse : String → Option α} {unset : α}
    {column : Option String} :
    (∃ x, member enumeration parse unset column = .ok x) ↔ Names parse column := by
  cases column with
  | none => simp [member, Names]
  | some text =>
      by_cases h : text = ""
      · simp [member, Names, h]
      · cases hp : parse text <;> simp [member, Names, h, hp]

theorem getEffectiveAutonomy_ok_iff {overrides : Dict} :
    (∃ autonomy, AutonomyService.getEffectiveAutonomy overrides = .ok autonomy) ↔
      ∀ kv ∈ overrides.entries, kv.1 ∈ AutonomyService.EDITABLE_CATEGORIES → kv.2.hashable := by
  unfold AutonomyService.getEffectiveAutonomy
  split
  · next h =>
      obtain ⟨kv, hkv, hbad⟩ := List.any_eq_true.mp h
      simp only [Bool.and_eq_true, decide_eq_true_eq, Bool.not_eq_true'] at hbad
      simp only [reduceCtorEq, exists_false, false_iff]
      intro hall
      rw [hall kv hkv hbad.1] at hbad
      cases hbad.2
  · next h =>
      simp only [Bool.not_eq_true, List.any_eq_false, Bool.and_eq_true, decide_eq_true_eq,
        Bool.not_eq_true', not_and, Bool.not_eq_false] at h
      exact ⟨fun _ => h, fun _ => ⟨_, rfl⟩⟩

theorem resolveAutonomy_ok_iff :
    (∃ autonomy, resolveAutonomy req = .ok autonomy) ↔
      (req.integrationAutonomy = none → ReadableOverrides req.db) := by
  unfold resolveAutonomy
  cases hreq : req.integrationAutonomy with
  | some autonomy => simp
  | none => simp only [Except.bind_succeeds, getEffectiveAutonomy_ok_iff, ReadableOverrides,
      true_imp_iff]

theorem prepare_ok_iff : (∃ launch, prepare D req row = .ok launch) ↔ Resumable D req row := by
  unfold prepare
  constructor
  · rintro ⟨launch, h⟩
    obtain ⟨_, hrefresh, h⟩ := Except.bind_ok_iff.mp h
    obtain ⟨paused, hpaused, h⟩ := Except.bind_ok_iff.mp h
    obtain ⟨workflow, hworkflow, h⟩ := Except.bind_ok_iff.mp h
    obtain ⟨state, hstate, h⟩ := Except.bind_ok_iff.mp h
    obtain ⟨approved, happroved, h⟩ := Except.bind_ok_iff.mp h
    obtain ⟨evidence, hevidence, h⟩ := Except.bind_ok_iff.mp h
    obtain ⟨tlp, htlp, h⟩ := Except.bind_ok_iff.mp h
    obtain ⟨agent, hagent, h⟩ := Except.bind_ok_iff.mp h
    obtain ⟨autonomy, hautonomy, -⟩ := Except.bind_ok_iff.mp h
    obtain ⟨houtputs, hnodes⟩ := rehydrateState_ok_iff.mp ⟨state, hstate⟩
    exact {
      refreshed := hrefresh
      paused := pausedNode_ok_iff.mp ⟨paused, hpaused⟩
      executable := loadWorkflow_ok_iff.mp ⟨workflow, hworkflow⟩
      outputs := houtputs
      nodes := hnodes
      approvals := approve_ok_iff.mp ⟨approved, happroved⟩
      evidence := fun entry hentry =>
        evidenceRecord_ok_iff.mp (Except.mapM_succeeds.mp ⟨evidence, hevidence⟩ entry hentry)
      tlp := member_ok_iff.mp ⟨tlp, htlp⟩
      autonomy := member_ok_iff.mp ⟨agent, hagent⟩
      posture := resolveAutonomy_ok_iff.mp ⟨autonomy, hautonomy⟩ }
  · intro h
    obtain ⟨paused, hpaused⟩ := pausedNode_ok_iff.mpr h.paused
    obtain ⟨workflow, hworkflow⟩ := loadWorkflow_ok_iff.mpr h.executable
    obtain ⟨state, hstate⟩ := rehydrateState_ok_iff.mpr ⟨h.outputs, h.nodes⟩
    obtain ⟨approved, happroved⟩ : ∃ x, row.approve paused = .ok x := approve_ok_iff.mpr h.approvals
    obtain ⟨evidence, hevidence⟩ := Except.mapM_succeeds.mpr fun entry hentry =>
      evidenceRecord_ok_iff.mpr (h.evidence entry hentry)
    obtain ⟨tlp, htlp⟩ : ∃ x, member "TLP" TLP.parse .red row.activeTlp = .ok x :=
      member_ok_iff.mpr h.tlp
    obtain ⟨agent, hagent⟩ : ∃ x, member "AutonomyLevel" AutonomyLevel.parse .l2Supervised
        row.agentAutonomy = .ok x := member_ok_iff.mpr h.autonomy
    obtain ⟨autonomy, hautonomy⟩ := resolveAutonomy_ok_iff.mpr h.posture
    refine Except.bind_succeeds.mpr ⟨(), h.refreshed, ?_⟩
    refine Except.bind_succeeds.mpr ⟨paused, hpaused, ?_⟩
    refine Except.bind_succeeds.mpr ⟨workflow, hworkflow, ?_⟩
    refine Except.bind_succeeds.mpr ⟨state, hstate, ?_⟩
    refine Except.bind_succeeds.mpr ⟨approved, happroved, ?_⟩
    refine Except.bind_succeeds.mpr ⟨evidence, hevidence, ?_⟩
    refine Except.bind_succeeds.mpr ⟨tlp, htlp, ?_⟩
    refine Except.bind_succeeds.mpr ⟨agent, hagent, ?_⟩
    exact Except.bind_succeeds.mpr ⟨autonomy, hautonomy, _, rfl⟩

end Spec

end StoredRun

end BTagent
