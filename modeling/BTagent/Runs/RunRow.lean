import BTagent.Data.Jsonb
import BTagent.Engine.EventLoop
import Mathlib.Data.List.Dedup

namespace BTagent

inductive WorkflowRunStatus where
  | pending
  | running
  | succeeded
  | failed
  | paused
  deriving DecidableEq, Repr

structure Outcome where
  status : WorkflowRunStatus
  outputs : OrderedDict StepId Dict
  finalOutput : Option Dict
  nodesExecuted : List StepId
  evidenceChain : List EvidenceEntry
  error : Option Failure
  pausedNodeId : Option StepId

-- The columns of a row of `workflow_runs` that a run reads or writes.
structure WorkflowRunRow where
  status : WorkflowRunStatus
  pausedNodeId : Option StepId
  approvedSteps : List StepId
  triggerPayload : Dict
  outputs : OrderedDict StepId Dict
  finalOutput : Option Dict
  nodesExecuted : List StepId
  evidenceChain : List EvidenceEntry
  error : Option Failure

namespace Outcome

-- `_run_capture` once the walk has ended.
def capture (st : WorkflowState) (evidence : List EvidenceEntry) :
    Except Failure (Option Dict) → Outcome
  | .ok last => ⟨.succeeded, st.outputs, last, st.nodesExecuted, evidence, none, none⟩
  | .error (.paused stepId cause) =>
      ⟨.paused, st.outputs, none, st.nodesExecuted, evidence, some (.paused stepId cause),
        some stepId⟩
  | .error e => ⟨.failed, .empty, none, [], evidence, some e, none⟩

section Spec
variable {st : WorkflowState} {evidence : List EvidenceEntry} {r : Except Failure (Option Dict)}

@[simp] theorem capture_evidence : (capture st evidence r).evidenceChain = evidence := by
  unfold capture
  split <;> rfl

theorem capture_recorded (h : (capture st evidence r).status ≠ .failed) :
    (capture st evidence r).outputs = st.outputs ∧
      (capture st evidence r).nodesExecuted = st.nodesExecuted := by
  cases r with
  | ok last => exact ⟨rfl, rfl⟩
  | error e =>
      cases e with
      | paused c p => exact ⟨rfl, rfl⟩
      | execution x | unexpected what => exact absurd rfl h

theorem capture_failed (h : (capture st evidence r).status = .failed) :
    (capture st evidence r).outputs = .empty ∧ (capture st evidence r).nodesExecuted = [] := by
  cases r with
  | ok last => cases h
  | error e =>
      cases e with
      | paused c p => cases h
      | execution x | unexpected what => exact ⟨rfl, rfl⟩

end Spec

end Outcome

namespace WorkflowRunRow

section Store
variable (N : JsonbNumeric)

def storeOutputs (outputs : OrderedDict StepId Dict) : OrderedDict StepId Dict where
  entries := Jsonb.sortKeys (outputs.mapVal (Jsonb.obj N)).entries
  nodup := (Jsonb.sortKeys_perm.map Prod.fst).nodup_iff.mpr (outputs.mapVal (Jsonb.obj N)).nodup

-- `execute_version`
def create (triggerPayload : Dict) (o : Outcome) : WorkflowRunRow where
  status := o.status
  pausedNodeId := o.pausedNodeId
  approvedSteps := []
  triggerPayload := Jsonb.obj N triggerPayload
  outputs := storeOutputs N o.outputs
  finalOutput := o.finalOutput.map (Jsonb.obj N)
  nodesExecuted := o.nodesExecuted
  evidenceChain := o.evidenceChain
  error := o.error

-- `create_pending_run`
def createPending (triggerPayload : Dict) : WorkflowRunRow where
  status := .running
  pausedNodeId := none
  approvedSteps := []
  triggerPayload := Jsonb.obj N triggerPayload
  outputs := .empty
  finalOutput := none
  nodesExecuted := []
  evidenceChain := []
  error := none

-- `execute_pending_run` after its attempt.
def complete (row : WorkflowRunRow) (o : Outcome) : WorkflowRunRow :=
  { row with
    status := o.status
    outputs := storeOutputs N o.outputs
    finalOutput := o.finalOutput.map (Jsonb.obj N)
    nodesExecuted := o.nodesExecuted
    evidenceChain := o.evidenceChain
    error := o.error
    pausedNodeId := o.pausedNodeId }

-- `resume_run` after its attempt; a failed one keeps the checkpoint it started from.
def update (row : WorkflowRunRow) (approved : List StepId) (o : Outcome) : WorkflowRunRow :=
  let failed := o.status = .failed
  { row with
    status := o.status
    outputs := if failed then row.outputs else storeOutputs N o.outputs
    finalOutput := if failed then none else o.finalOutput.map (Jsonb.obj N)
    nodesExecuted := if failed then row.nodesExecuted else o.nodesExecuted
    evidenceChain :=
      if failed ∧ o.evidenceChain.isEmpty then row.evidenceChain else o.evidenceChain
    error := o.error
    pausedNodeId := o.pausedNodeId
    approvedSteps := approved.insertionSort (· ≤ ·) }

end Store

def approve (row : WorkflowRunRow) (paused : StepId) : List StepId :=
  (paused :: row.approvedSteps).dedup

def rehydrate (row : WorkflowRunRow) : WorkflowState :=
  ⟨row.outputs, row.nodesExecuted, [], row.triggerPayload⟩

section Spec
variable {N : JsonbNumeric} {outputs : OrderedDict StepId Dict}

theorem get?_storeOutputs (c : StepId) :
    (storeOutputs N outputs).get? c = (outputs.get? c).map (Jsonb.obj N) := by
  rw [← OrderedDict.get?_mapVal]
  exact OrderedDict.find_perm (storeOutputs N outputs).nodup Jsonb.sortKeys_perm

theorem mem_storeOutputs {c : StepId} : c ∈ (storeOutputs N outputs).keys ↔ c ∈ outputs.keys := by
  rw [← OrderedDict.get?_isSome, ← OrderedDict.get?_isSome, get?_storeOutputs, Option.isSome_map]

theorem mem_approve {row : WorkflowRunRow} {paused c : StepId} :
    c ∈ row.approve paused ↔ c = paused ∨ c ∈ row.approvedSteps := by
  rw [approve, List.mem_dedup, List.mem_cons]

theorem mem_update_approvedSteps {row : WorkflowRunRow} {approved : List StepId} {o : Outcome}
    {c : StepId} : c ∈ (row.update N approved o).approvedSteps ↔ c ∈ approved :=
  List.mem_insertionSort _

end Spec

end WorkflowRunRow

end BTagent
