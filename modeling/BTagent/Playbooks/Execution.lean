import BTagent.Data.Jsonb
import BTagent.Data.Timestamp
import BTagent.Lib.Machine
import BTagent.Playbooks.Backend

namespace BTagent

inductive PlaybookStatus where
  | PENDING
  | RUNNING
  | PAUSED_HITL
  | COMPLETED
  | FAILED
  | CANCELLED
  deriving DecidableEq

def PlaybookStatus.value : PlaybookStatus → String
  | PENDING => "pending"
  | RUNNING => "running"
  | PAUSED_HITL => "paused_hitl"
  | COMPLETED => "completed"
  | FAILED => "failed"
  | CANCELLED => "cancelled"

inductive StepExecutionStatus where
  | PENDING
  | RUNNING
  | COMPLETED
  | FAILED
  | REJECTED
  | PARTIALLY_FAILED
  deriving DecidableEq

inductive StepOutput where
  | empty
  | stub
  | awaitingApproval
  | decided (approved : Bool) (approverId comment : String)

def StepOutput.awaits : StepOutput → Bool
  | awaitingApproval => true
  | empty | stub | decided .. => false

structure StepResult where
  stepId : StepId
  status : StepExecutionStatus
  startedAt : String
  completedAt : Option String
  output : StepOutput

abbrev StepResults := OrderedDict StepId StepResult

structure PlaybookExecutionRow where
  status : PlaybookStatus
  stepResults : StepResults
  error : Option String
  completedAt : Option Timestamp

-- A background task of `_run_execution_stub`, by the place where it stands.
inductive StepWalker where
  | starting (yaml : String) (resumeAfter : Option StepId) (results : StepResults)
  | walking (pending : List PlaybookStep) (results : StepResults)
  | sleeping (step : PlaybookStep) (pending : List PlaybookStep) (results : StepResults)
  | over

-- A call of `resolve_hitl_gate`: what it will write, or the walk it has still to start.
inductive Decision where
  | deciding (gateId : StepId) (approved : Bool) (results : StepResults) (now : Timestamp)
  | resuming (gateId : StepId) (results : StepResults)
  | over

-- One execution and its playbook. `ran` has the steps that were started, in order; `decided` and
-- `resumed` have the decisions that were written and the walks started after them.
structure PlaybookRun where
  yamlContent : String
  row : PlaybookExecutionRow
  walkers : List StepWalker
  decisions : List Decision
  ran : List PlaybookStep
  decided : List (StepId × Bool)
  resumed : List StepId

inductive PlaybookEvent where
  | update (yaml : String)
  | decide (approved : Bool) (approverId comment : String) (now : Timestamp)
  | writeDecision (d : ℕ)
  | dropDecision (d : ℕ)
  | resume (d : ℕ)
  | begin (w : ℕ) (now : Timestamp)
  | advance (w : ℕ) (now : Timestamp)
  | complete (w : ℕ) (now : Timestamp)

namespace PlaybookService

open Playbook

def untilGate : List PlaybookStep → List PlaybookStep
  | [] => []
  | step :: steps => if step.type = .hitlGate then [step] else step :: untilGate steps

-- `none` where the step to resume after is not in the definition (`KeyError`).
def stepsUntilGate (definition : PlaybookDefinition) :
    Option StepId → Option (List PlaybookStep)
  | none => some (untilGate definition.steps)
  | some resumeAfter =>
      let ids := definition.steps.map (·.id)
      if resumeAfter ∈ ids then
        some (untilGate (definition.steps.drop (ids.idxOf resumeAfter + 1)))
      else none

def runningResult (step : PlaybookStep) (now : Timestamp) (output : StepOutput) : StepResult :=
  ⟨step.id, .RUNNING, now.isoformat, none, output⟩

def completedResult (result : StepResult) (now : Timestamp) : StepResult :=
  { result with status := .COMPLETED, completedAt := some now.isoformat, output := .stub }

def resolvedResult (result : StepResult) (approved : Bool) (approverId comment : String)
    (now : Timestamp) : StepResult :=
  { result with
    status := if approved then .COMPLETED else .REJECTED
    completedAt := some now.isoformat
    output := .decided approved approverId comment }

-- The column gives the results back in its own order of keys.
def awaitingGate (results : StepResults) : Option (StepId × StepResult) :=
  (Jsonb.sortKeys results.entries).find? fun entry => entry.2.output.awaits

-- What `resolve_hitl_gate` will write of the row it was given, unless no gate is pending.
def resolveHitlGate (row : PlaybookExecutionRow) (approved : Bool) (approverId comment : String)
    (now : Timestamp) : Except String Decision :=
  if row.status ≠ .PAUSED_HITL then
    .error s!"Execution is {row.status.value}, not awaiting a HITL decision"
  else
    match awaitingGate row.stepResults with
    | none => .error "Execution is paused but no step is marked awaiting approval"
    | some (gateId, result) => .ok (.deciding gateId approved
        (row.stepResults.set gateId (resolvedResult result approved approverId comment now)) now)

def decidedRow (row : PlaybookExecutionRow) (gateId : StepId) (approved : Bool)
    (results : StepResults) (now : Timestamp) : PlaybookExecutionRow :=
  if approved then { row with stepResults := results, status := .RUNNING }
  else { row with
    stepResults := results
    status := .FAILED
    error := some s!"HITL gate {gateId} was not approved"
    completedAt := some now }

end PlaybookService

namespace PlaybookRun

open PlaybookService

variable (P : Compiler.Deps)

-- The execution right after `execute_playbook` has stored it and created its task.
def dispatch (yaml : String) : PlaybookRun where
  yamlContent := yaml
  row := ⟨.RUNNING, .empty, none, none⟩
  walkers := [.starting yaml none .empty]
  decisions := []
  ran := []
  decided := []
  resumed := []

def setWalker (s : PlaybookRun) (w : ℕ) (walker : StepWalker) : PlaybookRun :=
  { s with walkers := s.walkers.set w walker }

def setDecision (s : PlaybookRun) (d : ℕ) (decision : Decision) : PlaybookRun :=
  { s with decisions := s.decisions.set d decision }

def failCompile (s : PlaybookRun) (w : ℕ) (now : Timestamp) : PlaybookRun :=
  { s.setWalker w .over with
    row := { s.row with
      status := .FAILED, error := some "compile failed", completedAt := some now } }

def begin (s : PlaybookRun) (w : ℕ) (yaml : String) (resumeAfter : Option StepId)
    (results : StepResults) (now : Timestamp) : PlaybookRun :=
  match compilePlaybook P yaml with
  | .error _ => s.failCompile w now
  | .ok definition =>
      match stepsUntilGate definition resumeAfter with
      | none => s.setWalker w .over
      | some pending => s.setWalker w (.walking pending results)

def advance (s : PlaybookRun) (w : ℕ) (pending : List PlaybookStep) (results : StepResults)
    (now : Timestamp) : PlaybookRun :=
  match pending with
  | [] =>
      { s.setWalker w .over with
        row := { s.row with status := .COMPLETED, completedAt := some now } }
  | step :: rest =>
      if step.type = .hitlGate then
        { s.setWalker w .over with
          row := { s.row with
            status := .PAUSED_HITL
            stepResults := results.set step.id (runningResult step now .awaitingApproval) }
          ran := s.ran ++ [step] }
      else
        let results := results.set step.id (runningResult step now .empty)
        { s.setWalker w (.sleeping step rest results) with
          row := { s.row with stepResults := results }
          ran := s.ran ++ [step] }

def complete (s : PlaybookRun) (w : ℕ) (step : PlaybookStep) (pending : List PlaybookStep)
    (results : StepResults) (now : Timestamp) : PlaybookRun :=
  let results :=
    match results.get? step.id with
    | some result => results.set step.id (completedResult result now)
    | none => results
  { s.setWalker w (.walking pending results) with row := { s.row with stepResults := results } }

def step (s : PlaybookRun) : PlaybookEvent → Option PlaybookRun
  | .update yaml =>
      match compilePlaybook P yaml with
      | .error _ => some s
      | .ok _ => some { s with yamlContent := yaml }
  | .decide approved approverId comment now =>
      match resolveHitlGate s.row approved approverId comment now with
      | .error _ => some s
      | .ok decision => some { s with decisions := s.decisions ++ [decision] }
  | .writeDecision d =>
      match s.decisions[d]? with
      | some (.deciding gateId approved results now) =>
          some { s.setDecision d (if approved then .resuming gateId results else .over) with
            row := decidedRow s.row gateId approved results now
            decided := s.decided ++ [(gateId, approved)] }
      | _ => none
  | .dropDecision d =>
      match s.decisions[d]? with
      | some (.deciding ..) => some (s.setDecision d .over)
      | _ => none
  | .resume d =>
      match s.decisions[d]? with
      | some (.resuming gateId results) =>
          some { s.setDecision d .over with
            walkers := s.walkers ++ [.starting s.yamlContent (some gateId) results]
            resumed := s.resumed ++ [gateId] }
      | _ => none
  | .begin w now =>
      match s.walkers[w]? with
      | some (.starting yaml resumeAfter results) => some (begin P s w yaml resumeAfter results now)
      | _ => none
  | .advance w now =>
      match s.walkers[w]? with
      | some (.walking pending results) => some (s.advance w pending results now)
      | _ => none
  | .complete w now =>
      match s.walkers[w]? with
      | some (.sleeping step pending results) => some (s.complete w step pending results now)
      | _ => none

def machine : Machine PlaybookRun PlaybookEvent := ⟨step P⟩

end PlaybookRun

end BTagent
