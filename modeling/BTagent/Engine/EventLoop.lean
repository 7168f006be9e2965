import BTagent.Engine.Runner
import BTagent.Lib.Machine

namespace BTagent

inductive Phase where
  | head
  | hooks (f : Frame) (stage : Stage) (rest : List Hook)
  | emitting (f : Frame) (stage : Stage) (rest : List Hook)
  | running (f : Frame)
  | gather (kids : List ℕ)
  | finished (last : Option Dict)
  | failed (e : Failure)

-- One `_walk` on the event loop: its loop variables and where it stands.
structure Task where
  current : Option StepId
  carried : Payload
  last : Option Dict
  stopAt : Option StepId
  phase : Phase

-- `active` is the task between two awaits; `fails` orders the failed tasks by time. The last four
-- fields record what happened: steps visited, steps forked, `node.run` calls and their returns.
structure Exec where
  state : WorkflowState
  md : Metadata
  evidence : List EvidenceEntry
  tasks : List Task
  active : Option ℕ
  fails : List ℕ
  visits : List StepId
  forks : List StepId
  runs : List Frame
  returned : List Frame

inductive Returned where
  | output (d : Dict)
  | invalid (what : String)
  | raised (what : String)

inductive Event where
  | wake (i : ℕ)
  | act (refusal : Option String)
  | ret (i : ℕ) (r : Returned)
  | emitted (i : ℕ) (error : Option String)

namespace Task

def start (stopAt : Option StepId) (payload : Payload) (stepId : StepId) : Task :=
  ⟨some stepId, payload, none, stopAt, .head⟩

def goto (t : Task) (output : Dict) (next : Option StepId) : Task :=
  { t with current := next, carried := .model output, last := some output, phase := .head }

def at_ (t : Task) (p : Phase) : Task := { t with phase := p }

def target (t : Task) : Option StepId :=
  if t.current = t.stopAt then none else t.current

end Task

namespace Exec

def start (state : WorkflowState) (approvedSteps : List StepId) (evidence : List EvidenceEntry)
    (payload : Payload) (entry : StepId) : Exec where
  state := state
  md := ⟨none, approvedSteps, none, none, none⟩
  evidence := evidence
  tasks := [Task.start none payload entry]
  active := some 0
  fails := []
  visits := []
  forks := []
  runs := []
  returned := []

def put (s : Exec) (i : ℕ) (t : Task) : Exec := { s with tasks := s.tasks.set i t }

def idle (s : Exec) : Exec := { s with active := none }

def fail (s : Exec) (i : ℕ) (t : Task) (e : Failure) : Exec :=
  { s.put i (t.at_ (.failed e)) with active := none, fails := s.fails ++ [i] }

def phase? (s : Exec) (i : ℕ) : Option Phase := (s.tasks[i]?).map (·.phase)

def failure? (s : Exec) (i : ℕ) : Option Failure :=
  match s.phase? i with
  | some (.failed e) => some e
  | _ => none

def result? (s : Exec) (i : ℕ) : Option (Option Dict) :=
  match s.phase? i with
  | some (.finished last) => some last
  | _ => none

-- `asyncio.gather` raises what the first of its failed tasks raised.
def gatherFailure (s : Exec) (kids : List ℕ) : Option Failure :=
  (s.fails.find? fun i => i ∈ kids).bind s.failure?

def gatherResults (s : Exec) (kids : List ℕ) : Option (List (Option Dict)) :=
  kids.mapM s.result?

def ready (s : Exec) (t : Task) : Bool :=
  match t.phase with
  | .head => true
  | .gather kids => (s.gatherFailure kids).isSome || (s.gatherResults kids).isSome
  | _ => false

end Exec

namespace EventLoop

def mergeFrame (stepId : StepId) (results : List (Option Dict)) : Frame :=
  ⟨stepId, Executor.parallelNode, Executor.mergeInput results⟩

variable (E : Engine) (P : Posture) (wf : Workflow) (chain : List Hook)

def enter (s : Exec) (i : ℕ) (t : Task) (stepId : StepId) (node : NodeClass) (input : Dict) :
    Exec :=
  let s := { s with md := { s.md with currentStepId := some stepId } }
  match node.validate input with
  | .error what => s.fail i t (.execution (.runFailed stepId what))
  | .ok input => s.put i (t.at_ (.hooks ⟨stepId, node, input⟩ .before chain))

def openFork (s : Exec) (i : ℕ) (t : Task) (stepId : StepId) (targets : List StepId) : Exec :=
  let s := { s with forks := s.forks ++ [stepId] }
  match targets with
  | [] => s.put i (t.at_ (.hooks (mergeFrame stepId []) .before chain))
  | _ =>
      let branches := targets.map (Task.start (Executor.joinTarget wf stepId) t.carried)
      let kids := (List.range branches.length).map fun k => s.tasks.length + k
      let s := s.put i (t.at_ (.gather kids))
      { s with tasks := s.tasks ++ branches, active := none }

def visitStep (s : Exec) (i : ℕ) (t : Task) (stepId : StepId) : Exec :=
  let v := Executor.visit E wf stepId t.carried s.state
  let s := { s with visits := s.visits ++ [stepId] }
  match v with
  | .fail e => s.fail i t e
  | .reuse output next => s.put i (t.goto output next)
  | .passthrough output next =>
      { s.put i (t.goto output next) with state := s.state.record stepId output }
  | .fork targets => openFork wf chain s i t stepId targets
  | .execute node input => enter chain s i t stepId node input

def complete (s : Exec) (i : ℕ) (t : Task) (f : Frame) (output : Dict) : Exec :=
  let s := { s with state := s.state.record f.stepId output }
  match wf.step f.stepId with
  | none => s.fail i t (.execution (.unknownStep f.stepId))
  | some node =>
      match Executor.route wf node output with
      | .ok next => s.put i (t.goto output next)
      | .error e => s.fail i t (.execution e)

def leaveStage (s : Exec) (i : ℕ) (t : Task) (f : Frame) : Stage → Exec
  | .before => { (s.put i (t.at_ (.running f))).idle with runs := s.runs ++ [f] }
  | .after output => complete wf s i t f output
  | .error e => s.fail i t (e.wrap f.stepId)

def callHook (s : Exec) (i : ℕ) (t : Task) (f : Frame) (stage : Stage) (h : Hook)
    (rest : List Hook) (refusal : Option String) : Exec :=
  if h = .eventEmitter then (s.put i (t.at_ (.emitting f stage rest))).idle
  else
    match Runner.runHook P h f refusal s.md s.evidence stage with
    | .ok (md, evidence) =>
        { s.put i (t.at_ (.hooks f stage rest)) with md := md, evidence := evidence }
    | .error e => s.fail i t (e.wrap f.stepId)

def joinFork (s : Exec) (i : ℕ) (t : Task) (kids : List ℕ) : Option Exec :=
  match s.gatherFailure kids with
  | some e => some (s.fail i t e)
  | none =>
      match s.gatherResults kids, t.current with
      | some results, some stepId =>
          some (s.put i (t.at_ (.hooks (mergeFrame stepId results) .before chain)))
      | _, _ => none

def act (s : Exec) (i : ℕ) (t : Task) (refusal : Option String) : Option Exec :=
  match t.phase with
  | .head =>
      match t.target with
      | none => some (s.put i (t.at_ (.finished t.last))).idle
      | some stepId => some (visitStep E wf chain s i t stepId)
  | .hooks f stage [] => some (leaveStage wf s i t f stage)
  | .hooks f stage (h :: rest) => some (callHook P s i t f stage h rest refusal)
  | .gather kids => joinFork chain s i t kids
  | _ => none

def returnRun (s : Exec) (i : ℕ) (t : Task) (f : Frame) : Returned → Exec
  | .output d =>
      { s.put i (t.at_ (.hooks f (.after d) chain.reverse)) with
        active := some i, returned := s.returned ++ [f] }
  | .invalid what => s.fail i t (.execution (.runFailed f.stepId what))
  | .raised what =>
      { s.put i (t.at_ (.hooks f (.error (.other what)) chain.reverse)) with active := some i }

def endEmission (s : Exec) (i : ℕ) (t : Task) (f : Frame) (stage : Stage) (rest : List Hook) :
    Option String → Exec
  | none => { s.put i (t.at_ (.hooks f stage rest)) with active := some i }
  | some what => s.fail i t (.execution (.runFailed f.stepId what))

def step (s : Exec) : Event → Option Exec
  | .wake i =>
      match s.active, s.tasks[i]? with
      | none, some t => if s.ready t then some { s with active := some i } else none
      | _, _ => none
  | .act refusal =>
      match s.active with
      | some i => (s.tasks[i]?).bind fun t => act E P wf chain s i t refusal
      | none => none
  | .ret i r =>
      match s.active, s.tasks[i]? with
      | none, some t =>
          match t.phase with
          | .running f => some (returnRun chain s i t f r)
          | _ => none
      | _, _ => none
  | .emitted i error =>
      match s.active, s.tasks[i]? with
      | none, some t =>
          match t.phase with
          | .emitting f stage rest => some (endEmission s i t f stage rest error)
          | _ => none
      | _, _ => none

def machine : Machine Exec Event := ⟨step E P wf chain⟩

-- `WorkflowExecutor.execute` up to the first iteration of its walk.
def execute (resume : Option WorkflowState) (approvedSteps : List StepId)
    (evidence : List EvidenceEntry) (input : Payload) : Except ExecutionError Exec := do
  let state :=
    match resume with
    | some st => { st with completedSteps := st.nodesExecuted }
    | none => WorkflowState.fresh input.rawBase
  let entry ← Executor.findEntryId wf
  return Exec.start state approvedSteps evidence input entry

end EventLoop

end BTagent
