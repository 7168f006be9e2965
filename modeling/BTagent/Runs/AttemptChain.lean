import BTagent.Engine.Completion
import BTagent.Runs.RunRow

namespace BTagent

-- One call of the engine for a run row: what it was resumed from and what it persisted.
structure Attempt where
  posture : Posture
  exec : Exec
  approved : List StepId
  resumed : Option WorkflowRunRow
  saved : Option WorkflowRunRow

inductive ChainEvent where
  | loop (k : ℕ) (e : Event)
  | resume (integrationAutonomy : IntegrationAutonomy)

namespace Attempt

def checkpoint (a : Attempt) : OrderedDict StepId Dict × List StepId :=
  match a.resumed with
  | none => (.empty, [])
  | some row => (row.outputs, row.nodesExecuted)

def row (N : JsonbNumeric) (payload : Dict) (a : Attempt) (o : Outcome) : WorkflowRunRow :=
  match a.resumed with
  | none => .create N payload o
  | some row => row.update N a.approved o

-- The row is captured in the step in which the outermost walk ends; branches may go on.
def capture (N : JsonbNumeric) (payload : Dict) (a : Attempt) : Attempt :=
  match a.saved, a.exec.ended with
  | none, some r =>
      { a with saved := some (a.row N payload (.capture a.exec.state a.exec.evidence r)) }
  | _, _ => a

end Attempt

namespace AttemptChain
open EventLoop

variable (E : Engine) (N : JsonbNumeric) (wf : Workflow) (payload : Dict)

def resumeRun (row : WorkflowRunRow) (posture : Posture) : Option Attempt :=
  if row.status = .paused then
    match row.pausedNodeId with
    | none => none
    | some paused =>
        match execute wf (some row.rehydrate) (row.approve paused) row.evidenceChain
          (.dict row.triggerPayload) with
        | .ok s => some ⟨posture, s, row.approve paused, some row, none⟩
        | .error _ => none
  else none

variable {wf} in
theorem resumeRun_spec {row : WorkflowRunRow} {posture : Posture} {a : Attempt}
    (h : resumeRun wf row posture = some a) :
    row.status = .paused ∧ ∃ paused entry, row.pausedNodeId = some paused ∧
      Executor.findEntryId wf = .ok entry ∧ a = ⟨posture,
        Exec.start { row.rehydrate with completedSteps := row.nodesExecuted } (row.approve paused)
          row.evidenceChain (.dict row.triggerPayload) entry, row.approve paused, some row, none⟩ := by
  unfold resumeRun at h
  split at h
  · next hstatus =>
      refine ⟨hstatus, ?_⟩
      split at h
      · cases h
      · next paused hpaused =>
          split at h
          · next s hs =>
              obtain ⟨entry, rfl, hentry⟩ := execute_ok hs
              cases h
              exact ⟨paused, entry, hpaused, hentry, rfl⟩
          · cases h
  · cases h

def step (attempts : List Attempt) : ChainEvent → Option (List Attempt)
  | .loop k e =>
      match attempts[k]? with
      | none => none
      | some a =>
          (EventLoop.step E a.posture wf backendChain a.exec e).map fun s =>
            attempts.set k ({ a with exec := s }.capture N payload)
  | .resume autonomy =>
      match attempts.getLast? with
      | none => none
      | some a =>
          match a.saved with
          | none => none
          | some row =>
              (resumeRun wf row { a.posture with integrationAutonomy := autonomy }).map fun a' =>
                attempts ++ [a']

def machine : Machine (List Attempt) ChainEvent := ⟨step E N wf payload⟩

def start (posture : Posture) (s : Exec) : List Attempt := [⟨posture, s, [], none, none⟩]

def completed (attempts : List Attempt) : List StepId :=
  attempts.flatMap fun a => a.exec.returned.map (·.stepId)

-- A `node.run` returns in an attempt whose outcome has been captured already.
def returnsLate (attempts : List Attempt) : ChainEvent → Bool
  | .loop k (.ret _ (.output _)) => (attempts[k]?).any (·.saved.isSome)
  | _ => false

def refusesOutput (P : Posture) (s : Exec) (i : ℕ) (refusal : Option String) : Bool :=
  match s.phase? i with
  | some (.hooks f (.after output) (h :: _)) =>
      match Runner.runHook P h f refusal s.md s.evidence (.after output) with
      | .ok _ => false
      | .error _ => true
  | _ => false

-- A hook refuses the output of a step inside a fork branch.
def refusesInBranch (attempts : List Attempt) : ChainEvent → Bool
  | .loop k (.act refusal) => (attempts[k]?).any fun a =>
      match a.exec.active with
      | some (i + 1) => refusesOutput a.posture a.exec (i + 1) refusal
      | _ => false
  | _ => false

def Undisturbed (attempts : List Attempt) (e : ChainEvent) : Prop :=
  returnsLate attempts e = false ∧ refusesInBranch attempts e = false

instance (attempts : List Attempt) (e : ChainEvent) : Decidable (Undisturbed attempts e) :=
  inferInstanceAs (Decidable (_ ∧ _))

end AttemptChain

end BTagent
