import BTagent.Lib.Machine
import BTagent.Lib.Slots

namespace BTagent

inductive InvestigationStatus where
  | PENDING
  | TRIAGING
  | INVESTIGATING
  | PAUSED
  | PAUSED_HITL
  | CONTAINED
  | REMEDIATED
  | CLOSED
  | FAILED
  | CANCELLED
  | ARCHIVED
  deriving DecidableEq

-- `resumedAt` is how many statuses were on record when the resume request behind a write began.
structure StatusWrite where
  status : InvestigationStatus
  resumedAt : Option ℕ

-- Where `_run_graph` stands between two awaits.
inductive TaskPhase where
  | scheduled
  | opening
  | running
  | settling
  | failing
  | reporting
  | closing
  | done
  deriving DecidableEq

-- `cancelled` stays once `cancel()` was called, `cancelRequested` until the task has noticed.
structure InvestigationTask where
  phase : TaskPhase
  cancelRequested : Bool
  cancelled : Bool
  resumedAt : Option ℕ

namespace InvestigationTask

def cancel (t : InvestigationTask) : InvestigationTask :=
  { t with cancelRequested := decide (t.phase ≠ .done), cancelled := true }

end InvestigationTask

-- A call of the task manager that awaits something.
inductive PendingCall where
  | startFailing
  | pausing (task : ℕ)
  | resumeLoading (resumedAt : ℕ)
  | resumeFailing
  | resumeRegistered (resumedAt : ℕ)
  | stopping (task : Option ℕ)
  | returned

inductive LoadedConfig where
  | missing
  | unbuildable
  | buildable

-- What an investigation has in the manager and its statuses, the last first.
structure ManagedInvestigation where
  registered : Option ℕ
  tasks : List InvestigationTask
  calls : List PendingCall
  writes : List StatusWrite

inductive GraphStep where
  | begins
  | investigating (stored : Bool)
  | completes (finalStatus : InvestigationStatus) (stored : Bool)
  | raises
  | fails (stored : Bool)
  | settles
  | interrupted
  | closes

inductive ManagerEvent where
  | startInvestigation (built : Bool)
  | pauseInvestigation
  | resumeInvestigation
  | configLoaded (call : ℕ) (config : LoadedConfig)
  | stopInvestigation
  | statusWritten (call : ℕ) (stored : Bool)
  | graphStep (task : ℕ) (step : GraphStep)

namespace ManagedInvestigation

-- A write that fails is logged and dropped.
def setInvestigationStatus (s : ManagedInvestigation) (stored : Bool) (status : InvestigationStatus)
    (resumedAt : Option ℕ) : ManagedInvestigation :=
  if stored then { s with writes := ⟨status, resumedAt⟩ :: s.writes } else s

def createTask (s : ManagedInvestigation) (resumedAt : Option ℕ) : ManagedInvestigation :=
  { s with
    registered := some s.tasks.length
    tasks := s.tasks ++ [⟨.scheduled, false, false, resumedAt⟩] }

def call (s : ManagedInvestigation) (c : PendingCall) : ManagedInvestigation :=
  { s with calls := s.calls ++ [c] }

def advance (s : ManagedInvestigation) (i : ℕ) (c : PendingCall) : ManagedInvestigation :=
  { s with calls := s.calls.set i c }

def popTask (s : ManagedInvestigation) (task : ℕ) : ManagedInvestigation :=
  { s with registered := none, tasks := s.tasks.modify task InvestigationTask.cancel }

def startInvestigation (agentsAvailable built : Bool) (s : ManagedInvestigation) :
    ManagedInvestigation :=
  if !agentsAvailable then s.call .startFailing
  else if s.registered.isSome then s
  else if !built then s.call .startFailing
  else s.createTask none

def pauseInvestigation (s : ManagedInvestigation) : ManagedInvestigation :=
  match s.registered with
  | none => s
  | some task => (s.popTask task).call (.pausing task)

def resumeInvestigation (agentsAvailable : Bool) (s : ManagedInvestigation) :
    ManagedInvestigation :=
  if !agentsAvailable then s
  else if s.registered.isSome then s
  else s.call (.resumeLoading s.writes.length)

def stopInvestigation (s : ManagedInvestigation) : ManagedInvestigation :=
  match s.registered with
  | none => s.call (.stopping none)
  | some task => (s.popTask task).call (.stopping (some task))

def configLoaded (s : ManagedInvestigation) (i : ℕ) (config : LoadedConfig) :
    Option ManagedInvestigation :=
  match s.calls[i]?, config with
  | some (.resumeLoading _), .missing => some (s.advance i .returned)
  | some (.resumeLoading _), .unbuildable => some (s.advance i .resumeFailing)
  | some (.resumeLoading n), .buildable =>
      some ((s.createTask (some n)).advance i (.resumeRegistered n))
  | _, _ => none

def finished (s : ManagedInvestigation) (task : ℕ) : Bool :=
  (s.tasks[task]?).any fun t => t.phase = .done

-- The status that a call writes before it returns, once the task it awaits has finished.
def callStatus (s : ManagedInvestigation) : PendingCall → Option (InvestigationStatus × Option ℕ)
  | .startFailing => some (.FAILED, none)
  | .resumeFailing => some (.FAILED, none)
  | .resumeRegistered n => some (.INVESTIGATING, some n)
  | .pausing task => if s.finished task then some (.PAUSED, none) else none
  | .stopping task => if task.all s.finished then some (.CANCELLED, none) else none
  | .resumeLoading _ => none
  | .returned => none

def statusWritten (s : ManagedInvestigation) (i : ℕ) (stored : Bool) :
    Option ManagedInvestigation := do
  let c ← s.calls[i]?
  let (status, resumedAt) ← s.callStatus c
  some ((s.setInvestigationStatus stored status resumedAt).advance i .returned)

def setPhase (s : ManagedInvestigation) (i : ℕ) (t : InvestigationTask) (phase : TaskPhase) :
    ManagedInvestigation :=
  { s with tasks := s.tasks.set i { t with phase := phase } }

-- A cancelled task runs its `finally` block, unless it never began or was inside of it.
def interruptedPhase : TaskPhase → TaskPhase
  | .scheduled | .closing | .done => .done
  | _ => .closing

def interrupt (s : ManagedInvestigation) (i : ℕ) (t : InvestigationTask) : ManagedInvestigation :=
  { s with
    tasks := s.tasks.set i { t with phase := interruptedPhase t.phase, cancelRequested := false } }

def graphStep (s : ManagedInvestigation) (i : ℕ) (t : InvestigationTask) :
    GraphStep → Option ManagedInvestigation
  | .begins => if t.phase = .scheduled then some (s.setPhase i t .opening) else none
  | .investigating stored =>
      if t.phase = .opening then
        some ((s.setInvestigationStatus stored .INVESTIGATING t.resumedAt).setPhase i t .running)
      else none
  | .completes finalStatus stored =>
      if t.phase = .running then
        some ((s.setInvestigationStatus stored finalStatus t.resumedAt).setPhase i t .settling)
      else none
  | .raises =>
      if t.phase = .opening ∨ t.phase = .running ∨ t.phase = .settling then
        some (s.setPhase i t .failing)
      else none
  | .fails stored =>
      if t.phase = .failing then
        some ((s.setInvestigationStatus stored .FAILED t.resumedAt).setPhase i t .reporting)
      else none
  | .settles =>
      if t.phase = .settling ∨ t.phase = .reporting then some (s.setPhase i t .closing) else none
  | .closes =>
      if t.phase = .closing then some { s.setPhase i t .done with registered := none } else none
  | .interrupted => none

def taskStep (s : ManagedInvestigation) (i : ℕ) (step : GraphStep) :
    Option ManagedInvestigation := do
  let t ← s.tasks[i]?
  match t.cancelRequested, step with
  | true, .interrupted => some (s.interrupt i t)
  | true, _ => none
  | false, step => s.graphStep i t step

end ManagedInvestigation

namespace TaskManager
open ManagedInvestigation

def investigation (agentsAvailable : Bool) : Machine ManagedInvestigation ManagerEvent where
  step s
    | .startInvestigation built => some (s.startInvestigation agentsAvailable built)
    | .pauseInvestigation => some s.pauseInvestigation
    | .resumeInvestigation => some (s.resumeInvestigation agentsAvailable)
    | .configLoaded i config => s.configLoaded i config
    | .stopInvestigation => some s.stopInvestigation
    | .statusWritten i stored => s.statusWritten i stored
    | .graphStep i step => s.taskStep i step

-- The manager's dictionary has an entry for each investigation id.
def manager (agentsAvailable : Bool) :
    Machine (String → ManagedInvestigation) (String × ManagerEvent) :=
  (investigation agentsAvailable).family String

def untouched (status : InvestigationStatus) : ManagedInvestigation :=
  ⟨none, [], [], [⟨status, none⟩]⟩

end TaskManager

end BTagent
