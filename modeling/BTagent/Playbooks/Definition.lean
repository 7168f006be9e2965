import BTagent.Engine.Compiler

namespace BTagent

inductive TriggerType where
  | ALERT_SEVERITY
  | IOC_TYPE
  | MANUAL
  | WEBHOOK
  | SCHEDULE
  deriving DecidableEq

def TriggerType.ofString? : String → Option TriggerType
  | "alert_severity" => some ALERT_SEVERITY
  | "ioc_type" => some IOC_TYPE
  | "manual" => some MANUAL
  | "webhook" => some WEBHOOK
  | "schedule" => some SCHEDULE
  | _ => none

inductive OnFailure where
  | SKIP
  | ABORT
  | RETRY
  deriving DecidableEq

def OnFailure.ofString? : String → Option OnFailure
  | "skip" => some SKIP
  | "abort" => some ABORT
  | "retry" => some RETRY
  | _ => none

structure TriggerCondition where
  type : TriggerType
  parameters : OrderedDict String Yaml

-- A step of any of the classes; a field that its class lacks has its default.
structure PlaybookStep where
  id : StepId
  type : StepType
  name : String
  description : String
  config : OrderedDict String Yaml
  nextStep : Option StepId
  onFailure : OnFailure
  toolName : String
  arguments : OrderedDict String Yaml
  timeoutSeconds : Int
  condition : String
  trueBranch : StepId
  falseBranch : StepId
  prompt : String
  requiredRole : String
  branches : List (List StepId)

structure PlaybookDefinition where
  name : String
  version : String
  description : String
  trigger : TriggerCondition
  steps : List PlaybookStep

namespace Playbook

open Compiler

-- What pydantic takes for a `dict[str, Any]`.
def laxDict : Yaml → Option (OrderedDict String Yaml)
  | .map kvs => (kvs.mapM Yaml.strField).map OrderedDict.empty.update
  | _ => none

def laxList : Yaml → Option (List Yaml)
  | .seq xs | .set xs => some xs
  | _ => none

variable (P : Deps)

-- What pydantic takes for a `list[list[str]]`.
def laxBranches (y : Yaml) : Option (List (List StepId)) :=
  (laxList y).bind fun bs => bs.mapM fun b => (laxList b).bind fun refs => refs.mapM P.laxStr

def mappingField (raw : List (Yaml × Yaml)) (key : String) :
    Except CompileError (OrderedDict String Yaml) :=
  orRaise (.python key) (laxDict ((Yaml.lookup key raw).getD (.map [])))

def intField (raw : List (Yaml × Yaml)) (key : String) (default : Int) :
    Except CompileError Int :=
  match Yaml.lookup key raw with
  | none => .ok default
  | some y => orRaise (.python key) (P.laxInt y)

def failureOf (stepId : StepId) : Yaml → Except CompileError OnFailure
  | .str s => orRaise (.invalidOnFailure stepId) (OnFailure.ofString? s)
  | _ => .error (.invalidOnFailure stepId)

def onFailureField (stepId : StepId) (raw : List (Yaml × Yaml)) : Except CompileError OnFailure :=
  failureOf stepId ((Yaml.lookup "on_failure" raw).getD (.str "abort"))

def baseStep (raw : List (Yaml × Yaml)) (id : StepId) (type : StepType) (failure : OnFailure) :
    Except CompileError PlaybookStep := do
  let name ← strField P raw "name" ""
  let description ← strField P raw "description" ""
  let config ← mappingField raw "config"
  let nextStep ← optStrField P raw "next_step"
  return {
    id, type, name, description, config, nextStep, onFailure := failure
    toolName := "", arguments := .empty, timeoutSeconds := 300, condition := ""
    trueBranch := "", falseBranch := "", prompt := "", requiredRole := "senior_analyst"
    branches := [] }

def actionStep (raw : List (Yaml × Yaml)) (step : PlaybookStep) :
    Except CompileError PlaybookStep := do
  let toolName ← strField P raw "tool_name" ""
  let arguments ← mappingField raw "arguments"
  let timeoutSeconds ← intField P raw "timeout_seconds" 300
  return { step with toolName, arguments, timeoutSeconds }

def decisionStep (raw : List (Yaml × Yaml)) (step : PlaybookStep) :
    Except CompileError PlaybookStep := do
  let condition ← strField P raw "condition" ""
  let trueBranch ← strField P raw "true_branch" ""
  let falseBranch ← strField P raw "false_branch" ""
  return { step with condition, trueBranch, falseBranch }

def hitlGateStep (raw : List (Yaml × Yaml)) (step : PlaybookStep) :
    Except CompileError PlaybookStep := do
  let prompt ← strField P raw "prompt" ""
  let timeoutSeconds ← intField P raw "timeout_seconds" 3600
  let requiredRole ← strField P raw "required_role" "senior_analyst"
  return { step with prompt, timeoutSeconds, requiredRole }

-- The constructor call of the class for a type; `branches` is what a fork's field is given.
def typedStep (raw : List (Yaml × Yaml)) (id : StepId) (type : StepType) (failure : OnFailure)
    (branches : Except CompileError (List (List StepId))) : Except CompileError PlaybookStep := do
  let step ← baseStep P raw id type failure
  match type with
  | .action => actionStep P raw step
  | .decision => decisionStep P raw step
  | .hitlGate => hitlGateStep P raw step
  | .parallelFork => do
      let branches ← branches
      return { step with branches }
  | .join => return step
  | .end => return step

def triggerCondition (type : Yaml) (parameters : Yaml) : Except CompileError TriggerCondition :=
  match type with
  | .str s => do
      let type ← orRaise (.python "type") (TriggerType.ofString? s)
      let parameters ← orRaise (.python "parameters") (laxDict parameters)
      return ⟨type, parameters⟩
  | _ => .error (.python "type")

def refSuccessor (ids : List StepId) (ref : StepId) : List StepId :=
  if ref ≠ "" ∧ ref ∈ ids then [ref] else []

def branchSuccessors (ids : List StepId) (step : PlaybookStep) : List StepId :=
  if step.type = .parallelFork then step.branches.flatten.filter (· ∈ ids) else []

def sortGraph (successors : PlaybookStep → List StepId) (steps : List PlaybookStep) :
    List (StepId × StepId) :=
  steps.flatMap fun step => (successors step).map fun succ => (step.id, succ)

-- The ids that are left in a cycle, by Kahn's topological sort.
def cycleNodes (ids : List StepId) (edges : List (StepId × StepId)) : List StepId :=
  let sorted := Kahn.pass ids edges
  if sorted.done.length < ids.length then
    (ids.filter fun s => 0 < sorted.deg s).insertionSort (· ≤ ·)
  else []

end Playbook

end BTagent
