import BTagent.Data.Json
import BTagent.Lib.Kahn
import BTagent.Lib.Monads
import Mathlib.Data.String.Basic

namespace BTagent

abbrev StepId := String

structure WorkflowEdge where
  source : StepId
  target : StepId
  label : String
  deriving DecidableEq, Repr

structure WorkflowNode where
  stepId : StepId
  nodeId : String
  name : String
  config : Dict

structure Workflow where
  name : String
  nodes : List WorkflowNode
  edges : List WorkflowEdge

namespace Workflow

def step (wf : Workflow) (stepId : StepId) : Option WorkflowNode :=
  wf.nodes.find? fun n => n.stepId = stepId

def outEdges (wf : Workflow) (stepId : StepId) : List WorkflowEdge :=
  wf.edges.filter fun e => e.source = stepId

def inEdges (wf : Workflow) (stepId : StepId) : List WorkflowEdge :=
  wf.edges.filter fun e => e.target = stepId

def stepIds (wf : Workflow) : List StepId := wf.nodes.map (·.stepId)

-- Some edge of the graph leads from `s` to `t`.
def Edge (wf : Workflow) (s t : StepId) : Prop := ∃ e ∈ wf.edges, e.source = s ∧ e.target = t

def Acyclic (wf : Workflow) : Prop := ∀ s, ¬ Relation.TransGen wf.Edge s s

theorem step_stepId {wf : Workflow} {s : StepId} {n : WorkflowNode} (h : wf.step s = some n) :
    n.stepId = s := by
  simpa using List.find?_some h

theorem step_mem {wf : Workflow} {s : StepId} {n : WorkflowNode} (h : wf.step s = some n) :
    n ∈ wf.nodes := List.mem_of_find?_eq_some h

theorem edge_of_mem_outEdges {wf : Workflow} {s : StepId} {e : WorkflowEdge}
    (h : e ∈ wf.outEdges s) : wf.Edge s e.target := by
  obtain ⟨hm, hs⟩ := List.mem_filter.mp h
  exact ⟨e, hm, by simpa using hs, rfl⟩

end Workflow

inductive StepType where
  | action
  | decision
  | hitlGate
  | parallelFork
  | join
  | «end»
  deriving DecidableEq, Repr

namespace StepType

def ofString? : String → Option StepType
  | "action" => some action
  | "decision" => some decision
  | "hitl_gate" => some hitlGate
  | "parallel_fork" => some parallelFork
  | "join" => some join
  | "end" => some «end»
  | _ => none

def name : StepType → String
  | action => "action"
  | decision => "decision"
  | hitlGate => "hitl_gate"
  | parallelFork => "parallel_fork"
  | join => "join"
  | «end» => "end"

end StepType

namespace Compiler

def maxPlaybookBytes : ℕ := 1 * 1024 * 1024
def maxSteps : ℕ := 500
def maxParallelBranches : ℕ := 32
def maxBranchDepth : ℕ := 100

def allowedTopLevelKeys : List String :=
  ["name", "version", "description", "trigger", "steps", "metadata"]

def allowedTriggerKeys : List String := ["type", "parameters"]

def baseStepKeys : List String :=
  ["id", "type", "name", "description", "config", "next_step", "on_failure"]

def allowedStepKeys : StepType → List String
  | .action => baseStepKeys ++ ["tool_name", "arguments", "timeout_seconds"]
  | .decision => baseStepKeys ++ ["condition", "true_branch", "false_branch"]
  | .hitlGate => baseStepKeys ++ ["prompt", "timeout_seconds", "required_role"]
  | .parallelFork => baseStepKeys ++ ["branches"]
  | .join => baseStepKeys
  | .end => baseStepKeys

-- `PlaybookCompileError` by raise site; `python` is any other exception the compiler lets out
-- (`dict()` on a non-mapping, a pydantic `ValidationError`, the YAML loader's own errors).
inductive CompileError where
  | tooLarge
  | notMapping
  | unknownTopLevelKeys (keys : List String)
  | missingName
  | missingTrigger
  | stepsNotList
  | tooManySteps (n : ℕ)
  | triggerNotMapping
  | unknownTriggerKeys (keys : List String)
  | triggerMissingType
  | stepNotMapping
  | stepMissingId
  | unknownStepType (stepId : StepId)
  | unknownStepKeys (stepId : StepId) (type : StepType) (keys : List String)
  | invalidOnFailure (stepId : StepId)
  | branchesNotList (stepId : StepId)
  | tooManyBranches (stepId : StepId) (n : ℕ)
  | branchNotList (stepId : StepId) (i : ℕ)
  | branchTooDeep (stepId : StepId) (i n : ℕ)
  | badBranchRef (stepId : StepId) (i j : ℕ)
  | duplicateStepId (stepId : StepId)
  | cycle (stepIds : List StepId)
  | python (what : String)
  deriving Repr

-- The third-party functions the compiler calls: `yaml.safe_load`, and pydantic's lax reading of
-- a value as `str` or as `int`.
structure Deps where
  safeLoad : String → Except String Yaml
  laxStr : Yaml → Option String
  laxInt : Yaml → Option Int
  laxStr_str : ∀ s, laxStr (.str s) = some s

-- A loader beside readings that take a value of their own type only.
def Deps.loading (safeLoad : String → Except String Yaml) : Deps where
  safeLoad := safeLoad
  laxStr := fun y => match y with | .str s => some s | _ => none
  laxInt := fun y => match y with | .int n => some n | _ => none
  laxStr_str := fun _ => rfl

structure CompiledStep where
  id : StepId
  type : StepType
  name : String
  config : OrderedDict String Yaml
  nextStep : Option StepId
  onFailure : String
  toolName : String
  arguments : OrderedDict String Yaml
  timeoutSeconds : Option Int
  condition : String
  trueBranch : String
  falseBranch : String
  prompt : String
  requiredRole : String
  branches : List (List StepId)

def require (c : Bool) (e : CompileError) : Except CompileError Unit :=
  if c then .ok () else .error e

def orRaise {α : Type} (e : CompileError) : Option α → Except CompileError α
  | some a => .ok a
  | none => .error e

def branchRefs (stepId : StepId) (i : ℕ) : ℕ → List Yaml → Except CompileError (List StepId)
  | _, [] => .ok []
  | j, .str s :: refs => do
      require (s ≠ "") (.badBranchRef stepId i j)
      let rest ← branchRefs stepId i (j + 1) refs
      return s :: rest
  | j, _ :: _ => .error (.badBranchRef stepId i j)

def validateBranch (stepId : StepId) (i : ℕ) : Yaml → Except CompileError (List StepId)
  | .seq refs => do
      require (refs.length ≤ maxBranchDepth) (.branchTooDeep stepId i refs.length)
      branchRefs stepId i 0 refs
  | _ => .error (.branchNotList stepId i)

def validateBranchList (stepId : StepId) : ℕ → List Yaml → Except CompileError (List (List StepId))
  | _, [] => .ok []
  | i, b :: bs => do
      let branch ← validateBranch stepId i b
      let rest ← validateBranchList stepId (i + 1) bs
      return branch :: rest

def validateBranches (stepId : StepId) : Yaml → Except CompileError (List (List StepId))
  | .seq bs => do
      require (bs.length ≤ maxParallelBranches) (.tooManyBranches stepId bs.length)
      validateBranchList stepId 0 bs
  | _ => .error (.branchesNotList stepId)

variable (P : Deps)

-- A field of `CompiledStep` typed `str`, read with the default `raw.get` gives it.
def strField (raw : List (Yaml × Yaml)) (key default : String) : Except CompileError String :=
  orRaise (.python key) (P.laxStr ((Yaml.lookup key raw).getD (.str default)))

def optStrField (raw : List (Yaml × Yaml)) (key : String) : Except CompileError (Option String) :=
  match (Yaml.lookup key raw).getD .null with
  | .null => .ok none
  | v => orRaise (.python key) ((P.laxStr v).map some)

def optIntField (raw : List (Yaml × Yaml)) (key : String) : Except CompileError (Option Int) :=
  match (Yaml.lookup key raw).getD .null with
  | .null => .ok none
  | v => orRaise (.python key) ((P.laxInt v).map some)

def dictField (raw : List (Yaml × Yaml)) (key : String) :
    Except CompileError (OrderedDict String Yaml) :=
  orRaise (.python key) (Yaml.strDict ((Yaml.lookup key raw).getD (.map [])))

def stepId : Option Yaml → Except CompileError StepId
  | some (.str s) => if s = "" then .error .stepMissingId else .ok s
  | _ => .error .stepMissingId

def stepType (stepId : StepId) : Yaml → Except CompileError StepType
  | .str s => orRaise (.unknownStepType stepId) (StepType.ofString? s)
  | _ => .error (.unknownStepType stepId)

def onFailure (stepId : StepId) : Yaml → Except CompileError String
  | .str s =>
      if s ∈ ["skip", "abort", "retry"] then .ok s else .error (.invalidOnFailure stepId)
  | _ => .error (.invalidOnFailure stepId)

def parseStep : Yaml → Except CompileError CompiledStep
  | .map raw => do
      let id ← stepId (Yaml.lookup "id" raw)
      let type ← stepType id ((Yaml.lookup "type" raw).getD (.str "action"))
      let unknown := Yaml.unknownKeys (allowedStepKeys type) raw
      require unknown.isEmpty (.unknownStepKeys id type unknown)
      let failure ← onFailure id ((Yaml.lookup "on_failure" raw).getD (.str "abort"))
      let branches ←
        if type = .parallelFork then
          validateBranches id ((Yaml.lookup "branches" raw).getD (.seq []))
        else .ok []
      let config ← dictField raw "config"
      let arguments ← dictField raw "arguments"
      let name ← strField P raw "name" ""
      let _ ← strField P raw "description" ""
      let nextStep ← optStrField P raw "next_step"
      let toolName ← strField P raw "tool_name" ""
      let timeoutSeconds ← optIntField P raw "timeout_seconds"
      let condition ← strField P raw "condition" ""
      let trueBranch ← strField P raw "true_branch" ""
      let falseBranch ← strField P raw "false_branch" ""
      let prompt ← strField P raw "prompt" ""
      let requiredRole ← strField P raw "required_role" "senior_analyst"
      return {
        id, type, name, config, nextStep, onFailure := failure, toolName, arguments,
        timeoutSeconds, condition, trueBranch, falseBranch, prompt, requiredRole, branches }
  | _ => .error .stepNotMapping

def parseSteps (seen : List StepId) : List Yaml → Except CompileError (List CompiledStep)
  | [] => .ok []
  | raw :: rest => do
      let step ← parseStep P raw
      require (step.id ∉ seen) (.duplicateStepId step.id)
      let steps ← parseSteps (step.id :: seen) rest
      return step :: steps

def decisionNodeId : String := "decision.branch"
def parallelNodeId : String := "decision.parallel"
def hitlGateNodeId : String := "decision.hitl_gate"

def resolveNodeId (step : CompiledStep) : String :=
  match step.type with
  | .action => if step.toolName = "" then "action.unresolved" else step.toolName
  | .decision => decisionNodeId
  | .parallelFork => parallelNodeId
  | .hitlGate => hitlGateNodeId
  | t => "compiler." ++ t.name

def withTimeout (step : CompiledStep) (config : OrderedDict String Yaml) :
    OrderedDict String Yaml :=
  match step.timeoutSeconds with
  | some n => config.setDefault "timeout_seconds" (.int n)
  | none => config

def buildConfig (step : CompiledStep) : OrderedDict String Yaml :=
  match step.type with
  | .action =>
      withTimeout step
        (step.arguments.entries.foldl (fun c kv => c.setDefault kv.1 kv.2) step.config)
  | .decision => step.config.setDefault "condition" (.str step.condition)
  | .hitlGate =>
      withTimeout step
        ((step.config.setDefault "prompt" (.str step.prompt)).setDefault
          "required_role" (.str step.requiredRole))
  | .parallelFork =>
      step.config.setDefault "branches" (.seq (step.branches.map fun b => .seq (b.map .str)))
  | _ => step.config

def buildNode (step : CompiledStep) : WorkflowNode where
  stepId := step.id
  nodeId := resolveNodeId step
  name := step.name
  config := (buildConfig step).mapVal Yaml.toJson

def refEdge (stepIds : List StepId) (source : StepId) (label : String) (target : StepId) :
    List WorkflowEdge :=
  if target ≠ "" ∧ target ∈ stepIds then [⟨source, target, label⟩] else []

def branchHead (stepIds : List StepId) (source : StepId) (i : ℕ) : List StepId → List WorkflowEdge
  | [] => []
  | head :: _ => if head ∈ stepIds then [⟨source, head, "branch." ++ toString i⟩] else []

def chainEdges (stepIds : List StepId) : List StepId → List WorkflowEdge
  | a :: b :: rest =>
      (if a ∈ stepIds ∧ b ∈ stepIds then [⟨a, b, "next"⟩] else []) ++
        chainEdges stepIds (b :: rest)
  | _ => []

def branchEdges (stepIds : List StepId) (source : StepId) : ℕ → List (List StepId) → List WorkflowEdge
  | _, [] => []
  | i, branch :: rest =>
      branchHead stepIds source i branch ++ chainEdges stepIds branch ++
        branchEdges stepIds source (i + 1) rest

def buildEdges (stepIds : List StepId) (step : CompiledStep) : List WorkflowEdge :=
  let next := step.nextStep.getD ""
  match step.type with
  | .decision =>
      refEdge stepIds step.id "true" step.trueBranch ++
        refEdge stepIds step.id "false" step.falseBranch ++ refEdge stepIds step.id "next" next
  | .parallelFork =>
      branchEdges stepIds step.id 0 step.branches ++ refEdge stepIds step.id "join" next
  | _ => refEdge stepIds step.id "next" next

def sortEdges (stepIds : List StepId) (edges : List WorkflowEdge) : List (StepId × StepId) :=
  (edges.filter fun e => e.source ∈ stepIds ∧ e.target ∈ stepIds).map fun e => (e.source, e.target)

def detectCycles (nodes : List WorkflowNode) (edges : List WorkflowEdge) : List StepId :=
  let stepIds := (nodes.map (·.stepId)).dedup
  let sorted := Kahn.pass stepIds (sortEdges stepIds edges)
  if sorted.done.length < stepIds.length then
    (stepIds.filter fun s => 0 < sorted.deg s).insertionSort (· ≤ ·)
  else []

def buildWorkflow (name : String) (steps : List CompiledStep) : Workflow where
  name := name
  nodes := steps.map buildNode
  edges := steps.flatMap (buildEdges (steps.map (·.id)))

def stepList : Option Yaml → Except CompileError (List Yaml)
  | some (.seq xs) => .ok xs
  | _ => .error .stepsNotList

def triggerMap : Yaml → Except CompileError (List (Yaml × Yaml))
  | .map t => .ok t
  | _ => .error .triggerNotMapping

-- The playbook checks and the compiled steps, after the YAML text has been loaded.
def compileSteps : Yaml → Except CompileError (String × List CompiledStep)
  | .map raw => do
      let unknown := Yaml.unknownKeys allowedTopLevelKeys raw
      require unknown.isEmpty (.unknownTopLevelKeys unknown)
      let name ← orRaise .missingName (Yaml.lookup "name" raw)
      let trigger ← orRaise .missingTrigger (Yaml.lookup "trigger" raw)
      let stepsRaw ← stepList (Yaml.lookup "steps" raw)
      require (stepsRaw.length ≤ maxSteps) (.tooManySteps stepsRaw.length)
      let triggerRaw ← triggerMap trigger
      let unknownTrigger := Yaml.unknownKeys allowedTriggerKeys triggerRaw
      require unknownTrigger.isEmpty (.unknownTriggerKeys unknownTrigger)
      require (Yaml.lookup "type" triggerRaw).isSome .triggerMissingType
      let steps ← parseSteps P [] stepsRaw
      let wf := buildWorkflow "" steps
      let cycleNodes := detectCycles wf.nodes wf.edges
      require cycleNodes.isEmpty (.cycle cycleNodes)
      let _ ← orRaise (.python "parameters")
        (Yaml.dictPairs ((Yaml.lookup "parameters" triggerRaw).getD (.map [])))
      let name ← orRaise (.python "name") (P.laxStr name)
      return (name, steps)
  | _ => .error .notMapping

def parseYaml (text : String) : Except CompileError Yaml :=
  if maxPlaybookBytes < text.utf8ByteSize then .error .tooLarge
  else
    match P.safeLoad text with
    | .ok y => .ok y
    | .error e => .error (.python e)

def compilePlaybook (text : String) : Except CompileError Workflow := do
  let raw ← parseYaml P text
  let (name, steps) ← compileSteps P raw
  return buildWorkflow name steps

end Compiler

end BTagent
