import BTagent.Playbooks.Definition

namespace BTagent

inductive PlaybookError where
  | yamlParse (what : String)
  | notMapping
  | missingName
  | invalidSteps
  | missingTrigger
  | triggerNotDict
  | invalidTriggerType
  | stepNotDict (i : ℕ)
  | stepMissingId (i : ℕ)
  | duplicateStepId (id : Yaml)
  | stepInvalid (id : Yaml) (why : Compiler.CompileError)
  | danglingNextStep (step ref : StepId)
  | danglingTrueBranch (step ref : StepId)
  | danglingFalseBranch (step ref : StepId)
  | danglingBranch (step ref : StepId)
  | cycle (stepIds : List StepId)

inductive PlaybookWarning where
  | unknownTool (step : StepId) (tool : String)
  | noEndStep

structure ValidationResult where
  errors : List PlaybookError
  warnings : List PlaybookWarning
  stepCount : ℕ

def ValidationResult.valid (r : ValidationResult) : Bool := r.errors.isEmpty

-- `ValueError` from a validation that failed, or an exception of another kind.
inductive PlaybookFailure where
  | invalid (errors : List PlaybookError)
  | raised (why : Compiler.CompileError)

namespace PlaybookService

open Compiler Playbook

def KNOWN_TOOLS : List String := [
    "alert_classifier", "severity_scorer", "query_generator", "query_executor", "enrich_ioc",
    "confidence_scorer", "splunk_search", "elastic_search", "sentinel_search",
    "crowdstrike_search", "virustotal_lookup", "shodan_lookup", "abuseipdb_lookup",
    "greynoise_lookup", "misp_lookup", "search_knowledge_base", "get_investigation_context"]

-- Equality of Python's scalars, as a set of keys sees it.
def sameKey : Yaml → Yaml → Bool
  | .str s, .str t => s = t
  | .binary s, .binary t => s = t
  | .null, .null => true
  | .bool a, .bool b => a = b
  | .int m, .int n => m = n
  | .bool a, .int n => n = if a then 1 else 0
  | .int m, .bool b => m = if b then 1 else 0
  | .float r, .float q => r = q
  | .timestamp s, .timestamp t => s = t
  | _, _ => false

def hasKey (ids : List Yaml) (id : Yaml) : Bool := ids.any (sameKey id)

variable (P : Deps)

def stepTypeOf : Option Yaml → StepType
  | none => .action
  | some (.str s) => (StepType.ofString? s).getD .end
  | some _ => .end

def parseStep (raw : List (Yaml × Yaml)) (idRaw : Yaml) : Except CompileError PlaybookStep := do
  let id ← orRaise (.python "id") (P.laxStr idRaw)
  let failure ← onFailureField id raw
  typedStep P raw id (stepTypeOf (Yaml.lookup "type" raw)) failure
    (orRaise (.python "branches")
      (laxBranches P ((Yaml.lookup "branches" raw).getD (.seq []))))

structure ParsedSteps where
  ids : List Yaml
  steps : List PlaybookStep
  errors : List PlaybookError

def reject (parsed : ParsedSteps) (error : PlaybookError) : ParsedSteps :=
  { parsed with errors := parsed.errors ++ [error] }

-- An id that cannot be a set's member raises.
def addStep (parsed : ParsedSteps) (i : ℕ) : Yaml → Except CompileError ParsedSteps
  | .map raw =>
      match Yaml.lookup "id" raw with
      | none => .ok (reject parsed (.stepMissingId i))
      | some id =>
          if ¬ id.hashable then .error (.python "id")
          else if hasKey parsed.ids id then .ok (reject parsed (.duplicateStepId id))
          else
            let parsed := { parsed with ids := parsed.ids ++ [id] }
            match parseStep P raw id with
            | .ok step => .ok { parsed with steps := parsed.steps ++ [step] }
            | .error why => .ok (reject parsed (.stepInvalid id why))
  | _ => .ok (reject parsed (.stepNotDict i))

def addSteps (parsed : ParsedSteps) (i : ℕ) : List Yaml → Except CompileError ParsedSteps
  | [] => .ok parsed
  | raw :: rest => do
      let parsed ← addStep P parsed i raw
      addSteps parsed (i + 1) rest

def dangling (ids : List Yaml) (ref : StepId) : Bool := ref ≠ "" ∧ ¬ hasKey ids (.str ref)

def referenceErrors (ids : List Yaml) (step : PlaybookStep) : List PlaybookError :=
  let next := step.nextStep.getD ""
  (if dangling ids next then [.danglingNextStep step.id next] else []) ++
    (if step.type = .decision ∧ dangling ids step.trueBranch then
      [.danglingTrueBranch step.id step.trueBranch] else []) ++
    (if step.type = .decision ∧ dangling ids step.falseBranch then
      [.danglingFalseBranch step.id step.falseBranch] else []) ++
    (if step.type = .parallelFork then
      (step.branches.flatten.filter fun ref => ¬ hasKey ids (.str ref)).map
        (.danglingBranch step.id) else [])

def toolWarnings (step : PlaybookStep) : List PlaybookWarning :=
  if step.type = .action ∧ step.toolName ≠ "" ∧ step.toolName ∉ KNOWN_TOOLS then
    [.unknownTool step.id step.toolName]
  else []

-- The empty string counts here as a branch target.
def successors (ids : List StepId) (step : PlaybookStep) : List StepId :=
  refSuccessor ids (step.nextStep.getD "") ++
    (if step.type = .decision then
      [step.trueBranch, step.falseBranch].filter (· ∈ ids) else []) ++
    branchSuccessors ids step

def detectCycles (steps : List PlaybookStep) : List StepId :=
  let ids := (steps.map (·.id)).dedup
  cycleNodes ids (sortGraph (successors ids) steps)

def cycleErrors (steps : List PlaybookStep) : List PlaybookError :=
  match detectCycles steps with
  | [] => []
  | ids => [.cycle ids]

def fieldErrors (raw : List (Yaml × Yaml)) : List PlaybookError :=
  (if (Yaml.lookup "name" raw).isNone then [.missingName] else []) ++
    (match Yaml.lookup "steps" raw with
      | some (.seq _) => []
      | _ => [.invalidSteps]) ++
    (if (Yaml.lookup "trigger" raw).isNone then [.missingTrigger] else [])

def typeErrors (type : Yaml) : Except CompileError (List PlaybookError) :=
  match type with
  | .str s => .ok (if (TriggerType.ofString? s).isSome then [] else [.invalidTriggerType])
  | y => if y.hashable then .ok [.invalidTriggerType] else .error (.python "type")

def triggerErrors : Yaml → Except CompileError (List PlaybookError)
  | .map kvs =>
      match Yaml.lookup "type" kvs with
      | none => .ok [.triggerNotDict]
      | some type => typeErrors type
  | _ => .ok [.triggerNotDict]

def stepEntries (raw : List (Yaml × Yaml)) : List Yaml :=
  match Yaml.lookup "steps" raw with
  | some (.seq xs) => xs
  | _ => []

def validateRaw : Yaml → Except CompileError ValidationResult
  | .map raw =>
      if fieldErrors raw ≠ [] then .ok ⟨fieldErrors raw, [], 0⟩
      else do
        let triggerErrors ← triggerErrors ((Yaml.lookup "trigger" raw).getD .null)
        let parsed ← addSteps P ⟨[], [], []⟩ 0 (stepEntries raw)
        return {
          errors := triggerErrors ++ parsed.errors ++
            parsed.steps.flatMap (referenceErrors parsed.ids) ++ cycleErrors parsed.steps
          warnings := parsed.steps.flatMap toolWarnings ++
            if parsed.steps.any fun s => s.type = .end then [] else [.noEndStep]
          stepCount := parsed.steps.length }
  | _ => .ok ⟨[.notMapping], [], 0⟩

def validatePlaybook (text : String) : Except CompileError ValidationResult :=
  match P.safeLoad text with
  | .error what => .ok ⟨[.yamlParse what], [], 0⟩
  | .ok raw => validateRaw P raw

def parseEntry : Yaml → Except CompileError PlaybookStep
  | .map raw => do
      let id ← orRaise (.python "id") (Yaml.lookup "id" raw)
      parseStep P raw id
  | _ => .error .stepNotMapping

def triggerOf : Yaml → Except CompileError TriggerCondition
  | .map kvs =>
      triggerCondition ((Yaml.lookup "type" kvs).getD .null)
        ((Yaml.lookup "parameters" kvs).getD (.map []))
  | _ => .error .triggerNotMapping

def define : Yaml → Except CompileError PlaybookDefinition
  | .map raw => do
      let trigger ← triggerOf ((Yaml.lookup "trigger" raw).getD .null)
      let steps ← (stepEntries raw).mapM (parseEntry P)
      let name ← orRaise (.python "name") (P.laxStr ((Yaml.lookup "name" raw).getD .null))
      let version ← strField P raw "version" "1.0"
      let description ← strField P raw "description" ""
      return ⟨name, version, description, trigger, steps⟩
  | _ => .error .notMapping

def compilePlaybook (text : String) : Except PlaybookFailure PlaybookDefinition :=
  match validatePlaybook P text with
  | .error why => .error (.raised why)
  | .ok result =>
      if ¬ result.valid then .error (.invalid result.errors)
      else
        match P.safeLoad text with
        | .error what => .error (.raised (.python what))
        | .ok raw =>
            match define P raw with
            | .error why => .error (.raised why)
            | .ok definition => .ok definition

end PlaybookService

end BTagent
