import BTagent.Engine.Compiler
import BTagent.Engine.Gates

namespace BTagent

-- What flows along an edge: nothing, the trigger dictionary, or a model by its dump.
inductive Payload where
  | none
  | dict (d : Dict)
  | model (d : Dict)

namespace Payload

def rawBase : Payload → Dict
  | none => .empty
  | dict d => d
  | model d => d

end Payload

structure WorkflowState where
  outputs : OrderedDict StepId Dict
  nodesExecuted : List StepId
  completedSteps : List StepId
  triggerPayload : Dict

namespace WorkflowState

def fresh (triggerPayload : Dict) : WorkflowState :=
  ⟨.empty, [], [], triggerPayload⟩

def record (st : WorkflowState) (stepId : StepId) (output : Dict) : WorkflowState :=
  { st with
    outputs := st.outputs.set stepId output
    nodesExecuted :=
      if stepId ∈ st.nodesExecuted then st.nodesExecuted else st.nodesExecuted ++ [stepId] }

def reused (st : WorkflowState) (stepId : StepId) : Option Dict :=
  if stepId ∈ st.completedSteps then st.outputs.get? stepId else none

end WorkflowState

inductive ExecutionError where
  | emptyWorkflow
  | noEntry
  | multipleEntries (candidates : List StepId)
  | unknownStep (stepId : StepId)
  | stepCapExceeded (nextStepId : StepId)
  | notRegistered (stepId : StepId) (nodeId : String)
  | templateRenderFailed (nodeId cause : String)
  | conditionFailed (stepId : StepId) (condition cause : String)
  | missingBranch (stepId : StepId)
  | noMatchingBranch (stepId : StepId) (branch : Json)
  | runFailed (stepId : StepId) (cause : String)
  | policyViolation (stepId : StepId) (cause : Gates.PolicyViolation)

namespace ExecutionError

def nodeId : ExecutionError → Option StepId
  | emptyWorkflow | noEntry | multipleEntries _ | templateRenderFailed _ _ => none
  | unknownStep s | stepCapExceeded s | notRegistered s _ | conditionFailed s _ _
  | missingBranch s | noMatchingBranch s _ | runFailed s _ | policyViolation s _ => some s

def reason : ExecutionError → String
  | emptyWorkflow => "empty workflow"
  | noEntry => "no entry"
  | multipleEntries _ => "multiple entries"
  | unknownStep _ => "unknown step"
  | stepCapExceeded _ => "step cap exceeded"
  | notRegistered _ _ => "not registered"
  | templateRenderFailed _ _ => "template render failed"
  | conditionFailed _ _ _ => "condition evaluation failed"
  | missingBranch _ => "missing branch"
  | noMatchingBranch _ _ => "no matching branch"
  | runFailed _ _ | policyViolation _ _ => "run failed"

end ExecutionError

-- How a walk ends early: `WorkflowPaused`, `WorkflowExecutionError`, or any other exception.
inductive Failure where
  | paused (stepId : StepId) (cause : Pause)
  | execution (e : ExecutionError)
  | unexpected (what : String)

-- What a middleware hook or `node.run` raises.
inductive NodeException where
  | pause (p : Pause)
  | policy (v : Gates.PolicyViolation)
  | other (what : String)

def NodeException.wrap (stepId : StepId) : NodeException → Failure
  | pause p => .paused stepId p
  | policy v => .execution (.policyViolation stepId v)
  | other what => .execution (.runFailed stepId what)

-- The value of a condition: a bool, or any other value by its `str`.
inductive Evaluated where
  | bool (b : Bool)
  | text (s : String)

-- The parts of the engine that the executor only calls: the node registry, the condition
-- evaluator and the template renderer, and Python's `str`, `int` and `str.isspace`.
structure Engine where
  registry : String → Option NodeClass
  evaluateCondition : String → Dict → Except String Evaluated
  renderTemplate : String → Dict → Except String String
  str : Json → String
  int : String → Option Int
  isBlank : String → Bool

namespace Executor

def passthroughNodeIds : List String := ["compiler.join", "compiler.end"]

section BuiltIn

def onlyKeys (allowed : List String) (d : Dict) : Bool := d.keys.all fun k => k ∈ allowed

def validateDecision (d : Dict) : Except String Dict :=
  if onlyKeys ["value"] d && (d.get? "value").isSome then .ok d else .error "DecisionNodeInput"

def decisionNode : NodeClass where
  id := Compiler.decisionNodeId
  category := .decision
  inputFields := ["value"]
  validate := validateDecision
  manifest := none
  capabilityId := none

def validateParallel (d : Dict) : Except String Dict :=
  match d.get? "branch_results" with
  | some (.arr _) => if onlyKeys ["branch_results"] d then .ok d else .error "ParallelNodeInput"
  | _ => .error "ParallelNodeInput"

def parallelNode : NodeClass where
  id := Compiler.parallelNodeId
  category := .decision
  inputFields := ["branch_results"]
  validate := validateParallel
  manifest := none
  capabilityId := none

def dictOr (default : Dict) : Option Json → Option Json
  | none => some (.obj default.entries)
  | some (.obj kvs) => some (.obj kvs)
  | some _ => none

def stringOr (default : String) : Option Json → Option Json
  | none => some (.str default)
  | some (.str s) => some (.str s)
  | some _ => none

def validateHitlGate (d : Dict) : Except String Dict :=
  if onlyKeys ["payload", "prompt", "required_role"] d then
    match dictOr .empty (d.get? "payload"), stringOr "" (d.get? "prompt"),
        stringOr "senior_analyst" (d.get? "required_role") with
    | some payload, some prompt, some role =>
        .ok (((OrderedDict.empty.set "payload" payload).set "prompt" prompt).set
          "required_role" role)
    | _, _, _ => .error "HITLGateNodeInput"
  else .error "HITLGateNodeInput"

def hitlGateNode : NodeClass where
  id := Gates.hitlGateNodeId
  category := .decision
  inputFields := ["payload", "prompt", "required_role"]
  validate := validateHitlGate
  manifest := none
  capabilityId := none

end BuiltIn

variable (E : Engine)

def coerceToBranch : Evaluated → String
  | .bool b => if b then "true" else "false"
  | .text s => s

def evaluated : Json → Evaluated
  | .bool b => .bool b
  | v => .text (E.str v)

def runDecision (input : Dict) : Dict :=
  let value := (input.get? "value").getD .null
  (OrderedDict.empty.set "branch" (.str (coerceToBranch (evaluated E value)))).set "value" value

def runParallel (input : Dict) : Dict :=
  let results := Gates.arrayItems (input.get? "branch_results")
  (OrderedDict.empty.set "merged" (.arr results)).set "branch_count" (.int results.length)

def runHitlGate (input : Dict) : Dict :=
  (OrderedDict.empty.set "approved" (.bool true)).set "payload"
    ((input.get? "payload").getD (.obj []))

-- A step whose class is built in runs that class whatever the registry holds.
def runNode (run : String → Dict → Except String Dict) (nodeId : String) (input : Dict) :
    Except String Dict :=
  if nodeId = Compiler.decisionNodeId then .ok (runDecision E input)
  else if nodeId = Compiler.parallelNodeId then .ok (runParallel input)
  else if nodeId = Gates.hitlGateNodeId then .ok (runHitlGate input)
  else run nodeId input

def resolveNode (node : WorkflowNode) : Except ExecutionError NodeClass :=
  if node.nodeId = Compiler.decisionNodeId then .ok decisionNode
  else if node.nodeId = Compiler.parallelNodeId then .ok parallelNode
  else if node.nodeId = Gates.hitlGateNodeId then .ok hitlGateNode
  else
    match E.registry node.nodeId with
    | some cls => .ok cls
    | none => .error (.notRegistered node.stepId node.nodeId)

section Routing
variable (wf : Workflow)

def nextStep (stepId : StepId) : Option StepId :=
  match wf.outEdges stepId with
  | [] => none
  | e :: es => some (((e :: es).find? fun e => e.label = "next").getD e).target

def nextDecisionStep (stepId : StepId) (output : Dict) : Except ExecutionError StepId :=
  match output.get? "branch" with
  | none | some .null => .error (.missingBranch stepId)
  | some (.str branch) =>
      match (wf.outEdges stepId).find? fun e => e.label = branch with
      | some e => .ok e.target
      | none => .error (.noMatchingBranch stepId (.str branch))
  | some v => .error (.noMatchingBranch stepId v)

def joinTarget (stepId : StepId) : Option StepId :=
  ((wf.outEdges stepId).find? fun e => e.label = "join").map (·.target)

def route (node : WorkflowNode) (output : Dict) : Except ExecutionError (Option StepId) :=
  if node.nodeId = Compiler.decisionNodeId then
    (nextDecisionStep wf node.stepId output).map some
  else if node.nodeId = Compiler.parallelNodeId then .ok (joinTarget wf node.stepId)
  else .ok (nextStep wf node.stepId)

def isBranchLabel (label : String) : Bool := "branch.".toList.isPrefixOf label.toList

def branchIndex (e : WorkflowEdge) : Option (Int × StepId) :=
  (E.int (String.ofList (e.label.toList.drop 7))).map fun i => (i, e.target)

-- The entry step of every branch in declaration order; `none` where `int(...)` raises.
def branchTargets (stepId : StepId) : Option (List StepId) :=
  (((wf.outEdges stepId).filter fun e => isBranchLabel e.label).mapM (branchIndex E)).map
    fun xs => (xs.insertionSort fun a b => a.1 ≤ b.1).map Prod.snd

def findEntryId : Except ExecutionError StepId :=
  if wf.nodes.isEmpty then .error .emptyWorkflow
  else
    match wf.stepIds.filter fun s => s ∉ wf.edges.map (·.target) with
    | [] => .error .noEntry
    | [s] => .ok s
    | ss => .error (.multipleEntries (ss.insertionSort (· ≤ ·)))

end Routing

section BuildInput

def conditionContext (outputs : OrderedDict StepId Dict) : Dict :=
  OrderedDict.empty.set "node" (.obj (outputs.mapVal fun d => Json.obj d.entries).entries)

def promote (ctx values : Dict) : Dict :=
  ctx.update (values.filterKeys fun k => k ≠ "node").entries

mutual

def renderPayload (ctx : Dict) : Json → Except String Json
  | .str s => (E.renderTemplate s ctx).map .str
  | .arr xs => (renderItems ctx xs).map .arr
  | .obj kvs => (renderFields ctx kvs).map .obj
  | x => .ok x

def renderItems (ctx : Dict) : List Json → Except String (List Json)
  | [] => .ok []
  | x :: xs => do
      let x ← renderPayload ctx x
      let xs ← renderItems ctx xs
      return x :: xs

def renderFields (ctx : Dict) : List (String × Json) → Except String (List (String × Json))
  | [] => .ok []
  | (k, v) :: kvs => do
      let v ← renderPayload ctx v
      let kvs ← renderFields ctx kvs
      return (k, v) :: kvs

end

def buildInput (node : NodeClass) (upstream : Payload) (config : Dict) (st : WorkflowState) :
    Except ExecutionError Dict :=
  let base := upstream.rawBase.filterKeys fun k => k ∈ node.inputFields
  if config.entries.isEmpty then .ok base
  else
    let ctx := promote (promote (conditionContext st.outputs) st.triggerPayload) upstream.rawBase
    match renderFields E ctx config.entries with
    | .ok rendered => .ok (base.update rendered)
    | .error cause => .error (.templateRenderFailed node.id cause)

def valueInput (value : Json) : Dict := OrderedDict.empty.set "value" value

def applyCondition (node : WorkflowNode) (input : Dict) (st : WorkflowState) :
    Except ExecutionError Dict :=
  match node.config.get? "condition" with
  | some (.str condition) =>
      if E.isBlank condition then .ok (valueInput ((input.get? "value").getD .null))
      else
        match E.evaluateCondition condition (conditionContext st.outputs) with
        | .ok raw => .ok (valueInput (.str (coerceToBranch raw)))
        | .error cause => .error (.conditionFailed node.stepId condition cause)
  | _ => .ok (valueInput ((input.get? "value").getD .null))

def coercePassthrough : Payload → Dict
  | .model d => d
  | .dict d => OrderedDict.empty.set "payload" (.obj d.entries)
  | .none => OrderedDict.empty.set "payload" (.obj [])

def mergeInput (results : List (Option Dict)) : Dict :=
  OrderedDict.empty.set "branch_results"
    (.arr (results.map fun r => (r.map fun d => Json.obj d.entries).getD .null))

end BuildInput

-- What one iteration of `_walk` does before its first await.
inductive Visit where
  | fail (f : Failure)
  | reuse (output : Dict) (next : Option StepId)
  | passthrough (output : Dict) (next : Option StepId)
  | fork (targets : List StepId)
  | execute (node : NodeClass) (input : Dict)

section Visit
variable (wf : Workflow)

def nodeInput (node : WorkflowNode) (carried : Payload) (st : WorkflowState) :
    Except ExecutionError (NodeClass × Dict) := do
  let cls ← resolveNode E node
  let input ← buildInput E cls carried node.config st
  if node.nodeId = Compiler.decisionNodeId then
    let input ← applyCondition E node input st
    return (cls, input)
  else return (cls, input)

def visitNode (node : WorkflowNode) (carried : Payload) (st : WorkflowState) : Visit :=
  match st.reused node.stepId with
  | some output =>
      match route wf node output with
      | .ok next => .reuse output next
      | .error e => .fail (.execution e)
  | none =>
      if node.nodeId ∈ passthroughNodeIds then
        .passthrough (coercePassthrough carried) (nextStep wf node.stepId)
      else if node.nodeId = Compiler.parallelNodeId then
        match branchTargets E wf node.stepId with
        | some targets => .fork targets
        | none => .fail (.unexpected "branch label")
      else
        match nodeInput E node carried st with
        | .ok (cls, input) => .execute cls input
        | .error e => .fail (.execution e)

def visit (stepId : StepId) (carried : Payload) (st : WorkflowState) : Visit :=
  if Compiler.maxSteps ≤ st.nodesExecuted.length then
    .fail (.execution (.stepCapExceeded stepId))
  else
    match wf.step stepId with
    | none => .fail (.execution (.unknownStep stepId))
    | some node => visitNode E wf node carried st

end Visit

section RoutingSpec
variable {E : Engine} {wf : Workflow} {node : WorkflowNode} {c d : StepId} {output : Dict}

theorem nextStep_edge (h : nextStep wf c = some d) : wf.Edge c d := by
  unfold nextStep at h
  split at h
  · cases h
  · next e es hout =>
      cases h
      refine Workflow.edge_of_mem_outEdges ?_
      rw [hout]
      cases hf : (e :: es).find? fun e => e.label = "next" with
      | none => simp
      | some e' => exact List.mem_of_find?_eq_some hf

theorem nextDecisionStep_edge (h : nextDecisionStep wf c output = .ok d) : wf.Edge c d := by
  unfold nextDecisionStep at h
  split at h
  · cases h
  · cases h
  · split at h
    · next e he =>
        cases h
        exact Workflow.edge_of_mem_outEdges (List.mem_of_find?_eq_some he)
    · cases h
  · cases h

theorem joinTarget_edge (h : joinTarget wf c = some d) : wf.Edge c d := by
  obtain ⟨e, he, rfl⟩ := Option.map_eq_some_iff.mp h
  exact Workflow.edge_of_mem_outEdges (List.mem_of_find?_eq_some he)

theorem route_edge (h : route wf node output = .ok (some d)) : wf.Edge node.stepId d := by
  unfold route at h
  split at h
  · cases hd : nextDecisionStep wf node.stepId output with
    | error e => simp [hd, Except.map] at h
    | ok d' =>
        simp only [hd, Except.map, Except.ok.injEq, Option.some.injEq] at h
        exact nextDecisionStep_edge (h ▸ hd)
  · split at h
    · exact joinTarget_edge (Except.ok.inj h)
    · exact nextStep_edge (Except.ok.inj h)

theorem branchTargets_edge {targets : List StepId} (h : branchTargets E wf c = some targets)
    (hd : d ∈ targets) : wf.Edge c d := by
  obtain ⟨xs, hxs, rfl⟩ := Option.map_eq_some_iff.mp h
  obtain ⟨x, hx, rfl⟩ := List.mem_map.mp hd
  rw [(List.perm_insertionSort _ xs).mem_iff] at hx
  obtain ⟨e, he, hex⟩ := Option.exists_of_mem_mapM hxs hx
  obtain ⟨i, -, rfl⟩ := Option.map_eq_some_iff.mp hex
  exact Workflow.edge_of_mem_outEdges (List.mem_filter.mp he).1

end RoutingSpec

section VisitSpec

-- Which branch of `visitNode` led to its result.
inductive VisitNode (E : Engine) (wf : Workflow) (node : WorkflowNode) (carried : Payload)
    (st : WorkflowState) : Visit → Prop where
  | reuse {output next} (hr : st.reused node.stepId = some output)
      (hroute : route wf node output = .ok next) : VisitNode E wf node carried st (.reuse output next)
  | misroute {output e} (hr : st.reused node.stepId = some output)
      (hroute : route wf node output = .error e) :
      VisitNode E wf node carried st (.fail (.execution e))
  | passthrough (hr : st.reused node.stepId = none) (hp : node.nodeId ∈ passthroughNodeIds) :
      VisitNode E wf node carried st
        (.passthrough (coercePassthrough carried) (nextStep wf node.stepId))
  | fork {targets} (hr : st.reused node.stepId = none)
      (hp : node.nodeId = Compiler.parallelNodeId)
      (ht : branchTargets E wf node.stepId = some targets) :
      VisitNode E wf node carried st (.fork targets)
  | badLabel (hr : st.reused node.stepId = none) (hp : node.nodeId = Compiler.parallelNodeId)
      (ht : branchTargets E wf node.stepId = none) :
      VisitNode E wf node carried st (.fail (.unexpected "branch label"))
  | execute {cls input} (hr : st.reused node.stepId = none)
      (hpass : node.nodeId ∉ passthroughNodeIds) (hp : node.nodeId ≠ Compiler.parallelNodeId)
      (hin : nodeInput E node carried st = .ok (cls, input)) :
      VisitNode E wf node carried st (.execute cls input)
  | badInput {e} (hr : st.reused node.stepId = none) (hpass : node.nodeId ∉ passthroughNodeIds)
      (hp : node.nodeId ≠ Compiler.parallelNodeId) (hin : nodeInput E node carried st = .error e) :
      VisitNode E wf node carried st (.fail (.execution e))

variable {E : Engine} {wf : Workflow} {node : WorkflowNode} {carried : Payload}
  {st : WorkflowState} {output input : Dict} {next : Option StepId} {cls : NodeClass} {f : Failure}
  {targets : List StepId} {c : StepId} {v : Visit}

theorem visit_known (h : visit E wf c carried st = v) (hv : ∀ e, v ≠ .fail e) :
    st.nodesExecuted.length < Compiler.maxSteps ∧
      ∃ node, wf.step c = some node ∧ visitNode E wf node carried st = v := by
  unfold visit at h
  split at h
  · exact absurd h.symm (hv _)
  · next hcap =>
      refine ⟨Nat.lt_of_not_le hcap, ?_⟩
      split at h
      · exact absurd h.symm (hv _)
      · next node hnode => exact ⟨node, hnode, h⟩

theorem visitNode_cases : VisitNode E wf node carried st (visitNode E wf node carried st) := by
  unfold visitNode
  split
  · next hr =>
      split
      · next hroute => exact .reuse hr hroute
      · next hroute => exact .misroute hr hroute
  · next hr =>
      split
      · next hpass => exact .passthrough hr hpass
      · next hpass =>
          split
          · next hp =>
              split
              · next ht => exact .fork hr hp ht
              · next ht => exact .badLabel hr hp ht
          · next hp =>
              split
              · next hin => exact .execute hr hpass hp hin
              · next hin => exact .badInput hr hpass hp hin

theorem visit_cases (h : visit E wf c carried st = v) (hv : ∀ e, v ≠ .fail e) :
    st.nodesExecuted.length < Compiler.maxSteps ∧
      ∃ node, wf.step c = some node ∧ node.stepId = c ∧ VisitNode E wf node carried st v := by
  obtain ⟨hcap, node, hnode, rfl⟩ := visit_known h hv
  exact ⟨hcap, node, hnode, Workflow.step_stepId hnode, visitNode_cases⟩

theorem visit_fail_not_paused {c' : StepId} {p : Pause} :
    visit E wf c carried st ≠ .fail (.paused c' p) := by
  intro h
  unfold visit at h
  split at h
  · cases h
  · split at h
    · cases h
    · next node _ =>
        have hcases : VisitNode E wf node carried st _ := visitNode_cases
        rw [h] at hcases
        cases hcases

theorem nodeInput_class (h : nodeInput E node carried st = .ok (cls, input)) :
    resolveNode E node = .ok cls := by
  obtain ⟨cls', hcls, hrest⟩ := Except.bind_ok_iff.mp h
  obtain ⟨base, -, hrest⟩ := Except.bind_ok_iff.mp hrest
  split at hrest
  · obtain ⟨_, -, heq⟩ := Except.bind_ok_iff.mp hrest
    cases heq
    exact hcls
  · cases hrest
    exact hcls

end VisitSpec

end Executor

end BTagent
