import BTagent.Engine.Executor

namespace BTagent

inductive Hook where
  | scope
  | classification
  | hitl
  | hitlGate
  | connectorPolicy
  | ocsfNormalizer
  | llmRouter
  | promptBudget
  | evidenceChain
  | eventEmitter
  deriving DecidableEq, Repr

-- `workflow_run_service._build_middleware_chain`
def backendChain : List Hook :=
  [.hitl, .hitlGate, .connectorPolicy, .ocsfNormalizer, .evidenceChain]

-- `engine_runner.build_middleware_chain`
def engineChain (scope budget emit : Bool) : List Hook :=
  (if scope then [.scope] else []) ++
    [.classification, .hitl, .hitlGate, .connectorPolicy, .ocsfNormalizer, .llmRouter] ++
    (if budget then [.promptBudget] else []) ++ [.evidenceChain] ++
    (if emit then [.eventEmitter] else [])

-- One pass of a node through `Runner.execute`.
structure Frame where
  stepId : StepId
  node : NodeClass
  input : Dict

structure EvidenceEntry where
  stepId : StepId
  nodeId : String

inductive Stage where
  | before
  | after (output : Dict)
  | error (e : NodeException)

namespace Runner
open Gates

def raiseIf (pause : Option Pause) (md : Metadata) : Except NodeException Metadata :=
  match pause with
  | some p => .error (.pause p)
  | none => .ok md

-- `refusal` is the verdict of a hook that decides on data outside this model.
def refuseIf {α : Type} (refusal : Option String) (a : α) : Except NodeException α :=
  match refusal with
  | some what => .error (.other what)
  | none => .ok a

def beforeRun (P : Posture) (h : Hook) (f : Frame) (refusal : Option String) (md : Metadata) :
    Except NodeException Metadata :=
  match h with
  | .hitl => raiseIf (hitlBefore P f.node md) md
  | .hitlGate => raiseIf (hitlGateBefore f.node f.input md) md
  | .connectorPolicy =>
      match connectorPolicyBefore P f.node f.input md with
      | .pass md => .ok md
      | .violation v => .error (.policy v)
      | .pause p => .error (.pause p)
  | .scope | .classification | .llmRouter | .promptBudget => refuseIf refusal md
  | .ocsfNormalizer | .evidenceChain | .eventEmitter => .ok md

def afterRun (h : Hook) (f : Frame) (output : Dict) (refusal : Option String) (md : Metadata)
    (evidence : List EvidenceEntry) : Except NodeException (List EvidenceEntry) :=
  match h with
  | .evidenceChain => refuseIf refusal (evidence ++ [⟨f.stepId, f.node.id⟩])
  | .ocsfNormalizer =>
      if (ocsfUndeclared f.node output md).isEmpty then .ok evidence
      else .error (.other "OCSFContractViolation")
  | .classification | .promptBudget => refuseIf refusal evidence
  | _ => .ok evidence

def runHook (P : Posture) (h : Hook) (f : Frame) (refusal : Option String) (md : Metadata)
    (evidence : List EvidenceEntry) :
    Stage → Except NodeException (Metadata × List EvidenceEntry)
  | .before => (beforeRun P h f refusal md).map fun md => (md, evidence)
  | .after output => (afterRun h f output refusal md evidence).map fun evidence => (md, evidence)
  | .error _ => .ok (md, evidence)

section Spec
variable {P : Posture} {h : Hook} {f : Frame} {output : Dict} {refusal : Option String}
  {md md' : Metadata} {evidence evidence' : List EvidenceEntry} {stage : Stage}

theorem afterRun_error {x : NodeException}
    (hx : afterRun h f output refusal md evidence = .error x) : ∃ what, x = .other what := by
  cases h <;> simp only [afterRun, refuseIf] at hx
  all_goals
    try split at hx
    all_goals cases hx
    all_goals exact ⟨_, rfl⟩

theorem afterRun_evidence (hok : afterRun h f output refusal md evidence = .ok evidence') :
    evidence ⊆ evidence' ∧
      (h = .evidenceChain → f.stepId ∈ evidence'.map (·.stepId)) := by
  cases h <;> simp only [afterRun, refuseIf] at hok
  all_goals
    try split at hok
    all_goals cases hok
    all_goals simp

theorem runHook_evidence (hok : runHook P h f refusal md evidence stage = .ok (md', evidence')) :
    evidence ⊆ evidence' := by
  cases stage with
  | before =>
      simp only [runHook] at hok
      cases hb : beforeRun P h f refusal md <;> rw [hb] at hok <;> cases hok
      exact List.Subset.refl _
  | after output =>
      simp only [runHook] at hok
      cases ha : afterRun h f output refusal md evidence <;> rw [ha] at hok <;> cases hok
      exact (afterRun_evidence ha).1
  | error x =>
      cases hok
      exact List.Subset.refl _

theorem runHook_evidenced
    (hok : runHook P .evidenceChain f refusal md evidence (.after output) = .ok (md', evidence')) :
    f.stepId ∈ evidence'.map (·.stepId) := by
  simp only [runHook] at hok
  cases ha : afterRun .evidenceChain f output refusal md evidence <;> rw [ha] at hok <;> cases hok
  exact (afterRun_evidence ha).2 rfl

end Spec

end Runner

end BTagent
