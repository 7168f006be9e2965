import BTagent.Engine.Compiler
import Mathlib.Data.List.Dedup

namespace BTagent.Compiler

theorem require_ok {c : Bool} {e : CompileError} {u : Unit} :
    require c e = .ok u ↔ c = true := by
  cases c <;> simp [require]

structure Accepted (steps : List CompiledStep) : Prop where
  nodup : (steps.map (·.id)).Nodup
  few : steps.length ≤ maxSteps
  noCycle : detectCycles (buildWorkflow "" steps).nodes (buildWorkflow "" steps).edges = []

variable {P : Deps}

theorem parseSteps_length {seen : List StepId} {raws : List Yaml} {steps : List CompiledStep}
    (h : parseSteps P seen raws = .ok steps) : steps.length = raws.length := by
  induction raws generalizing seen steps with
  | nil => cases h; rfl
  | cons raw raws ih =>
      simp only [parseSteps, Except.bind_ok_iff] at h
      obtain ⟨step, -, -, -, rest, hrest, heq⟩ := h
      cases heq
      simp [ih hrest]

theorem parseSteps_fresh {seen : List StepId} {raws : List Yaml} {steps : List CompiledStep}
    (h : parseSteps P seen raws = .ok steps) :
    (steps.map (·.id)).Nodup ∧ ∀ s ∈ steps.map (·.id), s ∉ seen := by
  induction raws generalizing seen steps with
  | nil => cases h; simp
  | cons raw raws ih =>
      simp only [parseSteps, Except.bind_ok_iff, require_ok] at h
      obtain ⟨step, -, -, hnew, rest, hrest, heq⟩ := h
      cases heq
      obtain ⟨hnodup, hfresh⟩ := ih hrest
      have hstep : step.id ∉ seen := by simpa using hnew
      refine ⟨List.nodup_cons.mpr ⟨fun hm => ?_, hnodup⟩, fun s hs => ?_⟩
      · exact hfresh step.id hm (by simp)
      · rcases List.mem_cons.mp hs with rfl | hs
        · exact hstep
        · exact fun hm => hfresh s hs (List.mem_cons_of_mem _ hm)

theorem compileSteps_accepted {raw : Yaml} {name : String} {steps : List CompiledStep}
    (h : compileSteps P raw = .ok (name, steps)) : Accepted steps := by
  cases raw with
  | map kvs =>
      simp only [compileSteps, Except.bind_ok_iff, require_ok] at h
      obtain ⟨-, -, -, -, -, -, raws, -, -, hfew, -, -, -, -, -, -, parsed, hparsed, -, hcyc,
        -, -, _, -, heq⟩ := h
      cases heq
      refine ⟨(parseSteps_fresh hparsed).1, ?_, List.isEmpty_iff.mp hcyc⟩
      rw [parseSteps_length hparsed]
      exact of_decide_eq_true hfew
  | _ => cases h

theorem compilePlaybook_accepted {text : String} {wf : Workflow}
    (h : compilePlaybook P text = .ok wf) :
    ∃ name steps, Accepted steps ∧ wf = buildWorkflow name steps := by
  simp only [compilePlaybook, Except.bind_ok_iff] at h
  obtain ⟨raw, -, ⟨name, steps⟩, hsteps, heq⟩ := h
  cases heq
  exact ⟨name, steps, compileSteps_accepted hsteps, rfl⟩

theorem mem_refEdge {ids : List StepId} {source target : StepId} {label : String}
    {e : WorkflowEdge} (h : e ∈ refEdge ids source label target) :
    e = ⟨source, target, label⟩ ∧ target ∈ ids := by
  unfold refEdge at h
  split at h
  · next hc => exact ⟨List.mem_singleton.mp h, hc.2⟩
  · simp at h

theorem mem_branchHead {ids : List StepId} {source : StepId} {i : ℕ} {branch : List StepId}
    {e : WorkflowEdge} (h : e ∈ branchHead ids source i branch) :
    e.source = source ∧ e.target ∈ ids := by
  cases branch with
  | nil => cases h
  | cons head rest =>
      simp only [branchHead] at h
      split at h
      · next hc =>
          obtain rfl := List.mem_singleton.mp h
          exact ⟨rfl, hc⟩
      · simp at h

theorem mem_chainEdges {ids : List StepId} {branch : List StepId} {e : WorkflowEdge}
    (h : e ∈ chainEdges ids branch) : e.source ∈ ids ∧ e.target ∈ ids := by
  induction branch with
  | nil => cases h
  | cons a rest ih =>
      cases rest with
      | nil => cases h
      | cons b rest =>
          rcases List.mem_append.mp h with h | h
          · split at h
            · next hc =>
                obtain rfl := List.mem_singleton.mp h
                exact hc
            · simp at h
          · exact ih h

theorem mem_branchEdges {ids : List StepId} {source : StepId} (hs : source ∈ ids) {i : ℕ}
    {branches : List (List StepId)} {e : WorkflowEdge}
    (h : e ∈ branchEdges ids source i branches) : e.source ∈ ids ∧ e.target ∈ ids := by
  induction branches generalizing i with
  | nil => cases h
  | cons branch rest ih =>
      rcases List.mem_append.mp h with h | h
      · rcases List.mem_append.mp h with h | h
        · obtain ⟨hsource, htarget⟩ := mem_branchHead h
          exact ⟨hsource ▸ hs, htarget⟩
        · exact mem_chainEdges h
      · exact ih h

theorem mem_buildEdges {ids : List StepId} {step : CompiledStep} (hs : step.id ∈ ids)
    {e : WorkflowEdge} (h : e ∈ buildEdges ids step) : e.source ∈ ids ∧ e.target ∈ ids := by
  have href : ∀ {label target}, e ∈ refEdge ids step.id label target →
      e.source ∈ ids ∧ e.target ∈ ids := by
    intro label target h
    obtain ⟨rfl, ht⟩ := mem_refEdge h
    exact ⟨hs, ht⟩
  unfold buildEdges at h
  split at h
  · rcases List.mem_append.mp h with h | h
    · rcases List.mem_append.mp h with h | h
      · exact href h
      · exact href h
    · exact href h
  · rcases List.mem_append.mp h with h | h
    · exact mem_branchEdges hs h
    · exact href h
  · exact href h

section BuildWorkflow
variable {name : String} {steps : List CompiledStep}

@[simp] theorem buildWorkflow_stepIds :
    (buildWorkflow name steps).stepIds = steps.map (·.id) := by
  simp [Workflow.stepIds, buildWorkflow, buildNode, Function.comp_def]

theorem mem_edges_buildWorkflow {e : WorkflowEdge} (h : e ∈ (buildWorkflow name steps).edges) :
    e.source ∈ steps.map (·.id) ∧ e.target ∈ steps.map (·.id) := by
  obtain ⟨step, hstep, he⟩ := List.mem_flatMap.mp h
  exact mem_buildEdges (List.mem_map_of_mem hstep) he

end BuildWorkflow

section Cycles
variable {nodes : List WorkflowNode} {edges : List WorkflowEdge} {s t : StepId}

-- An edge whose ends are both nodes.
def Between (nodes : List WorkflowNode) (edges : List WorkflowEdge) (s t : StepId) : Prop :=
  s ∈ nodes.map (·.stepId) ∧ t ∈ nodes.map (·.stepId) ∧
    ∃ e ∈ edges, e.source = s ∧ e.target = t

theorem edge_sortEdges {ids : List StepId} :
    Kahn.Edge (sortEdges ids edges) s t ↔
      s ∈ ids ∧ t ∈ ids ∧ ∃ e ∈ edges, e.source = s ∧ e.target = t := by
  constructor
  · intro hedge
    obtain ⟨e, he, heq⟩ := List.mem_map.mp hedge
    obtain ⟨hmem, hids⟩ := List.mem_filter.mp he
    obtain ⟨hs, ht⟩ := of_decide_eq_true hids
    cases heq
    exact ⟨hs, ht, e, hmem, rfl, rfl⟩
  · rintro ⟨hs, ht, e, he, rfl, rfl⟩
    exact List.mem_map.mpr ⟨e, List.mem_filter.mpr ⟨he, decide_eq_true ⟨hs, ht⟩⟩, rfl⟩

theorem detectCycles_nil_iff :
    detectCycles nodes edges = [] ↔ ∀ s, ¬ Relation.TransGen (Between nodes edges) s s := by
  have hends : ∀ e ∈ sortEdges (nodes.map (·.stepId)).dedup edges,
      e.1 ∈ (nodes.map (·.stepId)).dedup ∧ e.2 ∈ (nodes.map (·.stepId)).dedup := by
    intro e he
    obtain ⟨hs, ht, -⟩ := edge_sortEdges.mp he
    exact ⟨hs, ht⟩
  have hsame : Kahn.Edge (sortEdges (nodes.map (·.stepId)).dedup edges) = Between nodes edges := by
    funext s t
    rw [eq_iff_iff, edge_sortEdges, List.mem_dedup, List.mem_dedup]
    rfl
  have hleft := Kahn.left_nil_iff (· ≤ ·) (List.nodup_dedup _) hends
  rw [Kahn.Acyclic, hsame] at hleft
  exact hleft

end Cycles

section Acyclic
variable {name : String} {steps : List CompiledStep}

theorem between_buildWorkflow :
    Between (buildWorkflow name steps).nodes (buildWorkflow name steps).edges =
      (buildWorkflow name steps).Edge := by
  have hids : (buildWorkflow name steps).nodes.map (·.stepId) = steps.map (·.id) :=
    buildWorkflow_stepIds
  funext s t
  rw [eq_iff_iff, Between, hids]
  constructor
  · exact fun h => h.2.2
  · rintro ⟨e, he, rfl, rfl⟩
    have hends := mem_edges_buildWorkflow he
    exact ⟨hends.1, hends.2, e, he, rfl, rfl⟩

theorem detectCycles_buildWorkflow :
    detectCycles (buildWorkflow name steps).nodes (buildWorkflow name steps).edges = [] ↔
      (buildWorkflow name steps).Acyclic := by
  rw [detectCycles_nil_iff, between_buildWorkflow]
  rfl

theorem acyclic_buildWorkflow (h : Accepted steps) : (buildWorkflow name steps).Acyclic :=
  detectCycles_buildWorkflow.mp h.noCycle

theorem cycles_detected (P : Deps) :
    (∀ nodes edges, detectCycles nodes edges = [] ↔
      ∀ s, ¬ Relation.TransGen (Between nodes edges) s s) ∧
    ∀ text wf, compilePlaybook P text = .ok wf → wf.Acyclic := by
  refine ⟨fun _ _ => detectCycles_nil_iff, fun text wf h => ?_⟩
  obtain ⟨name, steps, haccepted, rfl⟩ := compilePlaybook_accepted h
  exact acyclic_buildWorkflow haccepted

-- A self loop is found among parallel edges into another component.
example : detectCycles [⟨"a", "", "", .empty⟩, ⟨"b", "", "", .empty⟩, ⟨"a", "", "", .empty⟩]
    [⟨"b", "a", "next"⟩, ⟨"b", "a", "true"⟩, ⟨"b", "b", "false"⟩] = ["a", "b"] := by
  decide

end Acyclic

end BTagent.Compiler
