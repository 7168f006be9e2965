import BTagent.Engine.CompiledGraph
import BTagent.Playbooks.Backend
import BTagent.Playbooks.Definition

namespace BTagent

-- `btagent_agents.playbook.compiler`
namespace AgentsCompiler

open Compiler Playbook

variable (P : Deps)

def parseStep : Yaml → Except CompileError PlaybookStep
  | .map raw => do
      let id ← stepId (Yaml.lookup "id" raw)
      let type ← stepType id ((Yaml.lookup "type" raw).getD (.str "action"))
      let unknown := Yaml.unknownKeys (allowedStepKeys type) raw
      require unknown.isEmpty (.unknownStepKeys id type unknown)
      let failure ← onFailureField id raw
      typedStep P raw id type failure
        (validateBranches id ((Yaml.lookup "branches" raw).getD (.seq [])))
  | _ => .error .stepNotMapping

def parseSteps (seen : List StepId) : List Yaml → Except CompileError (List PlaybookStep)
  | [] => .ok []
  | raw :: rest => do
      let step ← parseStep P raw
      require (step.id ∉ seen) (.duplicateStepId step.id)
      let steps ← parseSteps (step.id :: seen) rest
      return step :: steps

def successors (ids : List StepId) (step : PlaybookStep) : List StepId :=
  refSuccessor ids (step.nextStep.getD "") ++
    (if step.type = .decision then
      refSuccessor ids step.trueBranch ++ refSuccessor ids step.falseBranch else []) ++
    branchSuccessors ids step

def validateDag (steps : List PlaybookStep) : List StepId :=
  let ids := steps.map (·.id)
  cycleNodes ids (sortGraph (successors ids) steps)

def compileRaw : Yaml → Except CompileError PlaybookDefinition
  | .map raw => do
      let unknown := Yaml.unknownKeys allowedTopLevelKeys raw
      require unknown.isEmpty (.unknownTopLevelKeys unknown)
      let name ← orRaise .missingName (Yaml.lookup "name" raw)
      let trigger ← orRaise .missingTrigger (Yaml.lookup "trigger" raw)
      let stepsRaw ← stepList (Yaml.lookup "steps" raw)
      require (stepsRaw.length ≤ maxSteps) (.tooManySteps stepsRaw.length)
      let triggerRaw ← triggerMap trigger
      let unknownTrigger := Yaml.unknownKeys allowedTriggerKeys triggerRaw
      require unknownTrigger.isEmpty (.unknownTriggerKeys unknownTrigger)
      let type ← orRaise .triggerMissingType (Yaml.lookup "type" triggerRaw)
      let trigger ← triggerCondition type ((Yaml.lookup "parameters" triggerRaw).getD (.map []))
      let steps ← parseSteps P [] stepsRaw
      let cycle := validateDag steps
      require cycle.isEmpty (.cycle cycle)
      let name ← orRaise (.python "name") (P.laxStr name)
      let version ← strField P raw "version" "1.0"
      let description ← strField P raw "description" ""
      return ⟨name, version, description, trigger, steps⟩
  | _ => .error .notMapping

def compile (text : String) : Except CompileError PlaybookDefinition := do
  let raw ← parseYaml P text
  compileRaw P raw

end AgentsCompiler

-- What a step says about the steps that come after it.
structure StepLinks where
  id : StepId
  type : StepType
  nextStep : Option StepId
  trueBranch : StepId
  falseBranch : StepId
  branches : List (List StepId)

def PlaybookStep.links (step : PlaybookStep) : StepLinks :=
  ⟨step.id, step.type, step.nextStep, step.trueBranch, step.falseBranch, step.branches⟩

def Compiler.CompiledStep.links (step : Compiler.CompiledStep) : StepLinks :=
  ⟨step.id, step.type, step.nextStep, step.trueBranch, step.falseBranch, step.branches⟩

namespace StepLinks

def ids (steps : List StepLinks) : List StepId := steps.map (·.id)

def Names (step : StepLinks) (t : StepId) : Prop :=
  step.nextStep = some t ∨
    (step.type = .decision ∧ (step.trueBranch = t ∨ step.falseBranch = t)) ∨
    (step.type = .parallelFork ∧ t ∈ step.branches.flatten)

-- A fork leads to every step of its branches.
def Refers (steps : List StepLinks) (s t : StepId) : Prop :=
  t ∈ ids steps ∧ ∃ step ∈ steps, step.id = s ∧ step.Names t

-- A fork leads to the heads of its branches, and in a branch each step leads to the next one.
inductive Authored (steps : List StepLinks) : StepId → StepId → String → Prop
  | next {step : StepLinks} {t : StepId} (hstep : step ∈ steps) (htype : step.type ≠ .parallelFork)
      (hnext : step.nextStep = some t) (ht : t ∈ ids steps) : Authored steps step.id t "next"
  | join {step : StepLinks} {t : StepId} (hstep : step ∈ steps) (htype : step.type = .parallelFork)
      (hnext : step.nextStep = some t) (ht : t ∈ ids steps) : Authored steps step.id t "join"
  | onTrue {step : StepLinks} (hstep : step ∈ steps) (htype : step.type = .decision)
      (ht : step.trueBranch ∈ ids steps) : Authored steps step.id step.trueBranch "true"
  | onFalse {step : StepLinks} (hstep : step ∈ steps) (htype : step.type = .decision)
      (ht : step.falseBranch ∈ ids steps) : Authored steps step.id step.falseBranch "false"
  | branch {step : StepLinks} {i : ℕ} {t : StepId} {rest : List StepId} (hstep : step ∈ steps)
      (htype : step.type = .parallelFork) (hbranch : step.branches[i]? = some (t :: rest))
      (ht : t ∈ ids steps) : Authored steps step.id t ("branch." ++ toString i)
  | chain {step : StepLinks} {branch before after : List StepId} {s t : StepId}
      (hstep : step ∈ steps) (htype : step.type = .parallelFork) (hbranch : branch ∈ step.branches)
      (hpair : branch = before ++ s :: t :: after) (hs : s ∈ ids steps) (ht : t ∈ ids steps) :
      Authored steps s t "next"

def Follows (steps : List StepLinks) (s t : StepId) : Prop := ∃ label, Authored steps s t label

def NoCycle (r : StepId → StepId → Prop) : Prop := ∀ s, ¬ Relation.TransGen r s s

def Resolved (steps : List StepLinks) : Prop :=
  ∀ step ∈ steps, ∀ t, step.Names t → t ≠ "" → t ∈ ids steps

variable {steps : List StepLinks} {s t : StepId}

theorem Authored.mem {label : String} (h : Authored steps s t label) :
    s ∈ ids steps ∧ t ∈ ids steps := by
  cases h with
  | next hstep _ _ ht => exact ⟨List.mem_map_of_mem hstep, ht⟩
  | join hstep _ _ ht => exact ⟨List.mem_map_of_mem hstep, ht⟩
  | onTrue hstep _ ht => exact ⟨List.mem_map_of_mem hstep, ht⟩
  | onFalse hstep _ ht => exact ⟨List.mem_map_of_mem hstep, ht⟩
  | branch hstep _ _ ht => exact ⟨List.mem_map_of_mem hstep, ht⟩
  | chain _ _ _ _ hs ht => exact ⟨hs, ht⟩

theorem reach_branch {step : StepLinks} {branch after : List StepId} (hstep : step ∈ steps)
    (htype : step.type = .parallelFork) (hbranch : branch ∈ step.branches)
    (hids : ∀ r ∈ branch, r ∈ ids steps) {before : List StepId}
    (hsplit : branch = before ++ t :: after) :
    Relation.TransGen (Follows steps) step.id t := by
  induction before using List.reverseRecOn generalizing t after with
  | nil =>
      obtain ⟨i, hi⟩ := List.getElem?_of_mem hbranch
      rw [hsplit, List.nil_append] at hi
      exact .single ⟨_, .branch hstep htype hi (hids t (by simp [hsplit]))⟩
  | append_singleton before s ih =>
      have hpair : branch = before ++ s :: t :: after := by simp [hsplit]
      have hs : s ∈ ids steps := hids s (by simp [hpair])
      have ht : t ∈ ids steps := hids t (by simp [hpair])
      exact .tail (ih hpair) ⟨_, .chain hstep htype hbranch hpair hs ht⟩

theorem follows_of_refers (hresolved : Resolved steps)
    (hrefs : ∀ step ∈ steps, "" ∉ step.branches.flatten) (h : Refers steps s t) :
    Relation.TransGen (Follows steps) s t := by
  obtain ⟨ht, step, hstep, rfl, hnames⟩ := h
  rcases hnames with hnext | ⟨htype, rfl | rfl⟩ | ⟨htype, hflat⟩
  · by_cases htype : step.type = .parallelFork
    · exact .single ⟨_, .join hstep htype hnext ht⟩
    · exact .single ⟨_, .next hstep htype hnext ht⟩
  · exact .single ⟨_, .onTrue hstep htype ht⟩
  · exact .single ⟨_, .onFalse hstep htype ht⟩
  · obtain ⟨branch, hbranch, hmem⟩ := List.mem_flatten.mp hflat
    obtain ⟨before, after, hsplit⟩ := List.append_of_mem hmem
    apply reach_branch hstep htype hbranch _ hsplit
    intro r hr
    have hrflat : r ∈ step.branches.flatten := List.mem_flatten.mpr ⟨branch, hbranch, hr⟩
    apply hresolved step hstep r (Or.inr (Or.inr ⟨htype, hrflat⟩))
    rintro rfl
    exact hrefs step hstep hrflat

theorem noCycle_refers (hresolved : Resolved steps)
    (hrefs : ∀ step ∈ steps, "" ∉ step.branches.flatten) (h : NoCycle (Follows steps)) :
    NoCycle (Refers steps) := by
  have hlift : ∀ {s t}, Relation.TransGen (Refers steps) s t →
      Relation.TransGen (Follows steps) s t := by
    intro s t hpath
    induction hpath with
    | single hedge => exact follows_of_refers hresolved hrefs hedge
    | tail _ hedge ih => exact ih.trans (follows_of_refers hresolved hrefs hedge)
  intro s hs
  exact h s (hlift hs)

section Sorted
open Playbook

theorem cycleNodes_nil {ids : List StepId} (edges : List (StepId × StepId)) (hn : ids.Nodup)
    (he : ∀ e ∈ edges, e.1 ∈ ids ∧ e.2 ∈ ids) :
    cycleNodes ids edges = [] ↔ Kahn.Acyclic edges :=
  Kahn.left_nil_iff (· ≤ ·) hn he

variable {steps : List PlaybookStep} {s t : StepId}

theorem ids_links : ids (steps.map PlaybookStep.links) = steps.map (·.id) := by
  rw [ids, List.map_map]
  rfl

theorem mem_refSuccessor {ids : List StepId} (hempty : "" ∉ ids) {ref : StepId} :
    t ∈ refSuccessor ids ref ↔ t ∈ ids ∧ ref = t := by
  rw [refSuccessor]
  split
  · next h =>
      rw [List.mem_singleton]
      constructor
      · rintro rfl
        exact ⟨h.2, rfl⟩
      · exact fun ht => ht.2.symm
  · next h =>
      simp only [List.not_mem_nil, false_iff]
      rintro ⟨ht, rfl⟩
      apply h
      refine ⟨?_, ht⟩
      rintro rfl
      exact hempty ht

theorem mem_nextSuccessor {ids : List StepId} (hempty : "" ∉ ids) {next : Option StepId} :
    t ∈ refSuccessor ids (next.getD "") ↔ t ∈ ids ∧ next = some t := by
  rw [mem_refSuccessor hempty]
  cases next with
  | none =>
      simp only [Option.getD_none, reduceCtorEq, and_false, iff_false]
      rintro ⟨ht, rfl⟩
      exact hempty ht
  | some ref => simp

theorem mem_branchSuccessors {ids : List StepId} {step : PlaybookStep} :
    t ∈ branchSuccessors ids step ↔
      t ∈ ids ∧ step.type = .parallelFork ∧ t ∈ step.branches.flatten := by
  rw [branchSuccessors]
  split
  · next h =>
      rw [List.mem_filter, decide_eq_true_iff]
      tauto
  · next h =>
      simp only [List.not_mem_nil, false_iff]
      exact fun ht => h ht.2.1

theorem agents_successors {ids : List StepId} (hempty : "" ∉ ids) {step : PlaybookStep} :
    t ∈ AgentsCompiler.successors ids step ↔ t ∈ ids ∧ step.links.Names t := by
  have hdecision : t ∈ (if step.type = .decision then
      refSuccessor ids step.trueBranch ++ refSuccessor ids step.falseBranch else []) ↔
        t ∈ ids ∧ step.type = .decision ∧ (step.trueBranch = t ∨ step.falseBranch = t) := by
    split
    · next h =>
        rw [List.mem_append, mem_refSuccessor hempty, mem_refSuccessor hempty]
        tauto
    · next h =>
        simp only [List.not_mem_nil, false_iff]
        exact fun ht => h ht.2.1
  rw [AgentsCompiler.successors, List.mem_append, List.mem_append, mem_nextSuccessor hempty,
    hdecision, mem_branchSuccessors]
  simp only [Names, PlaybookStep.links]
  tauto

theorem backend_successors {ids : List StepId} (hempty : "" ∉ ids) {step : PlaybookStep} :
    t ∈ PlaybookService.successors ids step ↔ t ∈ ids ∧ step.links.Names t := by
  have hdecision : t ∈ (if step.type = .decision then
      [step.trueBranch, step.falseBranch].filter (· ∈ ids) else []) ↔
        t ∈ ids ∧ step.type = .decision ∧ (step.trueBranch = t ∨ step.falseBranch = t) := by
    split
    · next h =>
        simp only [List.mem_filter, List.mem_cons, List.not_mem_nil, or_false,
          decide_eq_true_iff, eq_comm (a := t)]
        tauto
    · next h =>
        simp only [List.not_mem_nil, false_iff]
        exact fun ht => h ht.2.1
  rw [PlaybookService.successors, List.mem_append, List.mem_append, mem_nextSuccessor hempty,
    hdecision, mem_branchSuccessors]
  simp only [Names, PlaybookStep.links]
  tauto

theorem sortGraph_refers {successors : PlaybookStep → List StepId}
    (hsuccessors : ∀ step t, t ∈ successors step ↔
      t ∈ steps.map (·.id) ∧ step.links.Names t) :
    Kahn.Edge (sortGraph successors steps) s t ↔ Refers (steps.map PlaybookStep.links) s t := by
  simp only [Kahn.Edge, sortGraph, List.mem_flatMap, List.mem_map, Refers, ids_links]
  constructor
  · rintro ⟨step, hstep, r, hr, heq⟩
    cases heq
    obtain ⟨hids, hnames⟩ := (hsuccessors step t).mp hr
    exact ⟨List.mem_map.mp hids, step.links, ⟨step, hstep, rfl⟩, rfl, hnames⟩
  · rintro ⟨hids, -, ⟨step, hstep, rfl⟩, rfl, hnames⟩
    exact ⟨step, hstep, t, (hsuccessors step t).mpr ⟨List.mem_map.mpr hids, hnames⟩, rfl⟩

theorem cycleNodes_sortGraph {successors : PlaybookStep → List StepId}
    (hn : (steps.map (·.id)).Nodup)
    (hsuccessors : ∀ step t, t ∈ successors step ↔
      t ∈ steps.map (·.id) ∧ step.links.Names t) :
    cycleNodes (steps.map (·.id)) (sortGraph successors steps) = [] ↔
      NoCycle (Refers (steps.map PlaybookStep.links)) := by
  have hsame : Kahn.Edge (sortGraph successors steps) =
      Refers (steps.map PlaybookStep.links) := by
    funext s t
    exact propext (sortGraph_refers hsuccessors)
  have hinside : ∀ e ∈ sortGraph successors steps,
      e.1 ∈ steps.map (·.id) ∧ e.2 ∈ steps.map (·.id) := by
    rintro ⟨s, t⟩ he
    obtain ⟨hids, step, hstep, rfl, -⟩ := (sortGraph_refers hsuccessors).mp he
    rw [ids_links] at hids
    obtain ⟨other, hother, rfl⟩ := List.mem_map.mp hstep
    exact ⟨List.mem_map_of_mem hother, hids⟩
  have hcycle := cycleNodes_nil (sortGraph successors steps) hn hinside
  simp only [Kahn.Acyclic, hsame] at hcycle
  exact hcycle

end Sorted

section Edges
open Compiler

variable {stepIds : List StepId} {e : WorkflowEdge} {source : StepId}

theorem mem_refEdge_iff (hempty : "" ∉ stepIds) {label : String} {target : StepId} :
    e ∈ refEdge stepIds source label target ↔ e = ⟨source, target, label⟩ ∧ target ∈ stepIds := by
  rw [refEdge]
  split
  · next h =>
      rw [List.mem_singleton]
      exact ⟨fun he => ⟨he, h.2⟩, fun he => he.1⟩
  · next h =>
      simp only [List.not_mem_nil, false_iff]
      rintro ⟨-, ht⟩
      apply h
      refine ⟨?_, ht⟩
      rintro rfl
      exact hempty ht

theorem mem_nextEdge_iff (hempty : "" ∉ stepIds) {label : String} {next : Option StepId} :
    e ∈ refEdge stepIds source label (next.getD "") ↔
      ∃ t, next = some t ∧ t ∈ stepIds ∧ e = ⟨source, t, label⟩ := by
  rw [mem_refEdge_iff hempty]
  cases next with
  | none =>
      simp only [Option.getD_none, reduceCtorEq, false_and, exists_false, iff_false]
      exact fun h => hempty h.2
  | some t =>
      simp only [Option.getD_some, Option.some.injEq]
      constructor
      · rintro ⟨rfl, ht⟩
        exact ⟨t, rfl, ht, rfl⟩
      · rintro ⟨r, rfl, ht, rfl⟩
        exact ⟨rfl, ht⟩

theorem mem_chainEdges_iff {branch : List StepId} :
    e ∈ chainEdges stepIds branch ↔ ∃ before s t after, branch = before ++ s :: t :: after ∧
      s ∈ stepIds ∧ t ∈ stepIds ∧ e = ⟨s, t, "next"⟩ := by
  induction branch with
  | nil => simp [chainEdges]
  | cons a rest ih =>
      cases rest with
      | nil =>
          simp only [chainEdges, List.not_mem_nil, false_iff]
          rintro ⟨before, s, t, after, hsplit, -⟩
          have hlength := congrArg List.length hsplit
          simp only [List.length_append, List.length_cons, List.length_nil] at hlength
          omega
      | cons b rest =>
          rw [chainEdges, List.mem_append, ih]
          constructor
          · rintro (hfirst | ⟨before, s, t, after, hsplit, hrest⟩)
            · split at hfirst
              · next h =>
                  exact ⟨[], a, b, rest, rfl, h.1, h.2, List.mem_singleton.mp hfirst⟩
              · cases hfirst
            · exact ⟨a :: before, s, t, after, by rw [hsplit]; rfl, hrest⟩
          · rintro ⟨before, s, t, after, hsplit, hs, ht, he⟩
            cases before with
            | nil =>
                cases hsplit
                left
                rw [if_pos ⟨hs, ht⟩, he]
                exact List.mem_singleton_self _
            | cons c before =>
                rw [List.cons_append] at hsplit
                exact Or.inr ⟨before, s, t, after, (List.cons.inj hsplit).2, hs, ht, he⟩

theorem mem_branchHead_iff {i : ℕ} {branch : List StepId} :
    e ∈ branchHead stepIds source i branch ↔ ∃ t rest, branch = t :: rest ∧ t ∈ stepIds ∧
      e = ⟨source, t, "branch." ++ toString i⟩ := by
  cases branch with
  | nil => simp [branchHead]
  | cons head tail =>
      rw [branchHead]
      split
      · next h =>
          rw [List.mem_singleton]
          constructor
          · exact fun he => ⟨head, tail, rfl, h, he⟩
          · rintro ⟨t, rest, heq, -, he⟩
            cases heq
            exact he
      · next h =>
          simp only [List.not_mem_nil, false_iff]
          rintro ⟨t, rest, heq, ht, -⟩
          cases heq
          exact h ht

theorem mem_branchEdges_iff {i : ℕ} {branches : List (List StepId)} :
    e ∈ branchEdges stepIds source i branches ↔
      (∃ j t rest, branches[j]? = some (t :: rest) ∧ t ∈ stepIds ∧
        e = ⟨source, t, "branch." ++ toString (i + j)⟩) ∨
      ∃ branch ∈ branches, e ∈ chainEdges stepIds branch := by
  induction branches generalizing i with
  | nil => simp [branchEdges]
  | cons branch branches ih =>
      rw [branchEdges, List.mem_append, List.mem_append, mem_branchHead_iff, ih]
      constructor
      · rintro ((⟨t, rest, rfl, ht, rfl⟩ | hchain) | ⟨j, t, rest, hj, ht, rfl⟩ | ⟨b, hb, hchain⟩)
        · exact Or.inl ⟨0, t, rest, rfl, ht, rfl⟩
        · exact Or.inr ⟨branch, List.mem_cons_self, hchain⟩
        · refine Or.inl ⟨j + 1, t, rest, hj, ht, ?_⟩
          rw [Nat.add_right_comm, Nat.add_assoc]
        · exact Or.inr ⟨b, List.mem_cons_of_mem _ hb, hchain⟩
      · rintro (⟨j, t, rest, hj, ht, rfl⟩ | ⟨b, hb, hchain⟩)
        · cases j with
          | zero =>
              cases hj
              exact Or.inl (Or.inl ⟨t, rest, rfl, ht, rfl⟩)
          | succ j =>
              refine Or.inr (Or.inl ⟨j, t, rest, hj, ht, ?_⟩)
              rw [Nat.add_right_comm, Nat.add_assoc]
        · rcases List.mem_cons.mp hb with rfl | hb
          · exact Or.inl (Or.inr hchain)
          · exact Or.inr (Or.inr ⟨b, hb, hchain⟩)

variable {name : String} {steps : List CompiledStep}

theorem ids_compiled : ids (steps.map CompiledStep.links) = steps.map (·.id) := by
  rw [ids, List.map_map]
  rfl

theorem mem_forkEdges_iff {step : CompiledStep} (hstep : step ∈ steps)
    (htype : step.type = .parallelFork)
    (h : e ∈ branchEdges (steps.map (·.id)) step.id 0 step.branches) :
    Authored (steps.map CompiledStep.links) e.source e.target e.label := by
  have hlinks := List.mem_map_of_mem (f := CompiledStep.links) hstep
  rcases mem_branchEdges_iff.mp h with ⟨j, t, rest, hj, ht, rfl⟩ | ⟨branch, hbranch, hchain⟩
  · rw [Nat.zero_add]
    exact .branch hlinks htype hj (by rwa [ids_compiled])
  · obtain ⟨before, s, t, after, hsplit, hs, ht, rfl⟩ := mem_chainEdges_iff.mp hchain
    exact .chain hlinks htype hbranch hsplit (by rwa [ids_compiled]) (by rwa [ids_compiled])

theorem authored_of_mem (hempty : "" ∉ steps.map (·.id)) {step : CompiledStep}
    (hstep : step ∈ steps) (h : e ∈ buildEdges (steps.map (·.id)) step) :
    Authored (steps.map CompiledStep.links) e.source e.target e.label := by
  have hlinks := List.mem_map_of_mem (f := CompiledStep.links) hstep
  rw [buildEdges] at h
  split at h
  · next htype =>
      rcases List.mem_append.mp h with h | h
      · rcases List.mem_append.mp h with h | h
        · obtain ⟨rfl, ht⟩ := (mem_refEdge_iff hempty).mp h
          exact .onTrue hlinks htype (by rwa [ids_compiled])
        · obtain ⟨rfl, ht⟩ := (mem_refEdge_iff hempty).mp h
          exact .onFalse hlinks htype (by rwa [ids_compiled])
      · obtain ⟨t, hnext, ht, rfl⟩ := (mem_nextEdge_iff hempty).mp h
        refine .next hlinks ?_ hnext (by rwa [ids_compiled])
        intro hfork
        rw [show step.type = _ from hfork] at htype
        cases htype
  · next htype =>
      rcases List.mem_append.mp h with h | h
      · exact mem_forkEdges_iff hstep htype h
      · obtain ⟨t, hnext, ht, rfl⟩ := (mem_nextEdge_iff hempty).mp h
        exact .join hlinks htype hnext (by rwa [ids_compiled])
  · next hdecision hfork =>
      obtain ⟨t, hnext, ht, rfl⟩ := (mem_nextEdge_iff hempty).mp h
      exact .next hlinks hfork hnext (by rwa [ids_compiled])

theorem mem_of_authored (hempty : "" ∉ steps.map (·.id)) {s t : StepId} {label : String}
    (h : Authored (steps.map CompiledStep.links) s t label) :
    ⟨s, t, label⟩ ∈ (buildWorkflow name steps).edges := by
  have hsource : ∀ {link : StepLinks}, link ∈ steps.map CompiledStep.links →
      ∃ step ∈ steps, step.links = link := fun h => List.mem_map.mp h
  have hedge : ∀ {step : CompiledStep} {edge : WorkflowEdge}, step ∈ steps →
      edge ∈ buildEdges (steps.map (·.id)) step → edge ∈ (buildWorkflow name steps).edges :=
    fun hstep he => List.mem_flatMap.mpr ⟨_, hstep, he⟩
  cases h with
  | next hlink htype hnext ht =>
      obtain ⟨step, hstep, rfl⟩ := hsource hlink
      rw [ids_compiled] at ht
      have hmem : ⟨step.id, t, "next"⟩ ∈
          refEdge (steps.map (·.id)) step.id "next" (step.nextStep.getD "") :=
        (mem_nextEdge_iff hempty).mpr ⟨t, hnext, ht, rfl⟩
      apply hedge hstep
      rw [buildEdges]
      split
      · exact List.mem_append_right _ hmem
      · next hfork => exact absurd hfork htype
      · exact hmem
  | join hlink htype hnext ht =>
      obtain ⟨step, hstep, rfl⟩ := hsource hlink
      rw [ids_compiled] at ht
      have hfork : step.type = .parallelFork := htype
      apply hedge hstep
      rw [buildEdges, hfork]
      exact List.mem_append_right _ ((mem_nextEdge_iff hempty).mpr ⟨t, hnext, ht, rfl⟩)
  | onTrue hlink htype ht =>
      obtain ⟨step, hstep, rfl⟩ := hsource hlink
      rw [ids_compiled] at ht
      have hdecision : step.type = .decision := htype
      apply hedge hstep
      rw [buildEdges, hdecision]
      exact List.mem_append_left _ (List.mem_append_left _
        ((mem_refEdge_iff hempty).mpr ⟨rfl, ht⟩))
  | onFalse hlink htype ht =>
      obtain ⟨step, hstep, rfl⟩ := hsource hlink
      rw [ids_compiled] at ht
      have hdecision : step.type = .decision := htype
      apply hedge hstep
      rw [buildEdges, hdecision]
      exact List.mem_append_left _ (List.mem_append_right _
        ((mem_refEdge_iff hempty).mpr ⟨rfl, ht⟩))
  | @branch _ i _ rest hlink htype hbranch ht =>
      obtain ⟨step, hstep, rfl⟩ := hsource hlink
      rw [ids_compiled] at ht
      have hfork : step.type = .parallelFork := htype
      apply hedge hstep
      rw [buildEdges, hfork]
      refine List.mem_append_left _ (mem_branchEdges_iff.mpr (Or.inl ⟨i, t, rest, hbranch, ht, ?_⟩))
      rw [Nat.zero_add]
      rfl
  | @chain _ branch before after _ _ hlink htype hbranch hpair hs ht =>
      obtain ⟨step, hstep, rfl⟩ := hsource hlink
      rw [ids_compiled] at hs ht
      have hfork : step.type = .parallelFork := htype
      apply hedge hstep
      rw [buildEdges, hfork]
      exact List.mem_append_left _ (mem_branchEdges_iff.mpr (Or.inr ⟨branch, hbranch,
        mem_chainEdges_iff.mpr ⟨before, s, t, after, hpair, hs, ht, rfl⟩⟩))

theorem mem_edges_iff (hempty : "" ∉ steps.map (·.id)) :
    e ∈ (buildWorkflow name steps).edges ↔
      Authored (steps.map CompiledStep.links) e.source e.target e.label := by
  constructor
  · intro he
    obtain ⟨step, hstep, he⟩ := List.mem_flatMap.mp he
    exact authored_of_mem hempty hstep he
  · exact mem_of_authored hempty

theorem edge_iff_follows (hempty : "" ∉ steps.map (·.id)) :
    (buildWorkflow name steps).Edge s t ↔ Follows (steps.map CompiledStep.links) s t := by
  constructor
  · rintro ⟨edge, hedge, rfl, rfl⟩
    exact ⟨_, (mem_edges_iff hempty).mp hedge⟩
  · rintro ⟨label, hauthored⟩
    exact ⟨_, mem_of_authored hempty hauthored, rfl, rfl⟩

theorem acyclic_iff_follows (hempty : "" ∉ steps.map (·.id)) :
    (buildWorkflow name steps).Acyclic ↔ NoCycle (Follows (steps.map CompiledStep.links)) := by
  have hsame : (buildWorkflow name steps).Edge = Follows (steps.map CompiledStep.links) := by
    funext s t
    exact propext (edge_iff_follows hempty)
  rw [Workflow.Acyclic, hsame]
  rfl

end Edges

section References
open PlaybookService

variable {steps : List PlaybookStep}

theorem hasKey_str {ids : List StepId} {ref : StepId} :
    hasKey (ids.map .str) (.str ref) = true ↔ ref ∈ ids := by
  simp only [hasKey, List.any_map, List.any_eq_true, Function.comp_apply, sameKey,
    decide_eq_true_iff, exists_eq_right']

theorem referenceErrors_nil {ids : List StepId} {step : PlaybookStep}
    (hrefs : "" ∉ step.branches.flatten) :
    referenceErrors (ids.map .str) step = [] ↔
      ∀ t, step.links.Names t → t ≠ "" → t ∈ ids := by
  have hdangling : ∀ ref : StepId, dangling (ids.map .str) ref = true ↔ ref ≠ "" ∧ ref ∉ ids := by
    intro ref
    simp only [dangling, decide_eq_true_iff, hasKey_str]
  have hif : ∀ {c : Prop} [Decidable c] {error : PlaybookError},
      (if c then [error] else []) = [] ↔ ¬ c := by
    intro c _ error
    split <;> simp [*]
  have hbranches : (if step.type = .parallelFork then
      (step.branches.flatten.filter fun ref => ¬ hasKey (ids.map .str) (.str ref)).map
        (PlaybookError.danglingBranch step.id) else []) = [] ↔
          (step.type = .parallelFork → ∀ ref ∈ step.branches.flatten, ref ∈ ids) := by
    split
    · next htype =>
        simp only [List.map_eq_nil_iff, List.filter_eq_nil_iff, decide_eq_true_iff, not_not,
          hasKey_str, htype, true_imp_iff]
    · next htype => simp [htype]
  simp only [referenceErrors, List.append_eq_nil_iff, hif, hbranches, hdangling, not_and,
    not_not]
  simp only [Names, PlaybookStep.links]
  constructor
  · rintro ⟨⟨⟨hnext, htrue⟩, hfalse⟩, hfork⟩ t hnames hne
    rcases hnames with hn | ⟨htype, rfl | rfl⟩ | ⟨htype, hflat⟩
    · rw [hn] at hnext
      exact hnext hne
    · exact htrue htype hne
    · exact hfalse htype hne
    · exact hfork htype t hflat
  · intro h
    refine ⟨⟨⟨?_, ?_⟩, ?_⟩, ?_⟩
    · cases hn : step.nextStep with
      | none => exact fun hne => absurd rfl hne
      | some t => exact h t (Or.inl hn)
    · exact fun htype => h _ (Or.inr (Or.inl ⟨htype, Or.inl rfl⟩))
    · exact fun htype => h _ (Or.inr (Or.inl ⟨htype, Or.inr rfl⟩))
    · intro htype ref href
      apply h ref (Or.inr (Or.inr ⟨htype, href⟩))
      rintro rfl
      exact hrefs href

end References

end StepLinks

end BTagent
