import Mathlib.Data.List.Dedup
import BTagent.Playbooks.Entries

namespace BTagent

namespace Playbook

open Compiler StepLinks

variable (P : Deps)

-- The caps and the key lists of a document.
structure StrictDocument (raw : List (Yaml × Yaml)) : Prop where
  keys : Yaml.unknownKeys allowedTopLevelKeys raw = []
  few : (PlaybookService.stepEntries raw).length ≤ maxSteps
  triggerKeys : ∀ trigger, Yaml.lookup "trigger" raw = some (.map trigger) →
    Yaml.unknownKeys allowedTriggerKeys trigger = []
  entries : ∀ y ∈ PlaybookService.stepEntries raw, StrictEntry y

def Strict (text : String) : Prop :=
  text.utf8ByteSize ≤ maxPlaybookBytes ∧
    ∀ raw, P.safeLoad text = .ok (.map raw) → StrictDocument raw

-- What the models of the definition read, and the engine does not.
structure TypedDocument (raw : List (Yaml × Yaml)) : Prop where
  triggerType : ∀ trigger, Yaml.lookup "trigger" raw = some (.map trigger) →
    ∃ s type, Yaml.lookup "type" trigger = some (.str s) ∧ TriggerType.ofString? s = some type
  parameters : ∀ trigger, Yaml.lookup "trigger" raw = some (.map trigger) →
    (laxDict ((Yaml.lookup "parameters" trigger).getD (.map []))).isSome
  version : (P.laxStr ((Yaml.lookup "version" raw).getD (.str "1.0"))).isSome
  description : (P.laxStr ((Yaml.lookup "description" raw).getD (.str ""))).isSome
  entries : ∀ y ∈ PlaybookService.stepEntries raw, TypedEntry P y

def Typed (text : String) : Prop :=
  ∀ raw, P.safeLoad text = .ok (.map raw) → TypedDocument P raw

def nodeIdOf (step : PlaybookStep) : String :=
  match step.type with
  | .action => if step.toolName = "" then "action.unresolved" else step.toolName
  | .decision => "decision.branch"
  | .parallelFork => "decision.parallel"
  | .hitlGate => "decision.hitl_gate"
  | .join => "compiler.join"
  | .end => "compiler.end"

-- A workflow with the steps of the definition, the nodes for their kinds, and their successors.
structure Agrees (definition : PlaybookDefinition) (wf : Workflow) : Prop where
  name : wf.name = definition.name
  nodes : wf.nodes.map (fun node => (node.stepId, node.nodeId, node.name)) =
    definition.steps.map fun step => (step.id, nodeIdOf step, step.name)
  edges : ∀ e, e ∈ wf.edges ↔
    Authored (definition.steps.map PlaybookStep.links) e.source e.target e.label

section Documents
variable {P} {raw : List (Yaml × Yaml)} {definition : PlaybookDefinition}

structure Shape (raw : List (Yaml × Yaml)) (name type : Yaml) (trigger : List (Yaml × Yaml))
    (entries : List Yaml) : Prop where
  name : Yaml.lookup "name" raw = some name
  type : Yaml.lookup "type" trigger = some type
  trigger : Yaml.lookup "trigger" raw = some (.map trigger)
  steps : Yaml.lookup "steps" raw = some (.seq entries)

structure Caps (raw trigger : List (Yaml × Yaml)) (entries : List Yaml) : Prop where
  keys : Yaml.unknownKeys allowedTopLevelKeys raw = []
  few : entries.length ≤ maxSteps
  triggerKeys : Yaml.unknownKeys allowedTriggerKeys trigger = []

-- What `PlaybookDefinition` is built from.
structure Defines (P : Deps) (raw : List (Yaml × Yaml)) (name type : Yaml)
    (trigger : List (Yaml × Yaml)) (definition : PlaybookDefinition) : Prop where
  trigger : triggerCondition type ((Yaml.lookup "parameters" trigger).getD (.map [])) =
    .ok definition.trigger
  name : P.laxStr name = some definition.name
  version : strField P raw "version" "1.0" = .ok definition.version
  description : strField P raw "description" "" = .ok definition.description

theorem Shape.stepEntries_eq {name type : Yaml} {trigger : List (Yaml × Yaml)}
    {entries : List Yaml} (h : Shape raw name type trigger entries) :
    PlaybookService.stepEntries raw = entries := by
  rw [PlaybookService.stepEntries, h.steps]

theorem stepList_ok {o : Option Yaml} {xs : List Yaml} :
    stepList o = .ok xs ↔ o = some (.seq xs) := by
  cases o with
  | none => simp [stepList]
  | some y => cases y <;> simp [stepList]

theorem triggerMap_ok {y : Yaml} {kvs : List (Yaml × Yaml)} :
    triggerMap y = .ok kvs ↔ y = .map kvs := by
  cases y <;> simp [triggerMap]

theorem agents_ok : AgentsCompiler.compileRaw P (.map raw) = .ok definition ↔
    ∃ name type trigger entries, Shape raw name type trigger entries ∧ Caps raw trigger entries ∧
      Defines P raw name type trigger definition ∧
        AgentsCompiler.parseSteps P [] entries = .ok definition.steps ∧
          AgentsCompiler.validateDag definition.steps = [] := by
  simp only [AgentsCompiler.compileRaw, Except.bind_ok_iff, require_ok, List.isEmpty_iff,
    orRaise_ok, stepList_ok, triggerMap_ok, decide_eq_true_iff]
  constructor
  · rintro ⟨-, hkeys, name, hname, _, htrigger, entries, hsteps, -, hfew, trigger, rfl, -,
      htriggerKeys, type, htype, condition, hcondition, steps, hparsed, -, hcycle, text, htext,
      version, hversion, description, hdescription, heq⟩
    cases heq
    exact ⟨name, type, trigger, entries, ⟨hname, htype, htrigger, hsteps⟩,
      ⟨hkeys, hfew, htriggerKeys⟩, ⟨hcondition, htext, hversion, hdescription⟩, hparsed, hcycle⟩
  · rintro ⟨name, type, trigger, entries, hshape, hcaps, hdefines, hparsed, hcycle⟩
    exact ⟨(), hcaps.keys, name, hshape.name, _, hshape.trigger, entries, hshape.steps, (),
      hcaps.few, trigger, rfl, (), hcaps.triggerKeys, type, hshape.type, _, hdefines.trigger, _,
      hparsed, (), hcycle, _, hdefines.name, _, hdefines.version, _, hdefines.description, rfl⟩

theorem engine_ok {name : String} {compiled : List CompiledStep} :
    compileSteps P (.map raw) = .ok (name, compiled) ↔
      ∃ nameRaw type trigger entries, Shape raw nameRaw type trigger entries ∧
        Caps raw trigger entries ∧ Compiler.parseSteps P [] entries = .ok compiled ∧
          detectCycles (buildWorkflow "" compiled).nodes (buildWorkflow "" compiled).edges = [] ∧
            (Yaml.dictPairs ((Yaml.lookup "parameters" trigger).getD (.map []))).isSome ∧
              P.laxStr nameRaw = some name := by
  simp only [compileSteps, Except.bind_ok_iff, require_ok, List.isEmpty_iff, orRaise_ok,
    stepList_ok, triggerMap_ok, decide_eq_true_iff]
  constructor
  · rintro ⟨-, hkeys, nameRaw, hname, _, htrigger, entries, hsteps, -, hfew, trigger, rfl, -,
      htriggerKeys, -, htype, steps, hparsed, -, hcycle, pairs, hpairs, text, htext, heq⟩
    cases heq
    obtain ⟨type, htype⟩ := Option.isSome_iff_exists.mp htype
    exact ⟨nameRaw, type, trigger, entries, ⟨hname, htype, htrigger, hsteps⟩,
      ⟨hkeys, hfew, htriggerKeys⟩, hparsed, hcycle, Option.isSome_iff_exists.mpr ⟨pairs, hpairs⟩,
      htext⟩
  · rintro ⟨nameRaw, type, trigger, entries, hshape, hcaps, hparsed, hcycle, hpairs, htext⟩
    obtain ⟨pairs, hpairs⟩ := Option.isSome_iff_exists.mp hpairs
    exact ⟨(), hcaps.keys, nameRaw, hshape.name, _, hshape.trigger, entries, hshape.steps, (),
      hcaps.few, trigger, rfl, (), hcaps.triggerKeys, (), Option.isSome_iff_exists.mpr
      ⟨type, hshape.type⟩, compiled, hparsed, (), hcycle, pairs, hpairs, name, htext, rfl⟩

-- The backend parses the steps twice: once to validate them, and once to define the playbook.
structure Validated (P : Deps) (entries : List Yaml) (steps : List PlaybookStep) : Prop where
  valid : ∃ parsed, PlaybookService.addSteps P ⟨[], [], []⟩ 0 entries = .ok parsed ∧
    parsed.errors = [] ∧
      parsed.steps.flatMap (PlaybookService.referenceErrors parsed.ids) = [] ∧
        PlaybookService.cycleErrors parsed.steps = []
  steps : entries.mapM (PlaybookService.parseEntry P) = .ok steps

theorem triggerErrors_nil {type : Yaml} {trigger : List (Yaml × Yaml)}
    {parameters : Yaml} {condition : TriggerCondition}
    (htype : Yaml.lookup "type" trigger = some type)
    (h : triggerCondition type parameters = .ok condition) :
    PlaybookService.triggerErrors (.map trigger) = .ok [] := by
  cases type with
  | str s =>
      simp only [triggerCondition, Except.bind_ok_iff, orRaise_ok] at h
      obtain ⟨known, hknown, -⟩ := h
      simp [PlaybookService.triggerErrors, htype, PlaybookService.typeErrors, hknown]
  | _ => cases h

theorem fieldErrors_nil : PlaybookService.fieldErrors raw = [] ↔
    ∃ name trigger entries, Yaml.lookup "name" raw = some name ∧
      Yaml.lookup "trigger" raw = some trigger ∧
        Yaml.lookup "steps" raw = some (.seq entries) := by
  simp only [PlaybookService.fieldErrors, List.append_eq_nil_iff]
  constructor
  · rintro ⟨⟨hname, hsteps⟩, htrigger⟩
    have hname : (Yaml.lookup "name" raw).isNone = false := by
      by_contra hnone
      rw [if_pos (Bool.not_eq_false _ ▸ hnone)] at hname
      cases hname
    have htrigger : (Yaml.lookup "trigger" raw).isNone = false := by
      by_contra hnone
      rw [if_pos (Bool.not_eq_false _ ▸ hnone)] at htrigger
      cases htrigger
    obtain ⟨name, hname⟩ := Option.isSome_iff_exists.mp (Option.isNone_eq_false_iff.mp hname)
    obtain ⟨trigger, htrigger⟩ :=
      Option.isSome_iff_exists.mp (Option.isNone_eq_false_iff.mp htrigger)
    split at hsteps
    · next entries hentries => exact ⟨name, trigger, entries, hname, htrigger, hentries⟩
    · cases hsteps
  · rintro ⟨name, trigger, entries, hname, htrigger, hentries⟩
    simp [hname, htrigger, hentries]

def backendCompile (P : Deps) (raw : Yaml) (definition : PlaybookDefinition) : Prop :=
  ∃ result, PlaybookService.validateRaw P raw = .ok result ∧ result.errors = [] ∧
    PlaybookService.define P raw = .ok definition

theorem backend_ok : backendCompile P (.map raw) definition ↔
    ∃ name type trigger entries, Shape raw name type trigger entries ∧
      Defines P raw name type trigger definition ∧ Validated P entries definition.steps := by
  constructor
  · rintro ⟨result, hvalid, hnone, hdefine⟩
    simp only [PlaybookService.validateRaw] at hvalid
    split at hvalid
    · next hfields =>
        cases hvalid
        exact absurd hnone hfields
    · next hfields =>
        obtain ⟨name, triggerRaw, entries, hname, htrigger, hsteps⟩ :=
          fieldErrors_nil.mp (not_not.mp hfields)
        simp only [Except.bind_ok_iff, htrigger, Option.getD_some] at hvalid
        obtain ⟨triggerErrors, -, parsed, hparsed, heq⟩ := hvalid
        cases heq
        simp only [List.append_eq_nil_iff] at hnone
        obtain ⟨⟨⟨-, herrors⟩, hreferences⟩, hcycle⟩ := hnone
        have hentries : PlaybookService.stepEntries raw = entries := by
          rw [PlaybookService.stepEntries, hsteps]
        rw [hentries] at hparsed
        simp only [PlaybookService.define, Except.bind_ok_iff, orRaise_ok, htrigger, hname,
          Option.getD_some, hentries] at hdefine
        obtain ⟨condition, hcondition, steps, hmap, text, htext, version, hversion, description,
          hdescription, heq⟩ := hdefine
        cases heq
        cases triggerRaw with
        | map trigger =>
            simp only [PlaybookService.triggerOf] at hcondition
            cases htype : Yaml.lookup "type" trigger with
            | none =>
                rw [htype] at hcondition
                cases hcondition
            | some type =>
                rw [htype] at hcondition
                exact ⟨name, type, trigger, entries, ⟨hname, htype, htrigger, hsteps⟩,
                  ⟨hcondition, htext, hversion, hdescription⟩,
                  ⟨parsed, hparsed, herrors, hreferences, hcycle⟩, hmap⟩
        | _ => cases hcondition
  · rintro ⟨name, type, trigger, entries, hshape, hdefines,
      ⟨parsed, hparsed, herrors, hreferences, hcycle⟩, hmap⟩
    have hfields := fieldErrors_nil.mpr ⟨name, _, entries, hshape.name, hshape.trigger, hshape.steps⟩
    refine ⟨⟨[], parsed.steps.flatMap PlaybookService.toolWarnings ++
      if parsed.steps.any fun s => s.type = .end then [] else [.noEndStep],
      parsed.steps.length⟩, ?_, rfl, ?_⟩
    · simp only [PlaybookService.validateRaw, hfields, ne_eq, not_true_eq_false, if_false,
        Except.bind_ok_iff, hshape.trigger, Option.getD_some, hshape.stepEntries_eq]
      refine ⟨[], triggerErrors_nil hshape.type hdefines.trigger, parsed, hparsed, ?_⟩
      rw [herrors, hreferences, hcycle]
      rfl
    · simp only [PlaybookService.define, Except.bind_ok_iff, orRaise_ok, hshape.trigger,
        hshape.name, Option.getD_some, hshape.stepEntries_eq, PlaybookService.triggerOf,
        hshape.type]
      exact ⟨_, hdefines.trigger, _, hmap, _, hdefines.name, _, hdefines.version, _,
        hdefines.description, rfl⟩

-- The ids of the steps that were accepted, and the graph that was found to have no cycle.
structure WellFormed (steps : List PlaybookStep) : Prop where
  nodup : (steps.map (·.id)).Nodup
  nonempty : "" ∉ steps.map (·.id)
  branches : ∀ step ∈ steps, "" ∉ step.branches.flatten

theorem wellFormed_of_parse {entries : List Yaml} {steps : List PlaybookStep}
    (h : AgentsCompiler.parseSteps P [] entries = .ok steps) : WellFormed steps := by
  obtain ⟨-, hnodup, hids, hbranches⟩ := agents_parseSteps_strict h
  exact ⟨hnodup, fun hmem => (hids _ hmem).2 rfl, hbranches⟩

theorem WellFormed.validateDag_nil {steps : List PlaybookStep} (h : WellFormed steps) :
    AgentsCompiler.validateDag steps = [] ↔
      NoCycle (Refers (steps.map PlaybookStep.links)) :=
  cycleNodes_sortGraph h.nodup fun _ _ => agents_successors h.nonempty

theorem WellFormed.cycleErrors_nil {steps : List PlaybookStep} (h : WellFormed steps) :
    PlaybookService.cycleErrors steps = [] ↔
      NoCycle (Refers (steps.map PlaybookStep.links)) := by
  have hdetect : PlaybookService.detectCycles steps = [] ↔
      NoCycle (Refers (steps.map PlaybookStep.links)) := by
    rw [PlaybookService.detectCycles, List.Nodup.dedup h.nodup]
    exact cycleNodes_sortGraph h.nodup fun _ _ => backend_successors h.nonempty
  rw [← hdetect, PlaybookService.cycleErrors]
  split
  · next hnil => simp [hnil]
  · next hne => simpa using hne

theorem WellFormed.references_nil {steps : List PlaybookStep} (h : WellFormed steps) :
    steps.flatMap (PlaybookService.referenceErrors ((steps.map (·.id)).map .str)) = [] ↔
      Resolved (steps.map PlaybookStep.links) := by
  rw [List.flatMap_eq_nil_iff, Resolved, ids_links, List.forall_mem_map]
  constructor
  · exact fun hnil step hstep => (referenceErrors_nil (h.branches step hstep)).mp (hnil step hstep)
  · exact fun hresolved step hstep =>
      (referenceErrors_nil (h.branches step hstep)).mpr (hresolved step hstep)

theorem backend_parses {entries : List Yaml} {steps : List PlaybookStep}
    (h : AgentsCompiler.parseSteps P [] entries = .ok steps) :
    entries.mapM (PlaybookService.parseEntry P) = .ok steps ∧
      PlaybookService.addSteps P ⟨[], [], []⟩ 0 entries =
        .ok ⟨(steps.map PlaybookStep.id).map .str, steps, []⟩ := by
  have hboth : entries.mapM (PlaybookService.parseEntry P) = .ok steps ∧
      PlaybookService.addSteps P ⟨([] : List StepId).map .str, [], []⟩ 0 entries =
        .ok ⟨([] ++ steps.map PlaybookStep.id).map .str, [] ++ steps, []⟩ :=
    backend_of_agents_steps h fun _ hid => hid
  exact hboth

theorem validated_iff {entries : List Yaml} {steps : List PlaybookStep}
    (hstrict : ∀ y ∈ entries, StrictEntry y) : Validated P entries steps ↔
      AgentsCompiler.parseSteps P [] entries = .ok steps ∧
        AgentsCompiler.validateDag steps = [] ∧ Resolved (steps.map PlaybookStep.links) := by
  constructor
  · rintro ⟨⟨parsed, hparsed, herrors, hreferences, hcycle⟩, hmap⟩
    have hstart : PlaybookService.addSteps P ⟨([] : List StepId).map .str, [], []⟩ 0 entries =
        .ok parsed := hparsed
    obtain ⟨steps', hparse⟩ : ∃ steps', AgentsCompiler.parseSteps P [] entries = .ok steps' :=
      agents_of_backend_steps hstrict hstart herrors fun _ hid => hid
    obtain ⟨hmap', hadd⟩ := backend_parses hparse
    rw [hmap] at hmap'
    cases hmap'
    rw [hadd] at hparsed
    cases hparsed
    have hwell := wellFormed_of_parse hparse
    exact ⟨hparse, hwell.validateDag_nil.mpr (hwell.cycleErrors_nil.mp hcycle),
      hwell.references_nil.mp hreferences⟩
  · rintro ⟨hparse, hdag, hresolved⟩
    have hwell := wellFormed_of_parse hparse
    obtain ⟨hmap, hadd⟩ := backend_parses hparse
    exact ⟨⟨_, hadd, rfl, hwell.references_nil.mpr hresolved,
      hwell.cycleErrors_nil.mpr (hwell.validateDag_nil.mp hdag)⟩, hmap⟩

theorem Caps.strict {name type : Yaml} {trigger : List (Yaml × Yaml)} {entries : List Yaml}
    (hcaps : Caps raw trigger entries) (hshape : Shape raw name type trigger entries)
    (hentries : ∀ y ∈ entries, StrictEntry y) : StrictDocument raw where
  keys := hcaps.keys
  few := by
    rw [hshape.stepEntries_eq]
    exact hcaps.few
  triggerKeys := by
    intro other hother
    rw [hshape.trigger] at hother
    cases hother
    exact hcaps.triggerKeys
  entries := by
    rw [hshape.stepEntries_eq]
    exact hentries

theorem agents_strict (h : AgentsCompiler.compileRaw P (.map raw) = .ok definition) :
    StrictDocument raw := by
  obtain ⟨name, type, trigger, entries, hshape, hcaps, -, hparse, -⟩ := agents_ok.mp h
  exact hcaps.strict hshape fun y hy => ((agents_parseSteps_strict hparse).1 y hy).1

theorem engine_strict {name : String} {compiled : List CompiledStep}
    (h : compileSteps P (.map raw) = .ok (name, compiled)) : StrictDocument raw := by
  obtain ⟨nameRaw, type, trigger, entries, hshape, hcaps, hparse, -⟩ := engine_ok.mp h
  exact hcaps.strict hshape (engine_parseSteps_strict hparse).1

theorem backend_iff (h : StrictDocument raw) : backendCompile P (.map raw) definition ↔
    AgentsCompiler.compileRaw P (.map raw) = .ok definition ∧
      Resolved (definition.steps.map PlaybookStep.links) := by
  rw [backend_ok, agents_ok]
  constructor
  · rintro ⟨name, type, trigger, entries, hshape, hdefines, hvalidated⟩
    have hentries : ∀ y ∈ entries, StrictEntry y := by
      rw [← hshape.stepEntries_eq]
      exact h.entries
    obtain ⟨hparse, hdag, hresolved⟩ := (validated_iff hentries).mp hvalidated
    have hfew := h.few
    rw [hshape.stepEntries_eq] at hfew
    exact ⟨⟨name, type, trigger, entries, hshape,
      ⟨h.keys, hfew, h.triggerKeys trigger hshape.trigger⟩, hdefines, hparse, hdag⟩, hresolved⟩
  · rintro ⟨⟨name, type, trigger, entries, hshape, -, hdefines, hparse, hdag⟩, hresolved⟩
    have hentries : ∀ y ∈ entries, StrictEntry y := by
      rw [← hshape.stepEntries_eq]
      exact h.entries
    exact ⟨name, type, trigger, entries, hshape, hdefines,
      (validated_iff hentries).mpr ⟨hparse, hdag, hresolved⟩⟩

section Compiled
variable {steps : List PlaybookStep} {compiled : List CompiledStep}

theorem same_links (h : List.Forall₂ SameStep steps compiled) :
    compiled.map CompiledStep.links = steps.map PlaybookStep.links := by
  induction h with
  | nil => rfl
  | cons hsame _ ih => rw [List.map_cons, List.map_cons, hsame.links, ih]

theorem same_ids (h : List.Forall₂ SameStep steps compiled) :
    compiled.map (·.id) = steps.map (·.id) := by
  have hids := congrArg ids (same_links h)
  rwa [ids_compiled, ids_links] at hids

theorem SameStep.nodeId {step : PlaybookStep} {c : CompiledStep} (h : SameStep step c) :
    resolveNodeId c = nodeIdOf step := by
  have htype : c.type = step.type := congrArg StepLinks.type h.links
  rw [resolveNodeId, nodeIdOf, htype, h.toolName]
  cases step.type <;> rfl

theorem same_nodes (h : List.Forall₂ SameStep steps compiled) :
    (compiled.map buildNode).map (fun node => (node.stepId, node.nodeId, node.name)) =
      steps.map fun step => (step.id, nodeIdOf step, step.name) := by
  induction h with
  | nil => rfl
  | cons hsame _ ih =>
      rw [List.map_cons, List.map_cons, List.map_cons, ih]
      simp only [buildNode, hsame.id, hsame.name, hsame.nodeId]

theorem agrees_of_same {name : String} (h : List.Forall₂ SameStep definition.steps compiled)
    (hwell : WellFormed definition.steps) (hname : name = definition.name) :
    Agrees definition (buildWorkflow name compiled) where
  name := hname
  nodes := same_nodes h
  edges := by
    intro e
    rw [← same_links h]
    apply mem_edges_iff
    rw [same_ids h]
    exact hwell.nonempty

theorem sequenced_iff (h : List.Forall₂ SameStep steps compiled) (hwell : WellFormed steps) :
    detectCycles (buildWorkflow "" compiled).nodes (buildWorkflow "" compiled).edges = [] ↔
      NoCycle (Follows (steps.map PlaybookStep.links)) := by
  have hids := same_ids h
  rw [detectCycles_buildWorkflow, acyclic_iff_follows (by rw [hids]; exact hwell.nonempty), same_links h]

end Compiled

theorem agents_typed (h : AgentsCompiler.compileRaw P (.map raw) = .ok definition) :
    TypedDocument P raw := by
  obtain ⟨name, type, trigger, entries, hshape, -, hdefines, hparse, -⟩ := agents_ok.mp h
  have htrigger : ∀ other, Yaml.lookup "trigger" raw = some (.map other) → other = trigger := by
    intro other hother
    rw [hshape.trigger] at hother
    cases hother
    rfl
  have hcondition := hdefines.trigger
  have hparameters : ∃ s known, type = .str s ∧ TriggerType.ofString? s = some known ∧
      (laxDict ((Yaml.lookup "parameters" trigger).getD (.map []))).isSome := by
    cases type with
    | str s =>
        simp only [triggerCondition, Except.bind_ok_iff, orRaise_ok] at hcondition
        obtain ⟨known, hknown, parameters, hparameters, -⟩ := hcondition
        exact ⟨s, known, rfl, hknown, Option.isSome_iff_exists.mpr ⟨parameters, hparameters⟩⟩
    | _ => cases hcondition
  obtain ⟨s, known, rfl, hknown, hparameters⟩ := hparameters
  constructor
  · intro other hother
    obtain rfl := htrigger other hother
    exact ⟨s, known, hshape.type, hknown⟩
  · intro other hother
    obtain rfl := htrigger other hother
    exact hparameters
  · exact Option.isSome_iff_exists.mpr ⟨_, orRaise_ok.mp hdefines.version⟩
  · exact Option.isSome_iff_exists.mpr ⟨_, orRaise_ok.mp hdefines.description⟩
  · rw [hshape.stepEntries_eq]
    exact fun y hy => ((agents_parseSteps_strict hparse).1 y hy).2

theorem dictPairs_of_laxDict {y : Yaml} (h : (laxDict y).isSome) : (Yaml.dictPairs y).isSome := by
  cases y with
  | map kvs => rfl
  | _ => cases h

theorem Shape.unique {name name' type type' : Yaml} {trigger trigger' : List (Yaml × Yaml)}
    {entries entries' : List Yaml} (h : Shape raw name type trigger entries)
    (h' : Shape raw name' type' trigger' entries') :
    name' = name ∧ type' = type ∧ trigger' = trigger ∧ entries' = entries := by
  have hname := h.name
  have htrigger := h.trigger
  have hsteps := h.steps
  have htype := h.type
  rw [h'.name] at hname
  rw [h'.trigger] at htrigger
  rw [h'.steps] at hsteps
  cases hname
  cases htrigger
  cases hsteps
  rw [h'.type] at htype
  cases htype
  exact ⟨rfl, rfl, rfl, rfl⟩

theorem engine_of_compiled (h : AgentsCompiler.compileRaw P (.map raw) = .ok definition) :
    ∃ compiled, List.Forall₂ SameStep definition.steps compiled ∧
      ∀ name steps, compileSteps P (.map raw) = .ok (name, steps) ↔
        name = definition.name ∧ steps = compiled ∧
          NoCycle (Follows (definition.steps.map PlaybookStep.links)) := by
  have htyped := agents_typed h
  obtain ⟨nameRaw, type, trigger, entries, hshape, hcaps, hdefines, hparse, -⟩ := agents_ok.mp h
  obtain ⟨compiled, hcompiled, hsame⟩ := engine_of_agents_steps hparse
  have hwell := wellFormed_of_parse hparse
  refine ⟨compiled, hsame, ?_⟩
  intro name steps
  rw [engine_ok]
  constructor
  · rintro ⟨nameRaw', type', trigger', entries', hshape', -, hsteps, hcycle, -, hname⟩
    obtain ⟨rfl, rfl, rfl, rfl⟩ := hshape.unique hshape'
    rw [hcompiled] at hsteps
    cases hsteps
    rw [hdefines.name] at hname
    cases hname
    exact ⟨rfl, rfl, (sequenced_iff hsame hwell).mp hcycle⟩
  · rintro ⟨rfl, rfl, hfollows⟩
    exact ⟨nameRaw, type, trigger, entries, hshape, hcaps, hcompiled,
      (sequenced_iff hsame hwell).mpr hfollows,
      dictPairs_of_laxDict (htyped.parameters trigger hshape.trigger), hdefines.name⟩

theorem agents_of_compiled {name : String} {compiled : List CompiledStep}
    (h : compileSteps P (.map raw) = .ok (name, compiled)) :
    (∃ definition, AgentsCompiler.compileRaw P (.map raw) = .ok definition) ↔
      TypedDocument P raw ∧ NoCycle (Refers (compiled.map CompiledStep.links)) := by
  constructor
  · rintro ⟨definition, hagents⟩
    obtain ⟨compiled', hsame, hiff⟩ := engine_of_compiled hagents
    obtain ⟨-, rfl, -⟩ := (hiff name compiled).mp h
    obtain ⟨_, _, _, _, -, -, -, hparse, hdag⟩ := agents_ok.mp hagents
    refine ⟨agents_typed hagents, ?_⟩
    rw [same_links hsame]
    exact (wellFormed_of_parse hparse).validateDag_nil.mp hdag
  · rintro ⟨htyped, hrefers⟩
    obtain ⟨nameRaw, type, trigger, entries, hshape, hcaps, hcompiled, -, -, hname⟩ :=
      engine_ok.mp h
    have hentries := htyped.entries
    rw [hshape.stepEntries_eq] at hentries
    obtain ⟨steps, hparse⟩ := agents_of_engine_steps hcompiled hentries
    obtain ⟨compiled', hcompiled', hsame⟩ := engine_of_agents_steps hparse
    rw [hcompiled] at hcompiled'
    cases hcompiled'
    rw [same_links hsame] at hrefers
    obtain ⟨s, known, htype, hknown⟩ := htyped.triggerType trigger hshape.trigger
    rw [hshape.type] at htype
    cases htype
    obtain ⟨parameters, hparameters⟩ :=
      Option.isSome_iff_exists.mp (htyped.parameters trigger hshape.trigger)
    obtain ⟨version, hversion⟩ := Option.isSome_iff_exists.mp htyped.version
    obtain ⟨description, hdescription⟩ := Option.isSome_iff_exists.mp htyped.description
    have hcondition : triggerCondition (.str s)
        ((Yaml.lookup "parameters" trigger).getD (.map [])) = .ok ⟨known, parameters⟩ := by
      simp only [triggerCondition, Except.bind_ok_iff, orRaise_ok]
      exact ⟨known, hknown, parameters, hparameters, rfl⟩
    exact ⟨⟨name, version, description, ⟨known, parameters⟩, steps⟩, agents_ok.mpr
      ⟨nameRaw, .str s, trigger, entries, hshape, hcaps,
        ⟨hcondition, hname, orRaise_ok.mpr hversion, orRaise_ok.mpr hdescription⟩, hparse,
        (wellFormed_of_parse hparse).validateDag_nil.mpr hrefers⟩⟩

theorem engine_noCycle {name : String} {compiled : List CompiledStep}
    (h : compileSteps P (.map raw) = .ok (name, compiled))
    (hresolved : Resolved (compiled.map CompiledStep.links)) :
    NoCycle (Refers (compiled.map CompiledStep.links)) := by
  obtain ⟨nameRaw, type, trigger, entries, hshape, hcaps, hcompiled, hcycle, -, hname⟩ :=
    engine_ok.mp h
  obtain ⟨-, hids, hbranches⟩ := engine_parseSteps_strict hcompiled
  apply noCycle_refers hresolved
  · rw [List.forall_mem_map]
    exact hbranches
  · rw [← acyclic_iff_follows fun hmem => hids _ hmem rfl]
    exact detectCycles_buildWorkflow.mp hcycle

end Documents

end Playbook

end BTagent
