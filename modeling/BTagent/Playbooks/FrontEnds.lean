import BTagent.Playbooks.Documents

namespace BTagent

namespace Playbook

open Compiler StepLinks

variable (P : Deps)

section Texts
variable {P} {text : String} {definition : PlaybookDefinition}

theorem parseYaml_ok {raw : Yaml} : parseYaml P text = .ok raw ↔
    text.utf8ByteSize ≤ maxPlaybookBytes ∧ P.safeLoad text = .ok raw := by
  rw [parseYaml]
  split
  · next hlarge =>
      simp only [reduceCtorEq, false_iff, not_and]
      intro hsmall
      omega
  · next hsmall =>
      have hle := Nat.le_of_not_lt hsmall
      cases P.safeLoad text <;> simp [hle]

theorem agents_text : AgentsCompiler.compile P text = .ok definition ↔
    text.utf8ByteSize ≤ maxPlaybookBytes ∧ ∃ raw, P.safeLoad text = .ok (.map raw) ∧
      AgentsCompiler.compileRaw P (.map raw) = .ok definition := by
  simp only [AgentsCompiler.compile, Except.bind_ok_iff, parseYaml_ok]
  constructor
  · rintro ⟨raw, ⟨hsize, hload⟩, hcompile⟩
    cases raw with
    | map raw => exact ⟨hsize, raw, hload, hcompile⟩
    | _ => cases hcompile
  · rintro ⟨hsize, raw, hload, hcompile⟩
    exact ⟨_, ⟨hsize, hload⟩, hcompile⟩

theorem engine_text {wf : Workflow} : compilePlaybook P text = .ok wf ↔
    text.utf8ByteSize ≤ maxPlaybookBytes ∧ ∃ raw name steps, P.safeLoad text = .ok (.map raw) ∧
      compileSteps P (.map raw) = .ok (name, steps) ∧ wf = buildWorkflow name steps := by
  simp only [compilePlaybook, Except.bind_ok_iff, parseYaml_ok]
  constructor
  · rintro ⟨raw, ⟨hsize, hload⟩, ⟨name, steps⟩, hcompile, heq⟩
    cases heq
    cases raw with
    | map raw => exact ⟨hsize, raw, name, steps, hload, hcompile, rfl⟩
    | _ => cases hcompile
  · rintro ⟨hsize, raw, name, steps, hload, hcompile, rfl⟩
    exact ⟨_, ⟨hsize, hload⟩, (name, steps), hcompile, rfl⟩

theorem backend_text : PlaybookService.compilePlaybook P text = .ok definition ↔
    ∃ raw, P.safeLoad text = .ok (.map raw) ∧ backendCompile P (.map raw) definition := by
  constructor
  · intro h
    simp only [PlaybookService.compilePlaybook, PlaybookService.validatePlaybook] at h
    cases hload : P.safeLoad text with
    | error what =>
        rw [hload] at h
        cases h
    | ok raw =>
        rw [hload] at h
        dsimp only at h
        cases hvalid : PlaybookService.validateRaw P raw with
        | error why =>
            rw [hvalid] at h
            cases h
        | ok result =>
            rw [hvalid] at h
            dsimp only at h
            split at h
            · cases h
            · next hclean =>
                have hnone : result.errors = [] := by
                  simpa [ValidationResult.valid] using hclean
                cases hdefine : PlaybookService.define P raw with
                | error why =>
                    rw [hdefine] at h
                    cases h
                | ok other =>
                    rw [hdefine] at h
                    cases h
                    cases raw with
                    | map raw => exact ⟨raw, rfl, result, hvalid, hnone, hdefine⟩
                    | _ => cases hdefine
  · rintro ⟨raw, hload, result, hvalid, hnone, hdefine⟩
    have hclean : ¬ ¬ result.valid = true := by simp [ValidationResult.valid, hnone]
    simp only [PlaybookService.compilePlaybook, PlaybookService.validatePlaybook, hload, hvalid,
      if_neg hclean, hdefine]

end Texts

variable (text : String)

-- When two of the front ends accept a document they agree on it; and when one of them does, this
-- is what the others ask for besides.
structure FrontEnds : Prop where
  agentsBackend : ∀ d, AgentsCompiler.compile P text = .ok d → ∀ d',
    PlaybookService.compilePlaybook P text = .ok d' ↔
      d' = d ∧ Resolved (d.steps.map PlaybookStep.links)
  backendAgents : ∀ d, PlaybookService.compilePlaybook P text = .ok d → ∀ d',
    AgentsCompiler.compile P text = .ok d' ↔ d' = d ∧ Strict P text
  agentsEngine : ∀ d, AgentsCompiler.compile P text = .ok d →
    ((∃ wf, compilePlaybook P text = .ok wf) ↔
      NoCycle (Follows (d.steps.map PlaybookStep.links))) ∧
    ∀ wf, compilePlaybook P text = .ok wf → Agrees d wf
  backendEngine : ∀ d, PlaybookService.compilePlaybook P text = .ok d →
    ((∃ wf, compilePlaybook P text = .ok wf) ↔
      Strict P text ∧ NoCycle (Follows (d.steps.map PlaybookStep.links))) ∧
    ∀ wf, compilePlaybook P text = .ok wf → Agrees d wf
  engineAgents : ∀ raw name steps, parseYaml P text = .ok raw →
    compileSteps P raw = .ok (name, steps) →
      ((∃ d, AgentsCompiler.compile P text = .ok d) ↔
        Typed P text ∧ NoCycle (Refers (steps.map CompiledStep.links)))
  engineBackend : ∀ raw name steps, parseYaml P text = .ok raw →
    compileSteps P raw = .ok (name, steps) →
      ((∃ d, PlaybookService.compilePlaybook P text = .ok d) ↔
        Typed P text ∧ Resolved (steps.map CompiledStep.links))

section Agreement
variable {P} {text} {definition : PlaybookDefinition}

theorem strict_of_raw {raw : List (Yaml × Yaml)} (hsize : text.utf8ByteSize ≤ maxPlaybookBytes)
    (hload : P.safeLoad text = .ok (.map raw)) (h : StrictDocument raw) : Strict P text := by
  refine ⟨hsize, ?_⟩
  intro other hother
  rw [hload] at hother
  cases hother
  exact h

theorem typed_iff_raw {raw : List (Yaml × Yaml)} (hload : P.safeLoad text = .ok (.map raw)) :
    Typed P text ↔ TypedDocument P raw := by
  constructor
  · exact fun h => h raw hload
  · intro h other hother
    rw [hload] at hother
    cases hother
    exact h

theorem agents_strict_text (h : AgentsCompiler.compile P text = .ok definition) :
    Strict P text := by
  obtain ⟨hsize, raw, hload, hcompile⟩ := agents_text.mp h
  exact strict_of_raw hsize hload (agents_strict hcompile)

theorem backend_iff_text (h : Strict P text) :
    PlaybookService.compilePlaybook P text = .ok definition ↔
      AgentsCompiler.compile P text = .ok definition ∧
        Resolved (definition.steps.map PlaybookStep.links) := by
  rw [backend_text, agents_text]
  constructor
  · rintro ⟨raw, hload, hbackend⟩
    obtain ⟨hcompile, hresolved⟩ := (backend_iff (h.2 raw hload)).mp hbackend
    exact ⟨⟨h.1, raw, hload, hcompile⟩, hresolved⟩
  · rintro ⟨⟨-, raw, hload, hcompile⟩, hresolved⟩
    exact ⟨raw, hload, (backend_iff (h.2 raw hload)).mpr ⟨hcompile, hresolved⟩⟩

theorem engine_strict_text {wf : Workflow} (h : compilePlaybook P text = .ok wf) :
    Strict P text := by
  obtain ⟨hsize, raw, name, steps, hload, hcompile, -⟩ := engine_text.mp h
  exact strict_of_raw hsize hload (engine_strict hcompile)

theorem engine_accepts_iff (h : AgentsCompiler.compile P text = .ok definition) :
    (∃ wf, compilePlaybook P text = .ok wf) ↔
      NoCycle (Follows (definition.steps.map PlaybookStep.links)) := by
  obtain ⟨hsize, raw, hload, hcompile⟩ := agents_text.mp h
  obtain ⟨compiled, -, hiff⟩ := engine_of_compiled hcompile
  constructor
  · rintro ⟨wf, hwf⟩
    obtain ⟨-, raw', name, steps, hload', hsteps, -⟩ := engine_text.mp hwf
    rw [hload] at hload'
    cases hload'
    exact ((hiff name steps).mp hsteps).2.2
  · intro hfollows
    exact ⟨_, engine_text.mpr ⟨hsize, raw, definition.name, compiled, hload,
      (hiff _ _).mpr ⟨rfl, rfl, hfollows⟩, rfl⟩⟩

theorem engine_agrees (h : AgentsCompiler.compile P text = .ok definition) {wf : Workflow}
    (hwf : compilePlaybook P text = .ok wf) : Agrees definition wf := by
  obtain ⟨-, raw, hload, hcompile⟩ := agents_text.mp h
  obtain ⟨-, raw', name, steps, hload', hsteps, rfl⟩ := engine_text.mp hwf
  rw [hload] at hload'
  cases hload'
  obtain ⟨compiled, hsame, hiff⟩ := engine_of_compiled hcompile
  obtain ⟨hname, rfl, -⟩ := (hiff name steps).mp hsteps
  obtain ⟨_, _, _, _, -, -, -, hparse, -⟩ := agents_ok.mp hcompile
  exact agrees_of_same hsame (wellFormed_of_parse hparse) hname

theorem agents_accepts_iff {raw : Yaml} {name : String} {steps : List CompiledStep}
    (hraw : parseYaml P text = .ok raw) (h : compileSteps P raw = .ok (name, steps)) :
    (∃ d, AgentsCompiler.compile P text = .ok d) ↔
      Typed P text ∧ NoCycle (Refers (steps.map CompiledStep.links)) := by
  obtain ⟨hsize, hload⟩ := parseYaml_ok.mp hraw
  cases raw with
  | map raw =>
      rw [typed_iff_raw hload, ← agents_of_compiled h]
      constructor
      · rintro ⟨d, hd⟩
        obtain ⟨-, raw', hload', hcompile⟩ := agents_text.mp hd
        rw [hload] at hload'
        cases hload'
        exact ⟨d, hcompile⟩
      · rintro ⟨d, hcompile⟩
        exact ⟨d, agents_text.mpr ⟨hsize, raw, hload, hcompile⟩⟩
  | _ => cases h

theorem backend_accepts_iff {raw : Yaml} {name : String} {steps : List CompiledStep}
    (hraw : parseYaml P text = .ok raw) (h : compileSteps P raw = .ok (name, steps)) :
    (∃ d, PlaybookService.compilePlaybook P text = .ok d) ↔
      Typed P text ∧ Resolved (steps.map CompiledStep.links) := by
  obtain ⟨hsize, hload⟩ := parseYaml_ok.mp hraw
  cases raw with
  | map raw =>
      have hstrict := strict_of_raw hsize hload (engine_strict h)
      have hlinks : ∀ {d}, AgentsCompiler.compile P text = .ok d →
          steps.map CompiledStep.links = d.steps.map PlaybookStep.links := by
        intro d hd
        obtain ⟨-, raw', hload', hcompile⟩ := agents_text.mp hd
        rw [hload] at hload'
        cases hload'
        obtain ⟨compiled, hsame, hiff⟩ := engine_of_compiled hcompile
        obtain ⟨-, rfl, -⟩ := (hiff name steps).mp h
        exact same_links hsame
      constructor
      · rintro ⟨d, hd⟩
        obtain ⟨hagents, hresolved⟩ := (backend_iff_text hstrict).mp hd
        rw [hlinks hagents]
        exact ⟨((agents_accepts_iff hraw h).mp ⟨d, hagents⟩).1, hresolved⟩
      · rintro ⟨htyped, hresolved⟩
        obtain ⟨d, hagents⟩ := (agents_accepts_iff hraw h).mpr
          ⟨htyped, engine_noCycle h hresolved⟩
        rw [hlinks hagents] at hresolved
        exact ⟨d, (backend_iff_text hstrict).mpr ⟨hagents, hresolved⟩⟩
  | _ => cases h

end Agreement

namespace Probe

def yaml (next : String) : String :=
  "name: probe\ntrigger: \x7btype: manual\x7d\nsteps:\n" ++
    "- \x7bid: a, tool_name: probe, next_step: " ++ next ++ "\x7d\n" ++
    "- \x7bid: b, type: end\x7d\n"

def field (key value : String) : Yaml × Yaml := (.str key, .str value)

def document (next : StepId) : Yaml := .map [
  field "name" "probe",
  (.str "trigger", .map [field "type" "manual"]),
  (.str "steps", .seq [
    .map [field "id" "a", field "tool_name" "probe", field "next_step" next],
    .map [field "id" "b", field "type" "end"]])]

def deps : Deps :=
  .loading fun source =>
    if source = yaml "b" then .ok (document "b")
    else if source = yaml "c" then .ok (document "c")
    else .error "not loaded"

end Probe

theorem exists_of_isOk {ε α : Type} {x : Except ε α} (h : x.isOk = true) : ∃ a, x = .ok a := by
  cases x with
  | error e => cases h
  | ok a => exact ⟨a, rfl⟩

end Playbook

namespace StepLinks

def Direct (steps : List StepLinks) (step : StepLinks) (t : StepId) : Prop :=
  step.nextStep = some t ∨ (∃ rest, t :: rest ∈ step.branches) ∨
    ∃ fork ∈ steps, fork.type = .parallelFork ∧
      ∃ before after, before ++ step.id :: t :: after ∈ fork.branches

def Kept (steps : List StepLinks) (edge : StepId → StepId → Prop) : Prop :=
  ∀ step ∈ steps, ∀ t, step.Names t → t ≠ "" → t ∈ ids steps ∧ edge step.id t

variable {steps : List StepLinks} {s t : StepId}

theorem follows_of_direct {step : StepLinks} (hstep : step ∈ steps)
    (htype : step.type = .parallelFork) (ht : t ∈ ids steps) (h : Direct steps step t) :
    Follows steps step.id t := by
  rcases h with hnext | ⟨rest, hbranch⟩ | ⟨fork, hfork, hforkType, before, after, hbranch⟩
  · exact ⟨_, .join hstep htype hnext ht⟩
  · obtain ⟨i, hi⟩ := List.getElem?_of_mem hbranch
    exact ⟨_, .branch hstep htype hi ht⟩
  · exact ⟨_, .chain hfork hforkType hbranch rfl (List.mem_map_of_mem hstep) ht⟩

theorem direct_of_follows (hn : (ids steps).Nodup) {step : StepLinks} (hstep : step ∈ steps)
    (htype : step.type = .parallelFork) (h : Follows steps step.id t) : Direct steps step t := by
  have hsame : ∀ {other : StepLinks}, other ∈ steps → other.id = step.id → other = step :=
    fun hother hid => List.inj_on_of_nodup_map hn hother hstep hid
  obtain ⟨label, h⟩ := h
  generalize hid : step.id = id at h
  cases h with
  | next hother hne hnext =>
      obtain rfl := hsame hother hid.symm
      exact absurd htype hne
  | join hother _ hnext =>
      obtain rfl := hsame hother hid.symm
      exact Or.inl hnext
  | onTrue hother hdecision | onFalse hother hdecision =>
      obtain rfl := hsame hother hid.symm
      rw [htype] at hdecision
      cases hdecision
  | branch hother _ hbranch =>
      obtain rfl := hsame hother hid.symm
      exact Or.inr (Or.inl ⟨_, List.mem_of_getElem? hbranch⟩)
  | chain hfork hforkType hbranch hpair =>
      subst hid hpair
      exact Or.inr (Or.inr ⟨_, hfork, hforkType, _, _, hbranch⟩)

theorem kept_iff (hn : (ids steps).Nodup) (hrefs : ∀ step ∈ steps, "" ∉ step.branches.flatten) :
    Kept steps (Follows steps) ↔ Resolved steps ∧
      ∀ step ∈ steps, step.type = .parallelFork → ∀ t ∈ step.branches.flatten,
        Direct steps step t := by
  constructor
  · intro h
    refine ⟨fun step hstep t hnames hne => (h step hstep t hnames hne).1, ?_⟩
    intro step hstep htype t ht
    have hne : t ≠ "" := by
      rintro rfl
      exact hrefs step hstep ht
    exact direct_of_follows hn hstep htype (h step hstep t (Or.inr (Or.inr ⟨htype, ht⟩)) hne).2
  · rintro ⟨hresolved, hdirect⟩ step hstep t hnames hne
    have ht : t ∈ ids steps := hresolved step hstep t hnames hne
    refine ⟨ht, ?_⟩
    rcases hnames with hnext | ⟨htype, rfl | rfl⟩ | ⟨htype, hflat⟩
    · by_cases htype : step.type = .parallelFork
      · exact ⟨_, .join hstep htype hnext ht⟩
      · exact ⟨_, .next hstep htype hnext ht⟩
    · exact ⟨_, .onTrue hstep htype ht⟩
    · exact ⟨_, .onFalse hstep htype ht⟩
    · exact follows_of_direct hstep htype ht (hdirect step hstep htype t hflat)

end StepLinks

namespace Playbook
open Compiler StepLinks

variable {P : Deps} {text : String} {raw : Yaml} {name : String} {steps : List CompiledStep}

theorem compiled_facts (h : compileSteps P raw = .ok (name, steps)) :
    (ids (steps.map CompiledStep.links)).Nodup ∧ "" ∉ steps.map (·.id) ∧
      ∀ step ∈ steps.map CompiledStep.links, "" ∉ step.branches.flatten := by
  have haccepted := compileSteps_accepted h
  cases raw with
  | map raw =>
      obtain ⟨_, _, _, entries, -, -, hparsed, -⟩ := engine_ok.mp h
      obtain ⟨-, hids, hbranches⟩ := engine_parseSteps_strict hparsed
      refine ⟨by simpa [ids, CompiledStep.links, Function.comp_def] using haccepted.nodup, ?_, ?_⟩
      · exact fun hmem => hids "" hmem rfl
      · intro step hstep
        obtain ⟨compiled, hcompiled, rfl⟩ := List.mem_map.mp hstep
        exact hbranches compiled hcompiled
  | _ => cases h

theorem authored_edges_iff (hraw : parseYaml P text = .ok raw)
    (hsteps : compileSteps P raw = .ok (name, steps)) :
    compilePlaybook P text = .ok (buildWorkflow name steps) ∧
    (Kept (steps.map CompiledStep.links) (buildWorkflow name steps).Edge ↔
      Resolved (steps.map CompiledStep.links) ∧
        ∀ step ∈ steps, step.type = .parallelFork → ∀ t ∈ step.branches.flatten,
          Direct (steps.map CompiledStep.links) step.links t) ∧
    ∀ fork ∈ steps, fork.type = .parallelFork → ∀ before after s t,
      before ++ s :: t :: after ∈ fork.branches → s ∈ steps.map (·.id) → t ∈ steps.map (·.id) →
        (buildWorkflow name steps).Edge s t := by
  obtain ⟨hn, hempty, hrefs⟩ := compiled_facts hsteps
  have hedge : (buildWorkflow name steps).Edge = Follows (steps.map CompiledStep.links) := by
    funext s t
    exact propext (edge_iff_follows hempty)
  have hids : ids (steps.map CompiledStep.links) = steps.map (·.id) := ids_compiled
  refine ⟨?_, ?_, ?_⟩
  · unfold compilePlaybook
    exact Except.bind_ok_iff.mpr ⟨raw, hraw, Except.bind_ok_iff.mpr ⟨_, hsteps, rfl⟩⟩
  · rw [hedge, kept_iff hn hrefs]
    simp only [List.forall_mem_map]
    rfl
  · intro fork hfork htype before after s t hbranch hs ht
    rw [hedge]
    rw [← hids] at hs ht
    exact ⟨_, .chain (List.mem_map_of_mem hfork) htype hbranch rfl hs ht⟩

set_option maxRecDepth 4000 in
theorem dangling_compiled : ∃ name steps,
    compileSteps Probe.deps (Probe.document "c") = .ok (name, steps) ∧
    compilePlaybook Probe.deps (Probe.yaml "c") = .ok (buildWorkflow name steps) ∧
    ¬ Kept (steps.map CompiledStep.links) (buildWorkflow name steps).Edge := by
  refine ⟨_, _, rfl, rfl, ?_⟩
  intro h
  obtain ⟨hmem, -⟩ := h _ List.mem_cons_self "c" (Or.inl rfl) (by decide)
  revert hmem
  decide

set_option maxRecDepth 4000 in
theorem authored_edges_probe : ∃ name steps,
    compilePlaybook Probe.deps (Probe.yaml "b") = .ok (buildWorkflow name steps) ∧
    (Kept (steps.map CompiledStep.links) (buildWorkflow name steps).Edge ↔
      Resolved (steps.map CompiledStep.links) ∧
        ∀ step ∈ steps, step.type = .parallelFork → ∀ t ∈ step.branches.flatten,
          Direct (steps.map CompiledStep.links) step.links t) ∧
    ∀ fork ∈ steps, fork.type = .parallelFork → ∀ before after s t,
      before ++ s :: t :: after ∈ fork.branches → s ∈ steps.map (·.id) → t ∈ steps.map (·.id) →
        (buildWorkflow name steps).Edge s t := by
  have hraw : parseYaml Probe.deps (Probe.yaml "b") = .ok (Probe.document "b") := rfl
  have hsome : (compileSteps Probe.deps (Probe.document "b")).isOk = true := by decide
  obtain ⟨⟨name, steps⟩, hsteps⟩ := exists_of_isOk hsome
  exact ⟨name, steps, authored_edges_iff hraw hsteps⟩

end Playbook

end BTagent
