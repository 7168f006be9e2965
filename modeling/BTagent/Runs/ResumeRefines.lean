import BTagent.Engine.CompiledGraph
import BTagent.Engine.ForkOnce
import BTagent.Runs.AttemptChain
import BTagent.Runs.Lockstep

namespace BTagent

namespace Compiler

end Compiler

namespace WorkflowRunRow

variable {N : JsonbNumeric}

theorem storeOutputs_congr {a b : OrderedDict StepId Dict}
    (h : ∀ c, SameOption N (a.get? c) (b.get? c)) : storeOutputs N a = storeOutputs N b := by
  have hperm : (a.mapVal (Jsonb.obj N)).entries.Perm (b.mapVal (Jsonb.obj N)).entries :=
    OrderedDict.perm_of_get? fun c => by simpa using (h c).map
  exact OrderedDict.ext_entries (Jsonb.sortKeys_congr (a.mapVal (Jsonb.obj N)).nodup hperm)

theorem storeOutputs_same {a b : OrderedDict StepId Dict}
    (h : ∀ c, SameOption N (a.get? c) (b.get? c)) (c : StepId) :
    SameOption N ((storeOutputs N a).get? c) (b.get? c) := by
  have hc := h c
  rw [get?_storeOutputs]
  cases ha : a.get? c <;> cases hb : b.get? c <;> rw [ha, hb] at hc
  · trivial
  · exact absurd hc id
  · exact absurd hc id
  · exact (Jsonb.same_obj N _).trans hc

-- The columns that the outcome of an attempt decides, whichever statement writes the row.
structure Persisted (N : JsonbNumeric) (payload : Dict) (row : WorkflowRunRow) (o : Outcome) :
    Prop where
  status : row.status = o.status
  paused : row.pausedNodeId = o.pausedNodeId
  trigger : Jsonb.Same N row.triggerPayload payload
  outputs : o.status ≠ .failed → row.outputs = storeOutputs N o.outputs
  nodes : o.status ≠ .failed → row.nodesExecuted = o.nodesExecuted
  final : o.status ≠ .failed → row.finalOutput = o.finalOutput.map (Jsonb.obj N)

theorem persisted_create {payload : Dict} {o : Outcome} :
    Persisted N payload (create N payload o) o :=
  ⟨rfl, rfl, Jsonb.same_obj N payload, fun _ => rfl, fun _ => rfl, fun _ => rfl⟩

theorem persisted_update {payload : Dict} {row : WorkflowRunRow} {approved : List StepId}
    {o : Outcome} (h : Jsonb.Same N row.triggerPayload payload) :
    Persisted N payload (row.update N approved o) o :=
  ⟨rfl, rfl, h, fun hs => by simp [update, hs], fun hs => by simp [update, hs],
    fun hs => by simp [update, hs]⟩

end WorkflowRunRow

namespace EventLoop
open WorkflowRunRow

section Refinement
variable {E : Engine} {N : JsonbNumeric} {P : Posture} {wf : Workflow}
  {run : String → Dict → Except String Dict} {payload : Dict} {row : WorkflowRunRow}

-- The rows a run goes through: it is executed, and resumed whenever it has paused.
inductive Chained (E : Engine) (N : JsonbNumeric) (P : Posture) (wf : Workflow)
    (run : String → Dict → Except String Dict) (payload : Dict) : WorkflowRunRow → Prop where
  | execute {s₀ s : Exec} {r : Except Failure (Option Dict)}
      (hstart : execute wf none [] [] (.dict payload) = .ok s₀) (hends : Ends E P wf run s₀ s r) :
      Chained E N P wf run payload (create N payload (.capture s.state s.evidence r))
  | resume {row : WorkflowRunRow} {a : Attempt} {s : Exec} {r : Except Failure (Option Dict)}
      (hrow : Chained E N P wf run payload row)
      (hresume : AttemptChain.resumeRun wf row P = some a) (hends : Ends E P wf run a.exec s r) :
      Chained E N P wf run payload (row.update N a.approved (.capture s.state s.evidence r))

section Pauses
variable {s : Exec} {r : Except Failure (Option Dict)} {approved : List StepId}

def Waiting (wf : Workflow) (row : WorkflowRunRow) : Prop :=
  row.status = .paused → ∃ c, row.pausedNodeId = some c ∧ c ∈ wf.stepIds ∧ c ∉ row.approvedSteps

def unapproved (wf : Workflow) (row : WorkflowRunRow) : ℕ :=
  wf.stepIds.countP fun c => c ∉ row.approvedSteps

theorem unapproved_lt {row' : WorkflowRunRow} {c : StepId} (hmem : c ∈ wf.stepIds)
    (hnot : c ∉ row.approvedSteps) (happroved : row.approve c ⊆ row'.approvedSteps) :
    unapproved wf row' < unapproved wf row := by
  have hc : c ∈ row'.approvedSteps := happroved (mem_approve.mpr (Or.inl rfl))
  refine Kahn.countP_lt hmem (by simpa using hc) (by simpa using hnot) fun d _ hd => ?_
  have hd' : d ∉ row'.approvedSteps := of_decide_eq_true hd
  exact decide_eq_true fun hm => hd' (happroved (mem_approve.mpr (Or.inr hm)))

theorem waiting_of_ends
    (hpaused : ∀ c p, r = .error (.paused c p) → c ∈ wf.stepIds ∧ c ∉ approved)
    (hrow : Persisted N payload row (.capture s.state s.evidence r))
    (happroved : row.approvedSteps ⊆ approved) : Waiting wf row := by
  intro hstatus
  rw [hrow.status] at hstatus
  cases r with
  | ok last => cases hstatus
  | error e =>
      cases e with
      | paused c p =>
          obtain ⟨hmem, hnot⟩ := hpaused c p rfl
          exact ⟨c, hrow.paused, hmem, fun hm => hnot (happroved hm)⟩
      | execution x | unexpected what => cases hstatus

theorem start_at (st : WorkflowState) (approved : List StepId) (evidence : List EvidenceEntry)
    (p : Payload) (entry : StepId) :
    At (Exec.start st approved evidence p entry) (Walker.start st approved evidence p entry) .head :=
  ⟨rfl, rfl, rfl, rfl, rfl⟩

theorem chained_trigger (h : Chained E N P wf run payload row) :
    Jsonb.Same N row.triggerPayload payload := by
  induction h with
  | execute _ _ => exact Jsonb.same_obj N payload
  | resume _ _ _ ih => exact ih

theorem resumes_end (hacyclic : wf.Acyclic) (hbranch : NoBranches wf) {entry : StepId}
    (hentry : Executor.findEntryId wf = .ok entry) (h : Chained E N P wf run payload row)
    (hwait : Waiting wf row) :
    ∃ row', Chained E N P wf run payload row' ∧ row'.status ≠ .paused := by
  induction hn : unapproved wf row using Nat.strong_induction_on generalizing row with
  | _ n ih =>
  by_cases hstatus : row.status = .paused
  · obtain ⟨c, hc, hmem, hnot⟩ := hwait hstatus
    have hresume : AttemptChain.resumeRun wf row P = some ⟨P,
        Exec.start { row.rehydrate with completedSteps := row.nodesExecuted } (row.approve c)
          row.evidenceChain (.dict row.triggerPayload) entry, row.approve c, some row, none⟩ := by
      simp only [AttemptChain.resumeRun, hstatus, hc, execute, hentry, if_true]
      rfl
    obtain ⟨s, r, hends, hpaused⟩ := walk_ends hacyclic hbranch (start_at _ _ _ _ _)
    have happroved : row.approve c ⊆
        (row.update N (row.approve c) (.capture s.state s.evidence r)).approvedSteps :=
      fun d hd => mem_update_approvedSteps.mpr hd
    refine ih _ (hn ▸ unapproved_lt hmem hnot happroved) (.resume h hresume hends) ?_ rfl
    refine waiting_of_ends hpaused (persisted_update (chained_trigger h)) fun d hd => ?_
    exact mem_update_approvedSteps.mp hd
  · exact ⟨row, h, hstatus⟩

theorem chained_ends (hacyclic : wf.Acyclic) (hbranch : NoBranches wf) {entry : StepId}
    (hentry : Executor.findEntryId wf = .ok entry) :
    ∃ row, Chained E N P wf run payload row ∧ row.status ≠ .paused := by
  have hstart : execute wf none [] [] (.dict payload) =
      .ok (Exec.start (.fresh payload) [] [] (.dict payload) entry) := by
    simp only [execute, hentry]
    rfl
  obtain ⟨s, r, hends, hpaused⟩ := walk_ends hacyclic hbranch (start_at _ _ _ _ _)
  refine resumes_end hacyclic hbranch hentry (.execute hstart hends) ?_
  exact waiting_of_ends hpaused persisted_create (List.Subset.refl _)

end Pauses

section Matches
variable {w₀ u : Walker} {s : Exec} {r : Except Failure (Option Dict)} {o : Outcome}

-- The uninterrupted walk from `w₀` comes through what the row has stored of a run.
def Matches (E : Engine) (N : JsonbNumeric) (P : Posture) (wf : Workflow)
    (run : String → Dict → Except String Dict) (w₀ : Walker) (row : WorkflowRunRow) : Prop :=
  ∃ u, Walked E P wf run w₀ u ∧
    match row.status with
    | .paused => ∃ c, row.pausedNodeId = some c ∧ u.current = some c ∧
        Snapshot N row.rehydrate u.state ∧ row.nodesExecuted.length < Compiler.maxSteps
    | .succeeded => u.current = none ∧ row.outputs = storeOutputs N u.state.outputs ∧
        row.nodesExecuted = u.state.nodesExecuted ∧ row.finalOutput = u.last.map (Jsonb.obj N)
    | .failed => ∃ c e, u.current = some c ∧ turn E P wf run u c = .error e ∧
        ∀ c' p, e ≠ .paused c' p
    | _ => False

theorem matches_of_endsAt (hw : Walked E P wf run w₀ u)
    (htrigger : u.state.triggerPayload = payload) (hends : EndsAt E N P wf run s.state u r)
    (hrow : Persisted N payload row (.capture s.state s.evidence r)) :
    Matches E N P wf run w₀ row := by
  refine ⟨u, hw, ?_⟩
  rw [hrow.status]
  cases r with
  | ok last =>
      obtain ⟨hc, hlast, hsnap⟩ := hends
      have hopen : (Outcome.capture s.state s.evidence (.ok last)).status ≠ .failed := by
        rintro ⟨⟩
      refine ⟨hc, ?_, ?_, ?_⟩
      · rw [hrow.outputs hopen]
        exact storeOutputs_congr hsnap.outputs
      · rw [hrow.nodes hopen]
        exact hsnap.nodes
      · rw [hrow.final hopen]
        exact hlast.map
  | error e =>
      cases e with
      | paused c p =>
          obtain ⟨hc, hsnap, hcap⟩ := hends
          have hopen : (Outcome.capture s.state s.evidence (.error (.paused c p))).status ≠
              .failed := by rintro ⟨⟩
          have hnodes : row.nodesExecuted = s.state.nodesExecuted := hrow.nodes hopen
          refine ⟨c, hrow.paused, hc, ⟨hnodes.trans hsnap.nodes, fun d => ?_, ?_⟩, hnodes ▸ hcap⟩
          · change SameOption N (row.outputs.get? d) _
            rw [hrow.outputs hopen]
            exact storeOutputs_same hsnap.outputs d
          · rw [htrigger]
            exact hrow.trigger
      | execution x | unexpected what => exact hends

theorem chained_matches (hacyclic : wf.Acyclic) (hbranch : NoBranches wf) {entry : StepId}
    (hentry : Executor.findEntryId wf = .ok entry) {approved : List StepId}
    (hw₀ : w₀ = Walker.start (.fresh payload) approved [] (.dict payload) entry)
    (hind : ∀ w, Walked E P wf run w₀ w → ∀ c node, w.current = some c → wf.step c = some node →
      Indifferent E N run node w.carried w.state)
    (h : Chained E N P wf run payload row) (hsub : row.approvedSteps ⊆ approved) :
    Matches E N P wf run w₀ row := by
  have htraced : Traced wf w₀ := by
    subst hw₀
    exact ⟨rfl, fun d hd => by cases hd⟩
  have htrigger : w₀.state.triggerPayload = payload := by rw [hw₀]; rfl
  induction h with
  | @execute s₀ s r hstart hends =>
      obtain ⟨entry', rfl, hentry'⟩ := execute_ok hstart
      rw [hentry] at hentry'
      cases hentry'
      have hj : Joined N wf (Walker.start (.fresh payload) [] [] (.dict payload) entry) w₀ := by
        refine ⟨?_, htraced, fun d hd => by cases hd⟩
        subst hw₀
        exact ⟨rfl, .refl _, trivial, rfl, fun c => trivial, .refl _, fun c hc => by cases hc⟩
      obtain ⟨s', r', u, hends', hwu, hat⟩ :=
        @lockstep E N P wf run _ _ _ hacyclic hbranch w₀ hind hj .refl (start_at _ _ _ _ _)
      obtain ⟨rfl, rfl⟩ := hends.unique hends'
      exact matches_of_endsAt hwu ((walked_trigger hwu htraced).trans htrigger) hat persisted_create
  | @resume row a s r hrow hresume hends ih =>
      obtain ⟨hpaused, c, entry', hc, hentry', rfl⟩ := AttemptChain.resumeRun_spec hresume
      rw [hentry] at hentry'
      cases hentry'
      have happroved : row.approve c ⊆ approved :=
        fun d hd => hsub (mem_update_approvedSteps.mpr hd)
      have hmatch := ih fun d hd => happroved (mem_approve.mpr (Or.inr hd))
      obtain ⟨u, hw, hu⟩ := hmatch
      rw [hpaused] at hu
      obtain ⟨c', hc', hcu, hsnap, hcap⟩ := hu
      have hsame := chained_trigger hrow
      let st : WorkflowState := { row.rehydrate with completedSteps := row.nodesExecuted }
      let v := Walker.start st (row.approve c) row.evidenceChain (.dict row.triggerPayload) entry
      have hrep : Replayed N v w₀ := by
        subst hw₀
        exact ⟨rfl, hsame, trivial⟩
      obtain ⟨v', hwalk, hst, hmd, hrep'⟩ := @replay E N P wf run v w₀ u st hacyclic hw htraced
        ⟨hsnap.nodes, hsnap.outputs, hsnap.trigger⟩ rfl hcap hrep rfl
      obtain ⟨s₁, hs₁, hat₁⟩ := walked_drives hbranch hwalk (start_at _ _ _ _ _)
      have hj : Joined N wf v' u := by
        refine ⟨⟨hrep'.current, hrep'.carried, hrep'.last, ?_, ?_, ?_, ?_⟩,
          walked_traced hw htraced, ?_⟩
        · rw [hst]; exact hsnap.nodes
        · rw [hst]; exact hsnap.outputs
        · rw [hst]; exact hsnap.trigger
        · rw [hmd, walked_approved hw, hw₀]
          exact happroved
        · rw [hst]
          exact List.Subset.refl _
      obtain ⟨s', r', u', hends', hwu, hat⟩ :=
        @lockstep E N P wf run _ _ _ hacyclic hbranch w₀ hind hj hw hat₁
      obtain ⟨rfl, rfl⟩ := hends.unique (hends'.after hs₁)
      have hwu' := hw.trans hwu
      exact matches_of_endsAt hwu' ((walked_trigger hwu' htraced).trans htrigger) hat
        (persisted_update hsame)

end Matches

-- No step that the execution comes to tells apart what JSONB keeps as the same value.
def OrderBlind (E : Engine) (N : JsonbNumeric) (P : Posture) (wf : Workflow)
    (run : String → Dict → Except String Dict) (s₀ : Exec) : Prop :=
  ∀ s t c node, Drives E P wf run s₀ s → s.tasks = [t] → t.phase = .head → t.current = some c →
    wf.step c = some node → Indifferent E N run node t.carried s.state

theorem resume_refines_single {D : Compiler.Deps} {text : String} {s₀ : Exec}
    (hcompile : Compiler.compilePlaybook D text = .ok wf) (hbranch : NoBranches wf)
    (hstart : execute wf none [] [] (.dict payload) = .ok s₀) :
    (∃ row, Chained E N P wf run payload row ∧ row.status ≠ .paused) ∧
    ∀ row approved t₀, Chained E N P wf run payload row → row.status ≠ .paused →
      row.approvedSteps ⊆ approved → execute wf none approved [] (.dict payload) = .ok t₀ →
      OrderBlind E N P wf run t₀ →
      ∃ t r, Ends E P wf run t₀ t r ∧
        row.status = (create N payload (.capture t.state t.evidence r)).status ∧
        (row.status = .succeeded →
          row.outputs = (create N payload (.capture t.state t.evidence r)).outputs ∧
          row.nodesExecuted = (create N payload (.capture t.state t.evidence r)).nodesExecuted ∧
          row.finalOutput = (create N payload (.capture t.state t.evidence r)).finalOutput) := by
  obtain ⟨name, steps, haccepted, rfl⟩ := Compiler.compilePlaybook_accepted hcompile
  have hacyclic : (Compiler.buildWorkflow name steps).Acyclic :=
    Compiler.acyclic_buildWorkflow haccepted
  obtain ⟨entry, -, hentry⟩ := execute_ok hstart
  refine ⟨chained_ends hacyclic hbranch hentry, ?_⟩
  intro row approved t₀ hrow hstatus hsub ht₀ hblind
  obtain ⟨entry', rfl, hentry'⟩ := execute_ok ht₀
  rw [hentry] at hentry'
  cases hentry'
  have hat := start_at (.fresh payload) approved [] (.dict payload) entry
  obtain ⟨u, hw, hu⟩ : Matches E N P _ run _ row := by
    refine chained_matches hacyclic hbranch hentry rfl ?_ hrow hsub
    intro w hw c node hc hnode
    obtain ⟨s, hs, hat'⟩ := walked_drives hbranch hw hat
    have hind := hblind s _ c node hs hat'.tasks rfl hc hnode
    rw [hat'.state] at hind
    exact hind
  obtain ⟨s, hs, hat'⟩ := walked_drives hbranch hw hat
  cases hrs : row.status with
  | pending | running => rw [hrs] at hu; exact absurd hu id
  | paused => exact absurd hrs hstatus
  | succeeded =>
      rw [hrs] at hu
      obtain ⟨hc, houtputs, hnodes, hfinal⟩ := hu
      obtain ⟨t, hends, hst⟩ := @ends_finish E P _ run _ _ hat' hc
      refine ⟨t, _, hends.after hs, rfl, fun _ => ⟨?_, ?_, hfinal⟩⟩
      · rw [houtputs, ← hst]
        rfl
      · rw [hnodes, ← hst]
        rfl
  | failed =>
      rw [hrs] at hu
      obtain ⟨c, e, hc, he, hpaused⟩ := hu
      have hturns := @turn_turns E P _ run _ _ _ hat' hc fun _ => hbranch.fork
      rw [he] at hturns
      obtain ⟨t, hends, -⟩ := hturns
      refine ⟨t, _, hends.after hs, ?_, fun h => by cases h⟩
      cases e with
      | paused c' p => exact absurd rfl (hpaused c' p)
      | execution x | unexpected what => rfl

end Refinement

namespace GatedPair

def text : String :=
  "name: pair\ntrigger: \x7btype: manual\x7d\nsteps:\n" ++
    "- \x7bid: a, tool_name: lookup, next_step: b\x7d\n- \x7bid: b, tool_name: lookup\x7d\n"

def field (key value : String) : Yaml × Yaml := (.str key, .str value)

def document : Yaml := .map [
  field "name" "pair",
  (.str "trigger", .map [field "type" "manual"]),
  (.str "steps", .seq [
    .map [field "id" "a", field "tool_name" "lookup", field "next_step" "b"],
    .map [field "id" "b", field "tool_name" "lookup"]])]

def deps : Compiler.Deps :=
  .loading fun source => if source = text then .ok document else .error "not loaded"

def step (id : StepId) (next : Option StepId) : Compiler.CompiledStep :=
  { ForkPlaybook.step id .action "lookup" [] with nextStep := next }

def workflow : Workflow := Compiler.buildWorkflow "pair" [step "a" (some "b"), step "b" none]

def lookup : NodeClass where
  id := "lookup"
  category := .integration
  inputFields := ["data"]
  validate := .ok
  manifest := none
  capabilityId := none

def engine : Engine where
  registry := fun id => if id = "lookup" then some lookup else none
  evaluateCondition := fun _ _ => .error "no condition"
  renderTemplate := fun source _ => .ok source
  str := fun _ => ""
  int := fun _ => none
  isBlank := fun source => source.toList.all (· = ' ')

def numeric : JsonbNumeric := .verbatim

def posture : Posture := ⟨.l0Manual, {}, some .green, id⟩

def payload : Dict := OrderedDict.empty.set "data" (.obj [("bb", .int 1), ("a", .int 2)])

-- Lists the keys of the field `data` in the order of its mapping.
def listKeys (_ : String) (input : Dict) : Except String Dict :=
  match input.get? "data" with
  | some (.obj kvs) => .ok (OrderedDict.empty.set "keys" (.arr (kvs.map fun kv => .str kv.1)))
  | _ => .ok .empty

-- Fails where it is given no field `data`.
def failAlone (_ : String) (input : Dict) : Except String Dict :=
  if (input.get? "data").isSome then .ok .empty else .error "no data"

def constant (_ : String) (_ : Dict) : Except String Dict := .ok .empty

section Runs
variable (run : String → Dict → Except String Dict)

def created (approved : List StepId) : Option WorkflowRunRow :=
  (execute workflow none approved [] (.dict payload)).toOption.bind fun s₀ =>
    (conclusion engine posture workflow run 60 s₀).map fun x =>
      create numeric payload (.capture x.1.state x.1.evidence x.2)

def resumed (row : WorkflowRunRow) : Option WorkflowRunRow :=
  (AttemptChain.resumeRun workflow row posture).bind fun a =>
    (conclusion engine posture workflow run 60 a.exec).map fun x =>
      row.update numeric a.approved (.capture x.1.state x.1.evidence x.2)

def last : Option WorkflowRunRow := ((created run []).bind (resumed run)).bind (resumed run)

variable {run}

theorem ends_of_created {approved : List StepId} {row : WorkflowRunRow}
    (h : created run approved = some row) :
    ∃ s₀ s r, execute workflow none approved [] (.dict payload) = .ok s₀ ∧
      Ends engine posture workflow run s₀ s r ∧
      row = create numeric payload (.capture s.state s.evidence r) := by
  obtain ⟨s₀, hs₀, h⟩ := Option.bind_eq_some_iff.mp h
  obtain ⟨x, hx, rfl⟩ := Option.map_eq_some_iff.mp h
  refine ⟨s₀, x.1, x.2, ?_, ends_of_conclusion hx, rfl⟩
  cases he : execute workflow none approved [] (.dict payload) <;> rw [he] at hs₀ <;> cases hs₀
  rfl

theorem chained_last {row : WorkflowRunRow} (h : last run = some row) :
    Chained engine numeric posture workflow run payload row := by
  have hnext : ∀ {row row' : WorkflowRunRow},
      Chained engine numeric posture workflow run payload row → resumed run row = some row' →
      Chained engine numeric posture workflow run payload row' := by
    intro row row' hrow h
    obtain ⟨a, ha, h⟩ := Option.bind_eq_some_iff.mp h
    obtain ⟨x, hx, rfl⟩ := Option.map_eq_some_iff.mp h
    exact .resume hrow ha (ends_of_conclusion hx)
  obtain ⟨row₂, h₂, h₃⟩ := Option.bind_eq_some_iff.mp h
  obtain ⟨row₁, h₁, h₂⟩ := Option.bind_eq_some_iff.mp h₂
  obtain ⟨s₀, s, r, hs₀, hends, rfl⟩ := ends_of_created h₁
  exact hnext (hnext (.execute hs₀ hends) h₂) h₃

end Runs

set_option maxRecDepth 4000 in
theorem compiled : Compiler.compilePlaybook deps text = .ok workflow := rfl

theorem branchless : NoBranches workflow := by
  unfold NoBranches
  decide

def keysListed (outputs : OrderedDict StepId Dict) : List String :=
  (outputs.get? "a").toList.flatMap fun d => Gates.strings (Gates.arrayItems (d.get? "keys"))

theorem orderBlind {s₀ : Exec} : OrderBlind engine numeric posture workflow constant s₀ := by
  rintro s t c node - - - - hnode
  have hplain : ∀ node ∈ workflow.nodes, node.nodeId = "lookup" ∧ node.config = .empty := by
    have hnodes : workflow.nodes = [⟨"a", "lookup", "", .empty⟩, ⟨"b", "lookup", "", .empty⟩] := rfl
    simp [hnodes]
  obtain ⟨hid, hconfig⟩ := hplain node (Workflow.step_mem hnode)
  have hresolve : Executor.resolveNode engine node = .ok lookup := by
    rw [Executor.resolveNode, hid]
    rfl
  refine ⟨fun ctx _ => ?_, fun text ctx h _ => ?_, fun cls input d h hsame => ?_,
    fun cls input valid d h _ _ => ?_⟩
  · rw [hconfig]
    rfl
  · rw [hconfig] at h
    cases h
  · have hcls := Executor.nodeInput_class h
    rw [hresolve] at hcls
    cases hcls
    exact hsame.symm
  · have hcls := Executor.nodeInput_class h
    rw [hresolve] at hcls
    cases hcls
    exact .refl _

end GatedPair

open GatedPair in
theorem resumed_run_differs :
    Compiler.compilePlaybook deps GatedPair.text = .ok workflow ∧ NoBranches workflow ∧
    (∃ row t₀ t r, Chained engine numeric posture workflow listKeys payload row ∧
      row.status = .succeeded ∧ row.approvedSteps = ["a", "b"] ∧
      execute workflow none ["a", "b"] [] (.dict payload) = .ok t₀ ∧
      Ends engine posture workflow listKeys t₀ t r ∧
      row.outputs ≠ (create numeric payload (.capture t.state t.evidence r)).outputs) ∧
    ∃ row t₀ t r, Chained engine numeric posture workflow failAlone payload row ∧
      row.status = .failed ∧ row.approvedSteps = ["a", "b"] ∧
      execute workflow none ["a", "b"] [] (.dict payload) = .ok t₀ ∧
      Ends engine posture workflow failAlone t₀ t r ∧
      row.nodesExecuted ≠ (create numeric payload (.capture t.state t.evidence r)).nodesExecuted := by
  have hresumed : ∃ row ∈ last listKeys, row.status = .succeeded ∧ row.approvedSteps = ["a", "b"] ∧
      keysListed row.outputs = ["a", "bb"] := by decide
  have hsingle : ∃ row ∈ created listKeys ["a", "b"], keysListed row.outputs = ["bb", "a"] := by
    decide
  have hresumedFails : ∃ row ∈ last failAlone, row.status = .failed ∧
      row.approvedSteps = ["a", "b"] ∧ row.nodesExecuted = ["a"] := by decide
  have hsingleFails : ∃ row ∈ created failAlone ["a", "b"], row.nodesExecuted = [] := by
    decide
  refine ⟨compiled, branchless, ?_, ?_⟩
  · obtain ⟨row, hrow, hstatus, happroved, hkeys⟩ := hresumed
    obtain ⟨_, hrow', hkeys'⟩ := hsingle
    obtain ⟨t₀, t, r, ht₀, hends, rfl⟩ := ends_of_created hrow'
    refine ⟨row, t₀, t, r, chained_last hrow, hstatus, happroved, ht₀, hends, fun heq => ?_⟩
    rw [heq, hkeys'] at hkeys
    exact absurd hkeys (by decide)
  · obtain ⟨row, hrow, hstatus, happroved, hnodes⟩ := hresumedFails
    obtain ⟨_, hrow', hnodes'⟩ := hsingleFails
    obtain ⟨t₀, t, r, ht₀, hends, rfl⟩ := ends_of_created hrow'
    refine ⟨row, t₀, t, r, chained_last hrow, hstatus, happroved, ht₀, hends, ?_⟩
    rw [hnodes, hnodes']
    decide

open GatedPair in
theorem resume_refines_single_pair :
    (∃ row, Chained engine numeric posture workflow constant payload row ∧ row.status ≠ .paused) ∧
    ∃ row t₀ t r, Chained engine numeric posture workflow constant payload row ∧
      row.status = .succeeded ∧ row.approvedSteps = ["a", "b"] ∧
      execute workflow none ["a", "b"] [] (.dict payload) = .ok t₀ ∧
      Ends engine posture workflow constant t₀ t r ∧
      row.outputs = (create numeric payload (.capture t.state t.evidence r)).outputs ∧
      row.nodesExecuted = (create numeric payload (.capture t.state t.evidence r)).nodesExecuted ∧
      row.finalOutput = (create numeric payload (.capture t.state t.evidence r)).finalOutput := by
  have hlast : ∃ row ∈ last constant, row.status = .succeeded ∧ row.approvedSteps = ["a", "b"] := by
    decide
  obtain ⟨row, hrow, hstatus, happroved⟩ := hlast
  have hrefines := @resume_refines_single engine numeric posture workflow constant payload deps
    GatedPair.text _ compiled branchless rfl
  refine ⟨hrefines.1, ?_⟩
  obtain ⟨t, r, hends, -, hsame⟩ := hrefines.2 row ["a", "b"] _ (chained_last hrow)
    (by simp [hstatus]) (by simp [happroved]) rfl orderBlind
  exact ⟨row, _, t, r, chained_last hrow, hstatus, happroved, rfl, hends, hsame hstatus⟩

end EventLoop

end BTagent
