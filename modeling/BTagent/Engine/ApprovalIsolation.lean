import BTagent.Engine.EventLoopSteps
import BTagent.Lib.Slots

namespace BTagent

namespace EventLoop
open Gates Runner

-- A middleware gates a pass when it would pause it unless the step is approved.
inductive GatedBy (P : Posture) (f : Frame) : Hook → Pause → Prop where
  | hitl (hcat : f.node.category = .integration) (hreq : requiresApproval P f.node.id = true) :
      GatedBy P f .hitl
        (.hitl f.node.id (resolveNodeAutonomy P f.node.id) P.agentAutonomy)
  | hitlGate (hid : f.node.id = hitlGateNodeId) :
      GatedBy P f .hitlGate (.hitlGate f.node.id
        (textOr "senior_analyst" (f.input.get? "required_role"))
        (textOr "" (f.input.get? "prompt")))
  | connectorPolicy {m cap} (hm : f.node.manifest = some m)
      (hcap : resolveCapability m f.node f.input = some cap) (hreq : cap.hitlRequired = true) :
      GatedBy P f .connectorPolicy (.pendingApproval cap.id m.name)

-- The pass runs the class that the registry gives for the step of its id.
def OfStep (E : Engine) (wf : Workflow) (f : Frame) : Prop :=
  ∃ node, wf.step f.stepId = some node ∧ Executor.resolveNode E node = .ok f.node

def Cleared (P : Posture) (approved : List StepId) (f : Frame) (passed : List Hook) : Prop :=
  ∀ h ∈ passed, ∀ p, GatedBy P f h p → f.stepId ∈ approved

def Ungated (P : Posture) (f : Frame) : Prop := ∀ h p, ¬ GatedBy P f h p

def GateFree (P : Posture) (hooks : List Hook) : Prop :=
  ∀ h ∈ hooks, ∀ f p, ¬ GatedBy P f h p

-- Every gate of the chain stands before the one hook that awaits.
def GatesFirst (P : Posture) (chain : List Hook) : Prop :=
  ∀ passed rest, chain = passed ++ .eventEmitter :: rest → GateFree P rest

theorem gatesFirst_of_gateFree_tail {P : Posture} {chain : List Hook}
    (h : ∀ passed rest, chain = passed ++ .eventEmitter :: rest → rest = []) :
    GatesFirst P chain := by
  intro passed rest heq
  rw [h passed rest heq]
  intro h hm
  cases hm

theorem gatesFirst_backendChain (P : Posture) : GatesFirst P backendChain := by
  intro passed rest heq
  have hm : Hook.eventEmitter ∈ backendChain := heq ▸ by simp
  simp [backendChain] at hm

theorem gatesFirst_engineChain (P : Posture) (scope budget emit : Bool) :
    GatesFirst P (engineChain scope budget emit) := by
  refine gatesFirst_of_gateFree_tail fun passed rest heq => ?_
  have hlast : ∀ hooks : List Hook, .eventEmitter ∉ hooks →
      hooks ++ [.eventEmitter] = passed ++ .eventEmitter :: rest → rest = [] := by
    intro hooks hnot heq
    rcases List.append_eq_append_iff.mp heq with ⟨l, hl, hr⟩ | ⟨l, hl, hr⟩
    · cases l with
      | nil => simpa using hr.symm
      | cons x l => simp at hr
    · cases l with
      | nil => simpa using hr
      | cons x l =>
          obtain rfl : x = .eventEmitter := by simpa using (List.cons.inj hr).1.symm
          exact absurd (hl ▸ by simp) hnot
  have hnone : ∀ hooks : List Hook, .eventEmitter ∉ hooks →
      hooks = passed ++ .eventEmitter :: rest → rest = [] := by
    intro hooks hnot heq
    exact absurd (heq ▸ by simp) hnot
  cases emit with
  | false =>
      refine hnone (engineChain scope budget false) ?_ heq
      cases scope <;> cases budget <;> simp [engineChain]
  | true =>
      refine hlast (engineChain scope budget false) ?_ ?_
      · cases scope <;> cases budget <;> simp [engineChain]
      · simpa [engineChain] using heq

def HasGates (chain : List Hook) : Prop :=
  Hook.hitl ∈ chain ∧ Hook.hitlGate ∈ chain ∧ Hook.connectorPolicy ∈ chain

theorem hasGates_backendChain : HasGates backendChain := by
  simp [HasGates, backendChain]

theorem hasGates_engineChain (scope budget emit : Bool) :
    HasGates (engineChain scope budget emit) := by
  simp [HasGates, engineChain]

section Hooks
variable {P : Posture} {f : Frame} {h : Hook} {refusal : Option String} {md md' : Metadata}
  {approved : List StepId}

theorem stepIsApproved_iff (hcur : md.currentStepId = some f.stepId)
    (happ : md.approvedSteps = approved) : stepIsApproved md = true ↔ f.stepId ∈ approved := by
  simp [stepIsApproved, hcur, happ]

theorem beforeRun_approved (hok : beforeRun P h f refusal md = .ok md') :
    md'.approvedSteps = md.approvedSteps ∧ md'.currentStepId = md.currentStepId := by
  cases h <;> simp only [beforeRun, raiseIf, refuseIf] at hok
  case connectorPolicy =>
    split at hok
    · next hp =>
        cases hok
        exact ⟨(connectorPolicyBefore_pass hp).1, (connectorPolicyBefore_pass hp).2.1⟩
    · cases hok
    · cases hok
  all_goals
    try split at hok
    all_goals cases hok
    all_goals exact ⟨rfl, rfl⟩

theorem approved_of_beforeRun {p : Pause} (hok : beforeRun P h f refusal md = .ok md')
    (hgate : GatedBy P f h p) : stepIsApproved md = true := by
  cases hgate with
  | hitl hcat hreq =>
      by_contra hnot
      have hpause := hitlBefore_eq_some.mpr ⟨hcat, hreq, by simpa using hnot, rfl⟩
      simp [beforeRun, raiseIf, hpause] at hok
  | hitlGate hid =>
      by_contra hnot
      have hpause : hitlGateBefore f.node f.input md = some _ :=
        hitlGateBefore_eq_some.mpr ⟨hid, by simpa using hnot, rfl⟩
      rw [beforeRun, hpause] at hok
      cases hok
  | connectorPolicy hm hcap hreq =>
      simp only [beforeRun] at hok
      split at hok
      · next hp => exact (connectorPolicyBefore_pass hp).2.2 _ _ hm hcap hreq
      · cases hok
      · cases hok

theorem gatedBy_of_pause {p : Pause} (hx : beforeRun P h f refusal md = .error (.pause p)) :
    GatedBy P f h p ∧ stepIsApproved md = false := by
  cases h <;> simp only [beforeRun, raiseIf, refuseIf] at hx
  case hitl =>
    split at hx
    · next p' hp =>
        cases hx
        obtain ⟨hcat, hreq, hnot, rfl⟩ := hitlBefore_eq_some.mp hp
        exact ⟨.hitl hcat hreq, hnot⟩
    · cases hx
  case hitlGate =>
    split at hx
    · next p' hp =>
        cases hx
        obtain ⟨hid, hnot, rfl⟩ := hitlGateBefore_eq_some.mp hp
        exact ⟨.hitlGate hid, hnot⟩
    · cases hx
  case connectorPolicy =>
    split at hx
    · cases hx
    · cases hx
    · next p' hp =>
        cases hx
        obtain ⟨m, cap, hm, hcap, hreq, hnot, rfl⟩ := connectorPolicyBefore_pause hp
        exact ⟨.connectorPolicy hm hcap hreq, hnot⟩
  all_goals
    try split at hx
    all_goals cases hx

end Hooks

theorem ungated_mergeFrame (P : Posture) (c : StepId) (results : List (Option Dict)) :
    Ungated P (mergeFrame c results) := by
  intro h p hgate
  cases hgate with
  | hitl hcat => cases hcat
  | hitlGate hid =>
      have hne : Compiler.parallelNodeId ≠ hitlGateNodeId := by decide
      exact hne hid
  | connectorPolicy hm => cases hm

section Invariant
variable (E : Engine) (P : Posture) (wf : Workflow) (chain : List Hook) (approved : List StepId)

-- The pass reads its own step id wherever a gate may still look at the current step.
def Stamped (s : Exec) (i : ℕ) (f : Frame) (rest : List Hook) : Prop :=
  GateFree P rest ∨ Ungated P f ∨ (s.active = some i ∧ s.md.currentStepId = some f.stepId)

def StageOk (s : Exec) (i : ℕ) (f : Frame) (rest : List Hook) : Stage → Prop
  | .before => ∃ passed, chain = passed ++ rest ∧ Cleared P approved f passed ∧ Stamped P s i f rest
  | .after _ => True
  | .error x => ∃ what, x = .other what

def PauseOk (c : StepId) (p : Pause) : Prop :=
  ∃ f h, OfStep E wf f ∧ f.stepId = c ∧ GatedBy P f h p ∧ c ∉ approved

def PhaseOk (s : Exec) (i : ℕ) (t : Task) : Prop :=
  match t.phase with
  | .hooks f stage rest => OfStep E wf f ∧ StageOk P chain approved s i f rest stage
  | .emitting f stage rest => OfStep E wf f ∧ StageOk P chain approved s i f rest stage
  | .running f => OfStep E wf f
  | .gather _ => ∀ c ∈ t.current, ∃ node, wf.step c = some node ∧
      node.nodeId = Compiler.parallelNodeId
  | .failed (.paused c p) => PauseOk E P wf approved c p
  | _ => True

structure Isolated (s : Exec) : Prop where
  given : s.md.approvedSteps = approved
  runs : ∀ f ∈ s.runs, OfStep E wf f ∧ Cleared P approved f chain
  tasks : ∀ i t, s.tasks[i]? = some t → PhaseOk E P wf chain approved s i t

end Invariant

variable {E : Engine} {P : Posture} {wf : Workflow} {chain : List Hook} {approved : List StepId}
  {s s' : Exec}

theorem Stamped.frame {j : ℕ} {f : Frame} {rest : List Hook} (h : Stamped P s j f rest)
    (hact : s.active ≠ some j) : Stamped P s' j f rest := by
  rcases h with h | h | ⟨hj, -⟩
  · exact Or.inl h
  · exact Or.inr (Or.inl h)
  · exact absurd hj hact

theorem StageOk.frame {j : ℕ} {f : Frame} {rest : List Hook} {stage : Stage}
    (h : StageOk P chain approved s j f rest stage) (hact : s.active ≠ some j) :
    StageOk P chain approved s' j f rest stage := by
  cases stage with
  | before =>
      obtain ⟨passed, hchain, hcleared, hstamped⟩ := h
      exact ⟨passed, hchain, hcleared, hstamped.frame hact⟩
  | after _ => trivial
  | error _ => exact h

theorem PhaseOk.frame {j : ℕ} {t : Task} (h : PhaseOk E P wf chain approved s j t)
    (hact : s.active ≠ some j) : PhaseOk E P wf chain approved s' j t := by
  unfold PhaseOk at h ⊢
  split at h
  · exact ⟨h.1, h.2.frame hact⟩
  · exact ⟨h.1, h.2.frame hact⟩
  · exact h
  · exact h
  · exact h
  · trivial

theorem idle_of_ne {i j : ℕ} (hact : s.active = none ∨ s.active = some i) (hij : j ≠ i) :
    s.active ≠ some j := by
  rcases hact with hact | hact
  · simp [hact]
  · simpa [hact] using Ne.symm hij

theorem tasks_put {i : ℕ} {t' : Task}
    (htasks : ∀ j u, s.tasks[j]? = some u → PhaseOk E P wf chain approved s j u)
    (hact : s.active = none ∨ s.active = some i) (hok : PhaseOk E P wf chain approved s' i t') :
    ∀ j u, (s.tasks.set i t')[j]? = some u → PhaseOk E P wf chain approved s' j u := by
  intro j u hu
  rcases Slots.getElem?_set_cases hu with ⟨rfl, rfl⟩ | ⟨hij, hu⟩
  · exact hok
  · exact (htasks j u hu).frame (idle_of_ne hact hij)

theorem visit_ofStep {c : StepId} {carried : Payload} {st : WorkflowState} {node : NodeClass}
    {input valid : Dict} (h : Executor.visit E wf c carried st = .execute node input) :
    OfStep E wf ⟨c, node, valid⟩ := by
  obtain ⟨-, wfNode, hnode, -, hv⟩ := Executor.visit_cases h (by simp)
  cases hv with
  | execute _ _ _ hin => exact ⟨wfNode, hnode, Executor.nodeInput_class hin⟩

theorem ofStep_mergeFrame {c : StepId} {node : WorkflowNode} (hnode : wf.step c = some node)
    (hp : node.nodeId = Compiler.parallelNodeId) (results : List (Option Dict)) :
    OfStep E wf (mergeFrame c results) := by
  refine ⟨node, hnode, ?_⟩
  have hne : Compiler.parallelNodeId ≠ Compiler.decisionNodeId := by decide
  simp [Executor.resolveNode, hp, hne, mergeFrame]

theorem mergeOk {i : ℕ} {c : StepId} (results : List (Option Dict)) :
    StageOk P chain approved s i (mergeFrame c results) chain .before :=
  ⟨[], rfl, (fun _ hm => by cases hm), Or.inr (Or.inl (ungated_mergeFrame P c results))⟩

theorem runHook_error {f : Frame} {h : Hook} {refusal : Option String} {md : Metadata}
    {evidence : List EvidenceEntry} {stage : Stage} {x : NodeException}
    (hx : runHook P h f refusal md evidence stage = .error x) :
    (stage = .before ∧ beforeRun P h f refusal md = .error x) ∨ ∃ what, x = .other what := by
  cases stage with
  | before =>
      simp only [runHook] at hx
      cases hb : beforeRun P h f refusal md with
      | ok md => simp [hb, Except.map] at hx
      | error y =>
          simp only [hb, Except.map, Except.error.injEq] at hx
          exact Or.inl ⟨rfl, congrArg _ hx⟩
  | after output =>
      simp only [runHook] at hx
      cases ha : afterRun h f output refusal md evidence with
      | ok evidence => simp [ha, Except.map] at hx
      | error y =>
          simp only [ha, Except.map, Except.error.injEq] at hx
          exact Or.inr (hx ▸ afterRun_error ha)
  | error e => cases hx

theorem runHook_before_ok {f : Frame} {h : Hook} {refusal : Option String} {md md' : Metadata}
    {evidence evidence' : List EvidenceEntry}
    (hok : runHook P h f refusal md evidence .before = .ok (md', evidence')) :
    beforeRun P h f refusal md = .ok md' := by
  simp only [runHook] at hok
  cases hb : beforeRun P h f refusal md with
  | ok md => simp_all [Except.map]
  | error y => simp [hb, Except.map] at hok

theorem runHook_approved {f : Frame} {h : Hook} {refusal : Option String} {md md' : Metadata}
    {evidence evidence' : List EvidenceEntry} {stage : Stage}
    (hok : runHook P h f refusal md evidence stage = .ok (md', evidence')) :
    md'.approvedSteps = md.approvedSteps := by
  cases stage with
  | before => exact (beforeRun_approved (runHook_before_ok hok)).1
  | after output =>
      simp only [runHook] at hok
      cases ha : afterRun h f output refusal md evidence <;> simp_all [Except.map]
  | error e =>
      cases hok
      rfl

theorem StageOk.pass {i : ℕ} {f : Frame} {h : Hook} {rest : List Hook} {refusal : Option String}
    {md : Metadata} {evidence : List EvidenceEntry} {stage : Stage}
    (hok : StageOk P chain approved s i f (h :: rest) stage) (hact : s'.active = some i)
    (hgiven : s.md.approvedSteps = approved)
    (hrun : runHook P h f refusal s.md s.evidence stage = .ok (md, evidence))
    (hmd : s'.md = md) : StageOk P chain approved s' i f rest stage := by
  cases stage with
  | after _ => trivial
  | error _ => exact hok
  | before =>
      have hb := runHook_before_ok hrun
      obtain ⟨passed, hchain, hcleared, hstamped⟩ := hok
      refine ⟨passed ++ [h], by simpa using hchain, ?_, ?_⟩
      · intro h' hm p hgate
        rcases List.mem_append.mp hm with hm | hm
        · exact hcleared h' hm p hgate
        · obtain rfl := List.mem_singleton.mp hm
          rcases hstamped with hfree | hfree | ⟨-, hcur⟩
          · exact absurd hgate (hfree h' (by simp) f p)
          · exact absurd hgate (hfree h' p)
          · exact (stepIsApproved_iff hcur hgiven).mp (approved_of_beforeRun hb hgate)
      · rcases hstamped with hfree | hfree | ⟨-, hcur⟩
        · exact Or.inl fun h' hm => hfree h' (List.mem_cons_of_mem _ hm)
        · exact Or.inr (Or.inl hfree)
        · refine Or.inr (Or.inr ⟨hact, ?_⟩)
          rw [hmd, (beforeRun_approved hb).2, hcur]

theorem StageOk.emission {i : ℕ} {f : Frame} {rest : List Hook} {stage : Stage}
    (hfirst : GatesFirst P chain)
    (hok : StageOk P chain approved s i f (.eventEmitter :: rest) stage) :
    StageOk P chain approved s' i f rest stage := by
  cases stage with
  | after _ => trivial
  | error _ => exact hok
  | before =>
      obtain ⟨passed, hchain, hcleared, -⟩ := hok
      refine ⟨passed ++ [.eventEmitter], by simpa using hchain, ?_, Or.inl (hfirst _ _ hchain)⟩
      intro h' hm p hgate
      rcases List.mem_append.mp hm with hm | hm
      · exact hcleared h' hm p hgate
      · obtain rfl := List.mem_singleton.mp hm
        cases hgate

theorem raise_ok {i : ℕ} {t : Task} {e : Failure} (hinv : Isolated E P wf chain approved s)
    (ht : s.tasks[i]? = some t) (hr : Raise P s t e) :
    PhaseOk E P wf chain approved s' i (t.at_ (.failed e)) := by
  have hok := hinv.tasks i t ht
  cases hr with
  | @hook f h rest refusal stage x hp hx =>
      simp only [PhaseOk, hp] at hok
      obtain ⟨hstep, hstage⟩ := hok
      rcases runHook_error hx with ⟨rfl, hb⟩ | ⟨what, rfl⟩
      · cases x with
        | policy v => trivial
        | other what => trivial
        | pause p =>
            obtain ⟨hgate, hnot⟩ := gatedBy_of_pause hb
            obtain ⟨passed, -, -, hfree | hfree | ⟨-, hcur⟩⟩ := hstage
            · exact absurd hgate (hfree h (by simp) f p)
            · exact absurd hgate (hfree h p)
            · refine ⟨f, h, hstep, rfl, hgate, fun hm => ?_⟩
              have happ := (stepIsApproved_iff hcur hinv.given).mpr hm
              simp [happ] at hnot
      · trivial
  | @node f x hp =>
      simp only [PhaseOk, hp] at hok
      obtain ⟨-, what, rfl⟩ := hok
      trivial
  | @branch kids e hp he =>
      obtain ⟨k, -, hk⟩ := Option.bind_eq_some_iff.mp he
      unfold Exec.failure? Exec.phase? at hk
      split at hk
      · next e' hphase =>
          cases hk
          obtain ⟨u, hu, hphase⟩ := Option.map_eq_some_iff.mp hphase
          have hkid := hinv.tasks k u hu
          simp only [PhaseOk, hphase] at hkid
          cases e with
          | paused c p => exact hkid
          | execution e => trivial
          | unexpected what => trivial
      · cases hk
  | badOutput hp => trivial
  | emission hp => trivial

theorem fork_ok {tasks : List Task} {targets : List StepId} {stopAt : Option StepId}
    {payload : Payload} (htasks : ∀ j u, tasks[j]? = some u → PhaseOk E P wf chain approved s j u) :
    ∀ j u, (tasks ++ targets.map (Task.start stopAt payload))[j]? = some u →
      PhaseOk E P wf chain approved s j u := by
  intro j u hu
  rw [List.getElem?_append] at hu
  split at hu
  · exact htasks j u hu
  · obtain ⟨target, -, rfl⟩ := List.mem_map.mp (List.mem_of_getElem? hu)
    trivial

theorem isolated_step (hfirst : GatesFirst P chain) (h : Step E P wf chain s s')
    (hinv : Isolated E P wf chain approved s) : Isolated E P wf chain approved s' := by
  cases h with
  | wake hact ht hready =>
      refine ⟨hinv.given, hinv.runs, fun j u hu => (hinv.tasks j u hu).frame ?_⟩
      simp [hact]
  | finish hact ht =>
      exact ⟨hinv.given, hinv.runs, tasks_put (s := s) hinv.tasks (.inr hact) trivial⟩
  | raise hact ht hr =>
      exact ⟨hinv.given, hinv.runs, tasks_put (s := s) hinv.tasks hact (raise_ok hinv ht hr)⟩
  | @refuse i t c e hact ht hp htarget hv =>
      refine ⟨hinv.given, hinv.runs, tasks_put (s := s) hinv.tasks (.inr hact) ?_⟩
      cases e with
      | paused c' p => exact absurd hv Executor.visit_fail_not_paused
      | execution e => trivial
      | unexpected what => trivial
  | invalidInput hact ht | misroute hact ht =>
      exact ⟨hinv.given, hinv.runs, tasks_put (s := s) hinv.tasks (.inr hact) trivial⟩
  | reuse hact ht | passthrough hact ht | complete hact ht =>
      exact ⟨hinv.given, hinv.runs, tasks_put (s := s) hinv.tasks (.inr hact) trivial⟩
  | mergeEmpty hact ht hp htarget hv =>
      obtain ⟨-, node, hnode, -, hfork⟩ := Executor.visit_cases hv (by simp)
      cases hfork with
      | fork _ hparallel =>
          exact ⟨hinv.given, hinv.runs, tasks_put (s := s) hinv.tasks (.inr hact)
            ⟨ofStep_mergeFrame hnode hparallel [], mergeOk []⟩⟩
  | @fork i t c targets hact ht hp htarget hv =>
      obtain ⟨-, node, hnode, -, hfork⟩ := Executor.visit_cases hv (by simp)
      cases hfork with
      | fork _ hparallel =>
          refine ⟨hinv.given, hinv.runs, fork_ok (tasks_put (s := s) hinv.tasks (.inr hact) ?_)⟩
          intro c' hc'
          have hcur := (Task.target_eq_some.mp htarget).1
          obtain rfl : c = c' := by simpa [hcur] using hc'
          exact ⟨node, hnode, hparallel⟩
  | enter hact ht hp htarget hv hvalid =>
      refine ⟨hinv.given, hinv.runs, tasks_put (s := s) hinv.tasks (.inr hact) ?_⟩
      refine ⟨visit_ofStep hv, [], rfl, (fun _ hm => by cases hm), ?_⟩
      exact Or.inr (Or.inr ⟨hact, rfl⟩)
  | @run i t f hact ht hp =>
      have hok := hinv.tasks i t ht
      simp only [PhaseOk, hp] at hok
      obtain ⟨hstep, passed, hchain, hcleared, -⟩ := hok
      rw [List.append_nil] at hchain
      refine ⟨hinv.given, ?_, tasks_put (s := s) hinv.tasks (.inr hact) hstep⟩
      intro f' hf'
      rcases List.mem_append.mp hf' with hf' | hf'
      · exact hinv.runs f' hf'
      · obtain rfl := List.mem_singleton.mp hf'
        exact ⟨hstep, hchain ▸ hcleared⟩
  | @emit i t f stage rest hact ht hp =>
      have hok := hinv.tasks i t ht
      simp only [PhaseOk, hp] at hok
      exact ⟨hinv.given, hinv.runs, tasks_put (s := s) hinv.tasks (.inr hact)
        ⟨hok.1, hok.2.emission hfirst⟩⟩
  | @hook i t f stage h rest refusal md evidence hact ht hp hother hrun =>
      have hok := hinv.tasks i t ht
      simp only [PhaseOk, hp] at hok
      refine ⟨(runHook_approved hrun).trans hinv.given, hinv.runs,
        tasks_put (s := s) hinv.tasks (.inr hact) ⟨hok.1, ?_⟩⟩
      exact hok.2.pass hact hinv.given hrun rfl
  | join hact ht hp hcur hresults =>
      have hok := hinv.tasks _ _ ht
      simp only [PhaseOk, hp] at hok
      obtain ⟨node, hnode, hparallel⟩ := hok _ hcur
      exact ⟨hinv.given, hinv.runs, tasks_put (s := s) hinv.tasks (.inr hact)
        ⟨ofStep_mergeFrame hnode hparallel _, mergeOk _⟩⟩
  | ret hact ht hp =>
      have hok := hinv.tasks _ _ ht
      simp only [PhaseOk, hp] at hok
      exact ⟨hinv.given, hinv.runs, tasks_put (s := s) hinv.tasks (.inl hact) ⟨hok, trivial⟩⟩
  | raised hact ht hp =>
      have hok := hinv.tasks _ _ ht
      simp only [PhaseOk, hp] at hok
      exact ⟨hinv.given, hinv.runs, tasks_put (s := s) hinv.tasks (.inl hact) ⟨hok, _, rfl⟩⟩
  | @emitted i t f stage rest hact ht hp =>
      have hok := hinv.tasks _ _ ht
      simp only [PhaseOk, hp] at hok
      exact ⟨hinv.given, hinv.runs, tasks_put (s := s) hinv.tasks (.inl hact)
        ⟨hok.1, hok.2.frame (by simp [hact])⟩⟩

theorem isolated_start {st : WorkflowState} {evidence : List EvidenceEntry} {payload : Payload}
    {entry : StepId} :
    Isolated E P wf chain approved (Exec.start st approved evidence payload entry) := by
  refine ⟨rfl, (fun f hf => by cases hf), fun j u hu => ?_⟩
  obtain rfl := List.mem_singleton.mp (List.mem_of_getElem? hu)
  trivial

theorem isolated_run {resume : Option WorkflowState} {evidence : List EvidenceEntry}
    {input : Payload} {s₀ : Exec} {es : List Event} (hfirst : GatesFirst P chain)
    (hstart : execute wf resume approved evidence input = .ok s₀)
    (hrun : (machine E P wf chain).run s₀ es = some s) : Isolated E P wf chain approved s := by
  obtain ⟨entry, rfl, -⟩ := execute_ok hstart
  refine Machine.invariant_of_step _ (I := Isolated E P wf chain approved) ?_ isolated_start hrun
  intro s e s' hinv hstep
  exact isolated_step hfirst (step_cases hstep) hinv

theorem gatedBy_hook {f : Frame} {h : Hook} {p : Pause} (hgates : HasGates chain)
    (hgate : GatedBy P f h p) : h ∈ chain := by
  cases hgate with
  | hitl => exact hgates.1
  | hitlGate => exact hgates.2.1
  | connectorPolicy => exact hgates.2.2

theorem approval_isolation {resume : Option WorkflowState} {evidence : List EvidenceEntry}
    {input : Payload} {s₀ : Exec} {es : List Event}
    (hchain : chain = backendChain ∨ ∃ scope budget emit, chain = engineChain scope budget emit)
    (hstart : execute wf resume approved evidence input = .ok s₀)
    (hrun : (machine E P wf chain).run s₀ es = some s) :
    (∀ f ∈ s.runs, OfStep E wf f ∧ ∀ h p, GatedBy P f h p → f.stepId ∈ approved) ∧
      ∀ i c p, s.failure? i = some (.paused c p) →
        ∃ f h, OfStep E wf f ∧ f.stepId = c ∧ GatedBy P f h p ∧ c ∉ approved := by
  have hfirst : GatesFirst P chain := by
    rcases hchain with rfl | ⟨scope, budget, emit, rfl⟩
    · exact gatesFirst_backendChain P
    · exact gatesFirst_engineChain P scope budget emit
  have hgates : HasGates chain := by
    rcases hchain with rfl | ⟨scope, budget, emit, rfl⟩
    · exact hasGates_backendChain
    · exact hasGates_engineChain scope budget emit
  have hinv := isolated_run hfirst hstart hrun
  constructor
  · intro f hf
    obtain ⟨hstep, hcleared⟩ := hinv.runs f hf
    exact ⟨hstep, fun h p hgate => hcleared h (gatedBy_hook hgates hgate) p hgate⟩
  · intro i c p hfail
    unfold Exec.failure? Exec.phase? at hfail
    split at hfail
    · next e hphase =>
        cases hfail
        obtain ⟨t, ht, hphase⟩ := Option.map_eq_some_iff.mp hphase
        have hok := hinv.tasks i t ht
        simp only [PhaseOk, hphase] at hok
        exact hok
    · cases hfail

namespace TwoGates

def engine : Engine where
  registry := fun _ => none
  evaluateCondition := fun _ _ => .error "no condition"
  renderTemplate := fun text _ => .ok text
  str := fun _ => ""
  int := fun text => if text = "0" then some 0 else if text = "1" then some 1 else none
  isBlank := fun text => text.toList.all (· = ' ')

def posture : Posture := ⟨.l4FullAuto, {}, some .green, id⟩

def workflow : Workflow where
  name := "two gates"
  nodes := [⟨"f", Compiler.parallelNodeId, "f", .empty⟩, ⟨"g", hitlGateNodeId, "g", .empty⟩,
    ⟨"h", hitlGateNodeId, "h", .empty⟩]
  edges := [⟨"f", "g", "branch.0"⟩, ⟨"f", "h", "branch.1"⟩]

def start : Exec := Exec.start (.fresh .empty) ["g"] [] (.dict .empty) "f"

-- The fork, the approved gate up to its `node.run`, then the other gate up to its pause.
def events : List Event :=
  .act none :: .wake 1 :: List.replicate 7 (.act none) ++ .wake 2 :: List.replicate 3 (.act none)

end TwoGates

theorem approval_isolation_two_gates : ∃ s,
    (machine TwoGates.engine TwoGates.posture TwoGates.workflow backendChain).run TwoGates.start
      TwoGates.events = some s ∧
    (∀ f ∈ s.runs, OfStep TwoGates.engine TwoGates.workflow f ∧
      ∀ h p, GatedBy TwoGates.posture f h p → f.stepId ∈ ["g"]) ∧
    ∀ i c p, s.failure? i = some (.paused c p) →
      ∃ f h, OfStep TwoGates.engine TwoGates.workflow f ∧ f.stepId = c ∧
        GatedBy TwoGates.posture f h p ∧ c ∉ ["g"] := by
  have hstart : execute TwoGates.workflow none ["g"] [] (.dict .empty) = .ok TwoGates.start := rfl
  have hsome : ((machine TwoGates.engine TwoGates.posture TwoGates.workflow backendChain).run
      TwoGates.start TwoGates.events).isSome = true := by decide
  obtain ⟨s, hrun⟩ := Option.isSome_iff_exists.mp hsome
  exact ⟨s, hrun, approval_isolation (Or.inl rfl) hstart hrun⟩

end EventLoop

end BTagent
