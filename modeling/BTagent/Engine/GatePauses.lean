import BTagent.Engine.ApprovalIsolation
import BTagent.Engine.Completion
import BTagent.Engine.GateInput

namespace BTagent

namespace Task

def gathers (t : Task) : Bool :=
  match t.phase with
  | .gather _ => true
  | _ => false

def stopped (t : Task) : Bool :=
  match t.phase with
  | .hooks _ _ _ | .failed _ => true
  | _ => false

def isOver (t : Task) : Bool :=
  match t.phase with
  | .finished _ => true
  | _ => false

def hasFailed (t : Task) : Bool :=
  match t.phase with
  | .failed _ => true
  | _ => false

-- The task opened the walk `j` and has not gone on since.
def awaits (t : Task) (j : ℕ) : Bool :=
  match t.phase with
  | .gather kids => j ∈ kids
  | .failed _ => true
  | _ => false

theorem over_of_ongoing {t : Task} (h : t.phase.ended = none) : t.isOver = false := by
  unfold isOver
  split
  · next hp =>
      rw [hp] at h
      cases h
  · rfl

theorem hasFailed_of_ongoing {t : Task} (h : t.phase.ended = none) : t.hasFailed = false := by
  unfold hasFailed
  split
  · next hp =>
      rw [hp] at h
      cases h
  · rfl

end Task

namespace EventLoop
open Gates Runner

def PausedAt (c : StepId) (e : Failure) : Prop :=
  ∃ role prompt, e = .paused c (.hitlGate hitlGateNodeId role prompt)

def GateAhead (rest : List Hook) : Prop :=
  ∃ passed after, rest = passed ++ .hitlGate :: after ∧ .eventEmitter ∉ passed

theorem gateAhead_backendChain : GateAhead backendChain :=
  ⟨[.hitl], [.connectorPolicy, .ocsfNormalizer, .evidenceChain], rfl, by simp⟩

theorem gateAhead_engineChain (scope budget emit : Bool) :
    GateAhead (engineChain scope budget emit) := by
  refine ⟨(if scope then [.scope] else []) ++ [.classification, .hitl],
    [.connectorPolicy, .ocsfNormalizer, .llmRouter] ++ (if budget then [.promptBudget] else []) ++
      [.evidenceChain] ++ (if emit then [.eventEmitter] else []), ?_, ?_⟩
  · simp [engineChain]
  · cases scope <;> simp

section Conditions
variable (E : Engine) (P : Posture) (wf : Workflow) (chain : List Hook) (approved : List StepId)

def OpenGate (c : StepId) : Prop :=
  c ∉ approved ∧ ∃ node ∈ wf.step c, node.nodeId = hitlGateNodeId

instance (c : StepId) : Decidable (OpenGate wf approved c) :=
  decidable_of_iff (c ∉ approved ∧ (wf.step c).any (fun node => node.nodeId = hitlGateNodeId))
    (by simp [OpenGate, Option.any_eq_true])

-- A walk comes to a gate with an input that the gate takes; the hooks in front let it by.
def AdmitsAt (s : Exec) (t : Task) (c : StepId) (refusal : Option String) : Prop :=
  match t.phase with
  | .head => t.stopAt = some c ∨
      ∀ node ∈ wf.step c, Executor.GateReady E node t.carried s.state
  | .hooks _ _ _ => refusal = none
  | _ => True

instance (s : Exec) (t : Task) (c : StepId) (refusal : Option String) :
    Decidable (AdmitsAt E wf s t c refusal) := by
  unfold AdmitsAt
  split <;> infer_instance

def Admits (s : Exec) : Event → Prop
  | .act refusal => ∀ i ∈ s.active, ∀ t ∈ s.tasks[i]?, ∀ c ∈ t.current,
      OpenGate wf approved c → AdmitsAt E wf s t c refusal
  | _ => True

instance (s : Exec) (e : Event) : Decidable (Admits E wf approved s e) := by
  unfold Admits
  split <;> infer_instance

-- No walk fails but one that stands at a gate, or one whose branch has failed.
def OnlyGatesFail (s : Exec) (e : Event) : Prop :=
  ∀ s' ∈ step E P wf chain s e, ∀ i ∈ s'.fails, i ∈ s.fails ∨ ∀ t ∈ s.tasks[i]?,
    t.gathers = true ∨ ∃ c ∈ t.current, OpenGate wf approved c

instance (s : Exec) (e : Event) : Decidable (OnlyGatesFail E P wf chain approved s e) := by
  unfold OnlyGatesFail
  infer_instance

end Conditions

section Invariant
variable (wf : Workflow) (approved : List StepId)

-- A pass that stands in front of its gate's middleware is the one walk that can move.
def Stands (s : Exec) (i : ℕ) (f : Frame) (stage : Stage) (rest : List Hook) : Prop :=
  stage = .before ∧ GateAhead rest ∧ f.node = Executor.hitlGateNode ∧ s.active = some i ∧
    s.md.currentStepId = some f.stepId ∧ f.stepId ∈ s.visits

def Placed (s : Exec) (i : ℕ) (t : Task) : Prop :=
  match t.phase with
  | .hooks f stage rest =>
      t.current = some f.stepId ∧ (OpenGate wf approved f.stepId → Stands s i f stage rest)
  | .emitting f _ _ | .running f => t.current = some f.stepId ∧ ¬ OpenGate wf approved f.stepId
  | .gather _ => ∀ c ∈ t.current, ¬ OpenGate wf approved c
  | .failed e => (∃ c ∈ s.visits, OpenGate wf approved c ∧ PausedAt c e) ∧
      ∀ c ∈ t.current, OpenGate wf approved c → PausedAt c e
  | _ => True

structure Held (s : Exec) : Prop where
  given : s.md.approvedSteps = approved
  placed : ∀ (i : ℕ) (t : Task), s.tasks[i]? = some t → Placed wf approved s i t
  runs : ∀ f ∈ s.runs, ¬ OpenGate wf approved f.stepId
  reached : ∀ c ∈ s.visits, OpenGate wf approved c →
    ∃ (i : ℕ) (t : Task), s.tasks[i]? = some t ∧ t.current = some c ∧ t.stopped = true
  fails : ∀ i, i ∈ s.fails ↔ ∃ t : Task, s.tasks[i]? = some t ∧ t.hasFailed = true
  parents : ∀ (i : ℕ) (t : Task), s.tasks[i]? = some t → t.isOver = false → i ≠ 0 →
    ∃ (k : ℕ) (u : Task), k < i ∧ s.tasks[k]? = some u ∧ u.awaits i = true
  alone : s.forks = [] → s.tasks.length = 1

end Invariant

variable {E : Engine} {P : Posture} {wf : Workflow} {chain : List Hook} {approved : List StepId}
  {s s' : Exec} {e : Event} {i : ℕ} {t t' : Task}

theorem Placed.frame (h : Placed wf approved s i t) (hact : s.active ≠ some i)
    (hvisits : s.visits ⊆ s'.visits) : Placed wf approved s' i t := by
  unfold Placed at h ⊢
  split at h
  · refine ⟨h.1, fun hopen => ?_⟩
    exact absurd (h.2 hopen).2.2.2.1 hact
  · exact h
  · exact h
  · exact h
  · obtain ⟨⟨c, hc, hpaused⟩, hown⟩ := h
    exact ⟨⟨c, hvisits hc, hpaused⟩, hown⟩
  · trivial

-- One walk moves, the others stay as they are.
structure Advance (wf : Workflow) (approved : List StepId) (s s' : Exec) (i : ℕ) (t t' : Task) :
    Prop where
  tasks : s'.tasks = s.tasks.set i t'
  given : s'.md.approvedSteps = s.md.approvedSteps
  visits : s.visits ⊆ s'.visits
  entered : ∀ c ∈ s'.visits, c ∈ s.visits ∨ ¬ OpenGate wf approved c ∨
    t'.current = some c ∧ t'.stopped = true
  stays : ∀ c, t.current = some c → OpenGate wf approved c → t.stopped = true →
    t'.current = some c ∧ t'.stopped = true
  runs : ∀ f ∈ s'.runs, f ∈ s.runs ∨ ¬ OpenGate wf approved f.stepId
  forks : s'.forks = [] → s.forks = []
  ongoing : t.phase.ended = none
  fails : s'.fails = if t'.hasFailed then s.fails ++ [i] else s.fails
  kids : ∀ j, t.awaits j = true → t'.awaits j = true ∨
    ∀ u, s.tasks[j]? = some u → u.isOver = true

theorem Held.advance (h : Held wf approved s) (ht : s.tasks[i]? = some t)
    (hact : s.active = none ∨ s.active = some i) (hm : Advance wf approved s s' i t t')
    (hplaced : Placed wf approved s' i t') : Held wf approved s' := by
  have hlt : i < s.tasks.length := (List.getElem?_eq_some_iff.mp ht).1
  have hself : s'.tasks[i]? = some t' := by rw [hm.tasks, List.getElem?_set_self hlt]
  have hother : ∀ {j u}, j ≠ i → (s'.tasks[j]? = some u ↔ s.tasks[j]? = some u) := by
    intro j u hne
    rw [hm.tasks, List.getElem?_set_ne (Ne.symm hne)]
  constructor
  · exact hm.given.trans h.given
  · intro j u hu
    rcases eq_or_ne j i with rfl | hne
    · rw [hself] at hu
      cases hu
      exact hplaced
    · exact (h.placed j u ((hother hne).mp hu)).frame (idle_of_ne hact hne) hm.visits
  · intro f hf
    rcases hm.runs f hf with hf | hopen
    · exact h.runs f hf
    · exact hopen
  · intro c hc hopen
    rcases hm.entered c hc with hold | hshut | hnew
    · obtain ⟨j, u, hu, hcur, hstop⟩ := h.reached c hold hopen
      rcases eq_or_ne j i with rfl | hne
      · rw [ht] at hu
        cases hu
        exact ⟨j, t', hself, hm.stays c hcur hopen hstop⟩
      · exact ⟨j, u, (hother hne).mpr hu, hcur, hstop⟩
    · exact absurd hopen hshut
    · exact ⟨i, t', hself, hnew⟩
  · intro j
    rw [hm.fails]
    rcases eq_or_ne j i with rfl | hne
    · have hold : j ∉ s.fails := by
        intro hj
        obtain ⟨u, hu, hfailed⟩ := (h.fails j).mp hj
        rw [ht] at hu
        cases hu
        rw [Task.hasFailed_of_ongoing hm.ongoing] at hfailed
        cases hfailed
      split
      · next hfailed => exact ⟨fun _ => ⟨t', hself, hfailed⟩, fun _ => by simp⟩
      · next hfailed =>
          refine ⟨fun hj => absurd hj hold, ?_⟩
          rintro ⟨u, hu, hu'⟩
          rw [hself] at hu
          cases hu
          exact absurd hu' hfailed
    · have hmem : (j ∈ if t'.hasFailed = true then s.fails ++ [i] else s.fails) ↔
          j ∈ s.fails := by
        split <;> simp [hne]
      rw [hmem, h.fails j]
      simp only [hother hne]
  · intro j u hu hover hj
    have hold : ∃ v, s.tasks[j]? = some v ∧ v.isOver = false := by
      rcases eq_or_ne j i with rfl | hne
      · exact ⟨t, ht, Task.over_of_ongoing hm.ongoing⟩
      · exact ⟨u, (hother hne).mp hu, hover⟩
    obtain ⟨v, hv, hvover⟩ := hold
    obtain ⟨k, w, hk, hw, hawaits⟩ := h.parents j v hv hvover hj
    rcases eq_or_ne k i with rfl | hne
    · rw [ht] at hw
      cases hw
      rcases hm.kids j hawaits with hkeep | hdone
      · exact ⟨k, t', hk, hself, hkeep⟩
      · rw [hdone v hv] at hvover
        cases hvover
    · exact ⟨k, w, hk, (hother hne).mpr hw, hawaits⟩
  · intro hforks
    rw [hm.tasks, List.length_set]
    exact h.alone (hm.forks hforks)

section Gate
variable {f : Frame} {h : Hook} {rest : List Hook} {md : Metadata} {evidence : List EvidenceEntry}

theorem gate_passes (hnode : f.node = Executor.hitlGateNode) (hh : h ≠ .hitlGate) :
    runHook P h f none md evidence .before = .ok (md, evidence) := by
  have hbefore : beforeRun P h f none md = .ok md := by
    cases h with
    | hitl => simp [beforeRun, hitlBefore, hnode, Executor.hitlGateNode, raiseIf]
    | hitlGate => exact absurd rfl hh
    | connectorPolicy => simp [beforeRun, connectorPolicyBefore, hnode, Executor.hitlGateNode]
    | _ => rfl
  simp only [runHook, hbefore]
  rfl

theorem gate_stops {refusal : Option String} (hnode : f.node = Executor.hitlGateNode)
    (hnot : stepIsApproved md = false) : ∃ role prompt,
      runHook P .hitlGate f refusal md evidence .before =
        .error (.pause (.hitlGate hitlGateNodeId role prompt)) := by
  have hid : f.node.id = hitlGateNodeId := by rw [hnode]; rfl
  have hpause : hitlGateBefore f.node f.input md = some _ :=
    hitlGateBefore_eq_some.mpr ⟨hid, hnot, rfl⟩
  refine ⟨textOr "senior_analyst" (f.input.get? "required_role"),
    textOr "" (f.input.get? "prompt"), ?_⟩
  simp only [runHook, beforeRun, hpause, raiseIf, Except.map, hid]

end Gate

theorem GateAhead.cons {h : Hook} {rest : List Hook} (hahead : GateAhead (h :: rest)) :
    h = .hitlGate ∨ h ≠ .hitlGate ∧ h ≠ .eventEmitter ∧ GateAhead rest := by
  obtain ⟨passed, after, heq, hnot⟩ := hahead
  cases passed with
  | nil =>
      cases heq
      exact Or.inl rfl
  | cons x passed =>
      obtain ⟨rfl, rfl⟩ := List.cons.inj heq
      by_cases hx : h = .hitlGate
      · exact Or.inl hx
      · refine Or.inr ⟨hx, fun hemit => hnot (by simp [hemit]), passed, after, rfl, ?_⟩
        exact fun hm => hnot (List.mem_cons_of_mem _ hm)

theorem GateAhead.ne_nil {rest : List Hook} (h : GateAhead rest) : rest ≠ [] := by
  obtain ⟨passed, after, rfl, -⟩ := h
  simp

-- A walk that is neither at a gate nor at a fork.
structure Free (wf : Workflow) (approved : List StepId) (t : Task) : Prop where
  ongoing : t.phase.ended = none
  childless : ∀ j, t.awaits j = false
  away : ∀ c, t.current = some c → OpenGate wf approved c → t.stopped = false

theorem Free.of_head (hp : t.phase = .head) : Free wf approved t where
  ongoing := by rw [hp]; rfl
  childless := by simp [Task.awaits, hp]
  away := by simp [Task.stopped, hp]

theorem Free.of_hooks {f : Frame} {stage : Stage} {rest : List Hook}
    (hp : t.phase = .hooks f stage rest) (hcur : t.current = some f.stepId)
    (hnot : ¬ OpenGate wf approved f.stepId) : Free wf approved t where
  ongoing := by rw [hp]; rfl
  childless := by simp [Task.awaits, hp]
  away := by
    intro c hc hopen
    rw [hcur] at hc
    cases hc
    exact absurd hopen hnot

theorem Free.of_running {f : Frame} (hp : t.phase = .running f) : Free wf approved t where
  ongoing := by rw [hp]; rfl
  childless := by simp [Task.awaits, hp]
  away := by simp [Task.stopped, hp]

theorem Free.of_emitting {f : Frame} {stage : Stage} {rest : List Hook}
    (hp : t.phase = .emitting f stage rest) : Free wf approved t where
  ongoing := by rw [hp]; rfl
  childless := by simp [Task.awaits, hp]
  away := by simp [Task.stopped, hp]

theorem Held.move (h : Held wf approved s) (ht : s.tasks[i]? = some t)
    (hact : s.active = none ∨ s.active = some i) (hfree : Free wf approved t)
    (vs ks : List StepId) (fs : List Frame) (htasks : s'.tasks = s.tasks.set i t')
    (hgiven : s'.md.approvedSteps = s.md.approvedSteps) (hfails : s'.fails = s.fails)
    (hvisits : s'.visits = s.visits ++ vs) (hforks : s'.forks = s.forks ++ ks)
    (hruns : s'.runs = s.runs ++ fs) (hunfailed : t'.hasFailed = false)
    (hvs : ∀ c ∈ vs, ¬ OpenGate wf approved c) (hfs : ∀ f ∈ fs, ¬ OpenGate wf approved f.stepId)
    (hplaced : Placed wf approved s' i t') : Held wf approved s' := by
  refine h.advance ht hact ⟨htasks, hgiven, ?_, ?_, ?_, ?_, ?_, hfree.ongoing, ?_, ?_⟩ hplaced
  · rw [hvisits]
    exact List.subset_append_left _ _
  · intro c hc
    rw [hvisits] at hc
    rcases List.mem_append.mp hc with hc | hc
    · exact Or.inl hc
    · exact Or.inr (Or.inl (hvs c hc))
  · intro c hcur hopen hstop
    rw [hfree.away c hcur hopen] at hstop
    cases hstop
  · intro f hf
    rw [hruns] at hf
    rcases List.mem_append.mp hf with hf | hf
    · exact Or.inl hf
    · exact Or.inr (hfs f hf)
  · intro hnil
    rw [hforks] at hnil
    exact (List.append_eq_nil_iff.mp hnil).1
  · rw [hunfailed, hfails]
    rfl
  · intro j hj
    rw [hfree.childless j] at hj
    cases hj

theorem Held.wake (h : Held wf approved s) (hact : s.active = none) :
    Held wf approved { s with active := some i } := by
  refine ⟨h.given, ?_, h.runs, h.reached, h.fails, h.parents, h.alone⟩
  intro j u hu
  exact (h.placed j u hu).frame (by simp [hact]) (List.Subset.refl _)

theorem visit_gate {c : StepId} (hopen : OpenGate wf approved c)
    (hready : ∀ node ∈ wf.step c, Executor.GateReady E node t.carried s.state) : ∃ valid,
      visitStep E wf chain s i t c = { s with
        visits := s.visits ++ [c]
        md := { s.md with currentStepId := some c } }.put i
          (t.at_ (.hooks ⟨c, Executor.hitlGateNode, valid⟩ .before chain)) := by
  obtain ⟨-, node, hnode, hid⟩ := hopen
  obtain ⟨input, valid, hvisit, hvalid⟩ :=
    (Executor.gate_enters_iff hnode hid).mpr (hready node hnode)
  refine ⟨valid, ?_⟩
  have henter : Executor.hitlGateNode.validate input = .ok valid := hvalid
  simp only [visitStep, hvisit, enter, henter]

theorem Held.enterGate {c : StepId} {valid : Dict} (h : Held wf approved s)
    (ht : s.tasks[i]? = some t) (hact : s.active = some i) (hp : t.phase = .head)
    (hcur : t.current = some c) (hopen : OpenGate wf approved c) (hahead : GateAhead chain)
    (hs' : s' = { s with
      visits := s.visits ++ [c]
      md := { s.md with currentStepId := some c } }.put i
        (t.at_ (.hooks ⟨c, Executor.hitlGateNode, valid⟩ .before chain))) :
    Held wf approved s' := by
  have hfree : Free wf approved t := .of_head hp
  subst hs'
  refine h.advance ht (.inr hact)
    ⟨rfl, rfl, List.subset_append_left _ _, ?_, ?_, fun f hf => Or.inl hf, id, hfree.ongoing, rfl, ?_⟩
    ⟨hcur, fun _ => ⟨rfl, hahead, rfl, hact, rfl, by simp⟩⟩
  · intro c' hc'
    rcases List.mem_append.mp hc' with hc' | hc'
    · exact Or.inl hc'
    · obtain rfl := List.mem_singleton.mp hc'
      exact Or.inr (Or.inr ⟨hcur, rfl⟩)
  · intro c' hcur' hopen' hstop
    rw [hfree.away c' hcur' hopen'] at hstop
    cases hstop
  · intro j hj
    rw [hfree.childless j] at hj
    cases hj

theorem standing_act {f : Frame} {stage : Stage} {rest : List Hook} {refusal : Option String}
    (hgiven : s.md.approvedSteps = approved) (hp : t.phase = .hooks f stage rest)
    (hopen : OpenGate wf approved f.stepId) (hstands : Stands s i f stage rest)
    (hrefusal : refusal = none) :
    (∃ h rest', rest = h :: rest' ∧ GateAhead rest' ∧ act E P wf chain s i t refusal =
        some (s.put i (t.at_ (.hooks f .before rest')))) ∨
      ∃ e, PausedAt f.stepId e ∧ act E P wf chain s i t refusal = some (s.fail i t e) := by
  obtain ⟨rfl, hahead, hnode, hact, hcur, -⟩ := hstands
  subst hrefusal
  cases rest with
  | nil => exact absurd rfl hahead.ne_nil
  | cons h rest =>
      have hact : act E P wf chain s i t none = some (callHook P s i t f .before h rest none) := by
        simp only [act, hp]
      rw [hact]
      rcases hahead.cons with rfl | ⟨hgate, hemit, hahead⟩
      · have hnot : stepIsApproved s.md = false := by
          simp [stepIsApproved, hcur, hgiven, hopen.1]
        have hstop : ∃ role prompt, runHook P .hitlGate f none s.md s.evidence .before =
            .error (.pause (.hitlGate hitlGateNodeId role prompt)) := gate_stops hnode hnot
        obtain ⟨role, prompt, hstop⟩ := hstop
        refine Or.inr ⟨_, ⟨role, prompt, rfl⟩, ?_⟩
        simp [callHook, hstop, NodeException.wrap]
      · refine Or.inl ⟨h, rest, rfl, hahead, ?_⟩
        simp only [callHook, hemit, if_false, gate_passes hnode hgate]
        rfl

theorem Held.pass {f : Frame} {stage : Stage} {rest rest' : List Hook}
    (h : Held wf approved s) (ht : s.tasks[i]? = some t) (hp : t.phase = .hooks f stage rest)
    (hcur : t.current = some f.stepId) (hstands : Stands s i f stage rest)
    (hahead : GateAhead rest') : Held wf approved (s.put i (t.at_ (.hooks f .before rest'))) := by
  obtain ⟨rfl, -, hnode, hact, hmd, hvisited⟩ := hstands
  refine h.advance ht (.inr hact)
    ⟨rfl, rfl, List.Subset.refl _, fun c hc => Or.inl hc, fun c hc _ _ => ⟨hc, rfl⟩,
      fun f hf => Or.inl hf, id, by rw [hp]; rfl, rfl, ?_⟩
    ⟨hcur, fun _ => ⟨rfl, hahead, hnode, hact, hmd, hvisited⟩⟩
  intro j hj
  simp [Task.awaits, hp] at hj

theorem Held.pause {f : Frame} {stage : Stage} {rest : List Hook} {x : Failure}
    (h : Held wf approved s) (ht : s.tasks[i]? = some t) (hp : t.phase = .hooks f stage rest)
    (hcur : t.current = some f.stepId) (hopen : OpenGate wf approved f.stepId)
    (hstands : Stands s i f stage rest) (hx : PausedAt f.stepId x) :
    Held wf approved (s.fail i t x) := by
  obtain ⟨-, -, -, hact, -, hvisited⟩ := hstands
  refine h.advance ht (.inr hact)
    ⟨rfl, rfl, List.Subset.refl _, fun c hc => Or.inl hc, fun c hc _ _ => ⟨hc, rfl⟩,
      fun f hf => Or.inl hf, id, by rw [hp]; rfl, rfl, ?_⟩
    ⟨⟨f.stepId, hvisited, hopen, hx⟩, ?_⟩
  · intro j hj
    simp [Task.awaits, hp] at hj
  · intro c hc _
    rw [Task.at_current, hcur] at hc
    cases hc
    exact hx

theorem Held.failure (h : Held wf approved s) {j : ℕ} {x : Failure}
    (hx : s.failure? j = some x) : ∃ c ∈ s.visits, OpenGate wf approved c ∧ PausedAt c x := by
  unfold Exec.failure? Exec.phase? at hx
  split at hx
  · next y hphase =>
      cases hx
      obtain ⟨u, hu, hphase⟩ := Option.map_eq_some_iff.mp hphase
      have hplaced := h.placed j u hu
      simp only [Placed, hphase] at hplaced
      exact hplaced.1
  · cases hx

theorem Held.branchFails {kids : List ℕ} {x : Failure} (h : Held wf approved s)
    (ht : s.tasks[i]? = some t) (hact : s.active = none ∨ s.active = some i)
    (hp : t.phase = .gather kids) (hx : s.gatherFailure kids = some x) :
    Held wf approved (s.fail i t x) := by
  obtain ⟨j, -, hj⟩ := Option.bind_eq_some_iff.mp hx
  have hplaced := h.placed i t ht
  simp only [Placed, hp] at hplaced
  refine h.advance ht hact
    ⟨rfl, rfl, List.Subset.refl _, fun c hc => Or.inl hc, ?_, fun f hf => Or.inl hf, id,
      by rw [hp]; rfl, rfl, fun j _ => Or.inl rfl⟩
    ⟨h.failure hj, fun c hc hopen => absurd hopen (hplaced c hc)⟩
  intro c hc hopen
  exact absurd hopen (hplaced c hc)

theorem gatherResults_over {kids : List ℕ} {results : List (Option Dict)} {j : ℕ} {u : Task}
    (hresults : s.gatherResults kids = some results) (hj : j ∈ kids) (hu : s.tasks[j]? = some u) :
    u.isOver = true := by
  have hsome : (s.result? j).isSome := Option.isSome_of_mem_mapM hresults hj
  unfold Exec.result? Exec.phase? at hsome
  rw [hu] at hsome
  unfold Task.isOver
  cases hp : u.phase <;> simp [hp] at hsome ⊢

theorem Held.join {c : StepId} {kids : List ℕ} {results : List (Option Dict)}
    (h : Held wf approved s) (ht : s.tasks[i]? = some t) (hact : s.active = some i)
    (hp : t.phase = .gather kids) (hcur : t.current = some c)
    (hresults : s.gatherResults kids = some results) :
    Held wf approved (s.put i (t.at_ (.hooks (mergeFrame c results) .before chain))) := by
  have hplaced := h.placed i t ht
  simp only [Placed, hp] at hplaced
  have hnot : ¬ OpenGate wf approved c := hplaced c hcur
  refine h.advance ht (.inr hact)
    ⟨rfl, rfl, List.Subset.refl _, fun c hc => Or.inl hc, ?_, fun f hf => Or.inl hf, id,
      by rw [hp]; rfl, rfl, ?_⟩
    ⟨hcur, fun hopen => absurd hopen hnot⟩
  · intro c hc hopen
    exact absurd hopen (hplaced c hc)
  · intro j hj
    simp only [Task.awaits, hp, decide_eq_true_eq] at hj
    exact Or.inr fun u hu => gatherResults_over hresults hj hu

theorem getElem?_fork {tasks : List Task} {branches : List Task} {t' : Task} {j : ℕ} {u : Task}
    (hu : (tasks.set i t' ++ branches)[j]? = some u) :
    (j = i ∧ u = t') ∨ (j ≠ i ∧ tasks[j]? = some u) ∨
      (∃ k < branches.length, j = tasks.length + k) ∧ u ∈ branches := by
  rw [List.getElem?_append, List.length_set] at hu
  split at hu
  · rcases Slots.getElem?_set_cases hu with hu | hu
    · exact Or.inl hu
    · exact Or.inr (Or.inl hu)
  · next hge =>
      obtain ⟨hk, -⟩ := List.getElem?_eq_some_iff.mp hu
      exact Or.inr (Or.inr ⟨⟨j - tasks.length, hk, by omega⟩, List.mem_of_getElem? hu⟩)

theorem Held.fork {c : StepId} {targets : List StepId} {stopAt : Option StepId}
    {payload : Payload} (h : Held wf approved s) (ht : s.tasks[i]? = some t)
    (hact : s.active = some i) (hp : t.phase = .head) (hcur : t.current = some c)
    (hnot : ¬ OpenGate wf approved c) :
    Held wf approved { s with
      visits := s.visits ++ [c]
      forks := s.forks ++ [c]
      tasks := s.tasks.set i (t.at_ (.gather
        ((List.range targets.length).map fun k => s.tasks.length + k))) ++
        targets.map (Task.start stopAt payload)
      active := none } := by
  have hlt : i < s.tasks.length := (List.getElem?_eq_some_iff.mp ht).1
  have hkept : ∀ {j : ℕ} {u : Task}, j ≠ i → s.tasks[j]? = some u →
      (s.tasks.set i (t.at_ (.gather ((List.range targets.length).map fun k =>
        s.tasks.length + k))) ++ targets.map (Task.start stopAt payload))[j]? = some u := by
    intro j u hne hu
    have hj : j < s.tasks.length := (List.getElem?_eq_some_iff.mp hu).1
    rw [List.getElem?_append_left (by simpa using hj), List.getElem?_set_ne (Ne.symm hne), hu]
  have hself : (s.tasks.set i (t.at_ (.gather ((List.range targets.length).map fun k =>
      s.tasks.length + k))) ++ targets.map (Task.start stopAt payload))[i]? =
        some (t.at_ (.gather ((List.range targets.length).map fun k => s.tasks.length + k))) := by
    rw [List.getElem?_append_left (by simpa using hlt), List.getElem?_set_self hlt]
  have hfree : Free wf approved t := .of_head hp
  constructor
  · exact h.given
  · intro j u hu
    rcases getElem?_fork hu with ⟨rfl, rfl⟩ | ⟨hne, hu⟩ | ⟨-, hu⟩
    · intro c' hc'
      rw [Task.at_current, hcur] at hc'
      cases hc'
      exact hnot
    · exact (h.placed j u hu).frame (by simpa [hact] using Ne.symm hne)
        (List.subset_append_left _ _)
    · obtain ⟨target, -, rfl⟩ := List.mem_map.mp hu
      trivial
  · exact h.runs
  · intro c' hc' hopen
    rcases List.mem_append.mp hc' with hc' | hc'
    · obtain ⟨j, u, hu, hcur', hstop⟩ := h.reached c' hc' hopen
      refine ⟨j, u, hkept ?_ hu, hcur', hstop⟩
      rintro rfl
      rw [ht] at hu
      cases hu
      simp [Task.stopped, hp] at hstop
    · obtain rfl := List.mem_singleton.mp hc'
      exact absurd hopen hnot
  · intro j
    rw [h.fails j]
    constructor
    · rintro ⟨u, hu, hfailed⟩
      refine ⟨u, hkept ?_ hu, hfailed⟩
      rintro rfl
      rw [ht] at hu
      cases hu
      simp [Task.hasFailed, hp] at hfailed
    · rintro ⟨u, hu, hfailed⟩
      rcases getElem?_fork hu with ⟨-, rfl⟩ | ⟨-, hu⟩ | ⟨-, hu⟩
      · cases hfailed
      · exact ⟨u, hu, hfailed⟩
      · obtain ⟨target, -, rfl⟩ := List.mem_map.mp hu
        cases hfailed
  · intro j u hu hover hj
    rcases getElem?_fork hu with ⟨rfl, -⟩ | ⟨hne, hu⟩ | ⟨⟨k, hk, rfl⟩, -⟩
    · obtain ⟨k, w, hk, hw, hawaits⟩ :=
        h.parents j t ht (Task.over_of_ongoing hfree.ongoing) hj
      exact ⟨k, w, hk, hkept hk.ne hw, hawaits⟩
    · obtain ⟨k, w, hk, hw, hawaits⟩ := h.parents j u hu hover hj
      refine ⟨k, w, hk, hkept ?_ hw, hawaits⟩
      rintro rfl
      rw [ht] at hw
      cases hw
      rw [hfree.childless j] at hawaits
      cases hawaits
    · refine ⟨i, _, by omega, hself, ?_⟩
      rw [List.length_map] at hk
      simp [Task.awaits, hk]
  · intro hforks
    simp at hforks

-- The active walk is about to visit an unapproved gate or stands in front of one.
def AtGate (wf : Workflow) (approved : List StepId) (s : Exec) : Prop :=
  ∃ (i : ℕ) (t : Task), s.active = some i ∧ s.tasks[i]? = some t ∧
    ((t.phase = .head ∧ ∃ c, t.target = some c ∧ OpenGate wf approved c) ∨
      ∃ f stage rest, t.phase = .hooks f stage rest ∧ OpenGate wf approved f.stepId)

theorem event_of_active {i : ℕ} (hact : s.active = some i)
    (hstep : step E P wf chain s e = some s') : ∃ refusal, e = .act refusal := by
  cases e with
  | act refusal => exact ⟨refusal, rfl⟩
  | wake j | ret j r | emitted j x =>
      simp only [step, hact] at hstep
      cases hstep

theorem held_step_at (hahead : GateAhead chain) (h : Held wf approved s)
    (hadmits : Admits E wf approved s e) (hat : AtGate wf approved s)
    (hstep : step E P wf chain s e = some s') : Held wf approved s' := by
  obtain ⟨i, t, hact, ht, hwhere⟩ := hat
  obtain ⟨refusal, rfl⟩ := event_of_active hact hstep
  have hmoves : act E P wf chain s i t refusal = some s' := by
    simpa only [step, hact, ht, Option.bind_some] using hstep
  rcases hwhere with ⟨hp, c, htarget, hopen⟩ | ⟨f, stage, rest, hp, hopen⟩
  · obtain ⟨hcur, hstop⟩ := Task.target_eq_some.mp htarget
    have hready : ∀ node ∈ wf.step c, Executor.GateReady E node t.carried s.state := by
      have hadmit := hadmits i hact t ht c hcur hopen
      simp only [AdmitsAt, hp] at hadmit
      exact hadmit.resolve_left hstop
    have hvisit : ∃ valid, visitStep E wf chain s i t c = _ := visit_gate hopen hready
    obtain ⟨valid, hvisit⟩ := hvisit
    simp only [act, hp, htarget, hvisit, Option.some.injEq] at hmoves
    exact h.enterGate ht hact hp hcur hopen hahead hmoves.symm
  · have hplaced := h.placed i t ht
    simp only [Placed, hp] at hplaced
    obtain ⟨hcur, hstands⟩ := hplaced
    have hrefusal : refusal = none := by
      have hadmit := hadmits i hact t ht f.stepId hcur hopen
      simpa only [AdmitsAt, hp] using hadmit
    have hone : (∃ x rest', rest = x :: rest' ∧ GateAhead rest' ∧ act E P wf chain s i t refusal =
        some (s.put i (t.at_ (.hooks f .before rest')))) ∨ ∃ x, PausedAt f.stepId x ∧
          act E P wf chain s i t refusal = some (s.fail i t x) :=
      standing_act h.given hp hopen (hstands hopen) hrefusal
    rcases hone with ⟨x, rest', -, hrest, hnext⟩ | ⟨x, hx, hnext⟩
    · rw [hnext] at hmoves
      cases hmoves
      exact h.pass ht hp hcur (hstands hopen) hrest
    · rw [hnext] at hmoves
      cases hmoves
      exact h.pause ht hp hcur hopen (hstands hopen) hx

theorem Held.blamed (h : Held wf approved s) (honly : OnlyGatesFail E P wf chain approved s e)
    (hstep : step E P wf chain s e = some s') (ht : s.tasks[i]? = some t)
    (hongoing : t.phase.ended = none) (hfails : s'.fails = s.fails ++ [i]) :
    t.gathers = true ∨ ∃ c, t.current = some c ∧ OpenGate wf approved c := by
  rcases honly s' hstep i (by simp [hfails]) with hold | hblame
  · obtain ⟨u, hu, hfailed⟩ := (h.fails i).mp hold
    rw [ht] at hu
    cases hu
    rw [Task.hasFailed_of_ongoing hongoing] at hfailed
    cases hfailed
  · rcases hblame t ht with hgathers | ⟨c, hcur, hopen⟩
    · exact Or.inl hgathers
    · exact Or.inr ⟨c, hcur, hopen⟩

section Away
variable (haway : ¬ AtGate wf approved s)
include haway

theorem shut_of_head {c : StepId} (hact : s.active = some i) (ht : s.tasks[i]? = some t)
    (hp : t.phase = .head) (htarget : t.target = some c) : ¬ OpenGate wf approved c :=
  fun hopen => haway ⟨i, t, hact, ht, Or.inl ⟨hp, c, htarget, hopen⟩⟩

theorem Held.shut_of_hooks {f : Frame} {stage : Stage} {rest : List Hook}
    (h : Held wf approved s) (ht : s.tasks[i]? = some t) (hp : t.phase = .hooks f stage rest) :
    t.current = some f.stepId ∧ ¬ OpenGate wf approved f.stepId := by
  have hplaced := h.placed i t ht
  simp only [Placed, hp] at hplaced
  refine ⟨hplaced.1, fun hopen => ?_⟩
  obtain ⟨-, -, -, hact, -⟩ := hplaced.2 hopen
  exact haway ⟨i, t, hact, ht, Or.inr ⟨f, stage, rest, hp, hopen⟩⟩

theorem Held.raise {x : Failure} (h : Held wf approved s)
    (hact : s.active = none ∨ s.active = some i) (ht : s.tasks[i]? = some t)
    (hblamed : t.gathers = true ∨ ∃ c, t.current = some c ∧ OpenGate wf approved c)
    (hr : Raise P s t x) : Held wf approved (s.fail i t x) := by
  have hplaced := h.placed i t ht
  cases hr with
  | branch hp hx => exact h.branchFails ht hact hp hx
  | hook hp | node hp =>
      obtain ⟨hcur, hnot⟩ := h.shut_of_hooks haway ht hp
      rcases hblamed with hgathers | ⟨c, hc, hopen⟩
      · simp [Task.gathers, hp] at hgathers
      · rw [hcur] at hc
        cases hc
        exact absurd hopen hnot
  | badOutput hp | emission hp =>
      simp only [Placed, hp] at hplaced
      obtain ⟨hcur, hnot⟩ := hplaced
      rcases hblamed with hgathers | ⟨c, hc, hopen⟩
      · simp [Task.gathers, hp] at hgathers
      · rw [hcur] at hc
        cases hc
        exact absurd hopen hnot

theorem held_step_away (h : Held wf approved s)
    (honly : OnlyGatesFail E P wf chain approved s e)
    (hstep : step E P wf chain s e = some s') : Held wf approved s' := by
  cases step_cases hstep with
  | wake hact ht hready => exact h.wake hact
  | @finish i t hact ht hp htarget =>
      exact h.move ht (.inr hact) (.of_head hp) [] [] [] rfl rfl rfl (by simp) (by simp) (by simp)
        rfl (by simp) (by simp) trivial
  | @raise i t x hact ht hr =>
      refine h.raise haway hact ht (h.blamed honly hstep ht ?_ rfl) hr
      cases hr with
      | hook hp | node hp | branch hp | badOutput hp | emission hp => rw [hp]; rfl
  | @refuse i t c x hact ht hp htarget hv | @invalidInput i t c _ _ _ hact ht hp htarget hv =>
      have hcur := (Task.target_eq_some.mp htarget).1
      rcases h.blamed honly hstep ht (by rw [hp]; rfl) rfl with hgathers | ⟨c', hc', hopen⟩
      · simp [Task.gathers, hp] at hgathers
      · rw [hcur] at hc'
        cases hc'
        exact absurd hopen (shut_of_head haway hact ht hp htarget)
  | @misroute i t f output x hact ht hp =>
      obtain ⟨hcur, hnot⟩ := h.shut_of_hooks haway ht hp
      rcases h.blamed honly hstep ht (by rw [hp]; rfl) rfl with hgathers | ⟨c', hc', hopen⟩
      · simp [Task.gathers, hp] at hgathers
      · rw [hcur] at hc'
        cases hc'
        exact absurd hopen hnot
  | @reuse i t c output next hact ht hp htarget hv =>
      exact h.move ht (.inr hact) (.of_head hp) [c] [] [] rfl rfl rfl rfl (by simp) (by simp) rfl
        (by simpa using shut_of_head haway hact ht hp htarget) (by simp) trivial
  | @passthrough i t c output next hact ht hp htarget hv =>
      exact h.move ht (.inr hact) (.of_head hp) [c] [] [] rfl rfl rfl rfl (by simp) (by simp) rfl
        (by simpa using shut_of_head haway hact ht hp htarget) (by simp) trivial
  | @mergeEmpty i t c hact ht hp htarget hv =>
      have hnot := shut_of_head haway hact ht hp htarget
      exact h.move ht (.inr hact) (.of_head hp) [c] [c] [] rfl rfl rfl rfl rfl (by simp) rfl
        (by simpa using hnot) (by simp)
        ⟨(Task.target_eq_some.mp htarget).1, fun hopen => absurd hopen hnot⟩
  | @fork i t c targets hact ht hp htarget hv =>
      exact h.fork ht hact hp (Task.target_eq_some.mp htarget).1
        (shut_of_head haway hact ht hp htarget)
  | @enter i t c node input valid hact ht hp htarget hv hvalid =>
      have hnot := shut_of_head haway hact ht hp htarget
      exact h.move ht (.inr hact) (.of_head hp) [c] [] [] rfl rfl rfl rfl (by simp) (by simp) rfl
        (by simpa using hnot) (by simp)
        ⟨(Task.target_eq_some.mp htarget).1, fun hopen => absurd hopen hnot⟩
  | @run i t f hact ht hp =>
      obtain ⟨hcur, hnot⟩ := h.shut_of_hooks haway ht hp
      exact h.move ht (.inr hact) (.of_hooks hp hcur hnot) [] [] [f] rfl rfl rfl (by simp) (by simp)
        rfl rfl (by simp) (by simpa using hnot) ⟨hcur, hnot⟩
  | @complete i t f output node next hact ht hp =>
      obtain ⟨hcur, hnot⟩ := h.shut_of_hooks haway ht hp
      exact h.move ht (.inr hact) (.of_hooks hp hcur hnot) [] [] [] rfl rfl rfl (by simp) (by simp)
        (by simp) rfl (by simp) (by simp) trivial
  | @emit i t f stage rest hact ht hp =>
      obtain ⟨hcur, hnot⟩ := h.shut_of_hooks haway ht hp
      exact h.move ht (.inr hact) (.of_hooks hp hcur hnot) [] [] [] rfl rfl rfl (by simp) (by simp)
        (by simp) rfl (by simp) (by simp) ⟨hcur, hnot⟩
  | @hook i t f stage x rest refusal md evidence hact ht hp hother hok =>
      obtain ⟨hcur, hnot⟩ := h.shut_of_hooks haway ht hp
      exact h.move ht (.inr hact) (.of_hooks hp hcur hnot) [] [] [] rfl (runHook_approved hok) rfl
        (by simp) (by simp) (by simp) rfl (by simp) (by simp)
        ⟨hcur, fun hopen => absurd hopen hnot⟩
  | @join i t c kids results hact ht hp hcur hresults => exact h.join ht hact hp hcur hresults
  | @ret i t f d hact ht hp =>
      have hplaced := h.placed i t ht
      simp only [Placed, hp] at hplaced
      exact h.move ht (.inl hact) (.of_running hp) [] [] [] rfl rfl rfl (by simp) (by simp)
        (by simp) rfl (by simp) (by simp) ⟨hplaced.1, fun hopen => absurd hopen hplaced.2⟩
  | @raised i t f what hact ht hp =>
      have hplaced := h.placed i t ht
      simp only [Placed, hp] at hplaced
      exact h.move ht (.inl hact) (.of_running hp) [] [] [] rfl rfl rfl (by simp) (by simp)
        (by simp) rfl (by simp) (by simp) ⟨hplaced.1, fun hopen => absurd hopen hplaced.2⟩
  | @emitted i t f stage rest hact ht hp =>
      have hplaced := h.placed i t ht
      simp only [Placed, hp] at hplaced
      exact h.move ht (.inl hact) (.of_emitting hp) [] [] [] rfl rfl rfl (by simp) (by simp)
        (by simp) rfl (by simp) (by simp) ⟨hplaced.1, fun hopen => absurd hopen hplaced.2⟩

end Away

theorem held_step (hahead : GateAhead chain) (h : Held wf approved s)
    (hadmits : Admits E wf approved s e) (honly : OnlyGatesFail E P wf chain approved s e)
    (hstep : step E P wf chain s e = some s') : Held wf approved s' := by
  by_cases hat : AtGate wf approved s
  · exact held_step_at hahead h hadmits hat hstep
  · exact held_step_away hat h honly hstep

theorem held_start {st : WorkflowState} {evidence : List EvidenceEntry} {payload : Payload}
    {entry : StepId} : Held wf approved (Exec.start st approved evidence payload entry) := by
  have hone : ∀ {j : ℕ} {u : Task},
      (Exec.start st approved evidence payload entry).tasks[j]? = some u →
        j = 0 ∧ u = Task.start none payload entry := by
    intro j u hu
    obtain ⟨hlt, hget⟩ := List.getElem?_eq_some_iff.mp hu
    have hj : j = 0 := Nat.lt_one_iff.mp hlt
    subst hj
    exact ⟨rfl, hget.symm⟩
  refine ⟨rfl, ?_, (fun f hf => by cases hf), (fun c hc => by cases hc), ?_, ?_, fun _ => rfl⟩
  · intro j u hu
    obtain ⟨-, rfl⟩ := hone hu
    trivial
  · intro j
    constructor
    · intro hj
      cases hj
    · rintro ⟨u, hu, hfailed⟩
      obtain ⟨-, rfl⟩ := hone hu
      cases hfailed
  · intro j u hu hover hj
    exact absurd (hone hu).1 hj

theorem Held.root_open (h : Held wf approved s) {i : ℕ} {t : Task} (ht : s.tasks[i]? = some t)
    (hover : t.isOver = false) : ∃ r, s.tasks[0]? = some r ∧ r.isOver = false := by
  induction i using Nat.strong_induction_on generalizing t with
  | _ i ih =>
      rcases eq_or_ne i 0 with rfl | hi
      · exact ⟨t, ht, hover⟩
      · obtain ⟨k, u, hk, hu, hawaits⟩ := h.parents i t ht hover hi
        refine ih k hk hu ?_
        unfold Task.awaits at hawaits
        unfold Task.isOver
        split at hawaits
        · next hp => rw [hp]
        · next hp => rw [hp]
        · cases hawaits

theorem gatherFailure_some {kids : List ℕ} {j : ℕ} (h : Held wf approved s) (hj : j ∈ s.fails)
    (hk : j ∈ kids) : ∃ x, s.gatherFailure kids = some x := by
  have hfind : (s.fails.find? fun i => i ∈ kids).isSome := by
    rw [List.find?_isSome]
    exact ⟨j, hj, by simpa using hk⟩
  obtain ⟨k, hk⟩ := Option.isSome_iff_exists.mp hfind
  obtain ⟨u, hu, hfailed⟩ := (h.fails k).mp (List.mem_of_find?_eq_some hk)
  unfold Task.hasFailed at hfailed
  split at hfailed
  · next x hp => exact ⟨x, by simp [Exec.gatherFailure, hk, Exec.failure?, Exec.phase?, hu, hp]⟩
  · cases hfailed

theorem Held.raises (h : Held wf approved s) {i : ℕ} {t : Task} (ht : s.tasks[i]? = some t)
    (hfailed : t.hasFailed = true) :
    (∃ r, s.tasks[0]? = some r ∧ r.hasFailed = true) ∨
      ∃ (k : ℕ) (u : Task) (kids : List ℕ) (x : Failure), s.tasks[k]? = some u ∧
        u.phase = .gather kids ∧ s.gatherFailure kids = some x := by
  induction i using Nat.strong_induction_on generalizing t with
  | _ i ih =>
      rcases eq_or_ne i 0 with rfl | hi
      · exact Or.inl ⟨t, ht, hfailed⟩
      · have hover : t.isOver = false := by
          unfold Task.hasFailed at hfailed
          unfold Task.isOver
          split at hfailed
          · next hp => rw [hp]
          · cases hfailed
        obtain ⟨k, u, hk, hu, hawaits⟩ := h.parents i t ht hover hi
        unfold Task.awaits at hawaits
        split at hawaits
        · next kids hp =>
            obtain ⟨x, hx⟩ := gatherFailure_some h ((h.fails i).mpr ⟨t, ht, hfailed⟩)
              (of_decide_eq_true hawaits)
            exact Or.inr ⟨k, u, kids, x, hu, hp, hx⟩
        · next hp => exact ih k hk hu (by simp [Task.hasFailed, hp])
        · cases hawaits

theorem standing_pauses {f : Frame} {rest : List Hook} (hgiven : s.md.approvedSteps = approved)
    (ht : s.tasks[i]? = some t) (hp : t.phase = .hooks f .before rest)
    (hopen : OpenGate wf approved f.stepId) (hstands : Stands s i f .before rest) :
    ∃ n s' x, (machine E P wf chain).run s (List.replicate n (.act none)) = some s' ∧
      s'.failure? i = some x ∧ PausedAt f.stepId x := by
  have hlt : i < s.tasks.length := (List.getElem?_eq_some_iff.mp ht).1
  induction rest generalizing s t with
  | nil => exact absurd rfl hstands.2.1.ne_nil
  | cons h rest ih =>
      have hone : (∃ x rest', h :: rest = x :: rest' ∧ GateAhead rest' ∧
          act E P wf chain s i t none = some (s.put i (t.at_ (.hooks f .before rest')))) ∨
          ∃ x, PausedAt f.stepId x ∧ act E P wf chain s i t none = some (s.fail i t x) :=
        standing_act hgiven hp hopen hstands rfl
      obtain ⟨-, -, hnode, hact, hmd, hvisited⟩ := hstands
      have hevent : ∀ {u}, act E P wf chain s i t none = some u →
          (machine E P wf chain).step s (.act none) = some u := by
        intro u hu
        simpa only [machine, step, hact, ht, Option.bind_some] using hu
      rcases hone with ⟨x, rest', heq, hahead, hnext⟩ | ⟨x, hx, hnext⟩
      · obtain ⟨rfl, rfl⟩ := List.cons.inj heq
        have hself : (s.put i (t.at_ (.hooks f .before rest))).tasks[i]? = some _ :=
          List.getElem?_set_self hlt
        obtain ⟨n, s', y, hrun, hfail, hy⟩ := ih (by exact hgiven) hself rfl
          ⟨rfl, hahead, hnode, hact, hmd, hvisited⟩ (by simpa using hlt)
        refine ⟨n + 1, s', y, ?_, hfail, hy⟩
        rw [List.replicate_succ]
        exact (machine E P wf chain).run_cons.mpr ⟨_, hevent hnext, hrun⟩
      · refine ⟨1, s.fail i t x, x, ?_, ?_, hx⟩
        · exact (machine E P wf chain).run_cons.mpr ⟨_, hevent hnext, rfl⟩
        · simp [Exec.failure?, Exec.phase?, hlt]

-- What holds of a run once it has come to the unapproved gate `c`: the gate never runs, its walk
-- comes to the pause by its own acts, and the run ends paused, at `c` where it opened no fork.
structure Pauses (E : Engine) (P : Posture) (wf : Workflow) (chain : List Hook)
    (approved : List StepId) (s : Exec) (c : StepId) : Prop where
  notRun : ∀ f ∈ s.runs, f.stepId ≠ c
  stops : ∃ n s' i x, (machine E P wf chain).run s (List.replicate n (.act none)) = some s' ∧
    s'.failure? i = some x ∧ PausedAt c x
  ends : ∀ r, s.ended = some r →
    ∃ c' ∈ s.visits, OpenGate wf approved c' ∧ ∃ x, r = .error x ∧ PausedAt c' x
  endsHere : s.forks = [] → s.active = none → ∃ x, s.ended = some (.error x) ∧ PausedAt c x
  raised : s.active = none → s.ended = none → ∃ k s' x c',
    (machine E P wf chain).run s [.wake k, .act none] = some s' ∧ s'.failure? k = some x ∧
      PausedAt c' x

theorem Held.stopped_cases (h : Held wf approved s) {c : StepId} (ht : s.tasks[i]? = some t)
    (hcur : t.current = some c) (hopen : OpenGate wf approved c) (hstop : t.stopped = true) :
    (∃ f rest, f.stepId = c ∧ t.phase = .hooks f .before rest ∧ Stands s i f .before rest) ∨
      ∃ x, t.phase = .failed x ∧ PausedAt c x := by
  have hplaced := h.placed i t ht
  unfold Task.stopped at hstop
  split at hstop
  · next f stage rest hp =>
      simp only [Placed, hp] at hplaced
      obtain ⟨hcur', hstands⟩ := hplaced
      rw [hcur] at hcur'
      cases hcur'
      have hstage : stage = .before := (hstands hopen).1
      subst hstage
      exact Or.inl ⟨f, rest, rfl, hp, hstands hopen⟩
  · next x hp =>
      simp only [Placed, hp] at hplaced
      exact Or.inr ⟨x, hp, hplaced.2 c hcur hopen⟩
  · cases hstop

theorem Held.pauses (h : Held wf approved s) {c : StepId} (hopen : OpenGate wf approved c)
    (hc : c ∈ s.visits) : Pauses E P wf chain approved s c := by
  obtain ⟨i, t, ht, hcur, hstop⟩ := h.reached c hc hopen
  have hcases := h.stopped_cases ht hcur hopen hstop
  have hover : t.isOver = false := by
    rcases hcases with ⟨f, rest, -, hp, -⟩ | ⟨x, hp, -⟩ <;> simp [Task.isOver, hp]
  have hfailed : s.active = none → ∃ x, t.phase = .failed x ∧ PausedAt c x := by
    intro hidle
    rcases hcases with ⟨f, rest, -, -, hstands⟩ | hpaused
    · have hact := hstands.2.2.2.1
      rw [hidle] at hact
      cases hact
    · exact hpaused
  obtain ⟨r, hr, hrover⟩ := h.root_open ht hover
  constructor
  · intro f hf heq
    exact h.runs f hf (heq ▸ hopen)
  · rcases hcases with ⟨f, rest, rfl, hp, hstands⟩ | ⟨x, hp, hx⟩
    · obtain ⟨n, s', x, hrun, hfail, hx⟩ := standing_pauses h.given ht hp hopen hstands
      exact ⟨n, s', i, x, hrun, hfail, hx⟩
    · exact ⟨0, s, i, x, rfl, by simp [Exec.failure?, Exec.phase?, ht, hp], hx⟩
  · intro q hq
    rw [Exec.ended_eq hr] at hq
    unfold Phase.ended at hq
    split at hq
    · next hp => simp [Task.isOver, hp] at hrover
    · next x hp =>
        cases hq
        have hfail : s.failure? 0 = some x := by simp [Exec.failure?, Exec.phase?, hr, hp]
        obtain ⟨c', hc', hopen', hx⟩ := h.failure hfail
        exact ⟨c', hc', hopen', x, rfl, hx⟩
    · cases hq
  · intro hforks hidle
    obtain ⟨x, hp, hx⟩ := hfailed hidle
    have hlt : i < s.tasks.length := (List.getElem?_eq_some_iff.mp ht).1
    rw [h.alone hforks] at hlt
    obtain rfl : i = 0 := Nat.lt_one_iff.mp hlt
    exact ⟨x, by rw [Exec.ended_eq ht, hp]; rfl, hx⟩
  · intro hidle hend
    obtain ⟨x, hp, -⟩ := hfailed hidle
    rcases h.raises ht (by simp [Task.hasFailed, hp]) with
      ⟨r', hr', hfailed'⟩ | ⟨k, u, kids, y, hu, hgather, hy⟩
    · rw [Exec.ended_eq hr'] at hend
      unfold Task.hasFailed at hfailed'
      split at hfailed'
      · next hp' =>
          rw [hp'] at hend
          cases hend
      · cases hfailed'
    · obtain ⟨j, -, hj⟩ := Option.bind_eq_some_iff.mp hy
      obtain ⟨c', -, -, hpaused⟩ := h.failure hj
      have hlt : k < s.tasks.length := (List.getElem?_eq_some_iff.mp hu).1
      have hready : s.ready u = true := by simp [Exec.ready, hgather, hy]
      refine ⟨k, Exec.fail { s with active := some k } k u y, y, c', ?_, ?_, hpaused⟩
      · refine (machine E P wf chain).run_cons.mpr ⟨{ s with active := some k }, ?_, ?_⟩
        · simp [machine, step, hidle, hu, hready]
        · refine (machine E P wf chain).run_cons.mpr ⟨_, ?_, rfl⟩
          have hgathered : Exec.gatherFailure { s with active := some k } kids = some y := hy
          simp [machine, step, hu, act, hgather, joinFork, hgathered]
      · simp [Exec.failure?, Exec.phase?, hlt]

theorem gates_pause {resume : Option WorkflowState} {evidence : List EvidenceEntry}
    {input : Payload} {s₀ : Exec} {es : List Event} (hahead : GateAhead chain)
    (hstart : execute wf resume approved evidence input = .ok s₀)
    (hrun : (machine E P wf chain).run s₀ es = some s)
    (hadmits : (machine E P wf chain).Along (Admits E wf approved) s₀ es)
    (honly : (machine E P wf chain).Along (OnlyGatesFail E P wf chain approved) s₀ es) :
    ∀ c ∈ s.visits, OpenGate wf approved c → Pauses E P wf chain approved s c := by
  obtain ⟨entry, rfl, -⟩ := execute_ok hstart
  have hheld : Held wf approved s := by
    refine (machine E P wf chain).invariant_along ?_ held_start
      (((machine E P wf chain).along_and).mpr ⟨hadmits, honly⟩) hrun
    intro s e s' hinv hg hstep
    exact held_step hahead hinv hg.1 hg.2 hstep
  intro c hc hopen
  exact hheld.pauses hopen hc

theorem gates_pause_two_gates : ∃ s,
    (machine TwoGates.engine TwoGates.posture TwoGates.workflow backendChain).run TwoGates.start
      TwoGates.events = some s ∧ "h" ∈ s.visits ∧
    Pauses TwoGates.engine TwoGates.posture TwoGates.workflow backendChain ["g"] s "h" := by
  have hstart : execute TwoGates.workflow none ["g"] [] (.dict .empty) = .ok TwoGates.start := rfl
  have hvisits : ((machine TwoGates.engine TwoGates.posture TwoGates.workflow backendChain).run
      TwoGates.start TwoGates.events).any fun s => "h" ∈ s.visits := by decide
  obtain ⟨s, hrun, hvisited⟩ := (Option.any_eq_true _ _).mp hvisits
  have hc : "h" ∈ s.visits := of_decide_eq_true hvisited
  exact ⟨s, hrun, hc, gates_pause gateAhead_backendChain hstart hrun (by decide)
    (by decide) "h" hc (by decide)⟩

namespace TimedGate

def text : String :=
  "name: gate\ntrigger: \x7btype: manual\x7d\nsteps:\n" ++
    "- \x7bid: g, type: hitl_gate, timeout_seconds: 60\x7d\n"

def document : Yaml := .map [
  (.str "name", .str "gate"),
  (.str "trigger", .map [(.str "type", .str "manual")]),
  (.str "steps", .seq [.map [(.str "id", .str "g"), (.str "type", .str "hitl_gate"),
    (.str "timeout_seconds", .int 60)]])]

def deps : Compiler.Deps :=
  .loading fun source => if source = text then .ok document else .error "not loaded"

def config : Dict :=
  ((OrderedDict.empty.set "prompt" (.str "")).set "required_role" (.str "senior_analyst")).set
    "timeout_seconds" (.int 60)

def workflow : Workflow := ⟨"gate", [⟨"g", hitlGateNodeId, "", config⟩], []⟩

def start : Exec := Exec.start (.fresh .empty) [] [] (.dict .empty) "g"

end TimedGate

theorem timed_gate_fails : ∃ s,
    Compiler.compilePlaybook TimedGate.deps TimedGate.text = .ok TimedGate.workflow ∧
    OpenGate TimedGate.workflow [] "g" ∧
    execute TimedGate.workflow none [] [] (.dict .empty) = .ok TimedGate.start ∧
    (machine TwoGates.engine TwoGates.posture TimedGate.workflow backendChain).run TimedGate.start
      [.act none] = some s ∧
    "g" ∈ s.visits ∧
    s.ended = some (.error (.execution (.runFailed "g" "HITLGateNodeInput"))) ∧
    ¬ Pauses TwoGates.engine TwoGates.posture TimedGate.workflow backendChain [] s "g" := by
  refine ⟨_, rfl, by decide, rfl, rfl, by decide, rfl, ?_⟩
  intro h
  obtain ⟨c, -, -, x, hx, role, prompt, hpaused⟩ := h.ends _ rfl
  cases hx
  cases hpaused

end EventLoop

end BTagent
