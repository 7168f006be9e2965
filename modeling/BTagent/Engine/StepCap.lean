import BTagent.Engine.NodeRuns

namespace BTagent

namespace EventLoop

def FirstVisit (s : Exec) (_ : Event) : Prop := ∀ c ∈ s.visiting, c ∉ s.visits

def EntersNoFork (wf : Workflow) (s : Exec) (_ : Event) : Prop :=
  ∀ c ∈ s.visiting, ∀ node ∈ wf.step c, node.nodeId ≠ Compiler.parallelNodeId

instance (s : Exec) (e : Event) : Decidable (FirstVisit s e) :=
  inferInstanceAs (Decidable (∀ c ∈ s.visiting, c ∉ s.visits))

instance (wf : Workflow) (s : Exec) (e : Event) : Decidable (EntersNoFork wf s e) :=
  inferInstanceAs (Decidable (∀ c ∈ s.visiting, ∀ node ∈ wf.step c, _))

variable {E : Engine} {P : Posture} {wf : Workflow} {chain : List Hook} {s s' : Exec}

-- Without forks there is one task, and every `node.run` it called is recorded or under way.
def stageWithin (s : Exec) (f : Frame) : Stage → Prop
  | .before => s.runs.map (·.stepId) ⊆ s.state.nodesExecuted ∧
      s.state.nodesExecuted.length < Compiler.maxSteps
  | _ => s.runs.map (·.stepId) ⊆ f.stepId :: s.state.nodesExecuted

def phaseWithin (s : Exec) : Phase → Prop
  | .head => s.runs.map (·.stepId) ⊆ s.state.nodesExecuted
  | .hooks f stage _ => stageWithin s f stage
  | .emitting f stage _ => stageWithin s f stage
  | .running f => s.runs.map (·.stepId) ⊆ f.stepId :: s.state.nodesExecuted
  | .gather _ => False
  | .finished _ => True
  | .failed _ => True

structure Sequential (s : Exec) : Prop where
  few : s.runs.length ≤ Compiler.maxSteps
  one : ∃ t, s.tasks = [t] ∧ phaseWithin s t.phase

theorem subset_record {l : List StepId} {st : WorkflowState} {c : StepId} {output : Dict}
    (h : l ⊆ c :: st.nodesExecuted) : l ⊆ (st.record c output).nodesExecuted := by
  intro x hx
  simp only [WorkflowState.record]
  split
  · next hc =>
      rcases List.mem_cons.mp (h hx) with rfl | hm
      · exact hc
      · exact hm
  · rcases List.mem_cons.mp (h hx) with rfl | hm
    · simp
    · exact List.mem_append_left _ hm

theorem slot_of_single {t t₀ : Task} {i : ℕ} (h : s.tasks = [t₀]) (ht : s.tasks[i]? = some t) :
    i = 0 ∧ t = t₀ := by
  rw [h] at ht
  cases i with
  | zero => exact ⟨rfl, by simpa using ht.symm⟩
  | succ i => simp at ht

theorem Sequential.of_set {t₀ t' : Task} (htasks : s.tasks = [t₀])
    (hset : s'.tasks = s.tasks.set 0 t') (hfew : s'.runs.length ≤ Compiler.maxSteps)
    (hwithin : phaseWithin s' t'.phase) : Sequential s' :=
  ⟨hfew, t', by rw [hset, htasks]; rfl, hwithin⟩

theorem fork_node {c : StepId} {carried : Payload} {st : WorkflowState} {targets : List StepId}
    (h : Executor.visit E wf c carried st = .fork targets) :
    ∃ node, wf.step c = some node ∧ node.nodeId = Compiler.parallelNodeId := by
  obtain ⟨-, node, hnode, -, hv⟩ := Executor.visit_cases h (by simp)
  cases hv with
  | fork _ hp => exact ⟨node, hnode, hp⟩

theorem sequential_step (h : Step E P wf chain s s') (hd : Distinct wf s)
    (hfork : ∀ c ∈ s.visiting, ∀ node ∈ wf.step c, node.nodeId ≠ Compiler.parallelNodeId)
    (hs : Sequential s) : Sequential s' := by
  obtain ⟨hfew, t₀, htasks, hwithin⟩ := hs
  cases h with
  | wake hact ht => exact ⟨hfew, t₀, htasks, hwithin⟩
  | finish hact ht | raise _ ht | refuse hact ht | invalidInput hact ht | misroute hact ht =>
      obtain ⟨rfl, rfl⟩ := slot_of_single htasks ht
      exact .of_set htasks rfl hfew trivial
  | reuse hact ht hp =>
      obtain ⟨rfl, rfl⟩ := slot_of_single htasks ht
      rw [hp] at hwithin
      exact .of_set htasks rfl hfew hwithin
  | passthrough hact ht hp =>
      obtain ⟨rfl, rfl⟩ := slot_of_single htasks ht
      rw [hp] at hwithin
      exact .of_set htasks rfl hfew
        (subset_record (List.Subset.trans hwithin (List.subset_cons_self _ _)))
  | mergeEmpty hact ht hp htarget hv | fork hact ht hp htarget hv =>
      obtain ⟨node, hnode, hparallel⟩ := fork_node hv
      exact absurd hparallel (hfork _ (Exec.visiting_eq hact ht hp htarget) node hnode)
  | enter hact ht hp htarget hv =>
      obtain ⟨rfl, rfl⟩ := slot_of_single htasks ht
      obtain ⟨hcap, -⟩ := Executor.visit_known hv (by simp)
      rw [hp] at hwithin
      exact .of_set htasks rfl hfew ⟨hwithin, hcap⟩
  | @run i t f hact ht hp =>
      obtain ⟨rfl, rfl⟩ := slot_of_single htasks ht
      rw [hp] at hwithin
      obtain ⟨hsub, hcap⟩ := hwithin
      have hlen : s.runs.length ≤ s.state.nodesExecuted.length := by
        have hnodup := hd.nodup.sublist runs_sublist_owed
        simpa using (List.subperm_of_subset hnodup hsub).length_le
      refine .of_set htasks rfl ?_ ?_
      · simp only [List.length_append, List.length_singleton]
        omega
      · simp only [phaseWithin, Task.at_phase, List.map_append, List.map_cons, List.map_nil]
        intro x hx
        rcases List.mem_append.mp hx with hx | hx
        · exact List.mem_cons_of_mem _ (hsub hx)
        · exact List.mem_singleton.mp hx ▸ List.mem_cons_self
  | complete hact ht hp =>
      obtain ⟨rfl, rfl⟩ := slot_of_single htasks ht
      rw [hp] at hwithin
      exact .of_set htasks rfl hfew (subset_record hwithin)
  | @emit i t f stage rest hact ht hp | @emitted i t f stage rest hact ht hp =>
      obtain ⟨rfl, rfl⟩ := slot_of_single htasks ht
      rw [hp] at hwithin
      cases stage <;> exact .of_set htasks rfl hfew hwithin
  | @hook i t f stage _ rest _ _ _ hact ht hp =>
      obtain ⟨rfl, rfl⟩ := slot_of_single htasks ht
      rw [hp] at hwithin
      cases stage <;> exact .of_set htasks rfl hfew hwithin
  | join hact ht hp =>
      obtain ⟨rfl, rfl⟩ := slot_of_single htasks ht
      rw [hp] at hwithin
      exact absurd hwithin id
  | ret hact ht hp | raised hact ht hp =>
      obtain ⟨rfl, rfl⟩ := slot_of_single htasks ht
      rw [hp] at hwithin
      exact .of_set htasks rfl hfew hwithin

theorem sequential_start {st : WorkflowState} {approved : List StepId}
    {evidence : List EvidenceEntry} {payload : Payload} {entry : StepId} :
    Sequential (Exec.start st approved evidence payload entry) :=
  ⟨Nat.zero_le _, _, rfl, List.nil_subset _⟩

theorem distinct_run {es : List Event} (hd : Distinct wf s) (hsub : s.owed ⊆ s.visits)
    (hfirst : (machine E P wf chain).Along FirstVisit s es)
    (hrun : (machine E P wf chain).run s es = some s') : Distinct wf s' := by
  refine (Machine.invariant_along (machine E P wf chain)
    (I := fun s => Distinct wf s ∧ s.owed ⊆ s.visits) ?_ ⟨hd, hsub⟩ hfirst hrun).1
  rintro s e s' ⟨hd, hsub⟩ hfirst hstep
  have hcases := step_cases hstep
  exact ⟨distinct_step hcases (fun c hc hm => hfirst c hc (hsub hm)) hd,
    owed_subset_visits_step hcases hsub⟩

theorem sequential_run {es : List Event} (hd : Distinct wf s) (hsub : s.owed ⊆ s.visits)
    (hs : Sequential s)
    (hfirst : (machine E P wf chain).Along FirstVisit s es)
    (hforks : (machine E P wf chain).Along (EntersNoFork wf) s es)
    (hrun : (machine E P wf chain).run s es = some s') : Sequential s' := by
  have hboth := (Machine.along_and _).mpr ⟨hfirst, hforks⟩
  refine (Machine.invariant_along (machine E P wf chain)
    (I := fun s => (Distinct wf s ∧ s.owed ⊆ s.visits) ∧ Sequential s) ?_
    ⟨⟨hd, hsub⟩, hs⟩ hboth hrun).2
  rintro s e s' ⟨⟨hd, hsub⟩, hs⟩ ⟨hfirst, hforks⟩ hstep
  have hcases := step_cases hstep
  exact ⟨⟨distinct_step hcases (fun c hc hm => hfirst c hc (hsub hm)) hd,
    owed_subset_visits_step hcases hsub⟩, sequential_step hcases hd hforks hs⟩

theorem node_runs_le_maxSteps {resume : Option WorkflowState} {approved : List StepId}
    {evidence : List EvidenceEntry} {input : Payload} {s₀ : Exec} {es : List Event}
    (hstart : execute wf resume approved evidence input = .ok s₀)
    (hrun : (machine E P wf chain).run s₀ es = some s)
    (hfirst : (machine E P wf chain).Along FirstVisit s₀ es)
    (hforks : wf.nodes.length ≤ Compiler.maxSteps ∨
      (machine E P wf chain).Along (EntersNoFork wf) s₀ es) :
    s.runs.length ≤ Compiler.maxSteps := by
  obtain ⟨entry, rfl, -⟩ := execute_ok hstart
  rcases hforks with hsmall | hforks
  · exact (runs_le_nodes (distinct_run distinct_start owed_subset_visits_start hfirst hrun)).trans hsmall
  · exact (sequential_run distinct_start owed_subset_visits_start sequential_start hfirst hforks hrun).few

namespace SelfLoop

def probe : NodeClass where
  id := "probe"
  category := .data
  inputFields := []
  validate := .ok
  manifest := none
  capabilityId := none

def engine : Engine where
  registry := fun id => if id = "probe" then some probe else none
  evaluateCondition := fun _ _ => .error "no condition"
  renderTemplate := fun text _ => .ok text
  str := fun _ => ""
  int := fun _ => none
  isBlank := fun text => text.toList.all (· = ' ')

def posture : Posture := ⟨.l2Supervised, {}, some .green, id⟩

def step (id : StepId) : WorkflowNode := ⟨id, "probe", id, .empty⟩

def workflow : Workflow where
  name := "self loop"
  nodes := [step "e", step "a"]
  edges := [⟨"e", "a", "next"⟩, ⟨"a", "a", "next"⟩]

def start : Exec := Exec.start (.fresh .empty) [] [] (.dict .empty) "e"

def M : Machine Exec Event := machine engine posture workflow backendChain

def outputs : OrderedDict StepId Dict := (OrderedDict.empty.set "e" .empty).set "a" .empty

def frame (id : StepId) : Frame := ⟨id, probe, .empty⟩

-- The second and every later iteration, at any point of it.
def during (active : Option ℕ) (p : Phase) (evidence : List EvidenceEntry) (visits : List StepId)
    (runs returned : List Frame) : Exec where
  state := ⟨outputs, ["e", "a"], [], .empty⟩
  md := ⟨some "a", [], none, none, none⟩
  evidence := evidence
  tasks := [⟨some "a", .model .empty, some .empty, none, p⟩]
  active := active
  fails := []
  visits := visits
  forks := []
  runs := runs
  returned := returned

section Iteration
variable (evidence : List EvidenceEntry) (visits : List StepId) (runs returned : List Frame)

theorem run_to_node :
    M.run (during (some 0) .head evidence visits runs returned) (List.replicate 7 (.act none)) =
      some (during none (.running (frame "a")) evidence (visits ++ ["a"]) (runs ++ [frame "a"])
        returned) := rfl

theorem run_return :
    M.run (during none (.running (frame "a")) evidence visits runs returned)
      [.ret 0 (.output .empty)] =
      some (during (some 0) (.hooks (frame "a") (.after .empty) backendChain.reverse) evidence
        visits runs (returned ++ [frame "a"])) := rfl

theorem run_to_head :
    M.run (during (some 0) (.hooks (frame "a") (.after .empty) backendChain.reverse) evidence
      visits runs returned) (List.replicate 6 (.act none)) =
      some (during (some 0) .head (evidence ++ [⟨"a", "probe"⟩]) visits runs returned) := rfl

end Iteration

def iteration : List Event :=
  List.replicate 7 (.act none) ++ ([.ret 0 (.output .empty)] ++ List.replicate 6 (.act none))

theorem run_iteration (evidence : List EvidenceEntry) (visits : List StepId)
    (runs returned : List Frame) :
    M.run (during (some 0) .head evidence visits runs returned) iteration =
      some (during (some 0) .head (evidence ++ [⟨"a", "probe"⟩]) (visits ++ ["a"])
        (runs ++ [frame "a"]) (returned ++ [frame "a"])) := by
  refine M.run_append.mpr ⟨_, run_to_node _ _ _ _, ?_⟩
  exact M.run_append.mpr ⟨_, run_return _ _ _ _, run_to_head _ _ _ _⟩

theorem run_start : M.run start (iteration ++ iteration) =
    some (during (some 0) .head [⟨"e", "probe"⟩, ⟨"a", "probe"⟩] ["e", "a"]
      [frame "e", frame "a"] [frame "e", frame "a"]) := rfl

theorem run_many (n : ℕ) : ∃ es evidence visits runs returned,
    M.run start es = some (during (some 0) .head evidence visits runs returned) ∧
      n < runs.length := by
  induction n with
  | zero => exact ⟨_, _, _, _, _, run_start, by simp⟩
  | succ n ih =>
      obtain ⟨es, evidence, visits, runs, returned, hrun, hlen⟩ := ih
      refine ⟨es ++ iteration, _, _, _, _, M.run_append.mpr ⟨_, hrun, run_iteration _ _ _ _⟩, ?_⟩
      simp only [List.length_append, List.length_singleton]
      omega

end SelfLoop

theorem self_loop_exceeds_step_cap : ∃ es s,
    execute SelfLoop.workflow none [] [] (.dict .empty) = .ok SelfLoop.start ∧
      (machine SelfLoop.engine SelfLoop.posture SelfLoop.workflow backendChain).run
        SelfLoop.start es = some s ∧
      Compiler.maxSteps < s.runs.length := by
  obtain ⟨es, evidence, visits, runs, returned, hrun, hlen⟩ :=
    SelfLoop.run_many Compiler.maxSteps
  exact ⟨es, _, rfl, hrun, hlen⟩

theorem node_runs_le_maxSteps_two_iterations : ∃ s,
    SelfLoop.M.run SelfLoop.start (SelfLoop.iteration ++ SelfLoop.iteration) = some s ∧
      s.runs.length ≤ Compiler.maxSteps := by
  have hstart : execute SelfLoop.workflow none [] [] (.dict .empty) = .ok SelfLoop.start := rfl
  exact ⟨_, SelfLoop.run_start,
    node_runs_le_maxSteps hstart SelfLoop.run_start (by decide) (Or.inl (by decide))⟩

end EventLoop

end BTagent
