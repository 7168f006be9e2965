import BTagent.Engine.ForkOnce
import BTagent.Engine.Completion

namespace BTagent

namespace EventLoop

section Walked
variable (E : Engine) (P : Posture) (wf : Workflow) (chain : List Hook)

-- The steps that the walk `i` visits while the events happen.
def walked (i : ℕ) (s : Exec) : List Event → List StepId
  | [] => []
  | e :: es =>
      (if s.active = some i then s.visiting.toList else []) ++
        match step E P wf chain s e with
        | none => []
        | some s' => walked i s' es

def ChainEnded (s : Exec) (i : ℕ) : Prop :=
  ∃ t : Task, s.tasks[i]? = some t ∧ t.current = none ∧
    (t.phase = .head ∨ ∃ last, t.phase = .finished last)

-- The walk is about to follow the edge that the decision's output chooses.
def TakesBranch (s : Exec) (i : ℕ) (d : StepId) (branch : String) : Prop :=
  s.active = some i ∧ ∃ (t : Task) (f : Frame) (output : Dict), s.tasks[i]? = some t ∧
    t.phase = .hooks f (.after output) [] ∧ f.stepId = d ∧
    output.get? "branch" = some (.str branch)

structure BranchEnds (s₀ s₁ s₂ s₃ : Exec) (es₁ es₂ es₃ : List Event) (i : ℕ) (d n : StepId)
    (branch : String) : Prop where
  decision : ∃ node, wf.step d = some node ∧ node.nodeId = Compiler.decisionNodeId
  next : ⟨d, n, "next"⟩ ∈ wf.edges
  before : (machine E P wf chain).run s₀ es₁ = some s₁
  takes : TakesBranch s₁ i d branch
  notNext : branch ≠ "next"
  along : (machine E P wf chain).run s₁ es₂ = some s₂
  ends : ChainEnded s₂ i
  after : (machine E P wf chain).run s₂ es₃ = some s₃

end Walked

variable {E : Engine} {P : Posture} {wf : Workflow} {chain : List Hook} {s s' : Exec} {e : Event}
  {es fs : List Event} {i : ℕ}

theorem walked_append (h : (machine E P wf chain).run s es = some s') :
    walked E P wf chain i s (es ++ fs) =
      walked E P wf chain i s es ++ walked E P wf chain i s' fs := by
  induction es generalizing s with
  | nil =>
      cases h
      rfl
  | cons e es ih =>
      obtain ⟨u, hu, hrun⟩ := (machine E P wf chain).run_cons.mp h
      have hstep : step E P wf chain s e = some u := hu
      simp only [List.cons_append, walked, hstep, ih hrun, List.append_assoc]

theorem ChainEnded.visits_nothing (h : ChainEnded s i) (hact : s.active = some i) :
    s.visiting = none := by
  obtain ⟨t, ht, hcur, hp | ⟨last, hp⟩⟩ := h
  · have htarget : t.target = none := by
      unfold Task.target
      split
      · rfl
      · exact hcur
    simp [Exec.visiting, hact, ht, hp, htarget]
  · simp [Exec.visiting, hact, ht, hp]

theorem chainEnded_step (h : Step E P wf chain s s') (hend : ChainEnded s i) :
    ChainEnded s' i := by
  obtain ⟨u, hu, hcur, hphase⟩ := hend
  have hkeep : ∀ {j t'}, Moved s s' j t' → j ≠ i → ChainEnded s' i :=
    fun hmoved hne => ⟨u, hmoved.keep (Ne.symm hne) hu, hcur, hphase⟩
  have hhead : ∀ {j t c}, s.tasks[j]? = some t → t.phase = .head → t.target = some c → j ≠ i := by
    rintro j t c ht - htarget rfl
    rw [hu] at ht
    cases ht
    rw [(Task.target_eq_some.mp htarget).1] at hcur
    cases hcur
  have hpast : ∀ {j t}, s.tasks[j]? = some t → t.phase ≠ .head → t.phase.ended = none → j ≠ i := by
    rintro j t ht hp hopen rfl
    rw [hu] at ht
    cases ht
    rcases hphase with hphase | ⟨last, hphase⟩
    · exact hp hphase
    · rw [hphase] at hopen
      cases hopen
  cases h with
  | wake => exact ⟨u, hu, hcur, hphase⟩
  | @finish j t hact ht hp htarget =>
      rcases eq_or_ne j i with rfl | hne
      · rw [hu] at ht
        cases ht
        have hself := (moved_put (rfl :
          (s.put j (u.at_ (.finished u.last))).idle.tasks = _)).self hu
        exact ⟨u.at_ (.finished u.last), hself, hcur, Or.inr ⟨u.last, rfl⟩⟩
      · exact hkeep (moved_put rfl) hne
  | refuse _ ht hp htarget | invalidInput _ ht hp htarget | reuse _ ht hp htarget
  | passthrough _ ht hp htarget | mergeEmpty _ ht hp htarget | enter _ ht hp htarget =>
      exact hkeep (moved_put rfl) (hhead ht hp htarget)
  | fork _ ht hp htarget => exact hkeep ⟨_, _, _, rfl⟩ (hhead ht hp htarget)
  | run _ ht hp | complete _ ht hp | misroute _ ht hp | emit _ ht hp | hook _ ht hp | join _ ht hp
  | ret _ ht hp | raised _ ht hp | emitted _ ht hp =>
      exact hkeep (moved_put rfl) (hpast ht (by simp [hp]) (by rw [hp]; rfl))
  | raise _ ht hr =>
      refine hkeep (moved_put rfl) (hpast ht ?_ ?_)
      · cases hr with
        | hook hp | node hp | branch hp | badOutput hp | emission hp => simp [hp]
      · cases hr with
        | hook hp | node hp | branch hp | badOutput hp | emission hp => rw [hp]; rfl

theorem walked_ended (hend : ChainEnded s i) : walked E P wf chain i s es = [] := by
  induction es generalizing s with
  | nil => rfl
  | cons e es ih =>
      have hnone : (if s.active = some i then s.visiting.toList else []) = [] := by
        split
        · next hact => rw [hend.visits_nothing hact]; rfl
        · rfl
      rw [walked, hnone, List.nil_append]
      cases hstep : step E P wf chain s e with
      | none => rfl
      | some u => exact ih (chainEnded_step (step_cases hstep) hend)

theorem decision_next_skipped {s₀ s₁ s₂ s₃ : Exec} {es₁ es₂ es₃ : List Event} {d n : StepId}
    {branch : String} (h : BranchEnds E P wf chain s₀ s₁ s₂ s₃ es₁ es₂ es₃ i d n branch) :
    n ∉ walked E P wf chain i s₂ es₃ ∧
      (n ∈ walked E P wf chain i s₁ (es₂ ++ es₃) ↔ n ∈ walked E P wf chain i s₁ es₂) := by
  have hnone : walked E P wf chain i s₂ es₃ = [] := walked_ended h.ends
  rw [walked_append h.along, hnone, List.append_nil]
  exact ⟨List.not_mem_nil, Iff.rfl⟩

namespace Reconverging

def text : String :=
  "name: decide\ntrigger: \x7btype: manual\x7d\nsteps:\n" ++
    "- \x7bid: d, type: decision, condition: ready, true_branch: a, next_step: n\x7d\n" ++
    "- \x7bid: a, tool_name: probe\x7d\n- \x7bid: n, tool_name: probe\x7d\n"

def field (key value : String) : Yaml × Yaml := (.str key, .str value)

def document : Yaml := .map [
  field "name" "decide",
  (.str "trigger", .map [field "type" "manual"]),
  (.str "steps", .seq [
    .map [field "id" "d", field "type" "decision", field "condition" "ready",
      field "true_branch" "a", field "next_step" "n"],
    .map [field "id" "a", field "tool_name" "probe"],
    .map [field "id" "n", field "tool_name" "probe"]])]

def deps : Compiler.Deps :=
  .loading fun source => if source = text then .ok document else .error "not loaded"

def workflow : Workflow where
  name := "decide"
  nodes := [⟨"d", Compiler.decisionNodeId, "", OrderedDict.empty.set "condition" (.str "ready")⟩,
    ⟨"a", "probe", "", .empty⟩, ⟨"n", "probe", "", .empty⟩]
  edges := [⟨"d", "a", "true"⟩, ⟨"d", "n", "next"⟩]

def engine : Engine :=
  { ForkPlaybook.engine with evaluateCondition := fun _ _ => .ok (.bool true) }

def M : Machine Exec Event := machine engine ForkPlaybook.posture workflow backendChain

def start : Exec := Exec.start (.fresh .empty) [] [] (.dict .empty) "d"

def decided : Dict := (OrderedDict.empty.set "branch" (.str "true")).set "value" (.str "true")

def deciding : List Event :=
  ForkPlaybook.call ++ .ret 0 (.output decided) :: List.replicate 5 (.act none)

def branching : List Event := .act none :: ForkPlaybook.call ++ ForkPlaybook.finish 0

end Reconverging

set_option maxRecDepth 4000 in
theorem reconvergence_skipped : ∃ s,
    Compiler.compilePlaybook Reconverging.deps Reconverging.text = .ok Reconverging.workflow ∧
    execute Reconverging.workflow none [] [] (.dict .empty) = .ok Reconverging.start ∧
    Reconverging.M.run Reconverging.start
      (Reconverging.deciding ++ Reconverging.branching ++ [.act none]) = some s ∧
    s.ended = some (.ok (some .empty)) ∧ s.visits = ["d", "a"] := by
  refine ⟨_, rfl, rfl, rfl, rfl, rfl⟩

set_option maxRecDepth 4000 in
theorem decision_next_skipped_reconverging : ∃ s₁ s₂ s₃,
    BranchEnds Reconverging.engine ForkPlaybook.posture Reconverging.workflow backendChain
      Reconverging.start s₁ s₂ s₃ Reconverging.deciding Reconverging.branching [.act none] 0 "d" "n"
      "true" ∧
    "n" ∉ walked Reconverging.engine ForkPlaybook.posture Reconverging.workflow backendChain 0 s₂
      [.act none] ∧
    ("n" ∈ walked Reconverging.engine ForkPlaybook.posture Reconverging.workflow backendChain 0 s₁
        (Reconverging.branching ++ [.act none]) ↔
      "n" ∈ walked Reconverging.engine ForkPlaybook.posture Reconverging.workflow backendChain 0 s₁
        Reconverging.branching) := by
  have hends : ∃ s₁ s₂ s₃, BranchEnds Reconverging.engine ForkPlaybook.posture
      Reconverging.workflow backendChain Reconverging.start s₁ s₂ s₃ Reconverging.deciding
      Reconverging.branching [.act none] 0 "d" "n" "true" := by
    refine ⟨_, _, _, ⟨_, rfl, rfl⟩, by decide, rfl, ⟨rfl, _, _, _, rfl, rfl, rfl, rfl⟩, by decide,
      rfl, ⟨_, rfl, rfl, Or.inl rfl⟩, rfl⟩
  obtain ⟨s₁, s₂, s₃, hends⟩ := hends
  exact ⟨s₁, s₂, s₃, hends, decision_next_skipped hends⟩

end EventLoop

end BTagent
