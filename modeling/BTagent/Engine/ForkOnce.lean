import BTagent.Engine.CompiledGraph
import BTagent.Engine.EventLoopSteps
import BTagent.Lib.Slots

namespace BTagent

namespace EventLoop

section Enters
variable (E : Engine) (wf : Workflow)

def Succ (c d : StepId) : Prop :=
  ∃ node output, wf.step c = some node ∧ Executor.route wf node output = .ok (some d)

def BranchesTo (c : StepId) (targets : List StepId) : Prop :=
  ∃ node, wf.step c = some node ∧ node.nodeId = Compiler.parallelNodeId ∧
    Executor.branchTargets E wf c = some targets

-- The steps that a walk from a step to its stop, and the branch walks it opens, can enter.
inductive Enters : Option StepId → StepId → StepId → Prop where
  | here {stop c} (hc : stop ≠ some c) : Enters stop c c
  | next {stop c d u} (hc : stop ≠ some c) (hs : Succ wf c d) (hd : Enters stop d u) :
      Enters stop c u
  | branch {stop c d u targets} (hc : stop ≠ some c) (hb : BranchesTo E wf c targets)
      (hm : d ∈ targets) (hd : Enters (Executor.joinTarget wf c) d u) : Enters stop c u

def Continues (stop : Option StepId) (c u : StepId) : Prop := ∃ d, Succ wf c d ∧ Enters E wf stop d u

structure ForksApart : Prop where
  branches : ∀ {c targets}, BranchesTo E wf c targets →
    targets.Pairwise fun a b => ∀ u, Enters E wf (Executor.joinTarget wf c) a u →
      ¬ Enters E wf (Executor.joinTarget wf c) b u
  join : ∀ {c targets d j u}, BranchesTo E wf c targets → d ∈ targets →
    Executor.joinTarget wf c = some j → Enters E wf (some j) d u → ¬ Enters E wf none j u

end Enters

variable {E : Engine} {wf : Workflow} {stop : Option StepId} {c d u : StepId}

theorem Succ.edge (h : Succ wf c d) : wf.Edge c d := by
  obtain ⟨node, output, hnode, hroute⟩ := h
  exact Workflow.step_stepId hnode ▸ Executor.route_edge hroute

theorem Enters.reach (h : Enters E wf stop c u) : Relation.ReflTransGen wf.Edge c u := by
  induction h with
  | here => exact .refl
  | next _ hs _ ih => exact .head hs.edge ih
  | branch _ hb hm _ ih =>
      obtain ⟨_, _, _, htargets⟩ := hb
      exact .head (Executor.branchTargets_edge htargets hm) ih

theorem Enters.weaken (h : Enters E wf stop c u) : Enters E wf none c u := by
  induction h with
  | here => exact .here (by simp)
  | next _ hs _ ih => exact .next (by simp) hs ih
  | branch _ hb hm hd => exact .branch (by simp) hb hm hd

theorem Enters.closed {S : List StepId} (hS : ∀ e ∈ wf.edges, e.source ∈ S → e.target ∈ S)
    (h : Enters E wf stop c u) (hc : c ∈ S) : u ∈ S := by
  have hreach := h.reach
  clear h
  induction hreach with
  | refl => exact hc
  | tail _ he ih =>
      obtain ⟨e, hm, rfl, rfl⟩ := he
      exact hS e hm ih

theorem forksApart_of_no_fork (h : ∀ n ∈ wf.nodes, n.nodeId ≠ Compiler.parallelNodeId) :
    ForksApart E wf := by
  have hnone : ∀ {c targets}, ¬ BranchesTo E wf c targets := by
    rintro c targets ⟨node, hnode, hparallel, -⟩
    exact h node (Workflow.step_mem hnode) hparallel
  exact ⟨fun hb => absurd hb hnone, fun hb => absurd hb hnone⟩

theorem forksApart_of_two {f a b : StepId} {A B : List StepId}
    (hfork : ∀ n ∈ wf.nodes, n.nodeId = Compiler.parallelNodeId → n.stepId = f)
    (htargets : Executor.branchTargets E wf f = some [a, b])
    (hjoin : Executor.joinTarget wf f = none) (ha : a ∈ A) (hb : b ∈ B)
    (hA : ∀ e ∈ wf.edges, e.source ∈ A → e.target ∈ A)
    (hB : ∀ e ∈ wf.edges, e.source ∈ B → e.target ∈ B) (hdisjoint : ∀ u ∈ A, u ∉ B) :
    ForksApart E wf := by
  have hbranches : ∀ {c targets}, BranchesTo E wf c targets → c = f ∧ targets = [a, b] := by
    rintro c targets ⟨node, hnode, hparallel, ht⟩
    obtain rfl : c = f :=
      Workflow.step_stepId hnode ▸ hfork node (Workflow.step_mem hnode) hparallel
    rw [htargets] at ht
    exact ⟨rfl, (Option.some.inj ht).symm⟩
  refine ⟨fun h => ?_, fun h _ hj => ?_⟩
  · obtain ⟨rfl, rfl⟩ := hbranches h
    simp only [List.pairwise_cons, List.mem_singleton, forall_eq, List.not_mem_nil,
      IsEmpty.forall_iff, implies_true, List.Pairwise.nil, and_true]
    intro u hua hub
    exact hdisjoint u (hua.closed hA ha) (hub.closed hB hb)
  · rw [(hbranches h).1, hjoin] at hj
    cases hj

theorem Continues.enters (hc : stop ≠ some c) (h : Continues E wf stop c u) :
    Enters E wf stop c u := by
  obtain ⟨d, hs, hd⟩ := h
  exact .next hc hs hd

theorem Continues.ne (hacyclic : wf.Acyclic) (h : Continues E wf stop c u) : u ≠ c := by
  rintro rfl
  obtain ⟨d, hs, hd⟩ := h
  exact hacyclic u (Relation.TransGen.head' hs.edge hd.reach)

theorem branch_ne {targets : List StepId} (hacyclic : wf.Acyclic) (hb : BranchesTo E wf c targets)
    (hm : d ∈ targets) (hd : Enters E wf stop d u) : u ≠ c := by
  rintro rfl
  obtain ⟨_, _, _, htargets⟩ := hb
  exact hacyclic u (Relation.TransGen.head' (Executor.branchTargets_edge htargets hm) hd.reach)

theorem Continues.of_branches {targets : List StepId} (hb : BranchesTo E wf c targets)
    (h : Continues E wf stop c u) :
    ∃ j, Executor.joinTarget wf c = some j ∧ Enters E wf stop j u := by
  obtain ⟨node, hnode, hparallel, -⟩ := hb
  obtain ⟨d, ⟨node', output, hnode', hroute⟩, hd⟩ := h
  rw [hnode] at hnode'
  cases hnode'
  have hid := Workflow.step_stepId hnode
  have hne : Compiler.parallelNodeId ≠ Compiler.decisionNodeId := by decide
  simp only [Executor.route, hparallel, hne, if_false, if_true, hid, Except.ok.injEq] at hroute
  exact ⟨d, hroute, hd⟩

section Ahead
variable (E wf)

def stageAhead (stop : Option StepId) (f : Frame) (stage : Stage) (u : StepId) : Prop :=
  match stage with
  | .before => u = f.stepId ∨ Continues E wf stop f.stepId u
  | .after _ => Continues E wf stop f.stepId u
  | .error _ => False

-- The steps whose `node.run` a task may still call, itself or in branches it has yet to open.
def Ahead (t : Task) (u : StepId) : Prop :=
  match t.phase with
  | .head => ∃ c, t.current = some c ∧ Enters E wf t.stopAt c u
  | .hooks f stage _ => stageAhead E wf t.stopAt f stage u
  | .emitting f stage _ => stageAhead E wf t.stopAt f stage u
  | .running f => Continues E wf t.stopAt f.stepId u
  | .gather _ => ∃ c, t.current = some c ∧ (u = c ∨ Continues E wf t.stopAt c u)
  | .finished _ => False
  | .failed _ => False

structure Once (s : Exec) : Prop where
  nodup : (s.runs.map (·.stepId)).Nodup
  ahead : ∀ {i : ℕ} {t : Task} {u : StepId}, s.tasks[i]? = some t → Ahead E wf t u →
    u ∉ s.runs.map (·.stepId)
  apart : ∀ {i j : ℕ} {t t' : Task} {u : StepId}, s.tasks[i]? = some t → s.tasks[j]? = some t' →
    i ≠ j → Ahead E wf t u → ¬ Ahead E wf t' u

end Ahead

variable {P : Posture} {chain : List Hook} {s s' : Exec} {i j : ℕ} {t t' : Task}

theorem Once.advance (h : Once E wf s) (ht : s.tasks[i]? = some t)
    (hless : ∀ u, Ahead E wf t' u → Ahead E wf t u) (htasks : s'.tasks = s.tasks.set i t')
    (hruns : s'.runs = s.runs) : Once E wf s' := by
  have hold : ∀ {k : ℕ} {v : Task} {u : StepId}, s'.tasks[k]? = some v → Ahead E wf v u →
      ∃ w, s.tasks[k]? = some w ∧ Ahead E wf w u := by
    intro k v u hk hu
    rw [htasks] at hk
    rcases Slots.getElem?_set_cases hk with ⟨rfl, rfl⟩ | ⟨-, hk⟩
    · exact ⟨t, ht, hless u hu⟩
    · exact ⟨v, hk, hu⟩
  refine ⟨hruns ▸ h.nodup, fun hk hu => ?_, fun hk hl hne hu hu' => ?_⟩
  · obtain ⟨w, hw, hu⟩ := hold hk hu
    exact hruns ▸ h.ahead hw hu
  · obtain ⟨w, hw, hu⟩ := hold hk hu
    obtain ⟨w', hw', hu'⟩ := hold hl hu'
    exact h.apart hw hw' hne hu hu'

theorem Once.run {f : Frame} (hacyclic : wf.Acyclic) (h : Once E wf s)
    (ht : s.tasks[i]? = some t) (hp : t.phase = .hooks f .before []) :
    Once E wf { (s.put i (t.at_ (.running f))).idle with runs := s.runs ++ [f] } := by
  have hahead : Ahead E wf t f.stepId := by
    simp only [Ahead, hp]
    exact Or.inl rfl
  have hnew : f.stepId ∉ s.runs.map (·.stepId) := h.ahead ht hahead
  have hless : ∀ u, Ahead E wf (t.at_ (.running f)) u → Ahead E wf t u ∧ u ≠ f.stepId := by
    intro u hu
    have hcont : Continues E wf t.stopAt f.stepId u := hu
    refine ⟨?_, hcont.ne hacyclic⟩
    simp only [Ahead, hp]
    exact Or.inr hcont
  have hput : Once E wf (s.put i (t.at_ (.running f))) :=
    h.advance ht (fun u hu => (hless u hu).1) rfl rfl
  refine ⟨?_, fun {k v u} hk hu => ?_, fun hk hl => hput.apart hk hl⟩
  · simp only [List.map_append, List.map_cons, List.map_nil]
    refine List.nodup_append.mpr ⟨h.nodup, List.nodup_singleton _, ?_⟩
    rintro a ha b hb rfl
    exact hnew (List.mem_singleton.mp hb ▸ ha)
  · simp only [List.map_append, List.map_cons, List.map_nil, List.mem_append,
      List.mem_singleton, not_or]
    refine ⟨hput.ahead hk hu, ?_⟩
    rcases Slots.getElem?_set_cases hk with ⟨rfl, rfl⟩ | ⟨hne, hk⟩
    · exact (hless u hu).2
    · rintro rfl
      exact h.apart hk ht hne hu hahead

theorem Once.fork {targets : List StepId} {kids : List ℕ} {branches : List Task}
    (hacyclic : wf.Acyclic) (hapart : ForksApart E wf) (h : Once E wf s)
    (ht : s.tasks[i]? = some t) (hp : t.phase = .head) (htarget : t.target = some c)
    (hb : BranchesTo E wf c targets)
    (hbranches : branches = targets.map (Task.start (Executor.joinTarget wf c) t.carried))
    (htasks : s'.tasks = s.tasks.set i (t.at_ (.gather kids)) ++ branches)
    (hruns : s'.runs = s.runs) : Once E wf s' := by
  obtain ⟨hcur, hstop⟩ := Task.target_eq_some.mp htarget
  have hwhole : ∀ u, Enters E wf t.stopAt c u → Ahead E wf t u := by
    intro u hu
    simp only [Ahead, hp]
    exact ⟨c, hcur, hu⟩
  have hparent : ∀ u, Ahead E wf (t.at_ (.gather kids)) u →
      Enters E wf t.stopAt c u ∧ (u = c ∨ Continues E wf t.stopAt c u) := by
    rintro u ⟨c', hc', hu⟩
    obtain rfl : c' = c := by simpa [hcur] using hc'.symm
    rcases hu with rfl | hu
    · exact ⟨.here hstop, Or.inl rfl⟩
    · exact ⟨hu.enters hstop, Or.inr hu⟩
  have hkid : ∀ {k : ℕ} {v : Task} {u : StepId}, branches[k]? = some v → Ahead E wf v u →
      ∃ d, targets[k]? = some d ∧ Enters E wf (Executor.joinTarget wf c) d u := by
    intro k v u hk hu
    rw [hbranches, List.getElem?_map] at hk
    obtain ⟨d, hd, rfl⟩ := Option.map_eq_some_iff.mp hk
    obtain ⟨d', hd', hu⟩ := hu
    cases hd'
    exact ⟨d, hd, hu⟩
  have hkidWhole : ∀ {d u : StepId}, d ∈ targets → Enters E wf (Executor.joinTarget wf c) d u →
      Ahead E wf t u := fun hm hu => hwhole _ (.branch hstop hb hm hu)
  have hput : Once E wf (s.put i (t.at_ (.gather kids))) :=
    h.advance ht (fun u hu => hwhole u (hparent u hu).1) rfl rfl
  have hsplit : ∀ {k : ℕ} {v : Task}, s'.tasks[k]? = some v →
      (s.put i (t.at_ (.gather kids))).tasks[k]? = some v ∨
        ∃ l, k = s.tasks.length + l ∧ branches[l]? = some v := by
    intro k v hk
    rw [htasks, List.getElem?_append] at hk
    split at hk
    · exact Or.inl hk
    · next hge =>
        rw [List.length_set] at hk hge
        exact Or.inr ⟨k - s.tasks.length, by omega, hk⟩
  have hcross : ∀ {k l : ℕ} {v w : Task} {u : StepId},
      (s.put i (t.at_ (.gather kids))).tasks[k]? = some v → branches[l]? = some w →
      Ahead E wf v u → ¬ Ahead E wf w u := by
    intro k l v w u hk hl hv hw
    obtain ⟨d, hd, hw⟩ := hkid hl hw
    have hm := List.mem_of_getElem? hd
    rcases Slots.getElem?_set_cases hk with ⟨rfl, rfl⟩ | ⟨hne, hk⟩
    · rcases (hparent u hv).2 with rfl | hcont
      · exact branch_ne hacyclic hb hm hw rfl
      · obtain ⟨j, hj, hu⟩ := hcont.of_branches hb
        exact hapart.join hb hm hj (hj ▸ hw) hu.weaken
    · exact h.apart hk ht hne hv (hkidWhole hm hw)
  refine ⟨hruns ▸ h.nodup, fun hk hu => ?_, fun {_ _ _ _ u} hk hl hne hu hu' => ?_⟩
  · rw [hruns]
    rcases hsplit hk with hk | ⟨l, -, hl⟩
    · exact hput.ahead hk hu
    · obtain ⟨d, hd, hu⟩ := hkid hl hu
      exact h.ahead ht (hkidWhole (List.mem_of_getElem? hd) hu)
  · rcases hsplit hk with hk | ⟨a, rfl, ha⟩
    · rcases hsplit hl with hl | ⟨b, -, hb'⟩
      · exact hput.apart hk hl hne hu hu'
      · exact hcross hk hb' hu hu'
    · rcases hsplit hl with hl | ⟨b, rfl, hb'⟩
      · exact hcross hl ha hu' hu
      · obtain ⟨d, hd, hu⟩ := hkid ha hu
        obtain ⟨d', hd', hu'⟩ := hkid hb' hu'
        have hpair := List.pairwise_iff_getElem.mp (hapart.branches hb)
        obtain ⟨hlt, rfl⟩ := List.getElem?_eq_some_iff.mp hd
        obtain ⟨hlt', rfl⟩ := List.getElem?_eq_some_iff.mp hd'
        rcases Nat.lt_or_gt_of_ne (fun heq : a = b => hne (by rw [heq])) with hab | hab
        · exact hpair a b hlt hlt' hab u hu hu'
        · exact hpair b a hlt' hlt hab u hu' hu

theorem once_step (hacyclic : wf.Acyclic) (hapart : ForksApart E wf)
    (h : Step E P wf chain s s') (hinv : Once E wf s) : Once E wf s' := by
  have hhead : ∀ {t : Task} {c u : StepId}, t.phase = .head → t.target = some c →
      Enters E wf t.stopAt c u → Ahead E wf t u := by
    intro t c u hp htarget hu
    simp only [Ahead, hp]
    exact ⟨c, (Task.target_eq_some.mp htarget).1, hu⟩
  cases h with
  | wake => exact ⟨hinv.nodup, hinv.ahead, hinv.apart⟩
  | finish _ ht | raise _ ht | refuse _ ht | invalidInput _ ht | misroute _ ht =>
      exact hinv.advance ht (fun u hu => absurd hu id) rfl rfl
  | reuse _ ht hp htarget hv =>
      obtain ⟨-, node, hnode, -, hvisit⟩ := Executor.visit_cases hv (by simp)
      cases hvisit with
      | reuse _ hroute =>
          refine hinv.advance ht (fun u hu => hhead hp htarget ?_) rfl rfl
          obtain ⟨d, rfl, hu⟩ := hu
          exact .next (Task.target_eq_some.mp htarget).2 ⟨node, _, hnode, hroute⟩ hu
  | passthrough _ ht hp htarget hv =>
      obtain ⟨-, node, hnode, hid, hvisit⟩ := Executor.visit_cases hv (by simp)
      cases hvisit with
      | passthrough _ hpass =>
          refine hinv.advance ht (fun u hu => hhead hp htarget ?_) rfl rfl
          obtain ⟨d, hd, hu⟩ := hu
          have hroute : Executor.route wf node .empty = .ok (some d) := by
            have hdecision : Compiler.decisionNodeId ∉ Executor.passthroughNodeIds := by decide
            have hparallel : Compiler.parallelNodeId ∉ Executor.passthroughNodeIds := by decide
            have hne : node.nodeId ≠ Compiler.decisionNodeId := fun e => hdecision (e ▸ hpass)
            have hne' : node.nodeId ≠ Compiler.parallelNodeId := fun e => hparallel (e ▸ hpass)
            simp only [Executor.route, hne, hne', if_false]
            exact congrArg _ hd
          exact .next (Task.target_eq_some.mp htarget).2 ⟨node, _, hnode, hroute⟩ hu
  | mergeEmpty _ ht hp htarget hv =>
      refine hinv.advance ht (fun u hu => hhead hp htarget ?_) rfl rfl
      have hstop := (Task.target_eq_some.mp htarget).2
      rcases hu with rfl | hu
      · exact .here hstop
      · exact hu.enters hstop
  | fork _ ht hp htarget hv =>
      obtain ⟨-, node, hnode, hid, hvisit⟩ := Executor.visit_cases hv (by simp)
      cases hvisit with
      | fork _ hparallel htargets =>
          exact hinv.fork hacyclic hapart ht hp htarget ⟨node, hnode, hparallel, hid ▸ htargets⟩
            rfl rfl rfl
  | enter _ ht hp htarget hv =>
      refine hinv.advance ht (fun u hu => hhead hp htarget ?_) rfl rfl
      have hstop := (Task.target_eq_some.mp htarget).2
      rcases hu with rfl | hu
      · exact .here hstop
      · exact hu.enters hstop
  | run _ ht hp => exact hinv.run hacyclic ht hp
  | complete _ ht hp hnode hroute =>
      refine hinv.advance ht (fun u hu => ?_) rfl rfl
      obtain ⟨d, rfl, hu⟩ := hu
      simp only [Ahead, hp]
      exact ⟨d, ⟨_, _, hnode, hroute⟩, hu⟩
  | emit _ ht hp | hook _ ht hp | emitted _ ht hp =>
      refine hinv.advance ht (fun u hu => ?_) rfl rfl
      simp only [Ahead, hp]
      exact hu
  | join _ ht hp hcur =>
      refine hinv.advance ht (fun u hu => ?_) rfl rfl
      simp only [Ahead, hp]
      exact ⟨_, hcur, hu⟩
  | ret _ ht hp =>
      refine hinv.advance ht (fun u hu => ?_) rfl rfl
      simp only [Ahead, hp]
      exact hu
  | raised _ ht =>
      exact hinv.advance ht (fun u hu => absurd hu id) rfl rfl

theorem once_start {st : WorkflowState} {approved : List StepId} {evidence : List EvidenceEntry}
    {payload : Payload} {entry : StepId} :
    Once E wf (Exec.start st approved evidence payload entry) := by
  refine ⟨List.nodup_nil, (fun _ _ hm => by cases hm), fun {i j _ _ _} hi hj hne => ?_⟩
  have hlt := (List.getElem?_eq_some_iff.mp hi).1
  have hlt' := (List.getElem?_eq_some_iff.mp hj).1
  simp only [Exec.start, List.length_singleton] at hlt hlt'
  omega

namespace ForkPlaybook

def text (branches : String) : String :=
  "name: fork\ntrigger: \x7btype: manual\x7d\nsteps:\n" ++
    "- \x7bid: f, type: parallel_fork, branches: " ++ branches ++ "\x7d\n" ++
    "- \x7bid: a, tool_name: probe\x7d\n- \x7bid: b, tool_name: probe\x7d\n" ++
    "- \x7bid: c, tool_name: probe\x7d\n"

def field (key : String) (value : Yaml) : Yaml × Yaml := (.str key, value)

def refs (ids : List StepId) : Yaml := .seq (ids.map .str)

def action (id : StepId) : Yaml := .map [field "id" (.str id), field "tool_name" (.str "probe")]

def document (branches : List (List StepId)) : Yaml := .map [
  field "name" (.str "fork"),
  field "trigger" (.map [field "type" (.str "manual")]),
  field "steps" (.seq [
    .map [field "id" (.str "f"), field "type" (.str "parallel_fork"),
      field "branches" (.seq (branches.map refs))],
    action "a", action "b", action "c"])]

def shared : List (List StepId) := [["a", "c"], ["b", "c"]]

def apart : List (List StepId) := [["a"], ["b", "c"]]

def deps : Compiler.Deps :=
  .loading fun source =>
    if source = text "[[a, c], [b, c]]" then .ok (document shared)
    else if source = text "[[a], [b, c]]" then .ok (document apart)
    else .error "not loaded"

def step (id : StepId) (type : StepType) (tool : String) (branches : List (List StepId)) :
    Compiler.CompiledStep where
  id := id
  type := type
  name := ""
  config := .empty
  nextStep := none
  onFailure := "abort"
  toolName := tool
  arguments := .empty
  timeoutSeconds := none
  condition := ""
  trueBranch := ""
  falseBranch := ""
  prompt := ""
  requiredRole := "senior_analyst"
  branches := branches

def workflow (branches : List (List StepId)) : Workflow :=
  Compiler.buildWorkflow "fork" [step "f" .parallelFork "" branches, step "a" .action "probe" [],
    step "b" .action "probe" [], step "c" .action "probe" []]

def probe : NodeClass where
  id := "probe"
  category := .data
  inputFields := []
  validate := .ok
  manifest := none
  capabilityId := none

def engine : Engine where
  registry := fun id => if id = "probe" then some probe else none
  evaluateCondition := fun _ _ => .error "no condition"
  renderTemplate := fun source _ => .ok source
  str := fun _ => ""
  int := fun source => if source = "0" then some 0 else if source = "1" then some 1 else none
  isBlank := fun source => source.toList.all (· = ' ')

def posture : Posture := ⟨.l2Supervised, {}, some .green, id⟩

def start : Exec := Exec.start (.fresh .empty) [] [] (.dict .empty) "f"

def M (branches : List (List StepId)) : Machine Exec Event :=
  machine engine posture (workflow branches) backendChain

-- Task `i` visits its step and calls `node.run`; then the call returns and the step is recorded.
def call : List Event := List.replicate 7 (.act none)

def finish (i : ℕ) : List Event := .ret i (.output .empty) :: List.replicate 6 (.act none)

def events : List Event :=
  .act none :: .wake 1 :: call ++ finish 1 ++ call ++ .wake 2 :: call ++ finish 2 ++ call

set_option maxRecDepth 4000 in
theorem compile_shared :
    Compiler.compilePlaybook deps (text "[[a, c], [b, c]]") = .ok (workflow shared) := rfl

set_option maxRecDepth 4000 in
theorem compile_apart :
    Compiler.compilePlaybook deps (text "[[a], [b, c]]") = .ok (workflow apart) := rfl

theorem run_shared :
    ((M shared).run start events).map (fun s => s.runs.map (·.stepId)) =
      some ["a", "c", "b", "c"] := by decide

def eventsApart : List Event := .act none :: .wake 2 :: call ++ finish 2 ++ call

theorem run_apart :
    ((M apart).run start eventsApart).map (fun s => s.runs.map (·.stepId)) =
      some ["b", "c"] := by decide

end ForkPlaybook

theorem ForkPlaybook.forksApart :
    ForksApart ForkPlaybook.engine (ForkPlaybook.workflow ForkPlaybook.apart) :=
  forksApart_of_two (f := "f") (a := "a") (b := "b") (A := ["a"]) (B := ["b", "c"]) (by decide)
    (by decide) (by decide) (by decide) (by decide) (by decide) (by decide) (by decide)

end EventLoop

end BTagent
