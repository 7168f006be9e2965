import BTagent.Engine.ApprovalIsolation
import BTagent.Engine.Completion
import BTagent.Engine.ForkOnce

namespace BTagent

-- The id of the capability that a pass resolves for itself.
def Frame.ownCapability (f : Frame) : Option String :=
  f.node.manifest.bind fun m => (Gates.resolveCapability m f.node f.input).map (·.id)

namespace Task

def unchecked (t : Task) : Option Frame :=
  match t.phase with
  | .hooks f .before rest | .emitting f .before rest =>
      if .connectorPolicy ∈ rest then none else some f
  | .running f => some f
  | .hooks f (.after _) rest | .emitting f (.after _) rest =>
      if .ocsfNormalizer ∈ rest then some f else none
  | _ => none

def resolving (t : Task) : Option Frame :=
  match t.phase with
  | .hooks f .before (.connectorPolicy :: _) => some f
  | _ => none

end Task

namespace EventLoop
open Gates Runner

variable {E : Engine} {P : Posture} {wf : Workflow} {chain : List Hook} {s s' : Exec} {e : Event}
  {i : ℕ} {t : Task} {f : Frame}

def Connector (f : Frame) : Prop := f.node.manifest.isSome = true

instance (f : Frame) : Decidable (Connector f) := inferInstanceAs (Decidable (_ = true))

def Shares (t : Task) (g : Frame) : Prop :=
  ∀ f ∈ t.unchecked, Connector f → f.ownCapability = g.ownCapability

instance (t : Task) (g : Frame) : Decidable (Shares t g) := by
  unfold Shares
  infer_instance

def Shared (s : Exec) (i : ℕ) (g : Frame) : Prop :=
  ∀ j < s.tasks.length, j ≠ i → ∀ u ∈ s.tasks[j]?, Shares u g

instance (s : Exec) (i : ℕ) (g : Frame) : Decidable (Shared s i g) := by
  unfold Shared
  infer_instance

-- No pass resolves its capability while a sibling with another one is between its own two hooks.
def ResolvesAlone (s : Exec) (_ : Event) : Prop :=
  ∀ i ∈ s.active, ∀ t ∈ s.tasks[i]?, ∀ g ∈ t.resolving, Connector g → Shared s i g

instance (s : Exec) (e : Event) : Decidable (ResolvesAlone s e) := by
  unfold ResolvesAlone
  infer_instance

def Provenance (s : Exec) : Prop :=
  ∀ (i : ℕ) (t : Task), s.tasks[i]? = some t → ∀ f, t.unchecked = some f → Connector f →
    s.md.capabilityId = f.ownCapability

theorem connectorPolicy_capability {refusal : Option String} {md md' : Metadata}
    (hok : beforeRun P .connectorPolicy f refusal md = .ok md') :
    md'.capabilityId = if Connector f then f.ownCapability else md.capabilityId := by
  simp only [beforeRun] at hok
  cases hm : f.node.manifest with
  | none =>
      simp only [connectorPolicyBefore, hm] at hok
      cases hok
      simp [Connector, hm]
  | some m =>
      cases hcap : resolveCapability m f.node f.input with
      | none => simp [connectorPolicyBefore, hm, hcap] at hok
      | some cap =>
          simp only [connectorPolicyBefore, hm, hcap] at hok
          split at hok
          · next hpass =>
              split at hpass
              · cases hpass
              · split at hpass
                · cases hpass
                · cases hpass
                  cases hok
                  simp [Connector, Frame.ownCapability, hm, hcap]
          · cases hok
          · cases hok

theorem hook_capability {h : Hook} {refusal : Option String} {stage : Stage} {md md' : Metadata}
    {evidence evidence' : List EvidenceEntry} (hh : stage = .before → h ≠ .connectorPolicy)
    (hok : runHook P h f refusal md evidence stage = .ok (md', evidence')) :
    md'.capabilityId = md.capabilityId := by
  cases stage with
  | before =>
      have hbefore := runHook_before_ok hok
      cases h <;> simp only [beforeRun, raiseIf, refuseIf] at hbefore
      case connectorPolicy => exact absurd rfl (hh rfl)
      all_goals
        try split at hbefore
        all_goals cases hbefore
        all_goals rfl
  | after output =>
      simp only [runHook] at hok
      cases ha : afterRun h f output refusal md evidence <;> simp_all [Except.map]
  | error x =>
      cases hok
      rfl

theorem Provenance.move {t' : Task} (h : Provenance s) (ht : s.tasks[i]? = some t)
    (hmoved : Moved s s' i t') (hmd : s'.md.capabilityId = s.md.capabilityId)
    (hkeep : ∀ f, t'.unchecked = some f → t.unchecked = some f ∨ ¬ Connector f) :
    Provenance s' := by
  intro j u hu f hf hconnector
  rw [hmd]
  obtain ⟨targets, stopAt, payload, htasks⟩ := hmoved
  rw [htasks, List.getElem?_append] at hu
  split at hu
  · rcases Slots.getElem?_set_cases hu with ⟨rfl, rfl⟩ | ⟨-, hu⟩
    · rcases hkeep f hf with hold | hnone
      · exact h j t ht f hold hconnector
      · exact absurd hconnector hnone
    · exact h j u hu f hf hconnector
  · obtain ⟨target, -, rfl⟩ := List.mem_map.mp (List.mem_of_getElem? hu)
    cases hf

theorem unchecked_enter {input : Frame} (hin : .connectorPolicy ∈ chain) :
    (t.at_ (.hooks input .before chain)).unchecked = none := by
  simp [Task.unchecked, hin]

theorem unchecked_rest {h : Hook} {rest : List Hook} {stage : Stage}
    (hp : t.phase = .hooks f stage (h :: rest)) (hh : stage = .before → h ≠ .connectorPolicy)
    {g : Frame} (hg : (t.at_ (.hooks f stage rest)).unchecked = some g) :
    t.unchecked = some g := by
  cases stage with
  | before =>
      simp only [Task.unchecked, Task.at_phase, hp] at hg ⊢
      have hne : .connectorPolicy ≠ h := Ne.symm (hh rfl)
      simpa [hne] using hg
  | after output =>
      simp only [Task.unchecked, Task.at_phase, hp] at hg ⊢
      split at hg
      · next hmem =>
          rw [if_pos (List.mem_cons_of_mem _ hmem)]
          exact hg
      · cases hg
  | error x => cases hg

theorem Provenance.resolve {rest : List Hook} {refusal : Option String} {md : Metadata}
    {evidence : List EvidenceEntry} (h : Provenance s) (hact : s.active = some i)
    (ht : s.tasks[i]? = some t) (hp : t.phase = .hooks f .before (.connectorPolicy :: rest))
    (halone : ResolvesAlone s e)
    (hok : runHook P .connectorPolicy f refusal s.md s.evidence .before = .ok (md, evidence)) :
    Provenance { s.put i (t.at_ (.hooks f .before rest)) with md := md, evidence := evidence } := by
  have hmd := connectorPolicy_capability (runHook_before_ok hok)
  have hresolving : t.resolving = some f := by simp [Task.resolving, hp]
  intro j u hu g hg hconnector
  have hu' : (s.tasks.set i (t.at_ (.hooks f .before rest)))[j]? = some u := hu
  show md.capabilityId = _
  rw [hmd]
  rcases Slots.getElem?_set_cases hu' with ⟨rfl, rfl⟩ | ⟨hne, hold⟩
  · simp only [Task.unchecked, Task.at_phase] at hg
    split at hg
    · cases hg
    · cases hg
      rw [if_pos hconnector]
  · split
    · next hown =>
        have hlt : j < s.tasks.length := (List.getElem?_eq_some_iff.mp hold).1
        have hshared := halone i hact t ht f hresolving hown j hlt hne u hold g hg hconnector
        exact hshared.symm
    · exact h j u hold g hg hconnector

theorem provenance_step (hin : .connectorPolicy ∈ chain) (halone : ResolvesAlone s e)
    (h : Step E P wf chain s s') (hinv : Provenance s) : Provenance s' := by
  cases h with
  | wake => exact hinv
  | finish _ ht hp | refuse _ ht hp | invalidInput _ ht hp | misroute _ ht hp =>
      exact hinv.move ht (moved_put rfl) rfl fun g hg => by cases hg
  | raise _ ht hr => exact hinv.move ht (moved_put rfl) rfl fun g hg => by cases hg
  | reuse _ ht hp | passthrough _ ht hp | complete _ ht hp =>
      exact hinv.move ht (moved_put rfl) rfl fun g hg => by cases hg
  | mergeEmpty _ ht hp | join _ ht hp | enter _ ht hp =>
      refine hinv.move ht (moved_put rfl) rfl fun g hg => ?_
      rw [unchecked_enter hin] at hg
      cases hg
  | fork _ ht hp => exact hinv.move ht ⟨_, _, _, rfl⟩ rfl fun g hg => by cases hg
  | run _ ht hp =>
      refine hinv.move ht (moved_put rfl) rfl fun g hg => Or.inl ?_
      simpa [Task.unchecked, hp] using hg
  | @emit i t f stage rest hact ht hp =>
      refine hinv.move ht (moved_put rfl) rfl fun g hg => Or.inl ?_
      cases stage with
      | before => simpa [Task.unchecked, hp] using hg
      | after output => simpa [Task.unchecked, hp] using hg
      | error x => cases hg
  | @hook i t f stage x rest refusal md evidence hact ht hp hother hok =>
      by_cases hpolicy : stage = .before ∧ x = .connectorPolicy
      · obtain ⟨rfl, rfl⟩ := hpolicy
        exact hinv.resolve hact ht hp halone hok
      · have hh : stage = .before → x ≠ .connectorPolicy := fun hb hx => hpolicy ⟨hb, hx⟩
        exact hinv.move ht (moved_put rfl) (hook_capability hh hok) fun g hg =>
          Or.inl (unchecked_rest hp hh hg)
  | @ret i t f d hact ht hp =>
      refine hinv.move ht (moved_put rfl) rfl fun g hg => Or.inl ?_
      simp only [Task.unchecked, Task.at_phase] at hg
      split at hg
      · simpa [Task.unchecked, hp] using hg
      · cases hg
  | raised _ ht hp => exact hinv.move ht (moved_put rfl) rfl fun g hg => by cases hg
  | @emitted i t f stage rest hact ht hp =>
      refine hinv.move ht (moved_put rfl) rfl fun g hg => Or.inl ?_
      cases stage with
      | before => simpa [Task.unchecked, hp] using hg
      | after output => simpa [Task.unchecked, hp] using hg
      | error x => cases hg

theorem capability_provenance {resume : Option WorkflowState} {approved : List StepId}
    {evidence : List EvidenceEntry} {input : Payload} {s₀ : Exec} {es : List Event}
    (hin : .connectorPolicy ∈ chain)
    (hstart : execute wf resume approved evidence input = .ok s₀)
    (hrun : (machine E P wf chain).run s₀ es = some s)
    (halone : (machine E P wf chain).Along ResolvesAlone s₀ es) {output : Dict}
    {rest : List Hook} {m : ConnectorManifest} (ht : s.tasks[i]? = some t)
    (hp : t.phase = .hooks f (.after output) (.ocsfNormalizer :: rest))
    (hm : f.node.manifest = some m) :
    s.md.capabilityId = (resolveCapability m f.node f.input).map (·.id) := by
  obtain ⟨entry, rfl, -⟩ := execute_ok hstart
  have hprovenance : Provenance s := by
    refine (machine E P wf chain).invariant_along ?_ ?_ halone hrun
    · intro s e s' hinv hg hstep
      exact provenance_step hin hg (step_cases hstep) hinv
    · intro j u hu g hg
      obtain rfl := List.mem_singleton.mp (List.mem_of_getElem? hu)
      cases hg
  have hunchecked : t.unchecked = some f := by simp [Task.unchecked, hp]
  have hown := hprovenance i t ht f hunchecked (by simp [Connector, hm])
  simpa [Frame.ownCapability, hm] using hown

namespace TwoConnectors

def capability (id : String) : Capability := ⟨id, ["process_activity"], .red, "low", false⟩

def connector (id : String) : NodeClass where
  id := id
  category := .integration
  inputFields := []
  validate := .ok
  manifest := some ⟨id, [capability (id ++ ".query")], [], []⟩
  capabilityId := none

def engine : Engine :=
  { TwoGates.engine with
    registry := fun id => if id = "alpha" ∨ id = "beta" then some (connector id) else none }

def workflow : Workflow where
  name := "two connectors"
  nodes := [⟨"f", Compiler.parallelNodeId, "f", .empty⟩, ⟨"a", "alpha", "a", .empty⟩,
    ⟨"b", "beta", "b", .empty⟩]
  edges := [⟨"f", "a", "branch.0"⟩, ⟨"f", "b", "branch.1"⟩]

def start : Exec := Exec.start (.fresh .empty) [] [] (.dict .empty) "f"

def M : Machine Exec Event := machine engine TwoGates.posture workflow backendChain

def undeclared : Dict := OrderedDict.empty.set "ocsf_event_class" (.str "dns_activity")

-- Both branches call `node.run` before the first of them returns.
def both : List Event :=
  .act none :: .wake 1 :: List.replicate 7 (.act none) ++ .wake 2 :: List.replicate 7 (.act none) ++
    [.ret 1 (.output undeclared), .act none]

-- One branch has checked its output before the other resolves its capability.
def oneByOne : List Event :=
  .act none :: .wake 1 :: List.replicate 7 (.act none) ++ [.ret 1 (.output .empty), .act none]

end TwoConnectors

-- What the normaliser of walk `i` looks at next: the pass, its output and the capability it reads.
def ocsfCheck? (s : Exec) (i : ℕ) : Option (Frame × Dict × Option String) :=
  match s.phase? i with
  | some (.hooks f (.after output) (.ocsfNormalizer :: _)) => some (f, output, s.md.capabilityId)
  | _ => none

theorem ocsfCheck?_eq_some {output : Dict} {read : Option String}
    (h : ocsfCheck? s i = some (f, output, read)) :
    ∃ t rest, s.tasks[i]? = some t ∧ t.phase = .hooks f (.after output) (.ocsfNormalizer :: rest) ∧
      s.md.capabilityId = read := by
  unfold ocsfCheck? Exec.phase? at h
  split at h
  · next rest hphase =>
      cases h
      obtain ⟨t, ht, hp⟩ := Option.map_eq_some_iff.mp hphase
      exact ⟨t, rest, ht, hp, rfl⟩
  · cases h

-- The output that the manifest forbids passes, since the sibling's capability is not in it.
theorem sibling_capability_read : ∃ s f output read,
    execute TwoConnectors.workflow none [] [] (.dict .empty) = .ok TwoConnectors.start ∧
    TwoConnectors.M.run TwoConnectors.start TwoConnectors.both = some s ∧
    ocsfCheck? s 1 = some (f, output, read) ∧
    (f.stepId = "a" ∧ f.ownCapability = some "alpha.query" ∧ read = some "beta.query" ∧
      ocsfUndeclared f.node output { s.md with capabilityId := read } = [] ∧
      ocsfUndeclared f.node output { s.md with capabilityId := f.ownCapability } =
        ["dns_activity"]) := by
  have hrun : (TwoConnectors.M.run TwoConnectors.start TwoConnectors.both).any fun s =>
      (ocsfCheck? s 1).any fun c => decide (c.1.stepId = "a" ∧
        c.1.ownCapability = some "alpha.query" ∧ c.2.2 = some "beta.query" ∧
        ocsfUndeclared c.1.node c.2.1 { s.md with capabilityId := c.2.2 } = [] ∧
        ocsfUndeclared c.1.node c.2.1 { s.md with capabilityId := c.1.ownCapability } =
          ["dns_activity"]) := by decide
  obtain ⟨s, hs, hcheck⟩ := (Option.any_eq_true _ _).mp hrun
  obtain ⟨⟨f, output, read⟩, hc, hfacts⟩ := (Option.any_eq_true _ _).mp hcheck
  exact ⟨s, f, output, read, rfl, hs, hc, of_decide_eq_true hfacts⟩

theorem capability_provenance_one_by_one : ∃ (s : Exec) (m : ConnectorManifest) (f : Frame),
    TwoConnectors.M.run TwoConnectors.start TwoConnectors.oneByOne = some s ∧
      f.node.manifest = some m ∧
      s.md.capabilityId = (resolveCapability m f.node f.input).map (·.id) := by
  have hstart : execute TwoConnectors.workflow none [] [] (.dict .empty) =
    .ok TwoConnectors.start := rfl
  have hrun : (TwoConnectors.M.run TwoConnectors.start TwoConnectors.oneByOne).any fun s =>
      (ocsfCheck? s 1).any fun c => c.1.node.manifest.isSome := by decide
  obtain ⟨s, hs, hcheck⟩ := (Option.any_eq_true _ _).mp hrun
  obtain ⟨⟨f, output, read⟩, hc, hsome⟩ := (Option.any_eq_true _ _).mp hcheck
  obtain ⟨m, hm⟩ := Option.isSome_iff_exists.mp hsome
  obtain ⟨t, rest, ht, hp, -⟩ := ocsfCheck?_eq_some hc
  have halone : TwoConnectors.M.Along ResolvesAlone TwoConnectors.start TwoConnectors.oneByOne := by
    decide
  exact ⟨s, m, f, hs, hm, capability_provenance (by decide) hstart hs halone ht hp hm⟩

end EventLoop

end BTagent
