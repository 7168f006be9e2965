import BTagent.Engine.EventLoopSteps
import BTagent.Lib.Slots

namespace BTagent

def Frame.pending (f : Frame) : Stage → List StepId
  | .before => [f.stepId]
  | _ => []

-- The step a task has visited and whose `node.run` it has not called yet.
def Task.pending (t : Task) : List StepId :=
  match t.phase with
  | .hooks f stage _ => f.pending stage
  | .emitting f stage _ => f.pending stage
  | .gather _ => t.current.toList
  | _ => []

namespace Exec

def visiting (s : Exec) : Option StepId :=
  match s.active with
  | some i =>
      match s.tasks[i]? with
      | some t =>
          match t.phase with
          | .head => t.target
          | _ => none
      | none => none
  | none => none

def owed (s : Exec) : List StepId := s.tasks.flatMap Task.pending ++ s.runs.map (·.stepId)

theorem visiting_eq {s : Exec} {i : ℕ} {t : Task} {c : StepId} (hact : s.active = some i)
    (ht : s.tasks[i]? = some t) (hp : t.phase = .head) (htarget : t.target = some c) :
    s.visiting = some c := by
  simp [visiting, hact, ht, hp, htarget]

end Exec

namespace EventLoop

variable {E : Engine} {P : Posture} {wf : Workflow} {chain : List Hook} {s s' : Exec}

theorem mem_stepIds {c : StepId} {node : WorkflowNode} (h : wf.step c = some node) :
    c ∈ wf.stepIds :=
  List.mem_map.mpr ⟨node, Workflow.step_mem h, Workflow.step_stepId h⟩

theorem visit_new {c : StepId} {carried : Payload} {st : WorkflowState} {v : Executor.Visit}
    (h : Executor.visit E wf c carried st = v) (hfail : ∀ e, v ≠ .fail e)
    (hreuse : ∀ output next, v ≠ .reuse output next) : c ∈ wf.stepIds ∧ st.reused c = none := by
  obtain ⟨-, node, hnode, hid, hv⟩ := Executor.visit_cases h hfail
  refine ⟨mem_stepIds hnode, ?_⟩
  cases hv with
  | reuse => exact absurd rfl (hreuse _ _)
  | misroute | badLabel | badInput => exact absurd rfl (hfail _)
  | passthrough hr | fork hr | execute hr => exact hid ▸ hr

section Owed
variable {i : ℕ} {t t' : Task}

theorem owed_put (ht : s.tasks[i]? = some t) (hp : t'.pending.Subperm t.pending) :
    (s.put i t').owed.Subperm s.owed :=
  (List.subperm_append_right _).mpr (Slots.set_subperm Task.pending ht hp)

theorem owed_put_cons {c : StepId} (ht : s.tasks[i]? = some t)
    (hp : t'.pending.Perm (c :: t.pending)) : (s.put i t').owed.Perm (c :: s.owed) :=
  (Slots.set_cons Task.pending ht hp).append_right _

theorem pending_starts {targets : List StepId} {stopAt : Option StepId} {payload : Payload} :
    (targets.map (Task.start stopAt payload)).flatMap Task.pending = [] := by
  induction targets with
  | nil => rfl
  | cons target targets ih => simp [Task.start, Task.pending, ih]

end Owed

theorem owed_step (h : Step E P wf chain s s') :
    (s'.owed.Subperm s.owed ∧ s.visits ⊆ s'.visits) ∨
      ∃ c, s.visiting = some c ∧ c ∈ wf.stepIds ∧ s.state.reused c = none ∧
        s'.owed.Perm (c :: s.owed) ∧ s'.visits = s.visits ++ [c] := by
  cases h with
  | wake => exact Or.inl ⟨List.Subperm.refl _, List.Subset.refl _⟩
  | finish _ ht | raise _ ht | refuse _ ht | invalidInput _ ht | reuse _ ht | passthrough _ ht
  | complete _ ht | misroute _ ht =>
      refine Or.inl ⟨owed_put ht ?_, by simp⟩
      simp [Task.pending]
  | ret _ ht | raised _ ht =>
      refine Or.inl ⟨owed_put ht ?_, by simp⟩
      simp [Task.pending, Frame.pending]
  | emit _ ht hp | hook _ ht hp | emitted _ ht hp =>
      refine Or.inl ⟨owed_put ht ?_, by simp⟩
      simp only [Task.pending, hp, Task.at_phase]
      exact List.Subperm.refl _
  | join _ ht hp hcur =>
      refine Or.inl ⟨owed_put ht ?_, by simp⟩
      simp [Task.pending, Frame.pending, hp, hcur, mergeFrame]
  | mergeEmpty hact ht hp htarget hv =>
      obtain ⟨hknown, hnew⟩ := visit_new hv (by simp) (by simp)
      refine Or.inr ⟨_, Exec.visiting_eq hact ht hp htarget, hknown, hnew, ?_, rfl⟩
      refine owed_put_cons ht ?_
      simp [Task.pending, Frame.pending, hp, mergeFrame]
  | fork hact ht hp htarget hv =>
      obtain ⟨hknown, hnew⟩ := visit_new hv (by simp) (by simp)
      refine Or.inr ⟨_, Exec.visiting_eq hact ht hp htarget, hknown, hnew, ?_, rfl⟩
      have hcur := (Task.target_eq_some.mp htarget).1
      simp only [Exec.owed, List.flatMap_append, pending_starts, List.append_nil]
      refine owed_put_cons ht ?_
      simp [Task.pending, hp, hcur]
  | enter hact ht hp htarget hv =>
      obtain ⟨hknown, hnew⟩ := visit_new hv (by simp) (by simp)
      refine Or.inr ⟨_, Exec.visiting_eq hact ht hp htarget, hknown, hnew, ?_, rfl⟩
      refine owed_put_cons ht ?_
      simp [Task.pending, Frame.pending, hp]
  | @run i t f hact ht hp =>
      refine Or.inl ⟨List.Perm.subperm ?_, List.Subset.refl _⟩
      have hpending : t.pending.Perm (f.stepId :: (t.at_ (.running f)).pending) := by
        simp [Task.pending, hp, Frame.pending]
      have htasks := (Slots.unset_cons Task.pending ht hpending).append_right
        (s.runs.map (·.stepId))
      refine List.Perm.trans ?_ htasks.symm
      simp only [Exec.owed, Exec.idle_tasks, Exec.put_tasks, List.map_append, List.map_cons,
        List.map_nil, ← List.append_assoc]
      exact List.perm_append_singleton _ _

structure Distinct (wf : Workflow) (s : Exec) : Prop where
  nodup : s.owed.Nodup
  known : s.owed ⊆ wf.stepIds

theorem distinct_step (h : Step E P wf chain s s') (hnew : ∀ c ∈ s.visiting, c ∉ s.owed)
    (hd : Distinct wf s) : Distinct wf s' := by
  rcases owed_step h with ⟨hsub, -⟩ | ⟨c, hc, hknown, -, hperm, -⟩
  · obtain ⟨l, hperm, hl⟩ := id hsub
    exact ⟨hperm.nodup_iff.mp (hd.nodup.sublist hl), fun x hx => hd.known (hsub.subset hx)⟩
  · refine ⟨hperm.nodup_iff.mpr (List.nodup_cons.mpr ⟨hnew c hc, hd.nodup⟩), fun x hx => ?_⟩
    rcases List.mem_cons.mp (hperm.mem_iff.mp hx) with rfl | hx
    · exact hknown
    · exact hd.known hx

theorem owed_subset_visits_step (h : Step E P wf chain s s') (hsub : s.owed ⊆ s.visits) :
    s'.owed ⊆ s'.visits := by
  rcases owed_step h with ⟨howed, hvisits⟩ | ⟨c, -, -, -, hperm, hvisits⟩
  · exact fun x hx => hvisits (hsub (howed.subset hx))
  · rw [hvisits]
    intro x hx
    rcases List.mem_cons.mp (hperm.mem_iff.mp hx) with rfl | hx
    · simp
    · exact List.mem_append_left _ (hsub hx)

theorem runs_sublist_owed : (s.runs.map (·.stepId)).Sublist s.owed := List.sublist_append_right _ _

theorem runs_le_nodes (hd : Distinct wf s) : s.runs.length ≤ wf.nodes.length := by
  have hnodup := hd.nodup.sublist runs_sublist_owed
  have hsub : s.runs.map (·.stepId) ⊆ wf.stepIds := fun c hc => hd.known (runs_sublist_owed.subset hc)
  simpa [Workflow.stepIds] using (List.subperm_of_subset hnodup hsub).length_le

section Start
variable {st : WorkflowState} {approved : List StepId} {evidence : List EvidenceEntry}
  {payload : Payload} {entry : StepId}

theorem owed_start : (Exec.start st approved evidence payload entry).owed = [] := by
  simp [Exec.owed, Exec.start, Task.start, Task.pending]

theorem distinct_start : Distinct wf (Exec.start st approved evidence payload entry) := by
  refine ⟨?_, ?_⟩ <;> simp [owed_start]

theorem owed_subset_visits_start : (Exec.start st approved evidence payload entry).owed ⊆
    (Exec.start st approved evidence payload entry).visits := by
  simp [owed_start]

end Start

end EventLoop

end BTagent
