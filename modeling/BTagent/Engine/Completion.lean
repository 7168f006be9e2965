import BTagent.Engine.NodeRuns

namespace BTagent

namespace WorkflowState

variable {st : WorkflowState} {c : StepId} {output : Dict}

-- Every step a state lists has an output, and the ones it may reuse are listed.
structure Backed (st : WorkflowState) : Prop where
  outputs : st.nodesExecuted ⊆ st.outputs.keys
  completed : st.completedSteps ⊆ st.nodesExecuted

theorem subset_record : st.nodesExecuted ⊆ (st.record c output).nodesExecuted := by
  intro x hx
  simp only [record]
  split
  · exact hx
  · exact List.mem_append_left _ hx

theorem mem_record : c ∈ (st.record c output).nodesExecuted := by
  simp only [record]
  split
  · assumption
  · simp

theorem Backed.record (h : st.Backed) : (st.record c output).Backed := by
  refine ⟨fun x hx => ?_, fun x hx => subset_record (h.completed hx)⟩
  refine (OrderedDict.mem_keys_set _ _ _ _).mpr ?_
  simp only [WorkflowState.record] at hx
  split at hx
  · exact Or.inr (h.outputs hx)
  · rcases List.mem_append.mp hx with hx | hx
    · exact Or.inr (h.outputs hx)
    · exact Or.inl (List.mem_singleton.mp hx)

theorem Backed.not_completed (h : st.Backed) (hc : st.reused c = none) :
    c ∉ st.completedSteps := by
  intro hm
  simp only [reused, hm, if_true] at hc
  have hsome := (OrderedDict.get?_isSome _ _).mpr (h.outputs (h.completed hm))
  simp [hc] at hsome

end WorkflowState

def Phase.ended : Phase → Option (Except Failure (Option Dict))
  | .finished last => some (.ok last)
  | .failed e => some (.error e)
  | _ => none

namespace Task

def calling (t : Task) : List Frame :=
  match t.phase with
  | .running f => [f]
  | _ => []

-- The `node.run` of a pass has returned and its output is not recorded yet.
def Landing (t : Task) (f : Frame) : Prop :=
  ∃ output rest, t.phase = .hooks f (.after output) rest

end Task

namespace Exec

def ended (s : Exec) : Option (Except Failure (Option Dict)) := (s.phase? 0).bind Phase.ended

def called (s : Exec) : List Frame := s.tasks.flatMap Task.calling ++ s.returned

def Settled (s : Exec) (c : StepId) : Prop :=
  c ∈ s.state.nodesExecuted ∧ c ∈ s.evidence.map (·.stepId)

def FailedAt (s : Exec) (c : StepId) : Prop :=
  ∃ cause, s.ended = some (.error (.execution (.runFailed c cause)))

theorem ended_eq {s : Exec} {t : Task} (ht : s.tasks[0]? = some t) : s.ended = t.phase.ended := by
  simp [ended, phase?, ht]

theorem Settled.mono {s s' : Exec} {c : StepId} (h : s.Settled c)
    (hnodes : s.state.nodesExecuted ⊆ s'.state.nodesExecuted) (hev : s.evidence ⊆ s'.evidence) :
    s'.Settled c :=
  ⟨hnodes h.1, List.map_subset _ hev h.2⟩

end Exec

namespace EventLoop

variable {E : Engine} {P : Posture} {wf : Workflow} {chain : List Hook} {s s' : Exec}

theorem state_step (h : Step E P wf chain s s') :
    s'.state = s.state ∨ ∃ c output, s'.state = s.state.record c output := by
  cases h with
  | passthrough | complete | misroute => exact Or.inr ⟨_, _, rfl⟩
  | _ => exact Or.inl rfl

theorem nodesExecuted_step (h : Step E P wf chain s s') :
    s.state.nodesExecuted ⊆ s'.state.nodesExecuted := by
  rcases state_step h with hst | ⟨c, output, hst⟩
  · rw [hst]
    exact List.Subset.refl _
  · rw [hst]
    exact WorkflowState.subset_record

theorem completedSteps_step (h : Step E P wf chain s s') :
    s'.state.completedSteps = s.state.completedSteps := by
  rcases state_step h with hst | ⟨c, output, hst⟩ <;> rw [hst]
  rfl

theorem backed_step (h : Step E P wf chain s s') (hb : s.state.Backed) : s'.state.Backed := by
  rcases state_step h with hst | ⟨c, output, hst⟩ <;> rw [hst]
  · exact hb
  · exact hb.record

theorem evidence_step (h : Step E P wf chain s s') : s.evidence ⊆ s'.evidence := by
  cases h with
  | hook _ _ _ _ hok => exact Runner.runHook_evidence hok
  | _ => exact List.Subset.refl _

theorem owed_fresh_step (h : Step E P wf chain s s') (hb : s.state.Backed)
    (hfresh : ∀ c ∈ s.owed, c ∉ s.state.completedSteps) :
    ∀ c ∈ s'.owed, c ∉ s'.state.completedSteps := by
  rw [completedSteps_step h]
  rcases owed_step h with ⟨hsub, -⟩ | ⟨c, -, -, hnone, hperm, -⟩
  · exact fun x hx => hfresh x (hsub.subset hx)
  · intro x hx
    rcases List.mem_cons.mp (hperm.mem_iff.mp hx) with rfl | hx
    · exact hb.not_completed hnone
    · exact hfresh x hx

theorem calling_starts {targets : List StepId} {stopAt : Option StepId} {payload : Payload} :
    (targets.map (Task.start stopAt payload)).flatMap Task.calling = [] := by
  induction targets with
  | nil => rfl
  | cons target targets ih => simp [Task.start, Task.calling, ih]

theorem called_put {i : ℕ} {t t' : Task} (ht : s.tasks[i]? = some t) (hnone : t'.calling = []) :
    (s.put i t').called.Subperm s.called := by
  refine (List.subperm_append_right _).mpr (Slots.set_subperm Task.calling ht ?_)
  rw [hnone]
  exact List.nil_subperm

theorem called_step (h : Step E P wf chain s s') (hc : s.called.Subperm s.runs) :
    s'.called.Subperm s'.runs := by
  cases h with
  | wake => exact hc
  | fork _ ht =>
      refine List.Subperm.trans ?_ hc
      simp only [Exec.called, List.flatMap_append, calling_starts, List.append_nil]
      exact called_put ht rfl
  | @run i t f _ ht hp =>
      have hcalling : (t.at_ (.running f)).calling.Perm (f :: t.calling) := by
        simp [Task.calling, hp]
      have hperm := (Slots.set_cons Task.calling ht hcalling).append_right s.returned
      refine hperm.subperm.trans ?_
      exact ((List.subperm_cons f).mpr hc).trans (List.perm_append_singleton f s.runs).symm.subperm
  | @ret i t f d _ ht hp =>
      have hcalling : t.calling.Perm (f :: (t.at_ (.hooks f (.after d) chain.reverse)).calling) := by
        simp [Task.calling, hp]
      have hperm := (Slots.unset_cons Task.calling ht hcalling).append_right s.returned
      refine List.Subperm.trans ?_ hc
      refine (List.Perm.trans ?_ hperm.symm).subperm
      simp only [Exec.called, Exec.put_tasks, ← List.append_assoc]
      exact List.perm_append_singleton _ _
  | finish _ ht | raise _ ht | refuse _ ht | invalidInput _ ht | reuse _ ht | passthrough _ ht
  | mergeEmpty _ ht | enter _ ht | complete _ ht | misroute _ ht | emit _ ht | hook _ ht
  | join _ ht | raised _ ht | emitted _ ht => exact (called_put ht rfl).trans hc

theorem returned_subperm_runs (hc : s.called.Subperm s.runs) : s.returned.Subperm s.runs :=
  (List.sublist_append_right _ _).subperm.trans hc

theorem returned_subset_owed (hc : s.called.Subperm s.runs) :
    s.returned.map (·.stepId) ⊆ s.owed := by
  intro c hm
  obtain ⟨f, hf, rfl⟩ := List.mem_map.mp hm
  refine runs_sublist_owed.subset (List.mem_map.mpr ⟨f, ?_, rfl⟩)
  exact (returned_subperm_runs hc).subset hf

-- One task has moved on, and branch walks may have been opened behind the others.
def Moved (s s' : Exec) (i : ℕ) (t' : Task) : Prop :=
  ∃ (targets : List StepId) (stopAt : Option StepId) (payload : Payload),
    s'.tasks = s.tasks.set i t' ++ targets.map (Task.start stopAt payload)

theorem moved_put {i : ℕ} {t' : Task} (htasks : s'.tasks = s.tasks.set i t') : Moved s s' i t' :=
  ⟨[], none, .none, by simpa using htasks⟩

theorem Moved.self {i : ℕ} {t t' : Task} (h : Moved s s' i t') (ht : s.tasks[i]? = some t) :
    s'.tasks[i]? = some t' := by
  have hlt := (List.getElem?_eq_some_iff.mp ht).1
  obtain ⟨targets, stopAt, payload, htasks⟩ := h
  rw [htasks, List.getElem?_append_left (by simpa using hlt)]
  simp [hlt]

theorem Moved.root {i : ℕ} {t t' : Task} (h : Moved s s' (i + 1) t')
    (ht : s.tasks[i + 1]? = some t) : s'.tasks[0]? = s.tasks[0]? := by
  have hlt := (List.getElem?_eq_some_iff.mp ht).1
  obtain ⟨targets, stopAt, payload, htasks⟩ := h
  rw [htasks, List.getElem?_append_left (by simp; omega)]
  simp

theorem Moved.keep {i j : ℕ} {t' u : Task} (h : Moved s s' i t') (hne : j ≠ i)
    (hu : s.tasks[j]? = some u) : s'.tasks[j]? = some u := by
  have hlt := (List.getElem?_eq_some_iff.mp hu).1
  obtain ⟨targets, stopAt, payload, htasks⟩ := h
  rw [htasks, List.getElem?_append_left (by simpa using hlt), List.getElem?_set_ne (Ne.symm hne)]
  exact hu

theorem Moved.cases {i j : ℕ} {t' u : Task} (h : Moved s s' i t') (hu : s'.tasks[j]? = some u) :
    (j = i ∧ u = t') ∨ (j ≠ i ∧ s.tasks[j]? = some u) ∨ u.phase = .head := by
  obtain ⟨targets, stopAt, payload, htasks⟩ := h
  rw [htasks, List.getElem?_append] at hu
  split at hu
  · rcases Slots.getElem?_set_cases hu with hu | hu
    · exact Or.inl hu
    · exact Or.inr (Or.inl hu)
  · obtain ⟨d, -, rfl⟩ := List.mem_map.mp (List.mem_of_getElem? hu)
    exact Or.inr (Or.inr rfl)

theorem tasks_step (h : Step E P wf chain s s') :
    (s'.tasks = s.tasks ∧ s.active = none) ∨
      ∃ i t t', s.tasks[i]? = some t ∧ t.phase.ended = none ∧ Moved s s' i t' ∧
        (t'.phase.ended = none ∨ s'.active = none) := by
  cases h with
  | wake hact => exact Or.inl ⟨rfl, hact⟩
  | finish _ ht hp | refuse _ ht hp | invalidInput _ ht hp | misroute _ ht hp
  | emit _ ht hp | run _ ht hp =>
      exact Or.inr ⟨_, _, _, ht, by simp [hp, Phase.ended], moved_put rfl, .inr rfl⟩
  | reuse _ ht hp | passthrough _ ht hp | mergeEmpty _ ht hp | enter _ ht hp
  | complete _ ht hp | hook _ ht hp | join _ ht hp =>
      exact Or.inr ⟨_, _, _, ht, by simp [hp, Phase.ended], moved_put rfl, .inl rfl⟩
  | ret _ ht hp | raised _ ht hp | emitted _ ht hp =>
      exact Or.inr ⟨_, _, _, ht, by simp [hp, Phase.ended], moved_put rfl, .inl rfl⟩
  | raise _ ht hr =>
      refine Or.inr ⟨_, _, _, ht, ?_, moved_put rfl, .inr rfl⟩
      cases hr with
      | hook hp | node hp | branch hp | badOutput hp | emission hp => simp [hp, Phase.ended]
  | fork _ ht hp =>
      exact Or.inr ⟨_, _, _, ht, by simp [hp, Phase.ended], ⟨_, _, _, rfl⟩, .inl rfl⟩

theorem ended_step {r : Except Failure (Option Dict)} (h : Step E P wf chain s s')
    (he : s.ended = some r) : s'.ended = some r := by
  rcases tasks_step h with ⟨htasks, -⟩ | ⟨i, t, t', ht, hopen, hmoved, -⟩
  · simpa [Exec.ended, Exec.phase?, htasks] using he
  · cases i with
    | zero => simp [Exec.ended_eq ht, hopen] at he
    | succ i => simpa [Exec.ended, Exec.phase?, hmoved.root ht] using he

theorem idle_of_ended {r : Except Failure (Option Dict)} (h : Step E P wf chain s s')
    (hn : s.ended = none) (he : s'.ended = some r) : s'.active = none := by
  rcases tasks_step h with ⟨htasks, -⟩ | ⟨i, t, t', ht, -, hmoved, hend⟩
  · rw [Exec.ended, Exec.phase?, htasks] at he
    rw [Exec.ended, Exec.phase?, he] at hn
    cases hn
  · cases i with
    | zero =>
        rw [Exec.ended_eq (hmoved.self ht)] at he
        rcases hend with hend | hend
        · simp [hend] at he
        · exact hend
    | succ i =>
        rw [Exec.ended, Exec.phase?, hmoved.root ht] at he
        rw [Exec.ended, Exec.phase?, he] at hn
        cases hn

section Landed

def PhaseLanding (s : Exec) (i : ℕ) (t : Task) : Prop :=
  match t.phase with
  | .hooks f stage rest => Hook.eventEmitter ∉ rest ∧
      match stage with
      | .after _ => s.active = some i ∧
          (Hook.evidenceChain ∈ rest ∨ f.stepId ∈ s.evidence.map (·.stepId))
      | _ => True
  | .emitting _ _ _ => False
  | _ => True

-- What has returned is recorded, unless its task is just about to or failed the run there.
structure Landed (s : Exec) : Prop where
  phases : ∀ i t, s.tasks[i]? = some t → PhaseLanding s i t
  settled : ∀ f ∈ s.returned, s.Settled f.stepId ∨ s.FailedAt f.stepId ∨
    ∃ i t, s.active = some i ∧ s.tasks[i]? = some t ∧ t.Landing f

variable {i : ℕ} {t t' : Task}

theorem PhaseLanding.frame {j : ℕ} (h : PhaseLanding s j t) (hact : s.active ≠ some j) :
    PhaseLanding s' j t := by
  unfold PhaseLanding at h ⊢
  split at h
  · next f stage rest hp =>
      refine ⟨h.1, ?_⟩
      cases stage with
      | after _ => exact absurd h.2.1 hact
      | _ => trivial
  · exact h
  · trivial

structure Grows (s s' : Exec) : Prop where
  nodes : s.state.nodesExecuted ⊆ s'.state.nodesExecuted
  evidence : s.evidence ⊆ s'.evidence
  ended : ∀ {r}, s.ended = some r → s'.ended = some r

theorem grows_step (h : Step E P wf chain s s') : Grows s s' :=
  ⟨nodesExecuted_step h, evidence_step h, ended_step h⟩

theorem Landed.advance (h : Landed s) (hgrows : Grows s s')
    (hact : s.active = none ∨ s.active = some i) (ht : s.tasks[i]? = some t)
    (hmoved : Moved s s' i t') (hphase : PhaseLanding s' i t')
    (hret : ∀ f ∈ s'.returned, f ∈ s.returned ∨ (s'.active = some i ∧ t'.Landing f))
    (hland : ∀ f, t.Landing f → s'.Settled f.stepId ∨ s'.FailedAt f.stepId ∨
      (s'.active = some i ∧ t'.Landing f)) : Landed s' := by
  refine ⟨fun j u hu => ?_, fun f hf => ?_⟩
  · rcases hmoved.cases hu with ⟨rfl, rfl⟩ | ⟨hij, hu⟩ | hhead
    · exact hphase
    · refine (h.phases j u hu).frame ?_
      rcases hact with hact | hact
      · simp [hact]
      · simpa [hact] using Ne.symm hij
    · simp [PhaseLanding, hhead]
  · rcases hret f hf with hf | ⟨hact', hl⟩
    · rcases h.settled f hf with hs | ⟨cause, hs⟩ | ⟨j, u, hactive, hu, hl⟩
      · exact Or.inl (hs.mono hgrows.nodes hgrows.evidence)
      · exact Or.inr (Or.inl ⟨cause, hgrows.ended hs⟩)
      · obtain rfl : j = i := by
          rcases hact with hact | hact <;> rw [hact] at hactive
          · cases hactive
          · exact (Option.some.inj hactive).symm
        rw [ht] at hu
        cases hu
        rcases hland f hl with hs | hs | ⟨hact', hl'⟩
        · exact Or.inl hs
        · exact Or.inr (Or.inl hs)
        · exact Or.inr (Or.inr ⟨_, _, hact', hmoved.self ht, hl'⟩)
    · exact Or.inr (Or.inr ⟨_, _, hact', hmoved.self ht, hl⟩)

theorem not_landing {f : Frame} (h : ∀ f stage rest, t.phase ≠ .hooks f stage rest) :
    ¬ t.Landing f := by
  rintro ⟨output, rest, hp⟩
  exact h _ _ _ hp

theorem landed_wake (h : Landed s) (hact : s.active = none) : Landed { s with active := some i } := by
  refine ⟨fun j u hu => (h.phases j u hu).frame (by simp [hact]), fun f hf => ?_⟩
  rcases h.settled f hf with hs | hs | ⟨j, u, hactive, -, -⟩
  · exact Or.inl hs
  · exact Or.inr (Or.inl hs)
  · rw [hact] at hactive
    cases hactive

theorem landed_raise {e : Failure} (h : Landed s) (hgrows : Grows s (s.fail i t e))
    (hact : s.active = none ∨ s.active = some i)
    (ht : s.tasks[i]? = some t) (hr : Raise P s t e)
    (hroot : ∀ f output h rest, s.active = some i → t.phase = .hooks f (.after output) (h :: rest) →
      i = 0) : Landed (s.fail i t e) := by
  have hmoved : Moved s (s.fail i t e) i (t.at_ (.failed e)) := moved_put rfl
  refine h.advance hgrows hact ht hmoved trivial (fun f hf => Or.inl hf) fun f hl => ?_
  obtain ⟨output, rest, hp⟩ := hl
  cases hr with
  | node hp' | branch hp' | badOutput hp' | emission hp' => simp [hp] at hp'
  | @hook f' h' rest' refusal stage x hp' hx =>
      rw [hp] at hp'
      cases hp'
      have hphase := h.phases i t ht
      simp only [PhaseLanding, hp] at hphase
      obtain rfl := hroot _ _ _ _ hphase.2.1 hp
      simp only [Runner.runHook] at hx
      cases ha : Runner.afterRun h' f output refusal s.md s.evidence with
      | ok evidence => simp [ha, Except.map] at hx
      | error y =>
          obtain ⟨what, rfl⟩ := Runner.afterRun_error ha
          obtain rfl : NodeException.other what = x := by simpa [ha, Except.map] using hx
          exact Or.inr (Or.inl ⟨what, Exec.ended_eq (hmoved.self ht)⟩)

theorem landed_record {f : Frame} {output : Dict} (h : Landed s) (ht : s.tasks[i]? = some t)
    (hp : t.phase = .hooks f (.after output) []) :
    ∀ f', t.Landing f' → f'.stepId ∈ (s.state.record f.stepId output).nodesExecuted ∧
      f'.stepId ∈ s.evidence.map (·.stepId) := by
  rintro f' ⟨output', rest, hp'⟩
  rw [hp] at hp'
  cases hp'
  have hphase := h.phases i t ht
  simp only [PhaseLanding, hp, List.not_mem_nil, false_or] at hphase
  exact ⟨WorkflowState.mem_record, hphase.2.2⟩

theorem landed_step (hemit : Hook.eventEmitter ∉ chain) (hev : Hook.evidenceChain ∈ chain)
    (hstep : Step E P wf chain s s') (h : Landed s)
    (hroot : ∀ i t f output h rest x, s.active = some i → s.tasks[i]? = some t →
      t.phase = .hooks f (.after output) (h :: rest) → s' = s.fail i t x → i = 0) : Landed s' := by
  have hgrows := grows_step hstep
  cases hstep with
  | wake hact => exact landed_wake h hact
  | raise hact ht hr =>
      exact landed_raise h hgrows hact ht hr fun f output h rest hact' hp =>
        hroot _ _ f output h rest _ hact' ht hp rfl
  | finish hact ht hp htarget =>
      exact h.advance hgrows (.inr hact) ht (moved_put rfl) trivial
        (fun f hf => Or.inl hf) fun f hl => absurd hl (not_landing (by simp [hp]))
  | refuse hact ht hp htarget hv =>
      exact h.advance hgrows (.inr hact) ht (moved_put rfl) trivial
        (fun f hf => Or.inl hf) fun f hl => absurd hl (not_landing (by simp [hp]))
  | invalidInput hact ht hp htarget hv =>
      exact h.advance hgrows (.inr hact) ht (moved_put rfl) trivial
        (fun f hf => Or.inl hf) fun f hl => absurd hl (not_landing (by simp [hp]))
  | reuse hact ht hp htarget hv =>
      exact h.advance hgrows (.inr hact) ht (moved_put rfl) trivial
        (fun f hf => Or.inl hf) fun f hl => absurd hl (not_landing (by simp [hp]))
  | passthrough hact ht hp htarget hv =>
      exact h.advance hgrows (.inr hact) ht (moved_put rfl) trivial
        (fun f hf => Or.inl hf) fun f hl => absurd hl (not_landing (by simp [hp]))
  | mergeEmpty hact ht hp htarget hv =>
      exact h.advance hgrows (.inr hact) ht (moved_put rfl)
        ⟨hemit, trivial⟩ (fun f hf => Or.inl hf)
        fun f hl => absurd hl (not_landing (by simp [hp]))
  | fork hact ht hp htarget hv =>
      exact h.advance hgrows (.inr hact) ht ⟨_, _, _, rfl⟩ trivial
        (fun f hf => Or.inl hf) fun f hl => absurd hl (not_landing (by simp [hp]))
  | enter hact ht hp htarget hv hvalid =>
      exact h.advance hgrows (.inr hact) ht (moved_put rfl)
        ⟨hemit, trivial⟩ (fun f hf => Or.inl hf)
        fun f hl => absurd hl (not_landing (by simp [hp]))
  | join hact ht hp hcur hresults =>
      exact h.advance hgrows (.inr hact) ht (moved_put rfl)
        ⟨hemit, trivial⟩ (fun f hf => Or.inl hf)
        fun f hl => absurd hl (not_landing (by simp [hp]))
  | run hact ht hp =>
      refine h.advance hgrows (.inr hact) ht (moved_put rfl) trivial
        (fun f hf => Or.inl hf) ?_
      rintro f ⟨output, rest, hl⟩
      rw [hp] at hl
      cases hl
  | complete hact ht hp hnode hroute =>
      exact h.advance hgrows (.inr hact) ht (moved_put rfl) trivial
        (fun f hf => Or.inl hf) fun f hl => Or.inl (landed_record h ht hp f hl)
  | misroute hact ht hp =>
      exact h.advance hgrows (.inr hact) ht (moved_put rfl) trivial
        (fun f hf => Or.inl hf) fun f hl => Or.inl (landed_record h ht hp f hl)
  | emit hact ht hp =>
      have hphase := h.phases _ _ ht
      simp [PhaseLanding, hp] at hphase
  | emitted hact ht hp =>
      have hphase := h.phases _ _ ht
      simp [PhaseLanding, hp] at hphase
  | ret hact ht hp =>
      refine h.advance hgrows (.inl hact) ht (moved_put rfl)
        ⟨by simpa using hemit, rfl, Or.inl (by simpa using hev)⟩ (fun f hf => ?_)
        fun f hl => absurd hl (not_landing (by simp [hp]))
      rcases List.mem_append.mp hf with hf | hf
      · exact Or.inl hf
      · obtain rfl := List.mem_singleton.mp hf
        exact Or.inr ⟨rfl, _, _, rfl⟩
  | raised hact ht hp =>
      exact h.advance hgrows (.inl hact) ht (moved_put rfl)
        ⟨by simpa using hemit, trivial⟩ (fun f hf => Or.inl hf)
        fun f hl => absurd hl (not_landing (by simp [hp]))
  | @hook i t f stage hk rest refusal md evidence hact ht hp hh hok =>
      have hphase := h.phases _ _ ht
      simp only [PhaseLanding, hp, List.mem_cons, not_or] at hphase
      refine h.advance hgrows (.inr hact) ht (moved_put rfl)
        ⟨hphase.1.2, ?_⟩ (fun f hf => Or.inl hf) ?_
      · cases stage with
        | after output =>
            refine ⟨hact, ?_⟩
            rcases hphase.2.2 with (rfl | hm) | hm
            · exact Or.inr (Runner.runHook_evidenced hok)
            · exact Or.inl hm
            · exact Or.inr (List.map_subset _ (Runner.runHook_evidence hok) hm)
        | _ => trivial
      · rintro f' ⟨output, rest', hl⟩
        rw [hp] at hl
        cases hl
        exact Or.inr (Or.inr ⟨hact, _, _, rfl⟩)

end Landed

section Events
variable {e : Event} {i : ℕ} {t : Task} {f : Frame} {output : Dict} {h : Hook} {rest : List Hook}

theorem returned_step (hstep : step E P wf chain s e = some s')
    (he : ∀ i d, e ≠ .ret i (.output d)) : s'.returned = s.returned := by
  cases e with
  | wake i =>
      simp only [step] at hstep
      split at hstep
      · split at hstep
        · cases hstep
          rfl
        · cases hstep
      · cases hstep
  | act refusal =>
      simp only [step] at hstep
      split at hstep
      · next i hact =>
          obtain ⟨t, ht, hs⟩ := Option.bind_eq_some_iff.mp hstep
          cases act_cases hact ht hs with
          | ret hidle => simp [hact] at hidle
          | _ => rfl
      · cases hstep
  | ret i r =>
      simp only [step] at hstep
      split at hstep
      · split at hstep
        · cases hstep
          cases r with
          | output d => exact absurd rfl (he i d)
          | invalid what => rfl
          | raised what => rfl
        · cases hstep
      · cases hstep
  | emitted i error =>
      simp only [step] at hstep
      split at hstep
      · split at hstep
        · cases hstep
          cases error <;> rfl
        · cases hstep
      · cases hstep

theorem refused_of_fail {x : Failure} (hstep : step E P wf chain s e = some s')
    (hact : s.active = some i) (ht : s.tasks[i]? = some t)
    (hp : t.phase = .hooks f (.after output) (h :: rest)) (hfail : s' = s.fail i t x) :
    ∃ refusal y, e = .act refusal ∧
      Runner.runHook P h f refusal s.md s.evidence (.after output) = .error y := by
  have hself : ∀ t', (s.put i t').tasks[i]? = some t' := fun t' => (moved_put rfl).self ht
  have hphase : ∀ t', (s.put i t').tasks = s'.tasks → t'.phase = .failed x := by
    intro t' htasks
    have hslot := hself t'
    rw [htasks, hfail, Exec.fail_tasks, ← Exec.put_tasks, hself] at hslot
    cases hslot
    rfl
  cases e with
  | act refusal =>
      simp only [step, hact, ht, Option.bind_some, act, hp, callHook, Option.some.injEq] at hstep
      split at hstep
      · have hph := hphase (t.at_ (.emitting f (.after output) rest)) (by rw [← hstep]; rfl)
        cases hph
      · split at hstep
        · next md evidence _ =>
            have hph := hphase (t.at_ (.hooks f (.after output) rest)) (by rw [← hstep])
            cases hph
        · next y hy => exact ⟨refusal, y, rfl, hy⟩
  | wake j | ret j r | emitted j error => simp [step, hact] at hstep

end Events

section Start
variable {st : WorkflowState} {approved : List StepId} {evidence : List EvidenceEntry}
  {payload : Payload} {entry : StepId}

theorem called_start : (Exec.start st approved evidence payload entry).called = [] := by
  simp [Exec.called, Exec.start, Task.start, Task.calling]

theorem landed_start : Landed (Exec.start st approved evidence payload entry) := by
  refine ⟨fun i t ht => ?_, fun f hf => by cases hf⟩
  obtain rfl : t = Task.start none payload entry := by
    simpa [Exec.start] using List.mem_of_getElem? ht
  trivial

end Start

end EventLoop

end BTagent
