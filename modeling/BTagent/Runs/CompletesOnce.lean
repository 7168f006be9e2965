import BTagent.Engine.ForkOnce
import BTagent.Engine.StepCap
import BTagent.Runs.AttemptChain

namespace BTagent

-- What the row of an attempt tells of the steps that completed in it.
structure Attempt.Kept (a : Attempt) (row : WorkflowRunRow) : Prop where
  recorded : row.status ≠ .failed → ∀ f ∈ a.exec.returned, f.stepId ∈ row.outputs.keys ∧
    f.stepId ∈ row.nodesExecuted ∧ f.stepId ∈ row.evidenceChain.map (·.stepId)
  evidenced : row.status = .failed → ∀ f ∈ a.exec.returned,
    f.stepId ∈ row.evidenceChain.map (·.stepId) ∨
      ∃ cause, row.error = some (.execution (.runFailed f.stepId cause))
  checkpoint : row.status = .failed → (row.outputs, row.nodesExecuted) = a.checkpoint

section Row
variable {N : JsonbNumeric} {payload : Dict} {a : Attempt} {o : Outcome}

namespace Attempt

@[simp] theorem row_status : (a.row N payload o).status = o.status := by
  unfold row
  cases a.resumed <;> rfl

@[simp] theorem row_error : (a.row N payload o).error = o.error := by
  unfold row
  cases a.resumed <;> rfl

theorem row_recorded (h : o.status ≠ .failed) :
    (a.row N payload o).outputs = WorkflowRunRow.storeOutputs N o.outputs ∧
      (a.row N payload o).nodesExecuted = o.nodesExecuted := by
  unfold row
  cases a.resumed with
  | none => exact ⟨rfl, rfl⟩
  | some row => simp [WorkflowRunRow.update, h]

theorem row_checkpoint (h : o.status = .failed) (houtputs : o.outputs = .empty)
    (hnodes : o.nodesExecuted = []) :
    ((a.row N payload o).outputs, (a.row N payload o).nodesExecuted) = a.checkpoint := by
  unfold row checkpoint
  cases a.resumed with
  | none =>
      simp only [WorkflowRunRow.create, houtputs, hnodes]
      rfl
  | some row => simp [WorkflowRunRow.update, h]

theorem row_evidence : o.evidenceChain ⊆ (a.row N payload o).evidenceChain := by
  unfold row
  cases a.resumed with
  | none => exact List.Subset.refl _
  | some row =>
      simp only [WorkflowRunRow.update]
      split
      · next h => simp [List.isEmpty_iff.mp h.2]
      · exact List.Subset.refl _

end Attempt

end Row

namespace Attempt

variable {N : JsonbNumeric} {payload : Dict} {a : Attempt} {row : WorkflowRunRow}
  {r : Except Failure (Option Dict)}

theorem capture_saved (h : a.saved = some row) : a.capture N payload = a := by
  simp [capture, h]

theorem capture_open (h : a.exec.ended = none) : a.capture N payload = a := by
  simp [capture, h]

theorem capture_ended (h : a.saved = none) (he : a.exec.ended = some r) :
    a.capture N payload =
      { a with saved := some (a.row N payload (.capture a.exec.state a.exec.evidence r)) } := by
  simp [capture, h, he]

@[simp] theorem capture_exec : (a.capture N payload).exec = a.exec := by
  unfold capture
  split <;> rfl

@[simp] theorem capture_posture : (a.capture N payload).posture = a.posture := by
  unfold capture
  split <;> rfl

theorem Kept.of_eq {a' : Attempt} (h : a.Kept row) (hreturned : a'.exec.returned = a.exec.returned)
    (hresumed : a'.resumed = a.resumed) : a'.Kept row := by
  refine ⟨?_, ?_, ?_⟩
  · rw [hreturned]
    exact h.recorded
  · rw [hreturned]
    exact h.evidenced
  · have hcheckpoint : a'.checkpoint = a.checkpoint := by simp [Attempt.checkpoint, hresumed]
    exact hcheckpoint ▸ h.checkpoint

end Attempt

namespace AttemptChain
open EventLoop

section Sound
variable (E : Engine) (wf : Workflow)

-- What holds of one attempt whatever the others do.
structure Sound (a : Attempt) : Prop where
  once : Once E wf a.exec
  backed : a.exec.state.Backed
  fresh : ∀ c ∈ a.exec.owed, c ∉ a.exec.state.completedSteps
  called : a.exec.called.Subperm a.exec.runs
  landed : Landed a.exec
  unsaved : a.saved = none → a.exec.ended = none
  kept : ∀ row ∈ a.saved, a.Kept row
  rows : ∀ row ∈ a.saved, row.status ≠ .failed → row.nodesExecuted ⊆ row.outputs.keys ∧
    a.exec.state.completedSteps ⊆ row.nodesExecuted

end Sound

variable {E : Engine} {N : JsonbNumeric} {wf : Workflow} {payload : Dict} {a : Attempt} {s : Exec}
  {r : Except Failure (Option Dict)}

theorem settled_of_ended (hlanded : Landed s) (hidle : s.active = none) :
    ∀ f ∈ s.returned, s.Settled f.stepId ∨ s.FailedAt f.stepId := by
  intro f hf
  rcases hlanded.settled f hf with hs | hs | ⟨i, t, hact, -, -⟩
  · exact Or.inl hs
  · exact Or.inr hs
  · rw [hidle] at hact
    cases hact

theorem kept_row (hbacked : a.exec.state.Backed)
    (hsettled : ∀ f ∈ a.exec.returned, a.exec.Settled f.stepId ∨ a.exec.FailedAt f.stepId)
    (hended : a.exec.ended = some r) :
    a.Kept (a.row N payload (.capture a.exec.state a.exec.evidence r)) := by
  have hevidence : ∀ {c}, a.exec.Settled c → c ∈ (a.row N payload
      (.capture a.exec.state a.exec.evidence r)).evidenceChain.map (·.stepId) := by
    intro c hc
    refine List.map_subset _ Attempt.row_evidence ?_
    simpa using hc.2
  have hfailed : ∀ {c}, a.exec.FailedAt c → ∃ cause,
      r = .error (.execution (.runFailed c cause)) := by
    rintro c ⟨cause, hc⟩
    rw [hended] at hc
    exact ⟨cause, Option.some.inj hc⟩
  refine ⟨fun hstatus f hf => ?_, fun hstatus f hf => ?_, fun hstatus => ?_⟩
  · rw [Attempt.row_status] at hstatus
    obtain ⟨houtputs, hnodes⟩ := Attempt.row_recorded hstatus (N := N) (a := a)
    obtain ⟨houtputs', hnodes'⟩ := Outcome.capture_recorded hstatus
    rcases hsettled f hf with hs | hs
    · refine ⟨?_, ?_, hevidence hs⟩
      · rw [houtputs, houtputs', WorkflowRunRow.mem_storeOutputs]
        exact hbacked.outputs hs.1
      · rw [hnodes, hnodes']
        exact hs.1
    · obtain ⟨cause, rfl⟩ := hfailed hs
      exact absurd rfl hstatus
  · rcases hsettled f hf with hs | hs
    · exact Or.inl (hevidence hs)
    · obtain ⟨cause, rfl⟩ := hfailed hs
      exact Or.inr ⟨cause, by rw [Attempt.row_error]; rfl⟩
  · rw [Attempt.row_status] at hstatus
    obtain ⟨houtputs, hnodes⟩ := Outcome.capture_failed hstatus
    exact Attempt.row_checkpoint hstatus houtputs hnodes

theorem rows_row (hbacked : a.exec.state.Backed)
    (hstatus : (Outcome.capture a.exec.state a.exec.evidence r).status ≠ .failed) :
    (a.row N payload (.capture a.exec.state a.exec.evidence r)).nodesExecuted ⊆
        (a.row N payload (.capture a.exec.state a.exec.evidence r)).outputs.keys ∧
      a.exec.state.completedSteps ⊆
        (a.row N payload (.capture a.exec.state a.exec.evidence r)).nodesExecuted := by
  obtain ⟨houtputs, hnodes⟩ := Attempt.row_recorded hstatus (N := N) (a := a)
  obtain ⟨houtputs', hnodes'⟩ := Outcome.capture_recorded hstatus
  rw [houtputs, houtputs', hnodes, hnodes']
  refine ⟨fun c hc => ?_, hbacked.completed⟩
  rw [WorkflowRunRow.mem_storeOutputs]
  exact hbacked.outputs hc

theorem sound_loop {e : Event} (hacyclic : wf.Acyclic) (hapart : ForksApart E wf)
    (hs : Sound E wf a) (hstep : EventLoop.step E a.posture wf backendChain a.exec e = some s)
    (hlate : ∀ i d, e = .ret i (.output d) → a.saved = none)
    (hbranch : ∀ i refusal, e = .act refusal → a.exec.active = some (i + 1) →
      refusesOutput a.posture a.exec (i + 1) refusal = false) :
    Sound E wf ({ a with exec := s }.capture N payload) := by
  have hcases := step_cases hstep
  have hlanded : Landed s := by
    refine landed_step (by decide) (by decide) hcases hs.landed ?_
    intro i t f output h rest x hact ht hp hfail
    obtain ⟨refusal, y, rfl, hy⟩ := refused_of_fail hstep hact ht hp hfail
    cases i with
    | zero => rfl
    | succ i =>
        have hno := hbranch i refusal rfl hact
        simp [refusesOutput, Exec.phase?, ht, hp, hy] at hno
  have honce := once_step hacyclic hapart hcases hs.once
  have hbacked := backed_step hcases hs.backed
  have hfresh := owed_fresh_step hcases hs.backed hs.fresh
  have hcalled := called_step hcases hs.called
  obtain ⟨posture, s₀, approved, resumed, saved⟩ := a
  cases saved with
  | some row =>
      rw [Attempt.capture_saved rfl]
      have hreturned : s.returned = s₀.returned :=
        returned_step hstep fun i d he => by simpa using hlate i d he
      refine ⟨honce, hbacked, hfresh, hcalled, hlanded, fun hnone => by simp at hnone,
        fun row' hrow => (hs.kept row' hrow).of_eq hreturned rfl, fun row' hrow hstatus => ?_⟩
      rw [completedSteps_step hcases]
      exact hs.rows row' hrow hstatus
  | none =>
      cases hended : s.ended with
      | none =>
          rw [Attempt.capture_open hended]
          exact ⟨honce, hbacked, hfresh, hcalled, hlanded, fun _ => hended, by simp, by simp⟩
      | some r =>
          rw [Attempt.capture_ended rfl hended]
          have hidle := idle_of_ended hcases (hs.unsaved rfl) hended
          have hsettled := settled_of_ended hlanded hidle
          refine ⟨honce, hbacked, hfresh, hcalled, hlanded, fun hnone => by simp at hnone,
            fun row hrow => ?_, fun row hrow hstatus => ?_⟩
          · obtain rfl := Option.some.inj hrow
            exact (kept_row hbacked hsettled hended).of_eq rfl rfl
          · obtain rfl := Option.some.inj hrow
            rw [Attempt.row_status] at hstatus
            exact rows_row hbacked hstatus

theorem sound_start {st : WorkflowState} {approved approved' : List StepId}
    {evidence : List EvidenceEntry} {carried : Payload} {entry : StepId} {posture : Posture}
    {resumed : Option WorkflowRunRow} (hbacked : st.Backed) :
    Sound E wf ⟨posture, Exec.start st approved evidence carried entry, approved', resumed, none⟩ := by
  refine ⟨once_start, hbacked, ?_, ?_, landed_start, fun _ => rfl, by simp, by simp⟩
  · simp [owed_start]
  · simp [called_start, List.nil_subperm]

structure Linked (E : Engine) (wf : Workflow) (attempts : List Attempt) : Prop where
  each : ∀ a ∈ attempts, Sound E wf a
  closed : ∀ {i : ℕ} {a : Attempt}, attempts[i]? = some a → i + 1 < attempts.length → a.saved ≠ none
  earlier : ∀ {i j : ℕ} {a b : Attempt}, i < j → attempts[i]? = some a → attempts[j]? = some b →
    a.exec.returned.map (·.stepId) ⊆ b.exec.state.completedSteps

variable {attempts attempts' : List Attempt}

theorem loop_spec {k : ℕ} {e : Event}
    (hstep : step E N wf payload attempts (.loop k e) = some attempts') :
    ∃ a s, attempts[k]? = some a ∧ EventLoop.step E a.posture wf backendChain a.exec e = some s ∧
      attempts' = attempts.set k ({ a with exec := s }.capture N payload) := by
  simp only [step] at hstep
  split at hstep
  · cases hstep
  · next a ha =>
      obtain ⟨s, hs, rfl⟩ := Option.map_eq_some_iff.mp hstep
      exact ⟨a, s, ha, hs, rfl⟩

theorem resume_spec {autonomy : IntegrationAutonomy}
    (hstep : step E N wf payload attempts (.resume autonomy) = some attempts') :
    ∃ a row b, attempts.getLast? = some a ∧ a.saved = some row ∧
      resumeRun wf row { a.posture with integrationAutonomy := autonomy } = some b ∧
      attempts' = attempts ++ [b] := by
  simp only [step] at hstep
  split at hstep
  · cases hstep
  · next a ha =>
      split at hstep
      · cases hstep
      · next row hrow =>
          obtain ⟨b, hb, rfl⟩ := Option.map_eq_some_iff.mp hstep
          exact ⟨a, row, b, ha, hrow, hb, rfl⟩

theorem linked_loop {k : ℕ} {e : Event} (hacyclic : wf.Acyclic) (hapart : ForksApart E wf)
    (hl : Linked E wf attempts) (hguard : Undisturbed attempts (.loop k e))
    (hstep : step E N wf payload attempts (.loop k e) = some attempts') :
    Linked E wf attempts' := by
  obtain ⟨a, s, ha, hs, rfl⟩ := loop_spec hstep
  have hsound := hl.each a (List.mem_of_getElem? ha)
  have hcases := step_cases hs
  have hlate : ∀ i d, e = .ret i (.output d) → a.saved = none := by
    rintro i d rfl
    simpa [returnsLate, ha] using hguard.1
  have hnew : Sound E wf ({ a with exec := s }.capture N payload) := by
    refine sound_loop hacyclic hapart hsound hs hlate ?_
    rintro i refusal rfl hact
    simpa [refusesInBranch, ha, hact] using hguard.2
  refine ⟨fun b hb => ?_, fun {i b} hi hlt => ?_, fun {i j b c} hij hi hj => ?_⟩
  · rcases List.mem_or_eq_of_mem_set hb with hb | rfl
    · exact hl.each b hb
    · exact hnew
  · rw [List.length_set] at hlt
    rcases Slots.getElem?_set_cases hi with ⟨rfl, rfl⟩ | ⟨-, hi⟩
    · obtain ⟨row, hrow⟩ := Option.ne_none_iff_exists'.mp (hl.closed ha hlt)
      rw [Attempt.capture_saved hrow (a := { a with exec := s })]
      simp [hrow]
    · exact hl.closed hi hlt
  · rcases Slots.getElem?_set_cases hi with ⟨rfl, rfl⟩ | ⟨-, hi'⟩
    · rcases Slots.getElem?_set_cases hj with ⟨rfl, -⟩ | ⟨-, hj'⟩
      · omega
      · have hlt := (List.getElem?_eq_some_iff.mp hj').1
        have hsaved := hl.closed ha (by omega)
        have hreturned : s.returned = a.exec.returned :=
          returned_step hs fun i d he => hsaved (hlate i d he)
        rw [Attempt.capture_exec, hreturned]
        exact hl.earlier hij ha hj'
    · rcases Slots.getElem?_set_cases hj with ⟨rfl, rfl⟩ | ⟨-, hj'⟩
      · rw [Attempt.capture_exec, completedSteps_step hcases]
        exact hl.earlier hij hi' ha
      · exact hl.earlier hij hi' hj'

theorem linked_resume {autonomy : IntegrationAutonomy} (hl : Linked E wf attempts)
    (hstep : step E N wf payload attempts (.resume autonomy) = some attempts') :
    Linked E wf attempts' := by
  obtain ⟨a, row, b, ha, hrow, hb, rfl⟩ := resume_spec hstep
  obtain ⟨hpaused, paused, entry, -, -, rfl⟩ := resumeRun_spec hb
  have hsound := hl.each a (List.mem_of_getLast? ha)
  have hopen : row.status ≠ .failed := by simp [hpaused]
  obtain ⟨houtputs, hcompleted⟩ := hsound.rows row hrow hopen
  rw [List.getLast?_eq_getElem?] at ha
  have hlast := (List.getElem?_eq_some_iff.mp ha).1
  refine ⟨fun c hc => ?_, fun {i c} hi hlt => ?_, fun {i j c d} hij hi hj => ?_⟩
  · rcases List.mem_append.mp hc with hc | hc
    · exact hl.each c hc
    · obtain rfl := List.mem_singleton.mp hc
      exact sound_start ⟨houtputs, List.Subset.refl _⟩
  · rw [List.length_append, List.length_singleton] at hlt
    rw [List.getElem?_append_left (by omega)] at hi
    rcases Nat.lt_or_ge (i + 1) attempts.length with hlt' | hge
    · exact hl.closed hi hlt'
    · obtain rfl : i = attempts.length - 1 := by omega
      rw [ha] at hi
      cases hi
      simp [Option.mem_def.mp hrow]
  · have hlt := (List.getElem?_eq_some_iff.mp hj).1
    rw [List.length_append, List.length_singleton] at hlt
    rw [List.getElem?_append_left (by omega)] at hi
    rcases Nat.lt_or_ge j attempts.length with hjlt | hge
    · rw [List.getElem?_append_left hjlt] at hj
      exact hl.earlier hij hi hj
    · obtain rfl : j = attempts.length := by omega
      obtain rfl : _ = d := by simpa using hj
      change c.exec.returned.map (·.stepId) ⊆ row.nodesExecuted
      rcases Nat.lt_or_ge i (attempts.length - 1) with hi' | hi'
      · exact List.Subset.trans (hl.earlier hi' hi ha) hcompleted
      · obtain rfl : i = attempts.length - 1 := by omega
        rw [ha] at hi
        cases hi
        intro x hx
        obtain ⟨f, hf, rfl⟩ := List.mem_map.mp hx
        exact ((hsound.kept row hrow).recorded hopen f hf).2.1

theorem linked_step {e : ChainEvent} (hacyclic : wf.Acyclic) (hapart : ForksApart E wf)
    (hl : Linked E wf attempts) (hguard : Undisturbed attempts e)
    (hstep : step E N wf payload attempts e = some attempts') : Linked E wf attempts' := by
  cases e with
  | loop k e => exact linked_loop hacyclic hapart hl hguard hstep
  | resume autonomy => exact linked_resume hl hstep

theorem nodup_completed (hl : Linked E wf attempts) : (completed attempts).Nodup := by
  refine List.nodup_flatMap.mpr ⟨fun a ha => ?_, ?_⟩
  · have hsound := hl.each a ha
    obtain ⟨l, hperm, hsub⟩ := (returned_subperm_runs hsound.called)
    exact (hperm.map _).nodup_iff.mp (hsound.once.nodup.sublist (hsub.map _))
  · refine List.pairwise_iff_getElem.mpr fun i j hi hj hij => ?_
    intro c hc hc'
    have hsound := hl.each attempts[j] (List.getElem_mem hj)
    refine hsound.fresh c (returned_subset_owed hsound.called hc') ?_
    exact hl.earlier hij (List.getElem?_eq_getElem hi) (List.getElem?_eq_getElem hj) hc

theorem steps_complete_once {posture : Posture} {s₀ : Exec} {es : List ChainEvent}
    (hacyclic : wf.Acyclic) (hapart : ForksApart E wf)
    (hstart : execute wf none [] [] (.dict payload) = .ok s₀)
    (hrun : (machine E N wf payload).run (start posture s₀) es = some attempts)
    (hguard : (machine E N wf payload).Along Undisturbed (start posture s₀) es) :
    (completed attempts).Nodup ∧ ∀ a ∈ attempts, ∀ row ∈ a.saved, a.Kept row := by
  obtain ⟨entry, rfl, -⟩ := execute_ok hstart
  have hl : Linked E wf attempts := by
    refine Machine.invariant_along _ (I := Linked E wf) ?_ ?_ hguard hrun
    · intro l e l' hl hg hstep
      exact linked_step hacyclic hapart hl hg hstep
    · refine ⟨fun a ha => ?_, fun {i a} hi hlt => ?_, fun {i j a b} hij hi hj => ?_⟩
      · obtain rfl := List.mem_singleton.mp ha
        exact sound_start ⟨by simp [WorkflowState.fresh], by simp [WorkflowState.fresh]⟩
      · simp [start] at hlt
      · have hlt := (List.getElem?_eq_some_iff.mp hj).1
        simp only [start, List.length_singleton] at hlt
        omega
  exact ⟨nodup_completed hl, fun a ha => (hl.each a ha).kept⟩

namespace GatedFork

def workflow : Workflow := Compiler.buildWorkflow "gated" [
  ForkPlaybook.step "f" .parallelFork "" [["a"], ["g", "b"]],
  ForkPlaybook.step "a" .action "probe" [],
  ForkPlaybook.step "g" .hitlGate "" [],
  ForkPlaybook.step "b" .action "probe" []]

def numeric : JsonbNumeric := .verbatim

def M : Machine (List Attempt) ChainEvent := machine ForkPlaybook.engine numeric workflow .empty

def start : List Attempt := AttemptChain.start ForkPlaybook.posture ForkPlaybook.start

def acts (k n : ℕ) : List ChainEvent := List.replicate n (.loop k (.act none))

def returns (k i : ℕ) : List ChainEvent := .loop k (.ret i (.output .empty)) :: acts k 7

-- The fork opens and the first branch calls `node.run`; the second branch pauses the attempt.
def opening (k : ℕ) : List ChainEvent := acts k 1 ++ .loop k (.wake 1) :: acts k 7

def pause : List ChainEvent := .loop 0 (.wake 2) :: acts 0 3 ++ .loop 0 (.wake 0) :: acts 0 1

def resumed : List ChainEvent :=
  opening 0 ++ returns 0 1 ++ pause ++ .resume {} :: acts 1 1 ++ .loop 1 (.wake 1) :: acts 1 2 ++
    .loop 1 (.wake 2) :: acts 1 7 ++ returns 1 2 ++ acts 1 6

def succeeding : List ChainEvent :=
  resumed ++ returns 1 2 ++ .loop 1 (.wake 0) :: acts 1 7 ++ returns 1 0

def failing : List ChainEvent :=
  resumed ++ .loop 1 (.ret 2 (.raised "unreachable host")) :: acts 1 6 ++
    .loop 1 (.wake 0) :: acts 1 1

def late : List ChainEvent :=
  opening 0 ++ pause ++ returns 0 1 ++ .resume {} :: opening 1 ++ returns 1 1

def looping : List ChainEvent :=
  (SelfLoop.iteration ++ SelfLoop.iteration ++ SelfLoop.iteration).map (.loop 0)

theorem acyclic : workflow.Acyclic :=
  Compiler.acyclic_buildWorkflow ⟨by decide, by decide, by decide⟩

theorem forksApart : ForksApart ForkPlaybook.engine workflow :=
  forksApart_of_two (f := "f") (a := "a") (b := "g") (A := ["a"]) (B := ["g", "b"]) (by decide)
    (by decide) (by decide) (by decide) (by decide) (by decide) (by decide) (by decide)

end GatedFork

theorem completed_steps_lost_or_repeated :
    ForksApart ForkPlaybook.engine GatedFork.workflow ∧
    (∃ attempts ∈ GatedFork.M.run GatedFork.start GatedFork.failing,
      ∃ a ∈ attempts, ∃ row ∈ a.saved, ∃ f ∈ a.exec.returned,
        f.stepId ∉ row.outputs.keys ∧ f.stepId ∉ row.nodesExecuted) ∧
    (∃ attempts ∈ GatedFork.M.run GatedFork.start GatedFork.late, ¬ (completed attempts).Nodup) ∧
    ForksApart SelfLoop.engine SelfLoop.workflow ∧
    ∃ attempts ∈ (machine SelfLoop.engine GatedFork.numeric SelfLoop.workflow .empty).run
      (AttemptChain.start SelfLoop.posture SelfLoop.start) GatedFork.looping,
      ¬ (completed attempts).Nodup := by
  refine ⟨GatedFork.forksApart, by decide +kernel, by decide +kernel, ?_, by decide +kernel⟩
  exact forksApart_of_no_fork (by decide)

theorem steps_complete_once_resumed :
    ∃ attempts, GatedFork.M.run GatedFork.start GatedFork.succeeding = some attempts ∧
      (completed attempts).Nodup ∧ ∀ a ∈ attempts, ∀ row ∈ a.saved, a.Kept row := by
  have hsome : (GatedFork.M.run GatedFork.start GatedFork.succeeding).isSome := by decide +kernel
  obtain ⟨attempts, hrun⟩ := Option.isSome_iff_exists.mp hsome
  exact ⟨attempts, hrun, steps_complete_once GatedFork.acyclic GatedFork.forksApart rfl hrun
    (by decide +kernel)⟩

end AttemptChain

end BTagent
