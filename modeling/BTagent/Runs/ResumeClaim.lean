import BTagent.Lib.Machine
import BTagent.Runs.StoredRun

namespace BTagent

-- What `_run_capture` returns: a paused or failed run is an outcome too.
structure CaptureOutcome where
  status : WorkflowRunStatus
  ended : status = .succeeded ∨ status = .failed ∨ status = .paused
  outputs : Dict
  finalOutput : Option Json
  nodesExecuted : List StepId
  evidenceChain : List Json
  error : Option String
  pausedNodeId : Option StepId

namespace StoredRun

variable (D : ResumeDeps) (req : ResumeRequest) (row : StoredRun)

-- The conditional UPDATE of the claim: the row it leaves, where it matches one.
def claim : Option StoredRun :=
  if row.status = WorkflowRunStatus.paused.value then
    some { row with status := WorkflowRunStatus.running.value }
  else none

-- The claim's transaction. The commit comes before the check of the row count.
def claimRun : StoredRun × Except ResumeError Unit :=
  match req.db.claim with
  | .error e => (row, .error e)
  | .ok () =>
      match row.claim with
      | none => (row, .error (.runNotResumable s!"Run {row.id} is no longer paused; cannot resume."))
      | some claimed => (claimed, .ok ())

-- `resume_run` until it raises or calls the engine, with the row that is then stored.
def resumeRun : StoredRun × Except ResumeError Launch :=
  match claimRun req row with
  | (stored, .error e) => (stored, .error e)
  | (stored, .ok ()) => (stored, prepare D req stored)

def stepText : Json → Option StepId
  | .str s => some s
  | _ => none

-- `sorted(approved)`: texts do not compare with anything else.
def sortedSteps (approved : List Json) : Except ResumeError (List Json) :=
  match approved.mapM stepText with
  | some steps => .ok ((steps.dedup.insertionSort (· ≤ ·)).map .str)
  | none => .error .unorderable

-- `resume_run` after its attempt.
def finish (launch : Launch) (o : CaptureOutcome) : Except ResumeError StoredRun := do
  let approved ← sortedSteps launch.approvedSteps
  let failed := o.status = .failed
  return { row with
    status := o.status.value
    outputs := some (if failed then launch.priorOutputs else o.outputs)
    finalOutput := if failed then none else o.finalOutput
    nodesExecuted :=
      some (if failed then launch.priorNodesExecuted else o.nodesExecuted.map .str)
    evidenceChain := some (if failed ∧ o.evidenceChain.isEmpty then
      launch.priorEvidence.map D.dumpRecord else o.evidenceChain)
    error := o.error
    pausedNodeId := o.pausedNodeId
    approvedSteps := some approved }

-- A call that raises before the engine is called leaves the row as it was, and a paused row for
-- a later call to claim.
def AtomicOnError : Prop :=
  ∀ stored e, resumeRun D req row = (stored, .error e) →
    stored = row ∧
      (row.status = WorkflowRunStatus.paused.value →
        ∀ later : ResumeRequest, later.db.claim = .ok () →
          ∃ claimed, claimRun later stored = (claimed, .ok ()))

section Spec
variable {D req row}

theorem paused_ne_running : WorkflowRunStatus.paused.value ≠ WorkflowRunStatus.running.value := by
  decide

theorem claim_eq_some_iff {claimed : StoredRun} :
    row.claim = some claimed ↔ row.status = WorkflowRunStatus.paused.value ∧
      claimed = { row with status := WorkflowRunStatus.running.value } := by
  unfold claim
  split
  · next h => simp [h, eq_comm]
  · next h => simp [h]

theorem claim_eq_none_iff : row.claim = none ↔ row.status ≠ WorkflowRunStatus.paused.value := by
  simp [claim]

theorem claimRun_ok_iff {claimed : StoredRun} :
    claimRun req row = (claimed, .ok ()) ↔ req.db.claim = .ok () ∧ row.claim = some claimed := by
  unfold claimRun
  cases req.db.claim with
  | error e => simp
  | ok u => cases row.claim <;> simp

theorem claimRun_error {stored : StoredRun} {e : ResumeError}
    (h : claimRun req row = (stored, .error e)) : stored = row := by
  unfold claimRun at h
  cases hdb : req.db.claim with
  | error e' =>
      rw [hdb] at h
      cases h
      rfl
  | ok u =>
      rw [hdb] at h
      cases hclaim : row.claim with
      | none =>
          rw [hclaim] at h
          cases h
          rfl
      | some claimed =>
          rw [hclaim] at h
          cases h

theorem resumable_status {status : String} :
    Resumable D req { row with status := status } ↔ Resumable D req row := by
  have hrow : (∃ launch, prepare D req row = .ok launch) ↔ Resumable D req row := prepare_ok_iff
  rw [← hrow, ← prepare_ok_iff]
  exact Iff.rfl

theorem prepare_error_iff : (∃ e, prepare D req row = .error e) ↔ ¬ Resumable D req row := by
  rw [← prepare_ok_iff]
  cases prepare D req row <;> simp

theorem resumeRun_claimed {claimed : StoredRun} (h : claimRun req row = (claimed, .ok ())) :
    resumeRun D req row = (claimed, prepare D req claimed) := by
  simp only [resumeRun, h]

theorem resumeRun_refused {stored : StoredRun} {e : ResumeError}
    (h : claimRun req row = (stored, .error e)) : resumeRun D req row = (row, .error e) := by
  simp only [resumeRun, h, claimRun_error h]

theorem atomic_of_refused {stored : StoredRun} {e : ResumeError}
    (h : claimRun req row = (stored, .error e)) : AtomicOnError D req row := by
  intro stored' e' hresume
  rw [resumeRun_refused h] at hresume
  cases hresume
  refine ⟨rfl, fun hpaused later hlater => ?_⟩
  exact ⟨_, claimRun_ok_iff.mpr ⟨hlater, claim_eq_some_iff.mpr ⟨hpaused, rfl⟩⟩⟩

theorem atomic_of_claimed_iff {claimed : StoredRun} (h : claimRun req row = (claimed, .ok ())) :
    AtomicOnError D req row ↔ Resumable D req row := by
  obtain ⟨-, hclaim⟩ := claimRun_ok_iff.mp h
  obtain ⟨hpaused, rfl⟩ := claim_eq_some_iff.mp hclaim
  constructor
  · intro hatomic
    by_contra hnot
    obtain ⟨e, he⟩ := prepare_error_iff.mpr (mt resumable_status.mp hnot)
    obtain ⟨hsame, -⟩ := hatomic _ e ((resumeRun_claimed h).trans (by rw [he]))
    apply paused_ne_running
    rw [← hpaused, ← hsame]
  · intro hresumable stored e hresume
    obtain ⟨launch, hlaunch⟩ := prepare_ok_iff.mpr (resumable_status.mpr hresumable)
    rw [resumeRun_claimed h, hlaunch] at hresume
    cases hresume

theorem atomic_on_error_iff (D : ResumeDeps) (req : ResumeRequest) (row : StoredRun) :
    AtomicOnError D req row ↔
      row.status ≠ WorkflowRunStatus.paused.value ∨ req.db.claim ≠ .ok () ∨ Resumable D req row := by
  rcases hclaim : claimRun req row with ⟨stored, r⟩
  cases r with
  | error e =>
      refine iff_of_true (atomic_of_refused hclaim) ?_
      by_contra hnot
      simp only [not_or, not_not] at hnot
      obtain ⟨hpaused, hdb, -⟩ := hnot
      rw [claimRun_ok_iff.mpr ⟨hdb, claim_eq_some_iff.mpr ⟨hpaused, rfl⟩⟩] at hclaim
      cases hclaim
  | ok u =>
      obtain ⟨hdb, hrow⟩ := claimRun_ok_iff.mp hclaim
      have hpaused := (claim_eq_some_iff.mp hrow).1
      rw [atomic_of_claimed_iff hclaim]
      simp [hdb, hpaused]

end Spec

-- A draft may be run, and emptied while its run waits for an approval.
def emptiedDraft : ResumeRequest where
  orgId := "org_1"
  version := {
    id := "wfv_1"
    workflowId := "wf_1"
    versionNumber := 1
    state := .DRAFT
    definition := .empty
    orgId := "org_1"
    createdBy := none
    createdAt := ⟨2026, 1, 15, 12, 0, 0, 0, none⟩
    publishedAt := none
    deprecatedAt := none }
  integrationAutonomy := none
  db := ⟨.ok (), .ok (), .ok none⟩

def waitingRun : StoredRun where
  id := "wfrun_1"
  triggeredBy := some "usr_1"
  investigationId := none
  status := "paused"
  activeTlp := some "red"
  agentAutonomy := some "L2"
  pausedNodeId := some "gate"
  approvedSteps := some []
  triggerPayload := some .empty
  outputs := some .empty
  finalOutput := none
  nodesExecuted := some []
  evidenceChain := some []
  error := none

def missingName : ResumeDeps where
  validationText _ := "name: Field required"
  parseTimestamp _ := none
  dumpRecord _ := .null

theorem emptied_draft_strands :
    resumeRun missingName emptiedDraft waitingRun =
        ({ waitingRun with status := "running" }, .error (.workflowNotExecutable
          "Version 1 definition is not a valid workflow graph: name: Field required")) ∧
      ¬ AtomicOnError missingName emptiedDraft waitingRun := by
  have hraised : resumeRun missingName emptiedDraft waitingRun =
      ({ waitingRun with status := "running" }, .error (.workflowNotExecutable
        "Version 1 definition is not a valid workflow graph: name: Field required")) := rfl
  refine ⟨hraised, fun hatomic => ?_⟩
  obtain ⟨hsame, -⟩ := hatomic _ _ hraised
  have hstatus : "running" = "paused" := congrArg StoredRun.status hsame
  revert hstatus
  decide

end StoredRun

-- How far a call of `resume_run` has come.
inductive CallPhase where
  | called
  | claimed
  | executing (launch : Launch)
  | raised (e : ResumeError)
  | returned

inductive CallEvent where
  | claim
  | prepare
  | finish (o : CaptureOutcome)

structure ResumeCall where
  req : ResumeRequest
  phase : CallPhase

-- One run row and every call that was made to resume it.
structure Resumes where
  row : StoredRun
  calls : List ResumeCall

inductive ResumesEvent where
  | call (req : ResumeRequest)
  | move (i : ℕ) (e : CallEvent)

-- The call has the row to itself: it claimed it and has not yet ended.
def CallPhase.holds : CallPhase → Bool
  | claimed | executing _ => true
  | called | raised _ | returned => false

namespace Resumes
open StoredRun

variable (D : ResumeDeps)

def ended {α : Type} (stored : StoredRun) (next : α → CallPhase) :
    Except ResumeError α → StoredRun × CallPhase
  | .ok a => (stored, next a)
  | .error e => (stored, .raised e)

def moveCall (req : ResumeRequest) (row : StoredRun) :
    CallPhase → CallEvent → Option (StoredRun × CallPhase)
  | .called, .claim =>
      let result := claimRun req row
      some (ended result.1 (fun _ => .claimed) result.2)
  | .claimed, .prepare => some (ended row .executing (prepare D req row))
  | .executing launch, .finish o =>
      match row.finish D launch o with
      | .ok stored => some (stored, .returned)
      | .error e => some (row, .raised e)
  | _, _ => none

def step (s : Resumes) : ResumesEvent → Option Resumes
  | .call req => some { s with calls := s.calls ++ [⟨req, .called⟩] }
  | .move i e =>
      match s.calls[i]? with
      | none => none
      | some c => (moveCall D c.req s.row c.phase e).map fun m =>
          ⟨m.1, s.calls.set i { c with phase := m.2 }⟩

def machine : Machine Resumes ResumesEvent := ⟨step D⟩

def start (row : StoredRun) : Resumes := ⟨row, []⟩

def Holder (s : Resumes) (i : ℕ) : Prop := ∃ c, s.calls[i]? = some c ∧ c.phase.holds = true

-- A row left RUNNING is in the hands of some call.
def Attended (s : Resumes) : Prop :=
  s.row.status = WorkflowRunStatus.running.value → ∃ i, s.Holder i

structure Custody (s : Resumes) : Prop where
  running : ∀ i, s.Holder i → s.row.status = WorkflowRunStatus.running.value
  single : ∀ i j, s.Holder i → s.Holder j → i = j

-- Nothing between the claim and the engine raises, nor does the sort of the approved steps.
def Sound (req : ResumeRequest) (row : StoredRun) : CallPhase → CallEvent → Prop
  | .claimed, .prepare => Resumable D req row
  | .executing launch, .finish _ => ∀ x ∈ launch.approvedSteps, ∃ stepId, x = .str stepId
  | _, _ => True

def SoundStep (s : Resumes) : ResumesEvent → Prop
  | .call _ => True
  | .move i e => ∀ c, s.calls[i]? = some c → Sound D c.req s.row c.phase e

section Spec
variable {D} {req : ResumeRequest} {row stored : StoredRun} {p p' : CallPhase} {e : CallEvent}
  {s s' : Resumes} {i : ℕ}

theorem sortedSteps_ok_iff {approved : List Json} :
    (∃ steps, sortedSteps approved = .ok steps) ↔ ∀ x ∈ approved, ∃ stepId, x = .str stepId := by
  unfold sortedSteps
  constructor
  · rintro ⟨steps, h⟩ x hx
    cases hm : approved.mapM stepText with
    | none =>
        rw [hm] at h
        cases h
    | some texts =>
        have hsome := Option.isSome_of_mem_mapM hm hx
        cases x with
        | str t => exact ⟨t, rfl⟩
        | null | bool | int | float | arr | obj => cases hsome
  · intro h
    have hm : ∃ texts, approved.mapM stepText = some texts := by
      induction approved with
      | nil => exact ⟨[], rfl⟩
      | cons x xs ih =>
          obtain ⟨⟨t, rfl⟩, hxs⟩ := List.forall_mem_cons.mp h
          obtain ⟨ts, hts⟩ := ih hxs
          exact ⟨t :: ts, by simp [List.mapM_cons, stepText, hts]⟩
    obtain ⟨texts, hm⟩ := hm
    rw [hm]
    exact ⟨_, rfl⟩

theorem finish_ok_iff {launch : Launch} {o : CaptureOutcome} :
    (∃ stored, row.finish D launch o = .ok stored) ↔
      ∀ x ∈ launch.approvedSteps, ∃ stepId, x = .str stepId := by
  rw [StoredRun.finish, Except.bind_succeeds, ← sortedSteps_ok_iff]
  exact ⟨fun ⟨steps, h, _⟩ => ⟨steps, h⟩, fun ⟨steps, h⟩ => ⟨steps, h, _, rfl⟩⟩

theorem finish_status {launch : Launch} {o : CaptureOutcome}
    (h : row.finish D launch o = .ok stored) :
    stored.status ≠ WorkflowRunStatus.running.value := by
  have hended : o.status.value ≠ WorkflowRunStatus.running.value := by
    rcases o.ended with hs | hs | hs <;> rw [hs] <;> decide
  obtain ⟨steps, -, h⟩ := Except.bind_ok_iff.mp h
  cases h
  exact hended

theorem moveCall_cases (h : moveCall D req row p e = some (stored, p')) :
    (p'.holds = true ∧ Sound D req row p e ∧ row.status = WorkflowRunStatus.paused.value ∧
        stored.status = WorkflowRunStatus.running.value) ∨
      (p'.holds = p.holds ∧ Sound D req row p e ∧ stored = row) ∨
      (p.holds = true ∧ p'.holds = false ∧
        (Sound D req row p e ∧ stored.status ≠ WorkflowRunStatus.running.value ∨
          ¬ Sound D req row p e ∧ stored = row)) := by
  cases p with
  | called =>
      cases e with
      | claim =>
          simp only [moveCall, Option.some.injEq] at h
          rcases hclaim : claimRun req row with ⟨r, result⟩
          cases result with
          | error x =>
              rw [hclaim] at h
              cases h
              exact Or.inr (Or.inl ⟨rfl, trivial, claimRun_error hclaim⟩)
          | ok u =>
              rw [hclaim] at h
              cases h
              obtain ⟨hpaused, rfl⟩ := claim_eq_some_iff.mp (claimRun_ok_iff.mp hclaim).2
              exact Or.inl ⟨rfl, trivial, hpaused, rfl⟩
      | prepare | finish o => cases h
  | claimed =>
      cases e with
      | prepare =>
          simp only [moveCall, Option.some.injEq] at h
          cases hprep : prepare D req row with
          | ok launch =>
              rw [hprep] at h
              cases h
              exact Or.inr (Or.inl ⟨rfl, prepare_ok_iff.mp ⟨launch, hprep⟩, rfl⟩)
          | error x =>
              rw [hprep] at h
              cases h
              exact Or.inr (Or.inr ⟨rfl, rfl, Or.inr ⟨prepare_error_iff.mp ⟨x, hprep⟩, rfl⟩⟩)
      | claim | finish o => cases h
  | executing launch =>
      cases e with
      | finish o =>
          simp only [moveCall] at h
          cases hfin : row.finish D launch o with
          | ok r =>
              rw [hfin] at h
              cases h
              refine Or.inr (Or.inr ⟨rfl, rfl, Or.inl ⟨?_, finish_status hfin⟩⟩)
              exact finish_ok_iff.mp ⟨stored, hfin⟩
          | error x =>
              rw [hfin] at h
              cases h
              refine Or.inr (Or.inr ⟨rfl, rfl, Or.inr ⟨fun hsound => ?_, rfl⟩⟩)
              obtain ⟨r, hr⟩ : ∃ r, row.finish D launch o = .ok r := finish_ok_iff.mpr hsound
              rw [hfin] at hr
              cases hr
      | claim | prepare => cases h
  | raised x | returned => cases e <;> cases h

theorem step_move (h : step D s (.move i e) = some s') :
    ∃ c stored p', s.calls[i]? = some c ∧ moveCall D c.req s.row c.phase e = some (stored, p') ∧
      s' = ⟨stored, s.calls.set i { c with phase := p' }⟩ := by
  simp only [step] at h
  cases hc : s.calls[i]? with
  | none =>
      rw [hc] at h
      cases h
  | some c =>
      rw [hc] at h
      obtain ⟨⟨stored, p'⟩, hm, rfl⟩ := Option.map_eq_some_iff.mp h
      exact ⟨c, stored, p', rfl, hm, rfl⟩

theorem holder_iff {c : ResumeCall} (h : s.calls[i]? = some c) :
    s.Holder i ↔ c.phase.holds = true := by
  simp [Holder, h]

theorem holder_set_self {c : ResumeCall} (h : s.calls[i]? = some c) :
    Holder ⟨stored, s.calls.set i { c with phase := p }⟩ i ↔ p.holds = true := by
  have hlt : i < s.calls.length := (List.getElem?_eq_some_iff.mp h).choose
  exact holder_iff (c := { c with phase := p }) (List.getElem?_set_self hlt)

theorem holder_set_ne {c : ResumeCall} {j : ℕ} (hne : i ≠ j) :
    Holder ⟨stored, s.calls.set i c⟩ j ↔ s.Holder j := by
  simp only [Holder, List.getElem?_set_ne hne]

theorem holder_call {j : ℕ} :
    Holder { s with calls := s.calls ++ [⟨req, .called⟩] } j ↔ s.Holder j := by
  unfold Holder
  rcases lt_trichotomy j s.calls.length with hlt | heq | hgt
  · rw [List.getElem?_append_left hlt]
  · subst heq
    simp [CallPhase.holds]
  · rw [List.getElem?_append_right hgt.le, List.getElem?_eq_none hgt.le,
      List.getElem?_eq_none (by simp; omega)]

theorem not_holder_start : ¬ (start row).Holder i := by
  rintro ⟨c, h, -⟩
  cases h

theorem custody_start : Custody (start row) :=
  ⟨fun _ h => absurd h not_holder_start, fun _ _ h => absurd h not_holder_start⟩

theorem none_left {c : ResumeCall} (hs : Custody s) (hc : s.calls[i]? = some c)
    (hheld : c.phase.holds = true) (hfree : p.holds = false) (j : ℕ) :
    ¬ Holder ⟨stored, s.calls.set i { c with phase := p }⟩ j := by
  intro hj
  rcases eq_or_ne i j with rfl | hne
  · rw [holder_set_self hc, hfree] at hj
    cases hj
  · exact hne (hs.single i j ((holder_iff hc).mpr hheld) ((holder_set_ne hne).mp hj))

theorem custody_step {e : ResumesEvent} (hs : Custody s) (h : step D s e = some s') :
    Custody s' := by
  cases e with
  | call req =>
      cases h
      exact ⟨fun j hj => hs.running j (holder_call.mp hj),
        fun j k hj hk => hs.single j k (holder_call.mp hj) (holder_call.mp hk)⟩
  | move i e =>
      obtain ⟨c, stored, p', hc, hm, rfl⟩ := step_move h
      rcases moveCall_cases hm with ⟨-, -, hpaused, hrun⟩ | ⟨hsame, -, rfl⟩ | ⟨hheld, hfree, -⟩
      · -- nobody held the row before, so the call that took it is alone
        have honly : ∀ j, Holder ⟨stored, s.calls.set i { c with phase := p' }⟩ j → i = j := by
          intro j hj
          by_contra hne
          have hrunning := hs.running j ((holder_set_ne hne).mp hj)
          exact paused_ne_running (hpaused.symm.trans hrunning)
        exact ⟨fun _ _ => hrun, fun j k hj hk => (honly j hj).symm.trans (honly k hk)⟩
      · have hiff : ∀ j, Holder ⟨s.row, s.calls.set i { c with phase := p' }⟩ j ↔ s.Holder j := by
          intro j
          rcases eq_or_ne i j with rfl | hne
          · rw [holder_set_self hc, hsame, holder_iff hc]
          · exact holder_set_ne hne
        exact ⟨fun j hj => hs.running j ((hiff j).mp hj),
          fun j k hj hk => hs.single j k ((hiff j).mp hj) ((hiff k).mp hk)⟩
      · have hnone : ∀ j, ¬ Holder ⟨stored, s.calls.set i { c with phase := p' }⟩ j :=
          none_left hs hc hheld hfree
        exact ⟨fun j hj => absurd hj (hnone j), fun j k hj _ => absurd hj (hnone j)⟩

theorem attended_step {e : ResumesEvent} (ha : Attended s) (hsound : SoundStep D s e)
    (h : step D s e = some s') : Attended s' := by
  cases e with
  | call req =>
      cases h
      intro hrun
      obtain ⟨j, hj⟩ := ha hrun
      exact ⟨j, holder_call.mpr hj⟩
  | move i e =>
      obtain ⟨c, stored, p', hc, hm, rfl⟩ := step_move h
      intro hrun
      rcases moveCall_cases hm with ⟨hholds, -⟩ | ⟨hsame, -, rfl⟩ | ⟨-, -, ⟨-, hend⟩ | ⟨hnot, -⟩⟩
      · exact ⟨i, (holder_set_self hc).mpr hholds⟩
      · obtain ⟨j, hj⟩ := ha hrun
        refine ⟨j, ?_⟩
        rcases eq_or_ne i j with rfl | hne
        · rw [holder_set_self hc, hsame, ← holder_iff hc]
          exact hj
        · exact (holder_set_ne hne).mpr hj
      · exact absurd hrun hend
      · exact absurd (hsound c hc) hnot

theorem unattended_step {e : ResumesEvent} (hs : Custody s) (hsound : ¬ SoundStep D s e)
    (h : step D s e = some s') : ¬ Attended s' := by
  cases e with
  | call req => exact absurd trivial hsound
  | move i e =>
      obtain ⟨c, stored, p', hc, hm, rfl⟩ := step_move h
      have hnot : ¬ Sound D c.req s.row c.phase e := by
        intro hok
        apply hsound
        intro c' hc'
        rw [hc] at hc'
        cases hc'
        exact hok
      rcases moveCall_cases hm with ⟨-, hok, -⟩ | ⟨-, hok, -⟩ | ⟨hheld, hfree, ⟨hok, -⟩ | ⟨-, rfl⟩⟩
      · exact absurd hok hnot
      · exact absurd hok hnot
      · exact absurd hok hnot
      · intro ha
        obtain ⟨j, hj⟩ := ha (hs.running i ((holder_iff hc).mpr hheld))
        exact none_left hs hc hheld hfree j hj

theorem attended_iff {es : List ResumesEvent} {t : Resumes}
    (hidle : row.status ≠ WorkflowRunStatus.running.value)
    (h : (machine D).run (start row) es = some t) :
    (∀ fs gs, es = fs ++ gs → ∀ u, (machine D).run (start row) fs = some u → Attended u) ↔
      (machine D).Along (SoundStep D) (start row) es := by
  apply (machine D).reached_iff (I := fun s => Custody s ∧ Attended s) And.right _ _ _ h
  · intro s e s' hs hsound hstep
    exact ⟨custody_step hs.1 hstep, attended_step hs.2 hsound hstep⟩
  · intro s e s' hs hsound hstep
    exact unattended_step hs.1 hsound hstep
  · exact ⟨custody_start, fun hrun => absurd hrun hidle⟩

theorem stranded_forever {es : List ResumesEvent} {t : Resumes}
    (hrow : s.row.status ≠ WorkflowRunStatus.paused.value) (hnone : ∀ i, ¬ s.Holder i)
    (h : (machine D).run s es = some t) : t.row = s.row := by
  have hkeep : t.row = s.row ∧ ∀ i, ¬ t.Holder i := by
    apply (machine D).invariant_of_step (I := fun u => u.row = s.row ∧ ∀ i, ¬ u.Holder i)
      _ ⟨rfl, hnone⟩ h
    rintro u e u' ⟨hu, hnone⟩ hstep
    cases e with
    | call req =>
        cases hstep
        exact ⟨hu, fun j hj => hnone j (holder_call.mp hj)⟩
    | move i e =>
        obtain ⟨c, stored, p', hc, hm, rfl⟩ := step_move hstep
        have hidle : c.phase.holds = false := by
          simpa using mt (holder_iff hc).mpr (hnone i)
        rcases moveCall_cases hm with ⟨-, -, hpaused, -⟩ | ⟨hsame, -, rfl⟩ | ⟨hheld, -⟩
        · rw [hu] at hpaused
          exact absurd hpaused hrow
        · refine ⟨hu, fun j hj => ?_⟩
          rcases eq_or_ne i j with rfl | hne
          · rw [holder_set_self hc, hsame, hidle] at hj
            cases hj
          · exact hnone j ((holder_set_ne hne).mp hj)
        · rw [hidle] at hheld
          cases hheld
  exact hkeep.1

theorem resumeRun_reached (D : ResumeDeps) (req : ResumeRequest) (row : StoredRun) :
    ∃ es, (machine D).run (start row) es =
      some ⟨(resumeRun D req row).1,
        [⟨req, (ended (resumeRun D req row).1 .executing (resumeRun D req row).2).2⟩]⟩ := by
  rcases hclaim : claimRun req row with ⟨stored, r⟩
  cases r with
  | error e =>
      refine ⟨[.call req, .move 0 .claim], ?_⟩
      simp [Machine.run, machine, step, start, moveCall, ended, resumeRun, hclaim]
  | ok u =>
      refine ⟨[.call req, .move 0 .claim, .move 0 .prepare], ?_⟩
      simp only [Machine.run, machine, step, start, moveCall, ended, resumeRun, hclaim,
        List.nil_append, List.getElem?_cons_zero, Option.map_some, List.set_cons_zero]
      cases prepare D req stored <;> rfl

theorem stranded_of_not_atomic (h : ¬ AtomicOnError D req row) :
    ∃ es t, (machine D).run (start row) es = some t ∧
      ∀ fs u, (machine D).run t fs = some u →
        u.row.status = WorkflowRunStatus.running.value ∧ u.row = t.row := by
  obtain ⟨es, hes⟩ := resumeRun_reached D req row
  rw [atomic_on_error_iff] at h
  simp only [not_or, not_not] at h
  obtain ⟨hpaused, hdb, hnot⟩ := h
  have hclaim := claimRun_ok_iff.mpr ⟨hdb, claim_eq_some_iff.mpr ⟨hpaused, rfl⟩⟩
  obtain ⟨e, he⟩ := prepare_error_iff.mpr (mt resumable_status.mp hnot)
  rw [resumeRun_claimed hclaim, he] at hes
  refine ⟨es, _, hes, fun fs u hu => ?_⟩
  have hkept : u.row = { row with status := WorkflowRunStatus.running.value } := by
    apply stranded_forever paused_ne_running.symm _ hu
    rintro i ⟨c, hc, hholds⟩
    rw [List.getElem?_singleton] at hc
    split at hc
    · cases hc
      cases hholds
    · cases hc
  exact ⟨by rw [hkept], hkept⟩

end Spec

end Resumes

end BTagent
