import BTagent.Engine.Completion
import BTagent.Engine.ForkOnce
import BTagent.Lib.Slots
import BTagent.Runs.RunRow

namespace BTagent

-- Where a delivery of `execute_workflow_run` or a call of `resume_run` stands. `finishing` holds
-- the columns it is about to assign, `written` the row version of its UPDATE until the commit.
inductive JobStage where
  | delivered
  | requested
  | claimed
  | refreshing
  | loaded (row : WorkflowRunRow) (paused : Option StepId)
  | attempting (P : Posture) (s : Exec) (write : Outcome → WorkflowRunRow → WorkflowRunRow)
  | finishing (write : WorkflowRunRow → WorkflowRunRow)
  | written (row : WorkflowRunRow)
  | gone

namespace JobStage

def isAttempting : JobStage → Bool
  | attempting .. => true
  | _ => false

def inProgress : JobStage → Bool
  | delivered | requested | gone => false
  | _ => true

end JobStage

-- `executed` records the `node.run` calls of the attempt.
structure Job where
  stage : JobStage
  executed : List Frame

-- `row` is the committed version; `lock` is the job whose UPDATE is not committed yet. `restarts`
-- records the attempts that began at the entry node after another had executed nodes.
structure Background where
  row : WorkflowRunRow
  lock : Option ℕ
  jobs : List Job
  restarts : List ℕ

inductive JobEvent where
  | deliver
  | request
  | select (i : ℕ)
  | claim (i : ℕ)
  | commitClaim (i : ℕ)
  | refresh (i : ℕ)
  | disappeared (i : ℕ)
  | begin (i : ℕ) (autonomy : IntegrationAutonomy)
  | engine (i : ℕ) (e : Event)
  | flush (i : ℕ)
  | commit (i : ℕ)
  | crash (i : ℕ)

namespace Background

def start (N : JsonbNumeric) (payload : Dict) : Background := ⟨.createPending N payload, none, [], []⟩

def move (b : Background) (i : ℕ) (job : Job) (stage : JobStage) : Background :=
  { b with jobs := b.jobs.set i { job with stage } }

section Step
variable (E : Engine) (N : JsonbNumeric) (P : Posture) (wf : Workflow)

def launch (P : Posture) (write : Outcome → WorkflowRunRow → WorkflowRunRow)
    (evidence : List EvidenceEntry) : Except ExecutionError Exec → JobStage
  | .ok s => .attempting P s write
  | .error e => .finishing (write (.capture (.fresh .empty) evidence (.error (.execution e))))

-- The engine call of `execute_pending_run` and of `resume_run`.
def attempt (P : Posture) (row : WorkflowRunRow) : Option StepId → JobStage
  | none => launch P (fun o row => row.complete N o) []
      (EventLoop.execute wf none [] [] (.dict row.triggerPayload))
  | some paused => launch P (fun o _ => row.update N (row.approve paused) o) row.evidenceChain
      (EventLoop.execute wf (some row.rehydrate) (row.approve paused) row.evidenceChain
        (.dict row.triggerPayload))

def settle (s : Exec) (P : Posture) (write : Outcome → WorkflowRunRow → WorkflowRunRow) :
    JobStage :=
  match s.ended with
  | none => .attempting P s write
  | some r => .finishing (write (.capture s.state s.evidence r))

def missing (row : WorkflowRunRow) : WorkflowRunRow :=
  { row with
    status := .failed
    error := some (.unexpected "Workflow or version row disappeared before execution.") }

def stepJob (b : Background) (i : ℕ) (job : Job) : JobStage → JobEvent → Option Background
  | .delivered, .select _ =>
      some (b.move i job (if b.row.status = .running then .loaded b.row none else .gone))
  | .requested, .claim _ =>
      if b.lock.isSome then none
      else if b.row.status = .paused then some { b.move i job .claimed with lock := some i }
      else some (b.move i job .gone)
  | .claimed, .commitClaim _ =>
      some { b.move i job .refreshing with row := { b.row with status := .running }, lock := none }
  | .refreshing, .refresh _ =>
      match b.row.pausedNodeId with
      | none => some (b.move i job .gone)
      | some paused =>
          some (b.move i job (if paused = "" then .gone else .loaded b.row (some paused)))
  | .loaded _ none, .disappeared _ => some (b.move i job (.finishing missing))
  | .loaded row paused, .begin _ autonomy =>
      some { b.move i job (attempt N wf { P with integrationAutonomy := autonomy } row paused) with
        restarts :=
          if paused.isNone && b.jobs.any (fun other => !other.executed.isEmpty) then
            b.restarts ++ [i]
          else b.restarts }
  | .attempting P s write, .engine _ e =>
      (EventLoop.step E P wf backendChain s e).map fun s' =>
        b.move i ⟨job.stage, s'.runs⟩ (settle s' P write)
  | .finishing write, .flush _ =>
      if b.lock.isSome then none
      else some { b.move i job (.written (write b.row)) with lock := some i }
  | .written row, .commit _ => some { b.move i job .gone with row, lock := none }
  | .gone, .crash _ => none
  | _, .crash _ =>
      some { b.move i job .gone with lock := if b.lock = some i then none else b.lock }
  | _, _ => none

def step (b : Background) : JobEvent → Option Background
  | .deliver => some { b with jobs := b.jobs ++ [⟨.delivered, []⟩] }
  | .request => some { b with jobs := b.jobs ++ [⟨.requested, []⟩] }
  | e@(.select i) | e@(.claim i) | e@(.commitClaim i) | e@(.refresh i) | e@(.disappeared i)
  | e@(.begin i _) | e@(.engine i _) | e@(.flush i) | e@(.commit i) | e@(.crash i) =>
      (b.jobs[i]?).bind fun job => stepJob E N P wf b i job job.stage e

def machine : Machine Background JobEvent := ⟨step E N P wf⟩

end Step

-- A delivery finds the row running only while no job is in progress and none has executed nodes.
def ReadsAlone (b : Background) : JobEvent → Prop
  | .select _ => b.row.status = .running →
      ∀ job ∈ b.jobs, job.stage.inProgress = false ∧ job.executed.isEmpty = true
  | _ => True

instance (b : Background) : ∀ e, Decidable (ReadsAlone b e)
  | .select _ => inferInstanceAs (Decidable (_ → _))
  | .deliver | .request | .claim _ | .commitClaim _ | .refresh _ | .disappeared _ | .begin ..
  | .engine .. | .flush _ | .commit _ | .crash _ => isTrue trivial

end Background

namespace Background

variable {E : Engine} {N : JsonbNumeric} {P : Posture} {wf : Workflow} {b b' : Background} {i : ℕ}
  {job : Job} {e : JobEvent}

theorem capture_status_ne_running {st : WorkflowState} {evidence : List EvidenceEntry}
    {r : Except Failure (Option Dict)} : (Outcome.capture st evidence r).status ≠ .running := by
  unfold Outcome.capture
  split <;> simp

section Steps

-- What a job may do next, with all that its step checks.
inductive JobStep (E : Engine) (N : JsonbNumeric) (P : Posture) (wf : Workflow) (b : Background)
    (i : ℕ) (job : Job) : JobEvent → Background → Prop where
  | read {k : ℕ} (hstage : job.stage = .delivered) (hrow : b.row.status = .running) :
      JobStep E N P wf b i job (.select k) (b.move i job (.loaded b.row none))
  | leave {ev : JobEvent} (hstage : job.stage ≠ .claimed ∧ ∀ row, job.stage ≠ .written row) :
      JobStep E N P wf b i job ev (b.move i job .gone)
  | claim {k : ℕ} (hlock : b.lock = none) (hrow : b.row.status = .paused) :
      JobStep E N P wf b i job (.claim k) { b.move i job .claimed with lock := some i }
  | commitClaim {k : ℕ} (hstage : job.stage = .claimed) :
      JobStep E N P wf b i job (.commitClaim k)
        { b.move i job .refreshing with row := { b.row with status := .running }, lock := none }
  | refresh {k : ℕ} {paused : StepId} (hstage : job.stage = .refreshing) :
      JobStep E N P wf b i job (.refresh k) (b.move i job (.loaded b.row (some paused)))
  | disappeared {k : ℕ} {row : WorkflowRunRow} (hstage : job.stage = .loaded row none) :
      JobStep E N P wf b i job (.disappeared k) (b.move i job (.finishing missing))
  | begin {k : ℕ} {row : WorkflowRunRow} {paused : Option StepId} {autonomy : IntegrationAutonomy}
      (hstage : job.stage = .loaded row paused) :
      JobStep E N P wf b i job (.begin k autonomy)
        { b.move i job (attempt N wf { P with integrationAutonomy := autonomy } row paused) with
          restarts :=
            if paused.isNone && b.jobs.any (fun other => !other.executed.isEmpty) then
              b.restarts ++ [i]
            else b.restarts }
  | engine {k : ℕ} {P' : Posture} {s s' : Exec}
      {write : Outcome → WorkflowRunRow → WorkflowRunRow} {ev : Event}
      (hstage : job.stage = .attempting P' s write) :
      JobStep E N P wf b i job (.engine k ev) (b.move i ⟨job.stage, s'.runs⟩ (settle s' P' write))
  | flush {k : ℕ} {write : WorkflowRunRow → WorkflowRunRow} (hstage : job.stage = .finishing write)
      (hlock : b.lock = none) :
      JobStep E N P wf b i job (.flush k)
        { b.move i job (.written (write b.row)) with lock := some i }
  | commit {k : ℕ} {row : WorkflowRunRow} (hstage : job.stage = .written row) :
      JobStep E N P wf b i job (.commit k) { b.move i job .gone with row, lock := none }
  | crash {k : ℕ} :
      JobStep E N P wf b i job (.crash k)
        { b.move i job .gone with lock := if b.lock = some i then none else b.lock }

theorem stepJob_cases (h : stepJob E N P wf b i job job.stage e = some b') :
    JobStep E N P wf b i job e b' := by
  cases hstage : job.stage with
  | delivered =>
      cases e with
      | select k =>
          rw [hstage] at h
          simp only [stepJob] at h
          split at h
          · next hrow => cases h; exact .read hstage hrow
          · cases h; exact .leave (by simp [hstage])
      | crash k => rw [hstage] at h; cases h; exact .crash
      | _ => rw [hstage] at h; cases h
  | requested =>
      cases e with
      | claim k =>
          rw [hstage] at h
          simp only [stepJob] at h
          split at h
          · cases h
          · next hlock =>
              split at h
              · next hrow => cases h; exact .claim (by simpa using hlock) hrow
              · cases h; exact .leave (by simp [hstage])
      | crash k => rw [hstage] at h; cases h; exact .crash
      | _ => rw [hstage] at h; cases h
  | claimed =>
      cases e with
      | commitClaim k => rw [hstage] at h; cases h; exact .commitClaim hstage
      | crash k => rw [hstage] at h; cases h; exact .crash
      | _ => rw [hstage] at h; cases h
  | refreshing =>
      cases e with
      | refresh k =>
          rw [hstage] at h
          simp only [stepJob] at h
          split at h
          · cases h; exact .leave (by simp [hstage])
          · split at h
            · cases h; exact .leave (by simp [hstage])
            · cases h; exact .refresh hstage
      | crash k => rw [hstage] at h; cases h; exact .crash
      | _ => rw [hstage] at h; cases h
  | loaded row paused =>
      cases e with
      | disappeared k =>
          cases paused with
          | none => rw [hstage] at h; cases h; exact .disappeared hstage
          | some paused => rw [hstage] at h; cases h
      | begin k autonomy =>
          rw [hstage] at h
          cases paused <;> cases h <;> exact .begin hstage
      | crash k => rw [hstage] at h; cases paused <;> cases h <;> exact .crash
      | _ => rw [hstage] at h; cases paused <;> cases h
  | attempting P' s write =>
      cases e with
      | engine k ev =>
          rw [hstage] at h
          obtain ⟨s', -, rfl⟩ := Option.map_eq_some_iff.mp h
          exact .engine hstage
      | crash k => rw [hstage] at h; cases h; exact .crash
      | _ => rw [hstage] at h; cases h
  | finishing write =>
      cases e with
      | flush k =>
          rw [hstage] at h
          simp only [stepJob] at h
          split at h
          · cases h
          · next hlock => cases h; exact .flush hstage (by simpa using hlock)
      | crash k => rw [hstage] at h; cases h; exact .crash
      | _ => rw [hstage] at h; cases h
  | written row =>
      cases e with
      | commit k => rw [hstage] at h; cases h; exact .commit hstage
      | crash k => rw [hstage] at h; cases h; exact .crash
      | _ => rw [hstage] at h; cases h
  | gone =>
      cases e <;> rw [hstage] at h <;> cases h

theorem step_cases (h : step E N P wf b e = some b') :
    (∃ stage : JobStage, (stage = .delivered ∨ stage = .requested) ∧
      b' = { b with jobs := b.jobs ++ [⟨stage, []⟩] }) ∨
    ∃ i job, b.jobs[i]? = some job ∧ JobStep E N P wf b i job e b' := by
  have hjob : ∀ {i : ℕ}, ((b.jobs[i]?).bind fun job => stepJob E N P wf b i job job.stage e) =
      some b' → ∃ i job, b.jobs[i]? = some job ∧ JobStep E N P wf b i job e b' := by
    intro i hi
    obtain ⟨job, hget, hstep⟩ := Option.bind_eq_some_iff.mp hi
    exact ⟨i, job, hget, stepJob_cases hstep⟩
  cases e with
  | deliver => cases h; exact Or.inl ⟨_, Or.inl rfl, rfl⟩
  | request => cases h; exact Or.inl ⟨_, Or.inr rfl, rfl⟩
  | _ => exact Or.inr (hjob h)

end Steps

section Invariant
variable {job' : Job} {k : ℕ} {other : Job}

def InProgress (job : Job) : Prop := job.stage.inProgress = true

-- The row version that a stage is going to write is not a running one.
def Settles : JobStage → Prop
  | .attempting _ _ write => ∀ o row, (write o row).status = o.status
  | .finishing write => ∀ row, (write row).status ≠ .running
  | .written row => row.status ≠ .running
  | _ => True

def HoldsLock (job : Job) : Prop := job.stage = .claimed ∨ ∃ row, job.stage = .written row

structure Inv (b : Background) : Prop where
  alone : Slots.AtMostOne InProgress b.jobs
  idle : b.row.status ≠ .running → ∀ job ∈ b.jobs, InProgress job → job.stage = .claimed
  locked : ∀ {i : ℕ} {job : Job}, b.jobs[i]? = some job → HoldsLock job → b.lock = some i
  settles : ∀ job ∈ b.jobs, Settles job.stage
  fresh : ∀ job ∈ b.jobs, (∃ row, job.stage = .loaded row none) →
    ∀ other ∈ b.jobs, other.executed = []
  restarts : b.restarts = []

theorem HoldsLock.inProgress (h : HoldsLock job) : InProgress job := by
  rcases h with h | ⟨row, h⟩ <;> simp [InProgress, h, JobStage.inProgress]

theorem Inv.others (h : Inv b) (hget : b.jobs[i]? = some job) (hjob : InProgress job)
    (hother : b.jobs[k]? = some other) (hk : k ≠ i) : ¬ InProgress other :=
  fun hp => hk (h.alone k i other job hother hget hp hjob)

theorem Inv.none_in_progress (h : Inv b) (hlock : b.lock = none) (hrow : b.row.status ≠ .running) :
    ∀ other ∈ b.jobs, ¬ InProgress other := by
  intro other hmem hp
  obtain ⟨k, hk⟩ := List.mem_iff_getElem?.mp hmem
  have hlocked := h.locked hk (Or.inl (h.idle hrow other hmem hp))
  rw [hlock] at hlocked
  cases hlocked

theorem inv_set {row : WorkflowRunRow} {lock : Option ℕ} (h : Inv b)
    (hget : b.jobs[i]? = some job)
    (hprog : InProgress job' → InProgress job ∨ ∀ other ∈ b.jobs, ¬ InProgress other)
    (hidle : row.status ≠ .running → (InProgress job' → job'.stage = .claimed) ∧
      ∀ k other, k ≠ i → b.jobs[k]? = some other → InProgress other → other.stage = .claimed)
    (hlock : (HoldsLock job' → lock = some i) ∧
      ∀ k other, k ≠ i → b.jobs[k]? = some other → HoldsLock other → lock = some k)
    (hsettles : Settles job'.stage)
    (hfresh : ∀ row, job'.stage = .loaded row none →
      job'.executed = [] ∧ ∀ other ∈ b.jobs, other.executed = [])
    (hexec : job'.executed = job.executed ∨ InProgress job) :
    Inv { b with row, lock, jobs := b.jobs.set i job' } := by
  have hmem : ∀ {other}, other ∈ b.jobs.set i job' →
      other = job' ∨ ∃ k, k ≠ i ∧ b.jobs[k]? = some other := by
    intro other ho
    obtain ⟨k, hk⟩ := List.mem_iff_getElem?.mp ho
    rcases Slots.getElem?_set_cases hk with ⟨-, rfl⟩ | ⟨hne, hk⟩
    · exact Or.inl rfl
    · exact Or.inr ⟨k, hne, hk⟩
  refine ⟨?_, fun hrow other ho hp => ?_, fun {k other} ho hl => ?_, ?_, ?_, h.restarts⟩
  · by_cases hp : InProgress job'
    · rcases hprog hp with hp' | hnone
      · exact h.alone.set hget fun _ => hp'
      · exact .set_alone hnone
    · exact h.alone.set hget fun hp' => absurd hp' hp
  · rcases hmem ho with rfl | ⟨k, hk, hget'⟩
    · exact (hidle hrow).1 hp
    · exact (hidle hrow).2 k other hk hget' hp
  · rcases Slots.getElem?_set_cases ho with ⟨rfl, rfl⟩ | ⟨hk, hget'⟩
    · exact hlock.1 hl
    · exact hlock.2 k other hk hget' hl
  · exact Slots.forall_set (P := fun job : Job => Settles job.stage) h.settles hsettles
  · rintro loader hloader ⟨row', hload⟩ other hother
    have hold : ∀ other ∈ b.jobs, other.executed = [] := by
      rcases hmem hloader with rfl | ⟨k, hk, hget'⟩
      · exact (hfresh row' hload).2
      · exact h.fresh loader (List.mem_of_getElem? hget') ⟨row', hload⟩
    rcases hmem hother with rfl | ⟨k, -, hget'⟩
    · rcases hmem hloader with rfl | ⟨k, hk, hget'⟩
      · exact (hfresh row' hload).1
      · rcases hexec with heq | hp
        · rw [heq]
          exact hold job (List.mem_of_getElem? hget)
        · refine absurd ?_ (h.others hget hp hget' hk)
          simp [InProgress, hload, JobStage.inProgress]
    · exact hold other (List.mem_of_getElem? hget')

theorem inv_move (h : Inv b) (hget : b.jobs[i]? = some job)
    (hprog : InProgress job' → InProgress job ∧ job.stage ≠ .claimed) (hlock : ¬ HoldsLock job')
    (hsettles : Settles job'.stage) (hfresh : ∀ row, job'.stage ≠ .loaded row none)
    (hexec : job'.executed = job.executed ∨ InProgress job) :
    Inv { b with jobs := b.jobs.set i job' } := by
  refine inv_set h hget (fun hp => Or.inl (hprog hp).1) (fun hrow => ⟨fun hp => ?_, ?_⟩)
    ⟨fun hl => absurd hl hlock, fun k other _ hk hl => h.locked hk hl⟩ hsettles
    (fun row hload => absurd hload (hfresh row)) hexec
  · obtain ⟨hp', hne⟩ := hprog hp
    exact absurd (h.idle hrow job (List.mem_of_getElem? hget) hp') hne
  · exact fun k other _ hk hp => h.idle hrow other (List.mem_of_getElem? hk) hp

theorem settles_attempt {row : WorkflowRunRow} {paused : Option StepId} :
    Settles (attempt N wf P row paused) ∧ (∀ row', attempt N wf P row paused ≠ .loaded row' none) ∧
      attempt N wf P row paused ≠ .claimed ∧ ∀ row', attempt N wf P row paused ≠ .written row' := by
  have hlaunch : ∀ {write : Outcome → WorkflowRunRow → WorkflowRunRow} {evidence}
      {r : Except ExecutionError Exec}, (∀ o row, (write o row).status = o.status) →
      Settles (launch P write evidence r) ∧ (∀ row', launch P write evidence r ≠ .loaded row' none) ∧
        launch P write evidence r ≠ .claimed ∧ ∀ row', launch P write evidence r ≠ .written row' := by
    intro write evidence r hw
    cases r with
    | ok s => exact ⟨hw, by simp [launch], by simp [launch], by simp [launch]⟩
    | error e =>
        refine ⟨fun row => ?_, by simp [launch], by simp [launch], by simp [launch]⟩
        rw [hw]
        exact capture_status_ne_running
  cases paused with
  | none => exact hlaunch fun _ _ => rfl
  | some paused => exact hlaunch fun _ _ => rfl

theorem settles_settle {P' : Posture} {s : Exec} {write : Outcome → WorkflowRunRow → WorkflowRunRow}
    (hw : ∀ o row, (write o row).status = o.status) : Settles (settle s P' write) := by
  unfold settle
  split
  · exact hw
  · intro row
    rw [hw]
    exact capture_status_ne_running

theorem inv_enqueue {stage : JobStage} (h : Inv b) (hstage : stage = .delivered ∨ stage = .requested) :
    Inv { b with jobs := b.jobs ++ [⟨stage, []⟩] } := by
  have hout : ¬ InProgress ⟨stage, []⟩ := by
    rcases hstage with rfl | rfl <;> simp [InProgress, JobStage.inProgress]
  have hold : ∀ {other : Job}, other ∈ b.jobs ++ [⟨stage, []⟩] → InProgress other →
      other ∈ b.jobs := by
    intro other ho hp
    rcases List.mem_append.mp ho with ho | ho
    · exact ho
    · obtain rfl := List.mem_singleton.mp ho
      exact absurd hp hout
  refine ⟨h.alone.append hout, fun hrow other ho hp => h.idle hrow other (hold ho hp) hp,
    fun {k other} ho hl => ?_, fun other ho => ?_, ?_, h.restarts⟩
  · rcases Nat.lt_or_ge k b.jobs.length with hlt | hge
    · rw [List.getElem?_append_left hlt] at ho
      exact h.locked ho hl
    · rw [List.getElem?_append_right hge] at ho
      obtain rfl := List.mem_singleton.mp (List.mem_of_getElem? ho)
      exact absurd hl.inProgress hout
  · rcases List.mem_append.mp ho with ho | ho
    · exact h.settles other ho
    · obtain rfl := List.mem_singleton.mp ho
      rcases hstage with rfl | rfl <;> trivial
  · rintro loader hloader ⟨row, hload⟩ other hother
    have hp : InProgress loader := by simp [InProgress, hload, JobStage.inProgress]
    rcases List.mem_append.mp hother with ho | ho
    · exact h.fresh loader (hold hloader hp) ⟨row, hload⟩ other ho
    · obtain rfl := List.mem_singleton.mp ho
      rfl

theorem inv_read (h : Inv b) (hget : b.jobs[i]? = some job) (hrow : b.row.status = .running)
    (hg : ∀ job ∈ b.jobs, job.stage.inProgress = false ∧ job.executed.isEmpty = true) :
    Inv (b.move i job (.loaded b.row none)) := by
  have hnone : ∀ other ∈ b.jobs, ¬ InProgress other := by
    intro other ho hp
    rw [InProgress, (hg other ho).1] at hp
    cases hp
  have hempty : ∀ other ∈ b.jobs, other.executed = [] :=
    fun other ho => List.isEmpty_iff.mp (hg other ho).2
  refine inv_set h hget (fun _ => Or.inr hnone) (fun hne => absurd hrow hne) ⟨?_, ?_⟩ trivial ?_
    (Or.inl rfl)
  · simp [HoldsLock]
  · exact fun k other _ hk hl => h.locked hk hl
  · exact fun _ _ => ⟨hempty job (List.mem_of_getElem? hget), hempty⟩

theorem inv_claim (h : Inv b) (hget : b.jobs[i]? = some job) (hlock : b.lock = none)
    (hrow : b.row.status = .paused) : Inv { b.move i job .claimed with lock := some i } := by
  have hnone := h.none_in_progress hlock (by simp [hrow])
  refine inv_set h hget (fun _ => Or.inr hnone) (fun _ => ⟨fun _ => rfl, ?_⟩)
    ⟨fun _ => rfl, ?_⟩ trivial (by simp) (Or.inl rfl)
  · exact fun k other _ hk hp => absurd hp (hnone other (List.mem_of_getElem? hk))
  · exact fun k other _ hk hl => absurd hl.inProgress (hnone other (List.mem_of_getElem? hk))

theorem inv_commitClaim (h : Inv b) (hget : b.jobs[i]? = some job) (hstage : job.stage = .claimed) :
    Inv { b.move i job .refreshing with row := { b.row with status := .running }, lock := none } := by
  have hp : InProgress job := by simp [InProgress, hstage, JobStage.inProgress]
  refine inv_set h hget (fun _ => Or.inl hp) (fun hne => absurd rfl hne) ⟨?_, ?_⟩ trivial (by simp)
    (Or.inl rfl)
  · simp [HoldsLock]
  · exact fun k other hk hget' hl => absurd hl.inProgress (h.others hget hp hget' hk)

theorem inv_begin {row : WorkflowRunRow} {paused : Option StepId} (h : Inv b)
    (hget : b.jobs[i]? = some job) (hstage : job.stage = .loaded row paused) :
    Inv { b.move i job (attempt N wf P row paused) with
      restarts :=
        if paused.isNone && b.jobs.any (fun other => !other.executed.isEmpty) then b.restarts ++ [i]
        else b.restarts } := by
  have hrestarts : (if paused.isNone && b.jobs.any (fun other => !other.executed.isEmpty) then
      b.restarts ++ [i] else b.restarts) = b.restarts := by
    cases paused with
    | some paused => rfl
    | none =>
        have hfresh := h.fresh job (List.mem_of_getElem? hget) ⟨row, hstage⟩
        have hany : b.jobs.any (fun other => !other.executed.isEmpty) = false := by
          refine List.any_eq_false.mpr fun other ho => ?_
          simp [hfresh other ho]
        simp [hany]
  rw [hrestarts]
  obtain ⟨hsettles, hload, hclaimed, hwritten⟩ :=
    @settles_attempt N P wf row paused
  refine inv_move h hget (fun _ => ?_) ?_ hsettles hload (Or.inl rfl)
  · simp [InProgress, hstage, JobStage.inProgress]
  · rintro (hc | ⟨row', hw⟩)
    · exact hclaimed hc
    · exact hwritten row' hw

theorem inv_engine {P' : Posture} {s s' : Exec} {write : Outcome → WorkflowRunRow → WorkflowRunRow}
    (h : Inv b) (hget : b.jobs[i]? = some job) (hstage : job.stage = .attempting P' s write) :
    Inv (b.move i ⟨job.stage, s'.runs⟩ (settle s' P' write)) := by
  have hp : InProgress job := by simp [InProgress, hstage, JobStage.inProgress]
  have hsettles := h.settles job (List.mem_of_getElem? hget)
  rw [hstage] at hsettles
  refine inv_move h hget (fun _ => ⟨hp, by simp [hstage]⟩) ?_ (settles_settle hsettles) ?_ (Or.inr hp)
  · unfold HoldsLock settle
    split <;> simp
  · intro row
    unfold settle
    split <;> simp

theorem inv_flush {write : WorkflowRunRow → WorkflowRunRow} (h : Inv b)
    (hget : b.jobs[i]? = some job) (hstage : job.stage = .finishing write) (hlock : b.lock = none) :
    Inv { b.move i job (.written (write b.row)) with lock := some i } := by
  have hmem := List.mem_of_getElem? hget
  have hp : InProgress job := by simp [InProgress, hstage, JobStage.inProgress]
  have hsettles := h.settles job hmem
  rw [hstage] at hsettles
  have hrow : ¬ b.row.status ≠ .running := fun hne => h.none_in_progress hlock hne job hmem hp
  refine inv_set h hget (fun _ => Or.inl hp) (fun hne => absurd hne hrow) ⟨fun _ => rfl, ?_⟩
    (hsettles b.row) (by simp) (Or.inl rfl)
  exact fun k other hk hget' hl => absurd hl.inProgress (h.others hget hp hget' hk)

theorem inv_commit {row : WorkflowRunRow} (h : Inv b) (hget : b.jobs[i]? = some job)
    (hstage : job.stage = .written row) : Inv { b.move i job .gone with row, lock := none } := by
  have hp : InProgress job := by simp [InProgress, hstage, JobStage.inProgress]
  refine inv_set h hget (fun _ => Or.inl hp) (fun _ => ⟨?_, ?_⟩) ⟨?_, ?_⟩ trivial (by simp)
    (Or.inl rfl)
  · simp [InProgress, JobStage.inProgress]
  · exact fun k other hk hget' hp' => absurd hp' (h.others hget hp hget' hk)
  · simp [HoldsLock]
  · exact fun k other hk hget' hl => absurd hl.inProgress (h.others hget hp hget' hk)

theorem inv_crash (h : Inv b) (hget : b.jobs[i]? = some job) :
    Inv { b.move i job .gone with lock := if b.lock = some i then none else b.lock } := by
  refine inv_set h hget ?_ (fun hne => ⟨?_, ?_⟩) ⟨?_, ?_⟩ trivial (by simp) (Or.inl rfl)
  · simp [InProgress, JobStage.inProgress]
  · simp [InProgress, JobStage.inProgress]
  · exact fun k other _ hk hp => h.idle hne other (List.mem_of_getElem? hk) hp
  · simp [HoldsLock]
  · intro k other hk hget' hl
    have hlock := h.locked hget' hl
    rw [if_neg (by simpa [hlock] using hk), hlock]

theorem inv_step (h : Inv b) (hg : ReadsAlone b e) (hstep : step E N P wf b e = some b') :
    Inv b' := by
  rcases step_cases hstep with ⟨stage, hstage, rfl⟩ | ⟨i, job, hget, hjob⟩
  · exact inv_enqueue h hstage
  · cases hjob with
    | read hstage hrow => exact inv_read h hget hrow (hg hrow)
    | leave hstage =>
        exact inv_move h hget (by simp [InProgress, JobStage.inProgress]) (by simp [HoldsLock])
          trivial (by simp) (Or.inl rfl)
    | claim hlock hrow => exact inv_claim h hget hlock hrow
    | commitClaim hstage => exact inv_commitClaim h hget hstage
    | refresh hstage =>
        exact inv_move h hget (by simp [InProgress, hstage, JobStage.inProgress])
          (by simp [HoldsLock]) trivial (by simp) (Or.inl rfl)
    | disappeared hstage =>
        refine inv_move h hget (by simp [InProgress, hstage, JobStage.inProgress])
          (by simp [HoldsLock]) ?_ (by simp) (Or.inl rfl)
        exact fun row => by simp [missing]
    | begin hstage => exact inv_begin h hget hstage
    | engine hstage => exact inv_engine h hget hstage
    | flush hstage hlock => exact inv_flush h hget hstage hlock
    | commit hstage => exact inv_commit h hget hstage
    | crash => exact inv_crash h hget

theorem inv_start {payload : Dict} : Inv (start N payload) where
  alone := by
    intro i j a b hi
    cases hi
  idle := by
    intro _ job hjob
    cases hjob
  locked := by
    intro i job hi
    cases hi
  settles := by
    intro job hjob
    cases hjob
  fresh := by
    intro job hjob
    cases hjob
  restarts := rfl

end Invariant

theorem inProgress_of_isAttempting {stage : JobStage} (h : stage.isAttempting = true) :
    stage.inProgress = true := by
  cases stage <;> first | rfl | cases h

theorem background_runs_once {payload : Dict} {es : List JobEvent}
    (hrun : (machine E N P wf).run (start N payload) es = some b)
    (hguard : (machine E N P wf).Along ReadsAlone (start N payload) es) :
    Slots.AtMostOne (fun job : Job => job.stage.isAttempting = true) b.jobs ∧ b.restarts = [] := by
  have hinv : Inv b :=
    Machine.invariant_along _ (I := Inv) (fun h hg hstep => inv_step h hg hstep) inv_start hguard
      hrun
  exact ⟨hinv.alone.mono fun job hjob => inProgress_of_isAttempting hjob, hinv.restarts⟩

namespace SingleProbe

def workflow : Workflow := Compiler.buildWorkflow "single" [EventLoop.ForkPlaybook.step "a" .action "probe" []]

def numeric : JsonbNumeric := .verbatim

def M : Machine Background JobEvent :=
  machine EventLoop.ForkPlaybook.engine numeric EventLoop.ForkPlaybook.posture workflow

def launched (i : ℕ) : List JobEvent := [.deliver, .select i, .begin i {}]

-- The attempt of job `i` up to its call of `node.run`.
def called (i : ℕ) : List JobEvent := List.replicate 7 (.engine i (.act none))

def finished (i : ℕ) : List JobEvent :=
  .engine i (.ret 0 (.output .empty)) :: called i ++ [.flush i, .commit i]

def overlapping : List JobEvent :=
  [.deliver, .deliver, .select 0, .select 1, .begin 0 {}, .begin 1 {}]

def redelivered : List JobEvent := launched 0 ++ called 0 ++ .crash 0 :: launched 1

def sequential : List JobEvent := launched 0 ++ called 0 ++ finished 0 ++ [.deliver, .select 1]

end SingleProbe

theorem deliveries_overlap_and_restart :
    (∃ b, SingleProbe.M.run (start SingleProbe.numeric .empty) SingleProbe.overlapping = some b ∧
      ¬ Slots.AtMostOne (fun job : Job => job.stage.isAttempting = true) b.jobs) ∧
    ∃ b ∈ SingleProbe.M.run (start SingleProbe.numeric .empty) SingleProbe.redelivered,
      b.restarts = [1] := by
  refine ⟨?_, by decide⟩
  have hboth : ∃ b ∈ SingleProbe.M.run (start SingleProbe.numeric .empty) SingleProbe.overlapping,
      (b.jobs[0]?).any (·.stage.isAttempting) = true ∧
        (b.jobs[1]?).any (·.stage.isAttempting) = true := by decide
  obtain ⟨b, hrun, hfirst, hsecond⟩ := hboth
  obtain ⟨job, hjob, hp⟩ := Option.any_eq_true _ _ |>.mp hfirst
  obtain ⟨job', hjob', hp'⟩ := Option.any_eq_true _ _ |>.mp hsecond
  refine ⟨b, hrun, fun h => ?_⟩
  have hsame := h 0 1 job job' hjob hjob' hp hp'
  omega

theorem background_runs_once_sequential :
    ∃ b, SingleProbe.M.run (start SingleProbe.numeric .empty) SingleProbe.sequential = some b ∧
      Slots.AtMostOne (fun job : Job => job.stage.isAttempting = true) b.jobs ∧ b.restarts = [] := by
  have hsome : (SingleProbe.M.run (start SingleProbe.numeric .empty)
      SingleProbe.sequential).isSome := by decide
  obtain ⟨b, hrun⟩ := Option.isSome_iff_exists.mp hsome
  exact ⟨b, hrun, background_runs_once hrun (by decide)⟩

end Background

end BTagent
