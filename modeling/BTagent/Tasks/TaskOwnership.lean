import BTagent.Tasks.TaskManager

namespace BTagent

namespace InvestigationTask

def Unfinished (t : InvestigationTask) : Prop := t.phase ≠ .done

-- A task that was cancelled only cleans up.
def Live (t : InvestigationTask) : Prop := t.phase ≠ .done ∧ t.cancelled = false

-- The status INVESTIGATING or the final one is still to be written.
def Writing (t : InvestigationTask) : Prop :=
  t.cancelRequested = false ∧ (t.phase = .scheduled ∨ t.phase = .opening ∨ t.phase = .running)

end InvestigationTask

namespace TaskManager
open ManagedInvestigation InvestigationTask Slots

def Terminal (status : InvestigationStatus) : Prop :=
  status = .CLOSED ∨ status = .FAILED ∨ status = .CANCELLED

def Reopens (status : InvestigationStatus) : Prop :=
  status = .INVESTIGATING ∨ status = .PAUSED

-- A write over a terminal status that reopens comes from a resume that began after that status.
def Follows (w : StatusWrite) : List StatusWrite → Prop
  | [] => True
  | v :: earlier => Terminal v.status → Reopens w.status →
      ∃ n, w.resumedAt = some n ∧ earlier.length < n

def NeverReopened : List StatusWrite → Prop
  | [] => True
  | w :: writes => Follows w writes ∧ NeverReopened writes

structure Owned (s : ManagedInvestigation) : Prop where
  one : AtMostOne Unfinished s.tasks
  registered : ∀ i t, s.tasks[i]? = some t → t.Live → s.registered = some i
  history : NeverReopened s.writes

def Ended (writes : List StatusWrite) : Prop := ∃ w ∈ writes.head?, Terminal w.status

def Reopening : PendingCall → Prop
  | .pausing _ => True
  | .resumeLoading _ => True
  | .resumeRegistered _ => True
  | _ => False

-- The conditions under which calls and tasks of one investigation do not race.
def Orderly (agentsAvailable : Bool) (s : ManagedInvestigation) : ManagerEvent → Prop
  | .startInvestigation built => agentsAvailable → s.registered = none → built →
      (∀ t ∈ s.tasks, ¬ t.Unfinished) ∧ ¬ Ended s.writes
  | .pauseInvestigation => s.registered ≠ none → ¬ Ended s.writes
  | .configLoaded _ .buildable => ∀ t ∈ s.tasks, ¬ t.Unfinished
  | .statusWritten i true => ∀ c ∈ s.calls[i]?, ∀ w ∈ s.callStatus c, Terminal w.1 →
      (∀ c ∈ s.calls, ¬ Reopening c) ∧ ∀ t ∈ s.tasks, ¬ t.Live
  | .graphStep _ (.completes finalStatus true) => Terminal finalStatus →
      ∀ c ∈ s.calls, ¬ Reopening c
  | .graphStep _ (.fails true) => ∀ c ∈ s.calls, ¬ Reopening c
  | _ => True

-- Writing a reopening status on behalf of a resume that began at `resumedAt` is in order.
def Covered (writes : List StatusWrite) (resumedAt : Option ℕ) : Prop :=
  Ended writes → ∃ n, resumedAt = some n ∧ writes.length ≤ n

def CallCovered (writes : List StatusWrite) : PendingCall → Prop
  | .pausing _ => ¬ Ended writes
  | .resumeLoading n => Covered writes (some n)
  | .resumeRegistered n => Covered writes (some n)
  | _ => True

structure Inv (s : ManagedInvestigation) : Prop where
  owned : Owned s
  stopping : ∀ t ∈ s.tasks, t.cancelled = true → t.cancelRequested = true ∨ t.phase = .closing ∨
    t.phase = .done
  task : ∀ t ∈ s.tasks, t.Writing → Covered s.writes t.resumedAt
  call : ∀ c ∈ s.calls, CallCovered s.writes c

variable {s s' : ManagedInvestigation} {i : ℕ} {t t' : InvestigationTask} {w : StatusWrite}
  {writes : List StatusWrite} {resumedAt : Option ℕ} {agentsAvailable : Bool}

theorem follows_of_covered (h : Covered writes resumedAt) {status : InvestigationStatus} :
    Follows ⟨status, resumedAt⟩ writes := by
  cases writes with
  | nil => trivial
  | cons v earlier =>
      intro hterminal _
      obtain ⟨n, hn, hle⟩ := h ⟨v, rfl, hterminal⟩
      exact ⟨n, hn, hle⟩

theorem follows_of_terminal {status : InvestigationStatus} (h : Terminal status) :
    Follows ⟨status, resumedAt⟩ writes := by
  cases writes with
  | nil => trivial
  | cons v earlier =>
      intro _ hreopens
      rcases h with rfl | rfl | rfl <;> rcases hreopens with h | h <;> cases h

theorem covered_of_open (h : ¬ Ended writes) : Covered writes resumedAt := fun hended =>
  absurd hended h

theorem ended_cons : Ended (w :: writes) ↔ Terminal w.status := by
  simp [Ended]

theorem Inv.stored (h : Inv s) (hfollows : Follows w s.writes)
    (hquiet : Terminal w.status → (∀ c ∈ s.calls, ¬ Reopening c) ∧ ∀ t ∈ s.tasks, ¬ t.Writing) :
    Inv { s with writes := w :: s.writes } := by
  constructor
  · exact ⟨h.owned.one, h.owned.registered, hfollows, h.owned.history⟩
  · exact h.stopping
  · intro t ht hwriting hended
    exact absurd hwriting ((hquiet (ended_cons.mp hended)).2 t ht)
  · intro c hc
    cases c with
    | pausing task => exact fun hended => (hquiet (ended_cons.mp hended)).1 _ hc trivial
    | resumeLoading n => exact fun hended => absurd trivial ((hquiet (ended_cons.mp hended)).1 _ hc)
    | resumeRegistered n =>
        exact fun hended => absurd trivial ((hquiet (ended_cons.mp hended)).1 _ hc)
    | startFailing => trivial
    | resumeFailing => trivial
    | stopping task => trivial
    | returned => trivial

theorem Inv.setStatus (h : Inv s) {status : InvestigationStatus} {stored : Bool}
    (hfollows : Follows ⟨status, resumedAt⟩ s.writes)
    (hquiet : stored = true → Terminal status →
      (∀ c ∈ s.calls, ¬ Reopening c) ∧ ∀ t ∈ s.tasks, ¬ t.Writing) :
    Inv (s.setInvestigationStatus stored status resumedAt) := by
  cases stored with
  | true => exact h.stored hfollows (hquiet rfl)
  | false => exact h

theorem Inv.setTask (h : Inv s) (ht : s.tasks[i]? = some t)
    (hunfinished : t'.Unfinished → t.Unfinished) (hlive : t'.Live → t.Live)
    (hstopping : t'.cancelled = true → t'.cancelRequested = true ∨ t'.phase = .closing ∨
      t'.phase = .done)
    (hwriting : t'.Writing → t.Writing ∧ t'.resumedAt = t.resumedAt) :
    Inv { s with tasks := s.tasks.set i t' } := by
  constructor
  · refine ⟨h.owned.one.set ht hunfinished, ?_, h.owned.history⟩
    intro j u hu hlive'
    rcases getElem?_set_cases hu with ⟨rfl, rfl⟩ | ⟨_, hu⟩
    · exact h.owned.registered j t ht (hlive hlive')
    · exact h.owned.registered j u hu hlive'
  · exact forall_set h.stopping hstopping
  · apply forall_set h.task
    intro hw
    obtain ⟨hold, hresumed⟩ := hwriting hw
    rw [hresumed]
    exact h.task t (List.mem_of_getElem? ht) hold
  · exact h.call

theorem Inv.setCalls (h : Inv s) {calls : List PendingCall}
    (hcalls : ∀ c ∈ calls, CallCovered s.writes c) : Inv { s with calls := calls } :=
  ⟨⟨h.owned.one, h.owned.registered, h.owned.history⟩, h.stopping, h.task, hcalls⟩

theorem Inv.addCall (h : Inv s) {c : PendingCall} (hc : CallCovered s.writes c) :
    Inv (s.call c) := by
  apply h.setCalls
  intro d hd
  rcases List.mem_append.mp hd with hd | hd
  · exact h.call d hd
  · rw [List.mem_singleton.mp hd]
    exact hc

theorem Inv.advance (h : Inv s) {c : PendingCall} (hc : CallCovered s.writes c) :
    Inv (s.advance i c) :=
  h.setCalls (forall_set h.call hc)

theorem Inv.unregister (h : Inv s) (hnone : ∀ t ∈ s.tasks, ¬ t.Live) :
    Inv { s with registered := none } := by
  refine ⟨⟨h.owned.one, ?_, h.owned.history⟩, h.stopping, h.task, h.call⟩
  intro i t ht hlive
  exact absurd hlive (hnone t (List.mem_of_getElem? ht))

theorem Inv.create (h : Inv s) (hnone : ∀ t ∈ s.tasks, ¬ t.Unfinished)
    (hcovered : Covered s.writes resumedAt) : Inv (s.createTask resumedAt) := by
  constructor
  · refine ⟨AtMostOne.append_alone hnone, ?_, h.owned.history⟩
    intro i t ht hlive
    rcases Nat.lt_or_ge i s.tasks.length with hlt | hge
    · simp only [createTask] at ht
      rw [List.getElem?_append_left hlt] at ht
      exact absurd hlive.1 (hnone t (List.mem_of_getElem? ht))
    · have hi : i < (s.tasks ++ [(⟨.scheduled, false, false, resumedAt⟩ : InvestigationTask)]).length :=
        (List.getElem?_eq_some_iff.mp ht).1
      rw [List.length_append, List.length_singleton] at hi
      simp only [createTask]
      congr 1
      omega
  · intro t ht hcancelled
    rcases List.mem_append.mp ht with ht | ht
    · exact h.stopping t ht hcancelled
    · rw [List.mem_singleton.mp ht] at hcancelled
      cases hcancelled
  · intro t ht hwriting
    rcases List.mem_append.mp ht with ht | ht
    · exact h.task t ht hwriting
    · rw [List.mem_singleton.mp ht]
      exact hcovered
  · exact h.call

theorem Inv.live_of_writing (h : Inv s) (ht : t ∈ s.tasks) (hwriting : t.Writing) : t.Live := by
  obtain ⟨hrequested, hphase⟩ := hwriting
  constructor
  · rcases hphase with hphase | hphase | hphase <;> rw [hphase] <;> decide
  · cases hcancelled : t.cancelled with
    | false => rfl
    | true =>
        rcases h.stopping t ht hcancelled with hr | hp | hp
        · rw [hrequested] at hr
          cases hr
        · rw [hp] at hphase
          simp at hphase
        · rw [hp] at hphase
          simp at hphase

theorem Inv.cancelTask (h : Inv s) (ht : s.tasks[i]? = some t) :
    Inv { s with tasks := s.tasks.set i t.cancel } := by
  apply h.setTask ht
  · exact id
  · rintro ⟨_, hcancelled⟩
    cases hcancelled
  · intro _
    by_cases hphase : t.phase = .done
    · exact Or.inr (Or.inr hphase)
    · exact Or.inl (decide_eq_true hphase)
  · rintro ⟨hrequested, hphase⟩
    have hdone : t.phase = .done := by simpa [InvestigationTask.cancel] using hrequested
    simp [InvestigationTask.cancel, hdone] at hphase

theorem Inv.pop (h : Inv s) {task : ℕ} (hregistered : s.registered = some task) :
    Inv (s.popTask task) := by
  cases ht : s.tasks[task]? with
  | none =>
      have hsame : s.tasks.modify task InvestigationTask.cancel = s.tasks := by
        rw [List.modify_eq_set_getElem?, ht]
        rfl
      simp only [popTask, hsame]
      apply h.unregister
      intro t hmem hlive
      obtain ⟨j, hj⟩ := List.getElem?_of_mem hmem
      have heq := (h.owned.registered j t hj hlive).symm.trans hregistered
      rw [Option.some.inj heq, ht] at hj
      cases hj
  | some t =>
      have hset : s.tasks.modify task InvestigationTask.cancel = s.tasks.set task t.cancel := by
        rw [List.modify_eq_set_getElem?, ht]
        rfl
      simp only [popTask, hset]
      have hcancelled := h.cancelTask ht
      apply hcancelled.unregister
      intro u hmem hlive
      obtain ⟨j, hj⟩ := List.getElem?_of_mem hmem
      have heq := (hcancelled.owned.registered j u hj hlive).symm.trans hregistered
      obtain rfl := Option.some.inj heq
      rcases getElem?_set_cases hj with ⟨_, rfl⟩ | ⟨hne, _⟩
      · cases hlive.2
      · exact hne rfl

theorem inv_start {built : Bool} (h : Inv s)
    (hg : Orderly agentsAvailable s (.startInvestigation built)) :
    Inv (s.startInvestigation agentsAvailable built) := by
  cases agentsAvailable with
  | false => exact h.addCall trivial
  | true =>
      cases hregistered : s.registered with
      | some task =>
          simp only [startInvestigation, hregistered]
          exact h
      | none =>
          cases built with
          | false =>
              simp only [startInvestigation, hregistered]
              exact h.addCall trivial
          | true =>
              obtain ⟨hnone, hopen⟩ := hg rfl hregistered rfl
              simp only [startInvestigation, hregistered]
              exact h.create hnone (covered_of_open hopen)

theorem inv_pause (h : Inv s) (hg : Orderly agentsAvailable s .pauseInvestigation) :
    Inv s.pauseInvestigation := by
  cases hregistered : s.registered with
  | none =>
      simp only [pauseInvestigation, hregistered]
      exact h
  | some task =>
      have hopen : ¬ Ended s.writes := hg (by simp [hregistered])
      simp only [pauseInvestigation, hregistered]
      exact (h.pop hregistered).addCall hopen

theorem inv_resume (h : Inv s) : Inv (s.resumeInvestigation agentsAvailable) := by
  simp only [resumeInvestigation]
  split_ifs
  · exact h
  · exact h
  · exact h.addCall fun _ => ⟨s.writes.length, rfl, Nat.le_refl _⟩

theorem inv_configLoaded {config : LoadedConfig} (h : Inv s)
    (hg : Orderly agentsAvailable s (.configLoaded i config))
    (hstep : s.configLoaded i config = some s') : Inv s' := by
  simp only [configLoaded] at hstep
  split at hstep
  · cases hstep
    exact h.advance trivial
  · cases hstep
    exact h.advance trivial
  · rename_i n hc
    cases hstep
    have hcovered : Covered s.writes (some n) := h.call _ (List.mem_of_getElem? hc)
    exact (h.create hg hcovered).advance hcovered
  · cases hstep

theorem inv_stop (h : Inv s) : Inv s.stopInvestigation := by
  cases hregistered : s.registered with
  | none =>
      simp only [stopInvestigation, hregistered]
      exact h.addCall trivial
  | some task =>
      simp only [stopInvestigation, hregistered]
      exact (h.pop hregistered).addCall trivial

theorem callStatus_follows (h : Inv s) {c : PendingCall} (hc : c ∈ s.calls)
    {status : InvestigationStatus} (hstatus : s.callStatus c = some (status, resumedAt)) :
    Follows ⟨status, resumedAt⟩ s.writes := by
  cases c with
  | startFailing => cases hstatus; exact follows_of_terminal (Or.inr (Or.inl rfl))
  | resumeFailing => cases hstatus; exact follows_of_terminal (Or.inr (Or.inl rfl))
  | resumeLoading n => cases hstatus
  | returned => cases hstatus
  | resumeRegistered n =>
      cases hstatus
      exact follows_of_covered (h.call _ hc)
  | pausing task =>
      simp only [callStatus] at hstatus
      split at hstatus
      · cases hstatus
        exact follows_of_covered (covered_of_open (h.call _ hc))
      · cases hstatus
  | stopping task =>
      simp only [callStatus] at hstatus
      split at hstatus
      · cases hstatus
        exact follows_of_terminal (Or.inr (Or.inr rfl))
      · cases hstatus

theorem inv_statusWritten {stored : Bool} (h : Inv s)
    (hg : Orderly agentsAvailable s (.statusWritten i stored))
    (hstep : s.statusWritten i stored = some s') : Inv s' := by
  simp only [statusWritten, Option.bind_eq_bind, Option.bind_eq_some_iff] at hstep
  obtain ⟨c, hc, ⟨status, resumedAt⟩, hstatus, hlast⟩ := hstep
  cases hlast
  refine (h.setStatus (callStatus_follows h (List.mem_of_getElem? hc) hstatus) ?_).advance trivial
  rintro rfl hterminal
  obtain ⟨hcalls, htasks⟩ := hg c hc _ hstatus hterminal
  exact ⟨hcalls, fun t ht hwriting => htasks t ht (h.live_of_writing ht hwriting)⟩

theorem interruptedPhase_cases (p : TaskPhase) :
    interruptedPhase p = .closing ∧ p ≠ .done ∨ interruptedPhase p = .done := by
  cases p <;> simp [interruptedPhase]

theorem inv_interrupt (h : Inv s) (ht : s.tasks[i]? = some t) : Inv (s.interrupt i t) := by
  rcases interruptedPhase_cases t.phase with ⟨hphase, hnot⟩ | hphase
  · apply h.setTask ht
    · exact fun _ => hnot
    · exact fun hlive => ⟨hnot, hlive.2⟩
    · exact fun _ => Or.inr (Or.inl hphase)
    · rintro ⟨_, hw⟩
      simp [hphase] at hw
  · apply h.setTask ht
    · exact fun hun => absurd hphase hun
    · exact fun hlive => absurd hphase hlive.1
    · exact fun _ => Or.inr (Or.inr hphase)
    · rintro ⟨_, hw⟩
      simp [hphase] at hw

theorem Inv.setPhase (h : Inv s) (ht : s.tasks[i]? = some t) (hrequested : t.cancelRequested = false)
    {phase : TaskPhase} (hphase : t.phase ≠ .done) (hclosing : t.phase = .closing → phase = .done)
    (hwriting : phase = .scheduled ∨ phase = .opening ∨ phase = .running →
      t.phase = .scheduled ∨ t.phase = .opening ∨ t.phase = .running) :
    Inv (s.setPhase i t phase) := by
  apply h.setTask ht
  · exact fun _ => hphase
  · exact fun hlive => ⟨hphase, hlive.2⟩
  · intro hcancelled
    rcases h.stopping t (List.mem_of_getElem? ht) hcancelled with hr | hp | hp
    · rw [hrequested] at hr
      cases hr
    · exact Or.inr (Or.inr (hclosing hp))
    · exact absurd hp hphase
  · exact fun hw => ⟨⟨hw.1, hwriting hw.2⟩, rfl⟩

theorem Inv.quiet (h : Inv s) (ht : s.tasks[i]? = some t) (hunfinished : t.Unfinished)
    (hwriting : ¬ t.Writing) : ∀ u ∈ s.tasks, ¬ u.Writing := by
  intro u hu hw
  obtain ⟨j, hj⟩ := List.getElem?_of_mem hu
  have hu' : u.Unfinished := (h.live_of_writing hu hw).1
  obtain rfl := h.owned.one i j t u ht hj hunfinished hu'
  rw [ht] at hj
  cases hj
  exact hwriting hw

theorem setPhase_slot (ht : s.tasks[i]? = some t) (phase : TaskPhase) :
    (s.setPhase i t phase).tasks[i]? = some { t with phase := phase } := by
  have hi : i < s.tasks.length := (List.getElem?_eq_some_iff.mp ht).1
  simp [ManagedInvestigation.setPhase, hi]

theorem setStatus_setPhase {stored : Bool} {status : InvestigationStatus} {phase : TaskPhase} :
    (s.setInvestigationStatus stored status resumedAt).setPhase i t phase =
      (s.setPhase i t phase).setInvestigationStatus stored status resumedAt := by
  cases stored <;> rfl

theorem inv_write (ht : s.tasks[i]? = some t) {phase : TaskPhase}
    {status : InvestigationStatus} {stored : Bool} (hmoved : Inv (s.setPhase i t phase))
    (hfollows : Follows ⟨status, resumedAt⟩ s.writes)
    (hcalls : stored = true → Terminal status → ∀ c ∈ s.calls, ¬ Reopening c)
    (hlast : Terminal status → phase = .settling ∨ phase = .reporting) :
    Inv ((s.setInvestigationStatus stored status resumedAt).setPhase i t phase) := by
  rw [setStatus_setPhase]
  apply hmoved.setStatus hfollows
  intro hstored hterminal
  refine ⟨hcalls hstored hterminal, hmoved.quiet (setPhase_slot ht phase) ?_ ?_⟩
  · rcases hlast hterminal with rfl | rfl <;> simp [Unfinished]
  · rintro ⟨_, hw⟩
    rcases hlast hterminal with rfl | rfl <;> simp at hw

theorem inv_graphStep {step : GraphStep} (h : Inv s) (ht : s.tasks[i]? = some t)
    (hrequested : t.cancelRequested = false) (hg : Orderly agentsAvailable s (.graphStep i step))
    (hstep : s.graphStep i t step = some s') : Inv s' := by
  have hmem := List.mem_of_getElem? ht
  cases step with
  | begins =>
      simp only [ManagedInvestigation.graphStep] at hstep
      split at hstep <;> cases hstep
      rename_i hphase
      exact h.setPhase ht hrequested (by simp [hphase]) (by simp [hphase]) (by simp [hphase])
  | investigating stored =>
      simp only [ManagedInvestigation.graphStep] at hstep
      split at hstep <;> cases hstep
      rename_i hphase
      have hmoved : Inv (s.setPhase i t .running) :=
        h.setPhase ht hrequested (by simp [hphase]) (by simp [hphase]) (by simp [hphase])
      have hwriting : t.Writing := ⟨hrequested, Or.inr (Or.inl hphase)⟩
      have hcovered : Covered s.writes t.resumedAt := h.task t hmem hwriting
      apply inv_write ht hmoved (follows_of_covered hcovered)
      · rintro _ (hterminal | hterminal | hterminal) <;> cases hterminal
      · rintro (hterminal | hterminal | hterminal) <;> cases hterminal
  | completes finalStatus stored =>
      simp only [ManagedInvestigation.graphStep] at hstep
      split at hstep <;> cases hstep
      rename_i hphase
      have hmoved : Inv (s.setPhase i t .settling) :=
        h.setPhase ht hrequested (by simp [hphase]) (by simp [hphase]) (by simp)
      have hwriting : t.Writing := ⟨hrequested, Or.inr (Or.inr hphase)⟩
      have hcovered : Covered s.writes t.resumedAt := h.task t hmem hwriting
      apply inv_write ht hmoved (follows_of_covered hcovered)
      · rintro rfl hterminal
        exact hg hterminal
      · exact fun _ => Or.inl rfl
  | raises =>
      simp only [ManagedInvestigation.graphStep] at hstep
      split at hstep <;> cases hstep
      rename_i hphase
      apply h.setPhase ht hrequested
      · rcases hphase with hphase | hphase | hphase <;> simp [hphase]
      · rcases hphase with hphase | hphase | hphase <;> simp [hphase]
      · simp
  | fails stored =>
      simp only [ManagedInvestigation.graphStep] at hstep
      split at hstep <;> cases hstep
      rename_i hphase
      have hmoved : Inv (s.setPhase i t .reporting) :=
        h.setPhase ht hrequested (by simp [hphase]) (by simp [hphase]) (by simp)
      apply inv_write ht hmoved (follows_of_terminal (Or.inr (Or.inl rfl)))
      · rintro rfl _
        exact hg
      · exact fun _ => Or.inr rfl
  | settles =>
      simp only [ManagedInvestigation.graphStep] at hstep
      split at hstep <;> cases hstep
      rename_i hphase
      apply h.setPhase ht hrequested
      · rcases hphase with hphase | hphase <;> simp [hphase]
      · rcases hphase with hphase | hphase <;> simp [hphase]
      · simp
  | closes =>
      simp only [ManagedInvestigation.graphStep] at hstep
      split at hstep <;> cases hstep
      rename_i hphase
      have hmoved : Inv (s.setPhase i t .done) :=
        h.setPhase ht hrequested (by simp [hphase]) (by simp) (by simp)
      apply hmoved.unregister
      -- the task was the only unfinished one
      intro u hu hlive
      obtain ⟨j, hj⟩ := List.getElem?_of_mem hu
      rcases getElem?_set_cases hj with ⟨_, rfl⟩ | ⟨hne, hj⟩
      · exact hlive.1 rfl
      · apply hne
        exact (h.owned.one i j t u ht hj (by simp [Unfinished, hphase]) hlive.1).symm
  | interrupted => cases hstep

theorem inv_step {e : ManagerEvent} (h : Inv s) (hg : Orderly agentsAvailable s e)
    (hstep : (investigation agentsAvailable).step s e = some s') : Inv s' := by
  cases e with
  | startInvestigation built =>
      cases hstep
      exact inv_start h hg
  | pauseInvestigation =>
      cases hstep
      exact inv_pause h hg
  | resumeInvestigation =>
      cases hstep
      exact inv_resume h
  | configLoaded call config => exact inv_configLoaded h hg hstep
  | stopInvestigation =>
      cases hstep
      exact inv_stop h
  | statusWritten call stored => exact inv_statusWritten h hg hstep
  | graphStep task step =>
      simp only [investigation, taskStep, Option.bind_eq_bind, Option.bind_eq_some_iff] at hstep
      obtain ⟨t, ht, hstep⟩ := hstep
      split at hstep
      · cases hstep
        exact inv_interrupt h ht
      · cases hstep
      · rename_i hrequested
        exact inv_graphStep h ht hrequested hg hstep

theorem inv_untouched (status : InvestigationStatus) : Inv (untouched status) := by
  refine ⟨⟨?_, ?_, trivial, trivial⟩, ?_, ?_, ?_⟩
  · intro i j a b ha
    cases ha
  · intro i t ht
    cases ht
  all_goals
    intro x hx
    cases hx

instance (status : InvestigationStatus) : Decidable (Terminal status) :=
  inferInstanceAs (Decidable (_ ∨ _))

instance (writes : List StatusWrite) : Decidable (Ended writes) :=
  inferInstanceAs (Decidable (∃ w ∈ writes.head?, Terminal w.status))

instance (t : InvestigationTask) : Decidable t.Unfinished := inferInstanceAs (Decidable (_ ≠ _))

instance (t : InvestigationTask) : Decidable t.Live := inferInstanceAs (Decidable (_ ∧ _))

instance : ∀ c, Decidable (Reopening c)
  | .pausing _ | .resumeLoading _ | .resumeRegistered _ => isTrue trivial
  | .startFailing | .resumeFailing | .stopping _ | .returned => isFalse id

instance (agentsAvailable : Bool) (s : ManagedInvestigation) : ∀ e, Decidable (Orderly agentsAvailable s e)
  | .startInvestigation built => inferInstanceAs (Decidable (agentsAvailable → s.registered = none →
      built → (∀ t ∈ s.tasks, ¬ t.Unfinished) ∧ ¬ Ended s.writes))
  | .pauseInvestigation => inferInstanceAs (Decidable (s.registered ≠ none → ¬ Ended s.writes))
  | .configLoaded _ .buildable => inferInstanceAs (Decidable (∀ t ∈ s.tasks, ¬ t.Unfinished))
  | .statusWritten i true => inferInstanceAs (Decidable (∀ c ∈ s.calls[i]?, ∀ w ∈ s.callStatus c,
      Terminal w.1 → (∀ c ∈ s.calls, ¬ Reopening c) ∧ ∀ t ∈ s.tasks, ¬ t.Live))
  | .graphStep _ (.completes finalStatus true) => inferInstanceAs (Decidable (Terminal finalStatus →
      ∀ c ∈ s.calls, ¬ Reopening c))
  | .graphStep _ (.fails true) => inferInstanceAs (Decidable (∀ c ∈ s.calls, ¬ Reopening c))
  | .configLoaded _ .missing | .configLoaded _ .unbuildable | .statusWritten _ false
  | .graphStep _ (.completes _ false) | .graphStep _ (.fails false) | .resumeInvestigation
  | .stopInvestigation | .graphStep _ .begins | .graphStep _ (.investigating _)
  | .graphStep _ .raises | .graphStep _ .settles | .graphStep _ .interrupted
  | .graphStep _ .closes => isTrue trivial

-- Two resume requests both find no task, and each one makes its own.
def resumedTwice : List (String × ManagerEvent) :=
  [("inv-1", .resumeInvestigation), ("inv-1", .resumeInvestigation),
    ("inv-1", .configLoaded 0 .buildable), ("inv-1", .configLoaded 1 .buildable)]

theorem two_live_tasks : ¬ ∀ (statuses : String → InvestigationStatus) events db,
    (manager true).run (fun id => untouched (statuses id)) events = some db →
      ∀ id, Owned (db id) := by
  intro h
  have hrun : ((manager true).run (fun _ => untouched .PAUSED) resumedTwice).any fun db =>
      decide ((db "inv-1").tasks.map (·.phase) = [.scheduled, .scheduled]) := by decide
  obtain ⟨db, hdb, htasks⟩ := (Option.any_eq_true _ _).mp hrun
  have hphases := of_decide_eq_true htasks
  obtain ⟨t, tail, htail, ht, hrest⟩ := List.map_eq_cons_iff.mp hphases
  obtain ⟨u, _, rfl, hu, _⟩ := List.map_eq_cons_iff.mp hrest
  have hone := (h (fun _ => .PAUSED) resumedTwice db hdb "inv-1").one
  rw [htail] at hone
  have heq := hone 0 1 t u rfl rfl (by simp [Unfinished, ht]) (by simp [Unfinished, hu])
  cases heq

theorem investigations_owned {statuses : String → InvestigationStatus}
    {events : List (String × ManagerEvent)} {db : String → ManagedInvestigation}
    (hg : (manager agentsAvailable).Along (fun s e => Orderly agentsAvailable (s e.1) e.2)
      (fun id => untouched (statuses id)) events)
    (h : (manager agentsAvailable).run (fun id => untouched (statuses id)) events = some db) :
    ∀ id, Owned (db id) := by
  have hinv : ∀ id, Inv (db id) := (investigation agentsAvailable).family_invariant_along inv_step
    (fun id => inv_untouched (statuses id)) hg h
  exact fun id => (hinv id).owned

def pausedAndResumed : List (String × ManagerEvent) :=
  [("inv-1", .startInvestigation true), ("inv-1", .graphStep 0 .begins),
    ("inv-1", .graphStep 0 (.investigating true)), ("inv-1", .pauseInvestigation),
    ("inv-1", .graphStep 0 .interrupted), ("inv-1", .graphStep 0 .closes),
    ("inv-1", .statusWritten 0 true), ("inv-1", .resumeInvestigation),
    ("inv-1", .configLoaded 1 .buildable), ("inv-1", .statusWritten 1 true),
    ("inv-1", .graphStep 1 .begins), ("inv-1", .graphStep 1 (.investigating true)),
    ("inv-1", .graphStep 1 (.completes .CLOSED true)), ("inv-1", .resumeInvestigation)]

theorem pausedAndResumed_owned : ∃ db,
    (manager true).run (fun _ => untouched .PENDING) pausedAndResumed = some db ∧
      (db "inv-1").writes.map (·.status) =
        [.CLOSED, .INVESTIGATING, .INVESTIGATING, .PAUSED, .INVESTIGATING, .PENDING] ∧
      ∀ id, Owned (db id) := by
  have hrun : ((manager true).run (fun _ => untouched .PENDING) pausedAndResumed).any fun db =>
      decide ((db "inv-1").writes.map (·.status) =
        [.CLOSED, .INVESTIGATING, .INVESTIGATING, .PAUSED, .INVESTIGATING, .PENDING]) := by
    decide
  obtain ⟨db, hdb, hwrites⟩ := (Option.any_eq_true _ _).mp hrun
  exact ⟨db, hdb, of_decide_eq_true hwrites, investigations_owned (by decide) hdb⟩

end TaskManager

end BTagent
