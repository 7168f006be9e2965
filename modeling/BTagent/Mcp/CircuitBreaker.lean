import BTagent.Lib.Machine
import BTagent.Lib.Timing
import Mathlib.Algebra.Order.Ring.Unbundled.Rat
import Mathlib.Data.Rat.Defs
import Mathlib.Tactic.Linarith

namespace BTagent

inductive CircuitState where
  | CLOSED
  | OPEN
  | HALF_OPEN
  deriving DecidableEq

structure CircuitOpenError where
  connectionId : String
  state : CircuitState
  retryAfter : ℚ

structure CircuitBreaker where
  connectionId : String
  failureThreshold : ℕ := 5
  recoveryTimeout : ℚ := 30
  recoveryTimeoutMax : ℚ := 600
  successThreshold : ℕ := 2
  state : CircuitState := .CLOSED
  failureCount : ℕ := 0
  successCount : ℕ := 0
  lastFailureTime : ℚ := 0
  openCycles : ℕ := 0

namespace CircuitBreaker

def computeRecoveryTimeout (cb : CircuitBreaker) : ℚ :=
  if cb.openCycles = 0 then cb.recoveryTimeout
  else min (cb.recoveryTimeout * 2 ^ min (cb.openCycles - 1) 32) cb.recoveryTimeoutMax

def recovered (cb : CircuitBreaker) (now : ℚ) : Prop :=
  cb.state = .OPEN ∧ cb.computeRecoveryTimeout ≤ now - cb.lastFailureTime

instance (cb : CircuitBreaker) (now : ℚ) : Decidable (cb.recovered now) :=
  inferInstanceAs (Decidable (_ ∧ _))

-- OPEN becomes HALF_OPEN when somebody asks.
def effectiveState (cb : CircuitBreaker) (now : ℚ) : CircuitBreaker :=
  if cb.recovered now then { cb with state := .HALF_OPEN, successCount := 0 } else cb

def closed (cb : CircuitBreaker) : CircuitBreaker :=
  { cb with state := .CLOSED, failureCount := 0, successCount := 0, openCycles := 0 }

def recordSuccess (cb : CircuitBreaker) : CircuitBreaker :=
  match cb.state with
  | .HALF_OPEN =>
      if cb.successThreshold ≤ cb.successCount + 1 then cb.closed
      else { cb with successCount := cb.successCount + 1 }
  | .CLOSED =>
      if 0 < cb.failureCount then { cb with failureCount := cb.failureCount - 1 } else cb
  | .OPEN => cb

def counted (cb : CircuitBreaker) (now : ℚ) : CircuitBreaker :=
  { cb with failureCount := cb.failureCount + 1, lastFailureTime := now }

def opened (cb : CircuitBreaker) : CircuitBreaker :=
  { cb with state := .OPEN, openCycles := cb.openCycles + 1 }

def recordFailure (cb : CircuitBreaker) (now : ℚ) : CircuitBreaker :=
  match cb.state with
  | .HALF_OPEN => (cb.counted now).opened
  | .CLOSED =>
      if cb.failureThreshold ≤ cb.failureCount + 1 then (cb.counted now).opened
      else cb.counted now
  | .OPEN => cb.counted now

def checkState (cb : CircuitBreaker) (now : ℚ) : CircuitBreaker × Except CircuitOpenError Unit :=
  let cb := cb.effectiveState now
  if cb.state = .OPEN then
    let retryAfter := cb.computeRecoveryTimeout - (now - cb.lastFailureTime)
    (cb, .error ⟨cb.connectionId, cb.state, max 0 retryAfter⟩)
  else (cb, .ok ())

def reset (cb : CircuitBreaker) : CircuitBreaker :=
  { cb.closed with lastFailureTime := 0 }

-- `check_state` raises.
def Rejects (cb : CircuitBreaker) (now : ℚ) : Prop := (cb.effectiveState now).state = .OPEN

instance (cb : CircuitBreaker) (now : ℚ) : Decidable (cb.Rejects now) :=
  inferInstanceAs (Decidable (_ = _))

theorem checkState_error (cb : CircuitBreaker) (now : ℚ) :
    (∃ error, (cb.checkState now).2 = .error error) ↔ cb.Rejects now := by
  simp only [checkState, Rejects]
  split <;> simp_all

theorem checkState_fst (cb : CircuitBreaker) (now : ℚ) :
    (cb.checkState now).1 = cb.effectiveState now := by
  simp only [checkState]
  split <;> rfl

theorem effectiveState_recovered {cb : CircuitBreaker} {now : ℚ} (h : cb.recovered now) :
    cb.effectiveState now = { cb with state := .HALF_OPEN, successCount := 0 } := if_pos h

theorem effectiveState_waiting {cb : CircuitBreaker} {now : ℚ} (h : ¬ cb.recovered now) :
    cb.effectiveState now = cb := if_neg h

theorem rejects_iff (cb : CircuitBreaker) (now : ℚ) :
    cb.Rejects now ↔
      cb.state = .OPEN ∧ now < cb.lastFailureTime + cb.computeRecoveryTimeout := by
  rw [Rejects]
  rcases em (cb.recovered now) with hrecovered | hwaits
  · rw [effectiveState_recovered hrecovered]
    have hle := hrecovered.2
    simp only [reduceCtorEq, false_iff, not_and, not_lt]
    intro _
    linarith
  · rw [effectiveState_waiting hwaits]
    simp only [recovered, not_and, not_le] at hwaits
    constructor
    · intro hopen
      have hlt := hwaits hopen
      exact ⟨hopen, by linarith⟩
    · exact And.left

end CircuitBreaker

namespace CircuitBreaker

inductive Call where
  | recordSuccess
  | recordFailure
  | checkState
  | readState
  | reset
  deriving DecidableEq

def call (cb : CircuitBreaker) (now : ℚ) : Call → CircuitBreaker
  | .recordSuccess => cb.recordSuccess
  | .recordFailure => cb.recordFailure now
  | .checkState => (cb.checkState now).1
  | .readState => cb.effectiveState now
  | .reset => cb.reset

def settings (cb : CircuitBreaker) : ℕ × ℚ × ℚ × ℕ :=
  (cb.failureThreshold, cb.recoveryTimeout, cb.recoveryTimeoutMax, cb.successThreshold)

structure Configured (cb : CircuitBreaker) : Prop where
  failures : 1 ≤ cb.failureThreshold
  successes : 1 ≤ cb.successThreshold
  base : 1 ≤ cb.recoveryTimeout
  capped : cb.recoveryTimeout ≤ cb.recoveryTimeoutMax
  reached : cb.recoveryTimeoutMax ≤ 2 ^ 32 * cb.recoveryTimeout

end CircuitBreaker

-- The k-th trip in a row, and when it was.
structure Trip where
  number : ℕ
  time : ℚ

def Trip.due (trip : Trip) (cb : CircuitBreaker) : ℚ :=
  trip.time + backoff cb.recoveryTimeout cb.recoveryTimeoutMax trip.number

-- `trips` counts the trips since the breaker was last closed; `awaited` is the last of them, until
-- the first call that it must let pass.
structure BreakerRun where
  breaker : CircuitBreaker
  clock : ℚ
  trips : ℕ
  awaited : Option Trip

namespace BreakerRun

open CircuitBreaker

def init (cb : CircuitBreaker) (start : ℚ) : BreakerRun := ⟨cb.reset, start, 0, none⟩

def Trips (before after : CircuitBreaker) : Prop := before.state ≠ .OPEN ∧ after.state = .OPEN

instance (before after : CircuitBreaker) : Decidable (Trips before after) :=
  inferInstanceAs (Decidable (_ ∧ _))

def tripsAfter (trips : ℕ) (before after : CircuitBreaker) : ℕ :=
  if after.state = .CLOSED then 0 else if Trips before after then trips + 1 else trips

def awaitedAfter (awaited : Option Trip) (cb : CircuitBreaker) (now : ℚ) : Call → Option Trip
  | .checkState => awaited.filter fun trip => now < trip.due cb
  | .reset => none
  | _ => awaited

def next (s : BreakerRun) (now : ℚ) (c : Call) : BreakerRun where
  breaker := s.breaker.call now c
  clock := now
  trips := tripsAfter s.trips s.breaker (s.breaker.call now c)
  awaited :=
    if Trips s.breaker (s.breaker.call now c) then some ⟨s.trips + 1, now⟩
    else awaitedAfter s.awaited s.breaker now c

def machine : Machine BreakerRun (ℚ × Call) where
  step s e := if s.clock ≤ e.1 then some (s.next e.1 e.2) else none

structure OnSchedule (s : BreakerRun) : Prop where
  closed : s.breaker.state = .CLOSED →
    s.breaker.openCycles = 0 ∧ s.breaker.failureCount < s.breaker.failureThreshold
  rejects : ∀ trip ∈ s.awaited, ∀ now, s.clock ≤ now → now < trip.due s.breaker →
    s.breaker.Rejects now
  admits : ∀ trip ∈ s.awaited, ∀ now, s.clock ≤ now → trip.due s.breaker ≤ now →
    ¬ s.breaker.Rejects now

-- No failure is recorded in an OPEN breaker later than the one that it waits for.
def InTime (s : BreakerRun) (e : ℚ × Call) : Prop :=
  e.2 = .recordFailure → s.breaker.state = .OPEN → e.1 ≤ s.breaker.lastFailureTime

instance (s : BreakerRun) (e : ℚ × Call) : Decidable (InTime s e) :=
  inferInstanceAs (Decidable (_ → _))

end BreakerRun

namespace CircuitBreaker

variable {cb cb' : CircuitBreaker} {now : ℚ} {c : Call}

@[simp] theorem settings_call (cb : CircuitBreaker) (now : ℚ) (c : Call) :
    (cb.call now c).settings = cb.settings := by
  cases c with
  | recordSuccess => simp only [call, recordSuccess]; split <;> (try split) <;> rfl
  | recordFailure => simp only [call, recordFailure]; split <;> (try split) <;> rfl
  | checkState => rw [call, checkState_fst, effectiveState]; split <;> rfl
  | readState => rw [call, effectiveState]; split <;> rfl
  | reset => rfl

theorem Configured.congr (h : cb.Configured) (hsame : cb'.settings = cb.settings) :
    cb'.Configured := by
  simp only [settings, Prod.mk.injEq] at hsame
  obtain ⟨hfailures, hbase, hmax, hsuccesses⟩ := hsame
  constructor
  · rw [hfailures]
    exact h.failures
  · rw [hsuccesses]
    exact h.successes
  · rw [hbase]
    exact h.base
  · rw [hbase, hmax]
    exact h.capped
  · rw [hbase, hmax]
    exact h.reached

theorem due_congr (hsame : cb'.settings = cb.settings) (trip : Trip) :
    trip.due cb' = trip.due cb := by
  simp only [settings, Prod.mk.injEq] at hsame
  obtain ⟨-, hbase, hmax, -⟩ := hsame
  rw [Trip.due, Trip.due, hbase, hmax]

theorem Configured.wait (h : cb.Configured) (hcycles : 1 ≤ cb.openCycles) :
    cb.computeRecoveryTimeout =
      backoff cb.recoveryTimeout cb.recoveryTimeoutMax cb.openCycles := by
  have hbase := h.base
  have hreached := h.reached
  rw [computeRecoveryTimeout, if_neg (by omega)]
  exact backoff_cut (by linarith) (by linarith)

theorem Configured.wait_pos (h : cb.Configured) (k : ℕ) :
    0 < backoff cb.recoveryTimeout cb.recoveryTimeoutMax k := by
  have hbase := h.base
  have hcapped := h.capped
  exact backoff_pos (by linarith) (by linarith)

-- What one call does to the state.
inductive Move (cb cb' : CircuitBreaker) (now : ℚ) (c : Call) : Prop where
  | stays (hstate : cb'.state = cb.state) (hcycles : cb'.openCycles = cb.openCycles)
      (hcount : cb.state = .CLOSED → cb.failureCount < cb.failureThreshold →
        cb'.failureCount < cb.failureThreshold)
      (htime : cb'.lastFailureTime = cb.lastFailureTime ∨
        c = .recordFailure ∧ cb'.lastFailureTime = now)
      (hreset : c ≠ .reset) (hwaits : c = .checkState → ¬ cb.recovered now)
  | closes (hstate : cb'.state = .CLOSED) (hcycles : cb'.openCycles = 0)
      (hcount : cb'.failureCount = 0) (hfrom : cb.state = .OPEN → c = .reset)
  | trips (hfrom : cb.state ≠ .OPEN) (hstate : cb'.state = .OPEN)
      (hcycles : cb'.openCycles = cb.openCycles + 1) (htime : cb'.lastFailureTime = now)
  | recovers (hrecovered : cb.recovered now) (hstate : cb'.state = .HALF_OPEN)
      (hcycles : cb'.openCycles = cb.openCycles)

theorem effectiveState_move (hreset : c ≠ .reset) : Move cb (cb.effectiveState now) now c := by
  rcases em (cb.recovered now) with hrecovered | hwaits
  · rw [effectiveState_recovered hrecovered]
    exact .recovers hrecovered rfl rfl
  · rw [effectiveState_waiting hwaits]
    exact .stays rfl rfl (fun _ h => h) (.inl rfl) hreset fun _ => hwaits

theorem recordSuccess_move : Move cb cb.recordSuccess now .recordSuccess := by
  rw [recordSuccess]
  split
  · rename_i hstate
    split
    · exact .closes rfl rfl rfl (by rw [hstate]; nofun)
    · exact .stays rfl rfl (fun _ h => h) (.inl rfl) nofun nofun
  · split
    · exact .stays rfl rfl (fun _ h => Nat.lt_of_le_of_lt (Nat.sub_le _ _) h) (.inl rfl)
        nofun nofun
    · exact .stays rfl rfl (fun _ h => h) (.inl rfl) nofun nofun
  · exact .stays rfl rfl (fun _ h => h) (.inl rfl) nofun nofun

theorem recordFailure_move : Move cb (cb.recordFailure now) now .recordFailure := by
  rw [recordFailure]
  split
  · rename_i hstate
    exact .trips (by rw [hstate]; nofun) rfl rfl rfl
  · rename_i hstate
    split
    · exact .trips (by rw [hstate]; nofun) rfl rfl rfl
    · rename_i hcount
      exact .stays rfl rfl (fun _ _ => Nat.lt_of_not_le hcount) (.inr ⟨rfl, rfl⟩) nofun nofun
  · rename_i hstate
    exact .stays rfl rfl (by rw [hstate]; nofun) (.inr ⟨rfl, rfl⟩) nofun nofun

theorem call_move (cb : CircuitBreaker) (now : ℚ) (c : Call) : Move cb (cb.call now c) now c := by
  cases c with
  | recordSuccess => exact recordSuccess_move
  | recordFailure => exact recordFailure_move
  | checkState =>
      rw [call, checkState_fst]
      exact effectiveState_move nofun
  | readState => exact effectiveState_move nofun
  | reset => exact .closes rfl rfl rfl fun _ => rfl

end CircuitBreaker

namespace BreakerRun

open CircuitBreaker

variable {s s' : BreakerRun} {e : ℚ × Call}

structure Sound (s : BreakerRun) : Prop where
  configured : s.breaker.Configured
  closed : s.breaker.state = .CLOSED →
    s.breaker.openCycles = 0 ∧ s.breaker.failureCount < s.breaker.failureThreshold
  counted : s.trips = s.breaker.openCycles
  waiting : s.breaker.state = .OPEN →
    1 ≤ s.breaker.openCycles ∧ s.awaited = some ⟨s.breaker.openCycles, s.breaker.lastFailureTime⟩
  past : s.breaker.state = .OPEN → s.breaker.lastFailureTime ≤ s.clock
  passed : s.breaker.state ≠ .OPEN → ∀ trip ∈ s.awaited, trip.due s.breaker ≤ s.clock

theorem Sound.rejects_iff (h : Sound s) (hopen : s.breaker.state = .OPEN) {trip : Trip}
    (htrip : trip ∈ s.awaited) (now : ℚ) : s.breaker.Rejects now ↔ now < trip.due s.breaker := by
  obtain ⟨hcycles, hawaited⟩ := h.waiting hopen
  rw [hawaited] at htrip
  cases htrip
  rw [CircuitBreaker.rejects_iff, h.configured.wait hcycles, Trip.due]
  exact and_iff_right hopen

theorem Sound.onSchedule (h : Sound s) : OnSchedule s where
  closed := h.closed
  rejects := by
    intro trip htrip now hclock hnow
    have hopen : s.breaker.state = .OPEN := by
      by_contra hopen
      have hdue := h.passed hopen trip htrip
      linarith
    exact (h.rejects_iff hopen htrip now).mpr hnow
  admits := by
    intro trip htrip now _ hnow hrejects
    have hopen := ((CircuitBreaker.rejects_iff _ _).mp hrejects).1
    have hlt := (h.rejects_iff hopen htrip now).mp hrejects
    linarith

theorem mem_awaitedAfter {awaited : Option Trip} {cb : CircuitBreaker} {now : ℚ} {c : Call}
    {trip : Trip} (h : trip ∈ awaitedAfter awaited cb now c) : trip ∈ awaited := by
  cases c with
  | checkState => exact (Option.mem_filter_iff.mp h).1
  | reset => cases h
  | recordSuccess | recordFailure | readState => exact h

theorem step_iff : machine.step s e = some s' ↔ s.clock ≤ e.1 ∧ s' = s.next e.1 e.2 := by
  simp only [machine]
  split <;> simp_all [eq_comm]

theorem sound_init {cb : CircuitBreaker} (h : cb.Configured) (start : ℚ) :
    Sound (init cb start) where
  configured := h.congr rfl
  closed _ := ⟨rfl, h.failures⟩
  counted := rfl
  waiting := nofun
  past := nofun
  passed := nofun

section Step
variable {now : ℚ} {c : Call}

theorem next_of_trips (htrips : Trips s.breaker (s.breaker.call now c)) :
    (s.next now c).awaited = some ⟨s.trips + 1, now⟩ ∧ (s.next now c).trips = s.trips + 1 := by
  constructor
  · exact if_pos htrips
  · simp only [next, tripsAfter, htrips.2, reduceCtorEq, if_false, if_pos htrips]

theorem next_of_calm (hcalm : ¬ Trips s.breaker (s.breaker.call now c)) :
    (s.next now c).awaited = awaitedAfter s.awaited s.breaker now c := if_neg hcalm

theorem trips_of_calm (hcalm : ¬ Trips s.breaker (s.breaker.call now c))
    (hstate : (s.breaker.call now c).state ≠ .CLOSED) : (s.next now c).trips = s.trips := by
  simp only [next, tripsAfter, if_neg hstate, if_neg hcalm]

theorem trips_of_closed (hstate : (s.breaker.call now c).state = .CLOSED) :
    (s.next now c).trips = 0 := if_pos hstate

theorem passed_next
    (hcalm : ¬ Trips s.breaker (s.breaker.call now c))
    (hdue : c ≠ .reset → ∀ trip ∈ s.awaited, trip.due s.breaker ≤ now) :
    ∀ trip ∈ (s.next now c).awaited, trip.due (s.next now c).breaker ≤ (s.next now c).clock := by
  intro trip htrip
  rw [next_of_calm hcalm] at htrip
  have hsettings : (s.next now c).breaker.settings = s.breaker.settings :=
    settings_call s.breaker now c
  rw [due_congr hsettings]
  rcases eq_or_ne c .reset with rfl | hreset
  · cases htrip
  · exact hdue hreset trip (mem_awaitedAfter htrip)

theorem awaited_kept (h : Sound s) (hopen : s.breaker.state = .OPEN) (hreset : c ≠ .reset)
    (hwaits : c = .checkState → ¬ s.breaker.recovered now) :
    awaitedAfter s.awaited s.breaker now c = s.awaited := by
  obtain ⟨hcycles, hawaited⟩ := h.waiting hopen
  cases c with
  | checkState =>
      have hnot := hwaits rfl
      simp only [CircuitBreaker.recovered, hopen, true_and, not_le] at hnot
      rw [h.configured.wait hcycles] at hnot
      rw [awaitedAfter, hawaited, Option.filter_some, if_pos]
      rw [decide_eq_true_eq, Trip.due]
      linarith
  | reset => exact absurd rfl hreset
  | recordSuccess | recordFailure | readState => rfl

end Step

theorem sound_step (h : Sound s) (htime : InTime s e) (hstep : machine.step s e = some s') :
    Sound s' := by
  obtain ⟨hclock, rfl⟩ := step_iff.mp hstep
  obtain ⟨now, c⟩ := e
  have hsettings : (s.next now c).breaker.settings = s.breaker.settings :=
    settings_call s.breaker now c
  have hconfigured := h.configured.congr hsettings
  have hthreshold : (s.next now c).breaker.failureThreshold = s.breaker.failureThreshold :=
    congrArg Prod.fst hsettings
  cases call_move s.breaker now c with
  | stays hstate hcycles hcount hlast hreset hwaits =>
      have hcalm : ¬ Trips s.breaker (s.breaker.call now c) := by
        rintro ⟨hfrom, hto⟩
        exact hfrom (hstate ▸ hto)
      refine ⟨hconfigured, ?_, ?_, ?_, ?_, ?_⟩
      · intro hclosed
        have hwas := h.closed (hstate ▸ hclosed)
        exact ⟨hcycles.trans hwas.1, hthreshold ▸ hcount (hstate ▸ hclosed) hwas.2⟩
      · rcases eq_or_ne (s.breaker.call now c).state .CLOSED with hclosed | hclosed
        · rw [trips_of_closed hclosed]
          exact (hcycles.trans (h.closed (hstate ▸ hclosed)).1).symm
        · rw [trips_of_calm hcalm hclosed, h.counted]
          exact hcycles.symm
      · intro hopen
        have hwas : s.breaker.state = .OPEN := hstate ▸ hopen
        obtain ⟨hsome, hawaited⟩ := h.waiting hwas
        have hsame : (s.breaker.call now c).lastFailureTime = s.breaker.lastFailureTime := by
          rcases hlast with hsame | ⟨hc, hnow⟩
          · exact hsame
          · exact hnow.trans (le_antisymm (htime hc hwas) ((h.past hwas).trans hclock))
        rw [next_of_calm hcalm, awaited_kept h hwas hreset hwaits, hawaited]
        exact ⟨hsome.trans_eq hcycles.symm, by rw [next, hcycles, hsame]⟩
      · intro hopen
        have hwas : s.breaker.state = .OPEN := hstate ▸ hopen
        rcases hlast with hsame | ⟨-, hnow⟩
        · exact hsame.trans_le ((h.past hwas).trans hclock)
        · exact hnow.le
      · intro hopen
        apply passed_next hcalm
        intro _ trip htrip
        exact (h.passed (hstate ▸ hopen) trip htrip).trans hclock
  | closes hstate hcycles hcount hfrom =>
      have hcalm : ¬ Trips s.breaker (s.breaker.call now c) := by
        rintro ⟨-, hto⟩
        rw [hstate] at hto
        cases hto
      have hopen : (s.next now c).breaker.state ≠ .OPEN := by
        rw [next, hstate]
        decide
      refine ⟨hconfigured, ?_, ?_, fun h => absurd h hopen, fun h => absurd h hopen, ?_⟩
      · intro _
        refine ⟨hcycles, ?_⟩
        rw [hthreshold]
        exact hcount.trans_lt h.configured.failures
      · rw [trips_of_closed hstate]
        exact hcycles.symm
      · intro _
        apply passed_next hcalm
        intro hreset trip htrip
        exact (h.passed (fun hopen => hreset (hfrom hopen)) trip htrip).trans hclock
  | trips hfrom hstate hcycles hlast =>
      have htrips : Trips s.breaker (s.breaker.call now c) := ⟨hfrom, hstate⟩
      obtain ⟨hawaited, hcount⟩ := next_of_trips htrips
      refine ⟨hconfigured, ?_, ?_, ?_, fun _ => hlast.le, fun hopen => absurd hstate hopen⟩
      · intro hclosed
        rw [next, hstate] at hclosed
        cases hclosed
      · rw [hcount, h.counted]
        exact hcycles.symm
      · intro _
        rw [hawaited, next, hcycles, hlast, h.counted]
        exact ⟨Nat.le_add_left 1 _, rfl⟩
  | recovers hrecovered hstate hcycles =>
      have hopen : (s.next now c).breaker.state ≠ .OPEN := by
        rw [next, hstate]
        decide
      have hcalm : ¬ Trips s.breaker (s.breaker.call now c) := fun h => hopen h.2
      have hclosed : (s.breaker.call now c).state ≠ .CLOSED := by
        rw [hstate]
        decide
      refine ⟨hconfigured, fun h => absurd h hclosed, ?_, fun h => absurd h hopen,
        fun h => absurd h hopen, ?_⟩
      · rw [trips_of_calm hcalm hclosed, h.counted]
        exact hcycles.symm
      · intro _
        apply passed_next hcalm
        intro _ trip htrip
        have hdue := (h.rejects_iff hrecovered.1 htrip now).not
        rw [not_lt, CircuitBreaker.Rejects, effectiveState_recovered hrecovered] at hdue
        exact hdue.mp (by simp)

theorem late_failure_breaks (h : Sound s) (hlate : ¬ InTime s e)
    (hstep : machine.step s e = some s') : ¬ OnSchedule s' := by
  obtain ⟨-, rfl⟩ := step_iff.mp hstep
  obtain ⟨now, c⟩ := e
  simp only [InTime, Classical.not_imp, not_le] at hlate
  obtain ⟨rfl, hopen, hlate⟩ := hlate
  obtain ⟨hcycles, hawaited⟩ := h.waiting hopen
  intro hschedule
  have hcall : s.breaker.call now .recordFailure = s.breaker.counted now := by
    rw [call, recordFailure, hopen]
  have hnext : (s.next now .recordFailure).awaited = s.awaited := by
    apply next_of_calm
    rintro ⟨hfrom, -⟩
    exact hfrom hopen
  have hmem : (⟨s.breaker.openCycles, s.breaker.lastFailureTime⟩ : Trip) ∈
      (s.next now .recordFailure).awaited := by
    rw [hnext, hawaited]
    rfl
  have hwait := h.configured.wait hcycles
  have hpos := h.configured.wait_pos s.breaker.openCycles
  have hbreaker : (s.next now .recordFailure).breaker = s.breaker.counted now := hcall
  apply hschedule.admits _ hmem (max now (s.breaker.lastFailureTime +
    backoff s.breaker.recoveryTimeout s.breaker.recoveryTimeoutMax s.breaker.openCycles))
  · exact le_max_left _ _
  · rw [hbreaker]
    exact le_max_right _ _
  · rw [hbreaker, CircuitBreaker.rejects_iff]
    refine ⟨hopen, max_lt ?_ ?_⟩
    · change now < now + s.breaker.computeRecoveryTimeout
      rw [hwait]
      linarith
    · change _ < now + s.breaker.computeRecoveryTimeout
      rw [hwait]
      linarith

theorem schedule_kept {cb : CircuitBreaker} (h : cb.Configured) {start : ℚ}
    {calls : List (ℚ × Call)} {t : BreakerRun}
    (hrun : machine.run (init cb start) calls = some t) :
    (∀ past rest, calls = past ++ rest → ∀ u, machine.run (init cb start) past = some u →
      OnSchedule u) ↔ machine.Along InTime (init cb start) calls :=
  machine.reached_iff (fun h => h.onSchedule) sound_step late_failure_breaks (sound_init h start)
    hrun

def splunk : CircuitBreaker := { connectionId := "splunk" }

theorem splunk_configured : splunk.Configured := by
  constructor <;> decide +kernel

-- Five calls fail and trip the breaker at 4; a check at 33 is refused and the one at 34 passes.
def outage : List (ℚ × Call) :=
  [(0, .recordFailure), (1, .recordFailure), (2, .recordFailure), (3, .recordFailure),
    (4, .recordFailure), (33, .checkState), (34, .checkState), (35, .recordFailure),
    (94, .checkState), (95, .checkState), (96, .recordSuccess), (97, .recordSuccess)]

theorem outage_on_schedule : ∃ t, machine.run (init splunk 0) outage = some t ∧
    t.breaker.state = .CLOSED ∧
    ∀ past rest, outage = past ++ rest → ∀ u, machine.run (init splunk 0) past = some u →
      OnSchedule u := by
  have hrun : (machine.run (init splunk 0) outage).any
      fun t => decide (t.breaker.state = .CLOSED) := by decide +kernel
  obtain ⟨t, ht, hclosed⟩ := (Option.any_eq_true _ _).mp hrun
  exact ⟨t, ht, of_decide_eq_true hclosed,
    (schedule_kept splunk_configured ht).mpr (by decide +kernel)⟩

-- A sixth call was under way when the breaker tripped at 4; it fails at 10, and a check at 34 is
-- refused.
def lateFailure : List (ℚ × Call) :=
  [(0, .recordFailure), (1, .recordFailure), (2, .recordFailure), (3, .recordFailure),
    (4, .recordFailure), (10, .recordFailure)]

theorem late_failure_delays : splunk.Configured ∧
    ∃ t, machine.run (init splunk 0) lateFailure = some t ∧ ¬ OnSchedule t := by
  refine ⟨splunk_configured, ?_⟩
  have hrun : (machine.run (init splunk 0) lateFailure).any fun t =>
      decide (t.clock ≤ 34 ∧ t.breaker.Rejects 34 ∧
        (t.awaited.any fun trip => decide (trip.due t.breaker ≤ 34)) = true) := by
    decide +kernel
  obtain ⟨t, ht, hdue⟩ := (Option.any_eq_true _ _).mp hrun
  obtain ⟨hclock, hrejects, hawaited⟩ := of_decide_eq_true hdue
  obtain ⟨trip, htrip, hle⟩ := (Option.any_eq_true _ _).mp hawaited
  refine ⟨t, ht, ?_⟩
  intro hschedule
  exact hschedule.admits trip htrip 34 hclock (of_decide_eq_true hle) hrejects

end BreakerRun

end BTagent
