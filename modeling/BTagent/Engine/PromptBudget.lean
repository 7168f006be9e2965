import BTagent.Engine.Gates
import BTagent.Lib.Machine
import BTagent.Lib.Slots
import Mathlib.Algebra.Group.Prod
import Mathlib.Algebra.Order.Field.Rat

namespace BTagent

structure BudgetUsage where
  inputTokens : ℕ
  outputTokens : ℕ
  costUsd : ℚ≥0
  deriving DecidableEq

-- What the shared key can hold: a report, or a value that does not validate as one.
inductive RawUsage where
  | report (usage : BudgetUsage)
  | malformed
  deriving DecidableEq

namespace BudgetUsage

def spend (u : BudgetUsage) : ℕ × ℚ≥0 := (u.inputTokens + u.outputTokens, u.costUsd)

def merge (existing usage : BudgetUsage) : BudgetUsage where
  inputTokens := existing.inputTokens + usage.inputTokens
  outputTokens := existing.outputTokens + usage.outputTokens
  costUsd := existing.costUsd + usage.costUsd

theorem spend_merge (u v : BudgetUsage) : (u.merge v).spend = u.spend + v.spend := by
  simp only [spend, merge, Prod.mk_add_mk, Prod.mk.injEq, and_true]
  omega

end BudgetUsage

def extractUsage : Option RawUsage → Option BudgetUsage
  | some (.report usage) => some usage
  | _ => none

-- `LLMCallNode._record_usage`
def recordUsage (existing : Option RawUsage) (usage : BudgetUsage) : RawUsage :=
  match extractUsage existing with
  | none => .report usage
  | some existing => .report (existing.merge usage)

def usageSpend (raw : Option RawUsage) : ℕ × ℚ≥0 :=
  ((extractUsage raw).map BudgetUsage.spend).getD 0

theorem usageSpend_recordUsage (existing : Option RawUsage) (usage : BudgetUsage) :
    usageSpend (some (recordUsage existing usage)) = usageSpend existing + usage.spend := by
  unfold recordUsage usageSpend
  cases extractUsage existing with
  | none => simp [extractUsage]
  | some old => simp [extractUsage, BudgetUsage.spend_merge]

inductive BudgetCap where
  | tokens
  | cost
  deriving DecidableEq

structure PromptBudgetExceeded where
  usedTokens : ℕ
  maxTokens : ℕ
  usedCostUsd : ℚ≥0
  maxCostUsd : ℚ≥0
  breached : BudgetCap

structure PromptBudgetMiddleware where
  maxTokens : ℕ := 80000
  maxCostUsd : ℚ≥0 := 5
  totalTokens : ℕ := 0
  totalCostUsd : ℚ≥0 := 0

namespace PromptBudgetMiddleware
variable (mw : PromptBudgetMiddleware)

def exceeded (breached : BudgetCap) : PromptBudgetExceeded where
  usedTokens := mw.totalTokens
  maxTokens := mw.maxTokens
  usedCostUsd := mw.totalCostUsd
  maxCostUsd := mw.maxCostUsd
  breached := breached

def beforeRun (category : NodeCategory) : Except PromptBudgetExceeded Unit :=
  if category ≠ .reasoning then .ok ()
  else if mw.maxTokens ≤ mw.totalTokens then .error (mw.exceeded .tokens)
  else if mw.maxCostUsd ≤ mw.totalCostUsd then .error (mw.exceeded .cost)
  else .ok ()

def afterRun (category : NodeCategory) (raw : Option RawUsage) : PromptBudgetMiddleware :=
  if category ≠ .reasoning then mw
  else match extractUsage raw with
    | none => mw
    | some usage =>
        { mw with
          totalTokens := mw.totalTokens + (usage.inputTokens + usage.outputTokens)
          totalCostUsd := mw.totalCostUsd + usage.costUsd }

def total : ℕ × ℚ≥0 := (mw.totalTokens, mw.totalCostUsd)

theorem afterRun_total (category : NodeCategory) (raw : Option RawUsage) :
    (mw.afterRun category raw).total =
      mw.total + if category = .reasoning then usageSpend raw else 0 := by
  unfold afterRun
  by_cases hc : category = .reasoning
  · simp only [hc, ne_eq, not_true, if_false, if_true]
    cases hu : extractUsage raw with
    | none => simp [usageSpend, hu]
    | some usage => simp [usageSpend, hu, total, BudgetUsage.spend]
  · simp [hc]

end PromptBudgetMiddleware

-- One pass of a node that got through `before_run`, with the usages it has reported.
structure MeteredRun where
  category : NodeCategory
  reported : List BudgetUsage := []
  isOver : Bool := false

namespace MeteredRun

def spent (r : MeteredRun) : ℕ × ℚ≥0 := (r.reported.map BudgetUsage.spend).sum

def reasoning (r : MeteredRun) : ℕ × ℚ≥0 := if r.category = .reasoning then r.spent else 0

-- What a reasoning run that is over should have added to the totals.
def due (r : MeteredRun) : ℕ × ℚ≥0 := if r.isOver then r.reasoning else 0

def reports (r : MeteredRun) (raw : RawUsage) : MeteredRun :=
  { r with reported := (extractUsage (some raw)).toList ++ r.reported }

def ends (r : MeteredRun) : MeteredRun := { r with isOver := true }

theorem due_reports {r : MeteredRun} (hr : r.isOver = false) (raw : RawUsage) :
    (r.reports raw).due = r.due := by
  simp [due, reports, hr]

theorem due_ends {r : MeteredRun} (hr : r.isOver = false) : r.ends.due = r.due + r.reasoning := by
  have hends : r.ends.due = r.reasoning := rfl
  rw [hends, due, hr]
  simp

end MeteredRun

-- `usage` is the value under `btagent.budget.usage` in the metadata that all nodes share.
structure BudgetState where
  mw : PromptBudgetMiddleware
  usage : Option RawUsage
  runs : List MeteredRun

inductive BudgetEvent where
  | start (category : NodeCategory)
  | record (i : ℕ) (usage : BudgetUsage)
  | attach (i : ℕ) (raw : RawUsage)
  | finish (i : ℕ)
  | fail (i : ℕ)

namespace BudgetState

def live (s : BudgetState) (i : ℕ) : Option MeteredRun :=
  s.runs[i]?.filter fun r => !r.isOver

def set (s : BudgetState) (i : ℕ) (r : MeteredRun) : BudgetState :=
  { s with runs := s.runs.set i r }

-- A run that fails does not reach `after_run`.
def step (s : BudgetState) : BudgetEvent → Option BudgetState
  | .start category =>
      match s.mw.beforeRun category with
      | .error _ => some s
      | .ok () => some { s with runs := s.runs ++ [{ category }] }
  | .record i usage =>
      (s.live i).map fun r =>
        { s.set i (r.reports (.report usage)) with usage := some (recordUsage s.usage usage) }
  | .attach i raw =>
      (s.live i).map fun r => { s.set i (r.reports raw) with usage := some raw }
  | .finish i =>
      (s.live i).map fun r => { s.set i r.ends with mw := s.mw.afterRun r.category s.usage }
  | .fail i => (s.live i).map fun r => s.set i r.ends

def machine : Machine BudgetState BudgetEvent where
  step := step

def initial (maxTokens : ℕ) (maxCostUsd : ℚ≥0) (usage : Option RawUsage) : BudgetState where
  mw := { maxTokens, maxCostUsd }
  usage := usage
  runs := []

def due (s : BudgetState) : ℕ × ℚ≥0 := (s.runs.map MeteredRun.due).sum

def Accounted (s : BudgetState) : Prop := s.mw.total = s.due

-- A reasoning run that ends well finds its own reports, all of them and no others, under the key;
-- one that fails has reported nothing.
def ReadsOwn (s : BudgetState) : BudgetEvent → Prop
  | .finish i =>
      ∀ r ∈ s.runs[i]?, r.category = .reasoning → usageSpend s.usage = r.spent
  | .fail i => ∀ r ∈ s.runs[i]?, r.category = .reasoning → r.spent = 0
  | _ => True

instance (s : BudgetState) (e : BudgetEvent) : Decidable (s.ReadsOwn e) := by
  cases e <;> unfold ReadsOwn <;> infer_instance

variable {s s' : BudgetState} {i : ℕ} {r : MeteredRun}

theorem live_eq_some : s.live i = some r ↔ s.runs[i]? = some r ∧ r.isOver = false := by
  simp [live, Option.filter_eq_some_iff]

theorem due_set (h : s.live i = some r) (r' : MeteredRun) :
    (s.set i r').due + r.due = s.due + r'.due :=
  Slots.sum_set MeteredRun.due (live_eq_some.mp h).1

theorem due_report (h : s.live i = some r) (raw : RawUsage) :
    (s.set i (r.reports raw)).due = s.due := by
  have hset := due_set h (r.reports raw)
  rw [MeteredRun.due_reports (live_eq_some.mp h).2] at hset
  exact add_right_cancel hset

theorem due_end (h : s.live i = some r) : (s.set i r.ends).due = s.due + r.reasoning := by
  have hset := due_set h r.ends
  rw [MeteredRun.due_ends (live_eq_some.mp h).2, ← add_assoc, add_right_comm] at hset
  exact add_right_cancel hset

theorem step_gain {e : BudgetEvent} (h : s.step e = some s') :
    ∃ gained owed, s'.mw.total = s.mw.total + gained ∧ s'.due = s.due + owed ∧
      (s.ReadsOwn e ↔ gained = owed) := by
  cases e with
  | start category =>
      simp only [step] at h
      split at h
      · cases h
        exact ⟨0, 0, by simp [ReadsOwn]⟩
      · cases h
        refine ⟨0, 0, ?_⟩
        simp [due, ReadsOwn, MeteredRun.due]
  | record i usage =>
      obtain ⟨r, hr, rfl⟩ := Option.map_eq_some_iff.mp h
      refine ⟨0, 0, by simp [set], ?_, by simp [ReadsOwn]⟩
      rw [add_zero]
      exact due_report hr (.report usage)
  | attach i raw =>
      obtain ⟨r, hr, rfl⟩ := Option.map_eq_some_iff.mp h
      refine ⟨0, 0, by simp [set], ?_, by simp [ReadsOwn]⟩
      rw [add_zero]
      exact due_report hr raw
  | finish i =>
      obtain ⟨r, hr, rfl⟩ := Option.map_eq_some_iff.mp h
      refine ⟨_, r.reasoning, s.mw.afterRun_total r.category s.usage, due_end hr, ?_⟩
      have hi := (live_eq_some.mp hr).1
      by_cases hc : r.category = .reasoning <;> simp [ReadsOwn, MeteredRun.reasoning, hi, hc]
  | fail i =>
      obtain ⟨r, hr, rfl⟩ := Option.map_eq_some_iff.mp h
      refine ⟨0, r.reasoning, by simp [set], due_end hr, ?_⟩
      have hi := (live_eq_some.mp hr).1
      by_cases hc : r.category = .reasoning
      · simp only [ReadsOwn, MeteredRun.reasoning, hi, hc, Option.mem_some_iff, forall_eq',
          if_true, true_imp_iff]
        exact eq_comm
      · simp [ReadsOwn, MeteredRun.reasoning, hi, hc]

theorem accounted_step {e : BudgetEvent} (hs : s.Accounted) (h : s.step e = some s') :
    s'.Accounted ↔ s.ReadsOwn e := by
  obtain ⟨gained, owed, hmw, hdue, hread⟩ := step_gain h
  rw [hread]
  unfold Accounted at hs ⊢
  rw [hmw, hdue, hs]
  exact add_right_inj s.due

theorem totals_count_reports (maxTokens : ℕ) (maxCostUsd : ℚ≥0) (usage : Option RawUsage)
    (events : List BudgetEvent) (t : BudgetState)
    (h : machine.run (initial maxTokens maxCostUsd usage) events = some t) :
    (∀ fs gs, events = fs ++ gs → ∀ u, machine.run (initial maxTokens maxCostUsd usage) fs = some u →
      u.mw.total = (u.runs.map MeteredRun.due).sum) ↔
    machine.Along ReadsOwn (initial maxTokens maxCostUsd usage) events := by
  apply machine.reached_iff (I := Accounted) (P := Accounted)
  · exact fun hs => hs
  · intro s e s' hs hg hstep
    exact (accounted_step hs hstep).mpr hg
  · intro s e s' hs hg hstep
    exact fun hs' => hg ((accounted_step hs hstep).mp hs')
  · rfl
  · exact h

def callUsage : BudgetUsage where
  inputTokens := 100
  outputTokens := 50
  costUsd := 0

-- One call, and a node of another category that reports nothing.
theorem totals_count_reports_one_call :
    ∃ t, machine.run (initial 80000 5 none)
        [.start .reasoning, .record 0 callUsage, .start .data, .finish 1, .finish 0] = some t ∧
      t.mw.total = (t.runs.map MeteredRun.due).sum := by
  refine ⟨_, rfl, ?_⟩
  exact (totals_count_reports 80000 5 none
    [.start .reasoning, .record 0 callUsage, .start .data, .finish 1, .finish 0] _ rfl).mpr
    (by decide +kernel) _ [] (List.append_nil _).symm _ rfl

-- Two LLM calls one after the other: the second adds the merged report, the first call's included.
theorem first_call_counted_twice :
    ∃ t, machine.run (initial 80000 5 none)
        [.start .reasoning, .record 0 callUsage, .finish 0,
          .start .reasoning, .record 1 callUsage, .finish 1] = some t ∧
      t.mw.totalTokens = 450 ∧ (t.runs.map MeteredRun.due).sum = (300, 0) := by
  have hrun : (machine.run (initial 80000 5 none)
      [.start .reasoning, .record 0 callUsage, .finish 0,
        .start .reasoning, .record 1 callUsage, .finish 1]).any fun t =>
      decide (t.mw.totalTokens = 450 ∧ (t.runs.map MeteredRun.due).sum = (300, 0)) := by
    decide +kernel
  obtain ⟨t, ht, hdec⟩ := (Option.any_eq_true _ _).mp hrun
  exact ⟨t, ht, of_decide_eq_true hdec⟩

-- Where every report goes through `_record_usage`, the key holds the sum of all of them.
def Recorded (s : BudgetState) : Prop :=
  usageSpend s.usage = (s.runs.map MeteredRun.spent).sum

def Records (_ : BudgetState) (e : BudgetEvent) : Prop := ∀ i raw, e ≠ .attach i raw

theorem spent_set (h : s.live i = some r) (r' : MeteredRun) :
    ((s.set i r').runs.map MeteredRun.spent).sum + r.spent =
      (s.runs.map MeteredRun.spent).sum + r'.spent :=
  Slots.sum_set MeteredRun.spent (live_eq_some.mp h).1

theorem recorded_step {e : BudgetEvent} (hs : s.Recorded) (hg : Records s e)
    (h : s.step e = some s') : s'.Recorded := by
  unfold Recorded at hs ⊢
  cases e with
  | start category =>
      simp only [step] at h
      split at h
      · cases h
        exact hs
      · cases h
        simp [hs, MeteredRun.spent]
  | record i usage =>
      obtain ⟨r, hr, rfl⟩ := Option.map_eq_some_iff.mp h
      have hset := spent_set hr (r.reports (.report usage))
      have hown : (r.reports (.report usage)).spent = usage.spend + r.spent := by
        simp [MeteredRun.spent, MeteredRun.reports, extractUsage]
      rw [hown, ← add_assoc] at hset
      rw [usageSpend_recordUsage, hs]
      exact (add_right_cancel hset).symm
  | attach i raw => exact absurd rfl (hg i raw)
  | finish i =>
      obtain ⟨r, hr, rfl⟩ := Option.map_eq_some_iff.mp h
      have hset := spent_set hr r.ends
      exact hs.trans (add_right_cancel hset).symm
  | fail i =>
      obtain ⟨r, hr, rfl⟩ := Option.map_eq_some_iff.mp h
      have hset := spent_set hr r.ends
      exact hs.trans (add_right_cancel hset).symm

theorem usage_accumulates {maxTokens : ℕ} {maxCostUsd : ℚ≥0} {events : List BudgetEvent}
    {t : BudgetState} (hg : machine.Along Records (initial maxTokens maxCostUsd none) events)
    (h : machine.run (initial maxTokens maxCostUsd none) events = some t) : t.Recorded := by
  have hinitial : (initial maxTokens maxCostUsd none).Recorded := rfl
  exact machine.invariant_along recorded_step hinitial hg h

end BudgetState

end BTagent
