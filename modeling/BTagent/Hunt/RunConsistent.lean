import BTagent.Hunt.IngestedOnce
import BTagent.Hunt.PackFiles
import BTagent.Hunt.PackRun
import Mathlib.Data.List.Dedup

namespace BTagent

-- `load_pack` refuses a pack with duplicate rule ids.
structure LoadedPack extends HuntPack where
  unique : (rules.map HuntPackRule.id).Nodup

def HuntPack.enabledRules (pack : HuntPack) : List HuntPackRule := pack.rules.filter (·.enabled)

structure PackRunResult where
  ruleResults : List RuleRunResult
  truncated : Bool
  rulesNotRun : List String

structure CoveredRunRow extends HuntPackRunRow where
  truncated : Bool
  rulesNotRun : List String

-- An invocation at work on the row: `began` is the row as the invocation found it, and `shared` says
-- that `progress` already holds the list of completed rules that the loop goes on to extend.
inductive RunWorker where
  | idle
  | holding (memory : CoveredRunRow)
  | persisting (began memory : HuntPackRunRow) (shared : Bool) (result : PackRunResult)
      (rules : List RuleRunResult)

-- One run of a pack: its committed row and the invocation that works on it.
structure RunLife where
  row : Option CoveredRunRow
  worker : RunWorker

inductive RunEvent where
  | start (now : ℕ)
  | execute (run : HuntPackRule → List BackendRunResult)
  | commitRule
  | finish
  | crash

namespace HuntPackRun

-- The rules from position `i` on; `expired` says that the deadline has passed at a position.
def runRules (run : HuntPackRule → List BackendRunResult) (maxRules : Option ℕ)
    (expired : ℕ → Bool) : ℕ → List HuntPackRule → PackRunResult
  | _, [] => ⟨[], false, []⟩
  | i, rule :: rules =>
      if maxRules.any (· ≤ i) || expired i then ⟨[], true, (rule :: rules).map HuntPackRule.id⟩
      else
        let result := runRules run maxRules expired (i + 1) rules
        { result with ruleResults := ⟨rule.id, rule.title, run rule⟩ :: result.ruleResults }

-- `run_pack_and_ingest` leaves the cap at its default and sets no deadline.
def runPack (pack : LoadedPack) (run : HuntPackRule → List BackendRunResult) : PackRunResult :=
  runRules run (some 1000) (fun _ => false) 0 pack.enabledRules

def startRun (window now : ℕ) : Option CoveredRunRow → Option RunLife
  | none =>
      let row : CoveredRunRow := ⟨newRunningRow now, false, []⟩
      some ⟨some row, .holding row⟩
  | some row =>
      if row.status = .RUNNING ∧ ¬ stale window now row.toHuntPackRunRow then
        some ⟨some row, .holding row⟩
      else none

def storeNext (row : CoveredRunRow) (memory : HuntPackRunRow) (shared : Bool)
    (rule : RuleRunResult) : CoveredRunRow :=
  ⟨flush memory (afterRule memory rule) row.toHuntPackRunRow (!shared), row.truncated, row.rulesNotRun⟩

def commitNext (row : CoveredRunRow) (began memory : HuntPackRunRow) (shared : Bool)
    (result : PackRunResult) (rule : RuleRunResult) (rules : List RuleRunResult) : RunLife :=
  if rule.ruleId ∈ memory.completedRuleIds then
    ⟨some row, .persisting began memory shared result rules⟩
  else
    ⟨some (storeNext row memory shared rule),
      .persisting began (afterRule memory rule) true result rules⟩

def finalRow (row : CoveredRunRow) (memory : HuntPackRunRow) (result : PackRunResult) :
    CoveredRunRow :=
  let final := { memory with status := deriveRunStatus result.ruleResults }
  ⟨flush memory final row.toHuntPackRunRow false, result.truncated, result.rulesNotRun⟩

-- A run within its resume window. Another invocation starts when the one before has died.
def life (pack : LoadedPack) (window : ℕ) : Machine RunLife RunEvent where
  step s
    | .start now =>
        match s.worker with
        | .idle => startRun window now s.row
        | _ => none
    | .execute run =>
        match s.worker with
        | .holding memory =>
            let result := runPack pack run
            let row := memory.toHuntPackRunRow
            some ⟨s.row, .persisting row row false result result.ruleResults⟩
        | _ => none
    | .commitRule =>
        match s.row, s.worker with
        | some row, .persisting began memory shared result (rule :: rules) =>
            some (commitNext row began memory shared result rule rules)
        | _, _ => none
    | .finish =>
        match s.row, s.worker with
        | some row, .persisting _ memory _ result [] => some ⟨some (finalRow row memory result), .idle⟩
        | _, _ => none
    | .crash => some { s with worker := .idle }

def notStarted : RunLife := ⟨none, .idle⟩

end HuntPackRun

namespace HuntPackRun

def Fails (rule : RuleRunResult) : Prop := ∃ b ∈ rule.backendResults, RuleRunResult.failed b = true

instance : DecidablePred Fails := fun rule =>
  inferInstanceAs (Decidable (∃ b ∈ rule.backendResults, RuleRunResult.failed b = true))

-- The rules that every execution reaches.
def reachedIds (pack : LoadedPack) : List String := (pack.enabledRules.take 1000).map HuntPackRule.id

structure Consistent (pack : LoadedPack) (row : CoveredRunRow) : Prop where
  status : row.status = .COMPLETED ↔ row.errorCount = 0
  disjoint : ∀ r ∈ row.ruleStats.keys, r ∉ row.rulesNotRun
  covers : ∀ r, r ∈ row.ruleStats.keys ∨ r ∈ row.rulesNotRun ↔
    r ∈ pack.enabledRules.map HuntPackRule.id
  sums : Summed row.toHuntPackRunRow

-- A rule that is ingested again had nothing counted, and the execution that ends the run fails
-- exactly where an error is counted.
def Tracks (s : RunLife) : RunEvent → Prop
  | .commitRule =>
      match s.worker with
      | .persisting _ memory _ _ (rule :: _) => rule.ruleId ∉ memory.completedRuleIds →
          ∀ stat ∈ memory.ruleStats.get? rule.ruleId, stat.hits = 0 ∧ stat.errors = 0
      | _ => True
  | .finish =>
      match s.worker with
      | .persisting began _ _ result _ => (∃ rule ∈ result.ruleResults, Fails rule) ↔
          began.errorCount ≠ 0 ∨
            ∃ rule ∈ result.ruleResults, rule.ruleId ∉ began.completedRuleIds ∧ Fails rule
      | _ => True
  | _ => True

variable {pack : LoadedPack} {window now : ℕ} {s s' : RunLife} {row : CoveredRunRow}
  {began memory stored : HuntPackRunRow} {rule : RuleRunResult} {rules : List RuleRunResult}
  {run : HuntPackRule → List BackendRunResult} {result : PackRunResult} {shared : Bool}

section Execution

theorem runRules_eq {maxRules i : ℕ} {todo : List HuntPackRule} (hi : i ≤ maxRules) :
    runRules run (some maxRules) (fun _ => false) i todo =
      ⟨(todo.take (maxRules - i)).map fun r => ⟨r.id, r.title, run r⟩,
        !(todo.drop (maxRules - i)).isEmpty, (todo.drop (maxRules - i)).map HuntPackRule.id⟩ := by
  induction todo generalizing i with
  | nil => simp [runRules]
  | cons r todo ih =>
      rw [runRules]
      by_cases hcap : maxRules ≤ i
      · have hend : maxRules - i = 0 := by omega
        simp [hcap, hend]
      · have hnext : maxRules - i = (maxRules - (i + 1)) + 1 := by omega
        simp [hcap, ih (i := i + 1) (by omega), hnext]

theorem runPack_results : (runPack pack run).ruleResults =
    (pack.enabledRules.take 1000).map fun r => ⟨r.id, r.title, run r⟩ := by
  rw [runPack, runRules_eq (Nat.zero_le _)]

theorem runPack_ids : (runPack pack run).ruleResults.map RuleRunResult.ruleId = reachedIds pack := by
  rw [runPack_results, List.map_map]
  rfl

theorem runPack_notRun : (runPack pack run).rulesNotRun =
    (pack.enabledRules.drop 1000).map HuntPackRule.id := by
  rw [runPack, runRules_eq (Nat.zero_le _)]

theorem enabled_unique : (pack.enabledRules.map HuntPackRule.id).Nodup :=
  pack.unique.sublist (List.Sublist.map _ List.filter_sublist)

theorem reached_append : reachedIds pack ++ (runPack pack run).rulesNotRun =
    pack.enabledRules.map HuntPackRule.id := by
  rw [reachedIds, runPack_notRun, ← List.map_append, List.take_append_drop]

theorem deriveRunStatus_completed :
    deriveRunStatus rules = .COMPLETED ↔ ¬ ∃ rule ∈ rules, Fails rule := by
  have hany : (rules.flatMap (·.backendResults)).any RuleRunResult.failed = true ↔
      ∃ rule ∈ rules, Fails rule := by
    simp only [List.any_eq_true, List.mem_flatMap, Fails]
    constructor
    · rintro ⟨b, ⟨rule, hrule, hb⟩, hfails⟩
      exact ⟨rule, hrule, b, hb, hfails⟩
    · rintro ⟨rule, hrule, b, hb, hfails⟩
      exact ⟨b, ⟨rule, hrule, hb⟩, hfails⟩
  rw [← hany, deriveRunStatus]
  split_ifs with hnone hall
  · simpa using hnone
  · simpa using hnone
  · simpa using hnone

theorem errors_length : rule.errors.length = 0 ↔ ¬ Fails rule := by
  rw [List.length_eq_zero_iff, RuleRunResult.errors, List.dedup_eq_nil, List.map_eq_nil_iff,
    List.filter_eq_nil_iff, Fails]
  simp

end Execution

section Rows

theorem summed_again {stat : RuleStat} (h : Summed memory)
    (hstat : memory.ruleStats.get? rule.ruleId = some stat) (hzero : stat.hits = 0 ∧ stat.errors = 0) :
    Summed (afterRule memory rule) := by
  obtain ⟨pre, post, hold, hset⟩ := OrderedDict.entries_set_old (v := rule.statEntry) hstat
  have hhits := h.hits
  have herrors := h.errors
  constructor
  · simp only [hitSum, hold, List.map_append, List.map_cons, List.sum_append, List.sum_cons] at hhits
    have hentry : rule.statEntry.hits = rule.hitCount := rfl
    simp only [afterRule, hitSum, hset, List.map_append, List.map_cons, List.sum_append,
      List.sum_cons]
    omega
  · simp only [errorSum, hold, List.map_append, List.map_cons, List.sum_append, List.sum_cons]
      at herrors
    have hentry : rule.statEntry.errors = rule.errors.length := rfl
    simp only [afterRule, errorSum, hset, List.map_append, List.map_cons, List.sum_append,
      List.sum_cons]
    omega

theorem summed_next (h : Summed memory)
    (hzero : ∀ stat ∈ memory.ruleStats.get? rule.ruleId, stat.hits = 0 ∧ stat.errors = 0) :
    Summed (afterRule memory rule) := by
  cases hstat : memory.ruleStats.get? rule.ruleId with
  | some stat => exact summed_again h hstat (hzero stat hstat)
  | none =>
      apply summed_afterRule h
      rw [← OrderedDict.get?_isSome, hstat]
      exact Bool.false_ne_true

-- The committed row, running or ended.
structure RowKept (pack : LoadedPack) (row : CoveredRunRow) : Prop where
  sums : Summed row.toHuntPackRunRow
  reached : ∀ r ∈ row.ruleStats.keys, r ∈ reachedIds pack
  cursor : ∀ r ∈ row.completedRuleIds, r ∈ row.ruleStats.keys
  ended : row.status ≠ .RUNNING → Consistent pack row

-- The invocation has dealt with the rules of `done`.
structure Underway (pack : LoadedPack) (row : CoveredRunRow) (began memory : HuntPackRunRow)
    (result : PackRunResult) (done rules : List RuleRunResult) : Prop where
  running : row.status = .RUNNING ∧ memory.status = .RUNNING
  same : SameCounts row.toHuntPackRunRow memory
  executed : ∃ run, result = runPack pack run
  split : result.ruleResults = done ++ rules
  cursor : ∀ r ∈ memory.completedRuleIds, r ∈ memory.ruleStats.keys
  counted : ∀ rule ∈ done, rule.ruleId ∈ memory.ruleStats.keys
  ahead : ∀ rule ∈ rules, rule.ruleId ∈ memory.completedRuleIds ↔ rule.ruleId ∈ began.completedRuleIds
  errors : memory.errorCount ≠ 0 ↔ began.errorCount ≠ 0 ∨
    ∃ rule ∈ done, rule.ruleId ∉ began.completedRuleIds ∧ Fails rule

def WorkerKept (pack : LoadedPack) (s : RunLife) : Prop :=
  match s.worker with
  | .idle => True
  | .holding memory => s.row = some memory ∧ memory.status = .RUNNING
  | .persisting began memory _ result rules => ∃ row done, s.row = some row ∧
      Underway pack row began memory result done rules

structure Kept (pack : LoadedPack) (s : RunLife) : Prop where
  stored : ∀ row ∈ s.row, RowKept pack row
  worker : WorkerKept pack s

end Rows

section Steps
variable {done : List RuleRunResult}

theorem kept_start (h : Kept pack s) (hs : startRun window now s.row = some s') : Kept pack s' := by
  unfold startRun at hs
  split at hs
  · cases hs
    refine ⟨fun row hrow => ?_, rfl, rfl⟩
    cases hrow
    refine ⟨newRunningRow_summed, ?_, ?_, fun hended => absurd rfl hended⟩
    · intro r hr
      cases hr
    · intro r hr
      cases hr
  · next row hrow =>
      split at hs
      · next hrunning =>
          cases hs
          exact ⟨fun row hrow' => h.stored row (hrow.trans hrow'), rfl, hrunning.1⟩
      · cases hs

theorem kept_execute (h : Kept pack s) {memory : CoveredRunRow} (hw : s.worker = .holding memory) :
    Kept pack ⟨s.row, .persisting memory.toHuntPackRunRow memory.toHuntPackRunRow false
      (runPack pack run) (runPack pack run).ruleResults⟩ := by
  have hworker := h.worker
  rw [WorkerKept, hw] at hworker
  obtain ⟨hrow, hrunning⟩ := hworker
  refine ⟨h.stored, memory, [], hrow, ⟨hrunning, hrunning⟩, SameCounts.rfl, ⟨run, rfl⟩, rfl,
    (h.stored memory hrow).cursor, ?_, fun _ _ => Iff.rfl, ?_⟩
  · intro rule hrule
    cases hrule
  · simp

theorem Underway.unique (h : Underway pack row began memory result done (rule :: rules)) :
    ∀ later ∈ rules, later.ruleId ≠ rule.ruleId := by
  obtain ⟨run, rfl⟩ := h.executed
  have hids : ((done ++ rule :: rules).map RuleRunResult.ruleId).Nodup := by
    rw [← h.split, runPack_ids, reachedIds]
    exact enabled_unique.sublist (List.Sublist.map _ (List.take_sublist _ _))
  rw [List.map_append, List.map_cons, List.nodup_append] at hids
  intro later hlater heq
  exact (List.nodup_cons.mp hids.2.1).1 (heq ▸ List.mem_map_of_mem hlater)

theorem Underway.reaches (h : Underway pack row began memory result done rules) :
    ∀ rule ∈ done ++ rules, rule.ruleId ∈ reachedIds pack := by
  obtain ⟨run, rfl⟩ := h.executed
  intro rule hrule
  rw [← h.split] at hrule
  have hids : (runPack pack run).ruleResults.map RuleRunResult.ruleId = reachedIds pack :=
    runPack_ids
  rw [← hids]
  exact List.mem_map_of_mem hrule

theorem underway_skip (h : Underway pack row began memory result done (rule :: rules))
    (hskip : rule.ruleId ∈ memory.completedRuleIds) :
    Underway pack row began memory result (done ++ [rule]) rules := by
  have hbegan := (h.ahead rule List.mem_cons_self).mp hskip
  refine ⟨h.running, h.same, h.executed, ?_, h.cursor, ?_, ?_, ?_⟩
  · rw [h.split, List.append_assoc, List.singleton_append]
  · intro r hr
    rcases List.mem_append.mp hr with hr | hr
    · exact h.counted r hr
    · obtain rfl := List.mem_singleton.mp hr
      exact h.cursor _ hskip
  · exact fun r hr => h.ahead r (List.mem_cons_of_mem _ hr)
  · rw [h.errors]
    simp [or_and_right, exists_or, hbegan]

theorem storeNext_same (h : SameCounts row.toHuntPackRunRow memory) :
    SameCounts (storeNext row memory shared rule).toHuntPackRunRow (afterRule memory rule) :=
  flush_counts h

theorem underway_ingest (h : Underway pack row began memory result done (rule :: rules))
    (hnew : rule.ruleId ∉ memory.completedRuleIds) :
    Underway pack (storeNext row memory shared rule) began (afterRule memory rule) result
      (done ++ [rule]) rules := by
  have hbegan : rule.ruleId ∉ began.completedRuleIds :=
    fun hmem => hnew ((h.ahead rule List.mem_cons_self).mpr hmem)
  have hkeys : ∀ r, r ∈ (afterRule memory rule).ruleStats.keys ↔
      r = rule.ruleId ∨ r ∈ memory.ruleStats.keys :=
    fun r => OrderedDict.mem_keys_set _ _ _ _
  refine ⟨⟨?_, h.running.2⟩, storeNext_same h.same, h.executed, ?_, ?_, ?_, ?_, ?_⟩
  · simp [storeNext, flush, afterRule, h.running.1]
  · rw [h.split, List.append_assoc, List.singleton_append]
  · intro r hr
    rw [hkeys]
    rcases List.mem_append.mp hr with hr | hr
    · exact Or.inr (h.cursor r hr)
    · exact Or.inl (List.mem_singleton.mp hr)
  · intro r hr
    rw [hkeys]
    rcases List.mem_append.mp hr with hr | hr
    · exact Or.inr (h.counted r hr)
    · exact Or.inl (congrArg _ (List.mem_singleton.mp hr))
  · intro later hlater
    have hne := h.unique later hlater
    have hahead := h.ahead later (List.mem_cons_of_mem _ hlater)
    simp only [afterRule, List.mem_append, List.mem_singleton, hne, or_false, hahead]
  · have herrors : (afterRule memory rule).errorCount ≠ 0 ↔ memory.errorCount ≠ 0 ∨ Fails rule := by
      have hfails : rule.errors.length = 0 ↔ ¬ Fails rule := errors_length
      simp only [afterRule, ne_eq, Nat.add_eq_zero_iff, hfails]
      tauto
    rw [herrors, h.errors]
    simp only [List.mem_append, List.mem_singleton, or_and_right, exists_or, exists_eq_left, hbegan,
      not_false_eq_true, true_and, or_assoc]

theorem Underway.summed (h : Underway pack row began memory result done rules)
    (hrow : RowKept pack row) : Summed memory :=
  hrow.sums.congr ⟨h.same.hits.symm, h.same.errors.symm, h.same.stats.symm⟩

theorem rowKept_ingest (hrow : RowKept pack row)
    (h : Underway pack row began memory result done (rule :: rules))
    (hzero : ∀ stat ∈ memory.ruleStats.get? rule.ruleId, stat.hits = 0 ∧ stat.errors = 0) :
    RowKept pack (storeNext row memory shared rule) := by
  have hsame : SameCounts (storeNext row memory shared rule).toHuntPackRunRow (afterRule memory rule) :=
    storeNext_same h.same
  have hkeys : ∀ r, r ∈ (storeNext row memory shared rule).ruleStats.keys ↔
      r = rule.ruleId ∨ r ∈ row.ruleStats.keys := by
    intro r
    rw [hsame.stats, h.same.stats]
    exact OrderedDict.mem_keys_set _ _ _ _
  have hmemory : Summed memory := h.summed hrow
  refine ⟨(summed_next hmemory hzero).congr hsame, ?_, ?_, ?_⟩
  · intro r hr
    rcases (hkeys r).mp hr with rfl | hr
    · exact h.reaches rule (by simp)
    · exact hrow.reached r hr
  · intro r hr
    rw [hkeys, h.same.stats]
    cases shared with
    | true => exact Or.inr (h.same.stats ▸ hrow.cursor r hr)
    | false =>
        rcases List.mem_append.mp hr with hr | hr
        · exact Or.inr (h.cursor r hr)
        · exact Or.inl (List.mem_singleton.mp hr)
  · intro hended
    refine absurd ?_ hended
    simp [storeNext, flush, afterRule, h.running.1]

theorem rowKept_finish (hrow : RowKept pack row)
    (h : Underway pack row began memory result done [])
    (hg : (∃ rule ∈ result.ruleResults, Fails rule) ↔ began.errorCount ≠ 0 ∨
      ∃ rule ∈ result.ruleResults, rule.ruleId ∉ began.completedRuleIds ∧ Fails rule) :
    RowKept pack (finalRow row memory result) := by
  have hflush : SameCounts (finalRow row memory result).toHuntPackRunRow
      { memory with status := deriveRunStatus result.ruleResults } := flush_counts h.same
  have hsame : SameCounts (finalRow row memory result).toHuntPackRunRow memory :=
    ⟨hflush.hits, hflush.errors, hflush.stats⟩
  have hmemory : Summed memory := h.summed hrow
  have hdone : result.ruleResults = done := by rw [h.split, List.append_nil]
  obtain ⟨run, hrun⟩ := h.executed
  have hkeys : ∀ r, r ∈ (finalRow row memory result).ruleStats.keys ↔ r ∈ reachedIds pack := by
    intro r
    rw [hsame.stats]
    constructor
    · intro hr
      exact hrow.reached r (h.same.stats ▸ hr)
    · intro hr
      have hids : (runPack pack run).ruleResults.map RuleRunResult.ruleId = reachedIds pack :=
        runPack_ids
      rw [← hids, ← hrun, hdone] at hr
      obtain ⟨rule, hrule, rfl⟩ := List.mem_map.mp hr
      exact h.counted rule hrule
  have hnotRun : (finalRow row memory result).rulesNotRun = (runPack pack run).rulesNotRun := by
    rw [← hrun]
    rfl
  have hall : reachedIds pack ++ (runPack pack run).rulesNotRun =
      pack.enabledRules.map HuntPackRule.id := reached_append
  have hsums : Summed (finalRow row memory result).toHuntPackRunRow := hmemory.congr hsame
  refine ⟨hsums, fun r hr => (hkeys r).mp hr, ?_, fun _ => ⟨?_, ?_, ?_, hsums⟩⟩
  · intro r hr
    rw [hsame.stats, ← h.same.stats]
    exact hrow.cursor r hr
  · have hstatus : (finalRow row memory result).status = deriveRunStatus result.ruleResults := by
      simp only [finalRow, flush, h.running]
      split_ifs with heq
      · exact heq.symm
      · rfl
    rw [hstatus, deriveRunStatus_completed, hg, hsame.errors, hdone, ← h.errors, ne_eq, not_not]
  · intro r hr
    rw [hnotRun]
    have hunique : (pack.enabledRules.map HuntPackRule.id).Nodup := enabled_unique
    rw [← hall, List.nodup_append] at hunique
    exact fun hnot => hunique.2.2 r ((hkeys r).mp hr) r hnot rfl
  · intro r
    rw [hkeys, hnotRun, ← hall, List.mem_append]

theorem kept_step {ev : RunEvent} (h : Kept pack s) (hg : Tracks s ev)
    (hstep : (life pack window).step s ev = some s') : Kept pack s' := by
  cases ev with
  | start now =>
      simp only [life] at hstep
      split at hstep
      · exact kept_start h hstep
      · cases hstep
  | execute run =>
      simp only [life] at hstep
      split at hstep
      · next memory hw =>
          cases hstep
          exact kept_execute h hw
      · cases hstep
  | commitRule =>
      simp only [life] at hstep
      split at hstep
      · next row began memory shared result rule rules hrow hw =>
          have hworker := h.worker
          rw [WorkerKept, hw] at hworker
          obtain ⟨row', done, hrow', hunder⟩ := hworker
          obtain rfl : row' = row := Option.some.inj (hrow'.symm.trans hrow)
          rw [Tracks, hw] at hg
          cases hstep
          unfold commitNext
          split_ifs with hskip
          · exact ⟨fun r hr => h.stored r (hrow.trans hr), row', _, rfl, underway_skip hunder hskip⟩
          · refine ⟨fun r hr => ?_, _, _, rfl, underway_ingest hunder hskip⟩
            cases hr
            exact rowKept_ingest (h.stored row' hrow) hunder (hg hskip)
      · cases hstep
  | finish =>
      simp only [life] at hstep
      split at hstep
      · next row began memory shared result hrow hw =>
          have hworker := h.worker
          rw [WorkerKept, hw] at hworker
          obtain ⟨row', done, hrow', hunder⟩ := hworker
          obtain rfl : row' = row := Option.some.inj (hrow'.symm.trans hrow)
          rw [Tracks, hw] at hg
          cases hstep
          refine ⟨fun r hr => ?_, trivial⟩
          cases hr
          exact rowKept_finish (h.stored row' hrow) hunder hg
      · cases hstep
  | crash =>
      cases hstep
      exact ⟨h.stored, trivial⟩

end Steps

instance (s : RunLife) : ∀ ev, Decidable (Tracks s ev)
  | .commitRule =>
      match hw : s.worker with
      | .persisting _ memory _ _ (rule :: _) =>
          decidable_of_iff (rule.ruleId ∉ memory.completedRuleIds →
            ∀ stat ∈ memory.ruleStats.get? rule.ruleId, stat.hits = 0 ∧ stat.errors = 0)
            (by simp only [Tracks, hw])
      | .persisting _ _ _ _ [] | .holding _ | .idle => isTrue (by simp only [Tracks, hw])
  | .finish =>
      match hw : s.worker with
      | .persisting began _ _ result _ =>
          decidable_of_iff ((∃ rule ∈ result.ruleResults, Fails rule) ↔ began.errorCount ≠ 0 ∨
            ∃ rule ∈ result.ruleResults, rule.ruleId ∉ began.completedRuleIds ∧ Fails rule)
            (by simp only [Tracks, hw])
      | .holding _ | .idle => isTrue (by simp only [Tracks, hw])
  | .start _ | .execute _ | .crash => isTrue trivial

section Runs

def enabledRule (id title : String) : HuntPackRule where
  id := id
  title := title
  file := none
  sigmaYaml := "title: " ++ title
  logsource := []
  mitreTechniques := []
  severity := .HIGH
  enabled := true
  notes := ""
  pivotQuestions := []

def lsassAndService : LoadedPack where
  id := "windows_baseline"
  name := "Windows baseline"
  version := "1.0.0"
  description := ""
  rules := [enabledRule "r1" "LSASS memory read", enabledRule "r2" "New service installed"]
  unique := by decide

def timingOut (rule : HuntPackRule) : List BackendRunResult :=
  if rule.id = "r1" then [⟨"splunk", some "index=edr lsass", 0, [], some "timeout"⟩]
  else [⟨"splunk", some "index=edr service", 0, [], none⟩]

def answering (_ : HuntPackRule) : List BackendRunResult :=
  [⟨"splunk", some "index=edr", 0, [], none⟩]

-- The worker dies after the rule that timed out; the next one executes all rules without errors.
def diedAfterTimeout : List RunEvent :=
  [.start 0, .execute timingOut, .commitRule, .crash, .start 15, .execute answering, .commitRule,
    .commitRule, .finish]

theorem completed_with_an_error : ¬ ∀ pack window events s,
    (life pack window).run notStarted events = some s →
      ∀ row ∈ s.row, row.status ≠ .RUNNING → Consistent pack row := by
  intro h
  have hrun : ((life lsassAndService 60).run notStarted diedAfterTimeout).any fun s =>
      s.row.any fun row => row.status = .COMPLETED ∧ row.errorCount = 1 := by
    decide
  obtain ⟨s, hs, hrow⟩ := (Option.any_eq_true _ _).mp hrun
  obtain ⟨row, hrow, hstate⟩ := (Option.any_eq_true _ _).mp hrow
  obtain ⟨hcompleted, herrors⟩ := of_decide_eq_true hstate
  have hended : row.status ≠ .RUNNING := by
    rw [hcompleted]
    decide
  have hzero := (h _ _ _ s hs row hrow hended).status.mp hcompleted
  rw [herrors] at hzero
  exact absurd hzero (by decide)

end Runs

theorem terminal_consistent {events : List RunEvent}
    (hg : (life pack window).Along Tracks notStarted events)
    (h : (life pack window).run notStarted events = some s) :
    ∀ row ∈ s.row, row.status ≠ .RUNNING → Consistent pack row := by
  have hstart : Kept pack notStarted := by
    refine ⟨fun row hrow => ?_, trivial⟩
    cases hrow
  have hkept := (life pack window).invariant_along (I := Kept pack) kept_step hstart hg h
  exact fun row hrow => (hkept.stored row hrow).ended

-- The rules go on where the worker died, and the rule that timed out does so again.
def diedAndTimedOut : List RunEvent :=
  [.start 0, .execute timingOut, .commitRule, .crash, .start 15, .execute timingOut, .commitRule,
    .commitRule, .finish]

theorem diedAndTimedOut_consistent : ∃ s row,
    (life lsassAndService 60).run notStarted diedAndTimedOut = some s ∧ s.row = some row ∧
      row.status = .COMPLETED_WITH_ERRORS ∧ Consistent lsassAndService row := by
  have hrun : ((life lsassAndService 60).run notStarted diedAndTimedOut).any fun s =>
      s.row.any fun row => row.status = .COMPLETED_WITH_ERRORS := by
    decide
  obtain ⟨s, hs, hrow⟩ := (Option.any_eq_true _ _).mp hrun
  obtain ⟨row, hrow, hstatus⟩ := (Option.any_eq_true _ _).mp hrow
  have hended : row.status ≠ .RUNNING := by
    rw [of_decide_eq_true hstatus]
    decide
  exact ⟨s, row, hs, hrow, of_decide_eq_true hstatus,
    terminal_consistent (by decide) hs row hrow hended⟩

end HuntPackRun

end BTagent
