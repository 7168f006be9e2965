import BTagent.Lib.Machine
import BTagent.Lib.OrderedDict
import BTagent.Lib.Slots
import Mathlib.Algebra.GroupWithZero.Nat
import Mathlib.Data.List.Infix
import Mathlib.Data.List.MinMax
import Mathlib.Data.String.Basic

namespace BTagent

structure SigmaHit where
  entities : List (String × String)
  observableType : Option String
  observable : Option String
  deriving DecidableEq

structure BackendRunResult where
  backend : String
  query : Option String
  hitCount : ℕ
  hits : List SigmaHit
  error : Option String

structure RuleRunResult where
  ruleId : String
  ruleTitle : String
  backendResults : List BackendRunResult

structure RuleStat where
  title : String
  hits : ℕ
  errors : ℕ
  queries : List (String × String)
  deriving DecidableEq

inductive HuntRunStatus where
  | RUNNING
  | COMPLETED
  | COMPLETED_WITH_ERRORS
  | FAILED
  | ABANDONED
  deriving DecidableEq

structure HuntPackRunRow where
  startedAt : ℕ
  status : HuntRunStatus
  hitCount : ℕ
  errorCount : ℕ
  findingsCreated : ℕ
  ruleStats : OrderedDict String RuleStat
  completedRuleIds : List String

namespace RuleRunResult

def hitCount (r : RuleRunResult) : ℕ := (r.backendResults.map (·.hitCount)).sum

def failed (b : BackendRunResult) : Bool := b.error.any (· ≠ "")

def errors (r : RuleRunResult) : List String := ((r.backendResults.filter failed).map (·.backend)).dedup

-- `_dedupe_key`; the rule is one and the same.
def dedupeKey (backend : String) (h : SigmaHit) :
    String × List (String × String) × Option String × Option String :=
  (backend, h.entities.insertionSort fun a b => a.1 < b.1 ∨ (a.1 = b.1 ∧ a.2 ≤ b.2),
    h.observableType, h.observable)

def findingKeys (r : RuleRunResult) :
    List (String × List (String × String) × Option String × Option String) :=
  (r.backendResults.flatMap fun b => b.hits.map (dedupeKey b.backend)).dedup

def statEntry (r : RuleRunResult) : RuleStat where
  title := r.ruleTitle
  hits := r.hitCount
  errors := r.errors.length
  queries := r.backendResults.filterMap fun b => (b.query.filter (· ≠ "")).map (b.backend, ·)

end RuleRunResult

-- An invocation and the row it holds, as its session has it. `shared` says that `progress` already
-- contains the list of completed rules that the loop goes on to extend.
inductive PackInvocation where
  | opening (stale : Option ℕ)
  | executing (row : ℕ) (memory : HuntPackRunRow)
  | persisting (row : ℕ) (memory : HuntPackRunRow) (shared : Bool) (rules : List RuleRunResult)
      (final : HuntRunStatus)
  | gone

-- `ingested` records which rule was ingested for which row.
structure PackRuns where
  rows : List HuntPackRunRow
  ingested : List (ℕ × String)
  invocations : List PackInvocation

inductive PackEvent where
  | invoke (now : ℕ)
  | openRow (invocation now : ℕ)
  | executed (invocation : ℕ) (rules : List RuleRunResult)
  | commitRule (invocation : ℕ)
  | finish (invocation : ℕ)
  | crash (invocation : ℕ)
  | fail (invocation now : ℕ)

namespace HuntPackRun

def deriveRunStatus (rules : List RuleRunResult) : HuntRunStatus :=
  let results := rules.flatMap (·.backendResults)
  if ¬ results.any RuleRunResult.failed then .COMPLETED
  else if results.all RuleRunResult.failed then .FAILED
  else .COMPLETED_WITH_ERRORS

def newestRunning (rows : List HuntPackRunRow) : Option ℕ :=
  ((rows.zipIdx.filter fun r => r.1.status = .RUNNING).argmax fun r => r.1.startedAt).map Prod.snd

def stale (window now : ℕ) (row : HuntPackRunRow) : Bool := row.startedAt + window < now

def abandon (row : HuntPackRunRow) : HuntPackRunRow := { row with status := .ABANDONED }

def newRunningRow (now : ℕ) : HuntPackRunRow :=
  ⟨now, .RUNNING, 0, 0, 0, OrderedDict.empty, []⟩

-- An UPDATE names the columns whose value differs from the one that was loaded.
def flush (loaded new stored : HuntPackRunRow) (progressChanged : Bool) : HuntPackRunRow where
  startedAt := stored.startedAt
  status := if new.status = loaded.status then stored.status else new.status
  hitCount := if new.hitCount = loaded.hitCount then stored.hitCount else new.hitCount
  errorCount := if new.errorCount = loaded.errorCount then stored.errorCount else new.errorCount
  findingsCreated := if new.findingsCreated = loaded.findingsCreated then stored.findingsCreated
    else new.findingsCreated
  ruleStats := if new.ruleStats.entries = loaded.ruleStats.entries then stored.ruleStats
    else new.ruleStats
  completedRuleIds := if progressChanged then new.completedRuleIds else stored.completedRuleIds

def afterRule (row : HuntPackRunRow) (rule : RuleRunResult) : HuntPackRunRow :=
  { row with
    hitCount := row.hitCount + rule.hitCount
    errorCount := row.errorCount + rule.errors.length
    findingsCreated := row.findingsCreated + rule.findingKeys.length
    ruleStats := row.ruleStats.set rule.ruleId rule.statEntry
    completedRuleIds := row.completedRuleIds ++ [rule.ruleId] }

def setInvocation (s : PackRuns) (i : ℕ) (inv : PackInvocation) : PackRuns :=
  { s with invocations := s.invocations.set i inv }

def abandonStale (window now : ℕ) (s : PackRuns) : PackRuns :=
  match newestRunning s.rows with
  | none => s
  | some k =>
      if (s.rows[k]?).any (stale window now) then { s with rows := s.rows.modify k abandon } else s

def invoke (window now : ℕ) (s : PackRuns) : PackRuns :=
  let inv : PackInvocation :=
    match newestRunning s.rows with
    | none => .opening none
    | some k =>
        match s.rows[k]? with
        | none => .opening none
        | some row => if stale window now row then .opening (some k) else .executing k row
  { s with invocations := s.invocations ++ [inv] }

-- The stale row is abandoned in the transaction that opens the new one.
def openRow (s : PackRuns) (i now : ℕ) (staleRow : Option ℕ) : PackRuns :=
  let rows := match staleRow with
    | none => s.rows
    | some k => s.rows.modify k abandon
  setInvocation { s with rows := rows ++ [newRunningRow now] } i
    (.executing s.rows.length (newRunningRow now))

-- Assigning `progress` again is not seen as a change: the value it is compared with holds the same
-- list.
def commitRule (s : PackRuns) (i k : ℕ) (memory : HuntPackRunRow) (shared : Bool)
    (rule : RuleRunResult) (rules : List RuleRunResult) (final : HuntRunStatus) : PackRuns :=
  if rule.ruleId ∈ memory.completedRuleIds then
    setInvocation s i (.persisting k memory shared rules final)
  else
    let memory' := afterRule memory rule
    setInvocation { s with
        rows := s.rows.modify k fun stored => flush memory memory' stored (!shared)
        ingested := s.ingested ++ [(k, rule.ruleId)] } i
      (.persisting k memory' true rules final)

def finish (s : PackRuns) (i k : ℕ) (memory : HuntPackRunRow) (final : HuntRunStatus) : PackRuns :=
  setInvocation { s with
    rows := s.rows.modify k fun stored =>
      flush memory { memory with status := final } stored false } i .gone

def pack (window : ℕ) : Machine PackRuns PackEvent where
  step s
    | .invoke now => some (invoke window now s)
    | .openRow i now =>
        match s.invocations[i]? with
        | some (.opening staleRow) => some (openRow s i now staleRow)
        | _ => none
    | .executed i rules =>
        match s.invocations[i]? with
        | some (.executing k memory) =>
            some (setInvocation s i (.persisting k memory false rules (deriveRunStatus rules)))
        | _ => none
    | .commitRule i =>
        match s.invocations[i]? with
        | some (.persisting k memory shared (rule :: rules) final) =>
            some (commitRule s i k memory shared rule rules final)
        | _ => none
    | .finish i =>
        match s.invocations[i]? with
        | some (.persisting k memory _ [] final) => some (finish s i k memory final)
        | _ => none
    | .crash i => some (setInvocation s i .gone)
    | .fail i now => some (abandonStale window now (setInvocation s i .gone))

def noRuns : PackRuns := ⟨[], [], []⟩

end HuntPackRun

end BTagent
