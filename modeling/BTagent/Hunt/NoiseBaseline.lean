import BTagent.Hunt.PackRun
import BTagent.Lib.Newest
import BTagent.Lib.OrderedDict

namespace BTagent

-- An entry of `rule_stats`, whose keys may be absent.
structure RuleEntry where
  title : Option String
  hits : Option ℕ
  errors : Option ℕ
  deriving DecidableEq

-- Times are in microseconds.
structure RunLike where
  orgId : String
  packId : String
  packName : String
  ruleStats : OrderedDict String RuleEntry
  rulesNotRun : List String
  status : HuntRunStatus
  startedAt : ℤ

-- The float arithmetic of the analysis: a quotient of two counts, `round`, and `<`.
structure FloatOps (F : Type) where
  div : ℕ → ℕ → F
  round : F → ℕ → F
  lt : F → F → Bool

abbrev RuleKey := String × String

structure NoisyRule (F : Type) where
  packId : String
  packName : String
  ruleId : String
  ruleTitle : String
  runsObserved : ℕ
  runsHit : ℕ
  hitRate : F
  totalHits : ℕ
  avgHitsPerRun : F
  lastHitAt : Option ℤ

structure UnderFiringRule where
  packId : String
  packName : String
  ruleId : String
  ruleTitle : String
  runsObserved : ℕ
  totalHits : ℕ
  firstObservedAt : ℤ
  lastObservedAt : ℤ
  daysSilent : ℤ
  windowDays : ℤ

structure NeverRunRule where
  packId : String
  packName : String
  ruleId : String
  runsSkipped : ℕ
  firstSkippedAt : ℤ
  lastSkippedAt : ℤ
  daysDark : ℤ
  windowDays : ℤ

structure NoiseBaseline (F : Type) where
  items : List (NoisyRule F)
  runsAnalyzed : ℕ
  minRuns : ℕ
  hitRateThreshold : F
  underFiring : List UnderFiringRule
  underFiringWindowDays : ℤ
  neverRun : List NeverRunRule
  neverRunWindowDays : ℤ

namespace RuleEntry

def hitsOf (e : RuleEntry) : ℕ := e.hits.getD 0

def errorsOf (e : RuleEntry) : ℕ := e.errors.getD 0

end RuleEntry

namespace NoiseBaseline

open OrderedDict

variable {F : Type}

def INCOMPLETE_RUN_STATUSES : List HuntRunStatus := [.FAILED, .ABANDONED]

def UNDER_FIRING_WINDOW_DAYS : ℤ := 60

def UNDER_FIRING_MIN_RUNS : ℕ := 3

def UNDER_FIRING_MAX_RUNS : ℕ := 500

def NEVER_RUN_MIN_RUNS : ℕ := UNDER_FIRING_MIN_RUNS

def day : ℤ := 86400000000

def cutoff (now windowDays : ℤ) : ℤ := now - windowDays * day

def incomplete (run : RunLike) : Bool := run.status ∈ INCOMPLETE_RUN_STATUSES

structure HitStats where
  packName : String
  title : String
  observed : ℕ
  hitRuns : ℕ
  totalHits : ℕ
  lastHitAt : Option ℤ

namespace HitStats

def start (key : RuleKey) (seen : RunLike × RuleEntry) : HitStats where
  packName := seen.1.packName
  title := seen.2.title.getD key.2
  observed := 0
  hitRuns := 0
  totalHits := 0
  lastHitAt := none

def note (agg : HitStats) (seen : RunLike × RuleEntry) : HitStats :=
  let hits := seen.2.hitsOf
  let agg := { agg with observed := agg.observed + 1 }
  if 0 < hits then
    { agg with
      hitRuns := agg.hitRuns + 1
      totalHits := agg.totalHits + hits
      lastHitAt := match agg.lastHitAt with
        | none => some seen.1.startedAt
        | some last => if last < seen.1.startedAt then some seen.1.startedAt else some last }
  else agg

end HitStats

structure SilenceStats where
  packName : String
  title : String
  observed : ℕ
  totalHits : ℕ
  firstAt : ℤ
  lastAt : ℤ
  lastErrors : ℕ

namespace SilenceStats

def start (key : RuleKey) (seen : RunLike × RuleEntry) : SilenceStats where
  packName := seen.1.packName
  title := seen.2.title.getD key.2
  observed := 0
  totalHits := 0
  firstAt := seen.1.startedAt
  lastAt := seen.1.startedAt
  lastErrors := 0

def note (agg : SilenceStats) (seen : RunLike × RuleEntry) : SilenceStats :=
  let started := seen.1.startedAt
  { agg with
    observed := agg.observed + 1
    totalHits := agg.totalHits + seen.2.hitsOf
    firstAt := if started < agg.firstAt then started else agg.firstAt
    lastAt := if agg.lastAt ≤ started then started else agg.lastAt
    lastErrors := if agg.lastAt ≤ started then seen.2.errorsOf else agg.lastErrors }

end SilenceStats

structure SkipStats where
  packName : String
  skips : ℕ
  firstAt : ℤ
  lastAt : ℤ

namespace SkipStats

def start (_ : RuleKey) (run : RunLike) : SkipStats where
  packName := run.packName
  skips := 0
  firstAt := run.startedAt
  lastAt := run.startedAt

def note (agg : SkipStats) (run : RunLike) : SkipStats :=
  { agg with
    skips := agg.skips + 1
    firstAt := if run.startedAt < agg.firstAt then run.startedAt else agg.firstAt
    lastAt := if agg.lastAt < run.startedAt then run.startedAt else agg.lastAt }

end SkipStats

def observations (run : RunLike) : List (RuleKey × RunLike × RuleEntry) :=
  run.ruleStats.entries.map fun kv => ((run.packId, kv.1), run, kv.2)

def skips (run : RunLike) : List (RuleKey × RunLike) :=
  run.rulesNotRun.map fun ruleId => ((run.packId, ruleId), run)

-- Tuples are compared as Python compares them, by the first component in which they differ.
def noisier (R : FloatOps F) (a b : NoisyRule F) : Bool :=
  if R.lt b.hitRate a.hitRate then true
  else if R.lt a.hitRate b.hitRate then false
  else if a.totalHits = b.totalHits then
    if a.packId = b.packId then a.ruleId ≤ b.ruleId else a.packId ≤ b.packId
  else b.totalHits ≤ a.totalHits

def longestFirst (days days' : ℤ) (runs runs' : ℕ) (key key' : RuleKey) : Bool :=
  if days = days' then
    if runs = runs' then
      if key.1 = key'.1 then key.2 ≤ key'.2 else key.1 ≤ key'.1
    else runs' ≤ runs
  else days' ≤ days

def noisyRule (R : FloatOps F) (minRuns : ℕ) (threshold : F) (key : RuleKey) (agg : HitStats) :
    Option (NoisyRule F) :=
  if agg.observed < minRuns ∨ agg.totalHits = 0 then none
  else
    let hitRate := R.div agg.hitRuns agg.observed
    if R.lt hitRate threshold then none
    else some {
      packId := key.1
      packName := agg.packName
      ruleId := key.2
      ruleTitle := agg.title
      runsObserved := agg.observed
      runsHit := agg.hitRuns
      hitRate := R.round hitRate 4
      totalHits := agg.totalHits
      avgHitsPerRun := R.round (R.div agg.totalHits agg.observed) 2
      lastHitAt := agg.lastHitAt }

def computeNoiseBaseline (R : FloatOps F) (runs : List RunLike) (minRuns : ℕ) (threshold : F) :
    List (NoisyRule F) :=
  let stats := runs.foldl (fun stats run =>
    if incomplete run then stats
    else (observations run).foldl (tally HitStats.start HitStats.note) stats) empty
  (stats.entries.filterMap fun kv => noisyRule R minRuns threshold kv.1 kv.2).mergeSort (noisier R)

def underFiringRule (windowDays : ℤ) (minRuns : ℕ) (key : RuleKey) (agg : SilenceStats) :
    Option UnderFiringRule :=
  if agg.observed < minRuns ∨ 0 < agg.totalHits ∨ 0 < agg.lastErrors then none
  else some {
    packId := key.1
    packName := agg.packName
    ruleId := key.2
    ruleTitle := agg.title
    runsObserved := agg.observed
    totalHits := 0
    firstObservedAt := agg.firstAt
    lastObservedAt := agg.lastAt
    daysSilent := max ((agg.lastAt - agg.firstAt) / day) 0
    windowDays := windowDays }

def computeUnderFiring (runs : List RunLike) (windowDays : ℤ) (minRuns : ℕ) (now : ℤ) :
    List UnderFiringRule :=
  let stats := runs.foldl (fun stats run =>
    if incomplete run then stats
    else if run.startedAt < cutoff now windowDays then stats
    else (observations run).foldl (tally SilenceStats.start SilenceStats.note) stats) empty
  (stats.entries.filterMap fun kv => underFiringRule windowDays minRuns kv.1 kv.2).mergeSort
    fun a b => longestFirst a.daysSilent b.daysSilent a.runsObserved b.runsObserved
      (a.packId, a.ruleId) (b.packId, b.ruleId)

def neverRunRule (windowDays : ℤ) (minRuns : ℕ) (executed : List RuleKey) (key : RuleKey)
    (agg : SkipStats) : Option NeverRunRule :=
  if agg.skips < minRuns ∨ key ∈ executed then none
  else some {
    packId := key.1
    packName := agg.packName
    ruleId := key.2
    runsSkipped := agg.skips
    firstSkippedAt := agg.firstAt
    lastSkippedAt := agg.lastAt
    daysDark := max ((agg.lastAt - agg.firstAt) / day) 0
    windowDays := windowDays }

def computeNeverRun (runs : List RunLike) (windowDays : ℤ) (minRuns : ℕ) (now : ℤ) :
    List NeverRunRule :=
  let (executed, skipped) := runs.foldl (fun (executed, skipped) run =>
    if incomplete run then (executed, skipped)
    else if run.startedAt < cutoff now windowDays then (executed, skipped)
    else (executed ++ (observations run).map (·.1),
      (skips run).foldl (tally SkipStats.start SkipStats.note) skipped)) ([], empty)
  (skipped.entries.filterMap fun kv => neverRunRule windowDays minRuns executed kv.1 kv.2).mergeSort
    fun a b => longestFirst a.daysDark b.daysDark a.runsSkipped b.runsSkipped
      (a.packId, a.ruleId) (b.packId, b.ruleId)

def lookbackRows (orgId : String) (lookbackRuns : ℕ) (rows : List RunLike) : List RunLike :=
  takeNewest RunLike.startedAt lookbackRuns (rows.filter fun run => run.orgId = orgId ∧ ¬ incomplete run)

def windowRows (orgId : String) (windowDays : ℤ) (maxRuns : ℕ) (now : ℤ) (rows : List RunLike) :
    List RunLike :=
  takeNewest RunLike.startedAt maxRuns (rows.filter fun run =>
    run.orgId = orgId ∧ ¬ incomplete run ∧ cutoff now windowDays ≤ run.startedAt)

-- What a caller of `noise_baseline` may set.
structure Settings (F : Type) where
  lookbackRuns : ℕ
  minRuns : ℕ
  hitRateThreshold : F
  includeUnderFiring : Bool
  underFiringWindowDays : ℤ
  includeNeverRun : Bool

-- `rows` and `rows'` are the table as the two queries find it: a sweep can land between them, and
-- rows of one start time come in any order.
def noiseBaseline (R : FloatOps F) (rows rows' : List RunLike) (orgId : String)
    (settings : Settings F) (now : ℤ) : NoiseBaseline F :=
  let recent := lookbackRows orgId settings.lookbackRuns rows
  let windowDays := settings.underFiringWindowDays
  let window :=
    if settings.includeUnderFiring ∨ settings.includeNeverRun then
      windowRows orgId windowDays UNDER_FIRING_MAX_RUNS now rows'
    else []
  { items := computeNoiseBaseline R recent settings.minRuns settings.hitRateThreshold
    runsAnalyzed := recent.length
    minRuns := settings.minRuns
    hitRateThreshold := settings.hitRateThreshold
    underFiring :=
      if settings.includeUnderFiring then
        computeUnderFiring window windowDays UNDER_FIRING_MIN_RUNS now
      else []
    underFiringWindowDays := windowDays
    neverRun :=
      if settings.includeNeverRun then computeNeverRun window windowDays NEVER_RUN_MIN_RUNS now
      else []
    neverRunWindowDays := windowDays }

end NoiseBaseline

end BTagent
