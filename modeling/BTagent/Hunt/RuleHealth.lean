import BTagent.Hunt.NoiseBaseline
import Mathlib.Data.Prod.Lex

namespace BTagent

-- The states in which a rule is broken.
inductive RuleState where
  | errored
  | overFiring
  | underFiring
  deriving DecidableEq

namespace RuleHealth

open NoiseBaseline OrderedDict

variable {F : Type}

def DEFAULT_LOOKBACK_RUNS : ℕ := 50

def UNDER_FIRING_MIN_RUNS : ℕ := 3

def MAX_BROKEN_RULES : ℕ := 100

structure BrokenRule (F : Type) where
  packId : String
  packName : String
  ruleId : String
  ruleTitle : String
  state : RuleState
  runsObserved : ℕ
  runsHit : ℕ
  hitRate : F
  totalHits : ℕ
  lastErrors : ℕ
  lastRunAt : ℤ

structure RuleAgg where
  packName : String
  title : String
  observed : ℕ
  hitRuns : ℕ
  totalHits : ℕ
  lastErrors : ℕ
  lastRunAt : ℤ

namespace RuleAgg

-- The rows come newest first, so that the first sight of a rule is its latest.
def start (key : RuleKey) (seen : RunLike × RuleEntry) : RuleAgg where
  packName := seen.1.packName
  title := seen.2.title.getD key.2
  observed := 0
  hitRuns := 0
  totalHits := 0
  lastErrors := seen.2.errorsOf
  lastRunAt := seen.1.startedAt

def note (agg : RuleAgg) (seen : RunLike × RuleEntry) : RuleAgg :=
  let hits := seen.2.hitsOf
  { agg with
    observed := agg.observed + 1
    totalHits := agg.totalHits + hits
    hitRuns := if 0 < hits then agg.hitRuns + 1 else agg.hitRuns }

end RuleAgg

def classifyRuleState (lastErrors : ℕ) (isOverFiring : Bool) (runsObserved totalHits : ℕ) :
    Option RuleState :=
  if 0 < lastErrors then some .errored
  else if isOverFiring then some .overFiring
  else if UNDER_FIRING_MIN_RUNS ≤ runsObserved ∧ totalHits = 0 then some .underFiring
  else none

local instance : LawfulBEq RuleKey := inferInstance

def brokenRule (R : FloatOps F) (overFiring : List RuleKey) (key : RuleKey) (agg : RuleAgg) :
    Option (BrokenRule F) :=
  (classifyRuleState agg.lastErrors (key ∈ overFiring) agg.observed agg.totalHits).map fun state =>
    { packId := key.1
      packName := agg.packName
      ruleId := key.2
      ruleTitle := agg.title
      state := state
      runsObserved := agg.observed
      runsHit := agg.hitRuns
      hitRate := R.round (R.div agg.hitRuns agg.observed) 4
      totalHits := agg.totalHits
      lastErrors := agg.lastErrors
      lastRunAt := agg.lastRunAt }

def order : RuleState → ℕ
  | .errored => 0
  | .overFiring => 1
  | .underFiring => 2

-- Tuples are compared by the first component in which they differ.
abbrev SortKey := ℕ ×ₗ ℤ ×ₗ String ×ₗ String

def sortKey (state : RuleState) (totalHits : ℕ) (key : RuleKey) : SortKey :=
  toLex (order state, toLex (-totalHits, toLex key))

def BrokenRule.sortKey (r : BrokenRule F) : SortKey :=
  RuleHealth.sortKey r.state r.totalHits (r.packId, r.ruleId)

def brokenRules (R : FloatOps F) (threshold : F) (rows : List RunLike) : List (BrokenRule F) :=
  let overFiring := (computeNoiseBaseline R rows 3 threshold).map fun r => (r.packId, r.ruleId)
  let agg := rows.foldl
    (fun agg run => (observations run).foldl (tally RuleAgg.start RuleAgg.note) agg) empty
  agg.entries.filterMap fun kv => brokenRule R overFiring kv.1 kv.2

-- `_rule_health`
def ruleHealth (R : FloatOps F) (threshold : F) (rows : List RunLike) (orgId : String)
    (lookbackRuns : ℕ) : List (BrokenRule F) :=
  let rows := lookbackRows orgId lookbackRuns rows
  let broken := (brokenRules R threshold rows).mergeSort fun a b => a.sortKey ≤ b.sortKey
  if rows.isEmpty then [] else broken.take MAX_BROKEN_RULES

end RuleHealth

namespace HuntPacksStore

open NoiseBaseline OrderedDict

variable {F : Type}

inductive HuntRuleViewState where
  | errored
  | overFiring
  | underFiring
  | firingAsExpected
  | clean
  | neverRun

def RUN_PAGE_SIZE : ℕ := 200

def UNDER_FIRING_MIN_RUNS : ℕ := 3

def INCOMPLETE_RUN_STATUSES : List HuntRunStatus := [.FAILED, .ABANDONED]

def completedRuns (runs : List RunLike) : List RunLike :=
  runs.filter fun r => r.status ∉ INCOMPLETE_RUN_STATUSES

structure RuleStatus (F : Type) where
  ruleId : String
  title : String
  state : HuntRuleViewState
  lastHits : ℕ
  lastErrors : ℕ
  runsObserved : ℕ
  totalHits : ℕ
  hitRate : F
  runsSkipped : Option ℕ
  daysDark : Option ℤ

structure HuntPackCatalogEntry where
  packId : String
  manifestPackId : String
  name : String
  source : String
  enabled : Bool
  ruleCount : ℕ

structure InstalledPack (F : Type) where
  packId : String
  packName : String
  lastRun : Option RunLike
  runCount : ℕ
  rules : List (RuleStatus F)
  installKey : Option String
  source : Option String
  enabled : Bool
  ruleCount : ℕ

-- `new Date(run.started_at).getTime()`, in milliseconds.
def runTime (run : RunLike) : ℤ := run.startedAt / 1000

def groupRunsByPack (runs : List RunLike) : OrderedDict String (List RunLike) :=
  ((runs.map fun run => (run.packId, run)).foldl
    (tally (fun _ _ => []) fun bucket run => bucket ++ [run]) empty).mapVal
      fun bucket => bucket.mergeSort fun a b => runTime b ≤ runTime a

def ruleText (packId ruleId : String) : String := packId ++ ":" ++ ruleId

def indexBaseline (baseline : Option (NoiseBaseline F)) : OrderedDict String (NoisyRule F) :=
  (baseline.elim [] NoiseBaseline.items).foldl
    (fun map r => map.set (ruleText r.packId r.ruleId) r) empty

def statOf (ruleId : String) (run : RunLike) : Option RuleEntry := run.ruleStats.get? ruleId

def observed (ruleId : String) (runs : List RunLike) : List RunLike :=
  runs.filter fun r => (statOf ruleId r).isSome

def hitsIn (ruleId : String) (run : RunLike) : ℕ := (statOf ruleId run).elim 0 RuleEntry.hitsOf

def totalHits (ruleId : String) (runs : List RunLike) : ℕ :=
  ((observed ruleId runs).map (hitsIn ruleId)).sum

def classifyRuleState (ruleId packId : String) (packRunsNewestFirst : List RunLike)
    (baselineIndex : OrderedDict String (NoisyRule F)) : HuntRuleViewState :=
  let observed := observed ruleId (completedRuns packRunsNewestFirst)
  let latest := observed.head?.bind (statOf ruleId)
  let totalHits := (observed.map (hitsIn ruleId)).sum
  if latest.any fun stat => 0 < stat.errorsOf then .errored
  else if (baselineIndex.get? (ruleText packId ruleId)).isSome then .overFiring
  else if UNDER_FIRING_MIN_RUNS ≤ observed.length ∧ totalHits = 0 then .underFiring
  else if 0 < latest.elim 0 RuleEntry.hitsOf then .firingAsExpected
  else .clean

def latestRuleStat (ruleId : String) (packRunsNewestFirst : List RunLike) : Option RuleEntry :=
  packRunsNewestFirst.findSome? (statOf ruleId)

def neverRunRuleStatuses (R : FloatOps F) (packId : String) (baseline : Option (NoiseBaseline F))
    (observedRuleIds : List String) : List (RuleStatus F) :=
  let rows := (baseline.elim [] NoiseBaseline.neverRun).filter fun r =>
    r.packId = packId ∧ r.ruleId ∉ observedRuleIds
  rows.map fun r =>
    { ruleId := r.ruleId
      title := r.ruleId
      state := .neverRun
      lastHits := 0
      lastErrors := 0
      runsObserved := 0
      totalHits := 0
      hitRate := R.div 0 1
      runsSkipped := some r.runsSkipped
      daysDark := some r.daysDark }

def ruleIds (completed : List RunLike) : List String :=
  (completed.flatMap fun run => run.ruleStats.keys).eraseDups

def ruleStatus (R : FloatOps F) (packId : String) (completed : List RunLike)
    (baselineIndex : OrderedDict String (NoisyRule F)) (ruleId : String) : RuleStatus F :=
  let observed := observed ruleId completed
  let stat := latestRuleStat ruleId completed
  let hitRuns := (observed.filter fun r => 0 < hitsIn ruleId r).length
  { ruleId := ruleId
    title := (stat.bind RuleEntry.title).getD ruleId
    state := classifyRuleState ruleId packId completed baselineIndex
    lastHits := stat.elim 0 RuleEntry.hitsOf
    lastErrors := stat.elim 0 RuleEntry.errorsOf
    runsObserved := observed.length
    totalHits := totalHits ruleId completed
    hitRate := if observed.isEmpty then R.div 0 1 else R.div hitRuns observed.length
    runsSkipped := none
    daysDark := none }

-- `collate` is the order of `localeCompare`.
def rulesOf (R : FloatOps F) (collate : String → String → Bool) (packId : String)
    (packRuns : List RunLike) (baseline : Option (NoiseBaseline F)) : List (RuleStatus F) :=
  let completed := completedRuns packRuns
  let ids := ruleIds completed
  (ids.map (ruleStatus R packId completed (indexBaseline baseline)) ++
    neverRunRuleStatuses R packId baseline ids).mergeSort fun a b => collate a.title b.title

def indexCatalog (catalog : List HuntPackCatalogEntry) : OrderedDict String HuntPackCatalogEntry :=
  catalog.foldl (fun map entry => map.set entry.manifestPackId entry) empty

def catalogOnlyPack (entry : HuntPackCatalogEntry) : InstalledPack F where
  packId := entry.manifestPackId
  packName := entry.name
  lastRun := none
  runCount := 0
  rules := []
  installKey := some entry.packId
  source := some entry.source
  enabled := entry.enabled
  ruleCount := entry.ruleCount

def installedPack (R : FloatOps F) (collate : String → String → Bool)
    (baseline : Option (NoiseBaseline F)) (catalog : List HuntPackCatalogEntry) (packId : String)
    (packRuns : List RunLike) : InstalledPack F :=
  let lastRun := packRuns.head?
  let rules := rulesOf R collate packId packRuns baseline
  let entry := (indexCatalog catalog).get? packId
  { packId := packId
    packName := lastRun.elim packId RunLike.packName
    lastRun := lastRun
    runCount := packRuns.length
    rules := rules
    installKey := entry.map HuntPackCatalogEntry.packId
    source := entry.map HuntPackCatalogEntry.source
    enabled := entry.elim true HuntPackCatalogEntry.enabled
    ruleCount := entry.elim rules.length HuntPackCatalogEntry.ruleCount }

def buildInstalledPacks (R : FloatOps F) (collate : String → String → Bool) (runs : List RunLike)
    (baseline : Option (NoiseBaseline F)) (catalog : List HuntPackCatalogEntry) :
    List (InstalledPack F) :=
  let groups := groupRunsByPack runs
  let packs := groups.entries.map fun kv => installedPack R collate baseline catalog kv.1 kv.2
  let unrun := catalog.filter fun entry => entry.manifestPackId ∉ groups.keys
  (packs ++ unrun.map catalogOnlyPack).mergeSort fun a b => collate a.packName b.packName

def listPackRuns (rows : List RunLike) (orgId : String) (page pageSize : ℕ) : List RunLike :=
  let newest := (rows.filter fun run => run.orgId = orgId).mergeSort
    fun a b => b.startedAt ≤ a.startedAt
  (newest.drop ((page - 1) * pageSize)).take pageSize

-- What `GET /hunt/noise-baseline` sets where the request says nothing; `threshold` is 0.8.
def routeSettings (threshold : F) : Settings F where
  lookbackRuns := 50
  minRuns := 3
  hitRateThreshold := threshold
  includeUnderFiring := true
  underFiringWindowDays := UNDER_FIRING_WINDOW_DAYS
  includeNeverRun := true

-- What the store shows once `fetchAll` has its three answers.
def fetchedPacks (R : FloatOps F) (threshold : F) (collate : String → String → Bool)
    (rows : List RunLike) (orgId : String) (now : ℤ) (catalog : List HuntPackCatalogEntry) :
    List (InstalledPack F) :=
  buildInstalledPacks R collate (listPackRuns rows orgId 1 RUN_PAGE_SIZE)
    (some (noiseBaseline R rows rows orgId (routeSettings threshold) now)) catalog

end HuntPacksStore

end BTagent
