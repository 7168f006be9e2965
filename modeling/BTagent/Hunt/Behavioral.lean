import BTagent.Lib.Nearest
import BTagent.Lib.Newest
import BTagent.Lib.OrderedDict
import Mathlib.Analysis.Real.Sqrt
import Mathlib.Data.Prod.Lex
import Mathlib.Data.String.Basic

namespace BTagent

inductive ProfileType where
  | CMDLINE_EMBEDDING
  | PROCESS_TREE_PATTERN
  | IDENTITY_ACTION_SEQUENCE
  | NETWORK_EGRESS_PROFILE
  deriving DecidableEq

inductive IntentLabel where
  | BENIGN
  | SUSPICIOUS
  | MALICIOUS
  deriving DecidableEq

namespace Behavioral

def CENTROID_DIM : ℕ := 1536

def DEFAULT_FREQUENCY_MAP_MAX : ℕ := 256

def MAX_FALLBACK_SCAN : ℕ := 500

abbrev FrequencyMap := OrderedDict String ℤ

-- A vector as wide as the column.
abbrev Centroid := { v : List ℝ // v.length = CENTROID_DIM }

section Scoring

def dot (a b : List ℝ) : ℝ := (List.zipWith (· * ·) a b).sum

-- What `cosine_distance` gives two vectors of one length.
noncomputable def cosine (a b : List ℝ) : ℝ :=
  if dot a a = 0 ∨ dot b b = 0 then 1 else 1 - dot a b / (√(dot a a) * √(dot b b))

-- `cosine_distance` raises where the lengths differ.
noncomputable def cosineDistance (a b : List ℝ) : Option ℝ :=
  if a.length = b.length then some (cosine a b) else none

def rankKey (kv : String × ℤ) : ℤ ×ₗ String := toLex (-kv.2, kv.1)

def ranked (freqMap : FrequencyMap) : List (String × ℤ) :=
  freqMap.entries.insertionSort fun a b => rankKey a ≤ rankKey b

def frequencyRank (freqMap : FrequencyMap) (patternKey : String) : ℕ :=
  if (freqMap.get? patternKey).isSome then ((ranked freqMap).map Prod.fst).idxOf patternKey + 1 else 0

noncomputable def eventDistance : Option (List ℝ) → Option (List ℝ) → Option ℝ
  | some (c :: centroid), some (v :: vector) => cosineDistance (v :: vector) (c :: centroid)
  | _, _ => some 1

noncomputable def scoreOutlier (centroid : Option (List ℝ)) (freqMap : FrequencyMap)
    (eventVector : Option (List ℝ)) (eventPatternKey : Option String) (distanceThreshold : ℝ)
    (frequencyFloor : ℤ) : Option (Bool × ℝ × ℕ) := do
  let distance ← eventDistance centroid eventVector
  let rank := frequencyRank freqMap (eventPatternKey.getD "")
  let isDistant := decide (distanceThreshold ≤ distance)
  let isRare := decide (rank = 0 ∨ frequencyFloor < rank)
  return (isDistant && isRare, distance, rank)

def victimKey (kv : String × ℤ) : ℤ ×ₗ String := toLex (kv.2, kv.1)

-- The least frequent entry, the first of several in the order of their keys.
def victim (freqMap : FrequencyMap) : Option (String × ℤ) :=
  (freqMap.entries.insertionSort fun a b => victimKey a ≤ victimKey b).head?

def evicted (freqMap : FrequencyMap) (maxEntries : ℕ) : FrequencyMap :=
  match victim freqMap with
  | some (key, _) =>
      if maxEntries ≤ freqMap.entries.length then freqMap.filterKeys fun k => k ≠ key else freqMap
  | none => freqMap

def updateFrequencyMap (freqMap : FrequencyMap) (patternKey : String) : FrequencyMap :=
  match freqMap.get? patternKey with
  | some count => freqMap.set patternKey (count + 1)
  | none => (evicted freqMap DEFAULT_FREQUENCY_MAP_MAX).set patternKey 1

def countKey (counts : FrequencyMap) (key : String) : FrequencyMap :=
  counts.set key ((counts.get? key).getD 0 + 1)

def aggregatePatternKeys (keys : List String) : FrequencyMap := keys.foldl countKey .empty

end Scoring

structure BehavioralEntityRow where
  id : String
  orgId : String
  archivedAt : Option ℕ

structure BehavioralProfileRow where
  orgId : String
  entityId : String
  profileType : ProfileType
  centroid : Option Centroid
  frequencyMap : FrequencyMap
  patternCount : ℕ
  sampleSize : ℕ
  windowEnd : ℕ

structure BehavioralOutlierRow where
  orgId : String
  entityId : String
  profileType : ProfileType
  eventId : String
  eventPatternKey : Option String
  cosineDistance : ℝ
  frequencyRank : ℕ
  intentLabel : Option IntentLabel

-- The tables by their primary keys.
structure BehavioralDb where
  entities : OrderedDict String BehavioralEntityRow
  profiles : OrderedDict String BehavioralProfileRow
  outliers : OrderedDict String BehavioralOutlierRow

section Service

-- `_to_centroid_vector` raises where the vector is wider than the column.
def toCentroidVector (vector : List ℝ) : Option Centroid :=
  if h : vector.length ≤ CENTROID_DIM then
    some ⟨vector ++ List.replicate (CENTROID_DIM - vector.length) 0, by simp [h]⟩
  else none

def orNone : Option (List ℝ) → Option (Option Centroid)
  | none => some none
  | some vector => (toCentroidVector vector).map some

def profilesOf (db : BehavioralDb) (entityId : String) (profileType : ProfileType) :
    List (String × BehavioralProfileRow) :=
  db.profiles.entries.filter fun kv => kv.2.entityId = entityId ∧ kv.2.profileType = profileType

-- `_get_latest_profile`
def getLatestProfile (db : BehavioralDb) (entityId : String) (profileType : ProfileType) :
    Option (String × BehavioralProfileRow) :=
  (takeNewest (·.2.windowEnd) 1 (profilesOf db entityId profileType)).head?

noncomputable def meanVector (vectors : List (List ℝ)) : Option (List ℝ) :=
  match vectors with
  | [] => none
  | v :: _ =>
      let sums := vectors.foldl (List.zipWith (· + ·)) (List.replicate v.length 0)
      some (sums.map (· / vectors.length))

structure BaselineRequest where
  entity : BehavioralEntityRow
  profileType : ProfileType
  vectors : List (List ℝ)
  patternKeys : List String
  windowEnd : ℕ
  id : String

def sameLength (vectors : List (List ℝ)) : Bool :=
  match vectors with
  | [] => true
  | v :: vs => vs.all fun w => w.length = v.length

noncomputable def buildBaseline (db : BehavioralDb) (req : BaselineRequest) : Option BehavioralDb := do
  guard (sameLength req.vectors)
  let centroid ← orNone (meanVector req.vectors)
  let freqMap := aggregatePatternKeys req.patternKeys
  guard (db.profiles.get? req.id).isNone
  let row : BehavioralProfileRow :=
    { orgId := req.entity.orgId, entityId := req.entity.id
      profileType := req.profileType, centroid := centroid, frequencyMap := freqMap
      patternCount := freqMap.entries.length
      sampleSize := max req.vectors.length req.patternKeys.length, windowEnd := req.windowEnd }
  return { db with profiles := db.profiles.set req.id row }

structure DetectRequest where
  entity : BehavioralEntityRow
  profileType : ProfileType
  eventId : String
  eventVector : Option (List ℝ)
  eventPatternKey : Option String
  distanceThreshold : ℝ
  frequencyFloor : ℤ
  id : String

-- The outlier that is raised, if any, and the tables after.
noncomputable def detectOutlier (db : BehavioralDb) (req : DetectRequest) :
    Option (Option BehavioralOutlierRow × BehavioralDb) :=
  match getLatestProfile db req.entity.id req.profileType with
  | none => some (none, db)
  | some (_, profile) =>
      if profile.sampleSize = 0 then some (none, db)
      else do
        let eventVector ← orNone req.eventVector
        let (isOutlier, distance, rank) ←
          scoreOutlier (profile.centroid.map Subtype.val) profile.frequencyMap
            (eventVector.map Subtype.val) req.eventPatternKey req.distanceThreshold req.frequencyFloor
        if isOutlier then do
          guard (db.outliers.get? req.id).isNone
          let row : BehavioralOutlierRow :=
            { orgId := req.entity.orgId, entityId := req.entity.id
              profileType := req.profileType, eventId := req.eventId
              eventPatternKey := req.eventPatternKey, cosineDistance := distance
              frequencyRank := rank, intentLabel := none }
          return (some row, { db with outliers := db.outliers.set req.id row })
        else return (none, db)

def setIntent (db : BehavioralDb) (outlierId : String) (label : IntentLabel) :
    Option BehavioralDb := do
  let row ← db.outliers.get? outlierId
  return { db with outliers := db.outliers.set outlierId { row with intentLabel := some label } }

-- `outlier.event_pattern_key or outlier.event_id`
def feedbackKey (outlier : BehavioralOutlierRow) : String :=
  match outlier.eventPatternKey with
  | none => outlier.eventId
  | some key => if key = "" then outlier.eventId else key

def withPattern (profile : BehavioralProfileRow) (patternKey : String) : BehavioralProfileRow :=
  let freqMap := updateFrequencyMap profile.frequencyMap patternKey
  { profile with
    frequencyMap := freqMap
    patternCount := freqMap.entries.length
    sampleSize := profile.sampleSize + 1 }

def feedbackBenign (db : BehavioralDb) (outlierId : String) : Option BehavioralDb := do
  let outlier ← db.outliers.get? outlierId
  guard (outlier.intentLabel = some .BENIGN)
  let (id, profile) ← getLatestProfile db outlier.entityId outlier.profileType
  let patternKey := feedbackKey outlier
  return { db with profiles := db.profiles.set id (withPattern profile patternKey) }

end Service

section Similar

structure SimilarRequest where
  orgId : String
  vector : List ℝ
  profileType : Option ProfileType
  excludeEntityId : Option String
  limit : ℤ

def capped (req : SimilarRequest) : ℕ := (max 1 req.limit).toNat

def active (db : BehavioralDb) (entityId : String) : Bool :=
  match db.entities.get? entityId with
  | some entity => entity.archivedAt.isNone
  | none => false

-- The clauses that both paths put in their WHERE.
def candidate (db : BehavioralDb) (req : SimilarRequest) (row : BehavioralProfileRow) :
    Option (BehavioralProfileRow × Centroid) :=
  match row.centroid with
  | none => none
  | some centroid =>
      if row.orgId = req.orgId ∧ active db row.entityId ∧
          (∀ profileType ∈ req.profileType, row.profileType = profileType) ∧
          ∀ entityId ∈ req.excludeEntityId, row.entityId ≠ entityId then
        some (row, centroid)
      else none

def candidates (db : BehavioralDb) (req : SimilarRequest) : List (BehavioralProfileRow × Centroid) :=
  (db.profiles.entries.map Prod.snd).filterMap (candidate db req)

def scanned (db : BehavioralDb) (req : SimilarRequest) : List (BehavioralProfileRow × Centroid) :=
  takeNewest (·.1.windowEnd) MAX_FALLBACK_SCAN (candidates db req)

noncomputable def fallback (db : BehavioralDb) (req : SimilarRequest) :
    Option (List (BehavioralProfileRow × ℝ)) := do
  let query ← toCentroidVector req.vector
  let scored ← (scanned db req).mapM fun rc =>
    (cosineDistance query.val rc.2.val).map fun distance => (rc.1, distance)
  return (scored.insertionSort fun a b => a.2 ≤ b.2).take (capped req)

-- The cosine distance of pgvector is not a number where a vector is zero, and what is not a number
-- is sorted behind all numbers.
structure PgVector where
  distance : Centroid → Centroid → WithTop ℝ
  distance_nonzero : ∀ a b : Centroid, dot a.val a.val ≠ 0 → dot b.val b.val ≠ 0 →
    distance a b = ((1 - dot a.val b.val / (√(dot a.val a.val) * √(dot b.val b.val)) : ℝ) : WithTop ℝ)
  distance_zero : ∀ a b : Centroid, dot a.val a.val = 0 ∨ dot b.val b.val = 0 → distance a b = ⊤

noncomputable def vectorPath (pg : PgVector) (db : BehavioralDb) (req : SimilarRequest) :
    Option (List (BehavioralProfileRow × WithTop ℝ)) := do
  let query ← toCentroidVector req.vector
  let scored := (candidates db req).map fun rc => (rc.1, pg.distance rc.2 query)
  return (scored.insertionSort fun a b => a.2 ≤ b.2).take (capped req)

end Similar

end Behavioral

end BTagent
