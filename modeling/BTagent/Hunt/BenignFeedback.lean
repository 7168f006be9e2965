import BTagent.Hunt.FrequencyMap

namespace BTagent

namespace Behavioral

section Ranks
variable {m : FrequencyMap} {key other : String} {count : ℤ}

def Before (a b : String × ℤ) : Prop := rankKey a < rankKey b

instance : DecidableRel Before := fun _ _ => inferInstanceAs (Decidable (_ < _))

theorem before_iff {a b : String × ℤ} : Before a b ↔ b.2 < a.2 ∨ a.2 = b.2 ∧ a.1 < b.1 := by
  rw [Before, rankKey, rankKey, Prod.Lex.toLex_lt_toLex]
  simp only [neg_lt_neg_iff, neg_inj]

theorem rankKey_inj {a b : String × ℤ} (h : rankKey a = rankKey b) : a = b := by
  have hpair := toLex_inj.mp h
  obtain ⟨hcount, hkey⟩ := Prod.mk.inj hpair
  exact Prod.ext hkey (neg_inj.mp hcount)

theorem ranked_sorted : (ranked m).Pairwise Before := by
  have hperm : (ranked m).Perm m.entries := List.perm_insertionSort _ _
  have hdistinct : (ranked m).Pairwise fun a b => a ≠ b :=
    hperm.symm.nodup (List.Nodup.of_map _ m.nodup)
  have hsorted : (ranked m).Pairwise fun a b => rankKey a ≤ rankKey b := Nearest.pairwise_by
  exact (hsorted.and hdistinct).imp fun h => lt_of_le_of_ne h.1 fun heq => h.2 (rankKey_inj heq)

theorem idxOf_fst {xs : List (String × ℤ)} (hn : (xs.map Prod.fst).Nodup) (h : (key, count) ∈ xs) :
    (xs.map Prod.fst).idxOf key = xs.idxOf (key, count) := by
  induction xs with
  | nil => cases h
  | cons x xs ih =>
      rw [List.map_cons, List.nodup_cons] at hn
      rcases List.mem_cons.mp h with rfl | hmem
      · rw [List.map_cons, List.idxOf_cons_self, List.idxOf_cons_self]
      · have hkey : x.1 ≠ key := by
          intro heq
          have hfst : key ∈ xs.map Prod.fst := List.mem_map_of_mem hmem
          exact hn.1 (heq ▸ hfst)
        have hpair : x ≠ (key, count) := fun heq => hkey (congrArg Prod.fst heq)
        rw [List.map_cons, List.idxOf_cons_ne _ hkey, List.idxOf_cons_ne _ hpair, ih hn.2 hmem]

-- The rank counts the entries that come before the key's own.
theorem frequencyRank_of_get? (h : m.get? key = some count) :
    frequencyRank m key = (m.entries.countP fun kv => Before kv (key, count)) + 1 := by
  have hperm : (ranked m).Perm m.entries := List.perm_insertionSort _ _
  have hmem : (key, count) ∈ ranked m := hperm.mem_iff.mpr (OrderedDict.mem_entries_iff.mpr h)
  have hkeys : ((ranked m).map Prod.fst).Nodup := (hperm.map Prod.fst).symm.nodup m.nodup
  have hindex : (ranked m).idxOf (key, count) = (ranked m).countP fun kv => Before kv (key, count) :=
    Nearest.idxOf_eq_countP ranked_sorted (fun a => lt_irrefl (rankKey a))
      (fun a b hab => lt_asymm hab) hmem
  rw [frequencyRank, if_pos (Option.isSome_of_mem h), idxOf_fst hkeys hmem, hindex,
    hperm.countP_eq]

theorem frequencyRank_none (h : m.get? key = none) : frequencyRank m key = 0 := by
  rw [frequencyRank, h]
  rfl

-- What is in the map when a count is raised.
def kept (m : FrequencyMap) (key : String) : FrequencyMap :=
  if (m.get? key).isSome then m else evicted m DEFAULT_FREQUENCY_MAP_MAX

def raisedCount (m : FrequencyMap) (key : String) : ℤ := (m.get? key).getD 0 + 1

theorem updateFrequencyMap_eq :
    updateFrequencyMap m key = (kept m key).set key (raisedCount m key) := by
  unfold updateFrequencyMap kept raisedCount
  cases m.get? key <;> rfl

-- The other patterns that are still as common as the raised one.
def rivals (m : FrequencyMap) (key : String) : ℕ :=
  (kept m key).entries.countP fun kv => kv.1 ≠ key && Before kv (key, raisedCount m key)

theorem rank_raised : frequencyRank (updateFrequencyMap m key) key = rivals m key + 1 := by
  have hget : (updateFrequencyMap m key).get? key = some (raisedCount m key) := by
    rw [updateFrequencyMap_eq, OrderedDict.get?_set_self]
  have hself : ¬ Before (key, raisedCount m key) (key, raisedCount m key) :=
    lt_irrefl (rankKey (key, raisedCount m key))
  rw [frequencyRank_of_get? hget, updateFrequencyMap_eq, OrderedDict.countP_set, rivals]
  simp [hself]

-- The empty key is the first of its count, so what is evicted never comes before it.
theorem victim_not_before {kv : String × ℤ} (hvictim : victim m = some kv)
    (h : m.get? "" = some count) : ¬ Before kv ("", count) := by
  have hmem : ("", count) ∈ m.entries.insertionSort fun a b => victimKey a ≤ victimKey b :=
    (List.perm_insertionSort _ _).mem_iff.mpr (OrderedDict.mem_entries_iff.mpr h)
  have hleast : victimKey kv ≤ victimKey ("", count) := by
    have hsorted : (m.entries.insertionSort fun a b => victimKey a ≤ victimKey b).Pairwise
        fun a b => victimKey a ≤ victimKey b := Nearest.pairwise_by
    rw [victim] at hvictim
    cases hsplit : m.entries.insertionSort fun a b => victimKey a ≤ victimKey b with
    | nil =>
        rw [hsplit] at hvictim
        cases hvictim
    | cons x xs =>
        rw [hsplit] at hvictim hmem hsorted
        obtain rfl := Option.some.inj hvictim
        rcases List.mem_cons.mp hmem with heq | hrest
        · rw [heq]
        · exact (List.pairwise_cons.mp hsorted).1 _ hrest
  rw [victimKey, victimKey, Prod.Lex.toLex_le_toLex] at hleast
  rw [before_iff]
  rintro (hlt | ⟨-, hlt⟩)
  · rcases hleast with hcount | ⟨heq, -⟩
    · omega
    · simp only at heq hlt
      omega
  · exact absurd (String.lt_iff_toList_lt.mp hlt) (List.not_lt_nil _)

theorem countP_evicted {n : ℕ} {p : String × ℤ → Bool}
    (hp : ∀ kv, victim m = some kv → p kv = false) :
    (evicted m n).entries.countP p = m.entries.countP p := by
  unfold evicted
  split
  · next victimKey victimCount hvictim =>
      split
      · have hnot := hp _ hvictim
        have hentry := OrderedDict.mem_entries_iff.mp (victim_mem hvictim)
        change (m.entries.filter fun kv => decide (kv.1 ≠ victimKey)).countP p = _
        rw [List.countP_filter]
        refine List.countP_congr fun kv hkv => ?_
        by_cases hkey : kv.1 = victimKey
        · have hget := OrderedDict.mem_entries_iff.mp (show (kv.1, kv.2) ∈ m.entries from hkv)
          rw [hkey, hentry] at hget
          have heq : kv = (victimKey, victimCount) := Prod.ext hkey (Option.some.inj hget).symm
          simp [heq, hnot]
        · simp [hkey]
      · rfl
  · rfl

theorem kept_get? (h : (kept m other).get? key = some count) : m.get? key = some count := by
  unfold kept at h
  split at h
  · exact h
  · exact OrderedDict.mem_entries_iff.mp (mem_evicted (OrderedDict.mem_entries_iff.mpr h))

def Rare (m : FrequencyMap) (key : String) (floor : ℤ) : Prop :=
  frequencyRank m key = 0 ∨ floor < frequencyRank m key

instance {floor : ℤ} : Decidable (Rare m key floor) := inferInstanceAs (Decidable (_ ∨ _))

-- Raising another pattern does not make an event without a pattern more common.
theorem rare_unnamed {floor : ℤ} (hother : other ≠ "") (h : Rare m "" floor) :
    Rare (updateFrequencyMap m other) "" floor := by
  cases hget : (updateFrequencyMap m other).get? "" with
  | none => exact Or.inl (frequencyRank_none hget)
  | some count =>
      have hbefore := hget
      rw [updateFrequencyMap_eq, OrderedDict.get?_set_ne _ _ (Ne.symm hother)] at hbefore
      have hold := kept_get? hbefore
      have hrank := frequencyRank_of_get? hold
      have hfloor : floor < frequencyRank m "" := by
        rcases h with hzero | hlt
        · omega
        · exact hlt
      have hmore : (m.entries.countP fun kv => Before kv ("", count)) ≤
          (updateFrequencyMap m other).entries.countP fun kv => Before kv ("", count) := by
        rw [updateFrequencyMap_eq, OrderedDict.countP_set]
        cases hothers : m.get? other with
        | some c =>
            have hsame : (m.set other c).entries.countP (fun kv => Before kv ("", count)) =
                m.entries.countP fun kv => Before kv ("", count) := by
              obtain ⟨pre, post, hm, hset⟩ := OrderedDict.entries_set_old (v := c) hothers
              rw [hset, hm]
            have hraised : Before (other, c) ("", count) →
                Before (other, raisedCount m other) ("", count) := by
              rw [before_iff, before_iff, raisedCount, hothers, Option.getD_some]
              rintro (hlt | ⟨heq, -⟩)
              · exact Or.inl (by simp only at hlt ⊢; omega)
              · exact Or.inl (by simp only at heq ⊢; omega)
            have hkept : kept m other = m := by
              rw [kept, hothers]
              rfl
            rw [← hsame, OrderedDict.countP_set, hkept]
            by_cases hc : Before (other, c) ("", count)
            · simp [hc, hraised hc]
            · simp [hc]
        | none =>
            have hkept : kept m other = evicted m DEFAULT_FREQUENCY_MAP_MAX := by
              rw [kept, hothers]
              rfl
            have hevicted : (evicted m DEFAULT_FREQUENCY_MAP_MAX).entries.countP
                (fun kv => kv.1 ≠ other && Before kv ("", count)) =
                  m.entries.countP fun kv => kv.1 ≠ other && Before kv ("", count) := by
              refine countP_evicted fun kv hvictim => ?_
              rw [decide_eq_false (victim_not_before hvictim hold), Bool.and_false]
            have hall : m.entries.countP (fun kv => kv.1 ≠ other && Before kv ("", count)) =
                m.entries.countP fun kv => Before kv ("", count) := by
              refine List.countP_congr fun kv hkv => ?_
              have hne : kv.1 ≠ other := by
                rintro rfl
                rw [OrderedDict.mem_entries_iff.mp hkv] at hothers
                cases hothers
              simp [hne]
            rw [hkept, hevicted, hall]
            exact Nat.le_add_right _ _
      right
      rw [frequencyRank_of_get? hget]
      rw [hrank] at hfloor
      push_cast at hfloor ⊢
      omega

end Ranks

section Feedback
variable {db db' : BehavioralDb} {req : DetectRequest}

-- What a detection that raises an outlier has found.
structure Raised (db : BehavioralDb) (req : DetectRequest) (id : String) (p : BehavioralProfileRow)
    (distance : ℝ) : Prop where
  latest : getLatestProfile db req.entity.id req.profileType = some (id, p)
  sampled : p.sampleSize ≠ 0
  vector : ∃ v, orNone req.eventVector = some v ∧
    eventDistance (p.centroid.map Subtype.val) (v.map Subtype.val) = some distance
  far : req.distanceThreshold ≤ distance
  rare : Rare p.frequencyMap (req.eventPatternKey.getD "") req.frequencyFloor
  fresh : db.outliers.get? req.id = none

def raisedRow (req : DetectRequest) (distance : ℝ) (rank : ℕ) : BehavioralOutlierRow where
  orgId := req.entity.orgId
  entityId := req.entity.id
  profileType := req.profileType
  eventId := req.eventId
  eventPatternKey := req.eventPatternKey
  cosineDistance := distance
  frequencyRank := rank
  intentLabel := none

theorem detect_raised {row : BehavioralOutlierRow} (h : detectOutlier db req = some (some row, db')) :
    ∃ id p distance, Raised db req id p distance ∧
      row = raisedRow req distance (frequencyRank p.frequencyMap (req.eventPatternKey.getD "")) ∧
      db' = { db with outliers := db.outliers.set req.id row } := by
  unfold detectOutlier at h
  split at h
  · cases h
  · next id p hlatest =>
      split at h
      · cases h
      · next hsampled =>
          simp only [scoreOutlier, Option.bind_eq_bind, Option.bind_eq_some_iff, Option.pure_def,
            Option.some_inj] at h
          obtain ⟨v, hv, _, ⟨distance, hdistance, rfl⟩, h⟩ := h
          split at h
          · next hraised =>
              simp only [Option.bind_eq_some_iff, Option.guard_eq_some', Option.some_inj] at h
              obtain ⟨-, hfresh, h⟩ := h
              obtain ⟨hfar, hrare⟩ := Bool.and_eq_true_iff.mp hraised
              cases h
              refine ⟨id, p, distance, ⟨hlatest, hsampled, ⟨v, hv, hdistance⟩,
                of_decide_eq_true hfar, of_decide_eq_true hrare, ?_⟩, rfl, rfl⟩
              exact Option.isNone_iff_eq_none.mp hfresh
          · cases h

theorem detect_none_iff {id again : String} {p : BehavioralProfileRow} {distance : ℝ}
    {v : Option Centroid} (hlatest : getLatestProfile db req.entity.id req.profileType = some (id, p))
    (hsampled : p.sampleSize ≠ 0) (hv : orNone req.eventVector = some v)
    (hdistance : eventDistance (p.centroid.map Subtype.val) (v.map Subtype.val) = some distance)
    (hfar : req.distanceThreshold ≤ distance) :
    (detectOutlier db { req with id := again }).map Prod.fst = some none ↔
      ¬ Rare p.frequencyMap (req.eventPatternKey.getD "") req.frequencyFloor := by
  simp only [detectOutlier, hlatest, if_neg hsampled, hv, scoreOutlier, hdistance,
    Option.bind_eq_bind, Option.bind_some, Option.pure_def, decide_eq_true hfar, Bool.true_and]
  split
  · next hraised =>
      have hrare : Rare p.frequencyMap (req.eventPatternKey.getD "") req.frequencyFloor :=
        of_decide_eq_true hraised
      cases db.outliers.get? again <;> simp [hrare, guard]
  · next hquiet =>
      have hrare : ¬ Rare p.frequencyMap (req.eventPatternKey.getD "") req.frequencyFloor :=
        fun hrare => hquiet (decide_eq_true hrare)
      simp [hrare]

-- The row that is written back is the latest one as the old one was.
theorem latest_set {entityId id : String} {profileType : ProfileType} {p p' : BehavioralProfileRow}
    (h : getLatestProfile db entityId profileType = some (id, p)) (hentity : p'.entityId = p.entityId)
    (htype : p'.profileType = p.profileType) (hwindow : p'.windowEnd = p.windowEnd) :
    getLatestProfile { db with profiles := db.profiles.set id p' } entityId profileType =
      some (id, p') := by
  have hget := OrderedDict.mem_entries_iff.mp (mem_of_latest h).1
  have hsame : ∀ kv ∈ db.profiles.entries, kv.1 = id → kv.2 = p := by
    rintro ⟨k, q⟩ hkv rfl
    have hold := OrderedDict.mem_entries_iff.mp hkv
    rw [hget] at hold
    exact (Option.some.inj hold).symm
  have hrows : profilesOf { db with profiles := db.profiles.set id p' } entityId profileType =
      (profilesOf db entityId profileType).map fun kv => if kv.1 = id then (id, p') else kv := by
    rw [profilesOf, OrderedDict.entries_set_map hget, List.filter_map]
    refine congrArg _ (List.filter_congr fun kv hkv => ?_)
    by_cases hid : kv.1 = id
    · simp [hid, hsame kv hkv hid, hentity, htype]
    · simp [hid]
  have hkeys : ∀ kv ∈ profilesOf db entityId profileType,
      (if kv.1 = id then (id, p') else kv).2.windowEnd = kv.2.windowEnd := by
    intro kv hkv
    by_cases hid : kv.1 = id
    · rw [if_pos hid, hsame kv (List.mem_filter.mp hkv).1 hid]
      exact hwindow
    · rw [if_neg hid]
  rw [getLatestProfile, hrows, takeNewest_map hkeys, List.head?_map]
  rw [getLatestProfile] at h
  rw [h]
  simp

def triageBenign (db : BehavioralDb) (outlierId : String) : Option BehavioralDb :=
  (setIntent db outlierId .BENIGN).bind fun db => feedbackBenign db outlierId

theorem triage_raised {id : String} {p : BehavioralProfileRow} {distance : ℝ} {rank : ℕ}
    (hlatest : getLatestProfile db req.entity.id req.profileType = some (id, p)) :
    ∃ db'', triageBenign { db with outliers := db.outliers.set req.id (raisedRow req distance rank) }
        req.id = some db'' ∧
      db''.profiles =
        db.profiles.set id (withPattern p (feedbackKey (raisedRow req distance rank))) := by
  have hlatest' : ∀ outliers, getLatestProfile { db with outliers := outliers } req.entity.id
      req.profileType = some (id, p) := fun _ => hlatest
  simp only [triageBenign, setIntent, feedbackBenign, OrderedDict.get?_set_self, Option.bind_eq_bind,
    Option.bind_some, Option.pure_def, raisedRow, hlatest', guard, if_true]
  exact ⟨_, rfl, rfl⟩

-- The pattern that is fed back is the one that the event was scored by, and no more others are as
-- common than the floor leaves room for.
structure Quieted (m : FrequencyMap) (req : DetectRequest) : Prop where
  named : req.eventPatternKey.getD "" ≠ "" ∨ req.eventId = ""
  common : rivals m (req.eventPatternKey.getD "") < req.frequencyFloor

theorem feedbackKey_named {distance : ℝ} {rank : ℕ} :
    feedbackKey (raisedRow req distance rank) =
      if req.eventPatternKey.getD "" = "" then req.eventId else req.eventPatternKey.getD "" := by
  cases hkey : req.eventPatternKey <;> simp [feedbackKey, raisedRow, hkey]

theorem rare_raised_iff {m : FrequencyMap} {distance : ℝ} {rank : ℕ}
    (hrare : Rare m (req.eventPatternKey.getD "") req.frequencyFloor) :
    ¬ Rare (updateFrequencyMap m (feedbackKey (raisedRow req distance rank)))
        (req.eventPatternKey.getD "") req.frequencyFloor ↔ Quieted m req := by
  have hsame : feedbackKey (raisedRow req distance rank) = req.eventPatternKey.getD "" →
      (¬ Rare (updateFrequencyMap m (feedbackKey (raisedRow req distance rank)))
        (req.eventPatternKey.getD "") req.frequencyFloor ↔
          rivals m (req.eventPatternKey.getD "") < req.frequencyFloor) := by
    intro hkey
    rw [hkey, Rare, rank_raised, not_or, not_lt, Nat.cast_succ, Int.add_one_le_iff]
    exact and_iff_right (Nat.succ_ne_zero _)
  by_cases hempty : req.eventPatternKey.getD "" = ""
  · by_cases hid : req.eventId = ""
    · have hkey : feedbackKey (raisedRow req distance rank) = req.eventPatternKey.getD "" := by
        rw [feedbackKey_named, if_pos hempty, hid, hempty]
      rw [hsame hkey]
      exact ⟨fun h => ⟨Or.inr hid, h⟩, Quieted.common⟩
    · have hkey : feedbackKey (raisedRow req distance rank) = req.eventId := by
        rw [feedbackKey_named, if_pos hempty]
      rw [hempty] at hrare
      rw [hkey, hempty]
      refine iff_of_false (fun h => h (rare_unnamed hid hrare)) ?_
      rintro ⟨hnamed | hnamed, -⟩
      · exact hnamed hempty
      · exact hid hnamed
  · have hkey : feedbackKey (raisedRow req distance rank) = req.eventPatternKey.getD "" := by
      rw [feedbackKey_named, if_neg hempty]
    rw [hsame hkey]
    exact ⟨fun h => ⟨Or.inl hempty, h⟩, Quieted.common⟩

theorem feedback_effective_iff {row : BehavioralOutlierRow} (again : String)
    (h : detectOutlier db req = some (some row, db')) :
    ∃ id p db'', getLatestProfile db req.entity.id req.profileType = some (id, p) ∧
      triageBenign db' req.id = some db'' ∧
        ((detectOutlier db'' { req with id := again }).map Prod.fst = some none ↔
          Quieted p.frequencyMap req) := by
  obtain ⟨id, p, distance, hraised, rfl, rfl⟩ := detect_raised h
  obtain ⟨v, hv, hdistance⟩ := hraised.vector
  obtain ⟨db'', htriage, hprofiles⟩ := triage_raised hraised.latest
  refine ⟨id, p, db'', hraised.latest, htriage, ?_⟩
  have hafter : getLatestProfile db'' req.entity.id req.profileType =
      some (id, withPattern p (feedbackKey (raisedRow req distance
        (frequencyRank p.frequencyMap (req.eventPatternKey.getD ""))))) := by
    refine Eq.trans ?_ (latest_set hraised.latest rfl rfl rfl)
    rw [getLatestProfile, getLatestProfile, profilesOf, profilesOf, hprofiles]
  rw [detect_none_iff hafter (Nat.succ_ne_zero _) hv hdistance hraised.far]
  exact rare_raised_iff hraised.rare

end Feedback

section Example

def netEvent (frequencyFloor : ℤ) : DetectRequest where
  entity := ⟨"bent_1", "org_1", none⟩
  profileType := .PROCESS_TREE_PATTERN
  eventId := "evt_1"
  eventVector := none
  eventPatternKey := some "net.exe"
  distanceThreshold := 0
  frequencyFloor := frequencyFloor
  id := "bout_1"

def netOutlier (frequencyFloor : ℤ) : BehavioralDb :=
  { withProfile ["cmd.exe"] with
    outliers := OrderedDict.empty.set "bout_1" (raisedRow (netEvent frequencyFloor) 1 0) }

theorem latest_cmd : getLatestProfile (withProfile ["cmd.exe"]) "bent_1" .PROCESS_TREE_PATTERN =
    some ("bprof_1", profileOf ["cmd.exe"]) := by
  have hrows : profilesOf (withProfile ["cmd.exe"]) "bent_1" .PROCESS_TREE_PATTERN =
      [("bprof_1", profileOf ["cmd.exe"])] := rfl
  have hnewest : takeNewest (fun kv : String × BehavioralProfileRow => kv.2.windowEnd) 1
      [("bprof_1", profileOf ["cmd.exe"])] = [("bprof_1", profileOf ["cmd.exe"])] :=
    takeNewest_of_sorted (le_refl 1) (List.pairwise_singleton _ _)
  rw [getLatestProfile, hrows, hnewest]
  rfl

theorem net_raised (frequencyFloor : ℤ) :
    detectOutlier (withProfile ["cmd.exe"]) (netEvent frequencyFloor) =
      some (some (raisedRow (netEvent frequencyFloor) 1 0), netOutlier frequencyFloor) := by
  have hrank : frequencyRank (profileOf ["cmd.exe"]).frequencyMap "net.exe" = 0 :=
    frequencyRank_none (by decide)
  have hfar : decide ((netEvent frequencyFloor).distanceThreshold ≤ 1) = true :=
    decide_eq_true zero_le_one
  have hlatest : getLatestProfile (withProfile ["cmd.exe"]) (netEvent frequencyFloor).entity.id
      (netEvent frequencyFloor).profileType = some ("bprof_1", profileOf ["cmd.exe"]) := latest_cmd
  have hvector : orNone (netEvent frequencyFloor).eventVector = some none := rfl
  have hdistance : eventDistance ((profileOf ["cmd.exe"]).centroid.map Subtype.val)
      ((none : Option Centroid).map Subtype.val) = some 1 := rfl
  have hkey : (netEvent frequencyFloor).eventPatternKey.getD "" = "net.exe" := rfl
  have hsampled : (profileOf ["cmd.exe"]).sampleSize ≠ 0 := by decide
  simp only [detectOutlier, hlatest, if_neg hsampled, hvector, scoreOutlier, hdistance, hkey, hrank,
    Option.bind_eq_bind, Option.bind_some, Option.pure_def, hfar, Bool.true_and, true_or,
    decide_true, if_true]
  rfl

theorem net_quieted :
    ∃ id p db'', getLatestProfile (withProfile ["cmd.exe"]) (netEvent 2).entity.id
        (netEvent 2).profileType = some (id, p) ∧
      triageBenign (netOutlier 2) (netEvent 2).id = some db'' ∧
        ((detectOutlier db'' { netEvent 2 with id := "bout_2" }).map Prod.fst = some none ↔
          Quieted p.frequencyMap (netEvent 2)) :=
  feedback_effective_iff "bout_2" (net_raised 2)

-- At the default floor the pattern stays behind the one that was seen first.
theorem net_raised_again :
    ∃ db'', triageBenign (netOutlier 1) "bout_1" = some db'' ∧
      (detectOutlier db'' { netEvent 1 with id := "bout_2" }).map Prod.fst ≠ some none := by
  obtain ⟨db'', htriage, hprofiles⟩ :=
    @triage_raised (withProfile ["cmd.exe"]) (netEvent 1) _ _ 1 0 latest_cmd
  refine ⟨db'', htriage, ?_⟩
  have hafter : getLatestProfile db'' (netEvent 1).entity.id (netEvent 1).profileType =
      some ("bprof_1", withPattern (profileOf ["cmd.exe"]) "net.exe") := by
    refine Eq.trans ?_ (latest_set latest_cmd rfl rfl rfl)
    rw [getLatestProfile, getLatestProfile, profilesOf, profilesOf, hprofiles]
    rfl
  have hdistance : eventDistance
      ((withPattern (profileOf ["cmd.exe"]) "net.exe").centroid.map Subtype.val)
      ((none : Option Centroid).map Subtype.val) = some 1 := rfl
  rw [Ne, detect_none_iff hafter (Nat.succ_ne_zero _) rfl hdistance zero_le_one, not_not]
  exact Or.inr (by decide)

end Example

end Behavioral

end BTagent
