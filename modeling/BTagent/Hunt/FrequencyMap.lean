import BTagent.Hunt.Behavioral
import BTagent.Lib.Machine
import Mathlib.Data.List.Dedup

namespace BTagent

namespace Behavioral

structure Bounded (profile : BehavioralProfileRow) : Prop where
  few : profile.frequencyMap.entries.length ≤ DEFAULT_FREQUENCY_MAP_MAX
  counted : profile.patternCount = profile.frequencyMap.entries.length
  positive : ∀ kv ∈ profile.frequencyMap.entries, 1 ≤ kv.2

def AllBounded (db : BehavioralDb) : Prop := ∀ kv ∈ db.profiles.entries, Bounded kv.2

section Maps
variable {m : FrequencyMap} {key : String} {count : ℤ}

theorem mem_entries_set {κ ν : Type*} [DecidableEq κ] {d : OrderedDict κ ν} {k : κ} {v : ν}
    {kv : κ × ν} (h : kv ∈ (d.set k v).entries) : kv = (k, v) ∨ kv ∈ d.entries := by
  have hget := OrderedDict.mem_entries_iff.mp h
  rw [OrderedDict.get?_set] at hget
  split at hget
  · next hk =>
      cases hget
      exact Or.inl (Prod.ext hk rfl)
  · exact Or.inr (OrderedDict.mem_entries_iff.mpr hget)

theorem length_set_new (h : m.get? key = none) :
    (m.set key count).entries.length = m.entries.length + 1 := by
  have hnew : key ∉ m.keys := by
    rw [← OrderedDict.get?_isSome, h]
    exact Bool.false_ne_true
  rw [OrderedDict.entries_set_new hnew, List.length_append, List.length_singleton]

theorem length_set_old {old : ℤ} (h : m.get? key = some old) :
    (m.set key count).entries.length = m.entries.length := by
  obtain ⟨pre, post, hm, hset⟩ := OrderedDict.entries_set_old (v := count) h
  rw [hm, hset, List.length_append, List.length_append, List.length_cons, List.length_cons]

theorem victim_mem {kv : String × ℤ} (h : victim m = some kv) : kv ∈ m.entries := by
  have hmem := List.mem_of_mem_head? h
  exact (List.perm_insertionSort _ _).mem_iff.mp hmem

theorem victim_isSome (h : m.entries ≠ []) : ∃ kv, victim m = some kv := by
  refine Option.isSome_iff_exists.mp ?_
  rw [victim, List.isSome_head?]
  intro hnil
  have hlength := (List.perm_insertionSort (fun a b => victimKey a ≤ victimKey b) m.entries).length_eq
  rw [hnil] at hlength
  exact h (List.eq_nil_of_length_eq_zero hlength.symm)

theorem mem_evicted {n : ℕ} {kv : String × ℤ} (h : kv ∈ (evicted m n).entries) : kv ∈ m.entries := by
  unfold evicted at h
  split at h
  · split at h
    · exact (List.mem_filter.mp h).1
    · exact h
  · exact h

theorem evicted_get? {n : ℕ} (h : m.get? key = none) : (evicted m n).get? key = none := by
  cases hget : (evicted m n).get? key with
  | none => rfl
  | some count =>
      have hmem := mem_evicted (OrderedDict.mem_entries_iff.mpr hget)
      rw [OrderedDict.mem_entries_iff, h] at hmem
      cases hmem

-- There is room for one more entry where the map was not larger than the bound.
theorem length_evicted {n : ℕ} (hpos : 0 < n) (h : m.entries.length ≤ n) :
    (evicted m n).entries.length < n := by
  by_cases hfull : n ≤ m.entries.length
  · have hne : m.entries ≠ [] := by
      rintro hnil
      rw [hnil, List.length_nil] at hfull
      omega
    obtain ⟨kv, hvictim⟩ := victim_isSome hne
    have hlt : (m.entries.filter fun e => decide (e.1 ≠ kv.1)).length < m.entries.length := by
      rw [List.length_filter_lt_length_iff_exists]
      exact ⟨kv, victim_mem hvictim, by simp⟩
    have hevicted : (evicted m n).entries = m.entries.filter fun e => decide (e.1 ≠ kv.1) := by
      rw [evicted, hvictim]
      simp only [if_pos hfull]
      rfl
    rw [hevicted]
    omega
  · have hevicted : evicted m n = m := by
      unfold evicted
      split
      · rw [if_neg hfull]
      · rfl
    rw [hevicted]
    omega

theorem update_few (h : m.entries.length ≤ DEFAULT_FREQUENCY_MAP_MAX) :
    (updateFrequencyMap m key).entries.length ≤ DEFAULT_FREQUENCY_MAP_MAX := by
  unfold updateFrequencyMap
  split
  · next count hget =>
      rw [length_set_old hget]
      exact h
  · next hget =>
      rw [length_set_new (evicted_get? hget)]
      exact length_evicted (by decide) h

theorem update_positive (h : ∀ kv ∈ m.entries, 1 ≤ kv.2) :
    ∀ kv ∈ (updateFrequencyMap m key).entries, 1 ≤ kv.2 := by
  intro kv hkv
  unfold updateFrequencyMap at hkv
  split at hkv
  · next count hget =>
      have hcount := h _ (OrderedDict.mem_entries_iff.mpr hget)
      rcases mem_entries_set hkv with rfl | hold
      · simp only at hcount ⊢
        omega
      · exact h kv hold
  · rcases mem_entries_set hkv with rfl | hold
    · exact le_refl _
    · exact h kv (mem_evicted hold)

theorem foldl_countKey {keys : List String} (h : ∀ kv ∈ m.entries, 1 ≤ kv.2) :
    (∀ kv ∈ (keys.foldl countKey m).entries, 1 ≤ kv.2) ∧
      ∀ k, k ∈ (keys.foldl countKey m).keys ↔ k ∈ m.keys ∨ k ∈ keys := by
  induction keys generalizing m with
  | nil => exact ⟨h, fun k => by simp⟩
  | cons key keys ih =>
      have hstep : ∀ kv ∈ (countKey m key).entries, 1 ≤ kv.2 := by
        intro kv hkv
        rcases mem_entries_set hkv with rfl | hold
        · cases hget : m.get? key with
          | none => simp
          | some count =>
              have hcount := h _ (OrderedDict.mem_entries_iff.mpr hget)
              simp only [Option.getD_some] at hcount ⊢
              omega
        · exact h kv hold
      obtain ⟨hpositive, hkeys⟩ := ih hstep
      refine ⟨hpositive, fun k => ?_⟩
      rw [List.foldl_cons, hkeys, countKey, OrderedDict.mem_keys_set, List.mem_cons]
      tauto

theorem length_aggregate (keys : List String) :
    (aggregatePatternKeys keys).entries.length = keys.dedup.length := by
  have hperm : (aggregatePatternKeys keys).keys.Perm keys.dedup := by
    refine (List.perm_ext_iff_of_nodup (aggregatePatternKeys keys).nodup keys.nodup_dedup).mpr ?_
    intro k
    change k ∈ (aggregatePatternKeys keys).keys ↔ k ∈ keys.dedup
    rw [aggregatePatternKeys, (foldl_countKey (by simp [OrderedDict.empty])).2, List.mem_dedup]
    simp [OrderedDict.keys, OrderedDict.empty]
  rw [← hperm.length_eq, OrderedDict.keys, List.length_map]

theorem aggregate_positive (keys : List String) :
    ∀ kv ∈ (aggregatePatternKeys keys).entries, 1 ≤ kv.2 :=
  (foldl_countKey (by simp [OrderedDict.empty])).1

end Maps

section Runs

inductive Operation where
  | buildBaseline (req : BaselineRequest)
  | detectOutlier (req : DetectRequest)
  | setIntent (outlierId : String) (label : IntentLabel)
  | feedbackBenign (outlierId : String)

-- An operation that raises leaves the tables as they were, and is no step.
noncomputable def service : Machine BehavioralDb Operation where
  step db
    | .buildBaseline req => Behavioral.buildBaseline db req
    | .detectOutlier req => (Behavioral.detectOutlier db req).map Prod.snd
    | .setIntent outlierId label => Behavioral.setIntent db outlierId label
    | .feedbackBenign outlierId => Behavioral.feedbackBenign db outlierId

variable {db db' : BehavioralDb}

-- What one operation does to the profiles.
theorem build_profiles {req : BaselineRequest} (h : buildBaseline db req = some db') :
    ∃ row : BehavioralProfileRow, db'.profiles = db.profiles.set req.id row ∧
      row.frequencyMap = aggregatePatternKeys req.patternKeys ∧
      row.patternCount = row.frequencyMap.entries.length := by
  simp only [buildBaseline, Option.bind_eq_bind, Option.bind_eq_some_iff, Option.pure_def,
    Option.some_inj] at h
  obtain ⟨-, -, centroid, -, -, -, rfl⟩ := h
  exact ⟨_, rfl, rfl, rfl⟩

theorem detect_profiles {req : DetectRequest} {out : Option BehavioralOutlierRow}
    (h : detectOutlier db req = some (out, db')) : db'.profiles = db.profiles := by
  unfold detectOutlier at h
  split at h
  · cases h
    rfl
  · split at h
    · cases h
      rfl
    · simp only [Option.bind_eq_bind, Option.bind_eq_some_iff] at h
      obtain ⟨-, -, ⟨isOutlier, distance, rank⟩, -, h⟩ := h
      simp only at h
      split at h
      · simp only [Option.bind_eq_some_iff] at h
        obtain ⟨-, -, h⟩ := h
        cases h
        rfl
      · cases h
        rfl

theorem setIntent_profiles {outlierId : String} {label : IntentLabel}
    (h : setIntent db outlierId label = some db') : db'.profiles = db.profiles := by
  simp only [setIntent, Option.bind_eq_bind, Option.bind_eq_some_iff] at h
  obtain ⟨row, -, h⟩ := h
  cases h
  rfl

theorem mem_of_latest {entityId : String} {profileType : ProfileType}
    {kv : String × BehavioralProfileRow} (h : getLatestProfile db entityId profileType = some kv) :
    kv ∈ db.profiles.entries ∧ kv.2.entityId = entityId ∧ kv.2.profileType = profileType := by
  have hmem := mem_of_mem_takeNewest (List.mem_of_mem_head? h)
  obtain ⟨hentry, hkind⟩ := List.mem_filter.mp hmem
  exact ⟨hentry, of_decide_eq_true hkind⟩

theorem feedback_cases {outlierId : String} (h : feedbackBenign db outlierId = some db') :
    ∃ outlier id p, db.outliers.get? outlierId = some outlier ∧
      outlier.intentLabel = some .BENIGN ∧
      getLatestProfile db outlier.entityId outlier.profileType = some (id, p) ∧
      db' = { db with profiles := db.profiles.set id (withPattern p (feedbackKey outlier)) } := by
  simp only [feedbackBenign, Option.bind_eq_bind, Option.bind_eq_some_iff, Option.guard_eq_some'] at h
  obtain ⟨outlier, houtlier, -, hlabel, ⟨id, p⟩, hlatest, h⟩ := h
  cases h
  exact ⟨outlier, id, p, houtlier, hlabel, hlatest, rfl⟩

theorem bounded_set {id : String} {row : BehavioralProfileRow} (h : AllBounded db)
    (hrow : Bounded row) (hset : db'.profiles = db.profiles.set id row) : AllBounded db' := by
  intro kv hkv
  rw [hset] at hkv
  rcases mem_entries_set hkv with rfl | hold
  · exact hrow
  · exact h kv hold

theorem Bounded.withPattern {p : BehavioralProfileRow} (h : Bounded p) (key : String) :
    Bounded (withPattern p key) :=
  ⟨update_few h.few, rfl, update_positive h.positive⟩

-- The batch of a rebuild shows no more patterns than the map may hold.
def FewPatterns : Operation → Prop
  | .buildBaseline req => req.patternKeys.dedup.length ≤ DEFAULT_FREQUENCY_MAP_MAX
  | _ => True

theorem bounded_step {op : Operation} (h : AllBounded db) (hfew : FewPatterns op)
    (hstep : service.step db op = some db') : AllBounded db' := by
  cases op with
  | buildBaseline req =>
      obtain ⟨row, hset, hmap, hcount⟩ := build_profiles hstep
      refine bounded_set h ⟨?_, hcount, ?_⟩ hset
      · rw [hmap, length_aggregate]
        exact hfew
      · rw [hmap]
        exact aggregate_positive _
  | detectOutlier req =>
      obtain ⟨⟨out, _⟩, hdetect, rfl⟩ := Option.map_eq_some_iff.mp hstep
      rw [AllBounded, detect_profiles hdetect]
      exact h
  | setIntent outlierId label =>
      rw [AllBounded, setIntent_profiles hstep]
      exact h
  | feedbackBenign outlierId =>
      obtain ⟨outlier, id, p, -, -, hlatest, rfl⟩ := feedback_cases hstep
      exact bounded_set h ((h _ (mem_of_latest hlatest).1).withPattern _) rfl

theorem unbounded_step {op : Operation} (hmany : ¬ FewPatterns op)
    (hstep : service.step db op = some db') : ¬ AllBounded db' := by
  cases op with
  | buildBaseline req =>
      intro h
      obtain ⟨row, hset, hmap, -⟩ := build_profiles hstep
      have hentry : (req.id, row) ∈ db'.profiles.entries := by
        rw [OrderedDict.mem_entries_iff, hset, OrderedDict.get?_set_self]
      have hfew := (h _ hentry).few
      rw [hmap, length_aggregate] at hfew
      exact hmany hfew
  | _ => exact absurd trivial hmany

theorem frequency_bound_iff {es : List Operation} (hstart : AllBounded db)
    (hrun : service.run db es = some db') :
    (∀ fs gs, es = fs ++ gs → ∀ u, service.run db fs = some u → AllBounded u) ↔
      ∀ op ∈ es, FewPatterns op := by
  rw [service.reached_iff (I := AllBounded) (G := fun _ op => FewPatterns op) id
    (fun h hfew => bounded_step h hfew) (fun _ hmany => unbounded_step hmany) hstart hrun]
  exact service.along_iff_forall hrun

end Runs

section Example

def noRows : BehavioralDb := ⟨.empty, .empty, .empty⟩

def baselineOf (patternKeys : List String) : BaselineRequest where
  entity := ⟨"bent_1", "org_1", none⟩
  profileType := .PROCESS_TREE_PATTERN
  vectors := []
  patternKeys := patternKeys
  windowEnd := 1
  id := "bprof_1"

def profileOf (patternKeys : List String) : BehavioralProfileRow where
  orgId := "org_1"
  entityId := "bent_1"
  profileType := .PROCESS_TREE_PATTERN
  centroid := none
  frequencyMap := aggregatePatternKeys patternKeys
  patternCount := (aggregatePatternKeys patternKeys).entries.length
  sampleSize := max 0 patternKeys.length
  windowEnd := 1

def withProfile (patternKeys : List String) : BehavioralDb :=
  { noRows with profiles := OrderedDict.empty.set "bprof_1" (profileOf patternKeys) }

theorem build_step (patternKeys : List String) :
    service.step noRows (.buildBaseline (baselineOf patternKeys)) = some (withProfile patternKeys) :=
  rfl

theorem build_run (patternKeys : List String) :
    service.run noRows [.buildBaseline (baselineOf patternKeys)] = some (withProfile patternKeys) :=
  service.run_cons.mpr ⟨_, build_step patternKeys, rfl⟩

theorem noRows_bounded : AllBounded noRows := by
  intro kv hkv
  cases hkv

theorem two_patterns_bounded :
    (∀ fs gs, [Operation.buildBaseline (baselineOf ["cmd.exe", "net.exe", "cmd.exe"])] = fs ++ gs →
      ∀ u, service.run noRows fs = some u → AllBounded u) ↔
      ∀ op ∈ [Operation.buildBaseline (baselineOf ["cmd.exe", "net.exe", "cmd.exe"])],
        FewPatterns op :=
  frequency_bound_iff noRows_bounded (build_run _)

def manyPatterns : List String := (List.range 257).map fun n => String.ofList (List.replicate n 'a')

theorem manyPatterns_nodup : manyPatterns.Nodup := by
  refine List.Nodup.map_on ?_ List.nodup_range
  intro a _ b _ h
  have hlength := congrArg (fun s => s.toList.length) h
  simpa using hlength

theorem rebuild_unbounded : ∃ u,
    service.run noRows [.buildBaseline (baselineOf manyPatterns)] = some u ∧ ¬ AllBounded u := by
  refine ⟨_, build_run _, unbounded_step ?_ (build_step manyPatterns)⟩
  have hlength : manyPatterns.dedup.length = 257 := by
    rw [manyPatterns_nodup.dedup, manyPatterns, List.length_map, List.length_range]
  change ¬ manyPatterns.dedup.length ≤ 256
  omega

end Example

end Behavioral

end BTagent
