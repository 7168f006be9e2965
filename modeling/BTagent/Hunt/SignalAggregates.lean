import BTagent.Hunt.WeakSignals

namespace BTagent

namespace WeakSignalExtractor
open OrderedDict

variable {T : CharTable} {minLen : ℤ} {kvs kvs' : List (Key × Sighting)} {k : Key} {a b : Accum}
  {v : Sighting} {vs : List Sighting} {records records' : List ClosedInvestigationRecord}

section Accumulating

def Accum.merge (a : Accum) (v : Sighting) : Accum where
  firstSeen := if v.firstSeen.time < a.firstSeen.time then v.firstSeen else a.firstSeen
  lastSeen := if a.lastSeen.time < v.lastSeen.time then v.lastSeen else a.lastSeen
  investigationRefs := insert v.investigationId a.investigationRefs
  iocType := a.iocType.or v.iocType

-- The accumulators where every comparison succeeds.
def swept (kvs : List (Key × Sighting)) : OrderedDict Key Accum :=
  kvs.foldl (tally (fun _ => Accum.start) Accum.merge) .empty

-- The accumulator holds the bounds of what was seen.
structure Spans (vs : List Sighting) (a : Accum) : Prop where
  first : ∃ v ∈ vs, a.firstSeen = v.firstSeen
  first_le : ∀ v ∈ vs, a.firstSeen.time ≤ v.firstSeen.time
  last : ∃ v ∈ vs, a.lastSeen = v.lastSeen
  le_last : ∀ v ∈ vs, v.lastSeen.time ≤ a.lastSeen.time
  refs : ∀ i, i ∈ a.investigationRefs ↔ ∃ v ∈ vs, v.investigationId = i

theorem merge_start : (Accum.start v).merge v = Accum.start v := by
  simp [Accum.merge, Accum.start]

theorem spans_start : Spans [v] (Accum.start v) := by
  constructor <;> simp [Accum.start, eq_comm]

theorem Spans.merge (h : Spans vs a) : Spans (vs ++ [v]) (a.merge v) where
  first := by
    rw [Accum.merge]
    dsimp only
    split
    · exact ⟨v, by simp, rfl⟩
    · obtain ⟨w, hw, heq⟩ := h.first
      exact ⟨w, List.mem_append_left _ hw, heq⟩
  first_le w hw := by
    have hle : ∀ w ∈ vs, a.firstSeen.time ≤ w.firstSeen.time := h.first_le
    rw [Accum.merge]
    dsimp only
    rcases List.mem_append.mp hw with hw | hw
    · have hw := hle w hw
      split <;> omega
    · rw [List.mem_singleton.mp hw]
      split <;> omega
  last := by
    rw [Accum.merge]
    dsimp only
    split
    · exact ⟨v, by simp, rfl⟩
    · obtain ⟨w, hw, heq⟩ := h.last
      exact ⟨w, List.mem_append_left _ hw, heq⟩
  le_last w hw := by
    rw [Accum.merge]
    dsimp only
    rcases List.mem_append.mp hw with hw | hw
    · have hw := h.le_last w hw
      split <;> omega
    · rw [List.mem_singleton.mp hw]
      split <;> omega
  refs i := by
    rw [Accum.merge]
    dsimp only
    rw [Finset.mem_insert, h.refs]
    simp [or_and_right, exists_or, eq_comm, or_comm]

theorem swept_spans (h : (swept kvs).get? k = some a) : Spans (valuesFor k kvs) a := by
  refine tallied_invariant ?_ ?_ h
  · intro v
    rw [merge_start]
    exact spans_start
  · intro seen a v hspans
    exact hspans.merge

end Accumulating

section Comparing

-- No naive time is compared with an aware one.
def Comparable (kvs : List (Key × Sighting)) : Prop :=
  ∀ k v w, (k, v) ∈ kvs → (k, w) ∈ kvs →
    v.firstSeen.aware = w.firstSeen.aware ∧ v.lastSeen.aware = w.lastSeen.aware

theorem Comparable.init {kv : Key × Sighting} (h : Comparable (kvs ++ [kv])) : Comparable kvs :=
  fun k v w hv hw => h k v w (List.mem_append_left _ hv) (List.mem_append_left _ hw)

theorem comparable_concat (h : Comparable kvs) : Comparable (kvs ++ [(k, v)]) ↔
    ∀ w, (k, w) ∈ kvs → v.firstSeen.aware = w.firstSeen.aware ∧ v.lastSeen.aware = w.lastSeen.aware := by
  constructor
  · intro hall w hw
    exact hall k v w (by simp) (List.mem_append_left _ hw)
  · intro hnew j u w hu hw
    simp only [List.mem_append, List.mem_singleton, Prod.mk.injEq] at hu hw
    rcases hu with hu | ⟨rfl, rfl⟩
    · rcases hw with hw | ⟨rfl, rfl⟩
      · exact h j u w hu hw
      · exact ⟨(hnew u hu).1.symm, (hnew u hu).2.symm⟩
    · rcases hw with hw | ⟨-, rfl⟩
      · exact hnew w hw
      · exact ⟨rfl, rfl⟩

theorem swept_concat : swept (kvs ++ [(k, v)]) =
    (swept kvs).set k ((((swept kvs).get? k).getD (.start v)).merge v) := by
  rw [swept, List.foldl_append]
  rfl

-- A bump compares the new sighting with one of those before it.
theorem bump_swept (h : Comparable kvs) {d : OrderedDict Key Accum} :
    bump (swept kvs) (k, v) = some d ↔
      Comparable (kvs ++ [(k, v)]) ∧ d = swept (kvs ++ [(k, v)]) := by
  rw [comparable_concat h, swept_concat, bump]
  cases hget : (swept kvs).get? k with
  | none =>
      have hnone : valuesFor k kvs = [] := get?_tallied_eq_none.mp hget
      have hnew : ∀ w, (k, w) ∉ kvs := by
        intro w hw
        rw [← mem_valuesFor, hnone] at hw
        cases hw
      simp only [Option.getD_none, merge_start, Option.some.injEq]
      constructor
      · rintro rfl
        exact ⟨fun w hw => absurd hw (hnew w), rfl⟩
      · rintro ⟨-, rfl⟩
        rfl
  | some a =>
      have hspans := swept_spans hget
      obtain ⟨first, hfirst, heqf⟩ := hspans.first
      obtain ⟨last, hlast, heql⟩ := hspans.last
      rw [mem_valuesFor] at hfirst hlast
      have hiff : (∀ w, (k, w) ∈ kvs → v.firstSeen.aware = w.firstSeen.aware ∧
          v.lastSeen.aware = w.lastSeen.aware) ↔
          v.firstSeen.aware = a.firstSeen.aware ∧ a.lastSeen.aware = v.lastSeen.aware := by
        rw [heqf, heql]
        constructor
        · intro hall
          exact ⟨(hall first hfirst).1, (hall last hlast).2.symm⟩
        · rintro ⟨hf, hl⟩ w hw
          exact ⟨hf.trans (h k first w hfirst hw).1, hl.symm.trans (h k last w hlast hw).2⟩
      rw [hiff]
      dsimp only
      by_cases hf : v.firstSeen.aware = a.firstSeen.aware
      · by_cases hl : a.lastSeen.aware = v.lastSeen.aware
        · simp [Moment.lt?_of_aware hf, Moment.lt?_of_aware hl, hf, hl, Accum.merge, eq_comm]
        · simp [Moment.lt?_of_aware hf, Moment.lt?_eq_none.mpr hl, hl]
      · simp [Moment.lt?_eq_none.mpr hf, hf]

theorem sweep_some_iff {d : OrderedDict Key Accum} :
    kvs.foldlM bump .empty = some d ↔ Comparable kvs ∧ d = swept kvs := by
  induction kvs using List.reverseRecOn generalizing d with
  | nil =>
      constructor
      · intro h
        exact ⟨fun k v w hv => (List.not_mem_nil hv).elim, (Option.some.inj h).symm⟩
      · rintro ⟨-, rfl⟩
        rfl
  | append_singleton kvs kv ih =>
      obtain ⟨k, v⟩ := kv
      rw [List.foldlM_append]
      simp only [List.foldlM_cons, List.foldlM_nil, bind_pure, Option.bind_eq_bind,
        Option.bind_eq_some_iff]
      constructor
      · rintro ⟨e, he, hbump⟩
        obtain ⟨hkvs, rfl⟩ := ih.mp he
        exact (bump_swept hkvs).mp hbump
      · rintro ⟨hall, rfl⟩
        exact ⟨swept kvs, ih.mpr ⟨hall.init, rfl⟩, (bump_swept hall.init).mpr ⟨hall, rfl⟩⟩

end Comparing

section Aggregates

def keyOf (s : WeakSignal) : Key := (s.kind, s.value)

-- All bumps of the records, in the order in which the sweep makes them.
def allSightings (T : CharTable) (minLen : ℤ) (records : List ClosedInvestigationRecord) :
    List (Key × Sighting) :=
  records.flatMap (sightings T minLen)

def Contains (T : CharTable) (minLen : ℤ) (k : Key) (r : ClosedInvestigationRecord) : Prop :=
  k ∈ (sightings T minLen r).map Prod.fst

instance (T : CharTable) (minLen : ℤ) (k : Key) : DecidablePred (Contains T minLen k) :=
  fun _ => inferInstanceAs (Decidable (_ ∈ _))

-- The distinct investigations that contain a value.
def investigations (T : CharTable) (minLen : ℤ) (records : List ClosedInvestigationRecord) (k : Key) :
    Finset String :=
  ((records.filter (Contains T minLen k)).map (·.investigationId)).toFinset

structure Aggregated (T : CharTable) (minLen : ℤ) (records : List ClosedInvestigationRecord)
    (signals : List WeakSignal) : Prop where
  nodup : (signals.map keyOf).Nodup
  keys : ∀ k, k ∈ signals.map keyOf ↔ ∃ r ∈ records, Contains T minLen k r
  count : ∀ s ∈ signals, s.distinctInvestigationCount =
    (investigations T minLen records (keyOf s)).card
  first : ∀ s ∈ signals, ∃ v ∈ valuesFor (keyOf s) (allSightings T minLen records),
    s.firstSeen = v.firstSeen
  first_le : ∀ s ∈ signals, ∀ v ∈ valuesFor (keyOf s) (allSightings T minLen records),
    s.firstSeen.time ≤ v.firstSeen.time
  last : ∀ s ∈ signals, ∃ v ∈ valuesFor (keyOf s) (allSightings T minLen records),
    s.lastSeen = v.lastSeen
  le_last : ∀ s ∈ signals, ∀ v ∈ valuesFor (keyOf s) (allSightings T minLen records),
    v.lastSeen.time ≤ s.lastSeen.time

theorem foldlM_records {acc : OrderedDict Key Accum} :
    records.foldlM (fun acc r => (sightings T minLen r).foldlM bump acc) acc =
      (allSightings T minLen records).foldlM bump acc := by
  induction records generalizing acc with
  | nil => rfl
  | cons r records ih =>
      rw [List.foldlM_cons, allSightings, List.flatMap_cons, List.foldlM_append]
      simp only [ih]
      rfl

def render (T : CharTable) (acc : OrderedDict Key Accum) : List WeakSignal :=
  (acc.entries.map (signal T)).mergeSort fun s t => sortKey s ≤ sortKey t

theorem extract_some_iff {signals : List WeakSignal} : extract T minLen records = some signals ↔
    Comparable (allSightings T minLen records) ∧
      signals = render T (swept (allSightings T minLen records)) := by
  simp only [extract, foldlM_records, Option.bind_eq_bind, Option.bind_eq_some_iff, sweep_some_iff]
  constructor
  · rintro ⟨acc, ⟨hcomparable, rfl⟩, hsome⟩
    exact ⟨hcomparable, (Option.some.inj hsome).symm⟩
  · rintro ⟨hcomparable, rfl⟩
    exact ⟨_, ⟨hcomparable, rfl⟩, rfl⟩

theorem investigationId_of_mem {r : ClosedInvestigationRecord} (h : (k, v) ∈ sightings T minLen r) :
    v.investigationId = r.investigationId := by
  have hsighting : ∀ {kind value w}, (k, v) ∈ sighting T kind value w → v = w := by
    intro kind value w hmem
    rw [sighting] at hmem
    split at hmem
    · cases hmem
    · exact (Prod.mk.inj (List.mem_singleton.mp hmem)).2
  have hsimple : ∀ {kind values}, (k, v) ∈ ingestSimple T r kind values →
      v.investigationId = r.investigationId := by
    intro kind values hmem
    obtain ⟨value, -, hmem⟩ := List.mem_flatMap.mp hmem
    rw [hsighting hmem]
  simp only [sightings, List.mem_append] at h
  rcases h with h | h | h | h | h
  · obtain ⟨ioc, -, h⟩ := List.mem_flatMap.mp h
    rcases List.mem_append.mp h with h | h
    · rw [hsighting h]
    · split at h
      · dsimp only at h
        split at h
        · cases h
        · rw [hsighting h]
      · cases h
  · exact hsimple h
  · exact hsimple h
  · exact hsimple h
  · exact hsimple h

theorem mem_values {s : WeakSignal} : v ∈ valuesFor (keyOf s) (allSightings T minLen records) ↔
    ∃ r ∈ records, (keyOf s, v) ∈ sightings T minLen r := by
  rw [mem_valuesFor, allSightings, List.mem_flatMap]

theorem mem_render {acc : OrderedDict Key Accum} {s : WeakSignal} :
    s ∈ render T acc ↔ ∃ k a, acc.get? k = some a ∧ signal T (k, a) = s := by
  rw [render, (List.mergeSort_perm _ _).mem_iff, List.mem_map]
  constructor
  · rintro ⟨⟨k, a⟩, hentry, rfl⟩
    exact ⟨k, a, mem_entries_iff.mp hentry, rfl⟩
  · rintro ⟨k, a, hget, rfl⟩
    exact ⟨(k, a), mem_entries_iff.mpr hget, rfl⟩

theorem render_keys {acc : OrderedDict Key Accum} : ((render T acc).map keyOf).Perm acc.keys := by
  refine ((List.mergeSort_perm _ _).map keyOf).trans ?_
  rw [List.map_map]
  exact List.Perm.refl _

theorem aggregated_render :
    Aggregated T minLen records (render T (swept (allSightings T minLen records))) where
  nodup := render_keys.nodup_iff.mpr (swept _).nodup
  keys k := by
    rw [render_keys.mem_iff, ← get?_isSome, Option.isSome_iff_ne_none]
    have hnone : (swept (allSightings T minLen records)).get? k = none ↔ _ := get?_tallied_eq_none
    rw [ne_eq, hnone, valuesFor_eq_nil, not_not, List.mem_map]
    constructor
    · rintro ⟨kv, hkv, rfl⟩
      obtain ⟨r, hr, hmem⟩ := List.mem_flatMap.mp hkv
      exact ⟨r, hr, List.mem_map_of_mem hmem⟩
    · rintro ⟨r, hr, hcontains⟩
      obtain ⟨kv, hkv, rfl⟩ := List.mem_map.mp hcontains
      exact ⟨kv, List.mem_flatMap.mpr ⟨r, hr, hkv⟩, rfl⟩
  count s hs := by
    obtain ⟨k, a, hget, rfl⟩ := mem_render.mp hs
    have hrefs : a.investigationRefs = investigations T minLen records k := by
      ext i
      rw [(swept_spans hget).refs, investigations, List.mem_toFinset, List.mem_map]
      constructor
      · rintro ⟨v, hv, rfl⟩
        obtain ⟨r, hr, hmem⟩ := mem_values (s := signal T (k, a)) |>.mp hv
        refine ⟨r, List.mem_filter.mpr ⟨hr, decide_eq_true (List.mem_map_of_mem hmem)⟩, ?_⟩
        exact (investigationId_of_mem hmem).symm
      · rintro ⟨r, hr, rfl⟩
        obtain ⟨hin, hcontains⟩ := List.mem_filter.mp hr
        obtain ⟨⟨j, v⟩, hmem, rfl⟩ := List.mem_map.mp (of_decide_eq_true hcontains)
        exact ⟨v, mem_valuesFor.mpr (List.mem_flatMap.mpr ⟨r, hin, hmem⟩),
          investigationId_of_mem hmem⟩
    exact congrArg Finset.card hrefs
  first s hs := by
    obtain ⟨k, a, hget, rfl⟩ := mem_render.mp hs
    exact (swept_spans hget).first
  first_le s hs := by
    obtain ⟨k, a, hget, rfl⟩ := mem_render.mp hs
    exact (swept_spans hget).first_le
  last s hs := by
    obtain ⟨k, a, hget, rfl⟩ := mem_render.mp hs
    exact (swept_spans hget).last
  le_last s hs := by
    obtain ⟨k, a, hget, rfl⟩ := mem_render.mp hs
    exact (swept_spans hget).le_last

end Aggregates

section Orders

-- A signal without the type of its indicator.
def aggregate (s : WeakSignal) : WeakSignal := { s with iocType := none }

def Accum.untyped (a : Accum) : Accum := { a with iocType := none }

theorem Comparable.perm (h : Comparable kvs) (hperm : kvs'.Perm kvs) : Comparable kvs' :=
  fun k v w hv hw => h k v w (hperm.mem_iff.mp hv) (hperm.mem_iff.mp hw)

theorem moment_eq {m n : Moment} (haware : m.aware = n.aware) (htime : m.time = n.time) : m = n := by
  cases m
  cases n
  simp_all

-- The bounds of what was seen determine the accumulator, up to the type.
theorem untyped_unique (hkvs : Comparable kvs) (ha : Spans (valuesFor k kvs) a)
    (hb : Spans (valuesFor k kvs) b) : a.untyped = b.untyped := by
  have hmem : ∀ {v}, v ∈ valuesFor k kvs → (k, v) ∈ kvs := mem_valuesFor.mp
  obtain ⟨v, hv, hva⟩ := ha.first
  obtain ⟨w, hw, hwb⟩ := hb.first
  have hfirst : a.firstSeen = b.firstSeen := by
    apply moment_eq
    · rw [hva, hwb]
      exact (hkvs k v w (hmem hv) (hmem hw)).1
    · have hle := ha.first_le w hw
      have hge := hb.first_le v hv
      rw [← hwb] at hle
      rw [← hva] at hge
      omega
  obtain ⟨v, hv, hva⟩ := ha.last
  obtain ⟨w, hw, hwb⟩ := hb.last
  have hlast : a.lastSeen = b.lastSeen := by
    apply moment_eq
    · rw [hva, hwb]
      exact (hkvs k v w (hmem hv) (hmem hw)).2
    · have hle := ha.le_last w hw
      have hge := hb.le_last v hv
      rw [← hwb] at hle
      rw [← hva] at hge
      omega
  have hrefs : a.investigationRefs = b.investigationRefs := by
    ext i
    rw [ha.refs, hb.refs]
  rw [Accum.untyped, Accum.untyped, hfirst, hlast, hrefs]

theorem Spans.perm {vs' : List Sighting} (h : Spans vs a) (hperm : vs.Perm vs') : Spans vs' a where
  first := by
    obtain ⟨v, hv, heq⟩ := h.first
    exact ⟨v, hperm.mem_iff.mp hv, heq⟩
  first_le v hv := h.first_le v (hperm.mem_iff.mpr hv)
  last := by
    obtain ⟨v, hv, heq⟩ := h.last
    exact ⟨v, hperm.mem_iff.mp hv, heq⟩
  le_last v hv := h.le_last v (hperm.mem_iff.mpr hv)
  refs i := by
    rw [h.refs]
    simp only [hperm.mem_iff]

theorem swept_perm (hkvs : Comparable kvs) (hperm : kvs'.Perm kvs) :
    ((swept kvs').get? k).map Accum.untyped = ((swept kvs).get? k).map Accum.untyped := by
  have hvalues : (valuesFor k kvs').Perm (valuesFor k kvs) := (hperm.filter _).map _
  have hnone : ∀ kvs, (swept kvs).get? k = none ↔ valuesFor k kvs = [] := fun _ => get?_tallied_eq_none
  cases ha : (swept kvs').get? k with
  | none =>
      have hnil := (hnone kvs').mp ha
      rw [hnil] at hvalues
      rw [(hnone kvs).mpr hvalues.symm.eq_nil]
  | some a =>
      cases hb : (swept kvs).get? k with
      | none =>
          rw [(hnone kvs).mp hb] at hvalues
          rw [(hnone kvs').mpr hvalues.eq_nil] at ha
          cases ha
      | some b =>
          have hspans := (swept_spans ha).perm hvalues
          exact congrArg some (untyped_unique hkvs hspans (swept_spans hb))

theorem sortKey_inj {s t : WeakSignal} (h : sortKey s = sortKey t) : keyOf s = keyOf t := by
  have hkinds : ∀ p q : WeakSignalKind, p.value = q.value → p = q := by
    intro p q
    cases p <;> cases q <;> decide
  obtain ⟨hkind, hvalue⟩ := Prod.mk.inj (toLex_inj.mp h)
  exact Prod.ext (hkinds _ _ hkind) hvalue

theorem render_untyped {acc : OrderedDict Key Accum} :
    (render T acc).map aggregate = render T (acc.mapVal Accum.untyped) := by
  have hsort : ((acc.entries.map (signal T)).mergeSort fun s t => sortKey s ≤ sortKey t).map aggregate =
      ((acc.entries.map (signal T)).map aggregate).mergeSort fun s t => sortKey s ≤ sortKey t :=
    List.map_mergeSort fun _ _ _ _ => rfl
  rw [render, hsort, List.map_map, render]
  congr 1
  simp [mapVal, Function.comp_def, signal, aggregate, Accum.untyped]

-- What is sorted by its key alone comes in one order.
theorem render_perm {acc acc' : OrderedDict Key Accum} (h : ∀ k, acc.get? k = acc'.get? k) :
    render T acc = render T acc' := by
  have hentries := perm_of_get? h
  have hsorted : ∀ l : List WeakSignal,
      (l.mergeSort fun s t => sortKey s ≤ sortKey t).Pairwise fun s t => sortKey s ≤ sortKey t := by
    intro l
    have htrans : ∀ s t u : WeakSignal, decide (sortKey s ≤ sortKey t) = true →
        decide (sortKey t ≤ sortKey u) = true → decide (sortKey s ≤ sortKey u) = true :=
      fun s t u hst htu => decide_eq_true ((of_decide_eq_true hst).trans (of_decide_eq_true htu))
    have htotal : ∀ s t : WeakSignal,
        (decide (sortKey s ≤ sortKey t) || decide (sortKey t ≤ sortKey s)) = true := by
      intro s t
      simpa using le_total (sortKey s) (sortKey t)
    exact (List.pairwise_mergeSort htrans htotal l).imp fun hle => of_decide_eq_true hle
  apply List.Perm.eq_of_pairwise _ (hsorted _) (hsorted _)
  · exact ((List.mergeSort_perm _ _).trans (hentries.map _)).trans (List.mergeSort_perm _ _).symm
  · intro s t hs ht hst hts
    obtain ⟨k, a, ha, rfl⟩ := mem_render.mp hs
    obtain ⟨j, b, hb, rfl⟩ := mem_render.mp ht
    have hkey : k = j := sortKey_inj (le_antisymm hst hts)
    subst hkey
    rw [h k, hb] at ha
    cases ha
    rfl

theorem extract_perm (hperm : records'.Perm records) :
    (extract T minLen records').map (List.map aggregate) =
      (extract T minLen records).map (List.map aggregate) := by
  have hsightings : (allSightings T minLen records').Perm (allSightings T minLen records) :=
    hperm.flatMap_right _
  by_cases hkvs : Comparable (allSightings T minLen records)
  · rw [extract_some_iff.mpr ⟨hkvs, rfl⟩, extract_some_iff.mpr ⟨hkvs.perm hsightings, rfl⟩]
    simp only [Option.map_some, Option.some.injEq, render_untyped]
    apply render_perm
    intro k
    rw [get?_mapVal, get?_mapVal, swept_perm hkvs hsightings]
  · have hnone : ∀ rs, ¬Comparable (allSightings T minLen rs) → extract T minLen rs = none := by
      intro rs h
      cases hextract : extract T minLen rs with
      | none => rfl
      | some signals => exact absurd (extract_some_iff.mp hextract).1 h
    rw [hnone records hkvs, hnone records' fun h => hkvs (h.perm hsightings.symm)]

end Orders

theorem aggregates_order_free (T : CharTable) (minLen : ℤ) (records : List ClosedInvestigationRecord) :
    (∀ signals ∈ extract T minLen records, Aggregated T minLen records signals) ∧
      ((extract T minLen records).isSome ↔ Comparable (allSightings T minLen records)) ∧
      ∀ records', records'.Perm records → (extract T minLen records').map (List.map aggregate) =
        (extract T minLen records).map (List.map aggregate) := by
  refine ⟨?_, ?_, fun records' => extract_perm⟩
  · intro signals h
    rw [(extract_some_iff.mp h).2]
    exact aggregated_render
  · rw [Option.isSome_iff_exists]
    constructor
    · rintro ⟨signals, h⟩
      exact (extract_some_iff.mp h).1
    · intro h
      exact ⟨_, extract_some_iff.mpr ⟨h, rfl⟩⟩

end WeakSignalExtractor

end BTagent
