import BTagent.Data.Timestamp
import BTagent.Lib.OrderedDict
import Mathlib.Data.Finset.Sort
import Mathlib.Data.Prod.Lex
import Mathlib.Data.String.Basic
import Mathlib.Order.Bounds.Basic

namespace BTagent

-- A stored verdict, as far as the map reads it.
structure VerdictPayload where
  techniqueId : Option String
  verdict : Option String
  deriving DecidableEq

structure ValidationRunRow where
  orgId : String
  verdicts : List VerdictPayload
  coverageByTechnique : List (Option String)
  generatedAt : Moment
  deriving DecidableEq

structure ProposalTechniques where
  orgId : String
  techniqueIds : List String
  deriving DecidableEq

-- The tables of the map, each in the order in which an unordered query returns its rows.
structure CoverageDb where
  runs : List ValidationRunRow
  proposals : List ProposalTechniques
  techniques : OrderedDict String String

structure CoverageMapEntry where
  techniqueId : String
  name : Option String
  lastValidated : Option ℤ
  lastVerdict : Option String
  daysSinceValidated : Option ℤ
  stale : Bool
  hasDetection : Bool
  deriving DecidableEq

namespace CoverageMap
open OrderedDict

def DEFAULT_STALE_DAYS : ℤ := 90

def microsecondsPerDay : ℤ := 86400000000

def errored : String := "errored"

-- The technique of a payload, where it has one.
def technique (techniqueId : Option String) : Option String := techniqueId.filter (· ≠ "")

def validatedTechniquesInRun (row : ValidationRunRow) : OrderedDict String (Option String) :=
  if row.verdicts ≠ [] then
    empty.update (row.verdicts.filterMap fun v =>
      if v.verdict = some errored then none else (technique v.techniqueId).map (·, v.verdict))
  else
    empty.update (row.coverageByTechnique.filterMap fun c => (technique c).map (·, none))

structure LastSeen where
  lastValidated : OrderedDict String ℤ
  lastVerdict : OrderedDict String (Option String)

def LastSeen.stamp (acc : LastSeen) (genAt : ℤ) (tv : String × Option String) : LastSeen :=
  let set : LastSeen := ⟨acc.lastValidated.set tv.1 genAt, acc.lastVerdict.set tv.1 tv.2⟩
  match acc.lastValidated.get? tv.1 with
  | none => set
  | some prev => if prev < genAt then set else acc

def addRun (acc : LastSeen) (row : ValidationRunRow) : LastSeen :=
  (validatedTechniquesInRun row).entries.foldl
    (fun acc tv => acc.stamp row.generatedAt.toAware.time tv) acc

def lastSeen (runs : List ValidationRunRow) : LastSeen := runs.foldl addRun ⟨empty, empty⟩

-- A set is listed in some order.
structure Listing where
  list : Finset String → List String
  nodup : ∀ s, (list s).Nodup
  mem : ∀ s x, x ∈ list s ↔ x ∈ s

def Listing.sorted : Listing where
  list s := s.sort
  nodup s := s.sort_nodup _
  mem s x := s.mem_sort _

-- The arguments of a call; `timestamp` stands for the float of a time.
structure MapRequest (τ : Type) where
  orgId : String
  staleDays : ℤ
  onlyStale : Bool
  now : ℤ
  timestamp : ℤ → τ

variable {τ : Type} [LinearOrder τ] (req : MapRequest τ)

def orgRuns (db : CoverageDb) : List ValidationRunRow := db.runs.filter (·.orgId = req.orgId)

def techniquesWithDetection (db : CoverageDb) : Finset String :=
  ((db.proposals.filter (·.orgId = req.orgId)).flatMap (·.techniqueIds)).toFinset

def universe_ (db : CoverageDb) : Finset String :=
  techniquesWithDetection req db ∪ (lastSeen (orgRuns req db)).lastValidated.keys.toFinset

def daysSince (validatedAt : ℤ) : ℤ := (req.now - validatedAt) / microsecondsPerDay

def entry (db : CoverageDb) (tech : String) : CoverageMapEntry :=
  let seen := lastSeen (orgRuns req db)
  let validatedAt := seen.lastValidated.get? tech
  { techniqueId := tech
    name := (db.techniques.filterKeys (· ∈ universe_ req db)).get? tech
    lastValidated := validatedAt
    lastVerdict := (seen.lastVerdict.get? tech).join
    daysSinceValidated := validatedAt.map (daysSince req)
    stale := validatedAt.all fun at_ => req.staleDays < daysSince req at_
    hasDetection := tech ∈ techniquesWithDetection req db }

-- The timestamp of a technique that was never validated is 0.
def sortKey (e : CoverageMapEntry) : ℕ ×ₗ τ ×ₗ String :=
  toLex (if e.stale then 0 else 1, toLex (req.timestamp (e.lastValidated.getD 0), e.techniqueId))

def buildCoverageMap (listing : Listing) (db : CoverageDb) : List CoverageMapEntry :=
  let entries := ((listing.list (universe_ req db)).map (entry req db)).filter
    fun e => !req.onlyStale || e.stale
  entries.mergeSort fun a b => sortKey req a ≤ sortKey req b

end CoverageMap

namespace CoverageMap
open OrderedDict

variable {runs runs' : List ValidationRunRow} {row : ValidationRunRow} {t : String} {g g' : ℤ}
  {v w : Option String} {acc : LastSeen} {d : OrderedDict String (ℤ × Option String)}

section Runs

-- What the runs say of their techniques, in the order in which they are read.
def scorings (runs : List ValidationRunRow) : List (String × (ℤ × Option String)) :=
  runs.flatMap fun row =>
    (validatedTechniquesInRun row).entries.map fun tv => (tv.1, (row.generatedAt.toAware.time, tv.2))

def later (a b : ℤ × Option String) : ℤ × Option String := if a.1 < b.1 then b else a

def newest (runs : List ValidationRunRow) : OrderedDict String (ℤ × Option String) :=
  (scorings runs).foldl (tally (fun _ b => b) later) .empty

-- The two dictionaries hold the times and the verdicts of one.
structure Paired (acc : LastSeen) (d : OrderedDict String (ℤ × Option String)) : Prop where
  time : ∀ t, acc.lastValidated.get? t = (d.get? t).map Prod.fst
  verdict : ∀ t, acc.lastVerdict.get? t = (d.get? t).map Prod.snd

theorem later_self (a : ℤ × Option String) : later a a = a := if_neg (lt_irrefl _)

theorem Paired.stamp (h : Paired acc d) :
    Paired (acc.stamp g (t, v)) (tally (fun _ b => b) later d (t, (g, v))) := by
  have hset : Paired ⟨acc.lastValidated.set t g, acc.lastVerdict.set t v⟩ (d.set t (g, v)) := by
    constructor
    · intro j
      rw [get?_set, get?_set, h.time]
      split <;> rfl
    · intro j
      rw [get?_set, get?_set, h.verdict]
      split <;> rfl
  rw [LastSeen.stamp, tally]
  dsimp only
  rw [h.time]
  cases hget : d.get? t with
  | none =>
      rw [Option.getD_none, later_self]
      exact hset
  | some a =>
      rw [Option.map_some, Option.getD_some, later]
      dsimp only
      split
      · exact hset
      · have hsame : ∀ j, (d.set t a).get? j = d.get? j := by
          intro j
          rw [get?_set]
          split
          · next heq => rw [heq, hget]
          · rfl
        constructor
        · intro j
          rw [hsame, h.time]
        · intro j
          rw [hsame, h.verdict]

theorem Paired.stamps {tvs : List (String × Option String)} (h : Paired acc d) :
    Paired (tvs.foldl (fun acc tv => acc.stamp g tv) acc)
      ((tvs.map fun tv => (tv.1, (g, tv.2))).foldl (tally (fun _ b => b) later) d) := by
  induction tvs generalizing acc d with
  | nil => exact h
  | cons tv tvs ih => exact ih h.stamp

theorem Paired.addRuns (h : Paired acc d) : Paired (runs.foldl addRun acc)
    ((scorings runs).foldl (tally (fun _ b => b) later) d) := by
  induction runs generalizing acc d with
  | nil => exact h
  | cons row runs ih =>
      rw [scorings, List.flatMap_cons, List.foldl_append]
      exact ih h.stamps

theorem lastSeen_newest : Paired (lastSeen runs) (newest runs) :=
  Paired.addRuns ⟨fun _ => rfl, fun _ => rfl⟩

-- The run gave the technique that verdict at that time.
def ScoredAt (runs : List ValidationRunRow) (t : String) (g : ℤ) (v : Option String) : Prop :=
  ∃ row ∈ runs, row.generatedAt.toAware.time = g ∧ (t, v) ∈ (validatedTechniquesInRun row).entries

structure Newest (runs : List ValidationRunRow) (t : String) (g : ℤ) (v : Option String) : Prop where
  scored : ScoredAt runs t g v
  newest : ∀ g' w, ScoredAt runs t g' w → g' ≤ g

theorem mem_scorings : (g, v) ∈ valuesFor t (scorings runs) ↔ ScoredAt runs t g v := by
  rw [mem_valuesFor, scorings, List.mem_flatMap]
  constructor
  · rintro ⟨row, hrow, hmem⟩
    obtain ⟨⟨t, v⟩, htv, heq⟩ := List.mem_map.mp hmem
    obtain ⟨rfl, hpair⟩ := Prod.mk.inj heq
    obtain ⟨rfl, rfl⟩ := Prod.mk.inj hpair
    exact ⟨row, hrow, rfl, htv⟩
  · rintro ⟨row, hrow, rfl, htv⟩
    exact ⟨row, hrow, List.mem_map.mpr ⟨(t, v), htv, rfl⟩⟩

theorem newest_none : (newest runs).get? t = none ↔ ∀ g v, ¬ScoredAt runs t g v := by
  have hnone : (newest runs).get? t = none ↔ valuesFor t (scorings runs) = [] := get?_tallied_eq_none
  rw [hnone, List.eq_nil_iff_forall_not_mem]
  constructor
  · intro h g v hscored
    exact h (g, v) (mem_scorings.mpr hscored)
  · rintro h ⟨g, v⟩ hmem
    exact h g v (mem_scorings.mp hmem)

theorem newest_some (h : (newest runs).get? t = some (g, v)) : Newest runs t g v := by
  have hinvariant : (g, v) ∈ valuesFor t (scorings runs) ∧
      ∀ b ∈ valuesFor t (scorings runs), b.1 ≤ (g, v).1 := by
    refine tallied_invariant (P := fun seen a => a ∈ seen ∧ ∀ b ∈ seen, b.1 ≤ a.1) ?_ ?_ h
    · intro b
      simp [later_self]
    · rintro seen a b ⟨hmem, hle⟩
      rw [later]
      split
      · next hlt =>
          refine ⟨by simp, ?_⟩
          intro c hc
          rcases List.mem_append.mp hc with hc | hc
          · exact (hle c hc).trans hlt.le
          · rw [List.mem_singleton.mp hc]
      · next hnot =>
          refine ⟨List.mem_append_left _ hmem, ?_⟩
          intro c hc
          rcases List.mem_append.mp hc with hc | hc
          · exact hle c hc
          · rw [List.mem_singleton.mp hc]
            exact not_lt.mp hnot
  exact ⟨mem_scorings.mp hinvariant.1, fun g' w hscored => hinvariant.2 (g', w) (mem_scorings.mpr hscored)⟩

theorem foldl_later {a : ℤ × Option String} {bs : List (ℤ × Option String)}
    (h : ∀ b ∈ bs, b.1 ≤ a.1) : bs.foldl later a = a := by
  induction bs with
  | nil => rfl
  | cons b bs ih =>
      have hkeep : later a b = a := if_neg (not_lt.mpr (h b List.mem_cons_self))
      rw [List.foldl_cons, hkeep]
      exact ih fun c hc => h c (List.mem_cons_of_mem b hc)

-- Among the newest scorings of a technique the first one read stays.
theorem newest_first (hrow : (t, v) ∈ (validatedTechniquesInRun row).entries)
    (hnewest : ∀ g' w, ScoredAt (row :: runs) t g' w → g' ≤ row.generatedAt.toAware.time) :
    (newest (row :: runs)).get? t = some (row.generatedAt.toAware.time, v) := by
  have hvalues : ∃ bs, valuesFor t (scorings (row :: runs)) =
      (row.generatedAt.toAware.time, v) :: bs := by
    have hown : (row.generatedAt.toAware.time, v) ∈ valuesFor t (scorings [row]) :=
      mem_scorings.mpr ⟨row, by simp, rfl, hrow⟩
    have happend : valuesFor t (scorings (row :: runs)) =
        valuesFor t (scorings [row]) ++ valuesFor t (scorings runs) := by
      simp [valuesFor, scorings]
    cases hfirst : valuesFor t (scorings [row]) with
    | nil =>
        rw [hfirst] at hown
        cases hown
    | cons b bs =>
        have hb : b ∈ valuesFor t (scorings [row]) := by
          rw [hfirst]
          exact List.mem_cons_self
        obtain ⟨row', hrow', htime, hentry⟩ := mem_scorings.mp hb
        obtain rfl := List.mem_singleton.mp hrow'
        have hv : b.2 = v := by
          have hget := (mem_entries_iff.mp hentry).symm.trans (mem_entries_iff.mp hrow)
          exact Option.some.inj hget
        refine ⟨bs ++ valuesFor t (scorings runs), ?_⟩
        rw [happend, hfirst, htime, ← hv]
        rfl
  obtain ⟨bs, hbs⟩ := hvalues
  rw [newest, get?_foldl_tally, get?_empty, hbs, List.foldl_cons, accumulate, foldl_accumulate_some,
    Option.getD_none, later_self]
  refine congrArg some (foldl_later ?_)
  rintro ⟨g', w⟩ hmem
  apply hnewest g' w
  rw [← mem_scorings, hbs]
  exact List.mem_cons_of_mem _ hmem

theorem ScoredAt.perm (h : ScoredAt runs t g v) (hperm : runs.Perm runs') : ScoredAt runs' t g v := by
  obtain ⟨row, hrow, htime, hentry⟩ := h
  exact ⟨row, hperm.mem_iff.mp hrow, htime, hentry⟩

theorem Newest.perm (h : Newest runs t g v) (hperm : runs.Perm runs') : Newest runs' t g v :=
  ⟨h.scored.perm hperm, fun g' w hscored => h.newest g' w (hscored.perm hperm.symm)⟩

-- A newest scoring is the one that stays in some order of the runs.
theorem newest_reachable (h : Newest runs t g v) :
    ∃ runs', runs'.Perm runs ∧ (newest runs').get? t = some (g, v) := by
  obtain ⟨row, hrow, rfl, hentry⟩ := h.scored
  obtain ⟨pre, post, rfl⟩ := List.append_of_mem hrow
  refine ⟨row :: (pre ++ post), List.perm_middle.symm, newest_first hentry ?_⟩
  intro g' w hscored
  exact h.newest g' w (hscored.perm List.perm_middle.symm)

end Runs

section Exercised

-- The run scored the technique without error, or replayed it.
def Exercised (row : ValidationRunRow) (t : String) : Prop :=
  t ≠ "" ∧ ((∃ p ∈ row.verdicts, p.techniqueId = some t ∧ p.verdict ≠ some errored) ∨
    (row.verdicts = [] ∧ some t ∈ row.coverageByTechnique))

theorem technique_eq_some {o : Option String} : technique o = some t ↔ o = some t ∧ t ≠ "" := by
  simp [technique, Option.filter_eq_some_iff]

theorem mem_validated : t ∈ (validatedTechniquesInRun row).keys ↔ Exercised row t := by
  rw [validatedTechniquesInRun]
  split
  · next hverdicts =>
      rw [mem_keys_update]
      simp only [keys_empty, List.not_mem_nil, false_or, List.mem_map, List.mem_filterMap]
      constructor
      · rintro ⟨⟨t, v⟩, ⟨p, hp, hsome⟩, rfl⟩
        split at hsome
        · cases hsome
        · next hscored =>
            obtain ⟨u, hu, heq⟩ := Option.map_eq_some_iff.mp hsome
            obtain ⟨rfl, -⟩ := Prod.mk.inj heq
            obtain ⟨htech, hne⟩ := technique_eq_some.mp hu
            exact ⟨hne, Or.inl ⟨p, hp, htech, hscored⟩⟩
      · rintro ⟨hne, ⟨p, hp, htech, hscored⟩ | ⟨hnil, -⟩⟩
        · refine ⟨(t, p.verdict), ⟨p, hp, ?_⟩, rfl⟩
          rw [if_neg hscored, technique_eq_some.mpr ⟨htech, hne⟩]
          rfl
        · exact absurd hnil hverdicts
  · next hverdicts =>
      rw [not_not] at hverdicts
      rw [mem_keys_update]
      simp only [keys_empty, List.not_mem_nil, false_or, List.mem_map, List.mem_filterMap]
      constructor
      · rintro ⟨⟨t, v⟩, ⟨c, hc, hsome⟩, rfl⟩
        obtain ⟨u, hu, heq⟩ := Option.map_eq_some_iff.mp hsome
        obtain ⟨rfl, -⟩ := Prod.mk.inj heq
        obtain ⟨rfl, hne⟩ := technique_eq_some.mp hu
        exact ⟨hne, Or.inr ⟨hverdicts, hc⟩⟩
      · rintro ⟨hne, ⟨p, hp, -⟩ | ⟨-, hc⟩⟩
        · rw [hverdicts] at hp
          cases hp
        · exact ⟨(t, none), ⟨some t, hc, by rw [technique_eq_some.mpr ⟨rfl, hne⟩]; rfl⟩, rfl⟩

theorem scoredAt_exercised : (∃ v, ScoredAt runs t g v) ↔
    ∃ row ∈ runs, row.generatedAt.toAware.time = g ∧ Exercised row t := by
  constructor
  · rintro ⟨v, row, hrow, htime, hentry⟩
    exact ⟨row, hrow, htime, mem_validated.mp (List.mem_map_of_mem hentry)⟩
  · rintro ⟨row, hrow, htime, hexercised⟩
    obtain ⟨⟨t, v⟩, hentry, rfl⟩ := List.mem_map.mp (mem_validated.mpr hexercised)
    exact ⟨v, row, hrow, htime, hentry⟩

end Exercised

section Entries

variable {τ : Type} {req : MapRequest τ} {db db' : CoverageDb} {listing listing' : Listing}
  {e : CoverageMapEntry}

structure SameRows (db db' : CoverageDb) : Prop where
  runs : db.runs.Perm db'.runs
  proposals : db.proposals.Perm db'.proposals
  techniques : db.techniques.entries.Perm db'.techniques.entries

theorem orgRuns_perm (h : SameRows db db') : (orgRuns req db).Perm (orgRuns req db') :=
  h.runs.filter _

theorem lastValidated_eq : (lastSeen runs).lastValidated.get? t = some g ↔
    ∃ v, (newest runs).get? t = some (g, v) := by
  rw [lastSeen_newest.time]
  simp

theorem lastValidated_none : (lastSeen runs).lastValidated.get? t = none ↔
    ∀ g v, ¬ScoredAt runs t g v := by
  rw [lastSeen_newest.time, Option.map_eq_none_iff, newest_none]

theorem lastValidated_greatest (h : (lastSeen runs).lastValidated.get? t = some g) :
    (∃ v, ScoredAt runs t g v) ∧ ∀ g' v, ScoredAt runs t g' v → g' ≤ g := by
  obtain ⟨v, hv⟩ := lastValidated_eq.mp h
  exact ⟨⟨v, (newest_some hv).scored⟩, (newest_some hv).newest⟩

theorem lastValidated_perm (h : runs.Perm runs') :
    (lastSeen runs).lastValidated.get? t = (lastSeen runs').lastValidated.get? t := by
  cases hfirst : (lastSeen runs).lastValidated.get? t with
  | none =>
      rw [lastValidated_none] at hfirst
      symm
      rw [lastValidated_none]
      exact fun g v hscored => hfirst g v (hscored.perm h.symm)
  | some g =>
      obtain ⟨⟨v, hv⟩, hle⟩ := lastValidated_greatest hfirst
      cases hsecond : (lastSeen runs').lastValidated.get? t with
      | none => exact absurd (hv.perm h) (lastValidated_none.mp hsecond g v)
      | some g' =>
          obtain ⟨⟨v', hv'⟩, hle'⟩ := lastValidated_greatest hsecond
          exact congrArg some (le_antisymm (hle' g v (hv.perm h)) (hle g' v' (hv'.perm h.symm)))

theorem mem_universe : t ∈ universe_ req db ↔
    t ∈ techniquesWithDetection req db ∨ ∃ row ∈ orgRuns req db, Exercised row t := by
  rw [universe_, Finset.mem_union, List.mem_toFinset, ← get?_isSome, Option.isSome_iff_exists]
  refine or_congr Iff.rfl ?_
  constructor
  · rintro ⟨g, hg⟩
    obtain ⟨row, hrow, -, hexercised⟩ := scoredAt_exercised.mp (lastValidated_greatest hg).1
    exact ⟨row, hrow, hexercised⟩
  · rintro ⟨row, hrow, hexercised⟩
    obtain ⟨v, hscored⟩ := scoredAt_exercised.mpr ⟨row, hrow, rfl, hexercised⟩
    cases hget : (lastSeen (orgRuns req db)).lastValidated.get? t with
    | none => exact absurd hscored (lastValidated_none.mp hget _ v)
    | some g => exact ⟨g, rfl⟩

theorem detection_perm (h : SameRows db db') :
    techniquesWithDetection req db = techniquesWithDetection req db' := by
  ext t
  have hperm := ((h.proposals.filter (·.orgId = req.orgId)).flatMap_right (·.techniqueIds))
  simp only [techniquesWithDetection, List.mem_toFinset, hperm.mem_iff]

theorem universe_perm (h : SameRows db db') : universe_ req db = universe_ req db' := by
  ext t
  rw [mem_universe, mem_universe, detection_perm h]
  simp only [(orgRuns_perm h).mem_iff]

-- Whether the map shows the technique.
def shown (req : MapRequest τ) (db : CoverageDb) (t : String) : Bool :=
  !req.onlyStale || (entry req db t).stale

theorem stale_perm (h : SameRows db db') : (entry req db t).stale = (entry req db' t).stale := by
  rw [entry, entry]
  dsimp only
  rw [lastValidated_perm (orgRuns_perm h)]

-- Apart from the verdict, an entry depends on the set of the rows alone.
theorem entry_perm (h : SameRows db db')
    (hverdict : (entry req db t).lastVerdict = (entry req db' t).lastVerdict) :
    entry req db t = entry req db' t := by
  have hname : db.techniques.get? t = db'.techniques.get? t :=
    find_perm db.techniques.nodup h.techniques
  have hruns : (orgRuns req db).Perm (orgRuns req db') := orgRuns_perm h
  have hvalidated : (lastSeen (orgRuns req db)).lastValidated.get? t =
      (lastSeen (orgRuns req db')).lastValidated.get? t := lastValidated_perm hruns
  simp only [entry, get?_filterKeys, hname, hvalidated, universe_perm h, detection_perm h] at hverdict ⊢
  rw [hverdict]

theorem techniqueId_of_sortKey {a b : CoverageMapEntry} (h : sortKey req a = sortKey req b) :
    a.techniqueId = b.techniqueId := by
  have hinner := (Prod.mk.inj (toLex_inj.mp h)).2
  exact (Prod.mk.inj (toLex_inj.mp hinner)).2

variable [LinearOrder τ]

theorem mem_build : e ∈ buildCoverageMap req listing db ↔
    ∃ t ∈ universe_ req db, shown req db t = true ∧ entry req db t = e := by
  rw [buildCoverageMap, (List.mergeSort_perm _ _).mem_iff, List.mem_filter, List.mem_map]
  constructor
  · rintro ⟨⟨t, ht, rfl⟩, hshown⟩
    exact ⟨t, (listing.mem _ t).mp ht, hshown, rfl⟩
  · rintro ⟨t, ht, hshown, rfl⟩
    exact ⟨⟨t, (listing.mem _ t).mpr ht, rfl⟩, hshown⟩

theorem build_nodup : ((buildCoverageMap req listing db).map (·.techniqueId)).Nodup := by
  have hperm : ((buildCoverageMap req listing db).map (·.techniqueId)).Perm
      (((listing.list (universe_ req db)).filter (shown req db)).map id) := by
    refine ((List.mergeSort_perm _ _).map _).trans ?_
    rw [List.filter_map, List.map_map]
    exact List.Perm.refl _
  rw [hperm.nodup_iff, List.map_id]
  exact (listing.nodup _).filter _

theorem build_sorted :
    (buildCoverageMap req listing db).Pairwise fun a b => sortKey req a ≤ sortKey req b := by
  have htrans : ∀ a b c : CoverageMapEntry, decide (sortKey req a ≤ sortKey req b) = true →
      decide (sortKey req b ≤ sortKey req c) = true → decide (sortKey req a ≤ sortKey req c) = true :=
    fun a b c hab hbc => decide_eq_true ((of_decide_eq_true hab).trans (of_decide_eq_true hbc))
  have htotal : ∀ a b : CoverageMapEntry,
      (decide (sortKey req a ≤ sortKey req b) || decide (sortKey req b ≤ sortKey req a)) = true := by
    intro a b
    simpa using le_total (sortKey req a) (sortKey req b)
  exact (List.pairwise_mergeSort htrans htotal _).imp fun hle => of_decide_eq_true hle

end Entries

section Orders

variable {τ : Type} {req : MapRequest τ} {db db' : CoverageDb} {listing listing' : Listing}

-- The newest runs that scored a technique agree on its verdict.
def Undisputed (runs : List ValidationRunRow) (t : String) : Prop :=
  ∀ g v w, Newest runs t g v → Newest runs t g w → v = w

-- Whether a map that may be asked for the stale techniques alone lists the technique.
def Listed (req : MapRequest τ) (db : CoverageDb) (t : String) : Prop :=
  req.onlyStale = true → ∀ g v, Newest (orgRuns req db) t g v → req.staleDays < daysSince req g

theorem shown_iff {t : String} : shown req db t = true ↔ Listed req db t := by
  rw [shown, entry, Bool.or_eq_true, Bool.not_eq_true', Listed]
  dsimp only
  cases hstale : req.onlyStale with
  | false => simp
  | true =>
      simp only [Bool.true_eq_false, false_or, true_implies]
      cases hget : (lastSeen (orgRuns req db)).lastValidated.get? t with
      | none =>
          have hnone := lastValidated_none.mp hget
          simp only [Option.all_none, true_iff]
          exact fun g v hnewest => absurd hnewest.scored (hnone g v)
      | some g =>
          obtain ⟨⟨v, hv⟩, hle⟩ := lastValidated_greatest hget
          simp only [Option.all_some, decide_eq_true_eq]
          constructor
          · intro hlt g' v' hnewest
            rwa [le_antisymm (hle g' v' hnewest.scored) (hnewest.newest g v hv)]
          · exact fun hall => hall g v ⟨hv, hle⟩

theorem verdict_eq {t : String} (hundisputed : Undisputed (orgRuns req db) t) (h : SameRows db db') :
    (entry req db t).lastVerdict = (entry req db' t).lastVerdict := by
  rw [entry, entry]
  dsimp only
  rw [lastSeen_newest.verdict, lastSeen_newest.verdict]
  have hperm : (orgRuns req db).Perm (orgRuns req db') := orgRuns_perm h
  cases hfirst : (newest (orgRuns req db)).get? t with
  | none =>
      have hnone := newest_none.mp hfirst
      rw [newest_none.mpr fun g v hscored => hnone g v (hscored.perm hperm.symm)]
  | some a =>
      obtain ⟨g, v⟩ := a
      have hv := newest_some hfirst
      cases hsecond : (newest (orgRuns req db')).get? t with
      | none => exact absurd (hv.scored.perm hperm) (newest_none.mp hsecond g v)
      | some b =>
          obtain ⟨g', w⟩ := b
          have hw := (newest_some hsecond).perm hperm.symm
          obtain rfl := le_antisymm (hv.newest g' w hw.scored) (hw.newest g v hv.scored)
          rw [hundisputed g' v w hv hw]

theorem exercised_of_scoredAt {runs : List ValidationRunRow} {t : String} {g : ℤ} {v : Option String}
    (h : ScoredAt runs t g v) : ∃ row ∈ runs, Exercised row t := by
  obtain ⟨row, hrow, -, hexercised⟩ := scoredAt_exercised.mp ⟨v, h⟩
  exact ⟨row, hrow, hexercised⟩

-- The runs of an organisation come in any order.
theorem reorder {runs' : List ValidationRunRow} (h : runs'.Perm (orgRuns req db)) :
    ∃ db', SameRows db db' ∧ orgRuns req db' = runs' := by
  refine ⟨{ db with runs := runs' ++ db.runs.filter fun r => !(decide (r.orgId = req.orgId)) },
    ⟨?_, List.Perm.refl _, List.Perm.refl _⟩, ?_⟩
  · have hsplit := List.filter_append_perm (fun r => decide (r.orgId = req.orgId)) db.runs
    exact hsplit.symm.trans (h.symm.append_right _)
  · have hall : ∀ r ∈ runs', r.orgId = req.orgId := by
      intro r hr
      exact of_decide_eq_true (List.mem_filter.mp (h.mem_iff.mp hr)).2
    rw [orgRuns, List.filter_append, List.filter_eq_self.mpr fun r hr => decide_eq_true (hall r hr)]
    simp

variable [LinearOrder τ]

structure FunctionOfRuns (req : MapRequest τ) (db : CoverageDb) : Prop where
  orderFree : ∀ listing listing' db', SameRows db db' →
    buildCoverageMap req listing' db' = buildCoverageMap req listing db
  greatest : ∀ listing, ∀ e ∈ buildCoverageMap req listing db, ∀ g, e.lastValidated = some g →
    IsGreatest {at_ | ∃ row ∈ orgRuns req db, row.generatedAt.toAware.time = at_ ∧
      Exercised row e.techniqueId} g
  never : ∀ listing, ∀ e ∈ buildCoverageMap req listing db, e.lastValidated = none →
    ∀ row ∈ orgRuns req db, ¬Exercised row e.techniqueId
  once : ∀ listing, ((buildCoverageMap req listing db).map (·.techniqueId)).Nodup
  techniques : ∀ listing t, t ∈ (buildCoverageMap req listing db).map (·.techniqueId) ↔
    (t ∈ techniquesWithDetection req db ∨ ∃ row ∈ orgRuns req db, Exercised row t) ∧ Listed req db t

theorem build_perm (hundisputed : ∀ t, Listed req db t → Undisputed (orgRuns req db) t)
    (h : SameRows db db') : buildCoverageMap req listing' db' = buildCoverageMap req listing db := by
  have hshown : ∀ t, shown req db t = shown req db' t := by
    intro t
    rw [shown, shown, stale_perm h]
  have hentry : ∀ t, shown req db t = true → entry req db t = entry req db' t :=
    fun t ht => entry_perm h (verdict_eq (hundisputed t (shown_iff.mp ht)) h)
  have hmem : ∀ e, e ∈ buildCoverageMap req listing' db' ↔ e ∈ buildCoverageMap req listing db := by
    intro e
    rw [mem_build, mem_build, universe_perm h]
    refine exists_congr fun t => and_congr_right fun _ => ?_
    rw [← hshown]
    exact and_congr_right fun ht => by rw [hentry t ht]
  have hperm : (buildCoverageMap req listing' db').Perm (buildCoverageMap req listing db) :=
    (List.perm_ext_iff_of_nodup (List.Nodup.of_map _ build_nodup)
      (List.Nodup.of_map _ build_nodup)).mpr hmem
  refine List.Perm.eq_of_pairwise ?_ build_sorted build_sorted hperm
  intro a b ha hb hab hba
  have hid := techniqueId_of_sortKey (le_antisymm hab hba)
  obtain ⟨t, -, -, rfl⟩ := mem_build.mp ((hmem a).mp ha)
  obtain ⟨u, -, -, rfl⟩ := mem_build.mp hb
  have htu : t = u := hid
  rw [htu]

-- In some order of the runs the map shows the verdict of a newest run.
theorem verdict_reachable {t : String} {g : ℤ} {v : Option String} (listing : Listing) (ht : Listed req db t)
    (h : Newest (orgRuns req db) t g v) :
    ∃ db', SameRows db db' ∧ ∃ e ∈ buildCoverageMap req listing db', e.techniqueId = t ∧
      e.lastVerdict = v := by
  obtain ⟨runs', hperm, hget⟩ := newest_reachable h
  obtain ⟨db', hsame, horg⟩ := reorder hperm
  have hshown : shown req db' t = true := by
    rw [shown, ← stale_perm hsame]
    exact shown_iff.mpr ht
  have huniverse : t ∈ universe_ req db' := by
    rw [← universe_perm hsame]
    exact mem_universe.mpr (Or.inr (exercised_of_scoredAt h.scored))
  refine ⟨db', hsame, entry req db' t, mem_build.mpr ⟨t, huniverse, hshown, rfl⟩, rfl, ?_⟩
  rw [entry]
  dsimp only
  rw [lastSeen_newest.verdict, horg, hget]
  rfl

theorem functionOfRuns_iff : FunctionOfRuns req db ↔
    ∀ t, Listed req db t → Undisputed (orgRuns req db) t := by
  constructor
  · intro h t ht g v w hv hw
    obtain ⟨db₁, hdb₁, e₁, he₁, hid₁, rfl⟩ := verdict_reachable .sorted ht hv
    obtain ⟨db₂, hdb₂, e₂, he₂, hid₂, rfl⟩ := verdict_reachable .sorted ht hw
    rw [h.orderFree .sorted .sorted db₁ hdb₁] at he₁
    rw [h.orderFree .sorted .sorted db₂ hdb₂] at he₂
    obtain ⟨t₁, -, -, rfl⟩ := mem_build.mp he₁
    obtain ⟨t₂, -, -, rfl⟩ := mem_build.mp he₂
    have hsame : t₁ = t₂ := hid₁.trans hid₂.symm
    rw [hsame]
  · intro hundisputed
    refine ⟨fun listing listing' db' h => build_perm hundisputed h, ?_, ?_, fun _ => build_nodup, ?_⟩
    · intro listing e he g hg
      obtain ⟨t, -, -, rfl⟩ := mem_build.mp he
      obtain ⟨hscored, hle⟩ := lastValidated_greatest hg
      refine ⟨scoredAt_exercised.mp hscored, ?_⟩
      rintro g' hg'
      obtain ⟨v, hv⟩ := scoredAt_exercised.mpr hg'
      exact hle g' v hv
    · intro listing e he hnone row hrow hexercised
      obtain ⟨t, -, -, rfl⟩ := mem_build.mp he
      obtain ⟨v, hscored⟩ := scoredAt_exercised.mpr ⟨row, hrow, rfl, hexercised⟩
      exact lastValidated_none.mp hnone _ v hscored
    · intro listing t
      rw [List.mem_map, ← mem_universe, ← shown_iff]
      constructor
      · rintro ⟨e, he, rfl⟩
        obtain ⟨t, ht, hshown, rfl⟩ := mem_build.mp he
        exact ⟨ht, hshown⟩
      · rintro ⟨ht, hshown⟩
        exact ⟨entry req db t, mem_build.mpr ⟨t, ht, hshown, rfl⟩, rfl⟩

section Example

def tiedRun (verdict : String) : ValidationRunRow where
  orgId := "org"
  verdicts := [⟨some "T1059", some verdict⟩]
  coverageByTechnique := []
  generatedAt := ⟨true, 1000000⟩

def tiedRuns : CoverageDb := ⟨[tiedRun "validated", tiedRun "silent_gap"], [], .empty⟩

def tiedRequest : MapRequest ℤ := ⟨"org", DEFAULT_STALE_DAYS, false, 2000000, id⟩

theorem tied_verdict : ¬FunctionOfRuns tiedRequest tiedRuns := by
  intro h
  have hrows : SameRows tiedRuns { tiedRuns with runs := [tiedRun "silent_gap", tiedRun "validated"] } :=
    ⟨List.Perm.swap _ _ _, List.Perm.refl _, List.Perm.refl _⟩
  exact absurd (h.orderFree .sorted .sorted _ hrows) (by decide +kernel)

end Example

end Orders

end CoverageMap

end BTagent
