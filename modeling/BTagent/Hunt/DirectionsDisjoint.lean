import BTagent.Hunt.NoiseBaseline
import Mathlib.Data.Rat.Floor

namespace BTagent

def NoisyRule.key {F : Type} (r : NoisyRule F) : RuleKey := (r.packId, r.ruleId)

def UnderFiringRule.key (r : UnderFiringRule) : RuleKey := (r.packId, r.ruleId)

def NeverRunRule.key (r : NeverRunRule) : RuleKey := (r.packId, r.ruleId)

namespace NoiseBaseline

open OrderedDict

variable {F : Type} {R : FloatOps F} {runs rows rows' : List RunLike} {minRuns : ℕ} {threshold : F}
  {key : RuleKey} {windowDays now : ℤ} {settings : Settings F} {orgId : String}

-- What the runs say of one rule: its entries, and how often it is listed as not run.
def observed (runs : List RunLike) (key : RuleKey) : List (RunLike × RuleEntry) :=
  valuesFor key (runs.flatMap observations)

def skipped (runs : List RunLike) (key : RuleKey) : List RunLike :=
  valuesFor key (runs.flatMap skips)

def hitIn (o : RunLike × RuleEntry) : Bool := 0 < o.2.hitsOf

structure Overfires (R : FloatOps F) (minRuns : ℕ) (threshold : F)
    (obs : List (RunLike × RuleEntry)) : Prop where
  enough : minRuns ≤ obs.length
  hit : ∃ o ∈ obs, hitIn o = true
  rate : R.lt (R.div (obs.countP hitIn) obs.length) threshold = false

-- The latest of the observations, the last in the order of the rows where two are of one time.
structure Latest (obs : List (RunLike × RuleEntry)) (o : RunLike × RuleEntry) : Prop where
  split : ∃ pre post, obs = pre ++ o :: post ∧ (∀ p ∈ pre, p.1.startedAt ≤ o.1.startedAt) ∧
    ∀ p ∈ post, p.1.startedAt < o.1.startedAt

structure Silent (minRuns : ℕ) (obs : List (RunLike × RuleEntry)) : Prop where
  enough : minRuns ≤ obs.length
  quiet : ∀ o ∈ obs, hitIn o = false
  clean : ∃ o, Latest obs o ∧ o.2.errorsOf = 0

def Dark (minRuns : ℕ) (obs : List (RunLike × RuleEntry)) (skips : List RunLike) : Prop :=
  obs = [] ∧ minRuns ≤ skips.length

theorem latest_unique {obs : List (RunLike × RuleEntry)} {o o' : RunLike × RuleEntry}
    (h : Latest obs o) (h' : Latest obs o') : o = o' := by
  obtain ⟨pre, post, hobs, hpre, hpost⟩ := h.split
  obtain ⟨pre', post', hobs', hpre', hpost'⟩ := h'.split
  rw [hobs] at hobs'
  rcases List.append_eq_append_iff.mp hobs' with ⟨mid, hmid, htail⟩ | ⟨mid, hmid, htail⟩
  · cases mid with
    | nil =>
        rw [List.nil_append] at htail
        exact (List.cons.inj htail).1
    | cons m mid =>
        obtain ⟨rfl, hpost_eq⟩ := List.cons.inj htail
        have hlater := hpost o' (by simp [hpost_eq])
        have hearlier := hpre' o (by simp [hmid])
        omega
  · cases mid with
    | nil =>
        rw [List.nil_append] at htail
        exact (List.cons.inj htail).1.symm
    | cons m mid =>
        obtain ⟨rfl, hpost_eq⟩ := List.cons.inj htail
        have hlater := hpost' o (by simp [hpost_eq])
        have hearlier := hpre o' (by simp [hmid])
        omega

section Stats

structure HitStats.Counts (agg : HitStats) (obs : List (RunLike × RuleEntry)) : Prop where
  observed : agg.observed = obs.length
  hitRuns : agg.hitRuns = obs.countP hitIn
  silent : agg.totalHits = 0 ↔ ∀ o ∈ obs, hitIn o = false

theorem HitStats.Counts.note {agg : HitStats} {obs : List (RunLike × RuleEntry)}
    (h : agg.Counts obs) (o : RunLike × RuleEntry) : (agg.note o).Counts (obs ++ [o]) := by
  unfold HitStats.note
  dsimp only
  by_cases hhit : 0 < o.2.hitsOf
  · rw [if_pos hhit]
    refine ⟨by simp [h.observed], ?_, ?_⟩
    · simp [hitIn, hhit, h.hitRuns]
    · constructor
      · intro hzero
        simp only at hzero
        omega
      · intro hquiet
        have hnone := hquiet o (by simp)
        simp [hitIn, hhit] at hnone
  · rw [if_neg hhit]
    refine ⟨by simp [h.observed], ?_, ?_⟩
    · simp [hitIn, hhit, h.hitRuns]
    · have hquiet : hitIn o = false := by simp [hitIn, hhit]
      simp only [h.silent, List.forall_mem_append, List.forall_mem_singleton, hquiet, and_true]

theorem HitStats.counts_start (o : RunLike × RuleEntry) : (HitStats.start key o).Counts [] :=
  ⟨rfl, rfl, by simp [HitStats.start]⟩

structure SilenceStats.Counts (agg : SilenceStats) (obs : List (RunLike × RuleEntry)) : Prop where
  observed : agg.observed = obs.length
  silent : agg.totalHits = 0 ↔ ∀ o ∈ obs, hitIn o = false
  latest : ∃ o, Latest obs o ∧ agg.lastAt = o.1.startedAt ∧ agg.lastErrors = o.2.errorsOf

theorem SilenceStats.silent_note {agg : SilenceStats} {obs : List (RunLike × RuleEntry)}
    (h : agg.totalHits = 0 ↔ ∀ o ∈ obs, hitIn o = false) (o : RunLike × RuleEntry) :
    (agg.note o).totalHits = 0 ↔ ∀ o' ∈ obs ++ [o], hitIn o' = false := by
  simp only [SilenceStats.note, Nat.add_eq_zero_iff, h, List.forall_mem_append,
    List.forall_mem_singleton, hitIn, decide_eq_false_iff_not, not_lt, Nat.le_zero_eq]

theorem SilenceStats.counts_first (o : RunLike × RuleEntry) :
    ((SilenceStats.start key o).note o).Counts [o] := by
  refine ⟨rfl, ?_, o, ⟨[], [], rfl, by simp, by simp⟩, ?_, ?_⟩
  · have hnone : (SilenceStats.start key o).totalHits = 0 ↔
        ∀ o' ∈ ([] : List (RunLike × RuleEntry)), hitIn o' = false := by
      simp [SilenceStats.start]
    exact SilenceStats.silent_note hnone o
  · simp [SilenceStats.note, SilenceStats.start]
  · simp [SilenceStats.note, SilenceStats.start]

theorem SilenceStats.Counts.note {agg : SilenceStats} {obs : List (RunLike × RuleEntry)}
    (h : agg.Counts obs) (o : RunLike × RuleEntry) : (agg.note o).Counts (obs ++ [o]) := by
  refine ⟨by simp [SilenceStats.note, h.observed], SilenceStats.silent_note h.silent o, ?_⟩
  obtain ⟨last, hlast, hat, herrors⟩ := h.latest
  obtain ⟨pre, post, hobs, hpre, hpost⟩ := hlast.split
  by_cases hle : agg.lastAt ≤ o.1.startedAt
  · refine ⟨o, ⟨obs, [], rfl, ?_, by simp⟩, by simp [SilenceStats.note, hle],
      by simp [SilenceStats.note, hle]⟩
    intro p hp
    rw [hat] at hle
    rw [hobs, List.mem_append, List.mem_cons] at hp
    rcases hp with hp | rfl | hp
    · exact (hpre p hp).trans hle
    · exact hle
    · exact (hpost p hp).le.trans hle
  · refine ⟨last, ⟨pre, post ++ [o], by simp [hobs], hpre, ?_⟩, ?_, ?_⟩
    rotate_left
    · exact (if_neg hle).trans hat
    · exact (if_neg hle).trans herrors
    intro p hp
    rcases List.mem_append.mp hp with hp | hp
    · exact hpost p hp
    · rw [List.mem_singleton.mp hp]
      omega

end Stats

section Verdicts

def admitted (runs : List RunLike) : List RunLike := runs.filter fun run => !incomplete run

def admittedSince (cut : ℤ) (runs : List RunLike) : List RunLike :=
  runs.filter fun run => !(incomplete run || decide (run.startedAt < cut))

theorem hitStats_counts {kvs : List (RuleKey × RunLike × RuleEntry)} {agg : HitStats}
    (h : (kvs.foldl (tally HitStats.start HitStats.note) empty).get? key = some agg) :
    agg.Counts (valuesFor key kvs) :=
  tallied_invariant (P := fun obs (agg : HitStats) => agg.Counts obs)
    (fun o => (HitStats.counts_start o).note o) (fun _ _ o hcounts => hcounts.note o) h

theorem silenceStats_counts {kvs : List (RuleKey × RunLike × RuleEntry)} {agg : SilenceStats}
    (h : (kvs.foldl (tally SilenceStats.start SilenceStats.note) empty).get? key = some agg) :
    agg.Counts (valuesFor key kvs) :=
  tallied_invariant (P := fun obs (agg : SilenceStats) => agg.Counts obs)
    SilenceStats.counts_first (fun _ _ o hcounts => hcounts.note o) h

theorem skipStats_counts {kvs : List (RuleKey × RunLike)} {agg : SkipStats}
    (h : (kvs.foldl (tally SkipStats.start SkipStats.note) empty).get? key = some agg) :
    agg.skips = (valuesFor key kvs).length :=
  tallied_invariant (P := fun runs (agg : SkipStats) => agg.skips = runs.length)
    (fun _ => rfl) (fun _ _ _ hskips => by simp [SkipStats.note, hskips]) h

theorem noisyRule_eq_some {agg : HitStats} {rule : NoisyRule F}
    (h : noisyRule R minRuns threshold key agg = some rule) : rule.key = key := by
  unfold noisyRule at h
  dsimp only at h
  split at h
  · cases h
  · split at h
    · cases h
    · cases h
      rfl

theorem noisyRule_isSome {agg : HitStats} {obs : List (RunLike × RuleEntry)}
    (h : agg.Counts obs) :
    (noisyRule R minRuns threshold key agg).isSome ↔ Overfires R minRuns threshold obs := by
  unfold noisyRule
  dsimp only
  split
  · next hcut =>
      refine ⟨nofun, fun hfires => ?_⟩
      rcases hcut with hfew | hzero
      · exact absurd hfires.enough (not_le.mpr (h.observed ▸ hfew))
      · obtain ⟨o, ho, hhit⟩ := hfires.hit
        rw [h.silent.mp hzero o ho] at hhit
        cases hhit
  · next hcut =>
      rw [h.observed, h.silent] at hcut
      push Not at hcut
      obtain ⟨henough, o, ho, hhit⟩ := hcut
      rw [h.observed, h.hitRuns]
      split
      · next hrate =>
          refine ⟨nofun, fun hfires => ?_⟩
          rw [hfires.rate] at hrate
          cases hrate
      · next hrate =>
          exact ⟨fun _ => ⟨henough, ⟨o, ho, by simpa using hhit⟩, by simpa using hrate⟩, fun _ => rfl⟩

theorem mem_noisy : key ∈ (computeNoiseBaseline R runs minRuns threshold).map NoisyRule.key ↔
    Overfires R minRuns threshold (observed (admitted runs) key) := by
  unfold computeNoiseBaseline
  rw [foldl_skipping, ((List.mergeSort_perm _ _).map _).mem_iff]
  refine mem_verdicts (fun _ _ _ => noisyRule_eq_some) ?_ ?_
  · intro agg hagg
    exact noisyRule_isSome (hitStats_counts hagg)
  · intro hnone hfires
    obtain ⟨o, ho, -⟩ := hfires.hit
    rw [observed, admitted, hnone] at ho
    cases ho

theorem underFiringRule_eq_some {agg : SilenceStats} {rule : UnderFiringRule}
    (h : underFiringRule windowDays minRuns key agg = some rule) : rule.key = key := by
  unfold underFiringRule at h
  split at h
  · cases h
  · cases h
    rfl

theorem underFiringRule_isSome {agg : SilenceStats} {obs : List (RunLike × RuleEntry)}
    (h : agg.Counts obs) :
    (underFiringRule windowDays minRuns key agg).isSome ↔ Silent minRuns obs := by
  obtain ⟨last, hlast, -, herrors⟩ := h.latest
  unfold underFiringRule
  split
  · next hcut =>
      refine ⟨nofun, fun hsilent => ?_⟩
      rcases hcut with hfew | hhits | hdirty
      · exact absurd hsilent.enough (not_le.mpr (h.observed ▸ hfew))
      · exact absurd (h.silent.mpr hsilent.quiet) hhits.ne'
      · obtain ⟨o, ho, hclean⟩ := hsilent.clean
        rw [herrors, latest_unique hlast ho, hclean] at hdirty
        exact absurd hdirty (lt_irrefl 0)
  · next hcut =>
      push Not at hcut
      obtain ⟨henough, hhits, hclean⟩ := hcut
      rw [h.observed] at henough
      rw [herrors] at hclean
      exact ⟨fun _ => ⟨henough, h.silent.mp (Nat.le_zero.mp hhits), last, hlast,
        Nat.le_zero.mp hclean⟩, fun _ => rfl⟩

theorem foldl_since {σ : Type*} {cut : ℤ} {f : σ → RunLike → σ} {s : σ} :
    runs.foldl (fun s run => if incomplete run then s else if run.startedAt < cut then s
      else f s run) s = (admittedSince cut runs).foldl f s := by
  induction runs generalizing s with
  | nil => rfl
  | cons run runs ih =>
      rw [List.foldl_cons, ih]
      cases hincomplete : incomplete run with
      | true => simp [admittedSince, hincomplete]
      | false => by_cases hold : run.startedAt < cut <;> simp [admittedSince, hincomplete, hold]

theorem mem_underFiring (hmin : 0 < minRuns) :
    key ∈ (computeUnderFiring runs windowDays minRuns now).map UnderFiringRule.key ↔
      Silent minRuns (observed (admittedSince (cutoff now windowDays) runs) key) := by
  unfold computeUnderFiring
  rw [foldl_since, ← List.foldl_flatMap, ((List.mergeSort_perm _ _).map _).mem_iff]
  refine mem_verdicts (fun _ _ _ => underFiringRule_eq_some) ?_ ?_
  · intro agg hagg
    exact underFiringRule_isSome (silenceStats_counts hagg)
  · intro hnone hsilent
    have henough := hsilent.enough
    rw [observed, hnone] at henough
    exact absurd henough (not_le.mpr hmin)

theorem neverRunRule_eq_some {executed : List RuleKey} {agg : SkipStats} {rule : NeverRunRule}
    (h : neverRunRule windowDays minRuns executed key agg = some rule) : rule.key = key := by
  unfold neverRunRule at h
  split at h
  · cases h
  · cases h
    rfl

theorem mem_executed :
    key ∈ runs.flatMap (fun run => (observations run).map (·.1)) ↔ observed runs key ≠ [] := by
  rw [← List.map_flatMap, observed, Ne, valuesFor_eq_nil, not_not]

theorem neverRunRule_isSome {executed : List RuleKey} {agg : SkipStats}
    {obs : List (RunLike × RuleEntry)} {skips : List RunLike} (hran : key ∈ executed ↔ obs ≠ [])
    (hskips : agg.skips = skips.length) :
    (neverRunRule windowDays minRuns executed key agg).isSome ↔ Dark minRuns obs skips := by
  unfold neverRunRule
  split
  · next hcut =>
      refine ⟨nofun, fun hdark => ?_⟩
      rcases hcut with hfew | hmem
      · exact absurd hdark.2 (not_le.mpr (hskips ▸ hfew))
      · exact absurd hdark.1 (hran.mp hmem)
  · next hcut =>
      rw [hskips, hran] at hcut
      push Not at hcut
      exact ⟨fun _ => ⟨hcut.2, hcut.1⟩, fun _ => rfl⟩

theorem foldl_executed {ks : List RuleKey} {d : OrderedDict RuleKey SkipStats} :
    runs.foldl (fun (acc : List RuleKey × OrderedDict RuleKey SkipStats) run =>
      (acc.1 ++ (observations run).map (·.1),
        (skips run).foldl (tally SkipStats.start SkipStats.note) acc.2)) (ks, d) =
      (ks ++ runs.flatMap fun run => (observations run).map (·.1),
        (runs.flatMap skips).foldl (tally SkipStats.start SkipStats.note) d) := by
  induction runs generalizing ks d with
  | nil => simp
  | cons run runs ih =>
      rw [List.foldl_cons, ih]
      simp

theorem mem_neverRun (hmin : 0 < minRuns) :
    key ∈ (computeNeverRun runs windowDays minRuns now).map NeverRunRule.key ↔
      Dark minRuns (observed (admittedSince (cutoff now windowDays) runs) key)
        (skipped (admittedSince (cutoff now windowDays) runs) key) := by
  unfold computeNeverRun
  rw [foldl_since, foldl_executed, ((List.mergeSort_perm _ _).map _).mem_iff]
  refine mem_verdicts (fun _ _ _ => neverRunRule_eq_some) ?_ ?_
  · intro agg hagg
    exact neverRunRule_isSome mem_executed (skipStats_counts hagg)
  · intro hnone hdark
    have henough := hdark.2
    rw [skipped, hnone] at henough
    exact absurd henough (not_le.mpr hmin)

end Verdicts

section Queries

theorem admitted_lookback {n : ℕ} :
    admitted (lookbackRows orgId n rows) = lookbackRows orgId n rows := by
  rw [admitted, List.filter_eq_self]
  intro run hrun
  have hrow := mem_of_mem_takeNewest hrun
  simp only [List.mem_filter, decide_eq_true_eq] at hrow
  simpa using hrow.2.2

theorem admitted_window {n : ℕ} :
    admittedSince (cutoff now windowDays) (windowRows orgId windowDays n now rows) =
      windowRows orgId windowDays n now rows := by
  rw [admittedSince, List.filter_eq_self]
  intro run hrun
  have hrow := mem_of_mem_takeNewest hrun
  simp only [List.mem_filter, decide_eq_true_eq] at hrow
  simp [hrow.2.2.1, hrow.2.2.2]

end Queries

section Disjoint

structure Exclusive (b : NoiseBaseline F) : Prop where
  overUnder : (b.items.map NoisyRule.key).Disjoint (b.underFiring.map UnderFiringRule.key)
  overNever : (b.items.map NoisyRule.key).Disjoint (b.neverRun.map NeverRunRule.key)
  underNever : (b.underFiring.map UnderFiringRule.key).Disjoint (b.neverRun.map NeverRunRule.key)

-- A rule that over-fires in the lookback rows is settled by the rows of the window when they do not
-- count it as silent, and do not count it as dark.
structure Settled (settings : Settings F) (window : List RunLike) (key : RuleKey) : Prop where
  speaks : settings.includeUnderFiring = true →
    (∃ o ∈ observed window key, hitIn o = true) ∨
      (observed window key).length < UNDER_FIRING_MIN_RUNS ∨
      ∃ o, Latest (observed window key) o ∧ 0 < o.2.errorsOf
  runs : settings.includeNeverRun = true →
    observed window key ≠ [] ∨ (skipped window key).length < NEVER_RUN_MIN_RUNS

def HitsAreRecent (R : FloatOps F) (rows rows' : List RunLike) (orgId : String)
    (settings : Settings F) (now : ℤ) : Prop :=
  ∀ key, Overfires R settings.minRuns settings.hitRateThreshold
      (observed (lookbackRows orgId settings.lookbackRuns rows) key) →
    Settled settings
      (windowRows orgId settings.underFiringWindowDays UNDER_FIRING_MAX_RUNS now rows') key

theorem exists_latest {obs : List (RunLike × RuleEntry)} (h : obs ≠ []) : ∃ o, Latest obs o := by
  induction obs with
  | nil => exact absurd rfl h
  | cons o obs ih =>
      by_cases hobs : obs = []
      · exact ⟨o, ⟨[], obs, rfl, by simp, by simp [hobs]⟩⟩
      · obtain ⟨last, hlast⟩ := ih hobs
        obtain ⟨pre, post, rfl, hpre, hpost⟩ := hlast.split
        by_cases hle : o.1.startedAt ≤ last.1.startedAt
        · refine ⟨last, ⟨o :: pre, post, rfl, ?_, hpost⟩⟩
          exact List.forall_mem_cons.mpr ⟨hle, hpre⟩
        · refine ⟨o, ⟨[], pre ++ last :: post, rfl, by simp, ?_⟩⟩
          intro p hp
          rw [List.mem_append, List.mem_cons] at hp
          rcases hp with hp | rfl | hp
          · exact (hpre p hp).trans_lt (not_le.mp hle)
          · exact not_le.mp hle
          · exact (hpost p hp).trans (not_le.mp hle)

theorem not_silent_iff {obs : List (RunLike × RuleEntry)} :
    ¬ Silent UNDER_FIRING_MIN_RUNS obs ↔ (∃ o ∈ obs, hitIn o = true) ∨
      obs.length < UNDER_FIRING_MIN_RUNS ∨ ∃ o, Latest obs o ∧ 0 < o.2.errorsOf := by
  constructor
  · intro h
    by_contra hnone
    push Not at hnone
    obtain ⟨hquiet, henough, hclean⟩ := hnone
    have hne : obs ≠ [] := by
      rintro rfl
      exact absurd henough (by decide)
    obtain ⟨last, hlast⟩ := exists_latest hne
    exact h ⟨henough, fun o ho => by simpa using hquiet o ho, last, hlast,
      Nat.le_zero.mp (hclean last hlast)⟩
  · rintro (⟨o, ho, hhit⟩ | hfew | ⟨o, hlast, hdirty⟩) hsilent
    · rw [hsilent.quiet o ho] at hhit
      cases hhit
    · exact absurd hsilent.enough (not_le.mpr hfew)
    · obtain ⟨o', hlast', hclean⟩ := hsilent.clean
      rw [latest_unique hlast hlast', hclean] at hdirty
      exact absurd hdirty (lt_irrefl 0)

theorem not_dark_iff {obs : List (RunLike × RuleEntry)} {skips : List RunLike} :
    ¬ Dark NEVER_RUN_MIN_RUNS obs skips ↔
      obs ≠ [] ∨ skips.length < NEVER_RUN_MIN_RUNS := by
  rw [Dark, not_and_or, not_le]

theorem mem_items :
    key ∈ (noiseBaseline R rows rows' orgId settings now).items.map NoisyRule.key ↔
      Overfires R settings.minRuns settings.hitRateThreshold
        (observed (lookbackRows orgId settings.lookbackRuns rows) key) := by
  rw [noiseBaseline, mem_noisy, admitted_lookback]

theorem mem_silent :
    key ∈ (noiseBaseline R rows rows' orgId settings now).underFiring.map UnderFiringRule.key ↔
      settings.includeUnderFiring = true ∧ Silent UNDER_FIRING_MIN_RUNS (observed
        (windowRows orgId settings.underFiringWindowDays UNDER_FIRING_MAX_RUNS now rows') key) := by
  cases hunder : settings.includeUnderFiring with
  | false => simp [noiseBaseline, hunder]
  | true =>
      have hmin : 0 < UNDER_FIRING_MIN_RUNS := by decide
      simp only [noiseBaseline, hunder, true_or, if_true, mem_underFiring hmin, admitted_window,
        true_and]

theorem mem_dark :
    key ∈ (noiseBaseline R rows rows' orgId settings now).neverRun.map NeverRunRule.key ↔
      settings.includeNeverRun = true ∧ Dark NEVER_RUN_MIN_RUNS
        (observed (windowRows orgId settings.underFiringWindowDays UNDER_FIRING_MAX_RUNS now rows')
          key)
        (skipped (windowRows orgId settings.underFiringWindowDays UNDER_FIRING_MAX_RUNS now rows')
          key) := by
  cases hnever : settings.includeNeverRun with
  | false => simp [noiseBaseline, hnever]
  | true =>
      have hmin : 0 < NEVER_RUN_MIN_RUNS := by decide
      simp only [noiseBaseline, hnever, or_true, if_true, mem_neverRun hmin, admitted_window,
        true_and]

theorem silent_never_dark :
    ((noiseBaseline R rows rows' orgId settings now).underFiring.map UnderFiringRule.key).Disjoint
      ((noiseBaseline R rows rows' orgId settings now).neverRun.map NeverRunRule.key) := by
  intro key hsilent hdark
  have henough := (mem_silent.mp hsilent).2.enough
  rw [(mem_dark.mp hdark).2.1] at henough
  exact absurd henough (by decide)

theorem exclusive_iff_settled :
    Exclusive (noiseBaseline R rows rows' orgId settings now) ↔
      HitsAreRecent R rows rows' orgId settings now := by
  constructor
  · intro h key hover
    have hitem : key ∈ (noiseBaseline R rows rows' orgId settings now).items.map NoisyRule.key :=
      mem_items.mpr hover
    refine ⟨fun hunder => not_silent_iff.mp ?_, fun hnever => not_dark_iff.mp ?_⟩
    · intro hsilent
      exact h.overUnder hitem (mem_silent.mpr ⟨hunder, hsilent⟩)
    · intro hdark
      exact h.overNever hitem (mem_dark.mpr ⟨hnever, hdark⟩)
  · intro h
    refine ⟨?_, ?_, silent_never_dark⟩
    · intro key hitem hsilent
      obtain ⟨hunder, hsilent⟩ := mem_silent.mp hsilent
      exact not_silent_iff.mpr ((h key (mem_items.mp hitem)).speaks hunder) hsilent
    · intro key hitem hdark
      obtain ⟨hnever, hdark⟩ := mem_dark.mp hdark
      exact not_dark_iff.mpr ((h key (mem_items.mp hitem)).runs hnever) hdark

-- Where the window holds every row of the lookback, a rule that hit there hit in the window.
theorem exclusive_of_window
    (h : lookbackRows orgId settings.lookbackRuns rows ⊆
      windowRows orgId settings.underFiringWindowDays UNDER_FIRING_MAX_RUNS now rows') :
    Exclusive (noiseBaseline R rows rows' orgId settings now) := by
  apply exclusive_iff_settled.mpr
  intro key hover
  obtain ⟨o, ho, hhit⟩ := hover.hit
  have hwindow : o ∈ observed
      (windowRows orgId settings.underFiringWindowDays UNDER_FIRING_MAX_RUNS now rows') key := by
    rw [observed, mem_valuesFor, List.mem_flatMap] at ho ⊢
    obtain ⟨run, hrun, hmem⟩ := ho
    exact ⟨run, h hrun, hmem⟩
  exact ⟨fun _ => Or.inl ⟨o, hwindow, hhit⟩, fun _ => Or.inl (List.ne_nil_of_mem hwindow)⟩

end Disjoint

section Capped

def rational : FloatOps ℚ where
  div m n := (m : ℚ) / n
  round x n := ⌊x * 10 ^ n + 1 / 2⌋ / 10 ^ n
  lt x y := x < y

def defaults : Settings ℚ where
  lookbackRuns := 50
  minRuns := 3
  hitRateThreshold := 4 / 5
  includeUnderFiring := true
  underFiringWindowDays := UNDER_FIRING_WINDOW_DAYS
  includeNeverRun := true

def sweep (onDay : ℤ) (ruleStats : OrderedDict String RuleEntry) (rulesNotRun : List String) :
    RunLike where
  orgId := "org"
  packId := "pack"
  packName := "Pack"
  ruleStats := ruleStats
  rulesNotRun := rulesNotRun
  status := .COMPLETED
  startedAt := onDay * day

def hitting (onDay : ℤ) : RunLike :=
  sweep onDay (empty.set "rule" ⟨some "Rule", some 1, some 0⟩) []

def skipping (onDay : ℤ) : RunLike := sweep onDay empty ["rule"]

-- The rule hit in three sweeps, and the cap has kept it out of every sweep of the last sixty days.
def capped : List RunLike :=
  [skipping 99, skipping 98, skipping 97, hitting 20, hitting 10, hitting 5]

theorem capped_lookback : lookbackRows "org" 50 capped = capped := by
  have hfilter : (capped.filter fun run => run.orgId = "org" ∧ ¬ incomplete run) = capped := by
    rfl
  rw [lookbackRows, hfilter]
  exact takeNewest_of_sorted (by decide) (by decide)

theorem capped_window :
    windowRows "org" UNDER_FIRING_WINDOW_DAYS UNDER_FIRING_MAX_RUNS (100 * day) capped =
      [skipping 99, skipping 98, skipping 97] := by
  have hfilter : (capped.filter fun run => run.orgId = "org" ∧ ¬ incomplete run ∧
      cutoff (100 * day) UNDER_FIRING_WINDOW_DAYS ≤ run.startedAt) =
      [skipping 99, skipping 98, skipping 97] := by
    rfl
  rw [windowRows, hfilter]
  exact takeNewest_of_sorted (by decide) (by decide)

theorem capped_rule_listed_twice :
    ¬ ∀ {F : Type} (R : FloatOps F) (history : List RunLike) (orgId : String)
      (settings : Settings F) (now : ℤ),
        Exclusive (noiseBaseline R history history orgId settings now) := by
  intro h
  have hexclusive := h rational capped "org" defaults (100 * day)
  have hitem : ("pack", "rule") ∈
      (noiseBaseline rational capped capped "org" defaults (100 * day)).items.map NoisyRule.key := by
    apply mem_items.mpr
    rw [defaults, capped_lookback]
    exact ⟨by decide, ⟨_, List.mem_of_mem_head? rfl, by decide⟩, by decide +kernel⟩
  apply hexclusive.overNever hitem
  apply mem_dark.mpr
  rw [defaults, capped_window]
  exact ⟨rfl, by decide, by decide⟩

end Capped

end NoiseBaseline

end BTagent
