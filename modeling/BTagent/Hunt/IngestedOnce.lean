import BTagent.Hunt.PackRun

namespace BTagent

namespace PackInvocation

def holds : PackInvocation → Option (ℕ × HuntPackRunRow)
  | opening _ => none
  | executing k memory => some (k, memory)
  | persisting k memory _ _ _ => some (k, memory)
  | gone => none

def HoldsRow (k : ℕ) (inv : PackInvocation) : Prop := ∃ memory, inv.holds = some (k, memory)

end PackInvocation

namespace HuntPackRun
open PackInvocation Slots

def hitSum (row : HuntPackRunRow) : ℕ := (row.ruleStats.entries.map fun kv => kv.2.hits).sum

def errorSum (row : HuntPackRunRow) : ℕ := (row.ruleStats.entries.map fun kv => kv.2.errors).sum

structure Summed (row : HuntPackRunRow) : Prop where
  hits : row.hitCount = hitSum row
  errors : row.errorCount = errorSum row

structure IngestedOnce (s : PackRuns) : Prop where
  once : s.ingested.Nodup
  sums : ∀ row ∈ s.rows, Summed row

-- An invocation resumes a row that nobody works on and whose cursor names every rule it counts.
def Resumes (window : ℕ) (s : PackRuns) : PackEvent → Prop
  | .invoke now => ∀ k ∈ newestRunning s.rows, ∀ row ∈ s.rows[k]?, ¬ stale window now row →
      (∀ inv ∈ s.invocations, ¬ HoldsRow k inv) ∧ ∀ r ∈ row.ruleStats.keys, r ∈ row.completedRuleIds
  | _ => True

structure SameCounts (a b : HuntPackRunRow) : Prop where
  hits : a.hitCount = b.hitCount
  errors : a.errorCount = b.errorCount
  stats : a.ruleStats = b.ruleStats

structure Held (rows : List HuntPackRunRow) (k : ℕ) (memory : HuntPackRunRow) : Prop where
  stored : ∃ row, rows[k]? = some row ∧ SameCounts row memory
  cursor : ∀ r ∈ memory.ruleStats.keys, r ∈ memory.completedRuleIds

structure Sound (s : PackRuns) : Prop where
  ingestedOnce : IngestedOnce s
  recorded : ∀ x ∈ s.ingested, ∃ row, s.rows[x.1]? = some row ∧ x.2 ∈ row.ruleStats.keys
  held : ∀ inv ∈ s.invocations, ∀ k memory, inv.holds = some (k, memory) → Held s.rows k memory
  alone : ∀ k, AtMostOne (HoldsRow k) s.invocations

variable {window now i k : ℕ} {s s' : PackRuns} {inv inv' : PackInvocation}
  {memory row : HuntPackRunRow} {rule : RuleRunResult}

theorem SameCounts.rfl : SameCounts row row := ⟨Eq.refl _, Eq.refl _, Eq.refl _⟩

theorem Summed.congr {a b : HuntPackRunRow} (h : Summed b) (hsame : SameCounts a b) : Summed a := by
  obtain ⟨hhits, herrors, hstats⟩ := hsame
  constructor
  · rw [hhits, h.hits, hitSum, hitSum, hstats]
  · rw [herrors, h.errors, errorSum, errorSum, hstats]

theorem newRunningRow_summed : Summed (newRunningRow now) := ⟨rfl, rfl⟩

theorem summed_afterRule (h : Summed row) (hnew : rule.ruleId ∉ row.ruleStats.keys) :
    Summed (afterRule row rule) := by
  have hentries := OrderedDict.entries_set_new (v := rule.statEntry) hnew
  constructor
  · simp only [afterRule, hitSum, hentries, List.map_append, List.sum_append, h.hits]
    simp [RuleRunResult.statEntry]
  · simp only [afterRule, errorSum, hentries, List.map_append, List.sum_append, h.errors]
    simp [RuleRunResult.statEntry]

theorem flush_counts {loaded new stored : HuntPackRunRow} {changed : Bool}
    (h : SameCounts stored loaded) : SameCounts (flush loaded new stored changed) new := by
  obtain ⟨hhits, herrors, hstats⟩ := h
  refine ⟨?_, ?_, ?_⟩
  · simp only [flush]
    split_ifs with heq
    · rw [hhits, heq]
    · rfl
  · simp only [flush]
    split_ifs with heq
    · rw [herrors, heq]
    · rfl
  · simp only [flush]
    split_ifs with heq
    · rw [hstats]
      exact OrderedDict.ext_entries heq.symm
    · rfl

theorem modify_row {f : HuntPackRunRow → HuntPackRunRow} {rows : List HuntPackRunRow} {j : ℕ}
    (h : rows[j]? = some row) : (rows.modify k f)[j]? = some (if k = j then f row else row) := by
  rw [List.getElem?_modify, h]
  split_ifs <;> rfl

theorem newestRunning_some (h : newestRunning s.rows = some k) : ∃ row, s.rows[k]? = some row := by
  obtain ⟨r, hr, hk⟩ := Option.map_eq_some_iff.mp h
  have hmem := List.argmax_mem hr
  have hzip := (List.mem_filter.mp hmem).1
  refine ⟨r.1, ?_⟩
  rw [← hk]
  exact List.mem_zipIdx_iff_getElem?.mp hzip

theorem Sound.setRows (h : Sound s) {rows : List HuntPackRunRow}
    (hkept : ∀ {j : ℕ} {row : HuntPackRunRow}, s.rows[j]? = some row →
      ∃ row', rows[j]? = some row' ∧ SameCounts row' row)
    (hsums : ∀ row ∈ rows, Summed row) : Sound { s with rows := rows } := by
  refine ⟨⟨h.ingestedOnce.once, hsums⟩, ?_, ?_, h.alone⟩
  · intro x hx
    obtain ⟨row, hrow, hmem⟩ := h.recorded x hx
    obtain ⟨row', hrow', hsame⟩ := hkept hrow
    exact ⟨row', hrow', hsame.stats ▸ hmem⟩
  · intro inv hinv j memory hholds
    obtain ⟨⟨row, hrow, hsame⟩, hcursor⟩ := h.held inv hinv j memory hholds
    obtain ⟨row', hrow', hsame'⟩ := hkept hrow
    refine ⟨⟨row', hrow', ?_⟩, hcursor⟩
    exact ⟨hsame'.hits.trans hsame.hits, hsame'.errors.trans hsame.errors,
      hsame'.stats.trans hsame.stats⟩

theorem Sound.abandon (h : Sound s) : Sound { s with rows := s.rows.modify k abandon } := by
  apply h.setRows
  · intro j row hrow
    refine ⟨_, modify_row hrow, ?_⟩
    split_ifs <;> exact ⟨rfl, rfl, rfl⟩
  · intro row hrow
    obtain ⟨j, hj⟩ := List.getElem?_of_mem hrow
    rw [List.getElem?_modify] at hj
    obtain ⟨old, hold, rfl⟩ := Option.map_eq_some_iff.mp hj
    have hsummed := h.ingestedOnce.sums old (List.mem_of_getElem? hold)
    split_ifs
    · exact hsummed.congr ⟨rfl, rfl, rfl⟩
    · exact hsummed

theorem Sound.addRow (h : Sound s) :
    Sound { s with rows := s.rows ++ [newRunningRow now] } := by
  apply h.setRows
  · intro j row hrow
    have hlt : j < s.rows.length := (List.getElem?_eq_some_iff.mp hrow).1
    exact ⟨row, by rw [List.getElem?_append_left hlt]; exact hrow, SameCounts.rfl⟩
  · intro row hrow
    rcases List.mem_append.mp hrow with hrow | hrow
    · exact h.ingestedOnce.sums row hrow
    · rw [List.mem_singleton.mp hrow]
      exact newRunningRow_summed

theorem Sound.setInvocation (h : Sound s) (hi : s.invocations[i]? = some inv)
    (hholds : ∀ k memory, inv'.holds = some (k, memory) → inv.holds = some (k, memory)) :
    Sound (setInvocation s i inv') := by
  refine ⟨⟨h.ingestedOnce.once, h.ingestedOnce.sums⟩, h.recorded, ?_, ?_⟩
  · apply forall_set h.held
    intro k memory hk
    exact h.held inv (List.mem_of_getElem? hi) k memory (hholds k memory hk)
  · intro k
    apply (h.alone k).set hi
    rintro ⟨memory, hk⟩
    exact ⟨memory, hholds k memory hk⟩

theorem Sound.drop (h : Sound s) : Sound (HuntPackRun.setInvocation s i .gone) := by
  cases hi : s.invocations[i]? with
  | none =>
      have hlen : s.invocations.length ≤ i := List.getElem?_eq_none_iff.mp hi
      have hsame : s.invocations.set i .gone = s.invocations := List.set_eq_of_length_le hlen
      simp only [HuntPackRun.setInvocation, hsame]
      exact h
  | some inv =>
      apply h.setInvocation hi
      intro k memory hk
      cases hk

theorem sound_invoke (h : Sound s) (hg : Resumes window s (.invoke now)) :
    Sound (invoke window now s) := by
  have hadd : ∀ inv, (∀ k memory, inv.holds = some (k, memory) →
      Held s.rows k memory ∧ ∀ other ∈ s.invocations, ¬ HoldsRow k other) →
      Sound { s with invocations := s.invocations ++ [inv] } := by
    intro inv hinv
    refine ⟨⟨h.ingestedOnce.once, h.ingestedOnce.sums⟩, h.recorded, ?_, ?_⟩
    · intro other hother k memory hk
      rcases List.mem_append.mp hother with hother | hother
      · exact h.held other hother k memory hk
      · rw [List.mem_singleton.mp hother] at hk
        exact (hinv k memory hk).1
    · intro k
      by_cases hholds : HoldsRow k inv
      · obtain ⟨memory, hk⟩ := hholds
        exact AtMostOne.append_alone (hinv k memory hk).2
      · exact (h.alone k).append hholds
  simp only [invoke]
  apply hadd
  intro k memory hk
  cases hnewest : newestRunning s.rows with
  | none =>
      rw [hnewest] at hk
      cases hk
  | some j =>
      obtain ⟨row, hrow⟩ := newestRunning_some hnewest
      simp only [hnewest, hrow] at hk
      by_cases hstale : stale window now row = true
      · rw [if_pos hstale] at hk
        cases hk
      · rw [if_neg hstale] at hk
        cases hk
        obtain ⟨hfree, hcursor⟩ := hg _ hnewest _ hrow hstale
        exact ⟨⟨⟨_, hrow, SameCounts.rfl⟩, hcursor⟩, hfree⟩

theorem sound_openRow {staleRow : Option ℕ} (h : Sound s) (hi : s.invocations[i]? = some inv) :
    Sound (openRow s i now staleRow) := by
  have hrows : ∃ rows, rows.length = s.rows.length ∧ Sound { s with rows := rows } ∧
      openRow s i now staleRow = HuntPackRun.setInvocation
        { s with rows := rows ++ [newRunningRow now] } i
        (.executing s.rows.length (newRunningRow now)) := by
    cases staleRow with
    | none => exact ⟨s.rows, rfl, h, rfl⟩
    | some k => exact ⟨s.rows.modify k HuntPackRun.abandon, List.length_modify .., h.abandon, rfl⟩
  obtain ⟨rows, hlength, hsound, hopen⟩ := hrows
  rw [hopen]
  have hadded : Sound { s with rows := rows ++ [newRunningRow now] } := hsound.addRow
  have hnew : (rows ++ [newRunningRow now])[s.rows.length]? = some (newRunningRow now) := by
    rw [← hlength]
    simp
  have hfree : ∀ other ∈ s.invocations, ¬ HoldsRow s.rows.length other := by
    rintro other hother ⟨memory, hk⟩
    obtain ⟨row, hrow, _⟩ := (h.held other hother _ _ hk).stored
    exact absurd (List.getElem?_eq_some_iff.mp hrow).1 (Nat.lt_irrefl _)
  refine ⟨⟨hadded.ingestedOnce.once, hadded.ingestedOnce.sums⟩, hadded.recorded, ?_, ?_⟩
  · apply forall_set hadded.held
    rintro k memory ⟨⟩
    refine ⟨⟨_, hnew, SameCounts.rfl⟩, ?_⟩
    intro r hr
    cases hr
  · intro k
    by_cases hk : k = s.rows.length
    · subst hk
      exact AtMostOne.set_alone hfree
    · apply (h.alone k).set hi
      rintro ⟨memory, hholds⟩
      cases hholds
      exact absurd rfl hk

theorem sound_commitRule {shared : Bool} {rules : List RuleRunResult} {final : HuntRunStatus}
    (h : Sound s) (hi : s.invocations[i]? = some (.persisting k memory shared (rule :: rules) final)) :
    Sound (commitRule s i k memory shared rule rules final) := by
  simp only [commitRule]
  split
  · apply h.setInvocation hi
    intro j m hm
    exact hm
  · rename_i hpending
    obtain ⟨⟨row, hrow, hsame⟩, hcursor⟩ := h.held _ (List.mem_of_getElem? hi) k memory rfl
    have hnew : rule.ruleId ∉ memory.ruleStats.keys := fun hmem => hpending (hcursor _ hmem)
    have hfresh : (k, rule.ruleId) ∉ s.ingested := by
      intro hmem
      obtain ⟨row', hrow', hkey⟩ := h.recorded _ hmem
      obtain rfl := Option.some.inj (hrow.symm.trans hrow')
      exact hnew (hsame.stats ▸ hkey)
    let rows := s.rows.modify k fun stored => flush memory (afterRule memory rule) stored (!shared)
    have hrow' : rows[k]? = some (flush memory (afterRule memory rule) row (!shared)) := by
      rw [modify_row hrow, if_pos rfl]
    have hother : ∀ {j : ℕ} {r : HuntPackRunRow}, s.rows[j]? = some r → j ≠ k →
        rows[j]? = some r := by
      intro j r hj hne
      rw [modify_row hj, if_neg (Ne.symm hne)]
    have hcounts : SameCounts (flush memory (afterRule memory rule) row (!shared))
        (afterRule memory rule) := flush_counts hsame
    have hsummed : Summed (flush memory (afterRule memory rule) row (!shared)) := by
      apply Summed.congr _ hcounts
      apply summed_afterRule _ hnew
      exact (h.ingestedOnce.sums row (List.mem_of_getElem? hrow)).congr
        ⟨hsame.hits.symm, hsame.errors.symm, hsame.stats.symm⟩
    refine ⟨⟨?_, ?_⟩, ?_, ?_, ?_⟩
    · exact List.nodup_append.mpr ⟨h.ingestedOnce.once, List.nodup_singleton _, by
        rintro x hx y hy rfl
        rw [List.mem_singleton.mp hy] at hx
        exact hfresh hx⟩
    · intro r hr
      obtain ⟨j, hj⟩ := List.getElem?_of_mem hr
      by_cases hjk : j = k
      · subst hjk
        obtain rfl := Option.some.inj (hj.symm.trans hrow')
        exact hsummed
      · have hold : s.rows[j]? = some r := by
          have hj : rows[j]? = some r := hj
          simpa [rows, List.getElem?_modify, Ne.symm hjk] using hj
        exact h.ingestedOnce.sums r (List.mem_of_getElem? hold)
    · intro x hx
      have hkey : rule.ruleId ∈ (flush memory (afterRule memory rule) row (!shared)).ruleStats.keys := by
        rw [hcounts.stats]
        exact (OrderedDict.mem_keys_set _ _ _ _).mpr (Or.inl rfl)
      rcases List.mem_append.mp hx with hx | hx
      · obtain ⟨old, hold, hmem⟩ := h.recorded x hx
        by_cases hxk : x.1 = k
        · rw [hxk] at hold ⊢
          obtain rfl := Option.some.inj (hrow.symm.trans hold)
          refine ⟨_, hrow', ?_⟩
          rw [hcounts.stats]
          exact (OrderedDict.mem_keys_set _ _ _ _).mpr (Or.inr (hsame.stats ▸ hmem))
        · exact ⟨old, hother hold hxk, hmem⟩
      · rw [List.mem_singleton.mp hx]
        exact ⟨_, hrow', hkey⟩
    · intro inv hinv j m hholds
      obtain ⟨l, hl⟩ := List.getElem?_of_mem hinv
      rcases getElem?_set_cases hl with ⟨_, rfl⟩ | ⟨hne, hl⟩
      · cases hholds
        refine ⟨⟨_, hrow', hcounts⟩, ?_⟩
        intro r hr
        rcases (OrderedDict.mem_keys_set _ _ _ _).mp hr with rfl | hr
        · exact List.mem_append_right _ List.mem_cons_self
        · exact List.mem_append_left _ (hcursor r hr)
      · obtain ⟨⟨old, hold, hsame'⟩, hcursor'⟩ := h.held inv (List.mem_of_getElem? hl) j m hholds
        have hjk : j ≠ k := by
          rintro rfl
          exact hne (h.alone j l i inv _ hl hi ⟨m, hholds⟩ ⟨memory, rfl⟩)
        exact ⟨⟨old, hother hold hjk, hsame'⟩, hcursor'⟩
    · intro j
      apply (h.alone j).set hi
      rintro ⟨m, hm⟩
      cases hm
      exact ⟨memory, rfl⟩

theorem sound_finish {shared : Bool} {final : HuntRunStatus} (h : Sound s)
    (hi : s.invocations[i]? = some (.persisting k memory shared [] final)) :
    Sound (finish s i k memory final) := by
  obtain ⟨⟨row, hrow, hsame⟩, _⟩ := h.held _ (List.mem_of_getElem? hi) k memory rfl
  have hcounts : SameCounts (flush memory { memory with status := final } row false) row := by
    have hflush : SameCounts (flush memory { memory with status := final } row false)
      { memory with status := final } := flush_counts hsame
    exact ⟨hflush.hits.trans hsame.hits.symm, hflush.errors.trans hsame.errors.symm,
      hflush.stats.trans hsame.stats.symm⟩
  have hrows : Sound { s with
      rows := s.rows.modify k fun stored =>
        flush memory { memory with status := final } stored false } := by
    apply h.setRows
    · intro j r hj
      refine ⟨_, modify_row hj, ?_⟩
      split_ifs with hkj
      · subst hkj
        obtain rfl := Option.some.inj (hrow.symm.trans hj)
        exact hcounts
      · exact SameCounts.rfl
    · intro r hr
      obtain ⟨j, hj⟩ := List.getElem?_of_mem hr
      rw [List.getElem?_modify] at hj
      obtain ⟨old, hold, rfl⟩ := Option.map_eq_some_iff.mp hj
      have hsummed := h.ingestedOnce.sums old (List.mem_of_getElem? hold)
      split_ifs with hkj
      · subst hkj
        obtain rfl := Option.some.inj (hrow.symm.trans hold)
        exact hsummed.congr hcounts
      · exact hsummed
  exact hrows.drop

theorem sound_abandonStale (h : Sound s) : Sound (abandonStale window now s) := by
  simp only [abandonStale]
  split
  · exact h
  · split
    · exact h.abandon
    · exact h

theorem sound_step {ev : PackEvent} (h : Sound s) (hg : Resumes window s ev)
    (hstep : (pack window).step s ev = some s') : Sound s' := by
  cases ev with
  | invoke now =>
      cases hstep
      exact sound_invoke h hg
  | openRow i now =>
      simp only [pack] at hstep
      split at hstep <;> cases hstep
      exact sound_openRow h ‹_›
  | executed i rules =>
      simp only [pack] at hstep
      split at hstep <;> cases hstep
      rename_i k memory hi
      apply h.setInvocation hi
      intro j m hm
      exact hm
  | commitRule i =>
      simp only [pack] at hstep
      split at hstep <;> cases hstep
      exact sound_commitRule h ‹_›
  | finish i =>
      simp only [pack] at hstep
      split at hstep <;> cases hstep
      exact sound_finish h ‹_›
  | crash i =>
      cases hstep
      exact h.drop
  | fail i now =>
      cases hstep
      exact sound_abandonStale h.drop

theorem noRuns_sound : Sound noRuns := by
  refine ⟨⟨List.nodup_nil, ?_⟩, ?_, ?_, ?_⟩
  · intro row hrow
    cases hrow
  · intro x hx
    cases hx
  · intro inv hinv
    cases hinv
  · intro k i j a b ha
    cases ha

instance (row : HuntPackRunRow) : Decidable (Summed row) :=
  decidable_of_iff (row.hitCount = hitSum row ∧ row.errorCount = errorSum row)
    ⟨fun h => ⟨h.1, h.2⟩, fun h => ⟨h.1, h.2⟩⟩

instance (s : PackRuns) : Decidable (IngestedOnce s) :=
  decidable_of_iff (s.ingested.Nodup ∧ ∀ row ∈ s.rows, Summed row)
    ⟨fun h => ⟨h.1, h.2⟩, fun h => ⟨h.1, h.2⟩⟩

instance (k : ℕ) (inv : PackInvocation) : Decidable (HoldsRow k inv) :=
  decidable_of_iff (inv.holds.any fun held => held.1 = k) (by
    rw [Option.any_eq_true]
    constructor
    · rintro ⟨⟨j, memory⟩, hheld, hj⟩
      obtain rfl : j = k := of_decide_eq_true hj
      exact ⟨memory, hheld⟩
    · rintro ⟨memory, hheld⟩
      exact ⟨(k, memory), hheld, decide_eq_true rfl⟩)

instance (window : ℕ) (s : PackRuns) : ∀ ev, Decidable (Resumes window s ev)
  | .invoke now => inferInstanceAs (Decidable (∀ k ∈ newestRunning s.rows, ∀ row ∈ s.rows[k]?,
      ¬ stale window now row → (∀ inv ∈ s.invocations, ¬ HoldsRow k inv) ∧
        ∀ r ∈ row.ruleStats.keys, r ∈ row.completedRuleIds))
  | .openRow _ _ | .executed _ _ | .commitRule _ | .finish _ | .crash _ | .fail _ _ => isTrue trivial

def lsassRule : RuleRunResult :=
  ⟨"r1", "LSASS memory read", [⟨"splunk", some "index=edr lsass", 2,
    [⟨[("host", "ws-1")], none, none⟩, ⟨[("host", "ws-2")], none, none⟩], none⟩]⟩

def serviceRule : RuleRunResult :=
  ⟨"r2", "New service installed", [⟨"splunk", some "index=edr service", 1,
    [⟨[("host", "ws-3")], none, none⟩], none⟩]⟩

-- The second invocation takes over the row of the first one, which is still at work.
def overlappingTicks : List PackEvent :=
  [.invoke 0, .openRow 0 0, .executed 0 [lsassRule], .invoke 15, .executed 1 [lsassRule],
    .commitRule 0, .commitRule 1]

theorem rule_ingested_twice : ¬ ∀ window events s,
    (pack window).run noRuns events = some s → IngestedOnce s := by
  intro h
  have hrun : ((pack 60).run noRuns overlappingTicks).any fun s => decide (¬ IngestedOnce s) := by
    decide
  obtain ⟨s, hs, hnot⟩ := (Option.any_eq_true _ _).mp hrun
  exact of_decide_eq_true hnot (h 60 _ s hs)

theorem rules_ingested_once {events : List PackEvent}
    (hg : (pack window).Along (Resumes window) noRuns events)
    (h : (pack window).run noRuns events = some s) : IngestedOnce s :=
  ((pack window).invariant_along (I := Sound) sound_step noRuns_sound hg h).ingestedOnce

-- The worker dies after one rule and the next invocation goes on with the other.
def resumedAfterCrash : List PackEvent :=
  [.invoke 0, .openRow 0 0, .executed 0 [lsassRule, serviceRule], .commitRule 0, .crash 0,
    .invoke 15, .executed 1 [lsassRule, serviceRule], .commitRule 1, .commitRule 1, .finish 1]

theorem resumedAfterCrash_once : ∃ s, (pack 60).run noRuns resumedAfterCrash = some s ∧
    s.ingested = [(0, "r1"), (0, "r2")] ∧ s.rows.map (·.hitCount) = [3] ∧ IngestedOnce s := by
  have hrun : ((pack 60).run noRuns resumedAfterCrash).any fun s =>
      decide (s.ingested = [(0, "r1"), (0, "r2")] ∧ s.rows.map (·.hitCount) = [3]) := by
    decide
  obtain ⟨s, hs, hstate⟩ := (Option.any_eq_true _ _).mp hrun
  obtain ⟨hingested, hhits⟩ := of_decide_eq_true hstate
  exact ⟨s, hs, hingested, hhits, rules_ingested_once (by decide) hs⟩

end HuntPackRun

end BTagent
