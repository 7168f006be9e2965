import BTagent.Detection.ValidationFeedback
import Mathlib.Data.List.Basic

namespace BTagent

namespace ValidationFeedback

open SessionM

variable {T : CharTable} {R : FeedbackRun} {d d' : FeedbackDb} {s s' : Session FeedbackDb}
  {earlier : List TechniqueVerdict} {i : ℕ} {u v : TechniqueVerdict} {vs : List TechniqueVerdict}
  {filed : Filed} {runId techniqueId : String}

section Condition
variable (R)

def decided (d : FeedbackDb) (techniqueId : String) : Bool :=
  (d.proposals.find? fun r => r.key = (R.orgId, gapSource techniqueId)).any StoredProposal.decided

def shadowed (d : FeedbackDb) (techniqueId : String) : Bool :=
  d.patternProposals.any (isShadow R techniqueId)

def tunes (techniqueId : String) (v : TechniqueVerdict) : Bool :=
  v.verdict ∈ tuningVerdicts ∧ v.techniqueId = techniqueId

-- A flush of the feedback of `v` is refused: the one of the proposal unless an analyst has decided
-- it, the one of the shadow unless it exists, or the one of the suggestion.
def Fails (d : FeedbackDb) (earlier : List TechniqueVerdict) (i : ℕ) (v : TechniqueVerdict) : Prop :=
  if v.verdict = .SILENT_GAP then
    R.refused i .proposal = true ∧ decided R d v.techniqueId = false
  else if v.verdict ∈ tuningVerdicts then
    R.refused i .suggestion = true ∨ (R.refused i .shadow = true ∧
      shadowed R d v.techniqueId = false ∧ earlier.any (tunes v.techniqueId) = false)
  else False

instance : Decidable (Fails R d earlier i v) := by
  unfold Fails
  infer_instance

-- What the feedback of `v` leaves of what the later flushes depend on.
structure After (d d' : FeedbackDb) (v : TechniqueVerdict) : Prop where
  runs : d'.runs = d.runs
  decided : ∀ t, decided R d' t = decided R d t
  shadowed : ∀ t, shadowed R d' t = (shadowed R d t || tunes t v)

end Condition

section Steps

theorem fails_after (h : After R d d' v) : Fails R d' earlier i u ↔ Fails R d (v :: earlier) i u := by
  have hshadowed : (shadowed R d' u.techniqueId = false ∧ earlier.any (tunes u.techniqueId) = false) ↔
      (shadowed R d u.techniqueId = false ∧ (v :: earlier).any (tunes u.techniqueId) = false) := by
    rw [h.shadowed, List.any_cons]
    cases shadowed R d u.techniqueId <;> simp
  simp only [Fails, h.decided, hshadowed]

theorem tuningCluster_inj {t t' : String} (h : tuningCluster t = tuningCluster t') : t = t' := by
  have htext : ∀ x : String, toString x = x := fun _ => rfl
  simpa [tuningCluster, htext] using h

theorem isShadow_shadowRow (R : FeedbackRun) (i : ℕ) (t t' : String) :
    isShadow R t' (shadowRow R i t) = decide (t = t') := by
  have hcluster : tuningCluster t = tuningCluster t' ↔ t = t' := ⟨tuningCluster_inj, fun h => h ▸ rfl⟩
  simp [isShadow, shadowRow, hcluster]

-- One upsert decides no row and keeps what is decided.
theorem upsert_decided (req : PersistRequest) (p : DetectionProposal) (rows : List StoredProposal) :
    let s := req.upsert ⟨rows, [], 0, 0, 0⟩ p
    (s.created + s.updated = 0 ↔ (rows.find? (req.holds p)).any StoredProposal.decided = true) ∧
    ∀ key : String × String,
      ((s.rows ++ s.added).find? fun r => r.key = key).any StoredProposal.decided =
        (rows.find? fun r => r.key = key).any StoredProposal.decided := by
  unfold PersistRequest.upsert
  cases hfind : rows.find? (req.holds p) with
  | none =>
      refine ⟨by simp, fun key => ?_⟩
      have hnew : (req.newRow 0 p).decided = false := rfl
      simp only [List.nil_append, List.find?_append]
      cases rows.find? fun r => r.key = key with
      | some r => rfl
      | none =>
          by_cases hkey : (req.newRow 0 p).key = key
          · simp [hkey, hnew]
          · simp [hkey]
  | some r =>
      by_cases hdecided : r.decided = true
      · simp [hdecided]
      · refine ⟨by simp [hdecided], fun key => ?_⟩
        have hsame : ∀ r : StoredProposal,
            (if req.holds p r = true then req.refresh p r else r).key = r.key ∧
            (if req.holds p r = true then req.refresh p r else r).decided = r.decided := by
          intro r
          split <;> exact ⟨rfl, rfl⟩
        simp only [hdecided, Bool.false_eq_true, if_false, List.append_nil, List.find?_map,
          Option.any_map, Function.comp_def, hsame]

theorem persistProposals_active {req : PersistRequest} {refused : Bool} {ps : List DetectionProposal}
    {up : ProposalUpserts} (hs : s.active = true)
    (hup : ps.foldl req.upsert ⟨s.working.proposals, [], 0, 0, 0⟩ = up) :
    persistProposals req refused ps s =
      if up.created + up.updated = 0 then (.ok ⟨up.created, up.updated, up.unchanged⟩, s)
      else if refused then (.error .flushFailed, s.deactivated)
      else (.ok ⟨up.created, up.updated, up.unchanged⟩,
        { s with working := { s.working with proposals := up.rows ++ up.added } }) := by
  rw [persistProposals, execute_andThen hs]
  simp only [hup]
  by_cases hnothing : up.created + up.updated = 0
  · rw [if_pos hnothing, if_pos hnothing, andThen_ok (flush_none hs)]
    rfl
  · rw [if_neg hnothing, if_neg hnothing]
    cases refused with
    | true => exact andThen_error (flush_refused hs)
    | false => exact andThen_ok (flush_some hs)

theorem gap_spec (hs : s.active = true) (hv : v.verdict = .SILENT_GAP) :
    (Fails R s.working [] i v ∧ feedback T R runId i v filed s = (.error .flushFailed, s.deactivated)) ∨
    (¬ Fails R s.working [] i v ∧ ∃ d filed', After R s.working d v ∧
      feedback T R runId i v filed s = (.ok filed', { s with working := d })) := by
  have huntouched : ∀ t, tunes t v = false := by
    intro t
    simp [tunes, hv, tuningVerdicts]
  obtain ⟨up, hup⟩ : ∃ up, (persistRequest R i).upsert ⟨s.working.proposals, [], 0, 0, 0⟩
      (gapProposal T v) = up := ⟨_, rfl⟩
  obtain ⟨hcount, hdecided⟩ := upsert_decided (persistRequest R i) (gapProposal T v) s.working.proposals
  rw [hup] at hcount hdecided
  have hrun : ∀ refused, persistProposals (persistRequest R i) refused [gapProposal T v] s = _ :=
    fun refused => persistProposals_active hs hup
  have hstored : up.created + up.updated = 0 ↔ decided R s.working v.techniqueId = true := hcount
  have hfails : Fails R s.working [] i v ↔ R.refused i .proposal = true ∧
      ¬ up.created + up.updated = 0 := by
    rw [hstored, Bool.not_eq_true, Fails, if_pos hv]
  rw [feedback, if_pos hv, fileSilentGapProposal, hfails]
  by_cases hnothing : up.created + up.updated = 0
  · simp only [if_pos hnothing] at hrun
    refine Or.inr ⟨fun h => h.2 hnothing, s.working, { filed with silentGap := filed.silentGap + 1 },
      ⟨rfl, fun t => rfl, fun t => ?_⟩, andThen_ok (hrun _)⟩
    simp [huntouched]
  · simp only [if_neg hnothing] at hrun
    cases hrefused : R.refused i .proposal with
    | true =>
        exact Or.inl ⟨⟨rfl, hnothing⟩, andThen_error (hrun true)⟩
    | false =>
        refine Or.inr ⟨by simp, { s.working with proposals := up.rows ++ up.added },
          { filed with silentGap := filed.silentGap + 1 },
          ⟨rfl, fun t => hdecided _, fun t => ?_⟩, andThen_ok (hrun false)⟩
        simp [huntouched, shadowed]

theorem ensureShadow_spec (hs : s.active = true) :
    ((R.refused i .shadow = true ∧ shadowed R s.working techniqueId = false) ∧
      ensureTuningShadowProposal R i techniqueId s = (.error .flushFailed, s.deactivated)) ∨
    (¬ (R.refused i .shadow = true ∧ shadowed R s.working techniqueId = false) ∧
      ∃ rowId rows, ensureTuningShadowProposal R i techniqueId s =
        (.ok rowId, { s with working := { s.working with patternProposals := rows } }) ∧
      ∀ t, rows.any (isShadow R t) = (shadowed R s.working t || decide (techniqueId = t))) := by
  rw [ensureTuningShadowProposal, execute_andThen hs]
  cases hfind : s.working.patternProposals.find? (isShadow R techniqueId) with
  | some row =>
      have hshadow : isShadow R techniqueId row = true := List.find?_some hfind
      have hstored : shadowed R s.working techniqueId = true :=
        List.any_eq_true.mpr ⟨row, List.mem_of_find?_eq_some hfind, hshadow⟩
      refine Or.inr ⟨by simp [hstored], row.id, s.working.patternProposals, rfl, fun t => ?_⟩
      by_cases ht : techniqueId = t
      · subst ht
        simpa [shadowed] using hstored
      · simp [shadowed, ht]
  | none =>
      have hstored : shadowed R s.working techniqueId = false := by
        rw [shadowed, List.any_eq_false]
        exact List.find?_eq_none.mp hfind
      cases hrefused : R.refused i .shadow with
      | true => exact Or.inl ⟨⟨rfl, hstored⟩, andThen_error (flush_refused hs)⟩
      | false =>
          refine Or.inr ⟨by simp, _, s.working.patternProposals ++ [shadowRow R i techniqueId],
            andThen_ok (flush_some hs), fun t => ?_⟩
          simp [shadowed, isShadow_shadowRow]

theorem suggestion_spec {proposalId : String}
    (hshadow : ensureTuningShadowProposal R i v.techniqueId s' = (.ok proposalId, s))
    (hs : s.active = true) :
    (R.refused i .suggestion = true ∧
      fileTuningSuggestion R i v runId s' = (.error .flushFailed, s.deactivated)) ∨
    (R.refused i .suggestion = false ∧ ∃ row rows, fileTuningSuggestion R i v runId s' =
      (.ok row, { s with working := { s.working with suggestions := rows } })) := by
  rw [fileTuningSuggestion, andThen_ok hshadow, execute_andThen hs]
  cases s.working.suggestions.find? (isSuggestion R proposalId) with
  | none =>
      cases R.refused i .suggestion with
      | true => exact Or.inl ⟨rfl, andThen_error (flush_refused hs)⟩
      | false => exact Or.inr ⟨rfl, _, _, andThen_ok (flush_some hs)⟩
  | some row =>
      cases R.refused i .suggestion with
      | true => exact Or.inl ⟨rfl, andThen_error (flush_refused hs)⟩
      | false => exact Or.inr ⟨rfl, _, _, andThen_ok (flush_some hs)⟩

theorem tuning_spec (hs : s.active = true) (hv : v.verdict ∈ tuningVerdicts) :
    (Fails R s.working [] i v ∧ feedback T R runId i v filed s = (.error .flushFailed, s.deactivated)) ∨
    (¬ Fails R s.working [] i v ∧ ∃ d filed', After R s.working d v ∧
      feedback T R runId i v filed s = (.ok filed', { s with working := d })) := by
  have hnogap : v.verdict ≠ .SILENT_GAP := by
    intro h
    rw [h] at hv
    exact absurd hv (by decide)
  have hfails : Fails R s.working [] i v ↔ R.refused i .suggestion = true ∨
      (R.refused i .shadow = true ∧ shadowed R s.working v.techniqueId = false) := by
    simp [Fails, hnogap, hv]
  rw [feedback, if_neg hnogap, if_pos hv, hfails]
  rcases ensureShadow_spec hs with ⟨hrefused, hshadow⟩ | ⟨haccepted, rowId, rows, hshadow, hrows⟩
  · exact Or.inl ⟨Or.inr hrefused, andThen_error (andThen_error hshadow)⟩
  · rcases suggestion_spec hshadow hs with ⟨hrefused, hrun⟩ | ⟨hsuggested, row, suggestions, hrun⟩
    · exact Or.inl ⟨Or.inl hrefused, andThen_error hrun⟩
    · refine Or.inr ⟨?_, { s.working with patternProposals := rows, suggestions := suggestions },
        { filed with tuning := filed.tuning + 1 }, ⟨rfl, fun t => rfl, ?_⟩, andThen_ok hrun⟩
      · rintro (h | h)
        · simp [hsuggested] at h
        · exact haccepted h
      · intro t
        simpa [tunes, hv, shadowed] using hrows t

theorem feedback_spec (T : CharTable) (R : FeedbackRun) (runId : String) (i : ℕ)
    (v : TechniqueVerdict) (filed : Filed) (hs : s.active = true) :
    (Fails R s.working [] i v ∧ feedback T R runId i v filed s = (.error .flushFailed, s.deactivated)) ∨
    (¬ Fails R s.working [] i v ∧ ∃ d filed', After R s.working d v ∧
      feedback T R runId i v filed s = (.ok filed', { s with working := d })) := by
  by_cases hgap : v.verdict = .SILENT_GAP
  · exact gap_spec hs hgap
  · by_cases htune : v.verdict ∈ tuningVerdicts
    · exact tuning_spec hs htune
    · refine Or.inr ⟨by simp [Fails, hgap, htune], s.working, filed, ⟨rfl, fun t => rfl, fun t => ?_⟩, ?_⟩
      · simp [tunes, htune]
      · simp only [feedback, hgap, htune, if_false, ret]

end Steps

section Loop

theorem unusable_persistProposals {req : PersistRequest} {refused : Bool}
    {ps : List DetectionProposal} : (persistProposals req refused ps).Unusable :=
  unusable_execute.andThen

theorem unusable_fileTuningSuggestion : (fileTuningSuggestion R i v runId).Unusable :=
  (unusable_execute.andThen).andThen

theorem dispatch_unusable (hs : s.active = false) :
    dispatchFrom T R id runId i vs filed s = (.ok filed, s) := by
  induction vs generalizing i with
  | nil => rfl
  | cons v vs ih =>
      have hstep : (feedback T R runId i v filed).swallow filed s = (.ok filed, s) := by
        unfold feedback
        split
        · exact (unusable_persistProposals.andThen).swallow hs
        · split
          · exact (unusable_fileTuningSuggestion.andThen).swallow hs
          · rfl
      exact (andThen_ok hstep).trans ih

-- With savepoints the session stays usable and keeps the run rows.
theorem isolated_active (T : CharTable) (R : FeedbackRun) (runId : String) (i : ℕ)
    (vs : List TechniqueVerdict) (filed : Filed) (hs : s.active = true) :
    ∃ filed' d, dispatchFrom T R savepoint runId i vs filed s = (.ok filed', { s with working := d }) ∧
      d.runs = s.working.runs := by
  induction vs generalizing i filed s with
  | nil => exact ⟨filed, s.working, rfl, rfl⟩
  | cons v vs ih =>
      rcases feedback_spec T R runId i v filed hs with
        ⟨-, h⟩ | ⟨-, d, filed₁, hafter, h⟩
      · have hstep := swallow_error (savepoint_error h) (a := filed)
        obtain ⟨filed', d', hrest, hruns⟩ := ih (i + 1) filed hs
        exact ⟨filed', d', (andThen_ok hstep).trans hrest, hruns⟩
      · have hstep := swallow_ok (savepoint_ok h) (c := filed)
        obtain ⟨filed', d', hrest, hruns⟩ := ih (i + 1) filed₁ (s := { s with working := d }) hs
        exact ⟨filed', d', (andThen_ok hstep).trans hrest, hruns.trans hafter.runs⟩

theorem dispatch_spec (T : CharTable) (R : FeedbackRun) (runId : String) (i : ℕ)
    (vs : List TechniqueVerdict) (filed : Filed) (hs : s.active = true) :
    ((∀ j v, vs[j]? = some v → ¬ Fails R s.working (vs.take j) (i + j) v) ∧
      dispatchFrom T R id runId i vs filed s = dispatchFrom T R savepoint runId i vs filed s) ∨
    ((∃ j v, vs[j]? = some v ∧ Fails R s.working (vs.take j) (i + j) v) ∧
      ∃ filed', dispatchFrom T R id runId i vs filed s = (.ok filed', s.deactivated)) := by
  induction vs generalizing i filed s with
  | nil => exact Or.inl ⟨by simp, rfl⟩
  | cons v vs ih =>
      rcases feedback_spec T R runId i v filed hs with
        ⟨hfails, h⟩ | ⟨hkept, d, filed₁, hafter, h⟩
      · refine Or.inr ⟨⟨0, v, rfl, hfails⟩, filed, ?_⟩
        exact (andThen_ok (swallow_error h)).trans (dispatch_unusable rfl)
      · have hplain : dispatchFrom T R id runId i (v :: vs) filed s =
            dispatchFrom T R id runId (i + 1) vs filed₁ { s with working := d } :=
          andThen_ok (swallow_ok h)
        have hscoped : dispatchFrom T R savepoint runId i (v :: vs) filed s =
            dispatchFrom T R savepoint runId (i + 1) vs filed₁ { s with working := d } :=
          andThen_ok (swallow_ok (savepoint_ok h))
        have hindex : ∀ j, i + (j + 1) = i + 1 + j := by omega
        rw [hplain, hscoped]
        rcases ih (i + 1) filed₁ (s := { s with working := d }) hs with
          ⟨hall, heq⟩ | ⟨⟨j, u, hu, hfails⟩, filed', hrun⟩
        · refine Or.inl ⟨?_, heq⟩
          intro j u hu
          cases j with
          | zero =>
              cases hu
              exact hkept
          | succ j =>
              rw [List.take_succ_cons, hindex, ← fails_after hafter]
              exact hall j u hu
        · refine Or.inr ⟨⟨j + 1, u, hu, ?_⟩, filed', hrun⟩
          rw [List.take_succ_cons, hindex, ← fails_after hafter]
          exact hfails

end Loop

variable (T R) in
-- The run row and the feedback of every verdict whose own flush does not fail are committed.
def Isolated (rowId : String) (packs : List String) (report : ValidationReport) (d : FeedbackDb) :
    Prop :=
  request R (dispatchValidationFeedback T R) rowId packs report d =
    request R (isolatedFeedback T R) rowId packs report d

section Request
variable {report : ValidationReport}
  {rowId : String} {packs : List String}

theorem request_eq (dispatch : ValidationReport → SessionM FeedbackDb Filed) (packs : List String)
    {s : Session FeedbackDb}
    (h : dispatch report ⟨d, addRun (runRow R rowId packs report) d, true⟩ = (.ok filed, s)) :
    request R dispatch rowId packs report d = if s.active then s.working else s.committed := by
  have hflush : flush (some (addRun (runRow R rowId packs report))) false (Session.fresh d) =
      (.ok (), ⟨d, addRun (runRow R rowId packs report) d, true⟩) := flush_some rfl
  have hpersist : persistValidationReport R dispatch rowId packs report (Session.fresh d) =
      (.ok (runRow R rowId packs report), s) := by
    unfold persistValidationReport
    rw [andThen_ok hflush, andThen_ok (swallow_ok h)]
    rfl
  rw [request, andThen_ok hpersist, commit]
  cases s.active <;> rfl

theorem isolated_runs : (request R (isolatedFeedback T R) rowId packs report d).runs =
    d.runs ++ [runRow R rowId packs report] := by
  obtain ⟨filed, d', hrun, hruns⟩ := isolated_active T R report.runId 0 report.verdicts ⟨0, 0⟩
    (s := ⟨d, addRun (runRow R rowId packs report) d, true⟩) rfl
  have hrequest := request_eq (isolatedFeedback T R) packs hrun
  rw [hrequest]
  exact hruns

end Request

section Example

def lateAndSilent : ValidationReport where
  runId := "valrun_1"
  scenariosRun := 1
  summary := ⟨2, 0, ["T1003"]⟩
  emulationTargetEnv := some "sandbox"
  verdicts := [⟨"T1059", .LATE, ""⟩, ⟨"T1003", .SILENT_GAP, ""⟩]

-- Another request has inserted the shadow of T1059 after it was looked up.
def shadowTaken : FeedbackRun where
  orgId := "org-1"
  matchColumns := fun _ _ _ => none
  newId := fun _ kind => kind
  refused := fun i w => i = 0 ∧ w = .shadow

theorem shadow_sinks_run :
    ¬ Isolated CharTable.ascii shadowTaken "dvr_1" [] lateAndSilent ⟨[], [], [], []⟩ := by
  intro h
  have hruns := congrArg (fun d => d.runs.length) h
  revert hruns
  decide +kernel

end Example

theorem isolated_iff (T : CharTable) (R : FeedbackRun) (rowId : String) (packs : List String)
    (report : ValidationReport) (d : FeedbackDb) :
    Isolated T R rowId packs report d ↔ ∀ i v, report.verdicts[i]? = some v →
      ¬ Fails R d (report.verdicts.take i) i v := by
  have hd : ∀ {i v}, Fails R (addRun (runRow R rowId packs report) d) (report.verdicts.take i) i v ↔
      Fails R d (report.verdicts.take i) i v := Iff.rfl
  rcases dispatch_spec T R report.runId 0 report.verdicts ⟨0, 0⟩
    (s := ⟨d, addRun (runRow R rowId packs report) d, true⟩) rfl with
    ⟨hnone, heq⟩ | ⟨⟨j, v, hv, hfails⟩, filed, hrun⟩
  · simp only [Nat.zero_add] at hnone
    refine iff_of_true ?_ hnone
    have hsame : dispatchValidationFeedback T R report ⟨d, addRun (runRow R rowId packs report) d, true⟩ =
      isolatedFeedback T R report ⟨d, addRun (runRow R rowId packs report) d, true⟩ := heq
    obtain ⟨filed, d', hrun, -⟩ := isolated_active T R report.runId 0 report.verdicts ⟨0, 0⟩
      (s := ⟨d, addRun (runRow R rowId packs report) d, true⟩) rfl
    have hscoped := request_eq (isolatedFeedback T R) packs hrun
    have hplain := request_eq (dispatchValidationFeedback T R) packs
      (hsame.trans hrun)
    rw [Isolated, hscoped, hplain]
  · rw [Nat.zero_add] at hfails
    refine iff_of_false ?_ fun hall => hall j v hv hfails
    intro h
    have hplain := request_eq (dispatchValidationFeedback T R) packs hrun
    have hruns := congrArg FeedbackDb.runs h
    rw [hplain, isolated_runs] at hruns
    simp [Session.deactivated] at hruns


end ValidationFeedback

end BTagent
