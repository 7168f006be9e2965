import BTagent.Cti.Proposals
import BTagent.Lib.Monads

namespace BTagent

-- The result of `validate_rule`, with the other fields of its dump.
structure RuleValidation where
  verdict : String
  totalHits : ℕ
  rest : List (String × Json)

structure ValidationCall where
  rowId : String
  yaml : String
  outcome : RuleValidation

-- A rule of a composed PR: its row at composition, the body that ships, and the last validation run
-- for the row before.
structure ComposedRule where
  row : DetectionProposalRow
  content : String
  call : Option ValidationCall

structure ProposalRows where
  rows : List DetectionProposalRow
  keyed : (rows.map DetectionProposalRow.id).Nodup

structure EvidenceDb where
  proposals : ProposalRows
  calls : List ValidationCall
  prs : List DetectionPr
  composed : List ComposedRule

structure ComposeRequest where
  orgId : String
  rowIds : List String
  title : Option String
  finalYamlByRow : String → Option String

inductive EvidenceEvent where
  | setSigma (orgId rowId sigmaYaml : String)
  | validate (orgId rowId : String) (outcome : RuleValidation)
  | setState (orgId rowId : String) (state : ProposalState)
  | compose (req : ComposeRequest)

namespace RuleValidation

def payload (v : RuleValidation) : Json :=
  .obj (("verdict", .str v.verdict) :: ("total_hits", .int v.totalHits) :: v.rest)

end RuleValidation

namespace ProposalRows

def change (t : ProposalRows) (w : String × ProposalUpdate) : ProposalRows where
  rows := t.rows.map fun r => if r.id = w.1 then w.2.apply r else r
  keyed := by
    have hids : (t.rows.map fun r => if r.id = w.1 then w.2.apply r else r).map
        DetectionProposalRow.id = t.rows.map DetectionProposalRow.id := by
      rw [List.map_map]
      apply List.map_congr_left
      intro r _
      simp only [Function.comp_apply]
      split <;> rfl
    rw [hids]
    exact t.keyed

end ProposalRows

namespace CtiDetection

-- The body that ships with the request's overrides.
def shippedWith (finalYamlByRow : String → Option String) (row : DetectionProposalRow) : String :=
  (finalYamlByRow row.id).getD (shippedYaml row)

def filesWith (T : CharTable) (finalYamlByRow : String → Option String)
    (rows : List DetectionProposalRow) : List RuleFile :=
  (buildPrFiles T rows).map fun f => { f with content := (finalYamlByRow f.rowId).getD f.content }

def validationField (row : DetectionProposalRow) (name : String) : Option Json :=
  match row.validation with
  | some (.obj kvs) => (kvs.find? fun kv => kv.1 = name).map Prod.snd
  | _ => none

-- The line of the PR body about a row's validation.
def validationLine (row : DetectionProposalRow) : String :=
  let verdict := match validationField row "verdict" with
    | some (.str v) => v
    | _ => "not validated"
  match validationField row "total_hits" with
  | some (.int hits) => s!"{verdict} — {hits} hit(s) over the validation window"
  | _ => s!"{verdict} (no validation run recorded)"

end CtiDetection

namespace EvidenceDb
open CtiDetection

variable (T : CharTable) (parse : String → Option String) (repo : String)

def start (proposals : ProposalRows) : EvidenceDb := ⟨proposals, [], [], []⟩

def lastCall (calls : List ValidationCall) (rowId : String) : Option ValidationCall :=
  (calls.filter fun c => c.rowId = rowId).getLast?

-- A request on one row; where it is missing or refused, nothing changes.
def request (s : EvidenceDb) (orgId rowId : String)
    (handle : DetectionProposalRow → Except String ProposalUpdate) : EvidenceDb :=
  match loadRows s.proposals.rows orgId [rowId] with
  | [] => s
  | row :: _ =>
      match handle row with
      | .error _ => s
      | .ok update => { s with proposals := s.proposals.change (row.id, update) }

def validate (s : EvidenceDb) (orgId rowId : String) (outcome : RuleValidation) : EvidenceDb :=
  match loadRows s.proposals.rows orgId [rowId] with
  | [] => s
  | row :: _ => { s with
      proposals := s.proposals.change (row.id, validateProposal outcome.payload)
      calls := s.calls ++ [⟨row.id, row.sigmaYaml, outcome⟩] }

-- The rows that a request composes and the PR it opens.
def composed? (s : EvidenceDb) (req : ComposeRequest) :
    Except String (List DetectionProposalRow × DetectionPr) := do
  let rows ← eligibleRows (loadRows s.proposals.rows req.orgId req.rowIds) req.rowIds
  let pr ← gitOpenDetectionPr T repo s.prs (prTitle rows req.title)
    (filesWith T req.finalYamlByRow rows)
  pure (rows, pr)

def compose (s : EvidenceDb) (req : ComposeRequest) : EvidenceDb :=
  match s.composed? T repo req with
  | .error _ => s
  | .ok (rows, pr) => {
      proposals := (rows.map (shippedMark pr.prUrl)).foldl ProposalRows.change s.proposals
      calls := s.calls
      prs := s.prs ++ [pr]
      composed := s.composed ++ rows.map fun row =>
        ⟨row, shippedWith req.finalYamlByRow row, lastCall s.calls row.id⟩ }

def step (s : EvidenceDb) : EvidenceEvent → Option EvidenceDb
  | .setSigma orgId rowId sigmaYaml =>
      some (s.request orgId rowId fun row => setProposalSigma parse row sigmaYaml)
  | .validate orgId rowId outcome => some (s.validate orgId rowId outcome)
  | .setState orgId rowId state => some (s.request orgId rowId fun row => setProposalState row state)
  | .compose req => some (s.compose T repo req)

def machine : Machine EvidenceDb EvidenceEvent := ⟨step T parse repo⟩

section Evidence

variable {s s' : EvidenceDb} {e : EvidenceEvent} {t : ProposalRows} {row : DetectionProposalRow}
  {rows : List DetectionProposalRow} {pr : DetectionPr} {req : ComposeRequest}
  {w : String × ProposalUpdate} {ws : List (String × ProposalUpdate)} {calls : List ValidationCall}
  {update : ProposalUpdate} {orgId rowId : String}

-- What the body cites for the rule was computed, by the last validation before, on what ships.
def Cited (c : ComposedRule) : Prop :=
  c.row.validation ≠ none →
    ∃ call, c.call = some call ∧ c.row.validation = some call.outcome.payload ∧ call.yaml = c.content

-- The row ships its draft: neither the request nor an edit puts another body in its place.
def ShipsDraft (finalYamlByRow : String → Option String) (row : DetectionProposalRow) : Prop :=
  match finalYamlByRow row.id with
  | some yaml => yaml = row.sigmaYaml
  | none => truthy row.finalSigmaYaml = true → row.finalSigmaYaml = some row.sigmaYaml

instance {finalYamlByRow : String → Option String} : DecidablePred (ShipsDraft finalYamlByRow) :=
  fun row => match h : finalYamlByRow row.id with
    | some yaml => decidable_of_iff (yaml = row.sigmaYaml) (by rw [ShipsDraft, h])
    | none => decidable_of_iff (truthy row.finalSigmaYaml = true →
        row.finalSigmaYaml = some row.sigmaYaml) (by rw [ShipsDraft, h])

def Accepted (s : EvidenceDb) (req : ComposeRequest) : Prop := ∃ x, s.composed? T repo req = .ok x

def ShipsValidated (s : EvidenceDb) : EvidenceEvent → Prop
  | .compose req => s.Accepted T repo req →
      ∀ row ∈ loadRows s.proposals.rows req.orgId req.rowIds, row.validation ≠ none →
        ShipsDraft req.finalYamlByRow row
  | _ => True

-- A stored verdict is that of the last validation, which ran on the row's draft.
def Recorded (calls : List ValidationCall) (row : DetectionProposalRow) : Prop :=
  row.validation ≠ none →
    ∃ call, lastCall calls row.id = some call ∧ row.validation = some call.outcome.payload ∧
      call.yaml = row.sigmaYaml

theorem validationLine_payload {v : RuleValidation} (h : row.validation = some v.payload) :
    validationLine row = s!"{v.verdict} — {(v.totalHits : ℤ)} hit(s) over the validation window" := by
  have hverdict : validationField row "verdict" = some (.str v.verdict) := by
    simp [validationField, h, RuleValidation.payload]
  have hhits : validationField row "total_hits" = some (.int v.totalHits) := by
    simp [validationField, h, RuleValidation.payload]
  simp only [validationLine, hverdict, hhits]

theorem shippedWith_eq_iff {finalYamlByRow : String → Option String} :
    shippedWith finalYamlByRow row = row.sigmaYaml ↔ ShipsDraft finalYamlByRow row := by
  unfold shippedWith ShipsDraft
  cases finalYamlByRow row.id with
  | some yaml => simp
  | none =>
      simp only [Option.getD_none, shippedYaml]
      cases hfinal : row.finalSigmaYaml with
      | none => simp [truthy]
      | some yaml =>
          by_cases hyaml : truthy (some yaml) = true
          · simp [hyaml]
          · simp [hyaml]

theorem recorded_apply (h : Recorded calls row) (hupdate : update.validation = none) :
    Recorded calls (update.apply row) := by
  have hsame : (update.apply row).validation = row.validation := by
    rw [ProposalUpdate.apply, hupdate]
    rfl
  unfold Recorded
  rw [hsame]
  exact h

theorem recorded_change (h : ∀ row ∈ t.rows, Recorded calls row) (hw : w.2.validation = none) :
    ∀ row ∈ (t.change w).rows, Recorded calls row := by
  intro row hrow
  obtain ⟨r, hr, rfl⟩ := List.mem_map.mp hrow
  split
  · exact recorded_apply (h r hr) hw
  · exact h r hr

theorem recorded_foldl (h : ∀ row ∈ t.rows, Recorded calls row)
    (hws : ∀ w ∈ ws, w.2.validation = none) :
    ∀ row ∈ (ws.foldl ProposalRows.change t).rows, Recorded calls row := by
  induction ws generalizing t with
  | nil => exact h
  | cons w ws ih =>
      obtain ⟨hw, hws⟩ := List.forall_mem_cons.mp hws
      exact ih (recorded_change h hw) hws

theorem loaded_mem (h : row ∈ loadRows rows orgId [rowId]) : row ∈ rows := (List.mem_filter.mp h).1

theorem recorded_request (orgId rowId : String)
    {handle : DetectionProposalRow → Except String ProposalUpdate}
    (h : ∀ row ∈ s.proposals.rows, Recorded s.calls row)
    (hhandle : ∀ row update, handle row = .ok update → update.validation = none) :
    (∀ row ∈ (s.request orgId rowId handle).proposals.rows,
      Recorded (s.request orgId rowId handle).calls row) ∧
      (s.request orgId rowId handle).composed = s.composed := by
  unfold request
  cases loadRows s.proposals.rows orgId [rowId] with
  | nil => exact ⟨h, rfl⟩
  | cons row _ =>
      simp only
      cases hrow : handle row with
      | error _ => exact ⟨h, rfl⟩
      | ok update => exact ⟨recorded_change h (hhandle row update hrow), rfl⟩

theorem setProposalState_validation {state : ProposalState}
    (h : setProposalState row state = .ok update) : update.validation = none := by
  unfold setProposalState at h
  split at h
  · cases h
  · cases h
    rfl

theorem setProposalSigma_validation {parse : String → Option String} {sigmaYaml : String}
    (h : setProposalSigma parse row sigmaYaml = .ok update) : update.validation = none := by
  unfold setProposalSigma at h
  split at h
  · cases h
  · split at h
    · cases h
    · split at h
      · cases h
      · cases h
        rfl

theorem lastCall_concat {call : ValidationCall} : lastCall (calls ++ [call]) rowId =
    if call.rowId = rowId then some call else lastCall calls rowId := by
  unfold lastCall
  by_cases hcall : call.rowId = rowId
  · simp [hcall]
  · simp [hcall]

theorem recorded_validate (orgId rowId : String) (outcome : RuleValidation)
    (h : ∀ row ∈ s.proposals.rows, Recorded s.calls row) :
    (∀ row ∈ (s.validate orgId rowId outcome).proposals.rows,
      Recorded (s.validate orgId rowId outcome).calls row) ∧
      (s.validate orgId rowId outcome).composed = s.composed := by
  unfold validate
  cases hload : loadRows s.proposals.rows orgId [rowId] with
  | nil => exact ⟨h, rfl⟩
  | cons row _ =>
      refine ⟨?_, rfl⟩
      have hrow : row ∈ s.proposals.rows := loaded_mem (hload ▸ List.mem_cons_self)
      intro r' hr'
      obtain ⟨r, hr, rfl⟩ := List.mem_map.mp hr'
      by_cases hid : r.id = row.id
      · -- ids are unique, so the row that was validated is the one that is changed
        obtain rfl : r = row := List.inj_on_of_nodup_map s.proposals.keyed hr hrow hid
        rw [if_pos rfl]
        intro _
        refine ⟨⟨r.id, r.sigmaYaml, outcome⟩, ?_, rfl, rfl⟩
        exact lastCall_concat.trans (if_pos rfl)
      · rw [if_neg hid]
        intro hstored
        obtain ⟨call, hlast, hpayload⟩ := h r hr hstored
        refine ⟨call, ?_, hpayload⟩
        rw [lastCall_concat, if_neg fun heq => hid heq.symm]
        exact hlast

theorem mem_eligible {rowIds : List String} {loaded : List DetectionProposalRow}
    (h : eligibleRows loaded rowIds = .ok rows) : row ∈ rows ↔ row ∈ loaded := by
  unfold eligibleRows at h
  simp only at h
  split_ifs at h
  cases h
  exact List.mem_insertionSort _

theorem composed_rows (h : s.composed? T repo req = .ok (rows, pr)) :
    row ∈ rows ↔ row ∈ loadRows s.proposals.rows req.orgId req.rowIds := by
  obtain ⟨rows', hrows, h⟩ := Except.bind_ok_iff.mp h
  obtain ⟨pr', -, h⟩ := Except.bind_ok_iff.mp h
  cases h
  exact mem_eligible hrows

variable {T parse repo}

theorem recorded_compose (h : ∀ row ∈ s.proposals.rows, Recorded s.calls row) :
    ∀ row ∈ (s.compose T repo req).proposals.rows, Recorded (s.compose T repo req).calls row := by
  unfold compose
  cases s.composed? T repo req with
  | error _ => exact h
  | ok x =>
      obtain ⟨rows, pr⟩ := x
      apply recorded_foldl h
      intro w hw
      obtain ⟨row, -, rfl⟩ := List.mem_map.mp hw
      rfl

theorem cited_iff (h : Recorded s.calls row) :
    Cited ⟨row, shippedWith req.finalYamlByRow row, lastCall s.calls row.id⟩ ↔
      (row.validation ≠ none → ShipsDraft req.finalYamlByRow row) := by
  rw [← shippedWith_eq_iff]
  constructor
  · intro hcited hstored
    obtain ⟨call, hlast, -, hyaml⟩ := h hstored
    obtain ⟨call', hlast', -, hyaml'⟩ := hcited hstored
    obtain rfl : call = call' := Option.some.inj (hlast.symm.trans hlast')
    exact hyaml'.symm.trans hyaml
  · intro hships hstored
    obtain ⟨call, hlast, hpayload, hyaml⟩ := h hstored
    exact ⟨call, hlast, hpayload, hyaml.trans (hships hstored).symm⟩

theorem cited_compose (h : ∀ row ∈ s.proposals.rows, Recorded s.calls row) :
    (∀ c ∈ (s.compose T repo req).composed, Cited c) ↔
      (∀ c ∈ s.composed, Cited c) ∧ ShipsValidated T repo s (.compose req) := by
  unfold compose ShipsValidated Accepted
  cases hcomposed : s.composed? T repo req with
  | error err =>
      have hnone : ¬∃ x, s.composed? T repo req = .ok x := by
        rintro ⟨x, hx⟩
        rw [hcomposed] at hx
        cases hx
      exact ⟨fun hall => ⟨hall, fun hsome => absurd hsome hnone⟩, fun hall => hall.1⟩
  | ok x =>
      obtain ⟨rows, pr⟩ := x
      simp only [List.forall_mem_append, List.forall_mem_map]
      refine and_congr_right fun _ => ?_
      have hmem : ∀ row, row ∈ rows ↔ row ∈ loadRows s.proposals.rows req.orgId req.rowIds :=
        fun row => composed_rows T repo hcomposed
      constructor
      · intro hall _ row hrow
        have hrecorded := h row (List.mem_filter.mp hrow).1
        exact (cited_iff hrecorded).mp (hall row ((hmem row).mpr hrow))
      · intro hships row hrow
        have hload := (hmem row).mp hrow
        have hrecorded := h row (List.mem_filter.mp hload).1
        exact (cited_iff hrecorded).mpr (hships ⟨_, hcomposed⟩ row hload)

-- One step keeps the record of verdicts, and what it composes is cited as the condition says.
theorem evidence_step (h : ∀ row ∈ s.proposals.rows, Recorded s.calls row)
    (hstep : step T parse repo s e = some s') :
    (∀ row ∈ s'.proposals.rows, Recorded s'.calls row) ∧
      ((∀ c ∈ s'.composed, Cited c) ↔
        (∀ c ∈ s.composed, Cited c) ∧ ShipsValidated T repo s e) := by
  cases e with
  | setSigma orgId rowId sigmaYaml =>
      cases hstep
      obtain ⟨hrecorded, hcomposed⟩ := recorded_request orgId rowId h fun row update hok =>
        setProposalSigma_validation hok
      refine ⟨hrecorded, ?_⟩
      rw [hcomposed]
      simp [ShipsValidated]
  | validate orgId rowId outcome =>
      cases hstep
      obtain ⟨hrecorded, hcomposed⟩ := recorded_validate orgId rowId outcome h
      refine ⟨hrecorded, ?_⟩
      rw [hcomposed]
      simp [ShipsValidated]
  | setState orgId rowId state =>
      cases hstep
      obtain ⟨hrecorded, hcomposed⟩ := recorded_request orgId rowId h fun row update hok =>
        setProposalState_validation hok
      refine ⟨hrecorded, ?_⟩
      rw [hcomposed]
      simp [ShipsValidated]
  | compose req =>
      cases hstep
      exact ⟨recorded_compose h, cited_compose h⟩

end Evidence

section Runs

variable {T parse repo} {s : EvidenceDb} {events : List EvidenceEvent} {proposals : ProposalRows}

-- In every state reached from unvalidated proposals, the PR body cites verdicts about what ships,
-- exactly where every validated row that is composed ships its draft.
theorem evidence_about_shipped_iff (hfresh : ∀ row ∈ proposals.rows, row.validation = none)
    (hrun : (machine T parse repo).run (start proposals) events = some s) :
    (∀ fs gs, events = fs ++ gs → ∀ u, (machine T parse repo).run (start proposals) fs = some u →
      ∀ c ∈ u.composed, Cited c) ↔
    (machine T parse repo).Along (ShipsValidated T repo) (start proposals) events := by
  have hstart : (∀ row ∈ (start proposals).proposals.rows, Recorded (start proposals).calls row) ∧
      ∀ c ∈ (start proposals).composed, Cited c := by
    refine ⟨fun row hrow hstored => absurd (hfresh row hrow) hstored, ?_⟩
    intro c hc
    cases hc
  refine (machine T parse repo).reached_iff
    (I := fun u => (∀ row ∈ u.proposals.rows, Recorded u.calls row) ∧ ∀ c ∈ u.composed, Cited c)
    (P := fun u => ∀ c ∈ u.composed, Cited c) And.right ?_ ?_ hstart hrun
  · intro s e s' hs hg hstep
    obtain ⟨hrecorded, hcited⟩ := evidence_step hs.1 hstep
    exact ⟨hrecorded, hcited.mpr ⟨hs.2, hg⟩⟩
  · intro s e s' hs hg hstep hall
    obtain ⟨-, hcited⟩ := evidence_step hs.1 hstep
    exact hg (hcited.mp hall).2

def draftRow : DetectionProposalRow where
  id := "dprop_1"
  orgId := "org_1"
  title := "CTI-Derived Detection: Domain Name IOC — c2.example"
  sigmaYaml := "title: draft"
  finalSigmaYaml := none
  techniqueIds := ["T1071.001"]
  state := .PROPOSED
  validation := none
  prUrl := none
  prOutcome := .PROPOSED

def oneDraft : ProposalRows := ⟨[draftRow], List.nodup_singleton _⟩

def noHits : RuleValidation := ⟨"clean", 0, []⟩

def shipDraft : ComposeRequest := ⟨"org_1", ["dprop_1"], none, fun _ => none⟩

theorem accepted_draft_cited : ∃ u,
    (machine .ascii some "detections").run (start oneDraft)
      [.validate "org_1" "dprop_1" noHits, .setState "org_1" "dprop_1" .ACCEPTED,
        .compose shipDraft] = some u ∧ ∀ c ∈ u.composed, Cited c := by
  obtain ⟨u, hu⟩ : ∃ u, (machine .ascii some "detections").run (start oneDraft)
      [.validate "org_1" "dprop_1" noHits, .setState "org_1" "dprop_1" .ACCEPTED,
        .compose shipDraft] = some u := ⟨_, rfl⟩
  refine ⟨u, hu, ?_⟩
  have hfresh : ∀ row ∈ oneDraft.rows, row.validation = none := by
    intro row hrow
    rw [List.mem_singleton.mp hrow]
    rfl
  refine (evidence_about_shipped_iff hfresh hu).mpr ?_ _ [] (List.append_nil _).symm u hu
  refine ⟨trivial, trivial, ?_, trivial⟩
  intro _
  decide

-- An edit after the validation ships with the draft's verdict.
theorem edited_rule_cites_draft : ∃ u,
    (machine .ascii some "detections").run (start oneDraft)
      [.validate "org_1" "dprop_1" noHits, .setSigma "org_1" "dprop_1" "title: edited",
        .compose shipDraft] = some u ∧ ¬∀ c ∈ u.composed, Cited c := by
  refine ⟨_, rfl, ?_⟩
  intro hall
  have hother : ∃ c ∈ (((((start oneDraft).validate "org_1" "dprop_1" noHits).request "org_1" "dprop_1"
      fun row => setProposalSigma some row "title: edited").compose .ascii "detections"
        shipDraft).composed), c.row.validation ≠ none ∧ ∀ call ∈ c.call, call.yaml ≠ c.content := by
    decide +kernel
  obtain ⟨c, hc, hstored, hne⟩ := hother
  obtain ⟨call, hcall, -, hyaml⟩ := hall c hc hstored
  exact hne call hcall hyaml

end Runs

end EvidenceDb

end BTagent
