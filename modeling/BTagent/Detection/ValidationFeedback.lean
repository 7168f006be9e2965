import BTagent.Cti.Proposals
import BTagent.Lib.Session

namespace BTagent

inductive ValidationVerdict where
  | VALIDATED
  | WRONG_SEVERITY
  | LATE
  | SILENT_GAP
  | ERRORED
  deriving DecidableEq

def ValidationVerdict.value : ValidationVerdict → String
  | VALIDATED => "validated"
  | WRONG_SEVERITY => "wrong_severity"
  | LATE => "late"
  | SILENT_GAP => "silent_gap"
  | ERRORED => "errored"

structure TechniqueVerdict where
  techniqueId : String
  verdict : ValidationVerdict
  detail : String
  deriving DecidableEq

structure ValidationSummary where
  totalTechniques : ℕ
  detectedPct : ℚ
  gaps : List String
  deriving DecidableEq

structure ValidationReport where
  runId : String
  scenariosRun : ℕ
  summary : ValidationSummary
  emulationTargetEnv : Option String
  verdicts : List TechniqueVerdict

structure DetectionValidationRunRow where
  id : String
  orgId : String
  runId : String
  packs : List String
  scenariosRun : ℕ
  summary : ValidationSummary
  emulated : Bool
  targetEnv : Option String
  verdicts : List TechniqueVerdict
  deriving DecidableEq

-- A shadow of `_ensure_tuning_shadow_proposal` or a row of the pattern scanner.
structure PatternHuntProposalRow where
  id : String
  orgId : String
  clusterId : String
  state : String
  deriving DecidableEq

structure HuntPackSuggestionRow where
  id : String
  orgId : String
  proposalId : String
  planId : String
  title : String
  techniqueIds : List String
  state : String
  hitCount : ℕ
  deriving DecidableEq

structure FeedbackDb where
  runs : List DetectionValidationRunRow
  proposals : List StoredProposal
  patternProposals : List PatternHuntProposalRow
  suggestions : List HuntPackSuggestionRow

-- The flushes of the two feedback loops.
inductive FeedbackWrite where
  | proposal
  | shadow
  | suggestion
  deriving DecidableEq

-- What surrounds a run of the dispatcher: the matcher of `persist_proposals`, the ids `generate_id`
-- gives for the verdict at a position, and the flushes there that the database refuses.
structure FeedbackRun where
  orgId : String
  matchColumns : String → String → List String → Option (List String × List String)
  newId : ℕ → String → String
  refused : ℕ → FeedbackWrite → Bool

namespace ValidationFeedback

open SessionM

variable (T : CharTable) (R : FeedbackRun)

def tuningVerdicts : List ValidationVerdict := [.LATE, .WRONG_SEVERITY]

def gapSource (techniqueId : String) : String := s!"validation-gap--{techniqueId}"

def tuningCluster (techniqueId : String) : String := s!"detection-tuning:{techniqueId}"

def gapSigmaSkeleton (techniqueId detail : String) : String :=
  let tag := ((T.lower techniqueId).toList.map fun c => if c = '.' then '_' else c)
  let tagged := String.ofList tag
  let what := if detail = "" then "Build a detection so this technique alerts." else detail
  s!"title: {techniqueId} — silent detection gap (from validation)\n" ++
  "status: experimental\n" ++
  "description: >-\n" ++
  s!"  A sandbox emulation of {techniqueId} fired but no detection rule caught it. {what}\n" ++
  s!"tags:\n  - attack.{tagged}\n" ++
  "logsource:\n  category: process_creation\n" ++
  "detection:\n" ++
  "  selection:\n" ++
  "    # TODO(detection-engineering): translate the emulated technique\n" ++
  "    # into a concrete Sigma selection before accepting.\n" ++
  "    CommandLine|contains: PLACEHOLDER\n" ++
  "  condition: selection\n" ++
  "level: high\n"

def gapProposal (v : TechniqueVerdict) : DetectionProposal where
  id := s!"dprop-valgap-{v.techniqueId}"
  sourceStixId := gapSource v.techniqueId
  title := s!"Detection gap: {v.techniqueId} — emulation fired, no detection (silent gap)"
  sigmaYaml := gapSigmaSkeleton T v.techniqueId v.detail
  techniqueIds := [v.techniqueId]
  confidence := 45 / 100
  rationale := T.strip (
    s!"A sandbox adversary-emulation of {v.techniqueId} fired but NO detection " ++
    "rule caught it within the observation window (silent gap). Filing a draft " ++
    s!"detection so the technique alerts without an emulation. {v.detail}")

def persistRequest (i : ℕ) : PersistRequest where
  orgId := R.orgId
  bundleId := none
  matchColumns := R.matchColumns
  newId := fun _ => R.newId i "dprop"

def persistProposals (req : PersistRequest) (refused : Bool) (proposals : List DetectionProposal) :
    SessionM FeedbackDb UpsertCounts :=
  (execute FeedbackDb.proposals).andThen fun rows =>
  let s := proposals.foldl req.upsert ⟨rows, [], 0, 0, 0⟩
  let pending := if s.created + s.updated = 0 then none
    else some fun d : FeedbackDb => { d with proposals := s.rows ++ s.added }
  (flush pending refused).andThen fun _ => ret ⟨s.created, s.updated, s.unchanged⟩

def fileSilentGapProposal (i : ℕ) (v : TechniqueVerdict) : SessionM FeedbackDb UpsertCounts :=
  persistProposals (persistRequest R i) (R.refused i .proposal) [gapProposal T v]

def shadowRow (i : ℕ) (techniqueId : String) : PatternHuntProposalRow where
  id := R.newId i "phpr"
  orgId := R.orgId
  clusterId := tuningCluster techniqueId
  state := "dismissed"

def isShadow (techniqueId : String) (r : PatternHuntProposalRow) : Bool :=
  r.orgId = R.orgId ∧ r.clusterId = tuningCluster techniqueId

def ensureTuningShadowProposal (i : ℕ) (techniqueId : String) : SessionM FeedbackDb String :=
  (execute fun d => d.patternProposals.find? (isShadow R techniqueId)).andThen fun existing =>
  match existing with
  | some row => ret row.id
  | none =>
      let row := shadowRow R i techniqueId
      let add := fun d : FeedbackDb => { d with patternProposals := d.patternProposals ++ [row] }
      (flush (some add) (R.refused i .shadow)).andThen fun _ => ret row.id

def tuningTitle (v : TechniqueVerdict) : String :=
  let verdict := v.verdict.value
  String.ofList ((s!"Detection tuning: {v.techniqueId} ({verdict})").toList.take 300)

def newSuggestion (i : ℕ) (proposalId planId : String) (v : TechniqueVerdict) :
    HuntPackSuggestionRow where
  id := R.newId i "hpsug"
  orgId := R.orgId
  proposalId := proposalId
  planId := if planId = "" then tuningCluster v.techniqueId else planId
  title := tuningTitle v
  techniqueIds := [v.techniqueId]
  state := "suggested"
  hitCount := 1

def refreshSuggestion (planId : String) (v : TechniqueVerdict) (r : HuntPackSuggestionRow) :
    HuntPackSuggestionRow :=
  if r.state = "suggested" then
    { r with
      planId := if planId = "" then r.planId else planId
      title := tuningTitle v
      techniqueIds := [v.techniqueId]
      hitCount := r.hitCount + 1 }
  else { r with hitCount := r.hitCount + 1 }

def isSuggestion (proposalId : String) (r : HuntPackSuggestionRow) : Bool :=
  r.orgId = R.orgId ∧ r.proposalId = proposalId

def fileTuningSuggestion (i : ℕ) (v : TechniqueVerdict) (planId : String) :
    SessionM FeedbackDb HuntPackSuggestionRow :=
  (ensureTuningShadowProposal R i v.techniqueId).andThen fun proposalId =>
  (execute fun d => d.suggestions.find? (isSuggestion R proposalId)).andThen fun existing =>
  match existing with
  | none =>
      let row := newSuggestion R i proposalId planId v
      let add := fun d : FeedbackDb => { d with suggestions := d.suggestions ++ [row] }
      (flush (some add) (R.refused i .suggestion)).andThen fun _ => ret row
  | some row =>
      let refresh := fun d : FeedbackDb => { d with
        suggestions := d.suggestions.map fun r =>
          if isSuggestion R proposalId r then refreshSuggestion planId v r else r }
      (flush (some refresh) (R.refused i .suggestion)).andThen fun _ =>
      ret (refreshSuggestion planId v row)

structure Filed where
  silentGap : ℕ
  tuning : ℕ
  deriving DecidableEq

-- The body of the `try` of the loop.
def feedback (runId : String) (i : ℕ) (v : TechniqueVerdict) (filed : Filed) :
    SessionM FeedbackDb Filed :=
  if v.verdict = .SILENT_GAP then
    (fileSilentGapProposal T R i v).andThen fun _ =>
    ret { filed with silentGap := filed.silentGap + 1 }
  else if v.verdict ∈ tuningVerdicts then
    (fileTuningSuggestion R i v runId).andThen fun _ =>
    ret { filed with tuning := filed.tuning + 1 }
  else ret filed

-- The loop from the verdict at position `i` on, with `scope` around the body of its `try`.
def dispatchFrom (scope : SessionM FeedbackDb Filed → SessionM FeedbackDb Filed) (runId : String) :
    ℕ → List TechniqueVerdict → Filed → SessionM FeedbackDb Filed
  | _, [], filed => ret filed
  | i, v :: vs, filed =>
      ((scope (feedback T R runId i v filed)).swallow filed).andThen
        (dispatchFrom scope runId (i + 1) vs)

def dispatchValidationFeedback (report : ValidationReport) : SessionM FeedbackDb Filed :=
  dispatchFrom T R id report.runId 0 report.verdicts ⟨0, 0⟩

-- What the loop is for: the feedback of one verdict takes back its own writes when it fails.
def isolatedFeedback (report : ValidationReport) : SessionM FeedbackDb Filed :=
  dispatchFrom T R savepoint report.runId 0 report.verdicts ⟨0, 0⟩

def runRow (rowId : String) (packs : List String) (report : ValidationReport) :
    DetectionValidationRunRow where
  id := rowId
  orgId := R.orgId
  runId := report.runId
  packs := packs
  scenariosRun := report.scenariosRun
  summary := report.summary
  emulated := report.emulationTargetEnv.isSome
  targetEnv := report.emulationTargetEnv
  verdicts := report.verdicts

def addRun (row : DetectionValidationRunRow) (d : FeedbackDb) : FeedbackDb :=
  { d with runs := d.runs ++ [row] }

-- The database has taken the run row when the dispatcher is called.
def persistValidationReport (dispatch : ValidationReport → SessionM FeedbackDb Filed)
    (rowId : String) (packs : List String) (report : ValidationReport) :
    SessionM FeedbackDb DetectionValidationRunRow :=
  let row := runRow R rowId packs report
  (flush (some (addRun row)) false).andThen fun _ =>
  ((dispatch report).swallow ⟨0, 0⟩).andThen fun _ => ret row

-- A request: `get_db` commits when the handler returns, and rolls back when anything raises.
def request (dispatch : ValidationReport → SessionM FeedbackDb Filed) (rowId : String)
    (packs : List String) (report : ValidationReport) (d : FeedbackDb) : FeedbackDb :=
  (((persistValidationReport R dispatch rowId packs report).andThen fun _ => commit)
    (Session.fresh d)).2.committed

end ValidationFeedback

end BTagent
