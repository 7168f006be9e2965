import BTagent.Data.CharTable
import BTagent.Data.Json
import BTagent.Lib.Machine
import BTagent.Lib.ReadCommitted
import Mathlib.Algebra.Order.Ring.Rat
import Mathlib.Data.List.Sort

namespace BTagent

inductive ProposalState where
  | PROPOSED
  | ACCEPTED
  | REJECTED
  | MODIFIED
  deriving DecidableEq

def ProposalState.value : ProposalState → String
  | PROPOSED => "proposed"
  | ACCEPTED => "accepted"
  | REJECTED => "rejected"
  | MODIFIED => "modified"

inductive PROutcome where
  | PROPOSED
  | PR_OPENED
  | MERGED
  | REJECTED
  deriving DecidableEq

def PROutcome.value : PROutcome → String
  | PROPOSED => "proposed"
  | PR_OPENED => "pr_opened"
  | MERGED => "merged"
  | REJECTED => "rejected"

structure DetectionProposalRow where
  id : String
  orgId : String
  title : String
  sigmaYaml : String
  finalSigmaYaml : Option String
  techniqueIds : List String
  state : ProposalState
  validation : Option Json
  prUrl : Option String
  prOutcome : PROutcome

-- An UPDATE names the columns whose value differs from the one that was loaded.
structure ProposalUpdate where
  state : Option ProposalState
  finalSigmaYaml : Option String
  validation : Option Json
  prUrl : Option String
  prOutcome : Option PROutcome

namespace ProposalUpdate

def untouched : ProposalUpdate := ⟨none, none, none, none, none⟩

def apply (u : ProposalUpdate) (row : DetectionProposalRow) : DetectionProposalRow :=
  { row with
    state := u.state.getD row.state
    finalSigmaYaml := u.finalSigmaYaml <|> row.finalSigmaYaml
    validation := u.validation <|> row.validation
    prUrl := u.prUrl <|> row.prUrl
    prOutcome := u.prOutcome.getD row.prOutcome }

end ProposalUpdate

def proposalTable : RowTable DetectionProposalRow String ProposalUpdate where
  key := DetectionProposalRow.id
  change := ProposalUpdate.apply
  key_change _ _ := rfl

-- A file of a PR, with the row whose rule it holds.
structure RuleFile where
  rowId : String
  path : String
  content : String

structure DetectionPr where
  prNumber : ℕ
  prUrl : String
  title : String
  files : List RuleFile

inductive ProposalStage where
  | idle
  | composing (rows : List DetectionProposalRow) (title : Option String)
  | writing (pending : List (String × ProposalUpdate))

structure ProposalDb where
  proposals : ReadCommitted DetectionProposalRow String ProposalUpdate
  prs : List DetectionPr
  stage : ℕ → ProposalStage

inductive ProposalEvent where
  | setState (i : ℕ) (orgId rowId : String) (state : ProposalState)
  | setSigma (i : ℕ) (orgId rowId sigmaYaml : String)
  | validate (i : ℕ) (orgId rowId : String) (payload : Json)
  | compose (i : ℕ) (orgId : String) (rowIds : List String) (title : Option String)
  | openPr (i : ℕ)
  | recordOutcome (i : ℕ) (orgId rowId : String) (outcome : PROutcome)
  | write (i : ℕ)
  | commit (i : ℕ)
  | rollback (i : ℕ)

namespace CtiDetection

def dirty {α : Type*} [DecidableEq α] (loaded value : α) : Option α :=
  if loaded = value then none else some value

def truthy (s : Option String) : Bool := s.any (· ≠ "")

def decidedStates : List ProposalState := [.ACCEPTED, .REJECTED, .MODIFIED]

def editableStates : List ProposalState := [.PROPOSED, .ACCEPTED, .MODIFIED]

def shippable : List ProposalState := [.ACCEPTED, .MODIFIED]

def recordablePrOutcomes : List PROutcome := [.MERGED, .REJECTED]

def notFound (rowId : String) : String := s!"Detection proposal not found: {rowId}"

def setProposalState (row : DetectionProposalRow) (state : ProposalState) :
    Except String ProposalUpdate :=
  if row.state ∈ decidedStates then
    .error s!"Detection proposal already {row.state.value}"
  else .ok { ProposalUpdate.untouched with state := dirty row.state state }

-- `parse` is `RuleDrafter.parse_drafted_yaml`.
def setProposalSigma (parse : String → Option String) (row : DetectionProposalRow)
    (sigmaYaml : String) : Except String ProposalUpdate :=
  if truthy row.prUrl then
    .error "Detection proposal already shipped in a PR; its rule is immutable"
  else if row.state ∉ editableStates then
    .error s!"Detection proposal in state '{row.state.value}' cannot be edited"
  else
    match parse sigmaYaml with
    | none => .error ("Edited Sigma does not parse as a rule (need a YAML mapping with " ++
        "'title' and 'detection' keys)")
    | some cleaned => .ok { ProposalUpdate.untouched with
        state := dirty row.state .MODIFIED
        finalSigmaYaml := if row.finalSigmaYaml = some cleaned then none else some cleaned }

def validateProposal (payload : Json) : ProposalUpdate :=
  { ProposalUpdate.untouched with validation := some payload }

def recordPrOutcome (row : DetectionProposalRow) (outcome : PROutcome) :
    Except String ProposalUpdate :=
  if outcome ∉ recordablePrOutcomes then
    .error s!"Only ['merged', 'rejected'] outcomes are recordable; got '{outcome.value}'"
  else if row.prOutcome ≠ .PR_OPENED then
    .error (s!"Cannot record '{outcome.value}': proposal PR is not open " ++
      s!"(pr_outcome='{row.prOutcome.value}')")
  else .ok { ProposalUpdate.untouched with prOutcome := some outcome }

def shippedYaml (row : DetectionProposalRow) : String :=
  if truthy row.finalSigmaYaml then row.finalSigmaYaml.getD "" else row.sigmaYaml

section Files
variable (T : CharTable)

def isSlugChar (c : Char) : Bool := ('a' ≤ c ∧ c ≤ 'z') ∨ ('0' ≤ c ∧ c ≤ '9')

-- A run of other characters becomes one underscore.
def slugChars : Bool → List Char → List Char
  | _, [] => []
  | inRun, c :: cs =>
      if isSlugChar c then c :: slugChars false cs
      else if inRun then slugChars true cs
      else '_' :: slugChars true cs

def ruleSlug (title : String) : String :=
  let slug := slugChars false (T.lower (T.strip title)).toList
  let stripped := (slug.dropWhile (· == '_')).rdropWhile (· == '_')
  if stripped = [] then "rule" else String.ofList stripped

def lastSix (s : String) : String := String.ofList (s.toList.drop (s.length - 6))

def buildPrFilesFrom (seen : List String) : List DetectionProposalRow → List RuleFile
  | [] => []
  | row :: rows =>
      let technique := T.lower (row.techniqueIds.headD "uncategorized")
      let folder := s!"rules/{technique}"
      let short := s!"{folder}/{ruleSlug T row.title}.yml"
      let path := if short ∈ seen then
          s!"{folder}/{ruleSlug T row.title}_{T.lower (lastSix row.id)}.yml"
        else short
      ⟨row.id, path, shippedYaml row⟩ :: buildPrFilesFrom (path :: seen) rows

def buildPrFiles (rows : List DetectionProposalRow) : List RuleFile := buildPrFilesFrom T [] rows

-- The checks of `git_open_detection_pr` over the files it is given.
def checkFiles (seen : List String) : List RuleFile → Except String Unit
  | [] => .ok ()
  | f :: files =>
      if T.strip f.path = "" ∨ T.strip f.content = "" then
        .error "Every PR file needs a non-empty path and content"
      else if T.strip f.path ∈ seen then
        .error s!"Duplicate file path in PR: {T.strip f.path}"
      else checkFiles (T.strip f.path :: seen) files

def gitOpenDetectionPr (repo : String) (ledger : List DetectionPr) (title : String)
    (files : List RuleFile) : Except String DetectionPr :=
  if files = [] then .error "A detection PR needs at least one rule file"
  else do
    checkFiles T [] files
    let prNumber := ledger.length + 1
    pure ⟨prNumber, s!"https://git.example.com/{repo}/pull/{prNumber}", title, files⟩

end Files

def loadRows (rows : List DetectionProposalRow) (orgId : String) (rowIds : List String) :
    List DetectionProposalRow :=
  rows.filter fun r => r.id ∈ rowIds ∧ r.orgId = orgId

def ordered (rows : List DetectionProposalRow) : List DetectionProposalRow :=
  rows.insertionSort fun a b => a.id ≤ b.id

-- What `compose_detection_pr` refuses of the rows it loads; the others go on in order.
def eligibleRows (rows : List DetectionProposalRow) (rowIds : List String) :
    Except String (List DetectionProposalRow) :=
  let missing := rowIds.filter fun rid => rid ∉ rows.map (·.id)
  let ineligible := (rows.filter fun r => r.state ∉ shippable).map (·.id)
  let shipped := (rows.filter fun r => truthy r.prUrl).map (·.id)
  let listed := String.intercalate ", "
  if rowIds = [] then .error "compose_detection_pr needs at least one proposal row id"
  else if missing ≠ [] then
    .error s!"Detection proposal(s) not found: {listed missing}"
  else if ineligible ≠ [] then
    .error ("Only accepted or edited (modified) proposals can ship; " ++
      s!"not eligible: {listed ineligible}")
  else if shipped ≠ [] then
    .error s!"Proposal(s) already shipped in a PR: {listed shipped}"
  else .ok (ordered rows)

def prTitle (rows : List DetectionProposalRow) (title : Option String) : String :=
  match title with
  | some t => if t = "" then s!"detections: {rows.length} CTI-derived Sigma rule(s)" else t
  | none => s!"detections: {rows.length} CTI-derived Sigma rule(s)"

-- `compose_detection_pr` writes the PR's URL back to its rows.
def shippedMark (prUrl : String) (row : DetectionProposalRow) : String × ProposalUpdate :=
  (row.id, { ProposalUpdate.untouched with
    prUrl := some prUrl
    prOutcome := dirty row.prOutcome .PR_OPENED })

end CtiDetection

namespace ProposalDb

open CtiDetection

variable (T : CharTable) (parse : String → Option String) (repo : String)

def start (writers : ℕ) (rows : List DetectionProposalRow) : ProposalDb where
  proposals := ⟨rows, List.replicate writers .empty⟩
  prs := []
  stage _ := .idle

def goto (s : ProposalDb) (i : ℕ) (stage : ProposalStage) : ProposalDb :=
  { s with stage := Function.update s.stage i stage }

-- A request loads one row; where it is missing or refused, nothing changes.
def request (s : ProposalDb) (i : ℕ) (orgId rowId : String)
    (handle : DetectionProposalRow → Except String ProposalUpdate) : Option ProposalDb :=
  match s.stage i with
  | .idle =>
      match loadRows s.proposals.committed orgId [rowId] with
      | [] => some s
      | row :: _ =>
          match handle row with
          | .error _ => some s
          | .ok update => some (s.goto i (.writing [(row.id, update)]))
  | _ => none

def step (s : ProposalDb) : ProposalEvent → Option ProposalDb
  | .setState i orgId rowId state =>
      s.request i orgId rowId fun row => setProposalState row state
  | .setSigma i orgId rowId sigmaYaml =>
      s.request i orgId rowId fun row => setProposalSigma parse row sigmaYaml
  | .validate i orgId rowId payload =>
      s.request i orgId rowId fun _ => .ok (validateProposal payload)
  | .recordOutcome i orgId rowId outcome =>
      s.request i orgId rowId fun row => recordPrOutcome row outcome
  | .compose i orgId rowIds title =>
      match s.stage i with
      | .idle =>
          match eligibleRows (loadRows s.proposals.committed orgId rowIds) rowIds with
          | .error _ => some s
          | .ok rows => some (s.goto i (.composing rows title))
      | _ => none
  | .openPr i => do
      let _ ← s.proposals.transactions[i]?
      match s.stage i with
      | .composing rows title =>
          match gitOpenDetectionPr T repo s.prs (prTitle rows title) (buildPrFiles T rows) with
          | .error _ => some (s.goto i .idle)
          | .ok pr => some { s with
              prs := s.prs ++ [pr]
              stage := Function.update s.stage i (.writing (rows.map (shippedMark pr.prUrl))) }
      | _ => none
  | .write i => do
      let x ← s.proposals.transactions[i]?
      match s.stage i with
      | .writing (w :: pending) =>
          if s.proposals.Held i w.1 then none
          else some { s with
            proposals := s.proposals.update i x w.1 w.2
            stage := Function.update s.stage i (.writing pending) }
      | _ => none
  | .commit i => do
      let x ← s.proposals.transactions[i]?
      match s.stage i with
      | .writing [] => some { s with
          proposals := s.proposals.commit proposalTable i x
          stage := Function.update s.stage i .idle }
      | _ => none
  | .rollback i => do
      let _ ← s.proposals.transactions[i]?
      some { s with
        proposals := s.proposals.rollback i
        stage := Function.update s.stage i .idle }

def machine : Machine ProposalDb ProposalEvent := ⟨step T parse repo⟩

end ProposalDb

structure DetectionProposal where
  id : String
  sourceStixId : String
  title : String
  sigmaYaml : String
  techniqueIds : List String
  confidence : ℚ
  rationale : String

-- A row with the columns that `persist_proposals` writes.
structure StoredProposal extends DetectionProposalRow where
  proposalId : String
  sourceStixId : String
  bundleId : Option String
  confidence : ℚ
  rationale : String
  dataSourcesRequired : Option (List String)
  dataSourceGaps : Option (List String)

namespace StoredProposal

def key (r : StoredProposal) : String × String := (r.orgId, r.sourceStixId)

def decided (r : StoredProposal) : Bool := r.state ∈ CtiDetection.decidedStates

-- The widths of the columns; no text may hold a NUL.
def Storable (r : StoredProposal) : Prop :=
  (r.proposalId.length ≤ 128 ∧ r.sourceStixId.length ≤ 256 ∧ r.title.length ≤ 300 ∧
    ∀ b ∈ r.bundleId, b.length ≤ 256) ∧
    ∀ s ∈ r.bundleId.toList ++ (r.proposalId :: r.sourceStixId :: r.title :: r.sigmaYaml ::
      r.rationale :: r.techniqueIds), '\x00' ∉ s.toList

instance : DecidablePred Storable := fun _ => inferInstanceAs (Decidable (_ ∧ _))

end StoredProposal

-- Under the unique index `idx_detection_proposals_source`.
structure ProposalTable where
  rows : List StoredProposal
  unique : (rows.map StoredProposal.key).Nodup
  storable : ∀ r ∈ rows, r.Storable

inductive FlushError where
  | integrity
  | data
  deriving DecidableEq

-- A call of `persist_proposals`. `matchColumns` is the data source matcher under the connectors of
-- the organisation, and `newId` gives the ids of the rows that are created.
structure PersistRequest where
  orgId : String
  bundleId : Option String
  matchColumns : String → String → List String → Option (List String × List String)
  newId : ℕ → String

-- The session inside the loop: the rows that were loaded, the rows added, and the counts.
structure ProposalUpserts where
  rows : List StoredProposal
  added : List StoredProposal
  created : ℕ
  updated : ℕ
  unchanged : ℕ

structure UpsertCounts where
  created : ℕ
  updated : ℕ
  unchanged : ℕ
  deriving DecidableEq

namespace PersistRequest

variable (req : PersistRequest)

def holds (p : DetectionProposal) (r : StoredProposal) : Bool := r.key = (req.orgId, p.sourceStixId)

def newRow (k : ℕ) (p : DetectionProposal) : StoredProposal :=
  let columns := req.matchColumns p.title p.sigmaYaml p.techniqueIds
  { id := req.newId k
    orgId := req.orgId
    proposalId := p.id
    sourceStixId := p.sourceStixId
    bundleId := req.bundleId
    title := p.title
    sigmaYaml := p.sigmaYaml
    finalSigmaYaml := none
    techniqueIds := p.techniqueIds
    confidence := p.confidence
    rationale := p.rationale
    state := .PROPOSED
    dataSourcesRequired := columns.map Prod.fst
    dataSourceGaps := columns.map Prod.snd
    validation := none
    prUrl := none
    prOutcome := .PROPOSED }

-- `bundle_id or row.bundle_id`; without a match both columns stay as they were.
def refresh (p : DetectionProposal) (r : StoredProposal) : StoredProposal :=
  let columns := req.matchColumns p.title p.sigmaYaml p.techniqueIds
  { r with
    proposalId := p.id
    title := p.title
    sigmaYaml := p.sigmaYaml
    techniqueIds := p.techniqueIds
    confidence := p.confidence
    rationale := p.rationale
    bundleId := if CtiDetection.truthy req.bundleId then req.bundleId else r.bundleId
    dataSourcesRequired := (columns.map Prod.fst) <|> r.dataSourcesRequired
    dataSourceGaps := (columns.map Prod.snd) <|> r.dataSourceGaps }

-- Rows are looked up among those that were loaded before the loop.
def upsert (s : ProposalUpserts) (p : DetectionProposal) : ProposalUpserts :=
  match s.rows.find? (req.holds p) with
  | none => { s with added := s.added ++ [req.newRow s.created p], created := s.created + 1 }
  | some r =>
      if r.decided then { s with unchanged := s.unchanged + 1 }
      else { s with
        rows := s.rows.map fun r => if req.holds p r then req.refresh p r else r
        updated := s.updated + 1 }

end PersistRequest

namespace ProposalTable

def flush (rows : List StoredProposal) : Except FlushError ProposalTable :=
  if hunique : (rows.map StoredProposal.key).Nodup then
    if hstorable : ∀ r ∈ rows, r.Storable then .ok ⟨rows, hunique, hstorable⟩
    else .error .data
  else .error .integrity

def persistProposals (req : PersistRequest) (t : ProposalTable) (proposals : List DetectionProposal) :
    Except FlushError (ProposalTable × UpsertCounts) :=
  let s := proposals.foldl req.upsert ⟨t.rows, [], 0, 0, 0⟩
  (flush (s.rows ++ s.added)).map fun t' => (t', ⟨s.created, s.updated, s.unchanged⟩)

end ProposalTable

end BTagent
