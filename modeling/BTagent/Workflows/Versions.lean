import BTagent.Audit.Ledger
import BTagent.Lib.ReadCommitted
import Mathlib.Data.Finset.Fold
import Mathlib.Data.List.MinMax

namespace BTagent

inductive WorkflowVersionState where
  | DRAFT
  | PUBLISHED
  | DEPRECATED
  deriving DecidableEq

def WorkflowVersionState.value : WorkflowVersionState → String
  | DRAFT => "draft"
  | PUBLISHED => "published"
  | DEPRECATED => "deprecated"

structure WorkflowVersionRow where
  id : String
  workflowId : String
  versionNumber : ℕ
  state : WorkflowVersionState
  definition : Dict
  orgId : String
  createdBy : Option String
  createdAt : Timestamp
  publishedAt : Option Timestamp
  deprecatedAt : Option Timestamp

inductive VersionChange where
  | toPublished (now : Timestamp)
  | toDeprecated (now : Timestamp)
  | toDefinition (definition : Dict)

def VersionChange.apply : VersionChange → WorkflowVersionRow → WorkflowVersionRow
  | toPublished now, row => { row with state := .PUBLISHED, publishedAt := some now }
  | toDeprecated now, row => { row with state := .DEPRECATED, deprecatedAt := some now }
  | toDefinition definition, row => { row with definition := definition }

def VersionChange.publishes : VersionChange → Bool
  | toPublished _ => true
  | toDeprecated _ | toDefinition _ => false

def versionTable : RowTable WorkflowVersionRow String VersionChange where
  key := WorkflowVersionRow.id
  change := VersionChange.apply
  key_change c r := by cases c <;> rfl

-- A change of a loaded row, and what is recorded of it.
structure VersionWrite where
  row : WorkflowVersionRow
  change : VersionChange
  entry : Option AuditEntry

def VersionWrite.update (w : VersionWrite) : String × VersionChange := (w.row.id, w.change)

structure NewVersion where
  workflowId : String
  definition : Dict
  orgId : String
  createdBy : Option String

inductive VersionStage where
  | idle
  | numbering (new : NewVersion) (retried : Bool)
  | inserting (new : NewVersion) (retried : Bool) (number : ℕ)
  | selecting (version : WorkflowVersionRow) (actor : String) (now : Timestamp)
  | writing (pending : List VersionWrite)

structure WorkflowDb where
  versions : ReadCommitted WorkflowVersionRow String VersionChange
  audit : AuditDb
  stage : ℕ → VersionStage

inductive VersionEvent where
  | createWorkflow (i : ℕ) (id : String) (new : NewVersion) (now : Timestamp)
  | createVersion (i : ℕ) (new : NewVersion)
  | nextNumber (i : ℕ)
  | insertVersion (i : ℕ) (id : String) (now : Timestamp)
  | updateVersion (i : ℕ) (workflowId : String) (number : ℕ) (definition : Dict)
  | publishVersion (i : ℕ) (workflowId : String) (number : ℕ) (actor : String) (now : Timestamp)
  | deprecateVersion (i : ℕ) (workflowId : String) (number : ℕ) (actor : String) (now : Timestamp)
  | selectPublished (i : ℕ)
  | write (i : ℕ) (entryId : String)
  | readHead (i : ℕ) (now : Timestamp)
  | insertEntry (i : ℕ)
  | commit (i : ℕ)
  | rollback (i : ℕ)

namespace EngineWorkflow

structure ModelField where
  name : String
  required : Bool
  accepts : Json → Bool

def isStr : Json → Bool
  | .str _ => true
  | _ => false

def isDict : Json → Bool
  | .obj _ => true
  | _ => false

def acceptsFields (fields : List ModelField) (kvs : List (String × Json)) : Bool :=
  (kvs.all fun kv => fields.any fun f => f.name = kv.1 ∧ f.accepts kv.2) ∧
    fields.all fun f => f.required → kvs.any fun kv => kv.1 = f.name

def isTupleOf (fields : List ModelField) : Json → Bool
  | .arr xs => xs.all fun x =>
      match x with
      | .obj kvs => acceptsFields fields kvs
      | _ => false
  | _ => false

def edgeFields : List ModelField :=
  [⟨"source", true, isStr⟩, ⟨"target", true, isStr⟩, ⟨"label", false, isStr⟩]

def nodeFields : List ModelField :=
  [⟨"step_id", true, isStr⟩, ⟨"node_id", true, isStr⟩, ⟨"name", false, isStr⟩,
    ⟨"config", false, isDict⟩]

def workflowFields : List ModelField :=
  [⟨"name", true, isStr⟩, ⟨"version", false, isStr⟩, ⟨"description", false, isStr⟩,
    ⟨"trigger", false, isDict⟩, ⟨"nodes", false, isTupleOf nodeFields⟩,
    ⟨"edges", false, isTupleOf edgeFields⟩]

def modelValidate (definition : Dict) : Bool := acceptsFields workflowFields definition.entries

end EngineWorkflow

namespace WorkflowService

def versionConflict (row other : WorkflowVersionRow) : Prop :=
  other.id = row.id ∨
    (other.workflowId = row.workflowId ∧ other.versionNumber = row.versionNumber)

instance : DecidableRel versionConflict := fun row other =>
  inferInstanceAs (Decidable (other.id = row.id ∨ _))

def workflowEntry (version : WorkflowVersionRow) (actor action : String)
    (superseding : Option ℕ) : AuditEntry where
  actor := actor
  category := .WORKFLOW
  action := action
  resource := s!"workflow:{version.workflowId}"
  outcome := .SUCCESS
  details := some
    { entries := [("version_number", .int version.versionNumber), ("version_id", .str version.id)] ++
        (superseding.map fun n => ("superseded_by_version", .int n)).toList
      nodup := by cases superseding <;> simp }
  orgId := version.orgId
  keyed := by
    rintro d ⟨⟩
    cases superseding <;>
      simp [Json.Throughout, Json.ThroughoutFields, Json.DistinctKeys]

def newRow (new : NewVersion) (id : String) (number : ℕ) (now : Timestamp) : WorkflowVersionRow where
  id := id
  workflowId := new.workflowId
  versionNumber := number
  state := .DRAFT
  definition := new.definition
  orgId := new.orgId
  createdBy := new.createdBy
  createdAt := now
  publishedAt := none
  deprecatedAt := none

def getVersion (rows : List WorkflowVersionRow) (workflowId : String) (number : ℕ) :
    Option WorkflowVersionRow :=
  rows.find? fun r => r.workflowId = workflowId ∧ r.versionNumber = number

def nextVersionNumber (rows : List WorkflowVersionRow) (workflowId : String) : ℕ :=
  ((rows.filter fun r => r.workflowId = workflowId).map (·.versionNumber)).foldr max 0 + 1

def published (rows : List WorkflowVersionRow) (workflowId : String) : List WorkflowVersionRow :=
  rows.filter fun r => r.workflowId = workflowId ∧ r.state = .PUBLISHED

-- `scalar_one_or_none` raises where the query has two rows.
def getPublishedVersion (rows : List WorkflowVersionRow) (workflowId : String) :
    Except String (Option WorkflowVersionRow) :=
  match published rows workflowId with
  | [] => .ok none
  | [row] => .ok (some row)
  | _ => .error "Multiple rows were found when one or none was required"

def updateVersionDefinition (version : WorkflowVersionRow) (definition : Dict) :
    Except String VersionStage :=
  if version.state ≠ .DRAFT then
    .error (s!"Version {version.versionNumber} is in state '{version.state.value}'; " ++
      "only draft versions are editable.")
  else .ok (.writing [⟨version, .toDefinition definition, none⟩])

def publishVersion (version : WorkflowVersionRow) (actor : String) (now : Timestamp) :
    Except String VersionStage :=
  if version.state = .PUBLISHED then
    .error s!"Version {version.versionNumber} is already published."
  else if version.state = .DEPRECATED then
    .error (s!"Version {version.versionNumber} is deprecated; cannot republish. " ++
      "Create a new draft instead.")
  else if ¬ EngineWorkflow.modelValidate version.definition then
    .error s!"Version {version.versionNumber} definition failed engine Workflow validation"
  else .ok (.selecting version actor now)

-- The rows that the SELECT of `publish_version` returns are marked one by one, then the version is.
def publishWrites (version : WorkflowVersionRow) (actor : String) (now : Timestamp)
    (prior : List WorkflowVersionRow) : List VersionWrite :=
  (prior.map fun row => ⟨row, .toDeprecated now,
      some (workflowEntry row actor "auto_deprecate" (some version.versionNumber))⟩) ++
    [⟨version, .toPublished now, some (workflowEntry version actor "publish" none)⟩]

def deprecateVersion (version : WorkflowVersionRow) (actor : String) (now : Timestamp) :
    Except String VersionStage :=
  if version.state = .DRAFT then
    .error s!"Version {version.versionNumber} is a draft; delete it instead."
  else if version.state = .DEPRECATED then .ok (.writing [])
  else .ok (.writing [⟨version, .toDeprecated now,
    some (workflowEntry version actor "deprecate" none)⟩])

end WorkflowService

namespace WorkflowDb

open WorkflowService

variable (N : JsonbNumeric)

def start (writers : ℕ) : WorkflowDb where
  versions := ⟨[], List.replicate writers .empty⟩
  audit := .start writers
  stage _ := .idle

def goto (s : WorkflowDb) (i : ℕ) (stage : VersionStage) : WorkflowDb :=
  { s with stage := Function.update s.stage i stage }

def abort (s : WorkflowDb) (i : ℕ) (audit : AuditDb) : WorkflowDb where
  versions := s.versions.rollback i
  audit := audit
  stage := Function.update s.stage i .idle

-- The route loads the version; a refused request changes nothing.
def request (s : WorkflowDb) (i : ℕ) (workflowId : String) (number : ℕ)
    (handle : WorkflowVersionRow → Except String VersionStage) : Option WorkflowDb :=
  match s.stage i with
  | .idle =>
      match getVersion s.versions.committed workflowId number with
      | none => some s
      | some version =>
          match handle version with
          | .error _ => some s
          | .ok stage => some (s.goto i stage)
  | _ => none

def insertDraft (s : WorkflowDb) (i : ℕ) (x : Transaction WorkflowVersionRow String VersionChange)
    (row : WorkflowVersionRow) : WorkflowDb :=
  { s with
    versions := s.versions.insert i x row
    stage := Function.update s.stage i (.writing []) }

-- `create_version` tries once more where the number was taken.
def collide (s : WorkflowDb) (i : ℕ) (new : NewVersion) (retried : Bool) : WorkflowDb :=
  s.goto i (if retried then .idle else .numbering new true)

def recordEntry (audit : AuditDb) (i : ℕ) (entryId : String) : Option AuditEntry → Option AuditDb
  | none => some audit
  | some entry => AuditDb.step N audit (.record i entryId entry)

def step (s : WorkflowDb) : VersionEvent → Option WorkflowDb
  | .createWorkflow i id new now => do
      let x ← s.versions.transactions[i]?
      match s.stage i with
      | .idle =>
          let row := newRow new id 1 now
          if s.versions.Awaited versionConflict i row then none
          else if s.versions.Violated versionConflict x row then some s
          else some (s.insertDraft i x row)
      | _ => none
  | .createVersion i new =>
      match s.stage i with
      | .idle => some (s.goto i (.numbering new false))
      | _ => none
  | .nextNumber i =>
      match s.stage i with
      | .numbering new retried =>
          some (s.goto i (.inserting new retried
            (nextVersionNumber s.versions.committed new.workflowId)))
      | _ => none
  | .insertVersion i id now => do
      let x ← s.versions.transactions[i]?
      match s.stage i with
      | .inserting new retried number =>
          let row := newRow new id number now
          if s.versions.Awaited versionConflict i row then none
          else if s.versions.Violated versionConflict x row then some (s.collide i new retried)
          else some (s.insertDraft i x row)
      | _ => none
  | .updateVersion i workflowId number definition =>
      s.request i workflowId number fun version => updateVersionDefinition version definition
  | .publishVersion i workflowId number actor now =>
      s.request i workflowId number fun version => publishVersion version actor now
  | .deprecateVersion i workflowId number actor now =>
      s.request i workflowId number fun version => deprecateVersion version actor now
  | .selectPublished i =>
      match s.stage i with
      | .selecting version actor now =>
          some (s.goto i (.writing (publishWrites version actor now
            (published s.versions.committed version.workflowId))))
      | _ => none
  -- The next row is flushed before its entry is appended.
  | .write i entryId => do
      let x ← s.versions.transactions[i]?
      match s.stage i with
      | .writing (w :: pending) =>
          if s.versions.Held i w.row.id then none
          else do
            let audit ← recordEntry N s.audit i entryId w.entry
            some
              { versions := s.versions.update i x w.row.id w.change
                audit := audit
                stage := Function.update s.stage i (.writing pending) }
      | _ => none
  | .readHead i now => do
      let audit ← AuditDb.step N s.audit (.read i now)
      some { s with audit := audit }
  | .insertEntry i => do
      let _ ← s.versions.transactions[i]?
      let before ← s.audit.sessions[i]?
      let audit ← AuditDb.step N s.audit (.insert i)
      let after ← audit.sessions[i]?
      -- The last attempt has failed, and the error ends the request.
      if after.append.isNone ∧ after.rows.length = before.rows.length then do
        let audit ← AuditDb.step N audit (.rollback i)
        some (s.abort i audit)
      else some { s with audit := audit }
  | .commit i => do
      let x ← s.versions.transactions[i]?
      match s.stage i with
      | .writing [] => do
          let audit ← AuditDb.step N s.audit (.commit i)
          some
            { versions := s.versions.commit versionTable i x
              audit := audit
              stage := Function.update s.stage i .idle }
      | _ => none
  | .rollback i => do
      let _ ← s.versions.transactions[i]?
      let audit ← AuditDb.step N s.audit (.rollback i)
      some (s.abort i audit)

def machine : Machine WorkflowDb VersionEvent := ⟨step N⟩

end WorkflowDb

end BTagent
