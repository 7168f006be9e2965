import BTagent.Data.JsonText
import BTagent.Data.Sha256
import BTagent.Data.Timestamp
import BTagent.Lib.Machine

namespace BTagent

inductive AuditCategory where
  | AUTHENTICATION
  | AUTHORIZATION
  | INVESTIGATION
  | CONTAINMENT
  | CONFIG_CHANGE
  | AGENT_ACTION
  | DATA_ACCESS
  | WORKFLOW
  | HUNT
  | DETECTION_VALIDATION

def AuditCategory.value : AuditCategory → String
  | AUTHENTICATION => "authentication"
  | AUTHORIZATION => "authorization"
  | INVESTIGATION => "investigation"
  | CONTAINMENT => "containment"
  | CONFIG_CHANGE => "config_change"
  | AGENT_ACTION => "agent_action"
  | DATA_ACCESS => "data_access"
  | WORKFLOW => "workflow"
  | HUNT => "hunt"
  | DETECTION_VALIDATION => "detection_validation"

inductive AuditOutcome where
  | SUCCESS
  | FAILURE
  | DENIED
  deriving DecidableEq

def AuditOutcome.value : AuditOutcome → String
  | SUCCESS => "success"
  | FAILURE => "failure"
  | DENIED => "denied"

structure AuditLogRow where
  id : String
  orgId : String
  seq : ℕ
  timestamp : Timestamp
  actor : String
  category : String
  action : String
  resource : String
  outcome : String
  details : Dict
  prevHash : String
  hash : String

-- The arguments of a `record` call; no object in the details has a key twice.
structure AuditEntry where
  actor : String
  category : AuditCategory
  action : String
  resource : String
  outcome : AuditOutcome
  details : Option Dict
  orgId : String
  keyed : ∀ d ∈ details, (Json.obj d.entries).Throughout Json.DistinctKeys

namespace AuditTrail

def GENESIS_HASH : String := String.ofList (List.replicate 64 '0')

def MAX_APPEND_ATTEMPTS : ℕ := 5

def payloadStyle : JsonStyle where
  itemSeparator := ","
  keySeparator := ":"
  ensureAscii := false
  sortKeys := false

def canonicalStyle : JsonStyle where
  itemSeparator := ", "
  keySeparator := ": "
  ensureAscii := true
  sortKeys := true

def computeHash (id : String) (seq : ℕ) (timestamp actor category action resource outcome details
    prevHash : String) : String :=
  let payload := JsonText.dumps payloadStyle (.arr [.str id, .int seq, .str timestamp, .str actor,
    .str category, .str action, .str resource, .str outcome, .str details, .str prevHash])
  sha256 payload.toByteArray

def detailsToCanonical (details : Dict) : String :=
  JsonText.dumps canonicalStyle (.obj details.entries)

def UTC : UtcOffset := ⟨false, 0, 0, 0, 0⟩

def details (entry : AuditEntry) : Dict := entry.details.getD .empty

-- `seq.desc()` with a limit of one
def latest : List AuditLogRow → Option AuditLogRow
  | [] => none
  | row :: rows =>
      match latest rows with
      | none => some row
      | some other => if other.seq < row.seq then some row else some other

def nextSeqAndPrevHash (rows : List AuditLogRow) : ℕ × String :=
  match latest rows with
  | none => (1, GENESIS_HASH)
  | some prevEntry => (prevEntry.seq + 1, prevEntry.hash)

-- The row that `_append_once` computes from the rows it sees.
def computeRow (entryId : String) (entry : AuditEntry) (now : Timestamp)
    (rows : List AuditLogRow) : AuditLogRow :=
  let now := { now with offset := some UTC }
  let head := nextSeqAndPrevHash rows
  { id := entryId
    orgId := entry.orgId
    seq := head.1
    timestamp := now
    actor := entry.actor
    category := entry.category.value
    action := entry.action
    resource := entry.resource
    outcome := entry.outcome.value
    details := details entry
    prevHash := head.2
    hash := computeHash entryId head.1 now.isoformat entry.actor entry.category.value entry.action
      entry.resource entry.outcome.value (detailsToCanonical (details entry)) head.2 }

def withUtc (ts : Timestamp) : Timestamp :=
  if ts.offset = none then { ts with offset := some UTC } else ts

def expectedHash (row : AuditLogRow) : String :=
  computeHash row.id row.seq (withUtc row.timestamp).isoformat row.actor row.category row.action
    row.resource row.outcome (detailsToCanonical row.details) row.prevHash

def genesisError (first : AuditLogRow) : String :=
  s!"seq={first.seq}: genesis entry prev_hash is '{first.prevHash}', expected '{GENESIS_HASH}'"

def prevHashError (row : AuditLogRow) (prevHash : String) : String :=
  s!"seq={row.seq}: prev_hash mismatch (stored='{row.prevHash}', expected='{prevHash}')"

def hashError (row : AuditLogRow) : String :=
  s!"seq={row.seq}: hash mismatch (stored='{row.hash}', computed='{expectedHash row}')"

def errorsFrom (orgId prevHash : String) : List AuditLogRow → List String
  | [] => []
  | row :: rows =>
      (if row.orgId = orgId ∧ row.prevHash ≠ prevHash then [prevHashError row prevHash] else []) ++
      (if row.orgId = orgId ∧ row.hash ≠ expectedHash row then [hashError row] else []) ++
      errorsFrom orgId row.hash rows

def SeqLe (a b : AuditLogRow) : Prop := a.seq ≤ b.seq

instance (a b : AuditLogRow) : Decidable (SeqLe a b) := inferInstanceAs (Decidable (a.seq ≤ b.seq))

def verifyChain (orgId : String) (table : List AuditLogRow) : Bool × List String :=
  let rows := table.insertionSort SeqLe
  match rows with
  | [] => (true, [])
  | first :: _ =>
      let errors :=
        (if first.orgId = orgId ∧ first.prevHash ≠ GENESIS_HASH then [genesisError first] else []) ++
        errorsFrom orgId GENESIS_HASH rows
      (errors.isEmpty, errors)

end AuditTrail

inductive AppendStage where
  | reading
  | inserting (row : AuditLogRow)

structure Append where
  entryId : String
  entry : AuditEntry
  attempt : ℕ
  stage : AppendStage

-- A transaction: the rows it has not committed, and how many there were at each of its savepoints.
structure AuditSession where
  rows : List AuditLogRow
  savepoints : List ℕ
  append : Option Append

structure AuditDb where
  committed : List AuditLogRow
  sessions : List AuditSession

inductive AuditEvent where
  | record (i : ℕ) (entryId : String) (entry : AuditEntry)
  | read (i : ℕ) (now : Timestamp)
  | insert (i : ℕ)
  | violate (i : ℕ)
  | fail (i : ℕ)
  | savepoint (i : ℕ)
  | release (i : ℕ)
  | rollbackTo (i : ℕ)
  | commit (i : ℕ)
  | rollback (i : ℕ)

namespace AuditSession

def idle : AuditSession := ⟨[], [], none⟩

-- `IntegrityError`: the append is tried again, or raised for the last time.
def retry (x : AuditSession) (a : Append) : AuditSession :=
  if a.attempt = AuditTrail.MAX_APPEND_ATTEMPTS - 1 then { x with append := none }
  else { x with append := some { a with attempt := a.attempt + 1, stage := .reading } }

end AuditSession

namespace AuditDb

variable (N : JsonbNumeric)

def start (writers : ℕ) : AuditDb := ⟨[], List.replicate writers .idle⟩

def stored (row : AuditLogRow) : AuditLogRow := { row with details := Jsonb.obj N row.details }

def Conflict (row other : AuditLogRow) : Prop := other.seq = row.seq ∨ other.id = row.id

instance (row other : AuditLogRow) : Decidable (Conflict row other) :=
  inferInstanceAs (Decidable (_ ∨ _))

def move (s : AuditDb) (i : ℕ) (x : AuditSession) : AuditDb :=
  { s with sessions := s.sessions.set i x }

-- An insert waits for another transaction that holds a conflicting row.
def insert (s : AuditDb) (i : ℕ) (x : AuditSession) (a : Append) (row : AuditLogRow) :
    Option AuditDb :=
  if ∃ other ∈ (s.sessions.eraseIdx i).flatMap (·.rows), Conflict row other then none
  else if ∃ other ∈ s.committed ++ x.rows, Conflict row other then some (s.move i (x.retry a))
  else some (s.move i { x with rows := x.rows ++ [stored N row], append := none })

def step (s : AuditDb) : AuditEvent → Option AuditDb
  | .record i entryId entry => do
      let x ← s.sessions[i]?
      match x.append with
      | none => some (s.move i { x with append := some ⟨entryId, entry, 0, .reading⟩ })
      | some _ => none
  | .read i now => do
      let x ← s.sessions[i]?
      let a ← x.append
      match a.stage with
      | .reading =>
          let row := AuditTrail.computeRow a.entryId a.entry now (s.committed ++ x.rows)
          some (s.move i { x with append := some { a with stage := .inserting row } })
      | .inserting _ => none
  | .insert i => do
      let x ← s.sessions[i]?
      let a ← x.append
      match a.stage with
      | .inserting row => s.insert N i x a row
      | .reading => none
  | .violate i => do
      let x ← s.sessions[i]?
      let a ← x.append
      some (s.move i (x.retry a))
  | .fail i => do
      let x ← s.sessions[i]?
      some (s.move i { x with append := none })
  | .savepoint i => do
      let x ← s.sessions[i]?
      match x.append with
      | none => some (s.move i { x with savepoints := x.rows.length :: x.savepoints })
      | some _ => none
  | .release i => do
      let x ← s.sessions[i]?
      match x.append with
      | none => some (s.move i { x with savepoints := x.savepoints.tail })
      | some _ => none
  | .rollbackTo i => do
      let x ← s.sessions[i]?
      match x.savepoints with
      | n :: savepoints => some (s.move i ⟨x.rows.take n, savepoints, none⟩)
      | [] => none
  | .commit i => do
      let x ← s.sessions[i]?
      match x.append with
      | none => some { committed := s.committed ++ x.rows, sessions := s.sessions.set i .idle }
      | some _ => none
  | .rollback i => do
      let _ ← s.sessions[i]?
      some (s.move i .idle)

def machine : Machine AuditDb AuditEvent := ⟨step N⟩

end AuditDb

end BTagent
