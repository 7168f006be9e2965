import BTagent.Data.Json
import BTagent.Lib.Machine
import BTagent.Lib.ReadCommitted

namespace BTagent

inductive IdentityProvider where
  | OKTA
  | ENTRA
  | GOOGLE_WORKSPACE
  | DUO
  | GENERIC
  deriving DecidableEq

namespace IdentityProvider

def value : IdentityProvider → String
  | OKTA => "okta"
  | ENTRA => "entra"
  | GOOGLE_WORKSPACE => "google_workspace"
  | DUO => "duo"
  | GENERIC => "generic"

def ofValue (text : String) : Option IdentityProvider :=
  [OKTA, ENTRA, GOOGLE_WORKSPACE, DUO, GENERIC].find? fun p => p.value = text

end IdentityProvider

inductive OAuthConsentType where
  | ADMIN
  | USER
  | PRE_AUTHORIZED
  | UNKNOWN
  deriving DecidableEq

namespace OAuthConsentType

def value : OAuthConsentType → String
  | ADMIN => "admin"
  | USER => "user"
  | PRE_AUTHORIZED => "pre_authorized"
  | UNKNOWN => "unknown"

def ofValue (text : String) : Option OAuthConsentType :=
  [ADMIN, USER, PRE_AUTHORIZED, UNKNOWN].find? fun c => c.value = text

end OAuthConsentType

-- What the upsert reads of a finding; times are instants in microseconds.
structure GrantFinding where
  id : String
  orgId : String
  evidence : Dict
  createdAt : ℤ

-- The columns of the unique index `idx_oauth_grants_tuple`.
structure GrantTuple where
  orgId : String
  provider : String
  principalId : String
  appId : String
  deriving DecidableEq

structure GrantFields where
  provider : String
  principalId : String
  appId : String
  appDisplayName : String
  scopes : List String
  consentType : String
  grantedAt : Option ℤ
  lastUsed : Option ℤ
  revokedAt : Option ℤ
  deriving DecidableEq

-- The other columns of a row.
structure OAuthGrantRow where
  id : String
  appDisplayName : String
  scopes : List String
  consentType : String
  grantedAt : ℤ
  lastUsed : Option ℤ
  revokedAt : Option ℤ
  sourceFindingId : String
  observedAt : ℤ
  createdAt : ℤ
  updatedAt : ℤ
  deriving DecidableEq

abbrev GrantTable := OrderedDict GrantTuple OAuthGrantRow

namespace IdentityGrants

-- `datetime.fromisoformat`, as the instant that the column stores; none where it raises.
variable (fromisoformat : String → Option ℤ)

def textOf : Option Json → Option String
  | some (.str s) => some s
  | _ => none

def parseDt (raw : Option Json) : Option ℤ :=
  match textOf raw with
  | none => none
  | some s => if s = "" then none else fromisoformat s

def coerceProvider (raw : Option Json) : Option IdentityProvider :=
  (textOf raw).bind IdentityProvider.ofValue

def coerceConsent (raw : Option Json) : OAuthConsentType :=
  ((textOf raw).bind OAuthConsentType.ofValue).getD .UNKNOWN

def cut (n : ℕ) (text : String) : String := String.ofList (text.toList.take n)

def scopesOf : Option Json → List String
  | some (.arr xs) => xs.filterMap fun x => textOf (some x)
  | _ => []

def grantFieldsFromEvidence (ev : Dict) (defaultProvider : IdentityProvider) : Option GrantFields := do
  let principalId ← textOf (ev.get? "principal_id")
  let appId ← textOf (ev.get? "app_id")
  if principalId = "" ∨ appId = "" then none
  else
    let provider := (coerceProvider (ev.get? "provider")).getD defaultProvider
    some
      { provider := provider.value
        principalId := cut 512 principalId
        appId := cut 512 appId
        appDisplayName := cut 300 ((textOf (ev.get? "app_display_name")).getD "")
        scopes := scopesOf (ev.get? "scopes")
        consentType := (coerceConsent (ev.get? "consent_type")).value
        grantedAt := parseDt fromisoformat (ev.get? "granted_at")
        lastUsed := parseDt fromisoformat (ev.get? "last_used")
        revokedAt := parseDt fromisoformat (ev.get? "revoked_at") }

def tuple (finding : GrantFinding) (fields : GrantFields) : GrantTuple :=
  ⟨finding.orgId, fields.provider, fields.principalId, fields.appId⟩

def newGrant (id : String) (finding : GrantFinding) (fields : GrantFields) : OAuthGrantRow where
  id := id
  appDisplayName := fields.appDisplayName
  scopes := fields.scopes
  consentType := fields.consentType
  grantedAt := fields.grantedAt.getD finding.createdAt
  lastUsed := fields.lastUsed
  revokedAt := fields.revokedAt
  sourceFindingId := finding.id
  observedAt := finding.createdAt
  createdAt := finding.createdAt
  updatedAt := finding.createdAt

def refresh (finding : GrantFinding) (fields : GrantFields) (existing : OAuthGrantRow) :
    OAuthGrantRow :=
  { existing with
    appDisplayName :=
      if fields.appDisplayName = "" then existing.appDisplayName else fields.appDisplayName
    scopes := if fields.scopes = [] then existing.scopes else fields.scopes
    consentType := fields.consentType
    grantedAt := fields.grantedAt.getD existing.grantedAt
    lastUsed := fields.lastUsed.or existing.lastUsed
    revokedAt := fields.revokedAt
    sourceFindingId := finding.id
    observedAt := finding.createdAt
    updatedAt := finding.createdAt }

-- The row that the flush writes, if any; a new one gets the id `newId`.
def merged (newId : String) (finding : GrantFinding) (fields : GrantFields) :
    Option OAuthGrantRow → Option OAuthGrantRow
  | none => some (newGrant newId finding fields)
  | some existing =>
      if finding.createdAt < existing.observedAt then none
      else some (refresh finding fields existing)

def upsertGrantFromFinding (grants : GrantTable) (newId : String) (finding : GrantFinding) :
    GrantTable :=
  match grantFieldsFromEvidence fromisoformat finding.evidence .OKTA with
  | none => grants
  | some fields =>
      match merged newId finding fields (grants.get? (tuple finding fields)) with
      | none => grants
      | some row => grants.set (tuple finding fields) row

-- Each finding with the id that a row of its would get.
def ingest (grants : GrantTable) (findings : List (String × GrantFinding)) : GrantTable :=
  findings.foldl (fun grants f => upsertGrantFromFinding fromisoformat grants f.1 f.2) grants

end IdentityGrants

namespace IdentityGrants

abbrev StoredGrant := GrantTuple × OAuthGrantRow

-- An UPDATE names the columns whose value differs from the one that was loaded.
def dirtyOr {α : Type*} [DecidableEq α] (loaded value stored : α) : α :=
  if loaded = value then stored else value

def written (loaded value stored : OAuthGrantRow) : OAuthGrantRow :=
  { stored with
    appDisplayName := dirtyOr loaded.appDisplayName value.appDisplayName stored.appDisplayName
    scopes := dirtyOr loaded.scopes value.scopes stored.scopes
    consentType := dirtyOr loaded.consentType value.consentType stored.consentType
    grantedAt := dirtyOr loaded.grantedAt value.grantedAt stored.grantedAt
    lastUsed := dirtyOr loaded.lastUsed value.lastUsed stored.lastUsed
    revokedAt := dirtyOr loaded.revokedAt value.revokedAt stored.revokedAt
    sourceFindingId := dirtyOr loaded.sourceFindingId value.sourceFindingId stored.sourceFindingId
    observedAt := dirtyOr loaded.observedAt value.observedAt stored.observedAt
    updatedAt := dirtyOr loaded.updatedAt value.updatedAt stored.updatedAt }

def grantTable : RowTable StoredGrant String (OAuthGrantRow × OAuthGrantRow) where
  key r := r.2.id
  change c r := (r.1, written c.1 c.2 r.2)
  key_change _ _ := rfl

-- The primary key and `idx_oauth_grants_tuple`.
def Conflict (a b : StoredGrant) : Prop := a.2.id = b.2.id ∨ a.1 = b.1

instance : DecidableRel Conflict := fun _ _ => inferInstanceAs (Decidable (_ ∨ _))

end IdentityGrants

-- Where a session is in `record_finding`, for an identity finding whose own rows it has flushed.
inductive IngestStage where
  | idle
  | recorded (finding : GrantFinding)
  | looked (finding : GrantFinding) (fields : GrantFields) (existing : Option OAuthGrantRow)
  | returned (finding : GrantFinding)

structure IngestDb where
  grants : ReadCommitted IdentityGrants.StoredGrant String (OAuthGrantRow × OAuthGrantRow)
  stage : ℕ → IngestStage
  usable : ℕ → Bool
  committed : List String
  lost : List String

inductive IngestEvent where
  | record (i : ℕ) (finding : GrantFinding)
  | look (i : ℕ)
  | write (i : ℕ) (newId : String)
  | commit (i : ℕ)
  | rollback (i : ℕ)

namespace IngestDb
open IdentityGrants

-- `refused` are the rows whose values the driver or the database takes in no table.
variable (fromisoformat : String → Option ℤ) (refused : StoredGrant → Bool)

def start (sessions : ℕ) (rows : List StoredGrant) : IngestDb where
  grants := ⟨rows, List.replicate sessions .empty⟩
  stage _ := .idle
  usable _ := true
  committed := []
  lost := []

def goto (s : IngestDb) (i : ℕ) (stage : IngestStage) : IngestDb :=
  { s with stage := Function.update s.stage i stage }

-- A flush that fails outside a savepoint; the exception is caught and logged.
def deactivate (s : IngestDb) (i : ℕ) (finding : GrantFinding) : IngestDb :=
  { s with
    grants := s.grants.rollback i
    stage := Function.update s.stage i (.returned finding)
    usable := Function.update s.usable i false }

-- `scalar_one_or_none` raises on two rows, which leaves the session usable.
def look (s : IngestDb) (i : ℕ) (x : Transaction StoredGrant String (OAuthGrantRow × OAuthGrantRow))
    (finding : GrantFinding) : IngestDb :=
  match grantFieldsFromEvidence fromisoformat finding.evidence .OKTA with
  | none => s.goto i (.returned finding)
  | some fields =>
      match (s.grants.view grantTable x).filter fun r => r.1 = tuple finding fields with
      | [] => s.goto i (.looked finding fields none)
      | [r] => s.goto i (.looked finding fields (some r.2))
      | _ => s.goto i (.returned finding)

def write (s : IngestDb) (i : ℕ) (x : Transaction StoredGrant String (OAuthGrantRow × OAuthGrantRow))
    (finding : GrantFinding) (fields : GrantFields) (existing : Option OAuthGrantRow)
    (newId : String) : Option IngestDb :=
  match merged newId finding fields existing with
  | none => some (s.goto i (.returned finding))
  | some row =>
      if refused (tuple finding fields, row) then some (s.deactivate i finding)
      else
        match existing with
        | none =>
            if s.grants.Violated Conflict x (tuple finding fields, row) then
              some (s.deactivate i finding)
            else if s.grants.Awaited Conflict i (tuple finding fields, row) then none
            else some { s with
              grants := s.grants.insert i x (tuple finding fields, row)
              stage := Function.update s.stage i (.returned finding) }
        | some loaded =>
            if s.grants.Held i loaded.id then none
            else some { s with
              grants := s.grants.update i x loaded.id (loaded, row)
              stage := Function.update s.stage i (.returned finding) }

-- The last flush and the caller's commit, which an unusable session refuses.
def finish (s : IngestDb) (i : ℕ) (x : Transaction StoredGrant String (OAuthGrantRow × OAuthGrantRow))
    (finding : GrantFinding) : IngestDb :=
  if s.usable i then
    { s with
      grants := s.grants.commit grantTable i x
      stage := Function.update s.stage i .idle
      committed := finding.id :: s.committed }
  else
    { s with
      grants := s.grants.rollback i
      stage := Function.update s.stage i .idle
      usable := Function.update s.usable i true
      lost := finding.id :: s.lost }

-- Without `upsert`, `record_finding` goes straight to its last flush.
def step (upsert : Bool) (s : IngestDb) : IngestEvent → Option IngestDb
  | .record i finding =>
      match s.stage i with
      | .idle => some (s.goto i (if upsert then .recorded finding else .returned finding))
      | _ => none
  | .look i => do
      let x ← s.grants.transactions[i]?
      match s.stage i with
      | .recorded finding => some (s.look fromisoformat i x finding)
      | _ => none
  | .write i newId => do
      let x ← s.grants.transactions[i]?
      match s.stage i with
      | .looked finding fields existing => s.write refused i x finding fields existing newId
      | _ => none
  | .commit i => do
      let x ← s.grants.transactions[i]?
      match s.stage i with
      | .returned finding => some (s.finish i x finding)
      | _ => none
  | .rollback i => do
      let _ ← s.grants.transactions[i]?
      some { s with
        grants := s.grants.rollback i
        stage := Function.update s.stage i .idle
        usable := Function.update s.usable i true }

def machine (upsert : Bool) : Machine IngestDb IngestEvent :=
  ⟨step fromisoformat refused upsert⟩

end IngestDb

end BTagent
