import BTagent.Audit.Ledger
import BTagent.Lib.ReadCommitted

namespace BTagent

inductive UserRole where
  | ANALYST
  | SENIOR_ANALYST
  | INCIDENT_COMMANDER
  | ADMIN

namespace UserRole

def ofValue : String → Option UserRole
  | "analyst" => some ANALYST
  | "senior_analyst" => some SENIOR_ANALYST
  | "incident_commander" => some INCIDENT_COMMANDER
  | "admin" => some ADMIN
  | _ => none

def HIERARCHY : UserRole → ℕ
  | ANALYST => 0
  | SENIOR_ANALYST => 1
  | INCIDENT_COMMANDER => 2
  | ADMIN => 3

def PERMISSIONS : String → Option UserRole
  | "user:create" => some ADMIN
  | "sso:link" => some ADMIN
  | "sso:unlink" => some ADMIN
  | _ => none

def hasPermission (userRole permission : String) : Bool :=
  match ofValue userRole, PERMISSIONS permission with
  | some role, some required => HIERARCHY required ≤ HIERARCHY role
  | _, _ => false

end UserRole

structure UserRow where
  id : String
  orgId : String
  username : String
  email : String
  passwordHash : Option String
  role : String

structure SSOIdentityRow where
  id : String
  userId : String
  provider : String
  subject : String
  email : Option String

structure CurrentUser where
  username : String
  role : String
  orgId : String

-- What a verified ID token or a signed SAML assertion says.
structure Assertion where
  provider : String
  subject : String
  email : Option String
  emailVerified : Bool
  role : String

structure LinkSSOIdentityRequest where
  userId : String
  provider : String
  subject : String
  email : Option String

structure RegisterRequest where
  username : String
  email : String
  passwordHash : String
  role : String

inductive SsoRequest where
  | jitProvision (a : Assertion)
  | linkSsoIdentity (user : CurrentUser) (body : LinkSSOIdentityRequest)
  | unlinkSsoIdentity (user : CurrentUser) (identityId : String)
  | register (user : CurrentUser) (body : RegisterRequest)
  | createOrResetAdmin (username passwordHash role : String)

structure HTTPException where
  statusCode : ℕ
  detail : String

inductive SsoWrite where
  | insertUser (row : UserRow)
  | setPassword (userId passwordHash : String)
  | insertIdentity (row : SSOIdentityRow)
  | deleteIdentity (id : String)
  | record (entry : AuditEntry)

-- Where a request stands between two of its statements; `login` is the identity that a session is
-- minted for once all is written.
inductive SsoStage where
  | idle
  | requested (r : SsoRequest)
  | loading (a : Assertion) (identity : SSOIdentityRow)
  | matching (a : Assertion) (email : String)
  | creating (a : Assertion) (email : String)
  | checking (user : CurrentUser) (body : LinkSSOIdentityRequest) (target : UserRow)
  | owning (user : CurrentUser) (identity : SSOIdentityRow)
  | writing (pending : List SsoWrite) (login : Option SSOIdentityRow)

structure SsoDb where
  users : ReadCommitted UserRow String String
  identities : ReadCommitted SSOIdentityRow String Unit
  entries : ℕ → List AuditEntry
  stage : ℕ → SsoStage
  trail : List AuditEntry
  logins : List SSOIdentityRow

-- The ids and the token are random.
inductive SsoEvent where
  | request (i : ℕ) (r : SsoRequest)
  | read (i : ℕ) (id identityId token : String)
  | write (i : ℕ)
  | mint (i : ℕ)
  | commit (i : ℕ)
  | rollback (i : ℕ)

namespace Sso

def DEFAULT_ORG_ID : String := "org_default"

def userTable : RowTable UserRow String String where
  key := UserRow.id
  change passwordHash row := { row with passwordHash := some passwordHash }
  key_change _ _ := rfl

def UserConflict (row other : UserRow) : Prop :=
  other.id = row.id ∨ other.username = row.username ∨ other.email = row.email

instance : DecidableRel UserConflict := fun row other =>
  inferInstanceAs (Decidable (other.id = row.id ∨ _))

def IdentityConflict (row other : SSOIdentityRow) : Prop :=
  other.id = row.id ∨ (other.provider = row.provider ∧ other.subject = row.subject)

instance : DecidableRel IdentityConflict := fun row other =>
  inferInstanceAs (Decidable (other.id = row.id ∨ _))

def linkEntry (user : CurrentUser) (target : UserRow) (identity : SSOIdentityRow) : AuditEntry where
  actor := user.username
  category := .AUTHORIZATION
  action := "sso.identity.link"
  resource := s!"user:{target.id}"
  outcome := .SUCCESS
  details := some
    { entries := [("provider", .str identity.provider), ("subject", .str identity.subject),
        ("identity_id", .str identity.id), ("target_username", .str target.username)]
      nodup := by simp }
  orgId := user.orgId
  keyed := by
    rintro d ⟨⟩
    simp [Json.Throughout, Json.ThroughoutFields, Json.DistinctKeys]

def unlinkEntry (user : CurrentUser) (identity : SSOIdentityRow) : AuditEntry where
  actor := user.username
  category := .AUTHORIZATION
  action := "sso.identity.unlink"
  resource := s!"user:{identity.userId}"
  outcome := .SUCCESS
  details := some
    { entries := [("provider", .str identity.provider), ("subject", .str identity.subject),
        ("identity_id", .str identity.id)]
      nodup := by simp }
  orgId := user.orgId
  keyed := by
    rintro d ⟨⟩
    simp [Json.Throughout, Json.ThroughoutFields, Json.DistinctKeys]

def deriveUsername (email subject token : String) : String :=
  let part := String.ofList (email.toList.takeWhile (· ≠ '@'))
  let base := if part = "" then subject else part
  String.ofList (base.toList.take 80) ++ "-" ++ token

def refuse (statusCode : ℕ) (detail : String) : Except HTTPException SsoStage :=
  .error ⟨statusCode, detail⟩

def requirePermission (user : CurrentUser) (permission : String)
    (granted : Except HTTPException SsoStage) : Except HTTPException SsoStage :=
  if UserRole.hasPermission user.role permission then granted
  else refuse 403 s!"Permission denied: {permission} requires higher role than {user.role}"

def requireEmail (a : Assertion) : Except HTTPException SsoStage :=
  match a.email with
  | some email =>
      if email ≠ "" ∧ a.emailVerified then .ok (.matching a email)
      else refuse 400 "IdP did not assert a verified email"
  | none => refuse 400 "IdP did not assert a verified email"

section Read

variable (providers : List String) (users : List UserRow) (identities : List SSOIdentityRow)
  (id identityId token : String)

-- The first statement of a request.
def start : SsoRequest → Except HTTPException SsoStage
  | .jitProvision a =>
      match identities.find? fun row => row.provider = a.provider ∧ row.subject = a.subject with
      | some identity => .ok (.loading a identity)
      | none => requireEmail a
  | .linkSsoIdentity user body =>
      requirePermission user "sso:link" <|
        if body.provider ∉ providers then refuse 404 "Unknown SSO provider"
        else
          match users.find? fun row => row.id = body.userId with
          | none => refuse 404 "User not found"
          | some target =>
              if target.orgId ≠ user.orgId then refuse 404 "User not found"
              else .ok (.checking user body target)
  | .unlinkSsoIdentity user identityId =>
      requirePermission user "sso:unlink" <|
        match identities.find? fun row => row.id = identityId with
        | none => refuse 404 "SSO identity not found"
        | some identity => .ok (.owning user identity)
  | .register user body =>
      requirePermission user "user:create" <|
        if ∃ row ∈ users, row.username = body.username ∨ row.email = body.email then
          refuse 409 "Username or email already exists"
        else
          .ok (.writing [.insertUser ⟨id, user.orgId, body.username, body.email,
            some body.passwordHash, body.role⟩] none)
  | .createOrResetAdmin username passwordHash role =>
      match users.find? fun row => row.username = username with
      | none =>
          .ok (.writing [.insertUser ⟨id, DEFAULT_ORG_ID, username, s!"{username}@btagent.local",
            some passwordHash, role⟩] none)
      | some user => .ok (.writing [.setPassword user.id passwordHash] none)

-- What a request does after its next statement reads; before its writes it sees what is committed.
def read : SsoStage → Option (Except HTTPException SsoStage)
  | .idle => none
  | .requested r => some (start providers users identities id r)
  | .loading a identity =>
      match users.find? fun row => row.id = identity.userId with
      | some _ => some (.ok (.writing [] (some identity)))
      | none => some (requireEmail a)
  | .matching a email =>
      match users.find? fun row => row.email = email with
      | none => some (.ok (.creating a email))
      | some user =>
          if user.passwordHash ≠ none then
            some (refuse 409
              "An account with this email already exists; an administrator must link it to SSO")
          else
            let identity := ⟨identityId, user.id, a.provider, a.subject, some email⟩
            some (.ok (.writing [.insertIdentity identity] (some identity)))
  | .creating a email =>
      let user := ⟨id, DEFAULT_ORG_ID, deriveUsername email a.subject token, email, none, a.role⟩
      let identity := ⟨identityId, id, a.provider, a.subject, some email⟩
      some (.ok (.writing [.insertUser user, .insertIdentity identity] (some identity)))
  | .checking user body target =>
      match identities.find? fun row =>
          row.provider = body.provider ∧ row.subject = body.subject with
      | some _ => some (refuse 409 "This IdP identity is already linked to an account")
      | none =>
          let identity := ⟨identityId, target.id, body.provider, body.subject, body.email⟩
          some (.ok (.writing
            [.insertIdentity identity, .record (linkEntry user target identity)] none))
  | .owning user identity =>
      match users.find? fun row => row.id = identity.userId with
      | none => some (refuse 404 "SSO identity not found")
      | some owner =>
          if owner.orgId ≠ user.orgId then some (refuse 404 "SSO identity not found")
          else
            some (.ok (.writing
              [.record (unlinkEntry user identity), .deleteIdentity identity.id] none))
  | .writing _ _ => none

end Read

-- Where a statement that reads can lead.
inductive ReadTo (users : List UserRow) (identities : List SSOIdentityRow) :
    SsoStage → SsoStage → Prop where
  | found {a : Assertion} {identity : SSOIdentityRow} (hmem : identity ∈ identities) :
      ReadTo users identities (.requested (.jitProvision a)) (.loading a identity)
  | unknown {a : Assertion} {email : String} :
      ReadTo users identities (.requested (.jitProvision a)) (.matching a email)
  | dangling {a : Assertion} {identity : SSOIdentityRow} {email : String} :
      ReadTo users identities (.loading a identity) (.matching a email)
  | loaded {a : Assertion} {identity : SSOIdentityRow} :
      ReadTo users identities (.loading a identity) (.writing [] (some identity))
  | unmatched {a : Assertion} {email : String} :
      ReadTo users identities (.matching a email) (.creating a email)
  | matched {a : Assertion} {email : String} {user : UserRow} {identity : SSOIdentityRow}
      (hmem : user ∈ users) (hpassword : user.passwordHash = none)
      (huser : identity.userId = user.id) :
      ReadTo users identities (.matching a email)
        (.writing [.insertIdentity identity] (some identity))
  | created {a : Assertion} {email : String} {user : UserRow} {identity : SSOIdentityRow}
      (huser : identity.userId = user.id) :
      ReadTo users identities (.creating a email)
        (.writing [.insertUser user, .insertIdentity identity] (some identity))
  | target {user : CurrentUser} {body : LinkSSOIdentityRequest} {target : UserRow}
      (hmem : target ∈ users) (horg : target.orgId = user.orgId) :
      ReadTo users identities (.requested (.linkSsoIdentity user body))
        (.checking user body target)
  | linked {user : CurrentUser} {body : LinkSSOIdentityRequest} {target : UserRow}
      {identity : SSOIdentityRow} (huser : identity.userId = target.id) :
      ReadTo users identities (.checking user body target)
        (.writing [.insertIdentity identity, .record (linkEntry user target identity)] none)
  | owned {user : CurrentUser} {identityId : String} {identity : SSOIdentityRow} :
      ReadTo users identities (.requested (.unlinkSsoIdentity user identityId))
        (.owning user identity)
  | unlinked {user : CurrentUser} {identity : SSOIdentityRow} :
      ReadTo users identities (.owning user identity)
        (.writing [.record (unlinkEntry user identity), .deleteIdentity identity.id] none)
  | inserted {r : SsoRequest} {row : UserRow} :
      ReadTo users identities (.requested r) (.writing [.insertUser row] none)
  | reset {r : SsoRequest} {userId passwordHash : String} :
      ReadTo users identities (.requested r) (.writing [.setPassword userId passwordHash] none)

section ReadTo
variable {providers : List String} {users : List UserRow} {identities : List SSOIdentityRow}
  {id identityId token : String} {stage stage' : SsoStage}

theorem requireEmail_ok {a : Assertion} (h : requireEmail a = .ok stage) :
    ∃ email, stage = .matching a email := by
  rw [requireEmail] at h
  split at h
  · split at h
    · cases h
      exact ⟨_, rfl⟩
    · cases h
  · cases h

theorem requirePermission_ok {user : CurrentUser} {permission : String}
    {granted : Except HTTPException SsoStage}
    (h : requirePermission user permission granted = .ok stage) : granted = .ok stage := by
  rw [requirePermission] at h
  split at h
  · exact h
  · cases h

theorem readTo_of_start {r : SsoRequest} (h : start providers users identities id r = .ok stage) :
    ReadTo users identities (.requested r) stage := by
  cases r with
  | jitProvision a =>
      rw [start] at h
      split at h
      · next hfound =>
          cases h
          exact .found (List.mem_of_find?_eq_some hfound)
      · obtain ⟨email, rfl⟩ := requireEmail_ok h
        exact .unknown
  | linkSsoIdentity user body =>
      have h := requirePermission_ok h
      split at h
      · cases h
      · split at h
        · cases h
        · next hfound =>
            split at h
            · cases h
            · next horg =>
                cases h
                exact .target (List.mem_of_find?_eq_some hfound) (not_not.mp horg)
  | unlinkSsoIdentity user identityId =>
      have h := requirePermission_ok h
      split at h
      · cases h
      · cases h
        exact .owned
  | register user body =>
      have h := requirePermission_ok h
      split at h
      · cases h
      · cases h
        exact .inserted
  | createOrResetAdmin username passwordHash role =>
      rw [start] at h
      split at h
      · cases h
        exact .inserted
      · cases h
        exact .reset

theorem readTo_of_read
    (h : read providers users identities id identityId token stage = some (.ok stage')) :
    ReadTo users identities stage stage' := by
  cases stage with
  | idle => cases h
  | requested r => exact readTo_of_start (Option.some.inj h)
  | loading a identity =>
      rw [read] at h
      split at h
      · cases h
        exact .loaded
      · obtain ⟨email, rfl⟩ := requireEmail_ok (Option.some.inj h)
        exact .dangling
  | matching a email =>
      rw [read] at h
      split at h
      · cases h
        exact .unmatched
      · next hfound =>
          split at h
          · cases h
          · next hpassword =>
              cases h
              exact .matched (List.mem_of_find?_eq_some hfound) (not_not.mp hpassword) rfl
  | creating a email =>
      cases h
      exact .created rfl
  | checking user body target =>
      rw [read] at h
      split at h
      · cases h
      · cases h
        exact .linked rfl
  | owning user identity =>
      rw [read] at h
      split at h
      · cases h
      · split at h
        · cases h
        · cases h
          exact .unlinked
  | writing pending login => cases h

end ReadTo

end Sso

namespace SsoDb
open Sso

def empty (n : ℕ) : SsoDb where
  users := ⟨[], List.replicate n .empty⟩
  identities := ⟨[], List.replicate n .empty⟩
  entries _ := []
  stage _ := .idle
  trail := []
  logins := []

variable (providers : List String) (s : SsoDb)

def enter (i : ℕ) (stage : SsoStage) : SsoDb := { s with stage := Function.update s.stage i stage }

def abort (i : ℕ) : SsoDb where
  users := s.users.rollback i
  identities := s.identities.rollback i
  entries := Function.update s.entries i []
  stage := Function.update s.stage i .idle
  trail := s.trail
  logins := s.logins

-- A statement waits for the transactions whose rows stand in its way.
def write (i : ℕ) (next : SsoStage) : SsoWrite → Option SsoDb
  | .insertUser row => do
      let x ← s.users.transactions[i]?
      if s.users.Awaited UserConflict i row then none
      else if s.users.Violated UserConflict x row then some (s.abort i)
      else some ({ s with users := s.users.insert i x row }.enter i next)
  | .setPassword userId passwordHash => do
      let x ← s.users.transactions[i]?
      if s.users.Held i userId then none
      else some ({ s with users := s.users.update i x userId passwordHash }.enter i next)
  | .insertIdentity row => do
      let y ← s.identities.transactions[i]?
      if s.identities.Awaited IdentityConflict i row ∨
          s.identities.Deleting SSOIdentityRow.id IdentityConflict i row then none
      else if s.identities.Violated IdentityConflict y row then some (s.abort i)
      else some ({ s with identities := s.identities.insert i y row }.enter i next)
  | .deleteIdentity id => do
      let y ← s.identities.transactions[i]?
      if s.identities.Held i id then none
      else some ({ s with identities := s.identities.update i y id () }.enter i next)
  | .record entry =>
      some ({ s with entries := Function.update s.entries i (s.entries i ++ [entry]) }.enter i next)

def commit (i : ℕ) : Option SsoDb := do
  let x ← s.users.transactions[i]?
  let y ← s.identities.transactions[i]?
  some { s with
    users := s.users.commit userTable i x
    identities := s.identities.commitDeletes SSOIdentityRow.id i y
    entries := Function.update s.entries i []
    stage := Function.update s.stage i .idle
    trail := s.trail ++ s.entries i }

def step : SsoEvent → Option SsoDb
  | .request i r =>
      match s.stage i with
      | .idle => some (s.enter i (.requested r))
      | _ => none
  | .read i id identityId token =>
      match read providers s.users.committed s.identities.committed id identityId token
          (s.stage i) with
      | none => none
      | some (.error _) => some (s.abort i)
      | some (.ok stage) => some (s.enter i stage)
  | .write i =>
      match s.stage i with
      | .writing (w :: pending) login => s.write i (.writing pending login) w
      | _ => none
  | .mint i =>
      match s.stage i with
      | .writing [] (some identity) =>
          some ({ s with logins := s.logins ++ [identity] }.enter i (.writing [] none))
      | _ => none
  | .commit i =>
      match s.stage i with
      | .writing [] none => s.commit i
      | _ => none
  | .rollback i => some (s.abort i)

def machine : Machine SsoDb SsoEvent := ⟨fun s e => s.step providers e⟩

section Moved

-- What a write changes besides the stage.
inductive Wrote (s : SsoDb) (i : ℕ) : SsoWrite → SsoDb → Prop where
  | insertUser (row : UserRow) (x : Transaction UserRow String String)
      (hx : s.users.transactions[i]? = some x) (hawaited : ¬ s.users.Awaited UserConflict i row)
      (hviolated : ¬ s.users.Violated UserConflict x row) :
      Wrote s i (.insertUser row) { s with users := s.users.insert i x row }
  | setPassword (userId passwordHash : String) (x : Transaction UserRow String String)
      (hx : s.users.transactions[i]? = some x) :
      Wrote s i (.setPassword userId passwordHash)
        { s with users := s.users.update i x userId passwordHash }
  | insertIdentity (row : SSOIdentityRow) (y : Transaction SSOIdentityRow String Unit)
      (hy : s.identities.transactions[i]? = some y)
      (hawaited : ¬ s.identities.Awaited IdentityConflict i row)
      (hviolated : ¬ s.identities.Violated IdentityConflict y row) :
      Wrote s i (.insertIdentity row) { s with identities := s.identities.insert i y row }
  | deleteIdentity (id : String) (y : Transaction SSOIdentityRow String Unit)
      (hy : s.identities.transactions[i]? = some y) :
      Wrote s i (.deleteIdentity id) { s with identities := s.identities.update i y id () }
  | record (entry : AuditEntry) :
      Wrote s i (.record entry)
        { s with entries := Function.update s.entries i (s.entries i ++ [entry]) }

inductive Moved (s : SsoDb) : SsoDb → Prop where
  | requested (i : ℕ) (r : SsoRequest) (hidle : s.stage i = .idle) :
      Moved s (s.enter i (.requested r))
  | read (i : ℕ) (stage : SsoStage)
      (hread : ReadTo s.users.committed s.identities.committed (s.stage i) stage) :
      Moved s (s.enter i stage)
  | wrote (i : ℕ) (w : SsoWrite) (pending : List SsoWrite) (login : Option SSOIdentityRow)
      (hstage : s.stage i = .writing (w :: pending) login) (t : SsoDb) (hwrote : Wrote s i w t) :
      Moved s (t.enter i (.writing pending login))
  | minted (i : ℕ) (identity : SSOIdentityRow) (hstage : s.stage i = .writing [] (some identity)) :
      Moved s
        ({ s with logins := s.logins ++ [identity] }.enter i (.writing [] none))
  | committed (i : ℕ) (hstage : s.stage i = .writing [] none) (t : SsoDb)
      (hcommit : s.commit i = some t) : Moved s t
  | aborted (i : ℕ) : Moved s (s.abort i)

variable {providers s} {t : SsoDb} {i : ℕ} {e : SsoEvent}

theorem moved_of_write {w : SsoWrite} {pending : List SsoWrite} {login : Option SSOIdentityRow}
    (hstage : s.stage i = .writing (w :: pending) login)
    (h : s.write i (.writing pending login) w = some t) : Moved s t := by
  cases w with
  | insertUser row =>
      simp only [write, Option.bind_eq_bind, Option.bind_eq_some_iff] at h
      obtain ⟨x, hx, h⟩ := h
      split at h
      · cases h
      · next hawaited =>
          split at h
          · cases h
            exact .aborted i
          · next hviolated =>
              cases h
              exact .wrote i _ pending login hstage _ (.insertUser row x hx hawaited hviolated)
  | setPassword userId passwordHash =>
      simp only [write, Option.bind_eq_bind, Option.bind_eq_some_iff] at h
      obtain ⟨x, hx, h⟩ := h
      split at h
      · cases h
      · cases h
        exact .wrote i _ pending login hstage _ (.setPassword userId passwordHash x hx)
  | insertIdentity row =>
      simp only [write, Option.bind_eq_bind, Option.bind_eq_some_iff] at h
      obtain ⟨y, hy, h⟩ := h
      split at h
      · cases h
      · next hawaited =>
          split at h
          · cases h
            exact .aborted i
          · next hviolated =>
              cases h
              exact .wrote i _ pending login hstage _
                (.insertIdentity row y hy (fun h => hawaited (Or.inl h)) hviolated)
  | deleteIdentity id =>
      simp only [write, Option.bind_eq_bind, Option.bind_eq_some_iff] at h
      obtain ⟨y, hy, h⟩ := h
      split at h
      · cases h
      · cases h
        exact .wrote i _ pending login hstage _ (.deleteIdentity id y hy)
  | record entry =>
      cases h
      exact .wrote i _ pending login hstage _ (.record entry)

theorem moved_of_step (h : s.step providers e = some t) : Moved s t := by
  cases e with
  | request i r =>
      simp only [step] at h
      split at h
      · next hidle =>
          cases h
          exact .requested i r hidle
      · cases h
  | read i id identityId token =>
      simp only [step] at h
      split at h
      · cases h
      · cases h
        exact .aborted i
      · next hread =>
          cases h
          exact .read i _ (readTo_of_read hread)
  | write i =>
      simp only [step] at h
      split at h
      · next hstage => exact moved_of_write hstage h
      · cases h
  | mint i =>
      simp only [step] at h
      split at h
      · next hstage =>
          cases h
          exact .minted i _ hstage
      · cases h
  | commit i =>
      simp only [step] at h
      split at h
      · next hstage => exact .committed i hstage t h
      · cases h
  | rollback i =>
      cases h
      exact .aborted i

end Moved

end SsoDb

end BTagent
