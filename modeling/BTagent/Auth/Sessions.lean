import BTagent.Auth.Tokens
import BTagent.Lib.Machine
import BTagent.Lib.Slots

namespace BTagent

-- What `decode_token` gives of the outgoing token of a rotation, whatever its type.
structure OldToken where
  jti : ℕ
  exp : ℕ
  deriving DecidableEq

-- The next command of a `/auth/refresh` request; a TTL, and the time of the access token, are
-- carried from the clock reading to the step that uses them.
inductive RefreshStage where
  | familyCheck
  | userCheck
  | jtiCheck
  | reuseDetected
  | revokingFamily (ttl : ℕ)
  | consuming
  | revokingJti (ttl : ℕ)
  | retiring
  | revokingOld (old : OldToken) (ttl : ℕ)
  | mintingAccess
  | mintingRefresh (accessNow : ℕ)
  | done
  deriving DecidableEq

structure RefreshRequest where
  token : RefreshToken
  old : Option OldToken
  stage : RefreshStage

inductive RevokeStage where
  | reading
  | setting (epoch : ℕ)
  | returning (epoch : ℕ)
  | returned (epoch : ℕ)
  deriving DecidableEq

-- A call of `revoke_user_sessions`; `fids` are the logins made before it.
structure RevokeCall where
  user : UserId
  fids : List ℕ
  stage : RevokeStage

inductive AccessStage where
  | jtiCheck
  | userCheck
  | done
  deriving DecidableEq

structure AccessRequest where
  token : AccessToken
  stage : AccessStage

-- The last four fields record what happened: tokens exchanged, reuses detected with the replayed
-- token's `exp`, exchanges in a family after its reuse was detected, and tokens accepted for a
-- login that a forced logout had ended.
structure Sessions where
  now : ℕ
  nextId : ℕ
  revokedJtis : Expiring ℕ Unit
  revokedFamilies : Expiring ℕ Unit
  userEpochs : Expiring UserId ℕ
  refreshTokens : List RefreshToken
  accessTokens : List AccessToken
  refreshes : List RefreshRequest
  revokes : List RevokeCall
  accesses : List AccessRequest
  exchanged : List ℕ
  reuses : List (ℕ × ℕ)
  afterReuse : List ℕ
  afterLogout : List ℕ

inductive AuthEvent where
  | tick (microseconds : ℕ)
  | login (user : UserId)
  | refresh (k : ℕ) (old : Option OldToken)
  | refreshStep (i : ℕ)
  | drop (i : ℕ)
  | revokeSessions (user : UserId)
  | revokeStep (i : ℕ)
  | access (k : ℕ)
  | accessStep (i : ℕ)

namespace RevokeCall

def isReturned (call : RevokeCall) : Bool :=
  match call.stage with
  | .returned _ => true
  | _ => false

end RevokeCall

namespace Sessions

def start : Sessions := ⟨0, 0, .empty, .empty, .empty, [], [], [], [], [], [], [], [], []⟩

def isRevoked (s : Sessions) (jti : ℕ) : Bool :=
  (s.revokedJtis.get (Auth.milliseconds s.now) jti).isSome

def isFamilyRevoked (s : Sessions) (fid : ℕ) : Bool :=
  (s.revokedFamilies.get (Auth.milliseconds s.now) fid).isSome

def isUserRevoked (s : Sessions) (user : UserId) (iat : ℕ) : Bool :=
  match s.userEpochs.get (Auth.milliseconds s.now) user with
  | none => false
  | some epoch => iat < epoch

-- Tokens that an authority has signed and a client may present.
def signed (s : Sessions) : List OldToken :=
  s.refreshTokens.map (fun t => ⟨t.jti, t.exp⟩) ++ s.accessTokens.map fun t => ⟨t.jti, t.exp⟩

def endedFids (s : Sessions) : List ℕ := (s.revokes.filter (·.isReturned)).flatMap (·.fids)

def moveRefresh (s : Sessions) (i : ℕ) (r : RefreshRequest) (stage : RefreshStage) : Sessions :=
  { s with refreshes := s.refreshes.set i { r with stage } }

def moveRevoke (s : Sessions) (i : ℕ) (call : RevokeCall) (stage : RevokeStage) : Sessions :=
  { s with revokes := s.revokes.set i { call with stage } }

def moveAccess (s : Sessions) (i : ℕ) (r : AccessRequest) (stage : AccessStage) : Sessions :=
  { s with accesses := s.accesses.set i { r with stage } }

variable (settings : AuthSettings)

def login (s : Sessions) (user : UserId) : Sessions :=
  { s with
    nextId := s.nextId + 3
    accessTokens := s.accessTokens ++
      [Auth.createAccessToken settings s.now user (s.nextId + 1) s.nextId]
    refreshTokens := s.refreshTokens ++
      [Auth.createRefreshToken settings s.now user (s.nextId + 2) s.nextId] }

def exchange (s : Sessions) (r : RefreshRequest) (accessNow : ℕ) : Sessions :=
  { s with
    nextId := s.nextId + 2
    accessTokens := s.accessTokens ++
      [Auth.createAccessToken settings accessNow r.token.sub s.nextId r.token.fid]
    refreshTokens := s.refreshTokens ++
      [Auth.createRefreshToken settings s.now r.token.sub (s.nextId + 1) r.token.fid]
    exchanged := s.exchanged ++ [r.token.jti]
    afterReuse :=
      if r.token.fid ∈ s.reuses.map Prod.fst then s.afterReuse ++ [r.token.jti] else s.afterReuse
    afterLogout :=
      if r.token.fid ∈ s.endedFids then s.afterLogout ++ [r.token.jti] else s.afterLogout }

def refreshStep (s : Sessions) (i : ℕ) (r : RefreshRequest) : RefreshStage → Option Sessions
  | .familyCheck =>
      some (s.moveRefresh i r (if s.isFamilyRevoked r.token.fid then .done else .userCheck))
  | .userCheck =>
      some (s.moveRefresh i r
        (if s.isUserRevoked r.token.sub r.token.iat then .done else .jtiCheck))
  | .jtiCheck =>
      if s.isRevoked r.token.jti then
        some { s.moveRefresh i r .reuseDetected with
          reuses := s.reuses ++ [(r.token.fid, r.token.exp)] }
      else some (s.moveRefresh i r .consuming)
  | .reuseDetected =>
      some (s.moveRefresh i r (.revokingFamily (Auth.remainingTtl r.token.exp s.now)))
  | .revokingFamily ttl =>
      some { s.moveRefresh i r .done with
        revokedFamilies := Auth.setEx s.revokedFamilies s.now r.token.fid () ttl }
  | .consuming => some (s.moveRefresh i r (.revokingJti (Auth.remainingTtl r.token.exp s.now)))
  | .revokingJti ttl =>
      some { s.moveRefresh i r .retiring with
        revokedJtis := Auth.setEx s.revokedJtis s.now r.token.jti () ttl }
  | .retiring =>
      match r.old with
      | none => some (s.moveRefresh i r .mintingAccess)
      | some old =>
          if Auth.accepts old.exp s.now then
            some (s.moveRefresh i r (.revokingOld old (Auth.remainingTtl old.exp s.now)))
          else some (s.moveRefresh i r .mintingAccess)
  | .revokingOld old ttl =>
      some { s.moveRefresh i r .mintingAccess with
        revokedJtis := Auth.setEx s.revokedJtis s.now old.jti () ttl }
  | .mintingAccess => some (s.moveRefresh i r (.mintingRefresh s.now))
  | .mintingRefresh accessNow => some ((s.moveRefresh i r .done).exchange settings r accessNow)
  | .done => none

def revokeStep (s : Sessions) (i : ℕ) (call : RevokeCall) : RevokeStage → Option Sessions
  | .reading => some (s.moveRevoke i call (.setting (Auth.seconds s.now + 1)))
  | .setting epoch =>
      some { s.moveRevoke i call (.returning epoch) with
        userEpochs := Auth.setEx s.userEpochs s.now call.user epoch settings.refreshTtl }
  | .returning epoch => some (s.moveRevoke i call (.returned epoch))
  | .returned _ => none

-- `get_current_user` with `_assert_token_not_revoked`.
def accessStep (s : Sessions) (i : ℕ) (r : AccessRequest) : AccessStage → Option Sessions
  | .jtiCheck => some (s.moveAccess i r (if s.isRevoked r.token.jti then .done else .userCheck))
  | .userCheck =>
      if s.isUserRevoked r.token.sub r.token.iat then some (s.moveAccess i r .done)
      else some { s.moveAccess i r .done with
        afterLogout :=
          if r.token.fid ∈ s.endedFids then s.afterLogout ++ [r.token.jti] else s.afterLogout }
  | .done => none

def presentRefresh (s : Sessions) (old : Option OldToken) (t : RefreshToken) : Option Sessions :=
  if Auth.accepts t.exp s.now ∧ ∀ o ∈ old, o ∈ s.signed then
    some { s with refreshes := s.refreshes ++ [⟨t, old, .familyCheck⟩] }
  else none

def presentAccess (s : Sessions) (t : AccessToken) : Option Sessions :=
  if Auth.accepts t.exp s.now then some { s with accesses := s.accesses ++ [⟨t, .jtiCheck⟩] }
  else none

def fidsOf (s : Sessions) (user : UserId) : List ℕ :=
  (s.refreshTokens.filter fun t => t.sub = user).map (·.fid)

def step (s : Sessions) : AuthEvent → Option Sessions
  | .tick microseconds => some { s with now := s.now + microseconds }
  | .login user => some (s.login settings user)
  | .refresh k old => (s.refreshTokens[k]?).bind (s.presentRefresh old)
  | .refreshStep i => (s.refreshes[i]?).bind fun r => s.refreshStep settings i r r.stage
  | .drop i => (s.refreshes[i]?).map fun r => s.moveRefresh i r .done
  | .revokeSessions user =>
      some { s with revokes := s.revokes ++ [⟨user, s.fidsOf user, .reading⟩] }
  | .revokeStep i => (s.revokes[i]?).bind fun call => s.revokeStep settings i call call.stage
  | .access k => (s.accessTokens[k]?).bind s.presentAccess
  | .accessStep i => (s.accesses[i]?).bind fun r => s.accessStep i r r.stage

def machine : Machine Sessions AuthEvent := ⟨step settings⟩

end Sessions

end BTagent
