import BTagent.Auth.Tokens
import BTagent.Lib.Machine
import Mathlib.Data.Int.Notation

namespace BTagent

inductive TokenKind where
  | jti
  | family
  deriving DecidableEq

-- The module globals around the shared client; `client` says that there is one.
structure RedisLink where
  client : Bool
  retryAt : ℕ
  backoff : ℕ

-- Whether Redis answers the two awaits of a call: the `ping` of a probe and the command.
structure RedisAnswers where
  ping : Bool
  command : Bool

namespace RedisLink

def BACKOFF_INITIAL_SECONDS : ℕ := 1

def BACKOFF_MAX_SECONDS : ℕ := 30

def closed : RedisLink := ⟨false, 0, 0⟩

def scheduleRetry (link : RedisLink) (now : ℕ) : RedisLink :=
  let backoff := min (max (link.backoff * 2) BACKOFF_INITIAL_SECONDS) BACKOFF_MAX_SECONDS
  { link with backoff, retryAt := now + backoff * 1000000 }

def getRedis (link : RedisLink) (now : ℕ) (forceProbe ping : Bool) : Bool × RedisLink :=
  if link.client then (true, link)
  else if now < link.retryAt && !forceProbe then (false, link)
  else if ping then (true, ⟨true, 0, 0⟩)
  else (false, link.scheduleRetry now)

end RedisLink

-- Redis and the process-local fallback.
structure Revocation where
  now : ℕ
  link : RedisLink
  redis : Expiring String ℕ
  localRevoked : TokenKind → String → Option ℕ
  localUserEpoch : String → Option ℕ

inductive RevocationEvent where
  | tick (microseconds : ℕ)
  | revoke (kind : TokenKind) (id : String) (ttl : ℤ) (answers : RedisAnswers)
  | revokeUserTokens (user : String) (ttl : ℤ) (answers : RedisAnswers)
  | isRevoked (kind : TokenKind) (id : String) (answers : RedisAnswers)
  | isUserRevoked (user : String) (issuedAt : Option ℕ) (answers : RedisAnswers)
  | checkHealth (ping : Bool)
  | closeRedis

namespace Revocation

def prefixOf : TokenKind → String
  | .jti => "btagent:revoked_jti:"
  | .family => "btagent:revoked_family:"

def redisKey (kind : TokenKind) (id : String) : String := prefixOf kind ++ id

def userEpochKey (user : String) : String := "btagent:user_revoked_after:" ++ user

def start : Revocation := ⟨0, .closed, .empty, fun _ _ => none, fun _ => none⟩

def get (s : Revocation) (forceProbe ping : Bool) : Bool × Revocation :=
  let (found, link) := s.link.getRedis s.now forceProbe ping
  (found, { s with link })

def viaRedis (s : Revocation) (answers : RedisAnswers) : Bool :=
  (s.get false answers.ping).1 && answers.command

def afterGet (s : Revocation) (answers : RedisAnswers) : Revocation := (s.get false answers.ping).2

-- `revoke` and `revoke_family`.
def revoke (s : Revocation) (kind : TokenKind) (id : String) (ttl : ℤ) (answers : RedisAnswers) :
    Revocation :=
  if id = "" ∨ ttl ≤ 0 then s
  else if s.viaRedis answers then
    { s.afterGet answers with
      redis := s.redis.set (redisKey kind id) 1 (Auth.milliseconds s.now + ttl.toNat * 1000) }
  else
    { s.afterGet answers with
      localRevoked := Function.update s.localRevoked kind
        (Function.update (s.localRevoked kind) id (some (s.now + ttl.toNat * 1000000))) }

def revokeUserTokens (s : Revocation) (user : String) (ttl : ℤ) (answers : RedisAnswers) :
    Revocation :=
  if user = "" ∨ ttl ≤ 0 then s
  else if s.viaRedis answers then
    { s.afterGet answers with
      redis := s.redis.set (userEpochKey user) (Auth.seconds s.now + 1)
        (Auth.milliseconds s.now + ttl.toNat * 1000) }
  else
    { s.afterGet answers with
      localUserEpoch := Function.update s.localUserEpoch user (some (Auth.seconds s.now + 1)) }

def localPrune (s : Revocation) : Revocation :=
  { s with
    localRevoked := fun kind id => (s.localRevoked kind id).filter fun exp => s.now < exp }

-- `is_revoked` and `is_family_revoked`.
def isRevoked (s : Revocation) (kind : TokenKind) (id : String) (answers : RedisAnswers) :
    Bool × Revocation :=
  if id = "" then (false, s)
  else if s.viaRedis answers then
    ((s.redis.get (Auth.milliseconds s.now) (redisKey kind id)).isSome, s.afterGet answers)
  else
    (((s.afterGet answers).localPrune.localRevoked kind id).isSome, (s.afterGet answers).localPrune)

def isUserRevoked (s : Revocation) (user : String) (issuedAt : Option ℕ)
    (answers : RedisAnswers) : Bool × Revocation :=
  match issuedAt with
  | none => (false, s)
  | some issuedAt =>
      if user = "" then (false, s)
      else
        let epoch :=
          if s.viaRedis answers then s.redis.get (Auth.milliseconds s.now) (userEpochKey user)
          else s.localUserEpoch user
        (epoch.any fun epoch => issuedAt < epoch, s.afterGet answers)

def step (s : Revocation) : RevocationEvent → Option Revocation
  | .tick microseconds => some { s with now := s.now + microseconds }
  | .revoke kind id ttl answers => some (s.revoke kind id ttl answers)
  | .revokeUserTokens user ttl answers => some (s.revokeUserTokens user ttl answers)
  | .isRevoked kind id answers => some (s.isRevoked kind id answers).2
  | .isUserRevoked user issuedAt answers => some (s.isUserRevoked user issuedAt answers).2
  | .checkHealth ping => some (s.get true ping).2
  | .closeRedis => some { s with link := .closed }

def machine : Machine Revocation RevocationEvent := ⟨step⟩

section Keys

theorem append_ne {p q a b : String} {n : ℕ} (hp : n < p.toList.length)
    (hq : n < q.toList.length) (h : p.toList[n]? ≠ q.toList[n]?) : p ++ a ≠ q ++ b := by
  intro heq
  have hlist : p.toList ++ a.toList = q.toList ++ b.toList := by
    simpa only [String.toList_append] using congrArg String.toList heq
  apply h
  rw [← List.getElem?_append_left hp, hlist, List.getElem?_append_left hq]

theorem append_left_cancel {p a b : String} (h : p ++ a = p ++ b) : a = b := by
  have hlist : p.toList ++ a.toList = p.toList ++ b.toList := by
    simpa only [String.toList_append] using congrArg String.toList h
  exact String.toList_injective (List.append_cancel_left hlist)

theorem redisKey_inj {kind kind' : TokenKind} {id id' : String}
    (h : redisKey kind id = redisKey kind' id') : kind = kind' ∧ id = id' := by
  cases kind <;> cases kind'
  · exact ⟨rfl, append_left_cancel h⟩
  · exact absurd h (append_ne (n := 16) (by decide) (by decide) (by decide))
  · exact absurd h (append_ne (n := 16) (by decide) (by decide) (by decide))
  · exact ⟨rfl, append_left_cancel h⟩

theorem redisKey_ne_userEpochKey {kind : TokenKind} {id user : String} :
    redisKey kind id ≠ userEpochKey user := by
  cases kind
  · exact append_ne (n := 8) (by decide) (by decide) (by decide)
  · exact append_ne (n := 8) (by decide) (by decide) (by decide)

theorem userEpochKey_inj {user user' : String} (h : userEpochKey user = userEpochKey user') :
    user = user' :=
  append_left_cancel h

end Keys

end Revocation

end BTagent
