import BTagent.Auth.Tokens
import BTagent.Lib.Machine
import BTagent.Lib.Slots

namespace BTagent

-- The string operations and the calls to Fernet, pyotp and bcrypt of `auth/mfa.py`; `none` is a
-- call that raises.
structure MfaPrimitives where
  strip : String → String
  lower : String → String
  isDigit : String → Bool
  decrypt : String → Option String
  totp : String → String → ℕ → Bool
  checkpw : String → String → Option Bool

namespace Mfa

variable (P : MfaPrimitives)

def withoutSpaces (code : String) : String := String.ofList (code.toList.filter (· ≠ ' '))

def verifyTotp (secret code : String) (now : ℕ) : Bool :=
  if secret = "" ∨ code = "" then false
  else P.isDigit (withoutSpaces (P.strip code)) &&
    P.totp secret (withoutSpaces (P.strip code)) now

def normalizeRecoveryCode (code : String) : String := withoutSpaces (P.lower (P.strip code))

def accepts (candidate hash : String) : Bool := P.checkpw candidate hash == some true

def consume (candidate : String) : List String → Option (String × List String)
  | [] => none
  | h :: hashes =>
      if accepts P candidate h then some (h, hashes)
      else (consume candidate hashes).map fun (used, remaining) => (used, h :: remaining)

def verifyAndConsumeRecoveryCode (code : String) (hashes : List String) :
    Option (String × List String) :=
  if code = "" then none else consume P (normalizeRecoveryCode P code) hashes

theorem consume_cases {candidate used : String} {hashes remaining : List String}
    (h : consume P candidate hashes = some (used, remaining)) :
    used ∈ hashes ∧ accepts P candidate used = true ∧ (∀ h ∈ remaining, h ∈ hashes) ∧
      (hashes.filter (accepts P candidate)).length =
        (remaining.filter (accepts P candidate)).length + 1 := by
  induction hashes generalizing remaining with
  | nil => cases h
  | cons x hashes ih =>
      simp only [consume] at h
      split at h
      · next hx =>
          cases h
          refine ⟨List.mem_cons_self, hx, fun h hm => List.mem_cons_of_mem _ hm, ?_⟩
          rw [List.filter_cons_of_pos hx, List.length_cons]
      · next hx =>
          obtain ⟨⟨used', remaining'⟩, hrest, heq⟩ := Option.map_eq_some_iff.mp h
          cases heq
          obtain ⟨hmem, haccepts, hsub, hlength⟩ := ih hrest
          refine ⟨List.mem_cons_of_mem _ hmem, haccepts, ?_, ?_⟩
          · intro h hm
            rcases List.mem_cons.mp hm with rfl | hm
            · exact List.mem_cons_self
            · exact List.mem_cons_of_mem _ (hsub h hm)
          · rw [List.filter_cons_of_neg hx, List.filter_cons_of_neg hx, hlength]

end Mfa

-- The columns of `user_mfa` that a verification reads, the recovery codes deserialized.
structure UserMfaRow where
  secretEnc : String
  enabled : Bool
  recoveryCodes : List String
  deriving DecidableEq

structure MfaChallenge where
  sub : UserId
  jti : ℕ
  exp : ℕ
  deriving DecidableEq

structure RecoveryUse where
  code : String
  hash : String
  deriving DecidableEq

inductive VerifyStage where
  | jtiCheck
  | loading
  | checking (row : UserMfaRow)
  | flushing (read : List String) (use : RecoveryUse) (remaining : List String)
  | revoking
  | revokingJti (ttl : ℕ)
  | committing
  | done
  deriving DecidableEq

-- `write` is the UPDATE that the request's transaction has made and not committed yet.
structure VerifyRequest where
  challenge : MfaChallenge
  code : String
  write : Option (RecoveryUse × List String)
  stage : VerifyStage

structure VerifiedPair where
  user : UserId
  jti : ℕ
  recovery : Option RecoveryUse

-- `pairs` records the token pairs that were answered.
structure SecondFactor where
  now : ℕ
  nextId : ℕ
  revokedJtis : Expiring ℕ Unit
  rows : UserId → Option UserMfaRow
  challenges : List MfaChallenge
  requests : List VerifyRequest
  pairs : List VerifiedPair

inductive MfaEvent where
  | tick (microseconds : ℕ)
  | challenge (user : UserId)
  | verify (k : ℕ) (code : String)
  | verifyStep (i : ℕ)
  | drop (i : ℕ)

namespace SecondFactor

def start (rows : UserId → Option UserMfaRow) : SecondFactor := ⟨0, 0, .empty, rows, [], [], []⟩

def isRevoked (s : SecondFactor) (jti : ℕ) : Bool :=
  (s.revokedJtis.get (Auth.milliseconds s.now) jti).isSome

def moveWith (s : SecondFactor) (i : ℕ) (r : VerifyRequest)
    (write : Option (RecoveryUse × List String)) (stage : VerifyStage) : SecondFactor :=
  { s with requests := s.requests.set i { r with write, stage } }

def move (s : SecondFactor) (i : ℕ) (r : VerifyRequest) (stage : VerifyStage) : SecondFactor :=
  s.moveWith i r r.write stage

def refuse (s : SecondFactor) (i : ℕ) (r : VerifyRequest) : SecondFactor := s.moveWith i r none .done

def Locked (s : SecondFactor) (user : UserId) : Prop :=
  ∃ r ∈ s.requests, r.write.isSome = true ∧ r.challenge.sub = user

instance (s : SecondFactor) (user : UserId) : Decidable (s.Locked user) :=
  inferInstanceAs (Decidable (∃ r ∈ s.requests, _))

def store (rows : UserId → Option UserMfaRow) (user : UserId) :
    Option (RecoveryUse × List String) → UserId → Option UserMfaRow
  | none => rows
  | some (_, remaining) =>
      Function.update rows user ((rows user).map fun row => { row with recoveryCodes := remaining })

def commit (s : SecondFactor) (i : ℕ) (r : VerifyRequest) : SecondFactor :=
  { s.refuse i r with
    rows := store s.rows r.challenge.sub r.write
    pairs := s.pairs ++ [⟨r.challenge.sub, r.challenge.jti, r.write.map Prod.fst⟩] }

def MFA_CHALLENGE_TTL_MINUTES : ℕ := 5

variable (P : MfaPrimitives)

def verifyStep (s : SecondFactor) (i : ℕ) (r : VerifyRequest) : VerifyStage → Option SecondFactor
  | .jtiCheck =>
      if s.isRevoked r.challenge.jti then some (s.refuse i r) else some (s.move i r .loading)
  | .loading =>
      match s.rows r.challenge.sub with
      | none => some (s.refuse i r)
      | some row => if row.enabled then some (s.move i r (.checking row)) else some (s.refuse i r)
  | .checking row =>
      match P.decrypt row.secretEnc with
      | none => some (s.refuse i r)
      | some secret =>
          if Mfa.verifyTotp P secret r.code s.now then some (s.move i r .revoking)
          else match Mfa.verifyAndConsumeRecoveryCode P r.code row.recoveryCodes with
            | none => some (s.refuse i r)
            | some (used, remaining) =>
                some (s.move i r (.flushing row.recoveryCodes
                  ⟨Mfa.normalizeRecoveryCode P r.code, used⟩ remaining))
  | .flushing _ use remaining =>
      if s.Locked r.challenge.sub then none
      else match s.rows r.challenge.sub with
        | none => some (s.refuse i r)
        | some _ => some (s.moveWith i r (some (use, remaining)) .revoking)
  | .revoking => some (s.move i r (.revokingJti (Auth.remainingTtl r.challenge.exp s.now)))
  | .revokingJti ttl =>
      some { s.move i r .committing with
        revokedJtis := Auth.setEx s.revokedJtis s.now r.challenge.jti () ttl }
  | .committing => some (s.commit i r)
  | .done => none

def presentChallenge (s : SecondFactor) (code : String) (c : MfaChallenge) : Option SecondFactor :=
  if Auth.accepts c.exp s.now then
    some { s with requests := s.requests ++ [⟨c, code, none, .jtiCheck⟩] }
  else none

def step (s : SecondFactor) : MfaEvent → Option SecondFactor
  | .tick microseconds => some { s with now := s.now + microseconds }
  | .challenge user =>
      some { s with
        nextId := s.nextId + 1
        challenges := s.challenges ++
          [⟨user, s.nextId, Auth.seconds s.now + MFA_CHALLENGE_TTL_MINUTES * 60⟩] }
  | .verify k code => (s.challenges[k]?).bind (s.presentChallenge code)
  | .verifyStep i => (s.requests[i]?).bind fun r => s.verifyStep P i r r.stage
  | .drop i => (s.requests[i]?).map (s.refuse i)

def machine : Machine SecondFactor MfaEvent := ⟨step P⟩

end SecondFactor

end BTagent
