import BTagent.Auth.Revocation

namespace BTagent

namespace Revocation
open Auth

variable {s s' : Revocation} {kind : TokenKind} {id user : String} {redis : Bool} {deadline : ℕ}

-- No later call on the same token ends its entry in the same store sooner.
def Outlasts (kind : TokenKind) (id : String) (redis : Bool) (deadline : ℕ) (s : Revocation) :
    RevocationEvent → Prop
  | .revoke kind' id' ttl answers => 0 < ttl → kind' = kind → id' = id →
      s.viaRedis answers = redis → deadline ≤ s.now + ttl.toNat * 1000000
  | _ => True

-- The epochs of the local store do not expire.
def OutlastsUser (user : String) (redis : Bool) (deadline : ℕ) (s : Revocation) :
    RevocationEvent → Prop
  | .revokeUserTokens user' ttl answers => 0 < ttl → user' = user →
      s.viaRedis answers = true → redis = true → deadline ≤ s.now + ttl.toNat * 1000000
  | _ => True

instance (s : Revocation) : ∀ e, Decidable (Outlasts kind id redis deadline s e)
  | .revoke _ _ ttl _ => inferInstanceAs (Decidable (0 < ttl → _))
  | .tick _ | .revokeUserTokens .. | .isRevoked .. | .isUserRevoked .. | .checkHealth _
  | .closeRedis => isTrue trivial

instance (s : Revocation) : ∀ e, Decidable (OutlastsUser user redis deadline s e)
  | .revokeUserTokens _ ttl _ => inferInstanceAs (Decidable (0 < ttl → _))
  | .tick _ | .revoke .. | .isRevoked .. | .isUserRevoked .. | .checkHealth _
  | .closeRedis => isTrue trivial

def Held (kind : TokenKind) (id : String) (redis : Bool) (deadline : ℕ) (s : Revocation) : Prop :=
  match redis with
  | true => ∃ v time, s.redis (redisKey kind id) = some (v, time) ∧ milliseconds deadline ≤ time
  | false => deadline ≤ s.now ∨ ∃ exp, s.localRevoked kind id = some exp ∧ deadline ≤ exp

def HeldUser (user : String) (redis : Bool) (deadline epoch : ℕ) (s : Revocation) : Prop :=
  epoch ≤ seconds s.now + 1 ∧
    match redis with
    | true => ∃ e time, s.redis (userEpochKey user) = some (e, time) ∧ epoch ≤ e ∧
        milliseconds deadline ≤ time
    | false => ∃ e, s.localUserEpoch user = some e ∧ epoch ≤ e

theorem milliseconds_le {ttl now : ℕ} (h : deadline ≤ now + ttl * 1000000) :
    milliseconds deadline ≤ milliseconds now + ttl * 1000 := by
  unfold milliseconds
  omega

theorem held_isRevoked {answers : RedisAnswers} (h : Held kind id redis deadline s)
    (hid : id ≠ "") (hredis : s.viaRedis answers = redis) (hnow : s.now < deadline) :
    (s.isRevoked kind id answers).1 = true := by
  subst hredis
  cases hvia : s.viaRedis answers with
  | true =>
      rw [hvia] at h
      obtain ⟨v, time, hentry, htime⟩ := h
      have hle : milliseconds s.now ≤ time :=
        Nat.le_trans (Nat.div_le_div_right (Nat.le_of_lt hnow)) htime
      simp [isRevoked, hid, hvia, Expiring.get_eq hentry hle]
  | false =>
      rw [hvia] at h
      rcases h with hlate | ⟨exp, hentry, hexp⟩
      · omega
      · have hlive : s.now < exp := Nat.lt_of_lt_of_le hnow hexp
        simp [isRevoked, hid, hvia, localPrune, afterGet, get, hentry, hlive]

theorem heldUser_isUserRevoked {answers : RedisAnswers} {epoch iat : ℕ}
    (h : HeldUser user redis deadline epoch s) (huser : user ≠ "")
    (hredis : s.viaRedis answers = redis) (hnow : s.now < deadline) (hiat : iat < epoch) :
    (s.isUserRevoked user (some iat) answers).1 = true := by
  subst hredis
  cases hvia : s.viaRedis answers with
  | true =>
      rw [hvia] at h
      obtain ⟨-, e, time, hentry, he, htime⟩ := h
      have hle : milliseconds s.now ≤ time :=
        Nat.le_trans (Nat.div_le_div_right (Nat.le_of_lt hnow)) htime
      have hlt : iat < e := Nat.lt_of_lt_of_le hiat he
      simp [isUserRevoked, huser, hvia, Expiring.get_eq hentry hle, hlt]
  | false =>
      rw [hvia] at h
      obtain ⟨-, e, hentry, he⟩ := h
      have hlt : iat < e := Nat.lt_of_lt_of_le hiat he
      simp [isUserRevoked, huser, hvia, hentry, hlt]

theorem Held.keep (h : Held kind id redis deadline s) (hnow : s.now ≤ s'.now)
    (hredis : s'.redis (redisKey kind id) = s.redis (redisKey kind id))
    (hlocal : s'.localRevoked kind id = s.localRevoked kind id) :
    Held kind id redis deadline s' := by
  cases redis with
  | true =>
      simp only [Held, hredis]
      exact h
  | false =>
      simp only [Held, hlocal]
      exact h.imp_left fun hle => Nat.le_trans hle hnow

theorem Held.prune (h : Held kind id redis deadline s) :
    Held kind id redis deadline s.localPrune := by
  cases redis with
  | true => exact h
  | false =>
      rcases h with hlate | ⟨exp, hentry, hexp⟩
      · exact Or.inl hlate
      · by_cases hlive : s.now < exp
        · exact Or.inr ⟨exp, by simp [localPrune, hentry, hlive], hexp⟩
        · refine Or.inl ?_
          change deadline ≤ s.now
          omega

theorem held_revoke {kind' : TokenKind} {id' : String} {ttl : ℤ} {answers : RedisAnswers}
    (h : Held kind id redis deadline s)
    (hg : Outlasts kind id redis deadline s (.revoke kind' id' ttl answers)) :
    Held kind id redis deadline (s.revoke kind' id' ttl answers) := by
  unfold revoke
  split
  · exact h
  · next hcond =>
      have hpos : 0 < ttl := by
        have hle := fun hle => hcond (Or.inr hle)
        omega
      by_cases hsame : kind' = kind ∧ id' = id
      · obtain ⟨rfl, rfl⟩ := hsame
        have hlong := hg hpos rfl rfl
        split
        · next hvia =>
            cases redis with
            | true => exact ⟨1, _, Expiring.set_self, milliseconds_le (hlong hvia)⟩
            | false => exact h
        · next hvia =>
            cases redis with
            | true => exact h
            | false =>
                refine Or.inr ⟨_, ?_, hlong (by simpa using hvia)⟩
                simp
      · split
        · refine h.keep (Nat.le_refl _) (Expiring.set_ne fun heq => ?_) rfl
          obtain ⟨rfl, rfl⟩ := redisKey_inj heq
          exact hsame ⟨rfl, rfl⟩
        · refine h.keep (Nat.le_refl _) rfl ?_
          by_cases hkind : kind = kind'
          · subst hkind
            have hid : id ≠ id' := fun heq => hsame ⟨rfl, heq.symm⟩
            simp [Function.update_of_ne hid]
          · simp [Function.update_of_ne hkind]

theorem held_step {e : RevocationEvent} (h : Held kind id redis deadline s)
    (hg : Outlasts kind id redis deadline s e) (hstep : machine.step s e = some s') :
    Held kind id redis deadline s' := by
  cases e with
  | tick d => cases hstep; exact h.keep (Nat.le_add_right _ _) rfl rfl
  | revoke kind' id' ttl answers => cases hstep; exact held_revoke h hg
  | revokeUserTokens user ttl answers =>
      cases hstep
      unfold revokeUserTokens
      split
      · exact h
      · split
        · exact h.keep (Nat.le_refl _) (Expiring.set_ne redisKey_ne_userEpochKey) rfl
        · exact h.keep (Nat.le_refl _) rfl rfl
  | isRevoked kind' id' answers =>
      cases hstep
      unfold isRevoked
      split
      · exact h
      · split
        · exact h.keep (Nat.le_refl _) rfl rfl
        · have hget : Held kind id redis deadline (s.afterGet answers) :=
            h.keep (Nat.le_refl _) rfl rfl
          exact hget.prune
  | isUserRevoked user issuedAt answers =>
      cases hstep
      cases issuedAt with
      | none => exact h
      | some iat =>
          simp only [isUserRevoked]
          split
          · exact h
          · exact h.keep (Nat.le_refl _) rfl rfl
  | checkHealth ping => cases hstep; exact h.keep (Nat.le_refl _) rfl rfl
  | closeRedis => cases hstep; exact h.keep (Nat.le_refl _) rfl rfl

theorem HeldUser.keep {epoch : ℕ} (h : HeldUser user redis deadline epoch s)
    (hnow : s.now ≤ s'.now) (hredis : s'.redis (userEpochKey user) = s.redis (userEpochKey user))
    (hlocal : s'.localUserEpoch user = s.localUserEpoch user) :
    HeldUser user redis deadline epoch s' := by
  have hsec : seconds s.now ≤ seconds s'.now := Nat.div_le_div_right hnow
  refine ⟨Nat.le_trans h.1 (Nat.succ_le_succ hsec), ?_⟩
  cases redis with
  | true =>
      simp only [hredis]
      exact h.2
  | false =>
      simp only [hlocal]
      exact h.2

theorem heldUser_revoke {user' : String} {ttl : ℤ} {answers : RedisAnswers} {epoch : ℕ}
    (h : HeldUser user redis deadline epoch s)
    (hg : OutlastsUser user redis deadline s (.revokeUserTokens user' ttl answers)) :
    HeldUser user redis deadline epoch (s.revokeUserTokens user' ttl answers) := by
  unfold revokeUserTokens
  split
  · exact h
  · next hcond =>
      have hpos : 0 < ttl := by
        have hle := fun hle => hcond (Or.inr hle)
        omega
      rcases eq_or_ne user user' with rfl | hne
      · split
        · next hvia =>
            cases redis with
            | true =>
                have hlong := hg hpos rfl hvia rfl
                exact ⟨h.1, _, _, Expiring.set_self, h.1, milliseconds_le hlong⟩
            | false => exact h
        · cases redis with
          | true => exact h
          | false => exact ⟨h.1, _, Function.update_self .., h.1⟩
      · split
        · refine h.keep (Nat.le_refl _) (Expiring.set_ne fun heq => ?_) rfl
          exact hne (userEpochKey_inj heq)
        · exact h.keep (Nat.le_refl _) rfl (Function.update_of_ne hne ..)

theorem heldUser_step {e : RevocationEvent} {epoch : ℕ}
    (h : HeldUser user redis deadline epoch s) (hg : OutlastsUser user redis deadline s e)
    (hstep : machine.step s e = some s') : HeldUser user redis deadline epoch s' := by
  cases e with
  | tick d => cases hstep; exact h.keep (Nat.le_add_right _ _) rfl rfl
  | revoke kind id ttl answers =>
      cases hstep
      unfold revoke
      split
      · exact h
      · split
        · exact h.keep (Nat.le_refl _) (Expiring.set_ne redisKey_ne_userEpochKey.symm) rfl
        · exact h.keep (Nat.le_refl _) rfl rfl
  | revokeUserTokens user' ttl answers => cases hstep; exact heldUser_revoke h hg
  | isRevoked kind id answers =>
      cases hstep
      unfold isRevoked
      split
      · exact h
      · split
        · exact h.keep (Nat.le_refl _) rfl rfl
        · exact h.keep (Nat.le_refl _) rfl rfl
  | isUserRevoked user' issuedAt answers =>
      cases hstep
      cases issuedAt with
      | none => exact h
      | some iat =>
          simp only [isUserRevoked]
          split
          · exact h
          · exact h.keep (Nat.le_refl _) rfl rfl
  | checkHealth ping => cases hstep; exact h.keep (Nat.le_refl _) rfl rfl
  | closeRedis => cases hstep; exact h.keep (Nat.le_refl _) rfl rfl

theorem held_of_revoke {ttl : ℤ} {answers : RedisAnswers} (hid : id ≠ "") (hpos : 0 < ttl) :
    Held kind id (s.viaRedis answers) (s.now + ttl.toNat * 1000000)
      (s.revoke kind id ttl answers) := by
  have hcond : ¬ (id = "" ∨ ttl ≤ 0) := by
    rintro (h | h)
    · exact hid h
    · omega
  cases hvia : s.viaRedis answers with
  | true =>
      simp only [revoke, if_neg hcond, hvia, if_true]
      exact ⟨1, _, Expiring.set_self, milliseconds_le (Nat.le_refl _)⟩
  | false =>
      simp only [revoke, if_neg hcond, hvia]
      exact Or.inr ⟨_, by simp, Nat.le_refl _⟩

theorem heldUser_of_revoke {ttl : ℤ} {answers : RedisAnswers} (huser : user ≠ "")
    (hpos : 0 < ttl) :
    HeldUser user (s.viaRedis answers) (s.now + ttl.toNat * 1000000) (seconds s.now + 1)
      (s.revokeUserTokens user ttl answers) := by
  have hcond : ¬ (user = "" ∨ ttl ≤ 0) := by
    rintro (h | h)
    · exact huser h
    · omega
  cases hvia : s.viaRedis answers with
  | true =>
      simp only [revokeUserTokens, if_neg hcond, hvia, if_true]
      exact ⟨Nat.le_refl _, _, _, Expiring.set_self, Nat.le_refl _,
        milliseconds_le (Nat.le_refl _)⟩
  | false =>
      simp only [revokeUserTokens, if_neg hcond, hvia]
      exact ⟨Nat.le_refl _, _, by simp, Nat.le_refl _⟩

theorem revocation_lasts {s s' : Revocation} {answers answers' : RedisAnswers}
    {es : List RevocationEvent} {ttl : ℤ} (hpos : 0 < ttl)
    (hstore : s'.viaRedis answers' = s.viaRedis answers)
    (hnow : s'.now < s.now + ttl.toNat * 1000000) :
    (∀ kind id, id ≠ "" → machine.run (s.revoke kind id ttl answers) es = some s' →
      machine.Along (Outlasts kind id (s.viaRedis answers) (s.now + ttl.toNat * 1000000))
        (s.revoke kind id ttl answers) es →
      (s'.isRevoked kind id answers').1 = true) ∧
    (∀ user iat, user ≠ "" → iat ≤ seconds s.now →
      machine.run (s.revokeUserTokens user ttl answers) es = some s' →
      machine.Along (OutlastsUser user (s.viaRedis answers) (s.now + ttl.toNat * 1000000))
        (s.revokeUserTokens user ttl answers) es →
      (s'.isUserRevoked user (some iat) answers').1 = true) := by
  constructor
  · intro kind id hid hrun hguard
    have hheld := Machine.invariant_along _ (fun h hg hstep => held_step h hg hstep)
      (held_of_revoke hid hpos) hguard hrun
    exact held_isRevoked hheld hid hstore hnow
  · intro user iat huser hiat hrun hguard
    have hheld := Machine.invariant_along _ (fun h hg hstep => heldUser_step h hg hstep)
      (heldUser_of_revoke huser hpos) hguard hrun
    exact heldUser_isUserRevoked hheld huser hstore hnow (Nat.lt_succ_of_le hiat)

namespace Outage

def up : RedisAnswers := ⟨true, true⟩

def down : RedisAnswers := ⟨false, false⟩

def outage : List RevocationEvent :=
  [.tick 60000000, .isRevoked .jti "a" down, .isUserRevoked "ana" (some 0) down, .tick 60000000]

def checks (s : Revocation) (answers : RedisAnswers) : Bool × Bool × Bool :=
  ((s.isRevoked .jti "a" answers).1, (s.isRevoked .family "f" answers).1,
    (s.isUserRevoked "ana" (some 0) answers).1)

def revokeAll (answers : RedisAnswers) (ttl : ℤ) : List RevocationEvent :=
  [.revoke .jti "a" ttl answers, .revoke .family "f" ttl answers,
    .revokeUserTokens "ana" ttl answers]

end Outage

-- Redis goes away after the calls; it comes back after them; it stays and a shorter TTL is stored.
theorem revocation_forgotten :
    (∃ s ∈ machine.run start (Outage.revokeAll Outage.up 900),
      Outage.checks s Outage.down = (false, false, false)) ∧
    (∃ s ∈ machine.run start (Outage.revokeAll Outage.down 900 ++ [.tick 60000000]),
      Outage.checks s Outage.up = (false, false, false)) ∧
    ∃ s ∈ machine.run start
      (Outage.revokeAll Outage.up 900 ++ Outage.revokeAll Outage.up 30 ++ [.tick 60000000]),
      Outage.checks s Outage.up = (false, false, false) :=
  ⟨by decide, by decide, by decide⟩

theorem revocation_lasts_outage :
    (∃ s', machine.run (start.revoke .jti "a" 900 Outage.up) Outage.outage = some s' ∧
      (s'.isRevoked .jti "a" Outage.up).1 = true) ∧
    ∃ s', machine.run (start.revokeUserTokens "ana" 900 Outage.up) Outage.outage = some s' ∧
      (s'.isUserRevoked "ana" (some 0) Outage.up).1 = true := by
  constructor
  · have hstore : ∀ s' ∈ machine.run (start.revoke .jti "a" 900 Outage.up) Outage.outage,
        s'.viaRedis Outage.up = start.viaRedis Outage.up ∧ s'.now < 900000000 := by
      decide
    obtain ⟨s', hrun⟩ := Option.isSome_iff_exists.mp
      (show (machine.run (start.revoke .jti "a" 900 Outage.up) Outage.outage).isSome by
        decide)
    obtain ⟨hsame, hnow⟩ := hstore s' hrun
    exact ⟨s', hrun, (revocation_lasts (by decide) hsame (by simpa [start] using hnow)).1 .jti "a"
      (by decide) hrun (by decide)⟩
  · have hstore : ∀ s' ∈ machine.run (start.revokeUserTokens "ana" 900 Outage.up) Outage.outage,
        s'.viaRedis Outage.up = start.viaRedis Outage.up ∧ s'.now < 900000000 := by
      decide
    obtain ⟨s', hrun⟩ := Option.isSome_iff_exists.mp
      (show (machine.run (start.revokeUserTokens "ana" 900 Outage.up) Outage.outage).isSome by
        decide)
    obtain ⟨hsame, hnow⟩ := hstore s' hrun
    exact ⟨s', hrun, (revocation_lasts (by decide) hsame (by simpa [start] using hnow)).2 "ana" 0
      (by decide) (by decide) hrun (by decide)⟩

end Revocation

end BTagent
