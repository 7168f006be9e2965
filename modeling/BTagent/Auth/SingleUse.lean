import BTagent.Auth.SessionSteps

namespace BTagent

namespace RefreshStage

def holds : RefreshStage → Bool
  | consuming | revokingJti _ | retiring | revokingOld .. | mintingAccess | mintingRefresh _ => true
  | _ => false

def hasRevoked : RefreshStage → Bool
  | retiring | revokingOld .. | mintingAccess | mintingRefresh _ => true
  | _ => false

end RefreshStage

namespace Sessions
open Auth

variable {settings : AuthSettings} {s s' : Sessions} {i : ℕ} {r : RefreshRequest}

-- A `jti` is checked while no other request holds it, and a used one not in its last second.
def JtiCheckedAlone (s : Sessions) : AuthEvent → Prop
  | .refreshStep i => ∀ r ∈ s.refreshes[i]?, r.stage = .jtiCheck →
      (∀ other ∈ s.refreshes, other.stage.holds = true → other.token.jti ≠ r.token.jti) ∧
        (r.token.jti ∈ s.exchanged → s.now + 1000000 ≤ r.token.exp * 1000000)
  | _ => True

instance (s : Sessions) : ∀ e, Decidable (JtiCheckedAlone s e)
  | .refreshStep i => inferInstanceAs (Decidable (∀ r ∈ s.refreshes[i]?, _))
  | .tick _ | .login _ | .refresh .. | .drop _ | .revokeSessions _ | .revokeStep _ | .access _
  | .accessStep _ => isTrue trivial

def HoldsJti (jti : ℕ) (r : RefreshRequest) : Prop := r.stage.holds = true ∧ r.token.jti = jti

def Timed (now : ℕ) (r : RefreshRequest) : Prop :=
  (∀ ttl, r.stage = .revokingJti ttl → ∃ c ≤ now, ttl = remainingTtl r.token.exp c) ∧
    ∀ old ttl, r.stage = .revokingOld old ttl → ∃ c ≤ now, ttl = remainingTtl old.exp c

structure SingleUse (s : Sessions) : Prop where
  once : s.exchanged.Nodup
  known : ∀ jti ∈ s.exchanged, jti < s.nextId
  spent : ∀ t ∈ s.refreshTokens, t.jti ∈ s.exchanged → Lasting s.revokedJtis s.now t.exp t.jti
  revoked : ∀ r ∈ s.refreshes, r.stage.hasRevoked = true →
    Lasting s.revokedJtis s.now r.token.exp r.token.jti
  alone : ∀ jti, Slots.AtMostOne (HoldsJti jti) s.refreshes
  unspent : ∀ r ∈ s.refreshes, r.stage.holds = true → r.token.jti ∉ s.exchanged
  timed : ∀ r ∈ s.refreshes, Timed s.now r
  live : ∀ t ∈ s.refreshTokens, ∀ t' ∈ s.refreshTokens, t.fid = t'.fid →
    t.jti ∉ s.exchanged → t'.jti ∉ s.exchanged → t = t'

-- What a step has to show that only moves one request and revokes tokens.
structure Moves (s s' : Sessions) (i : ℕ) (r : RefreshRequest) (stage : RefreshStage) : Prop where
  now : s'.now = s.now
  ids : s'.nextId = s.nextId
  exchanged : s'.exchanged = s.exchanged
  tokens : s'.refreshTokens = s.refreshTokens
  requests : s'.refreshes = s.refreshes.set i { r with stage }
  lasting : ∀ t ∈ s.refreshTokens, Lasting s.revokedJtis s.now t.exp t.jti →
    Lasting s'.revokedJtis s.now t.exp t.jti

theorem SingleUse.move {stage : RefreshStage} (h : SingleUse s) (hsigned : Signed s)
    (hget : s.refreshes[i]? = some r) (hm : Moves s s' i r stage)
    (hholds : stage.holds = true → r.stage.holds = true ∨
      (r.token.jti ∉ s.exchanged ∧ ∀ other ∈ s.refreshes, ¬ HoldsJti r.token.jti other))
    (hrevoked : stage.hasRevoked = true → r.stage.hasRevoked = true ∨
      Lasting s'.revokedJtis s.now r.token.exp r.token.jti)
    (htimed : Timed s.now { r with stage }) : SingleUse s' := by
  have hmem := List.mem_of_getElem? hget
  have htoken := (hsigned.requests r hmem).token
  refine ⟨?_, ?_, fun t ht hj => ?_, ?_, fun jti => ?_, ?_, ?_, ?_⟩
  · rw [hm.exchanged]; exact h.once
  · rw [hm.exchanged, hm.ids]; exact h.known
  · rw [hm.tokens] at ht
    rw [hm.exchanged] at hj
    rw [hm.now]
    exact hm.lasting t ht (h.spent t ht hj)
  · rw [hm.requests, hm.now]
    refine Slots.forall_set (fun r' hr' hp => ?_) fun hp => ?_
    · exact hm.lasting _ (hsigned.requests r' hr').token (h.revoked r' hr' hp)
    · rcases hrevoked hp with hp | hlast
      · exact hm.lasting _ htoken (h.revoked r hmem hp)
      · exact hlast
  · rw [hm.requests]
    by_cases hp : HoldsJti jti { r with stage }
    · rcases hholds hp.1 with hold | ⟨-, hnone⟩
      · exact (h.alone jti).set hget fun _ => ⟨hold, hp.2⟩
      · exact .set_alone fun other ho hother => hnone other ho (hp.2 ▸ hother)
    · exact (h.alone jti).set hget fun hp' => absurd hp' hp
  · rw [hm.requests, hm.exchanged]
    refine Slots.forall_set h.unspent fun hp => ?_
    rcases hholds hp with hold | ⟨hnew, -⟩
    · exact h.unspent r hmem hold
    · exact hnew
  · rw [hm.requests, hm.now]
    exact Slots.forall_set h.timed htimed
  · rw [hm.tokens, hm.exchanged]
    exact h.live

theorem SingleUse.keep (h : SingleUse s) (hnow : s.now ≤ s'.now) (hid : s'.nextId = s.nextId)
    (hexchanged : s'.exchanged = s.exchanged) (htokens : s'.refreshTokens = s.refreshTokens)
    (hjtis : s'.revokedJtis = s.revokedJtis)
    (hrequests : s'.refreshes = s.refreshes ∨
      ∃ t old, s'.refreshes = s.refreshes ++ [⟨t, old, .familyCheck⟩]) : SingleUse s' := by
  have hmem : ∀ r ∈ s'.refreshes, r ∈ s.refreshes ∨ r.stage = .familyCheck := by
    intro r hr
    rcases hrequests with heq | ⟨t, old, heq⟩ <;> rw [heq] at hr
    · exact Or.inl hr
    · rcases List.mem_append.mp hr with hr | hr
      · exact Or.inl hr
      · obtain rfl := List.mem_singleton.mp hr
        exact Or.inr rfl
  refine ⟨?_, ?_, ?_, fun r hr hp => ?_, fun jti => ?_, fun r hr hp => ?_, fun r hr => ?_, ?_⟩
  · rw [hexchanged]; exact h.once
  · rw [hexchanged, hid]; exact h.known
  · rw [htokens, hexchanged, hjtis]
    exact fun t ht hj => (h.spent t ht hj).mono hnow
  · rw [hjtis]
    rcases hmem r hr with hr | hs
    · exact (h.revoked r hr hp).mono hnow
    · simp [hs, RefreshStage.hasRevoked] at hp
  · rcases hrequests with heq | ⟨t, old, heq⟩ <;> rw [heq]
    · exact h.alone jti
    · exact (h.alone jti).append (by simp [HoldsJti, RefreshStage.holds])
  · rw [hexchanged]
    rcases hmem r hr with hr | hs
    · exact h.unspent r hr hp
    · simp [hs, RefreshStage.holds] at hp
  · rcases hmem r hr with hr | hs
    · obtain ⟨hjti, hold⟩ := h.timed r hr
      refine ⟨fun ttl ht => ?_, fun old ttl ht => ?_⟩
      · obtain ⟨c, hc, heq⟩ := hjti ttl ht
        exact ⟨c, Nat.le_trans hc hnow, heq⟩
      · obtain ⟨c, hc, heq⟩ := hold old ttl ht
        exact ⟨c, Nat.le_trans hc hnow, heq⟩
    · exact ⟨by simp [hs], by simp [hs]⟩
  · rw [htokens, hexchanged]; exact h.live

theorem single_login {user : UserId} (h : SingleUse s) (hsigned : Signed s) :
    SingleUse (s.login settings user) := by
  have hmem : ∀ {t}, t ∈ (s.login settings user).refreshTokens ↔ t ∈ s.refreshTokens ∨
      t = createRefreshToken settings s.now user (s.nextId + 2) s.nextId := by simp [login]
  refine ⟨h.once, fun jti hj => ?_, fun t ht hj => ?_, h.revoked, h.alone, h.unspent, h.timed,
    fun t ht t' ht' hfid hj hj' => ?_⟩
  · have hlt := h.known jti hj
    simp only [login]
    omega
  · rcases hmem.mp ht with ht | rfl
    · exact h.spent t ht hj
    · have hlt := h.known _ hj
      simp only [createRefreshToken] at hlt
      omega
  · rcases hmem.mp ht with ht | rfl <;> rcases hmem.mp ht' with ht' | rfl
    · exact h.live t ht t' ht' hfid hj hj'
    · have hlt := (hsigned.refreshIds t ht).2
      simp only [createRefreshToken] at hfid
      omega
    · have hlt := (hsigned.refreshIds t' ht').2
      simp only [createRefreshToken] at hfid
      omega
    · rfl

theorem single_exchange {accessNow : ℕ} (h : SingleUse s) (hsigned : Signed s)
    (hget : s.refreshes[i]? = some r) (hstage : r.stage = .mintingRefresh accessNow) :
    SingleUse ((s.moveRefresh i r .done).exchange settings r accessNow) := by
  have hr := List.mem_of_getElem? hget
  have htoken := (hsigned.requests r hr).token
  have hids := hsigned.refreshIds r.token htoken
  have hholds : r.stage.holds = true := by simp [hstage, RefreshStage.holds]
  have hnew := h.unspent r hr hholds
  have hmem : ∀ {t}, t ∈ ((s.moveRefresh i r .done).exchange settings r accessNow).refreshTokens ↔
      t ∈ s.refreshTokens ∨
        t = createRefreshToken settings s.now r.token.sub (s.nextId + 1) r.token.fid := by
    simp [exchange, moveRefresh]
  have hspent : ∀ {jti}, jti ∈ ((s.moveRefresh i r .done).exchange settings r accessNow).exchanged ↔
      jti ∈ s.exchanged ∨ jti = r.token.jti := by
    simp [exchange, moveRefresh]
  refine ⟨?_, fun jti hj => ?_, fun t ht hj => ?_, ?_, fun jti => ?_, fun r' hr' hp => ?_, ?_,
    fun t ht t' ht' hfid hj hj' => ?_⟩
  · refine List.nodup_append.mpr ⟨h.once, List.nodup_singleton _, fun a ha b hb heq => hnew ?_⟩
    obtain rfl := List.mem_singleton.mp hb
    exact heq ▸ ha
  · simp only [exchange, moveRefresh]
    rcases hspent.mp hj with hj | rfl
    · have hlt := h.known jti hj
      omega
    · omega
  · change Lasting s.revokedJtis s.now t.exp t.jti
    rcases hmem.mp ht with ht | rfl
    · rcases hspent.mp hj with hj | heq
      · exact h.spent t ht hj
      · obtain rfl := hsigned.distinct t ht r.token htoken heq
        exact h.revoked r hr (by simp [hstage, RefreshStage.hasRevoked])
    · rcases hspent.mp hj with hj | heq
      · have hlt := h.known _ hj
        simp only [createRefreshToken] at hlt
        omega
      · simp only [createRefreshToken] at heq
        omega
  · exact Slots.forall_set h.revoked (by simp [RefreshStage.hasRevoked])
  · exact (h.alone jti).set hget (by simp [HoldsJti, RefreshStage.holds])
  · obtain ⟨k, hk⟩ := List.mem_iff_getElem?.mp hr'
    rcases Slots.getElem?_set_cases hk with ⟨-, rfl⟩ | ⟨hne, hk⟩
    · simp [RefreshStage.holds] at hp
    · rw [hspent]
      rintro (hj | heq)
      · exact h.unspent r' (List.mem_of_getElem? hk) hp hj
      · exact hne (h.alone r.token.jti k i r' r hk hget ⟨hp, heq⟩ ⟨hholds, rfl⟩)
  · exact Slots.forall_set h.timed ⟨by simp, by simp⟩
  · rw [hspent, not_or] at hj hj'
    rcases hmem.mp ht with ht | rfl <;> rcases hmem.mp ht' with ht' | rfl
    · exact h.live t ht t' ht' hfid hj.1 hj'.1
    · obtain rfl := h.live t ht r.token htoken hfid hj.1 hnew
      exact absurd rfl hj.2
    · obtain rfl := h.live t' ht' r.token htoken hfid.symm hj'.1 hnew
      exact absurd rfl hj'.2
    · rfl

theorem single_refresh (h : SingleUse s) (hsigned : Signed s) (hget : s.refreshes[i]? = some r)
    (hg : JtiCheckedAlone s (.refreshStep i)) (hstep : RefreshStep settings s i r s') :
    SingleUse s' := by
  have hr := List.mem_of_getElem? hget
  have hrequest := hsigned.requests r hr
  have htimed := h.timed r hr
  have hkeep : ∀ t ∈ s.refreshTokens, Lasting s.revokedJtis s.now t.exp t.jti →
      Lasting s.revokedJtis s.now t.exp t.jti := fun _ _ hl => hl
  have hset : ∀ {o : OldToken} {ttl : ℕ}, o ∈ s.signed → (∃ c ≤ s.now, ttl = remainingTtl o.exp c) →
      ∀ t ∈ s.refreshTokens, Lasting s.revokedJtis s.now t.exp t.jti →
        Lasting (setEx s.revokedJtis s.now o.jti () ttl) s.now t.exp t.jti := by
    rintro o ttl ho ⟨c, hc, rfl⟩ t ht hl
    refine hl.setEx hc fun heq => ?_
    have hsame := hsigned.unique _ (mem_signed_refresh ht) o ho heq
    exact congrArg OldToken.exp hsame
  cases hstep with
  | passFamily | passUser | refuse | detect | respond | revokeFamily =>
      exact h.move hsigned hget ⟨rfl, rfl, rfl, rfl, rfl, hkeep⟩ (by simp [RefreshStage.holds])
        (by simp [RefreshStage.hasRevoked]) ⟨by simp, by simp⟩
  | passJti hstage hlive =>
      obtain ⟨halone, htime⟩ := hg r hget hstage
      refine h.move hsigned hget ⟨rfl, rfl, rfl, rfl, rfl, hkeep⟩ (fun _ => Or.inr ⟨?_, ?_⟩)
        (by simp [RefreshStage.hasRevoked]) ⟨by simp, by simp⟩
      · intro hspent
        have hfound := (h.spent r.token hrequest.token hspent).get (htime hspent)
        simp [isRevoked, hfound] at hlive
      · exact fun other ho hother => halone other ho hother.1 hother.2
  | consume hstage =>
      refine h.move hsigned hget ⟨rfl, rfl, rfl, rfl, rfl, hkeep⟩ (fun _ => Or.inl ?_)
        (by simp [RefreshStage.hasRevoked]) ⟨?_, by simp⟩
      · simp [hstage, RefreshStage.holds]
      · rintro ttl ⟨⟩
        exact ⟨s.now, Nat.le_refl _, rfl⟩
  | @revokeJti ttl hstage =>
      have hc := htimed.1 ttl hstage
      have hmine : r.token ∈ s.refreshTokens := hrequest.token
      refine h.move hsigned hget ⟨rfl, rfl, rfl, rfl, rfl, hset (mem_signed_refresh hmine) hc⟩
        (fun _ => Or.inl ?_) (fun _ => Or.inr ?_) ⟨by simp, by simp⟩
      · simp [hstage, RefreshStage.holds]
      · obtain ⟨c, hc, rfl⟩ := hc
        exact lasting_setEx hc
  | retire hstage hnext =>
      refine h.move hsigned hget ⟨rfl, rfl, rfl, rfl, rfl, hkeep⟩ (fun _ => Or.inl ?_)
        (fun _ => Or.inl ?_) ⟨?_, ?_⟩
      · simp [hstage, RefreshStage.holds]
      · simp [hstage, RefreshStage.hasRevoked]
      · rintro ttl rfl
        rcases hnext with hnext | ⟨old, -, hnext⟩ <;> cases hnext
      · rintro old ttl rfl
        rcases hnext with hnext | ⟨old, -, hnext⟩ <;> cases hnext
        exact ⟨s.now, Nat.le_refl _, rfl⟩
  | @revokeOld old ttl hstage =>
      have hold := hrequest.revoking old ttl hstage
      refine h.move hsigned hget ⟨rfl, rfl, rfl, rfl, rfl, hset hold (htimed.2 old ttl hstage)⟩
        (fun _ => Or.inl ?_) (fun _ => Or.inl ?_) ⟨by simp, by simp⟩
      · simp [hstage, RefreshStage.holds]
      · simp [hstage, RefreshStage.hasRevoked]
  | mintAccess hstage =>
      refine h.move hsigned hget ⟨rfl, rfl, rfl, rfl, rfl, hkeep⟩ (fun _ => Or.inl ?_)
        (fun _ => Or.inl ?_) ⟨by simp, by simp⟩
      · simp [hstage, RefreshStage.holds]
      · simp [hstage, RefreshStage.hasRevoked]
  | mintRefresh hstage => exact single_exchange h hsigned hget hstage

theorem single_step {e : AuthEvent} (h : SingleUse s) (hsigned : Signed s)
    (hg : JtiCheckedAlone s e) (hstep : Step settings s e s') : SingleUse s' := by
  cases hstep with
  | tick => exact h.keep (Nat.le_add_right _ _) rfl rfl rfl rfl (Or.inl rfl)
  | login => exact single_login h hsigned
  | @present k t old ht hexp hold =>
      exact h.keep (Nat.le_refl _) rfl rfl rfl rfl (Or.inr ⟨t, old, rfl⟩)
  | refresh hget hr => exact single_refresh h hsigned hget hg hr
  | drop hget =>
      exact h.move hsigned hget ⟨rfl, rfl, rfl, rfl, rfl, fun _ _ hl => hl⟩
        (by simp [RefreshStage.holds]) (by simp [RefreshStage.hasRevoked]) ⟨by simp, by simp⟩
  | revokeSessions | readEpoch | setEpoch | returns | presentAccess | moveAccess | accept =>
      exact h.keep (Nat.le_refl _) rfl rfl rfl rfl (Or.inl rfl)

theorem single_start : SingleUse start where
  once := List.nodup_nil
  known := by simp [start]
  spent := by simp [start]
  revoked := by simp [start]
  alone := by
    intro jti i j a b hi
    simp [start] at hi
  unspent := by simp [start]
  timed := by simp [start]
  live := by simp [start]

theorem refresh_tokens_single_use {es : List AuthEvent}
    (hrun : (machine settings).run start es = some s)
    (hguard : (machine settings).Along JtiCheckedAlone start es) :
    s.exchanged.Nodup ∧ ∀ t ∈ s.refreshTokens, ∀ t' ∈ s.refreshTokens, t.fid = t'.fid →
      t.jti ∉ s.exchanged → t'.jti ∉ s.exchanged → t = t' := by
  have hinv : Signed s ∧ SingleUse s := by
    refine Machine.invariant_along _ (I := fun s => Signed s ∧ SingleUse s) ?_
      ⟨signed_start, single_start⟩ hguard hrun
    intro s e s' ⟨hsigned, h⟩ hg hstep
    have hcases := step_cases hstep
    exact ⟨signed_step hsigned hcases, single_step h hsigned hg hcases⟩
  exact ⟨hinv.2.once, hinv.2.live⟩

namespace Refreshing

def defaults : AuthSettings := ⟨15, 7⟩

def M : Machine Sessions AuthEvent := machine defaults

def steps (i n : ℕ) : List AuthEvent := List.replicate n (.refreshStep i)

-- Request `i` presents the token `k` and is answered with a pair.
def rotation (i k : ℕ) : List AuthEvent := .refresh k none :: steps i 8

def overlapping : List AuthEvent :=
  .login "ana" :: .refresh 0 none :: .refresh 0 none :: steps 0 3 ++ steps 1 8 ++ steps 0 5

-- The two rotations follow each other within the last second of the token.
def lastSecond : List AuthEvent :=
  .login "ana" :: .tick 604799500000 :: rotation 0 0 ++ rotation 1 0

def sequential : List AuthEvent :=
  .login "ana" :: .tick 5000000 :: rotation 0 0 ++ .tick 5000000 :: rotation 1 1 ++
    .refresh 0 none :: steps 2 5

end Refreshing

theorem refresh_token_used_twice :
    (∃ s ∈ Refreshing.M.run start Refreshing.overlapping, ¬ s.exchanged.Nodup) ∧
    ∃ s ∈ Refreshing.M.run start Refreshing.lastSecond, ¬ s.exchanged.Nodup :=
  ⟨by decide, by decide⟩

theorem refresh_tokens_single_use_sequential :
    ∃ s, Refreshing.M.run start Refreshing.sequential = some s ∧ s.exchanged.Nodup ∧
      ∀ t ∈ s.refreshTokens, ∀ t' ∈ s.refreshTokens, t.fid = t'.fid →
        t.jti ∉ s.exchanged → t'.jti ∉ s.exchanged → t = t' := by
  have hsome : (Refreshing.M.run start Refreshing.sequential).isSome := by decide
  obtain ⟨s, hrun⟩ := Option.isSome_iff_exists.mp hsome
  exact ⟨s, hrun, refresh_tokens_single_use hrun (by decide)⟩

end Sessions

end BTagent
