import BTagent.Auth.Mfa

namespace BTagent

namespace VerifyStage

def holds : VerifyStage → Bool
  | jtiCheck | done => false
  | _ => true

def checks : VerifyStage → Option UserMfaRow
  | checking row => some row
  | _ => none

def flushes : VerifyStage → Option (List String)
  | flushing read _ _ => some read
  | _ => none

end VerifyStage

namespace SecondFactor
open Auth

variable {P : MfaPrimitives} {s s' : SecondFactor} {i : ℕ} {r : VerifyRequest}

-- What a request may do next, with all that its step checks.
inductive VerifyStep (P : MfaPrimitives) (s : SecondFactor) (i : ℕ) (r : VerifyRequest) :
    SecondFactor → Prop where
  | refuse : VerifyStep P s i r (s.refuse i r)
  | passJti (hstage : r.stage = .jtiCheck) (hlive : s.isRevoked r.challenge.jti = false) :
      VerifyStep P s i r (s.move i r .loading)
  | load {row : UserMfaRow} (hstage : r.stage = .loading)
      (hrow : s.rows r.challenge.sub = some row) : VerifyStep P s i r (s.move i r (.checking row))
  | totp {row : UserMfaRow} (hstage : r.stage = .checking row) :
      VerifyStep P s i r (s.move i r .revoking)
  | consume {row : UserMfaRow} {used : String} {remaining : List String}
      (hstage : r.stage = .checking row)
      (hused : Mfa.consume P (Mfa.normalizeRecoveryCode P r.code) row.recoveryCodes =
        some (used, remaining)) :
      VerifyStep P s i r (s.move i r (.flushing row.recoveryCodes
        ⟨Mfa.normalizeRecoveryCode P r.code, used⟩ remaining))
  | flush {read remaining : List String} {use : RecoveryUse} {row : UserMfaRow}
      (hstage : r.stage = .flushing read use remaining) (hfree : ¬ s.Locked r.challenge.sub)
      (hrow : s.rows r.challenge.sub = some row) :
      VerifyStep P s i r (s.moveWith i r (some (use, remaining)) .revoking)
  | readTtl (hstage : r.stage = .revoking) :
      VerifyStep P s i r (s.move i r (.revokingJti (remainingTtl r.challenge.exp s.now)))
  | revokeJti {ttl : ℕ} (hstage : r.stage = .revokingJti ttl) :
      VerifyStep P s i r { s.move i r .committing with
        revokedJtis := setEx s.revokedJtis s.now r.challenge.jti () ttl }
  | commit (hstage : r.stage = .committing) :
      VerifyStep P s i r (s.commit i r)

theorem verifyStep_cases (h : s.verifyStep P i r r.stage = some s') : VerifyStep P s i r s' := by
  cases hstage : r.stage with
  | jtiCheck =>
      rw [hstage] at h
      simp only [verifyStep] at h
      split at h
      · cases h; exact .refuse
      · next hlive => cases h; exact .passJti hstage (by simpa using hlive)
  | loading =>
      rw [hstage] at h
      simp only [verifyStep] at h
      split at h
      · cases h; exact .refuse
      · next row hrow =>
          split at h
          · cases h; exact .load hstage hrow
          · cases h; exact .refuse
  | checking row =>
      rw [hstage] at h
      simp only [verifyStep] at h
      split at h
      · cases h; exact .refuse
      · split at h
        · cases h; exact .totp hstage
        · split at h
          · cases h; exact .refuse
          · next used remaining hused =>
              cases h
              simp only [Mfa.verifyAndConsumeRecoveryCode] at hused
              split at hused
              · cases hused
              · exact .consume hstage hused
  | flushing read use remaining =>
      rw [hstage] at h
      simp only [verifyStep] at h
      split at h
      · cases h
      · next hfree =>
          split at h
          · cases h; exact .refuse
          · next row hrow => cases h; exact .flush hstage hfree hrow
  | revoking => rw [hstage] at h; cases h; exact .readTtl hstage
  | revokingJti ttl => rw [hstage] at h; cases h; exact .revokeJti hstage
  | committing => rw [hstage] at h; cases h; exact .commit hstage
  | done => rw [hstage] at h; cases h

-- A challenge is checked while no other request holds it, and a used one not in its last second;
-- a code matches one stored hash; and no codes were stored since the request read them.
def VerifiedAlone (P : MfaPrimitives) (s : SecondFactor) : MfaEvent → Prop
  | .verifyStep i => ∀ r ∈ s.requests[i]?,
      (r.stage = .jtiCheck →
        (∀ other ∈ s.requests, other.stage.holds = true → other.challenge.jti ≠ r.challenge.jti) ∧
          (r.challenge.jti ∈ s.pairs.map (·.jti) → s.now + 1000000 ≤ r.challenge.exp * 1000000)) ∧
      (∀ row ∈ r.stage.checks, (row.recoveryCodes.filter
        (Mfa.accepts P (Mfa.normalizeRecoveryCode P r.code))).length ≤ 1) ∧
      ∀ read ∈ r.stage.flushes, ∀ row ∈ s.rows r.challenge.sub, row.recoveryCodes = read
  | _ => True

instance (s : SecondFactor) : ∀ e, Decidable (VerifiedAlone P s e)
  | .verifyStep i => inferInstanceAs (Decidable (∀ r ∈ s.requests[i]?, _ ∧ _ ∧ _))
  | .tick _ | .challenge _ | .verify .. | .drop _ => isTrue trivial

def recovered (s : SecondFactor) : List (UserId × RecoveryUse) :=
  s.pairs.filterMap fun p => p.recovery.map fun use => (p.user, use)

def Consumes (P : MfaPrimitives) (codes : List String) (use : RecoveryUse)
    (remaining : List String) : Prop :=
  use.hash ∈ codes ∧ Mfa.accepts P use.code use.hash = true ∧
    ∀ h ∈ remaining, h ∈ codes ∧ Mfa.accepts P use.code h = false

def Writes (user : UserId) (r : VerifyRequest) : Prop :=
  r.write.isSome = true ∧ r.challenge.sub = user

structure CodesOnce (P : MfaPrimitives) (s : SecondFactor) : Prop where
  flushing : ∀ r ∈ s.requests, ∀ read use remaining, r.stage = .flushing read use remaining →
    Consumes P read use remaining
  writes : ∀ r ∈ s.requests, ∀ use remaining, r.write = some (use, remaining) →
    ∃ row, s.rows r.challenge.sub = some row ∧ Consumes P row.recoveryCodes use remaining
  locked : ∀ user, Slots.AtMostOne (Writes user) s.requests
  accepted : ∀ u ∈ s.recovered, Mfa.accepts P u.2.code u.2.hash = true
  gone : ∀ u ∈ s.recovered, ∀ row ∈ s.rows u.1, ∀ h ∈ row.recoveryCodes,
    Mfa.accepts P u.2.code h = false
  codes : (s.recovered.map fun u => (u.1, u.2.code)).Nodup
  hashes : (s.recovered.map fun u => (u.1, u.2.hash)).Nodup

theorem consumes_of_consume {code used : String} {hashes remaining : List String}
    (h : Mfa.consume P code hashes = some (used, remaining))
    (hone : (hashes.filter (Mfa.accepts P code)).length ≤ 1) :
    Consumes P hashes ⟨code, used⟩ remaining := by
  obtain ⟨hmem, haccepts, hsub, hlength⟩ := Mfa.consume_cases P h
  refine ⟨hmem, haccepts, fun x hx => ⟨hsub x hx, ?_⟩⟩
  have hnil : remaining.filter (Mfa.accepts P code) = [] := by
    apply List.length_eq_zero_iff.mp
    omega
  simpa using List.filter_eq_nil_iff.mp hnil x hx

theorem CodesOnce.keep (h : CodesOnce P s) (hrows : s'.rows = s.rows) (hpairs : s'.pairs = s.pairs)
    (hflushing : ∀ r ∈ s'.requests, ∀ read use remaining, r.stage = .flushing read use remaining →
      Consumes P read use remaining)
    (hwrites : ∀ r ∈ s'.requests, ∀ use remaining, r.write = some (use, remaining) →
      ∃ row, s.rows r.challenge.sub = some row ∧ Consumes P row.recoveryCodes use remaining)
    (hlocked : ∀ user, Slots.AtMostOne (Writes user) s'.requests) : CodesOnce P s' := by
  have hrecovered : s'.recovered = s.recovered := by rw [recovered, hpairs, recovered]
  refine ⟨hflushing, ?_, hlocked, ?_, ?_, ?_, ?_⟩
  · rw [hrows]; exact hwrites
  · rw [hrecovered]; exact h.accepted
  · rw [hrecovered, hrows]; exact h.gone
  · rw [hrecovered]; exact h.codes
  · rw [hrecovered]; exact h.hashes

theorem CodesOnce.move {stage : VerifyStage} {write : Option (RecoveryUse × List String)}
    (h : CodesOnce P s) (hget : s.requests[i]? = some r) (hrows : s'.rows = s.rows)
    (hpairs : s'.pairs = s.pairs) (hrequests : s'.requests = (s.moveWith i r write stage).requests)
    (hwrite : ∀ w, write = some w → r.write = some w)
    (hflushing : ∀ read use remaining, stage = .flushing read use remaining →
      Consumes P read use remaining) : CodesOnce P s' := by
  have hmem := List.mem_of_getElem? hget
  refine h.keep hrows hpairs ?_ ?_ fun user => ?_ <;> rw [hrequests]
  · exact Slots.forall_set h.flushing hflushing
  · exact Slots.forall_set h.writes fun use remaining hw => h.writes r hmem use remaining (hwrite _ hw)
  · refine (h.locked user).set hget fun hp => ⟨?_, hp.2⟩
    obtain ⟨w, hw⟩ := Option.isSome_iff_exists.mp hp.1
    rw [hwrite w hw]
    rfl

theorem codes_flush {read remaining : List String} {use : RecoveryUse} {row : UserMfaRow}
    (h : CodesOnce P s) (hget : s.requests[i]? = some r)
    (hstage : r.stage = .flushing read use remaining) (hfree : ¬ s.Locked r.challenge.sub)
    (hrow : s.rows r.challenge.sub = some row) (hread : row.recoveryCodes = read) :
    CodesOnce P (s.moveWith i r (some (use, remaining)) .revoking) := by
  have hconsumes := h.flushing r (List.mem_of_getElem? hget) read use remaining hstage
  refine h.keep rfl rfl (Slots.forall_set h.flushing (by simp)) (Slots.forall_set h.writes ?_) ?_
  · rintro use' remaining' ⟨⟩
    exact ⟨row, hrow, hread ▸ hconsumes⟩
  · intro user
    by_cases huser : r.challenge.sub = user
    · refine .set_alone fun other ho hw => hfree ⟨other, ho, hw.1, hw.2.trans huser.symm⟩
    · exact (h.locked user).set hget fun hp => absurd hp.2 huser

theorem recovered_commit : (s.commit i r).recovered =
    s.recovered ++ (r.write.map fun w => (r.challenge.sub, w.1)).toList := by
  cases hw : r.write <;> simp [recovered, commit, hw]

theorem store_some {rows : UserId → Option UserMfaRow} {user user' : UserId} {use : RecoveryUse}
    {remaining : List String} {row : UserMfaRow}
    (h : store rows user (some (use, remaining)) user' = some row) :
    (user' = user ∧ row.recoveryCodes = remaining) ∨ (user' ≠ user ∧ rows user' = some row) := by
  rcases eq_or_ne user' user with rfl | hne
  · simp only [store, Function.update_self] at h
    obtain ⟨old, -, rfl⟩ := Option.map_eq_some_iff.mp h
    exact Or.inl ⟨rfl, rfl⟩
  · simp only [store, Function.update_of_ne hne] at h
    exact Or.inr ⟨hne, h⟩

theorem codes_commit_unwritten (h : CodesOnce P s) (hget : s.requests[i]? = some r)
    (hwrite : r.write = none) : CodesOnce P (s.commit i r) := by
  have hmoved : CodesOnce P (s.refuse i r) := h.move hget rfl rfl rfl (by simp) (by simp)
  have hrecovered : (s.commit i r).recovered = s.recovered := by simp [recovered_commit, hwrite]
  have hrows : (s.commit i r).rows = s.rows := by simp [commit, store, hwrite]
  refine ⟨hmoved.flushing, ?_, hmoved.locked, ?_, ?_, ?_, ?_⟩
  · rw [hrows]; exact hmoved.writes
  · rw [hrecovered]; exact h.accepted
  · rw [hrecovered, hrows]; exact h.gone
  · rw [hrecovered]; exact h.codes
  · rw [hrecovered]; exact h.hashes

theorem codes_commit_written {use : RecoveryUse} {remaining : List String} (h : CodesOnce P s)
    (hget : s.requests[i]? = some r) (hwrite : r.write = some (use, remaining)) :
    CodesOnce P (s.commit i r) := by
  have hmem := List.mem_of_getElem? hget
  obtain ⟨row, hrow, hused, haccepts, hremaining⟩ := h.writes r hmem use remaining hwrite
  have hmoved : CodesOnce P (s.refuse i r) := h.move hget rfl rfl rfl (by simp) (by simp)
  have hrecovered : (s.commit i r).recovered = s.recovered ++ [(r.challenge.sub, use)] := by
    simp [recovered_commit, hwrite]
  have hrows : (s.commit i r).rows = store s.rows r.challenge.sub (some (use, remaining)) := by
    simp [commit, hwrite]
  have hold : ∀ u ∈ s.recovered, u.1 = r.challenge.sub → Mfa.accepts P u.2.code use.hash = false :=
    fun u hu huser => h.gone u hu row (by rw [huser, hrow]; rfl) _ hused
  refine ⟨hmoved.flushing, fun r' hr' use' remaining' hw' => ?_, hmoved.locked, ?_, ?_, ?_, ?_⟩
  · obtain ⟨row', hrow', hconsumes⟩ := hmoved.writes r' hr' use' remaining' hw'
    refine ⟨row', ?_, hconsumes⟩
    obtain ⟨k, hk⟩ := List.mem_iff_getElem?.mp hr'
    rcases Slots.getElem?_set_cases hk with ⟨-, rfl⟩ | ⟨hne, hk⟩
    · cases hw'
    · have huser : r'.challenge.sub ≠ r.challenge.sub := by
        intro heq
        have hw : Writes r.challenge.sub r' := ⟨by rw [hw']; rfl, heq⟩
        exact hne (h.locked _ k i r' r hk hget hw ⟨by rw [hwrite]; rfl, rfl⟩)
      rw [hrows, store, Function.update_of_ne huser]
      exact hrow'
  · rw [hrecovered]
    intro u hu
    rcases List.mem_append.mp hu with hu | hu
    · exact h.accepted u hu
    · obtain rfl := List.mem_singleton.mp hu
      exact haccepts
  · rw [hrecovered, hrows]
    intro u hu row' hrow' x hx
    rcases store_some hrow' with ⟨huser, heq⟩ | ⟨huser, hrow'⟩
    · have hx := hremaining x (heq ▸ hx)
      rcases List.mem_append.mp hu with hu | hu
      · exact h.gone u hu row (by rw [huser, hrow]; rfl) x hx.1
      · obtain rfl := List.mem_singleton.mp hu
        exact hx.2
    · rcases List.mem_append.mp hu with hu | hu
      · exact h.gone u hu row' hrow' x hx
      · obtain rfl := List.mem_singleton.mp hu
        exact absurd rfl huser
  · rw [hrecovered, List.map_append, List.nodup_append]
    refine ⟨h.codes, List.nodup_singleton _, ?_⟩
    intro a ha b hb heq
    obtain ⟨u, hu, rfl⟩ := List.mem_map.mp ha
    obtain rfl := List.mem_singleton.mp hb
    obtain ⟨huser, hcode⟩ := Prod.mk.inj heq
    have hno := hold u hu huser
    rw [hcode, haccepts] at hno
    cases hno
  · rw [hrecovered, List.map_append, List.nodup_append]
    refine ⟨h.hashes, List.nodup_singleton _, ?_⟩
    intro a ha b hb heq
    obtain ⟨u, hu, rfl⟩ := List.mem_map.mp ha
    obtain rfl := List.mem_singleton.mp hb
    obtain ⟨huser, hhash⟩ := Prod.mk.inj heq
    have hno := hold u hu huser
    rw [← hhash, h.accepted u hu] at hno
    cases hno

theorem codes_verify (h : CodesOnce P s) (hget : s.requests[i]? = some r)
    (hg : VerifiedAlone P s (.verifyStep i)) (hstep : VerifyStep P s i r s') : CodesOnce P s' := by
  obtain ⟨-, hone, hread⟩ := hg r hget
  cases hstep with
  | refuse | passJti | load | totp | readTtl | revokeJti =>
      exact h.move hget rfl rfl rfl (by simp) (by simp)
  | consume hstage hused =>
      refine h.move hget rfl rfl rfl (by simp) ?_
      rintro read use remaining ⟨⟩
      exact consumes_of_consume hused (hone _ (by rw [hstage]; rfl))
  | flush hstage hfree hrow =>
      exact codes_flush h hget hstage hfree hrow (hread _ (by rw [hstage]; rfl) _ hrow)
  | commit =>
      cases hwrite : r.write with
      | none => exact codes_commit_unwritten h hget hwrite
      | some w => exact codes_commit_written h hget hwrite

section Challenges

def HoldsJti (jti : ℕ) (r : VerifyRequest) : Prop := r.stage.holds = true ∧ r.challenge.jti = jti

structure ChallengesOnce (s : SecondFactor) : Prop where
  ids : ∀ c ∈ s.challenges, c.jti < s.nextId
  distinct : ∀ c ∈ s.challenges, ∀ c' ∈ s.challenges, c.jti = c'.jti → c = c'
  requests : ∀ r ∈ s.requests, r.challenge ∈ s.challenges
  once : (s.pairs.map (·.jti)).Nodup
  known : ∀ p ∈ s.pairs, p.jti < s.nextId
  spent : ∀ c ∈ s.challenges, c.jti ∈ s.pairs.map (·.jti) → Lasting s.revokedJtis s.now c.exp c.jti
  revoked : ∀ r ∈ s.requests, r.stage = .committing →
    Lasting s.revokedJtis s.now r.challenge.exp r.challenge.jti
  alone : ∀ jti, Slots.AtMostOne (HoldsJti jti) s.requests
  unspent : ∀ r ∈ s.requests, r.stage.holds = true → r.challenge.jti ∉ s.pairs.map (·.jti)
  timed : ∀ r ∈ s.requests, ∀ ttl, r.stage = .revokingJti ttl →
    ∃ c ≤ s.now, ttl = remainingTtl r.challenge.exp c

-- What a step has to show that only moves one request and revokes challenges.
structure Moves (s s' : SecondFactor) (i : ℕ) (r : VerifyRequest) (stage : VerifyStage)
    (write : Option (RecoveryUse × List String)) : Prop where
  now : s'.now = s.now
  ids : s'.nextId = s.nextId
  challenges : s'.challenges = s.challenges
  pairs : s'.pairs = s.pairs
  requests : s'.requests = (s.moveWith i r write stage).requests
  lasting : ∀ c ∈ s.challenges, Lasting s.revokedJtis s.now c.exp c.jti →
    Lasting s'.revokedJtis s.now c.exp c.jti

theorem ChallengesOnce.move {stage : VerifyStage} {write : Option (RecoveryUse × List String)}
    (h : ChallengesOnce s) (hget : s.requests[i]? = some r) (hm : Moves s s' i r stage write)
    (hholds : stage.holds = true → r.stage.holds = true ∨
      (r.challenge.jti ∉ s.pairs.map (·.jti) ∧
        ∀ other ∈ s.requests, ¬ HoldsJti r.challenge.jti other))
    (hrevoked : stage = .committing →
      Lasting s'.revokedJtis s.now r.challenge.exp r.challenge.jti)
    (htimed : ∀ ttl, stage = .revokingJti ttl →
      ∃ c ≤ s.now, ttl = remainingTtl r.challenge.exp c) : ChallengesOnce s' := by
  have hmem := List.mem_of_getElem? hget
  have hrequests : s'.requests = s.requests.set i { r with write, stage } := hm.requests
  refine ⟨?_, ?_, ?_, ?_, ?_, ?_, ?_, fun jti => ?_, ?_, ?_⟩
  · rw [hm.challenges, hm.ids]; exact h.ids
  · rw [hm.challenges]; exact h.distinct
  · rw [hrequests, hm.challenges]
    exact Slots.forall_set h.requests (h.requests r hmem)
  · rw [hm.pairs]; exact h.once
  · rw [hm.pairs, hm.ids]; exact h.known
  · rw [hm.challenges, hm.pairs, hm.now]
    exact fun c hc hj => hm.lasting c hc (h.spent c hc hj)
  · rw [hrequests, hm.now]
    refine Slots.forall_set (fun r' hr' hs => ?_) hrevoked
    exact hm.lasting _ (h.requests r' hr') (h.revoked r' hr' hs)
  · rw [hrequests]
    by_cases hp : HoldsJti jti { r with write, stage }
    · rcases hholds hp.1 with hold | ⟨-, hnone⟩
      · exact (h.alone jti).set hget fun _ => ⟨hold, hp.2⟩
      · exact .set_alone fun other ho hother => hnone other ho (hp.2 ▸ hother)
    · exact (h.alone jti).set hget fun hp' => absurd hp' hp
  · rw [hrequests, hm.pairs]
    refine Slots.forall_set h.unspent fun hp => ?_
    rcases hholds hp with hold | ⟨hnew, -⟩
    · exact h.unspent r hmem hold
    · exact hnew
  · rw [hrequests, hm.now]
    exact Slots.forall_set h.timed htimed

theorem challenges_commit (h : ChallengesOnce s) (hget : s.requests[i]? = some r)
    (hstage : r.stage = .committing) : ChallengesOnce (s.commit i r) := by
  have hmem := List.mem_of_getElem? hget
  have hchallenge := h.requests r hmem
  have hholds : r.stage.holds = true := by simp [hstage, VerifyStage.holds]
  have hpairs : (s.commit i r).pairs.map (·.jti) = s.pairs.map (·.jti) ++ [r.challenge.jti] := by
    simp [commit, refuse, moveWith]
  have hmoved : ChallengesOnce (s.refuse i r) :=
    h.move hget ⟨rfl, rfl, rfl, rfl, rfl, fun _ _ hl => hl⟩ (by simp [VerifyStage.holds]) (by simp)
      (by simp)
  refine ⟨h.ids, h.distinct, hmoved.requests, ?_, ?_, ?_, hmoved.revoked, hmoved.alone, ?_,
    hmoved.timed⟩
  · rw [hpairs, List.nodup_append]
    refine ⟨h.once, List.nodup_singleton _, ?_⟩
    rintro a ha b hb rfl
    obtain rfl := List.mem_singleton.mp hb
    exact h.unspent r hmem hholds ha
  · intro p hp
    rcases List.mem_append.mp hp with hp | hp
    · exact h.known p hp
    · obtain rfl := List.mem_singleton.mp hp
      exact h.ids _ hchallenge
  · rw [hpairs]
    intro c hc hj
    rcases List.mem_append.mp hj with hj | hj
    · exact h.spent c hc hj
    · obtain rfl := h.distinct c hc _ hchallenge (List.mem_singleton.mp hj)
      exact h.revoked r hmem hstage
  · rw [hpairs]
    intro r' hr' hp hj
    obtain ⟨k, hk⟩ := List.mem_iff_getElem?.mp hr'
    rcases Slots.getElem?_set_cases hk with ⟨-, rfl⟩ | ⟨hne, hk⟩
    · cases hp
    · rcases List.mem_append.mp hj with hj | hj
      · exact h.unspent r' (List.mem_of_getElem? hk) hp hj
      · have heq : r'.challenge.jti = r.challenge.jti := List.mem_singleton.mp hj
        exact hne (h.alone r.challenge.jti k i r' r hk hget ⟨hp, heq⟩ ⟨hholds, rfl⟩)

theorem challenges_verify (h : ChallengesOnce s) (hget : s.requests[i]? = some r)
    (hg : VerifiedAlone P s (.verifyStep i)) (hstep : VerifyStep P s i r s') :
    ChallengesOnce s' := by
  have hmem := List.mem_of_getElem? hget
  obtain ⟨hfirst, -⟩ := hg r hget
  have hkeep : ∀ c ∈ s.challenges, Lasting s.revokedJtis s.now c.exp c.jti →
      Lasting s.revokedJtis s.now c.exp c.jti := fun _ _ hl => hl
  cases hstep with
  | refuse =>
      exact h.move hget ⟨rfl, rfl, rfl, rfl, rfl, hkeep⟩ (by simp [VerifyStage.holds]) (by simp)
        (by simp)
  | passJti hstage hlive =>
      obtain ⟨halone, htime⟩ := hfirst hstage
      refine h.move hget ⟨rfl, rfl, rfl, rfl, rfl, hkeep⟩ (fun _ => Or.inr ⟨?_, ?_⟩) (by simp)
        (by simp)
      · intro hspent
        have hfound := (h.spent _ (h.requests r hmem) hspent).get (htime hspent)
        simp [isRevoked, hfound] at hlive
      · exact fun other ho hother => halone other ho hother.1 hother.2
  | load hstage | totp hstage | consume hstage | flush hstage =>
      exact h.move hget ⟨rfl, rfl, rfl, rfl, rfl, hkeep⟩
        (fun _ => Or.inl (by simp [hstage, VerifyStage.holds])) (by simp) (by simp)
  | readTtl hstage =>
      refine h.move hget ⟨rfl, rfl, rfl, rfl, rfl, hkeep⟩
        (fun _ => Or.inl (by simp [hstage, VerifyStage.holds])) (by simp) ?_
      rintro ttl ⟨⟩
      exact ⟨s.now, Nat.le_refl _, rfl⟩
  | @revokeJti ttl hstage =>
      obtain ⟨c, hc, rfl⟩ := h.timed r hmem ttl hstage
      refine h.move hget ⟨rfl, rfl, rfl, rfl, rfl, fun c' hc' hl => ?_⟩
        (fun _ => Or.inl (by simp [hstage, VerifyStage.holds])) (fun _ => ?_) (by simp)
      · refine hl.setEx hc fun heq => ?_
        exact congrArg MfaChallenge.exp (h.distinct c' hc' _ (h.requests r hmem) heq)
      · exact lasting_setEx hc
  | commit hstage => exact challenges_commit h hget hstage

end Challenges

theorem codes_step {e : MfaEvent} (h : CodesOnce P s) (hg : VerifiedAlone P s e)
    (hstep : (machine P).step s e = some s') : CodesOnce P s' := by
  cases e with
  | tick d =>
      cases hstep
      exact h.keep rfl rfl h.flushing h.writes h.locked
  | challenge user =>
      cases hstep
      exact h.keep rfl rfl h.flushing h.writes h.locked
  | verify k code =>
      obtain ⟨c, hc, hpresent⟩ := Option.bind_eq_some_iff.mp hstep
      simp only [presentChallenge] at hpresent
      split at hpresent
      · cases hpresent
        refine h.keep rfl rfl (fun r hr => ?_) (fun r hr => ?_) fun user => ?_
        · rcases List.mem_append.mp hr with hr | hr
          · exact h.flushing r hr
          · obtain rfl := List.mem_singleton.mp hr
            simp
        · rcases List.mem_append.mp hr with hr | hr
          · exact h.writes r hr
          · obtain rfl := List.mem_singleton.mp hr
            simp
        · exact (h.locked user).append (by simp [Writes])
      · cases hpresent
  | verifyStep i =>
      obtain ⟨r, hget, hverify⟩ := Option.bind_eq_some_iff.mp hstep
      exact codes_verify h hget hg (verifyStep_cases hverify)
  | drop i =>
      obtain ⟨r, hget, rfl⟩ := Option.map_eq_some_iff.mp hstep
      exact h.move hget rfl rfl rfl (by simp) (by simp)

theorem challenges_tick {d : ℕ} (h : ChallengesOnce s) :
    ChallengesOnce { s with now := s.now + d } := by
  refine ⟨h.ids, h.distinct, h.requests, h.once, h.known, ?_, ?_, h.alone, h.unspent, ?_⟩
  · exact fun c hc hj => (h.spent c hc hj).mono (Nat.le_add_right _ _)
  · exact fun r hr hs => (h.revoked r hr hs).mono (Nat.le_add_right _ _)
  · intro r hr ttl hs
    obtain ⟨c, hc, heq⟩ := h.timed r hr ttl hs
    exact ⟨c, Nat.le_trans hc (Nat.le_add_right _ _), heq⟩

theorem challenges_challenge {c : MfaChallenge} (h : ChallengesOnce s) (hid : c.jti = s.nextId) :
    ChallengesOnce { s with nextId := s.nextId + 1, challenges := s.challenges ++ [c] } := by
  have hmem : ∀ {c'}, c' ∈ s.challenges ++ [c] → c' ∈ s.challenges ∨ c' = c := by simp
  have hlt : ∀ c' ∈ s.challenges, c'.jti < c.jti := fun c' hc' => hid ▸ h.ids c' hc'
  refine ⟨fun c' hc' => ?_, fun c₁ h₁ c₂ h₂ heq => ?_, fun r hr => ?_, h.once, fun p hp => ?_,
    fun c' hc' hj => ?_, h.revoked, h.alone, h.unspent, h.timed⟩
  · rcases hmem hc' with hc' | rfl
    · exact Nat.lt_succ_of_lt (h.ids c' hc')
    · simp [hid]
  · rcases hmem h₁ with hold₁ | hnew₁ <;> rcases hmem h₂ with hold₂ | hnew₂
    · exact h.distinct c₁ hold₁ c₂ hold₂ heq
    · have hlt₁ := hlt c₁ hold₁
      rw [hnew₂] at heq
      omega
    · have hlt₂ := hlt c₂ hold₂
      rw [hnew₁] at heq
      omega
    · exact hnew₁.trans hnew₂.symm
  · exact List.mem_append_left _ (h.requests r hr)
  · exact Nat.lt_succ_of_lt (h.known p hp)
  · rcases hmem hc' with hc' | rfl
    · exact h.spent c' hc' hj
    · obtain ⟨p, hp, heq⟩ := List.mem_map.mp hj
      have hknown := h.known p hp
      omega

theorem challenges_step {e : MfaEvent} (h : ChallengesOnce s) (hg : VerifiedAlone P s e)
    (hstep : (machine P).step s e = some s') : ChallengesOnce s' := by
  cases e with
  | tick d =>
      cases hstep
      exact challenges_tick h
  | challenge user =>
      cases hstep
      exact challenges_challenge h rfl
  | verify k code =>
      obtain ⟨c, hc, hpresent⟩ := Option.bind_eq_some_iff.mp hstep
      simp only [presentChallenge] at hpresent
      split at hpresent
      · cases hpresent
        have hnew : ∀ {r : VerifyRequest}, r ∈ s.requests ++ [⟨c, code, none, .jtiCheck⟩] →
            r ∈ s.requests ∨ r = ⟨c, code, none, .jtiCheck⟩ := by simp
        refine ⟨h.ids, h.distinct, fun r hr => ?_, h.once, h.known, h.spent, fun r hr hs => ?_,
          fun jti => ?_, fun r hr hp => ?_, fun r hr ttl hs => ?_⟩
        · rcases hnew hr with hr | rfl
          · exact h.requests r hr
          · exact List.mem_of_getElem? hc
        · rcases hnew hr with hr | rfl
          · exact h.revoked r hr hs
          · cases hs
        · exact (h.alone jti).append (by simp [HoldsJti, VerifyStage.holds])
        · rcases hnew hr with hr | rfl
          · exact h.unspent r hr hp
          · cases hp
        · rcases hnew hr with hr | rfl
          · exact h.timed r hr ttl hs
          · cases hs
      · cases hpresent
  | verifyStep i =>
      obtain ⟨r, hget, hverify⟩ := Option.bind_eq_some_iff.mp hstep
      exact challenges_verify h hget hg (verifyStep_cases hverify)
  | drop i =>
      obtain ⟨r, hget, rfl⟩ := Option.map_eq_some_iff.mp hstep
      exact h.move hget ⟨rfl, rfl, rfl, rfl, rfl, fun _ _ hl => hl⟩ (by simp [VerifyStage.holds])
        (by simp) (by simp)

theorem codes_start {rows : UserId → Option UserMfaRow} : CodesOnce P (start rows) where
  flushing := by simp [start]
  writes := by simp [start]
  locked := fun user i j a b hi => by simp [start] at hi
  accepted := by simp [start, recovered]
  gone := by simp [start, recovered]
  codes := by simp [start, recovered]
  hashes := by simp [start, recovered]

theorem challenges_start {rows : UserId → Option UserMfaRow} : ChallengesOnce (start rows) where
  ids := by simp [start]
  distinct := by simp [start]
  requests := by simp [start]
  once := by simp [start]
  known := by simp [start]
  spent := by simp [start]
  revoked := by simp [start]
  alone := fun jti i j a b hi => by simp [start] at hi
  unspent := by simp [start]
  timed := by simp [start]

theorem second_factors_once {rows : UserId → Option UserMfaRow} {es : List MfaEvent}
    (hrun : (machine P).run (start rows) es = some s)
    (hguard : (machine P).Along (VerifiedAlone P) (start rows) es) :
    (s.recovered.map fun u => (u.1, u.2.hash)).Nodup ∧
      (s.recovered.map fun u => (u.1, u.2.code)).Nodup ∧
      (∀ u ∈ s.recovered, ∀ row ∈ s.rows u.1, ∀ h ∈ row.recoveryCodes,
        Mfa.accepts P u.2.code h = false) ∧
      (s.pairs.map (·.jti)).Nodup := by
  have hinv : CodesOnce P s ∧ ChallengesOnce s := by
    refine Machine.invariant_along _ (I := fun s => CodesOnce P s ∧ ChallengesOnce s) ?_
      ⟨codes_start, challenges_start⟩ hguard hrun
    intro s e s' ⟨hcodes, hchallenges⟩ hg hstep
    exact ⟨codes_step hcodes hg hstep, challenges_step hchallenges hg hstep⟩
  exact ⟨hinv.1.hashes, hinv.1.codes, hinv.1.gone, hinv.2.once⟩

namespace Verifying

-- On the codes and hashes below, a hash is the code behind a fixed salt.
def primitives : MfaPrimitives where
  strip := id
  lower := id
  isDigit code := code ≠ "" && code.toList.all Char.isDigit
  decrypt := some
  totp := fun _ _ _ => false
  checkpw candidate hash := some (hash == "salt" ++ candidate)

def rows (user : UserId) : Option UserMfaRow :=
  if user = "ana" then some ⟨"secret", true, ["saltaaaaa-11111", "saltbbbbb-22222"]⟩ else none

def M : Machine SecondFactor MfaEvent := machine primitives

def steps (i n : ℕ) : List MfaEvent := List.replicate n (.verifyStep i)

def overlapping (second : ℕ) (code : String) : List MfaEvent :=
  .challenge "ana" :: .challenge "ana" :: .verify 0 "aaaaa-11111" :: .verify second code ::
    steps 0 3 ++ steps 1 3 ++ steps 0 4 ++ steps 1 4

def sequential : List MfaEvent :=
  .challenge "ana" :: .challenge "ana" :: .verify 0 "aaaaa-11111" :: steps 0 7 ++
    .verify 1 "bbbbb-22222" :: steps 1 7 ++ .verify 0 "aaaaa-11111" :: steps 2 1

end Verifying

theorem second_factors_reused :
    (∃ s ∈ Verifying.M.run (start Verifying.rows) (Verifying.overlapping 1 "aaaaa-11111"),
      ¬ (s.recovered.map fun u => (u.1, u.2.hash)).Nodup) ∧
    (∃ s ∈ Verifying.M.run (start Verifying.rows) (Verifying.overlapping 1 "bbbbb-22222"),
      ∃ u ∈ s.recovered, ∃ row ∈ s.rows u.1, ∃ h ∈ row.recoveryCodes,
        Mfa.accepts Verifying.primitives u.2.code h = true) ∧
    ∃ s ∈ Verifying.M.run (start Verifying.rows) (Verifying.overlapping 0 "bbbbb-22222"),
      ¬ (s.pairs.map (·.jti)).Nodup :=
  ⟨by decide, by decide, by decide⟩

theorem second_factors_once_sequential :
    ∃ s, Verifying.M.run (start Verifying.rows) Verifying.sequential = some s ∧
      (s.recovered.map fun u => (u.1, u.2.hash)).Nodup ∧
      (s.recovered.map fun u => (u.1, u.2.code)).Nodup ∧
      (∀ u ∈ s.recovered, ∀ row ∈ s.rows u.1, ∀ h ∈ row.recoveryCodes,
        Mfa.accepts Verifying.primitives u.2.code h = false) ∧
      (s.pairs.map (·.jti)).Nodup := by
  have hsome : (Verifying.M.run (start Verifying.rows) Verifying.sequential).isSome := by
    decide
  obtain ⟨s, hrun⟩ := Option.isSome_iff_exists.mp hsome
  exact ⟨s, hrun, second_factors_once hrun (by decide)⟩

end SecondFactor

end BTagent
