import BTagent.Auth.Sessions

namespace BTagent

namespace Sessions

variable {settings : AuthSettings} {s s' : Sessions} {i : ℕ} {r : RefreshRequest}

-- What a refresh request may do next, with all that its step checks.
inductive RefreshStep (settings : AuthSettings) (s : Sessions) (i : ℕ) (r : RefreshRequest) :
    Sessions → Prop where
  | passFamily (hstage : r.stage = .familyCheck) (hlive : s.isFamilyRevoked r.token.fid = false) :
      RefreshStep settings s i r (s.moveRefresh i r .userCheck)
  | passUser (hstage : r.stage = .userCheck)
      (hlive : s.isUserRevoked r.token.sub r.token.iat = false) :
      RefreshStep settings s i r (s.moveRefresh i r .jtiCheck)
  | passJti (hstage : r.stage = .jtiCheck) (hlive : s.isRevoked r.token.jti = false) :
      RefreshStep settings s i r (s.moveRefresh i r .consuming)
  | refuse (hstage : r.stage = .familyCheck ∨ r.stage = .userCheck) :
      RefreshStep settings s i r (s.moveRefresh i r .done)
  | detect (hstage : r.stage = .jtiCheck) (hdead : s.isRevoked r.token.jti = true) :
      RefreshStep settings s i r { s.moveRefresh i r .reuseDetected with
        reuses := s.reuses ++ [(r.token.fid, r.token.exp)] }
  | respond (hstage : r.stage = .reuseDetected) :
      RefreshStep settings s i r
        (s.moveRefresh i r (.revokingFamily (Auth.remainingTtl r.token.exp s.now)))
  | revokeFamily {ttl : ℕ} (hstage : r.stage = .revokingFamily ttl) :
      RefreshStep settings s i r { s.moveRefresh i r .done with
        revokedFamilies := Auth.setEx s.revokedFamilies s.now r.token.fid () ttl }
  | consume (hstage : r.stage = .consuming) :
      RefreshStep settings s i r
        (s.moveRefresh i r (.revokingJti (Auth.remainingTtl r.token.exp s.now)))
  | revokeJti {ttl : ℕ} (hstage : r.stage = .revokingJti ttl) :
      RefreshStep settings s i r { s.moveRefresh i r .retiring with
        revokedJtis := Auth.setEx s.revokedJtis s.now r.token.jti () ttl }
  | retire {stage : RefreshStage} (hstage : r.stage = .retiring)
      (hnext : stage = .mintingAccess ∨
        ∃ old ∈ r.old, stage = .revokingOld old (Auth.remainingTtl old.exp s.now)) :
      RefreshStep settings s i r (s.moveRefresh i r stage)
  | revokeOld {old : OldToken} {ttl : ℕ} (hstage : r.stage = .revokingOld old ttl) :
      RefreshStep settings s i r { s.moveRefresh i r .mintingAccess with
        revokedJtis := Auth.setEx s.revokedJtis s.now old.jti () ttl }
  | mintAccess (hstage : r.stage = .mintingAccess) :
      RefreshStep settings s i r (s.moveRefresh i r (.mintingRefresh s.now))
  | mintRefresh {accessNow : ℕ} (hstage : r.stage = .mintingRefresh accessNow) :
      RefreshStep settings s i r ((s.moveRefresh i r .done).exchange settings r accessNow)

theorem refreshStep_cases (h : s.refreshStep settings i r r.stage = some s') :
    RefreshStep settings s i r s' := by
  cases hstage : r.stage with
  | familyCheck =>
      rw [hstage] at h
      simp only [refreshStep] at h
      split at h
      · cases h; exact .refuse (Or.inl hstage)
      · next hlive => cases h; exact .passFamily hstage (by simpa using hlive)
  | userCheck =>
      rw [hstage] at h
      simp only [refreshStep] at h
      split at h
      · cases h; exact .refuse (Or.inr hstage)
      · next hlive => cases h; exact .passUser hstage (by simpa using hlive)
  | jtiCheck =>
      rw [hstage] at h
      simp only [refreshStep] at h
      split at h
      · next hdead => cases h; exact .detect hstage hdead
      · next hlive => cases h; exact .passJti hstage (by simpa using hlive)
  | reuseDetected => rw [hstage] at h; cases h; exact .respond hstage
  | revokingFamily ttl => rw [hstage] at h; cases h; exact .revokeFamily hstage
  | consuming => rw [hstage] at h; cases h; exact .consume hstage
  | revokingJti ttl => rw [hstage] at h; cases h; exact .revokeJti hstage
  | retiring =>
      rw [hstage] at h
      simp only [refreshStep] at h
      split at h
      · cases h; exact .retire hstage (Or.inl rfl)
      · next old hold =>
          split at h
          · cases h; exact .retire hstage (Or.inr ⟨old, hold, rfl⟩)
          · cases h; exact .retire hstage (Or.inl rfl)
  | revokingOld old ttl => rw [hstage] at h; cases h; exact .revokeOld hstage
  | mintingAccess => rw [hstage] at h; cases h; exact .mintAccess hstage
  | mintingRefresh accessNow => rw [hstage] at h; cases h; exact .mintRefresh hstage
  | done => rw [hstage] at h; cases h

-- The steps of the machine by the part of the state they change.
inductive Step (settings : AuthSettings) (s : Sessions) : AuthEvent → Sessions → Prop where
  | tick {d : ℕ} : Step settings s (.tick d) { s with now := s.now + d }
  | login {user : UserId} : Step settings s (.login user) (s.login settings user)
  | present {k : ℕ} {t : RefreshToken} {old : Option OldToken} (ht : t ∈ s.refreshTokens)
      (hexp : Auth.accepts t.exp s.now = true) (hold : ∀ o ∈ old, o ∈ s.signed) :
      Step settings s (.refresh k old)
        { s with refreshes := s.refreshes ++ [⟨t, old, .familyCheck⟩] }
  | refresh {i : ℕ} {r : RefreshRequest} {next : Sessions} (hget : s.refreshes[i]? = some r)
      (hr : RefreshStep settings s i r next) : Step settings s (.refreshStep i) next
  | drop {i : ℕ} {r : RefreshRequest} (hget : s.refreshes[i]? = some r) :
      Step settings s (.drop i) (s.moveRefresh i r .done)
  | revokeSessions {user : UserId} : Step settings s (.revokeSessions user)
      { s with revokes := s.revokes ++ [⟨user, s.fidsOf user, .reading⟩] }
  | readEpoch {i : ℕ} {call : RevokeCall} (hget : s.revokes[i]? = some call)
      (hstage : call.stage = .reading) :
      Step settings s (.revokeStep i) (s.moveRevoke i call (.setting (Auth.seconds s.now + 1)))
  | setEpoch {i epoch : ℕ} {call : RevokeCall} (hget : s.revokes[i]? = some call)
      (hstage : call.stage = .setting epoch) :
      Step settings s (.revokeStep i) { s.moveRevoke i call (.returning epoch) with
        userEpochs := Auth.setEx s.userEpochs s.now call.user epoch settings.refreshTtl }
  | returns {i epoch : ℕ} {call : RevokeCall} (hget : s.revokes[i]? = some call)
      (hstage : call.stage = .returning epoch) :
      Step settings s (.revokeStep i) (s.moveRevoke i call (.returned epoch))
  | presentAccess {k : ℕ} {t : AccessToken} (ht : t ∈ s.accessTokens)
      (hexp : Auth.accepts t.exp s.now = true) :
      Step settings s (.access k) { s with accesses := s.accesses ++ [⟨t, .jtiCheck⟩] }
  | moveAccess {i : ℕ} {r : AccessRequest} {stage : AccessStage}
      (hget : s.accesses[i]? = some r) :
      Step settings s (.accessStep i) (s.moveAccess i r stage)
  | accept {i : ℕ} {r : AccessRequest} (hget : s.accesses[i]? = some r)
      (hstage : r.stage = .userCheck) (hlive : s.isUserRevoked r.token.sub r.token.iat = false) :
      Step settings s (.accessStep i) { s.moveAccess i r .done with
        afterLogout :=
          if r.token.fid ∈ s.endedFids then s.afterLogout ++ [r.token.jti] else s.afterLogout }

theorem step_cases {e : AuthEvent} (h : step settings s e = some s') : Step settings s e s' := by
  cases e with
  | tick d => cases h; exact .tick
  | login user => cases h; exact .login
  | refresh k old =>
      obtain ⟨t, ht, hstep⟩ := Option.bind_eq_some_iff.mp h
      simp only [presentRefresh] at hstep
      split at hstep
      · next hcond =>
          cases hstep
          exact .present (List.mem_of_getElem? ht) hcond.1 hcond.2
      · cases hstep
  | refreshStep i =>
      obtain ⟨r, hget, hstep⟩ := Option.bind_eq_some_iff.mp h
      exact .refresh hget (refreshStep_cases hstep)
  | drop i =>
      obtain ⟨r, hget, rfl⟩ := Option.map_eq_some_iff.mp h
      exact .drop hget
  | revokeSessions user => cases h; exact .revokeSessions
  | revokeStep i =>
      obtain ⟨call, hget, hstep⟩ := Option.bind_eq_some_iff.mp h
      cases hstage : call.stage with
      | reading => rw [hstage] at hstep; cases hstep; exact .readEpoch hget hstage
      | setting epoch => rw [hstage] at hstep; cases hstep; exact .setEpoch hget hstage
      | returning epoch => rw [hstage] at hstep; cases hstep; exact .returns hget hstage
      | returned epoch => rw [hstage] at hstep; cases hstep
  | access k =>
      obtain ⟨t, ht, hstep⟩ := Option.bind_eq_some_iff.mp h
      simp only [presentAccess] at hstep
      split at hstep
      · next hexp => cases hstep; exact .presentAccess (List.mem_of_getElem? ht) hexp
      · cases hstep
  | accessStep i =>
      obtain ⟨r, hget, hstep⟩ := Option.bind_eq_some_iff.mp h
      cases hstage : r.stage with
      | jtiCheck => rw [hstage] at hstep; cases hstep; exact .moveAccess hget
      | userCheck =>
          rw [hstage] at hstep
          simp only [accessStep] at hstep
          split at hstep
          · cases hstep; exact .moveAccess hget
          · next hlive => cases hstep; exact .accept hget hstage (by simpa using hlive)
      | done => rw [hstage] at hstep; cases hstep

section Signed

structure RequestSigned (s : Sessions) (r : RefreshRequest) : Prop where
  token : r.token ∈ s.refreshTokens
  old : ∀ o ∈ r.old, o ∈ s.signed
  revoking : ∀ o ttl, r.stage = .revokingOld o ttl → o ∈ s.signed

-- What holds of the tokens in every run.
structure Signed (s : Sessions) : Prop where
  refreshIds : ∀ t ∈ s.refreshTokens, t.jti < s.nextId ∧ t.fid < s.nextId
  ids : ∀ o ∈ s.signed, o.jti < s.nextId
  unique : ∀ o ∈ s.signed, ∀ o' ∈ s.signed, o.jti = o'.jti → o = o'
  distinct : ∀ t ∈ s.refreshTokens, ∀ t' ∈ s.refreshTokens, t.jti = t'.jti → t = t'
  owner : ∀ t ∈ s.refreshTokens, ∀ t' ∈ s.refreshTokens, t.fid = t'.fid → t.sub = t'.sub
  accessOwner : ∀ a ∈ s.accessTokens, ∃ t ∈ s.refreshTokens, t.fid = a.fid ∧ t.sub = a.sub
  requests : ∀ r ∈ s.refreshes, s.RequestSigned r
  accesses : ∀ r ∈ s.accesses, r.token ∈ s.accessTokens

theorem mem_signed_refresh {t : RefreshToken} (h : t ∈ s.refreshTokens) :
    ⟨t.jti, t.exp⟩ ∈ s.signed :=
  List.mem_append_left _ (List.mem_map_of_mem h)

theorem Signed.keep (h : Signed s) (hid : s'.nextId = s.nextId)
    (hrefresh : s'.refreshTokens = s.refreshTokens) (haccess : s'.accessTokens = s.accessTokens)
    (hrequests : ∀ r ∈ s'.refreshes, r ∈ s.refreshes ∨ s.RequestSigned r)
    (haccesses : ∀ r ∈ s'.accesses, r.token ∈ s.accessTokens) : Signed s' := by
  have hsigned : s'.signed = s.signed := by simp only [signed, hrefresh, haccess]
  refine ⟨?_, ?_, ?_, ?_, ?_, ?_, fun r hr => ?_, ?_⟩
  · rw [hrefresh, hid]; exact h.refreshIds
  · rw [hsigned, hid]; exact h.ids
  · rw [hsigned]; exact h.unique
  · rw [hrefresh]; exact h.distinct
  · rw [hrefresh]; exact h.owner
  · rw [haccess, hrefresh]; exact h.accessOwner
  · have hold : s.RequestSigned r := (hrequests r hr).elim (h.requests r) id
    refine ⟨?_, ?_, ?_⟩
    · rw [hrefresh]; exact hold.token
    · rw [hsigned]; exact hold.old
    · rw [hsigned]; exact hold.revoking
  · rw [haccess]; exact haccesses

theorem Signed.move (h : Signed s) (hget : s.refreshes[i]? = some r) {stage : RefreshStage}
    (hid : s'.nextId = s.nextId) (hrefresh : s'.refreshTokens = s.refreshTokens)
    (haccess : s'.accessTokens = s.accessTokens) (haccesses : s'.accesses = s.accesses)
    (hrequests : s'.refreshes = s.refreshes.set i { r with stage })
    (hstage : ∀ o ttl, stage = .revokingOld o ttl → o ∈ s.signed) : Signed s' := by
  refine h.keep hid hrefresh haccess (fun r' hr' => ?_) (haccesses ▸ h.accesses)
  rw [hrequests] at hr'
  rcases List.mem_or_eq_of_mem_set hr' with hr' | rfl
  · exact Or.inl hr'
  · have hr := h.requests r (List.mem_of_getElem? hget)
    exact Or.inr ⟨hr.token, hr.old, hstage⟩

theorem Signed.mint (h : Signed s) {a : AccessToken} {t : RefreshToken}
    (hrefresh : s'.refreshTokens = s.refreshTokens ++ [t])
    (haccess : s'.accessTokens = s.accessTokens ++ [a])
    (ha : s.nextId ≤ a.jti ∧ a.jti < s'.nextId) (ht : s.nextId ≤ t.jti ∧ t.jti < s'.nextId)
    (hne : a.jti ≠ t.jti) (hfid : t.fid < s'.nextId)
    (hsame : t.fid = a.fid ∧ t.sub = a.sub)
    (howner : ∀ t' ∈ s.refreshTokens, t'.fid = t.fid → t'.sub = t.sub)
    (hrequests : ∀ r ∈ s'.refreshes, s.RequestSigned r)
    (haccesses : s'.accesses = s.accesses) : Signed s' := by
  have hmem : ∀ {o}, o ∈ s'.signed ↔ o ∈ s.signed ∨ o = ⟨t.jti, t.exp⟩ ∨ o = ⟨a.jti, a.exp⟩ := by
    intro o
    simp only [signed, hrefresh, haccess, List.map_append, List.map_cons, List.map_nil,
      List.mem_append, List.mem_singleton]
    tauto
  have hmemr : ∀ {t'}, t' ∈ s'.refreshTokens ↔ t' ∈ s.refreshTokens ∨ t' = t := by
    simp [hrefresh]
  have hold : ∀ {o}, o ∈ s.signed → o.jti < s.nextId := fun ho => h.ids _ ho
  refine ⟨fun t' ht' => ?_, fun o ho => ?_, fun o ho o' ho' heq => ?_, fun t₁ h₁ t₂ h₂ heq => ?_,
    fun t₁ h₁ t₂ h₂ heq => ?_, fun a' ha' => ?_, fun r hr => ?_, fun r hr => ?_⟩
  · rcases hmemr.mp ht' with ht' | rfl
    · have hlt := h.refreshIds t' ht'
      omega
    · exact ⟨ht.2, hfid⟩
  · rcases hmem.mp ho with ho | rfl | rfl
    · have hlt := hold ho
      omega
    · exact ht.2
    · exact ha.2
  · rcases hmem.mp ho with ho | rfl | rfl <;> rcases hmem.mp ho' with ho' | rfl | rfl
    · exact h.unique o ho o' ho' heq
    · have hlt := hold ho; simp only at heq; omega
    · have hlt := hold ho; simp only at heq; omega
    · have hlt := hold ho'; simp only at heq; omega
    · rfl
    · exact absurd heq.symm hne
    · have hlt := hold ho'; simp only at heq; omega
    · exact absurd heq hne
    · rfl
  · rcases hmemr.mp h₁ with h₁ | rfl <;> rcases hmemr.mp h₂ with h₂ | rfl
    · exact h.distinct t₁ h₁ t₂ h₂ heq
    · have hlt := h.refreshIds t₁ h₁; omega
    · have hlt := h.refreshIds t₂ h₂; omega
    · rfl
  · rcases hmemr.mp h₁ with h₁ | rfl <;> rcases hmemr.mp h₂ with h₂ | rfl
    · exact h.owner t₁ h₁ t₂ h₂ heq
    · exact howner t₁ h₁ heq
    · exact (howner t₂ h₂ heq.symm).symm
    · rfl
  · rw [haccess, List.mem_append, List.mem_singleton] at ha'
    rcases ha' with ha' | rfl
    · obtain ⟨t', ht', hfid', hsub'⟩ := h.accessOwner a' ha'
      exact ⟨t', hmemr.mpr (Or.inl ht'), hfid', hsub'⟩
    · exact ⟨t, hmemr.mpr (Or.inr rfl), hsame⟩
  · have hr := hrequests r hr
    exact ⟨hmemr.mpr (Or.inl hr.token), fun o ho => hmem.mpr (Or.inl (hr.old o ho)),
      fun o ttl hs => hmem.mpr (Or.inl (hr.revoking o ttl hs))⟩
  · rw [haccesses] at hr
    rw [haccess]
    exact List.mem_append_left _ (h.accesses r hr)

theorem signed_refresh (h : Signed s) (hget : s.refreshes[i]? = some r)
    (hr : RefreshStep settings s i r s') : Signed s' := by
  have hrequest := h.requests r (List.mem_of_getElem? hget)
  cases hr with
  | passFamily | passUser | passJti | refuse | detect | respond | revokeFamily | consume | revokeJti
  | revokeOld | mintAccess => exact h.move hget rfl rfl rfl rfl rfl (by simp)
  | retire hstage hnext =>
      refine h.move hget rfl rfl rfl rfl rfl ?_
      rintro o ttl rfl
      rcases hnext with hnext | ⟨old, hold, hnext⟩
      · cases hnext
      · cases hnext
        exact hrequest.old o hold
  | mintRefresh hstage =>
      have hids := h.refreshIds _ hrequest.token
      refine h.mint rfl rfl ⟨?_, ?_⟩ ⟨?_, ?_⟩ ?_ ?_ ⟨rfl, rfl⟩
        (fun t' ht' heq => h.owner t' ht' r.token hrequest.token heq) ?_ rfl <;>
        simp only [exchange, moveRefresh, Auth.createAccessToken, Auth.createRefreshToken]
      · omega
      · omega
      · omega
      · omega
      · omega
      · omega
      · intro r' hr'
        rcases List.mem_or_eq_of_mem_set hr' with hr' | rfl
        · exact h.requests r' hr'
        · exact ⟨hrequest.token, hrequest.old, by simp⟩

theorem signed_step {e : AuthEvent} (h : Signed s) (hstep : Step settings s e s') : Signed s' := by
  cases hstep with
  | tick => exact h.keep rfl rfl rfl (fun r hr => Or.inl hr) h.accesses
  | login =>
      refine h.mint rfl rfl ⟨?_, ?_⟩ ⟨?_, ?_⟩ ?_ ?_ ⟨rfl, rfl⟩ ?_ h.requests rfl <;>
        simp only [login, Auth.createAccessToken, Auth.createRefreshToken]
      · omega
      · omega
      · omega
      · omega
      · omega
      · omega
      · intro t' ht' heq
        have hlt := (h.refreshIds t' ht').2
        omega
  | present ht hexp hold =>
      refine h.keep rfl rfl rfl (fun r hr => ?_) h.accesses
      rcases List.mem_append.mp hr with hr | hr
      · exact Or.inl hr
      · obtain rfl := List.mem_singleton.mp hr
        exact Or.inr ⟨ht, hold, by simp⟩
  | refresh hget hr => exact signed_refresh h hget hr
  | drop hget => exact h.move hget rfl rfl rfl rfl rfl (by simp)
  | revokeSessions | readEpoch | setEpoch | returns =>
      exact h.keep rfl rfl rfl (fun r hr => Or.inl hr) h.accesses
  | presentAccess ht hexp =>
      refine h.keep rfl rfl rfl (fun r hr => Or.inl hr) fun r hr => ?_
      rcases List.mem_append.mp hr with hr | hr
      · exact h.accesses r hr
      · obtain rfl := List.mem_singleton.mp hr
        exact ht
  | @moveAccess i r stage hget =>
      refine h.keep rfl rfl rfl (fun r hr => Or.inl hr) fun r' hr' => ?_
      rcases List.mem_or_eq_of_mem_set hr' with hr' | rfl
      · exact h.accesses r' hr'
      · exact h.accesses r (List.mem_of_getElem? hget)
  | @accept i r hget hstage hlive =>
      refine h.keep rfl rfl rfl (fun r hr => Or.inl hr) fun r' hr' => ?_
      rcases List.mem_or_eq_of_mem_set hr' with hr' | rfl
      · exact h.accesses r' hr'
      · exact h.accesses r (List.mem_of_getElem? hget)

theorem signed_start : Signed start where
  refreshIds := by simp [start]
  ids := by simp [start, signed]
  unique := by simp [start, signed]
  distinct := by simp [start]
  owner := by simp [start]
  accessOwner := by simp [start]
  requests := by simp [start]
  accesses := by simp [start]

end Signed

end Sessions

end BTagent
