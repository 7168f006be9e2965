import BTagent.Auth.SingleUse

namespace BTagent

namespace RefreshStage

def passed : RefreshStage → Bool
  | jtiCheck | consuming | revokingJti _ | retiring | revokingOld .. | mintingAccess
  | mintingRefresh _ => true
  | _ => false

def mints : RefreshStage → Bool
  | mintingAccess | mintingRefresh _ => true
  | _ => false

end RefreshStage

namespace RevokeStage

def epoch : RevokeStage → Option ℕ
  | reading => none
  | setting e | returning e | returned e => some e

def stored : RevokeStage → Option ℕ
  | reading | setting _ => none
  | returning e | returned e => some e

def toStore : RevokeStage → Option ℕ
  | setting e => some e
  | _ => none

def isReturning : RevokeStage → Bool
  | returning _ => true
  | _ => false

end RevokeStage

namespace Sessions
open Auth

variable {settings : AuthSettings} {s s' : Sessions} {i : ℕ} {r : RefreshRequest}

-- A rotation of a login that a call ends is not under way when the call returns, and mints no pair
-- in a later second than the one the call read; of two calls for a user the one that read the
-- clock last stores last; and no token is checked longer than the refresh TTL after its `iat`.
def EndsInTime (settings : AuthSettings) (s : Sessions) : AuthEvent → Prop
  | .refreshStep i => ∀ r ∈ s.refreshes[i]?,
      (r.stage.mints = true → ∀ call ∈ s.revokes, r.token.fid ∈ call.fids →
        ∀ e ∈ call.stage.epoch, seconds s.now < e) ∧
      (r.stage = .userCheck → r.token.fid ∈ s.endedFids →
        s.now < (r.token.iat + settings.refreshTtl) * 1000000)
  | .revokeStep i => ∀ call ∈ s.revokes[i]?,
      (call.stage.isReturning = true → ∀ r ∈ s.refreshes, r.stage.passed = true →
        r.token.fid ∉ call.fids) ∧
      ∀ e ∈ call.stage.toStore, ∀ other ∈ s.revokes, other.user = call.user →
        ∀ e' ∈ other.stage.stored, e' ≤ e
  | .accessStep i => ∀ r ∈ s.accesses[i]?, r.stage = .userCheck → r.token.fid ∈ s.endedFids →
      s.now < (r.token.iat + settings.refreshTtl) * 1000000
  | _ => True

instance (s : Sessions) : ∀ e, Decidable (EndsInTime settings s e)
  | .refreshStep i => inferInstanceAs (Decidable (∀ r ∈ s.refreshes[i]?, _ ∧ _))
  | .revokeStep i => inferInstanceAs (Decidable (∀ call ∈ s.revokes[i]?, _ ∧ _))
  | .accessStep i => inferInstanceAs (Decidable (∀ r ∈ s.accesses[i]?, _))
  | .tick _ | .login _ | .refresh .. | .drop _ | .revokeSessions _ | .access _ => isTrue trivial

-- An `iat` that no call which has read the clock lets through.
def Issued (s : Sessions) (fid iat : ℕ) : Prop :=
  iat ≤ seconds s.now ∧
    ∀ call ∈ s.revokes, ∀ e ∈ call.stage.epoch, fid ∈ call.fids → iat < e

structure RequestEnds (s : Sessions) (r : RefreshRequest) : Prop where
  minting : ∀ accessNow, r.stage = .mintingRefresh accessNow →
    s.Issued r.token.fid (seconds accessNow)
  closed : r.stage.passed = true → r.token.fid ∉ s.endedFids

def Stored (settings : AuthSettings) (s : Sessions) (call : RevokeCall) (e : ℕ) : Prop :=
  settings.refreshTtl = 0 ∨ ∃ e' time, s.userEpochs call.user = some (e', time) ∧ e ≤ e' ∧
    (e + settings.refreshTtl - 1) * 1000 ≤ time

structure CallEnds (settings : AuthSettings) (s : Sessions) (call : RevokeCall) : Prop where
  owned : ∀ fid ∈ call.fids, ∃ t ∈ s.refreshTokens, t.fid = fid ∧ t.sub = call.user
  read : ∀ e ∈ call.stage.epoch, (e - 1) * 1000000 ≤ s.now
  stored : ∀ e ∈ call.stage.stored, s.Stored settings call e

structure LoggedOut (settings : AuthSettings) (s : Sessions) : Prop where
  refreshIssued : ∀ t ∈ s.refreshTokens, s.Issued t.fid t.iat
  accessIssued : ∀ t ∈ s.accessTokens, s.Issued t.fid t.iat
  requests : ∀ r ∈ s.refreshes, s.RequestEnds r
  calls : ∀ call ∈ s.revokes, s.CallEnds settings call
  never : s.afterLogout = []

theorem mem_endedFids {fid : ℕ} :
    fid ∈ s.endedFids ↔ ∃ call ∈ s.revokes, call.isReturned = true ∧ fid ∈ call.fids := by
  simp only [endedFids, List.mem_flatMap, List.mem_filter, and_assoc]

theorem seconds_mono {a b : ℕ} (h : a ≤ b) : seconds a ≤ seconds b :=
  Nat.div_le_div_right h

theorem Issued.mono {fid iat : ℕ} (h : s.Issued fid iat) (hnow : s.now ≤ s'.now)
    (hrevokes : s'.revokes = s.revokes) : s'.Issued fid iat := by
  constructor
  · exact Nat.le_trans h.1 (seconds_mono hnow)
  · rw [hrevokes]
    exact h.2

theorem stored_of_returned {call : RevokeCall} (h : call.isReturned = true) :
    ∃ e, e ∈ call.stage.epoch ∧ e ∈ call.stage.stored := by
  cases hstage : call.stage with
  | returned e => exact ⟨e, rfl, rfl⟩
  | reading | setting e | returning e => simp [RevokeCall.isReturned, hstage] at h

theorem LoggedOut.revoked {sub : UserId} {fid iat : ℕ} (h : LoggedOut settings s)
    (hended : fid ∈ s.endedFids) (hissued : s.Issued fid iat)
    (howner : ∀ t ∈ s.refreshTokens, t.fid = fid → t.sub = sub)
    (hnow : s.now < (iat + settings.refreshTtl) * 1000000) : s.isUserRevoked sub iat = true := by
  obtain ⟨call, hcall, hreturned, hfid⟩ := mem_endedFids.mp hended
  obtain ⟨e, hepoch, hstored⟩ := stored_of_returned hreturned
  have hends := h.calls call hcall
  obtain ⟨t, ht, htfid, htsub⟩ := hends.owned fid hfid
  have huser : sub = call.user := (howner t ht htfid).symm.trans htsub
  have hiat := hissued.2 call hcall e hepoch hfid
  have hle := hissued.1
  unfold seconds at hle
  rcases hends.stored e hstored with hzero | ⟨e', time, hentry, he, htime⟩
  · omega
  · have hlive : milliseconds s.now ≤ time := by
      unfold milliseconds
      omega
    rw [huser]
    simp only [isUserRevoked, Expiring.get_eq hentry hlive, decide_eq_true_eq]
    omega

theorem LoggedOut.keep (h : LoggedOut settings s) (hnow : s.now ≤ s'.now)
    (hrefresh : s'.refreshTokens = s.refreshTokens) (haccess : s'.accessTokens = s.accessTokens)
    (hrevokes : s'.revokes = s.revokes) (hepochs : s'.userEpochs = s.userEpochs)
    (hafter : s'.afterLogout = s.afterLogout)
    (hrequests : ∀ r ∈ s'.refreshes, r ∈ s.refreshes ∨ s.RequestEnds r) :
    LoggedOut settings s' := by
  have hended : s'.endedFids = s.endedFids := by rw [endedFids, hrevokes, endedFids]
  refine ⟨?_, ?_, fun r hr => ?_, ?_, hafter.trans h.never⟩
  · rw [hrefresh]
    exact fun t ht => (h.refreshIssued t ht).mono hnow hrevokes
  · rw [haccess]
    exact fun t ht => (h.accessIssued t ht).mono hnow hrevokes
  · have hold : s.RequestEnds r := (hrequests r hr).elim (h.requests r) id
    constructor
    · exact fun accessNow hs => (hold.minting accessNow hs).mono hnow hrevokes
    · rw [hended]
      exact hold.closed
  · rw [hrevokes]
    intro call hcall
    have hends := h.calls call hcall
    refine ⟨?_, fun e he => ?_, fun e he => ?_⟩
    · rw [hrefresh]
      exact hends.owned
    · have hread := hends.read e he
      omega
    · simpa only [Stored, hepochs] using hends.stored e he

theorem LoggedOut.move {stage : RefreshStage} (h : LoggedOut settings s)
    (hget : s.refreshes[i]? = some r) (hnow : s'.now = s.now)
    (hrefresh : s'.refreshTokens = s.refreshTokens) (haccess : s'.accessTokens = s.accessTokens)
    (hrevokes : s'.revokes = s.revokes) (hepochs : s'.userEpochs = s.userEpochs)
    (hafter : s'.afterLogout = s.afterLogout)
    (hrequests : s'.refreshes = s.refreshes.set i { r with stage })
    (hminting : ∀ accessNow, stage = .mintingRefresh accessNow →
      s.Issued r.token.fid (seconds accessNow))
    (hpassed : stage.passed = true → r.stage.passed = true ∨ r.token.fid ∉ s.endedFids) :
    LoggedOut settings s' := by
  refine h.keep (Nat.le_of_eq hnow.symm) hrefresh haccess hrevokes hepochs hafter fun r' hr' => ?_
  rw [hrequests] at hr'
  rcases List.mem_or_eq_of_mem_set hr' with hr' | rfl
  · exact Or.inl hr'
  · have hold := h.requests r (List.mem_of_getElem? hget)
    exact Or.inr ⟨hminting, fun hp => (hpassed hp).elim hold.closed id⟩

theorem LoggedOut.sign {a : AccessToken} {t : RefreshToken} (h : LoggedOut settings s)
    (hnow : s'.now = s.now) (hrefresh : s'.refreshTokens = s.refreshTokens ++ [t])
    (haccess : s'.accessTokens = s.accessTokens ++ [a])
    (hrevokes : s'.revokes = s.revokes) (hepochs : s'.userEpochs = s.userEpochs)
    (hafter : s'.afterLogout = s.afterLogout) (ht : s.Issued t.fid t.iat)
    (ha : s.Issued a.fid a.iat) (hrequests : ∀ r ∈ s'.refreshes, s.RequestEnds r) :
    LoggedOut settings s' := by
  have hended : s'.endedFids = s.endedFids := by rw [endedFids, hrevokes, endedFids]
  refine ⟨fun t' ht' => ?_, fun a' ha' => ?_, fun r hr => ?_, ?_, hafter.trans h.never⟩
  · rw [hrefresh, List.mem_append, List.mem_singleton] at ht'
    rcases ht' with ht' | rfl
    · exact (h.refreshIssued t' ht').mono (Nat.le_of_eq hnow.symm) hrevokes
    · exact ht.mono (Nat.le_of_eq hnow.symm) hrevokes
  · rw [haccess, List.mem_append, List.mem_singleton] at ha'
    rcases ha' with ha' | rfl
    · exact (h.accessIssued a' ha').mono (Nat.le_of_eq hnow.symm) hrevokes
    · exact ha.mono (Nat.le_of_eq hnow.symm) hrevokes
  · have hold := hrequests r hr
    constructor
    · exact fun accessNow hs => (hold.minting accessNow hs).mono (Nat.le_of_eq hnow.symm) hrevokes
    · rw [hended]
      exact hold.closed
  · rw [hrevokes]
    intro call hcall
    have hends := h.calls call hcall
    refine ⟨fun fid hfid => ?_, ?_, fun e he => ?_⟩
    · obtain ⟨t', ht', howned⟩ := hends.owned fid hfid
      exact ⟨t', by rw [hrefresh]; exact List.mem_append_left _ ht', howned⟩
    · rw [hnow]
      exact hends.read
    · simpa only [Stored, hepochs] using hends.stored e he

theorem LoggedOut.recall (h : LoggedOut settings s) (hrefresh : s'.refreshTokens = s.refreshTokens) (haccess : s'.accessTokens = s.accessTokens)
    (hrefreshes : s'.refreshes = s.refreshes) (hafter : s'.afterLogout = s.afterLogout)
    (hissued : ∀ {fid iat}, s.Issued fid iat → s'.Issued fid iat)
    (hended : ∀ r ∈ s.refreshes, r.stage.passed = true → r.token.fid ∉ s'.endedFids)
    (hcalls : ∀ call ∈ s'.revokes, s'.CallEnds settings call) : LoggedOut settings s' := by
  refine ⟨?_, ?_, ?_, hcalls, hafter.trans h.never⟩
  · rw [hrefresh]
    exact fun t ht => hissued (h.refreshIssued t ht)
  · rw [haccess]
    exact fun t ht => hissued (h.accessIssued t ht)
  · rw [hrefreshes]
    exact fun r hr => ⟨fun accessNow hs => hissued ((h.requests r hr).minting accessNow hs),
      hended r hr⟩

theorem ended_revokeSessions {user : UserId} :
    ({ s with revokes := s.revokes ++ [⟨user, s.fidsOf user, .reading⟩] } : Sessions).endedFids =
      s.endedFids := by
  simp [endedFids, RevokeCall.isReturned]

theorem ended_moveRevoke {call : RevokeCall} {stage : RevokeStage} {fid : ℕ}
    (hended : fid ∈ (s.moveRevoke i call stage).endedFids) :
    fid ∈ s.endedFids ∨ (RevokeCall.isReturned ⟨call.user, call.fids, stage⟩ = true ∧
      fid ∈ call.fids) := by
  obtain ⟨other, hother, hreturned, hfid⟩ := mem_endedFids.mp hended
  rcases List.mem_or_eq_of_mem_set hother with hother | rfl
  · exact Or.inl (mem_endedFids.mpr ⟨other, hother, hreturned, hfid⟩)
  · exact Or.inr ⟨hreturned, hfid⟩

theorem issued_moveRevoke {call : RevokeCall} {stage : RevokeStage} {fid iat : ℕ}
    (h : s.Issued fid iat)
    (hepoch : ∀ e ∈ stage.epoch, iat ≤ seconds s.now → fid ∈ call.fids → iat < e) :
    (s.moveRevoke i call stage).Issued fid iat :=
  ⟨h.1, Slots.forall_set h.2 fun e he => hepoch e he h.1⟩

theorem loggedOut_revokeSessions {user : UserId} (h : LoggedOut settings s) :
    LoggedOut settings { s with revokes := s.revokes ++ [⟨user, s.fidsOf user, .reading⟩] } := by
  refine h.recall rfl rfl rfl rfl (fun hissued => ?_) (fun r hr => ?_) fun call hcall => ?_
  · refine ⟨hissued.1, fun call hcall e he => ?_⟩
    rcases List.mem_append.mp hcall with hcall | hcall
    · exact hissued.2 call hcall e he
    · obtain rfl := List.mem_singleton.mp hcall
      cases he
  · rw [ended_revokeSessions]
    exact (h.requests r hr).closed
  · rcases List.mem_append.mp hcall with hcall | hcall
    · have hends := h.calls call hcall
      exact ⟨hends.owned, hends.read, hends.stored⟩
    · obtain rfl := List.mem_singleton.mp hcall
      refine ⟨fun fid hfid => ?_, fun e he => ?_, fun e he => ?_⟩
      · obtain ⟨t, ht, rfl⟩ := List.mem_map.mp hfid
        obtain ⟨hmem, hsub⟩ := List.mem_filter.mp ht
        exact ⟨t, hmem, rfl, by simpa using hsub⟩
      · cases he
      · cases he

theorem loggedOut_read {call : RevokeCall} (h : LoggedOut settings s)
    (hget : s.revokes[i]? = some call) :
    LoggedOut settings (s.moveRevoke i call (.setting (seconds s.now + 1))) := by
  have hends := h.calls call (List.mem_of_getElem? hget)
  refine h.recall rfl rfl rfl rfl (fun hissued => issued_moveRevoke hissued ?_)
    (fun r hr hp hended => ?_) ?_
  · rintro e ⟨⟩ hle -
    omega
  · rcases ended_moveRevoke hended with hended | ⟨hreturned, -⟩
    · exact (h.requests r hr).closed hp hended
    · cases hreturned
  · refine Slots.forall_set (fun other hother => ?_) ⟨hends.owned, ?_, ?_⟩
    · have hold := h.calls other hother
      exact ⟨hold.owned, hold.read, hold.stored⟩
    · rintro e ⟨⟩
      unfold seconds
      simp only [moveRevoke]
      omega
    · rintro e ⟨⟩

theorem entry_lasts {now e e' ttl : ℕ} (hread : (e - 1) * 1000000 ≤ now) (hle : e' ≤ e) :
    (e' + ttl - 1) * 1000 ≤ milliseconds now + ttl * 1000 := by
  have hms : (e - 1) * 1000 ≤ milliseconds now := by
    apply (Nat.le_div_iff_mul_le (by decide)).mpr
    rwa [Nat.mul_assoc]
  have hsub : e' + ttl - 1 ≤ e - 1 + ttl := by omega
  calc
    (e' + ttl - 1) * 1000 ≤ (e - 1 + ttl) * 1000 := Nat.mul_le_mul_right _ hsub
    _ = (e - 1) * 1000 + ttl * 1000 := Nat.add_mul _ _ _
    _ ≤ milliseconds now + ttl * 1000 := Nat.add_le_add_right hms _

theorem loggedOut_set {call : RevokeCall} {e : ℕ} (h : LoggedOut settings s)
    (hget : s.revokes[i]? = some call) (hstage : call.stage = .setting e)
    (hlast : ∀ other ∈ s.revokes, other.user = call.user → ∀ e' ∈ other.stage.stored, e' ≤ e) :
    LoggedOut settings { s.moveRevoke i call (.returning e) with
      userEpochs := setEx s.userEpochs s.now call.user e settings.refreshTtl } := by
  have hmem := List.mem_of_getElem? hget
  have hends := h.calls call hmem
  have hread := hends.read e (by simp [hstage, RevokeStage.epoch])
  have hnew : ∀ {other : RevokeCall} {e'}, other.user = call.user → e' ≤ e →
      Stored settings { s.moveRevoke i call (.returning e) with
        userEpochs := setEx s.userEpochs s.now call.user e settings.refreshTtl } other e' := by
    intro other e' huser hle
    by_cases hzero : settings.refreshTtl = 0
    · exact Or.inl hzero
    · refine Or.inr ⟨e, milliseconds s.now + settings.refreshTtl * 1000, ?_, hle,
        entry_lasts hread hle⟩
      simp only [huser, setEx, if_neg hzero, Expiring.set_self]
  refine h.recall rfl rfl rfl rfl (fun hissued => ?_) (fun r hr hp hended => ?_) ?_
  · refine issued_moveRevoke hissued ?_
    rintro e' ⟨⟩ - hfid
    exact hissued.2 call hmem e (by simp [hstage, RevokeStage.epoch]) hfid
  · rcases ended_moveRevoke hended with hended | ⟨hreturned, -⟩
    · exact (h.requests r hr).closed hp hended
    · cases hreturned
  · refine Slots.forall_set (fun other hother => ?_) ⟨hends.owned, ?_, ?_⟩
    · have hold := h.calls other hother
      refine ⟨hold.owned, hold.read, fun e' he' => ?_⟩
      rcases eq_or_ne other.user call.user with huser | huser
      · exact hnew huser (hlast other hother huser e' he')
      · rcases hold.stored e' he' with hzero | hentry
        · exact Or.inl hzero
        · exact Or.inr (by simpa only [setEx_ne huser] using hentry)
    · rintro e' ⟨⟩
      exact hread
    · rintro e' ⟨⟩
      exact hnew rfl (Nat.le_refl _)

theorem loggedOut_returns {call : RevokeCall} {e : ℕ} (h : LoggedOut settings s)
    (hget : s.revokes[i]? = some call) (hstage : call.stage = .returning e)
    (hdone : ∀ r ∈ s.refreshes, r.stage.passed = true → r.token.fid ∉ call.fids) :
    LoggedOut settings (s.moveRevoke i call (.returned e)) := by
  have hmem := List.mem_of_getElem? hget
  have hends := h.calls call hmem
  refine h.recall rfl rfl rfl rfl (fun hissued => issued_moveRevoke hissued ?_)
    (fun r hr hp hended => ?_) ?_
  · rintro e' ⟨⟩ - hfid
    exact hissued.2 call hmem e (by simp [hstage, RevokeStage.epoch]) hfid
  · rcases ended_moveRevoke hended with hended | ⟨-, hfid⟩
    · exact (h.requests r hr).closed hp hended
    · exact hdone r hr hp hfid
  · refine Slots.forall_set (fun other hother => ?_) ⟨hends.owned, ?_, ?_⟩
    · have hold := h.calls other hother
      exact ⟨hold.owned, hold.read, hold.stored⟩
    · rintro e' ⟨⟩
      exact hends.read e (by simp [hstage, RevokeStage.epoch])
    · rintro e' ⟨⟩
      exact hends.stored e (by simp [hstage, RevokeStage.stored])

theorem loggedOut_login {user : UserId} (h : LoggedOut settings s) (hsigned : Signed s) :
    LoggedOut settings (s.login settings user) := by
  have hissued : s.Issued s.nextId (seconds s.now) := by
    refine ⟨Nat.le_refl _, fun call hcall e he hfid => ?_⟩
    obtain ⟨t, ht, htfid, -⟩ := (h.calls call hcall).owned _ hfid
    have hlt := (hsigned.refreshIds t ht).2
    omega
  exact h.sign rfl rfl rfl rfl rfl rfl hissued hissued h.requests

theorem loggedOut_exchange {accessNow : ℕ} (h : LoggedOut settings s)
    (hget : s.refreshes[i]? = some r) (hstage : r.stage = .mintingRefresh accessNow)
    (hread : ∀ call ∈ s.revokes, r.token.fid ∈ call.fids → ∀ e ∈ call.stage.epoch,
      seconds s.now < e) :
    LoggedOut settings ((s.moveRefresh i r .done).exchange settings r accessNow) := by
  have hmem := List.mem_of_getElem? hget
  have hends := h.requests r hmem
  have hnot : r.token.fid ∉ s.endedFids := hends.closed (by simp [hstage, RefreshStage.passed])
  have hissued : s.Issued r.token.fid (seconds s.now) :=
    ⟨Nat.le_refl _, fun call hcall e he hfid => hread call hcall hfid e he⟩
  refine h.sign rfl rfl rfl rfl rfl ?_ hissued (hends.minting accessNow hstage) ?_
  · exact if_neg hnot
  · intro r' hr'
    rcases List.mem_or_eq_of_mem_set hr' with hr' | rfl
    · exact h.requests r' hr'
    · exact ⟨by simp, by simp [RefreshStage.passed]⟩

theorem loggedOut_refresh (h : LoggedOut settings s) (hsigned : Signed s)
    (hget : s.refreshes[i]? = some r) (hg : EndsInTime settings s (.refreshStep i))
    (hstep : RefreshStep settings s i r s') : LoggedOut settings s' := by
  have hmem := List.mem_of_getElem? hget
  obtain ⟨hmints, htime⟩ := hg r hget
  cases hstep with
  | passFamily | refuse | detect | respond | revokeFamily =>
      exact h.move hget rfl rfl rfl rfl rfl rfl rfl (by simp) (by simp [RefreshStage.passed])
  | passUser hstage hlive =>
      refine h.move hget rfl rfl rfl rfl rfl rfl rfl (by simp) fun _ => Or.inr fun hended => ?_
      have htoken := (hsigned.requests r hmem).token
      have hrevoked := h.revoked hended (h.refreshIssued _ htoken)
        (fun t ht heq => hsigned.owner t ht _ htoken heq) (htime hstage hended)
      rw [hrevoked] at hlive
      cases hlive
  | passJti hstage | consume hstage | revokeJti hstage | revokeOld hstage =>
      exact h.move hget rfl rfl rfl rfl rfl rfl rfl (by simp)
        fun _ => Or.inl (by simp [hstage, RefreshStage.passed])
  | retire hstage hnext =>
      refine h.move hget rfl rfl rfl rfl rfl rfl rfl ?_
        fun _ => Or.inl (by simp [hstage, RefreshStage.passed])
      rintro accessNow rfl
      rcases hnext with hnext | ⟨old, -, hnext⟩ <;> cases hnext
  | mintAccess hstage =>
      refine h.move hget rfl rfl rfl rfl rfl rfl rfl ?_
        fun _ => Or.inl (by simp [hstage, RefreshStage.passed])
      rintro accessNow ⟨⟩
      refine ⟨Nat.le_refl _, fun call hcall e he hfid => ?_⟩
      exact hmints (by simp [hstage, RefreshStage.mints]) call hcall hfid e he
  | mintRefresh hstage =>
      exact loggedOut_exchange h hget hstage (hmints (by simp [hstage, RefreshStage.mints]))

theorem loggedOut_accept {r : AccessRequest} (h : LoggedOut settings s) (hsigned : Signed s)
    (hget : s.accesses[i]? = some r) (hstage : r.stage = .userCheck)
    (hlive : s.isUserRevoked r.token.sub r.token.iat = false)
    (hg : EndsInTime settings s (.accessStep i)) : r.token.fid ∉ s.endedFids := by
  intro hended
  have htoken := hsigned.accesses r (List.mem_of_getElem? hget)
  obtain ⟨t, ht, hfid, hsub⟩ := hsigned.accessOwner _ htoken
  have howner : ∀ t' ∈ s.refreshTokens, t'.fid = r.token.fid → t'.sub = r.token.sub :=
    fun t' ht' heq => (hsigned.owner t' ht' t ht (heq.trans hfid.symm)).trans hsub
  have hrevoked := h.revoked hended (h.accessIssued _ htoken) howner (hg r hget hstage hended)
  rw [hrevoked] at hlive
  cases hlive

theorem loggedOut_step {e : AuthEvent} (h : LoggedOut settings s) (hsigned : Signed s)
    (hg : EndsInTime settings s e) (hstep : Step settings s e s') : LoggedOut settings s' := by
  cases hstep with
  | tick =>
      exact h.keep (Nat.le_add_right _ _) rfl rfl rfl rfl rfl fun r hr => Or.inl hr
  | login => exact loggedOut_login h hsigned
  | present ht hexp hold =>
      refine h.keep (Nat.le_refl _) rfl rfl rfl rfl rfl fun r hr => ?_
      rcases List.mem_append.mp hr with hr | hr
      · exact Or.inl hr
      · obtain rfl := List.mem_singleton.mp hr
        exact Or.inr ⟨by simp, by simp [RefreshStage.passed]⟩
  | refresh hget hr => exact loggedOut_refresh h hsigned hget hg hr
  | drop hget =>
      exact h.move hget rfl rfl rfl rfl rfl rfl rfl (by simp) (by simp [RefreshStage.passed])
  | revokeSessions => exact loggedOut_revokeSessions h
  | readEpoch hget hstage => exact loggedOut_read h hget
  | setEpoch hget hstage =>
      refine loggedOut_set h hget hstage ((hg _ hget).2 _ ?_)
      simp [hstage, RevokeStage.toStore]
  | returns hget hstage =>
      refine loggedOut_returns h hget hstage ((hg _ hget).1 ?_)
      simp [hstage, RevokeStage.isReturning]
  | presentAccess | moveAccess =>
      exact h.keep (Nat.le_refl _) rfl rfl rfl rfl rfl fun r hr => Or.inl hr
  | accept hget hstage hlive =>
      refine h.keep (Nat.le_refl _) rfl rfl rfl rfl ?_ fun r hr => Or.inl hr
      exact if_neg (loggedOut_accept h hsigned hget hstage hlive hg)

theorem loggedOut_start : LoggedOut settings start where
  refreshIssued := by simp [start]
  accessIssued := by simp [start]
  requests := by simp [start]
  calls := by simp [start]
  never := rfl

theorem forced_logout_complete {es : List AuthEvent}
    (hrun : (machine settings).run start es = some s)
    (hguard : (machine settings).Along (EndsInTime settings) start es) : s.afterLogout = [] := by
  have hinv : Signed s ∧ LoggedOut settings s := by
    refine Machine.invariant_along _ (I := fun s => Signed s ∧ LoggedOut settings s) ?_
      ⟨signed_start, loggedOut_start⟩ hguard hrun
    intro s e s' ⟨hsigned, h⟩ hg hstep
    have hcases := step_cases hstep
    exact ⟨signed_step hsigned hcases, loggedOut_step h hsigned hg hcases⟩
  exact hinv.2.never

namespace Refreshing

def logout (i : ℕ) : List AuthEvent := .revokeSessions "ana" :: List.replicate 3 (.revokeStep i)

def use (i k : ℕ) : List AuthEvent := .access k :: List.replicate 2 (.accessStep i)

-- The rotation passes its user check before the call and mints its pair two seconds after it.
def rotatedPast : List AuthEvent :=
  .login "ana" :: .refresh 0 none :: steps 0 2 ++ logout 0 ++ .tick 2000000 :: steps 0 6 ++ use 0 1

-- The call that read the clock first stores its epoch last.
def overtaken : List AuthEvent :=
  .login "ana" :: .revokeSessions "ana" :: .revokeStep 0 :: .tick 5000000 :: .login "ana" ::
    logout 1 ++ .revokeStep 0 :: use 0 1

def loggedOut : List AuthEvent :=
  .login "ana" :: .tick 5000000 :: rotation 0 0 ++ .tick 5000000 :: logout 0 ++
    .tick 5000000 :: use 0 1 ++ .refresh 1 none :: steps 1 2

end Refreshing

theorem forced_logout_incomplete :
    (∃ s ∈ Refreshing.M.run start Refreshing.rotatedPast,
      ∃ t ∈ s.accessTokens, t.jti ∈ s.afterLogout) ∧
    ∃ s ∈ Refreshing.M.run start Refreshing.overtaken,
      ∃ t ∈ s.accessTokens, t.jti ∈ s.afterLogout :=
  ⟨by decide, by decide⟩

theorem forced_logout_complete_ana :
    ∃ s, Refreshing.M.run start Refreshing.loggedOut = some s ∧ s.endedFids ≠ [] ∧
      s.afterLogout = [] := by
  have hsome : (Refreshing.M.run start Refreshing.loggedOut).isSome := by decide
  obtain ⟨s, hrun⟩ := Option.isSome_iff_exists.mp hsome
  refine ⟨s, hrun, ?_, forced_logout_complete hrun (by decide)⟩
  have hended : ∀ s ∈ Refreshing.M.run start Refreshing.loggedOut, s.endedFids ≠ [] := by
    decide
  exact hended s hrun

end Sessions

end BTagent
