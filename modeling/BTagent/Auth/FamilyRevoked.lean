import BTagent.Auth.SingleUse

namespace BTagent

namespace RefreshStage

def inFlight : RefreshStage → Bool
  | familyCheck | done => false
  | _ => true

def responds : RefreshStage → Bool
  | reuseDetected | revokingFamily _ => true
  | _ => false

end RefreshStage

namespace Sessions
open Auth

variable {settings : AuthSettings} {s s' : Sessions} {i : ℕ} {r : RefreshRequest}

-- A reuse is detected while no other request of the family is in flight; the answer to it is not
-- dropped; and the family is checked after the answer, not in the replayed token's last second.
def FamilyCheckedInTime (s : Sessions) : AuthEvent → Prop
  | .refreshStep i => ∀ r ∈ s.refreshes[i]?,
      (r.stage = .jtiCheck → s.isRevoked r.token.jti = true →
        ∀ other ∈ s.refreshes.eraseIdx i, other.stage.inFlight = true →
          other.token.fid ≠ r.token.fid) ∧
      (r.stage = .familyCheck → ∀ reuse ∈ s.reuses, reuse.1 = r.token.fid →
        (∀ other ∈ s.refreshes, other.stage.responds = true → other.token.fid ≠ r.token.fid) ∧
          s.now + 1000000 ≤ reuse.2 * 1000000)
  | .drop i => ∀ r ∈ s.refreshes[i]?, r.stage.responds = false
  | _ => True

instance (s : Sessions) : ∀ e, Decidable (FamilyCheckedInTime s e)
  | .refreshStep i => inferInstanceAs (Decidable (∀ r ∈ s.refreshes[i]?, _ ∧ _))
  | .drop i => inferInstanceAs (Decidable (∀ r ∈ s.refreshes[i]?, _))
  | .tick _ | .login _ | .refresh .. | .revokeSessions _ | .revokeStep _ | .access _
  | .accessStep _ => isTrue trivial

structure FamilyDead (s : Sessions) : Prop where
  responding : ∀ r ∈ s.refreshes, r.stage.inFlight = true → ∀ reuse ∈ s.reuses,
    reuse.1 = r.token.fid → r.stage.responds = true ∧ reuse.2 = r.token.exp
  timed : ∀ r ∈ s.refreshes, ∀ ttl, r.stage = .revokingFamily ttl →
    ∃ c ≤ s.now, ttl = remainingTtl r.token.exp c
  lasting : ∀ reuse ∈ s.reuses,
    (∃ r ∈ s.refreshes, r.stage.responds = true ∧ r.token.fid = reuse.1) ∨
      Lasting s.revokedFamilies s.now reuse.2 reuse.1
  never : s.afterReuse = []

theorem FamilyDead.not_reused (h : FamilyDead s) (hr : r ∈ s.refreshes)
    (hflight : r.stage.inFlight = true) (hno : r.stage.responds = false) :
    ∀ reuse ∈ s.reuses, reuse.1 ≠ r.token.fid := by
  intro reuse hreuse heq
  have hresponds := (h.responding r hr hflight reuse hreuse heq).1
  rw [hno] at hresponds
  cases hresponds

theorem FamilyDead.move {stage : RefreshStage} (h : FamilyDead s) (hget : s.refreshes[i]? = some r)
    (hnow : s'.now = s.now) (hfamilies : s'.revokedFamilies = s.revokedFamilies)
    (hreuses : s'.reuses = s.reuses) (hafter : s'.afterReuse = s.afterReuse)
    (hrequests : s'.refreshes = s.refreshes.set i { r with stage })
    (hold : r.stage.responds = true → stage.responds = true)
    (hnew : stage.inFlight = true → ∀ reuse ∈ s.reuses, reuse.1 = r.token.fid →
      stage.responds = true ∧ reuse.2 = r.token.exp)
    (htimed : ∀ ttl, stage = .revokingFamily ttl → ∃ c ≤ s.now, ttl = remainingTtl r.token.exp c) :
    FamilyDead s' := by
  refine ⟨?_, ?_, fun reuse hreuse => ?_, hafter.trans h.never⟩
  · rw [hrequests, hreuses]
    exact Slots.forall_set h.responding hnew
  · rw [hrequests, hnow]
    exact Slots.forall_set h.timed htimed
  · rw [hreuses] at hreuse
    rw [hrequests, hfamilies, hnow]
    rcases h.lasting reuse hreuse with ⟨other, hother, hresponds, hfid⟩ | hlast
    · obtain ⟨k, hk⟩ := List.mem_iff_getElem?.mp hother
      have hlt := (List.getElem?_eq_some_iff.mp hk).1
      refine Or.inl ?_
      rcases eq_or_ne i k with rfl | hne
      · rw [hget] at hk
        cases hk
        refine ⟨_, List.mem_of_getElem? (List.getElem?_set_self hlt), hold hresponds, hfid⟩
      · refine ⟨other, List.mem_of_getElem? (i := k) ?_, hresponds, hfid⟩
        rw [List.getElem?_set_ne hne, hk]
    · exact Or.inr hlast

theorem FamilyDead.keep (h : FamilyDead s) (hnow : s.now ≤ s'.now)
    (hfamilies : s'.revokedFamilies = s.revokedFamilies) (hreuses : s'.reuses = s.reuses)
    (hafter : s'.afterReuse = s.afterReuse)
    (hrequests : s'.refreshes = s.refreshes ∨
      ∃ t old, s'.refreshes = s.refreshes ++ [⟨t, old, .familyCheck⟩]) : FamilyDead s' := by
  have hmem : ∀ r ∈ s'.refreshes, r ∈ s.refreshes ∨ r.stage = .familyCheck := by
    intro r hr
    rcases hrequests with heq | ⟨t, old, heq⟩ <;> rw [heq] at hr
    · exact Or.inl hr
    · rcases List.mem_append.mp hr with hr | hr
      · exact Or.inl hr
      · obtain rfl := List.mem_singleton.mp hr
        exact Or.inr rfl
  refine ⟨fun r hr hflight => ?_, fun r hr ttl ht => ?_, fun reuse hreuse => ?_,
    hafter.trans h.never⟩
  · rw [hreuses]
    rcases hmem r hr with hr | hs
    · exact h.responding r hr hflight
    · simp [hs, RefreshStage.inFlight] at hflight
  · rcases hmem r hr with hr | hs
    · obtain ⟨c, hc, heq⟩ := h.timed r hr ttl ht
      exact ⟨c, Nat.le_trans hc hnow, heq⟩
    · simp [hs] at ht
  · rw [hreuses] at hreuse
    rw [hfamilies]
    rcases h.lasting reuse hreuse with ⟨r, hr, hresponds⟩ | hlast
    · refine Or.inl ⟨r, ?_, hresponds⟩
      rcases hrequests with heq | ⟨t, old, heq⟩ <;> rw [heq]
      · exact hr
      · exact List.mem_append_left _ hr
    · exact Or.inr (hlast.mono hnow)

theorem dead_detect (h : FamilyDead s) (hget : s.refreshes[i]? = some r)
    (hstage : r.stage = .jtiCheck)
    (hg : ∀ other ∈ s.refreshes.eraseIdx i, other.stage.inFlight = true →
      other.token.fid ≠ r.token.fid) :
    FamilyDead { s.moveRefresh i r .reuseDetected with
      reuses := s.reuses ++ [(r.token.fid, r.token.exp)] } := by
  have hr := List.mem_of_getElem? hget
  have hlt := (List.getElem?_eq_some_iff.mp hget).1
  have hnot := h.not_reused hr (by simp [hstage, RefreshStage.inFlight])
    (by simp [hstage, RefreshStage.responds])
  have hmoved : FamilyDead (s.moveRefresh i r .reuseDetected) :=
    h.move hget rfl rfl rfl rfl rfl (by simp [RefreshStage.responds])
      (fun _ reuse hreuse heq => absurd heq (hnot reuse hreuse)) (by simp)
  refine ⟨fun r' hr' hflight reuse hreuse hfid => ?_, hmoved.timed, fun reuse hreuse => ?_,
    hmoved.never⟩
  · rcases List.mem_append.mp hreuse with hreuse | hreuse
    · exact hmoved.responding r' hr' hflight reuse hreuse hfid
    · obtain rfl := List.mem_singleton.mp hreuse
      obtain ⟨k, hk⟩ := List.mem_iff_getElem?.mp hr'
      rcases Slots.getElem?_set_cases hk with ⟨-, rfl⟩ | ⟨hne, hk⟩
      · exact ⟨rfl, rfl⟩
      · have hmem : r' ∈ s.refreshes.eraseIdx i := List.mem_eraseIdx_iff_getElem?.mpr ⟨k, hne, hk⟩
        exact absurd hfid.symm (hg r' hmem hflight)
  · rcases List.mem_append.mp hreuse with hreuse | hreuse
    · exact hmoved.lasting reuse hreuse
    · obtain rfl := List.mem_singleton.mp hreuse
      exact Or.inl ⟨{ r with stage := .reuseDetected },
        List.mem_of_getElem? (List.getElem?_set_self hlt), rfl, rfl⟩

theorem dead_revoke {ttl : ℕ} (h : FamilyDead s) (hget : s.refreshes[i]? = some r)
    (hstage : r.stage = .revokingFamily ttl) :
    FamilyDead { s.moveRefresh i r .done with
      revokedFamilies := setEx s.revokedFamilies s.now r.token.fid () ttl } := by
  have hr := List.mem_of_getElem? hget
  obtain ⟨c, hc, rfl⟩ := h.timed r hr ttl hstage
  refine ⟨?_, ?_, fun reuse hreuse => ?_, h.never⟩
  · exact Slots.forall_set h.responding (by simp [RefreshStage.inFlight])
  · exact Slots.forall_set h.timed (by simp)
  · rcases eq_or_ne reuse.1 r.token.fid with heq | hne
    · have hexp := (h.responding r hr (by simp [hstage, RefreshStage.inFlight]) reuse hreuse heq).2
      refine Or.inr ?_
      rw [hexp, heq]
      exact lasting_setEx hc
    · rcases h.lasting reuse hreuse with ⟨other, hother, hresponds, hfid⟩ | hlast
      · obtain ⟨k, hk⟩ := List.mem_iff_getElem?.mp hother
        refine Or.inl ⟨other, List.mem_of_getElem? (i := k) ?_, hresponds, hfid⟩
        have hki : i ≠ k := by
          rintro rfl
          rw [hget] at hk
          cases hk
          exact hne hfid.symm
        change (s.refreshes.set i _)[k]? = some other
        rw [List.getElem?_set_ne hki, hk]
      · exact Or.inr (hlast.setEx hc fun heq => absurd heq hne)

theorem dead_refresh (h : FamilyDead s) (hget : s.refreshes[i]? = some r)
    (hg : FamilyCheckedInTime s (.refreshStep i)) (hstep : RefreshStep settings s i r s') :
    FamilyDead s' := by
  have hr := List.mem_of_getElem? hget
  obtain ⟨hdetect, hcheck⟩ := hg r hget
  have hother : r.stage.inFlight = true → r.stage.responds = false → ∀ {stage : RefreshStage},
      stage.inFlight = true → ∀ reuse ∈ s.reuses, reuse.1 = r.token.fid →
        stage.responds = true ∧ reuse.2 = r.token.exp :=
    fun hflight hno _ _ reuse hreuse heq => absurd heq (h.not_reused hr hflight hno reuse hreuse)
  cases hstep with
  | passFamily hstage hlive =>
      refine h.move hget rfl rfl rfl rfl rfl (by simp [hstage, RefreshStage.responds]) ?_ (by simp)
      intro _ reuse hreuse heq
      obtain ⟨hnone, htime⟩ := hcheck hstage reuse hreuse heq
      rcases h.lasting reuse hreuse with ⟨other, ho, hresponds, hfid⟩ | hlast
      · exact absurd (hfid.trans heq) (hnone other ho hresponds)
      · have hfound := heq ▸ hlast.get htime
        simp [isFamilyRevoked, hfound] at hlive
  | detect hstage hdead => exact dead_detect h hget hstage (hdetect hstage hdead)
  | respond hstage =>
      refine h.move hget rfl rfl rfl rfl rfl (fun _ => rfl) (fun _ reuse hreuse heq => ⟨rfl, ?_⟩) ?_
      · exact (h.responding r hr (by simp [hstage, RefreshStage.inFlight]) reuse hreuse heq).2
      · rintro ttl ⟨⟩
        exact ⟨s.now, Nat.le_refl _, rfl⟩
  | revokeFamily hstage => exact dead_revoke h hget hstage
  | refuse hstage =>
      refine h.move hget rfl rfl rfl rfl rfl (fun hresponds => ?_)
        (by simp [RefreshStage.inFlight]) (by simp)
      rcases hstage with hstage | hstage <;> simp [hstage, RefreshStage.responds] at hresponds
  | passUser hstage | passJti hstage | consume hstage | revokeJti hstage | revokeOld hstage
  | mintAccess hstage =>
      exact h.move hget rfl rfl rfl rfl rfl (by simp [hstage, RefreshStage.responds])
        (hother (by simp [hstage, RefreshStage.inFlight]) (by simp [hstage, RefreshStage.responds]))
        (by simp)
  | retire hstage hnext =>
      refine h.move hget rfl rfl rfl rfl rfl (by simp [hstage, RefreshStage.responds])
        (hother (by simp [hstage, RefreshStage.inFlight]) (by simp [hstage, RefreshStage.responds]))
        ?_
      rintro ttl rfl
      rcases hnext with hnext | ⟨old, -, hnext⟩ <;> cases hnext
  | mintRefresh hstage =>
      have hnot := h.not_reused hr (by simp [hstage, RefreshStage.inFlight])
        (by simp [hstage, RefreshStage.responds])
      refine h.move hget rfl rfl rfl ?_ rfl (by simp [hstage, RefreshStage.responds])
        (by simp [RefreshStage.inFlight]) (by simp)
      have hmem : r.token.fid ∉ s.reuses.map Prod.fst := by
        intro hm
        obtain ⟨reuse, hreuse, heq⟩ := List.mem_map.mp hm
        exact hnot reuse hreuse heq
      simp only [exchange, moveRefresh, hmem, if_false]

theorem dead_step {e : AuthEvent} (h : FamilyDead s) (hg : FamilyCheckedInTime s e)
    (hstep : Step settings s e s') : FamilyDead s' := by
  cases hstep with
  | tick => exact h.keep (Nat.le_add_right _ _) rfl rfl rfl (Or.inl rfl)
  | present ht hexp hold => exact h.keep (Nat.le_refl _) rfl rfl rfl (Or.inr ⟨_, _, rfl⟩)
  | refresh hget hr => exact dead_refresh h hget hg hr
  | @drop i r hget =>
      have hno : r.stage.responds = false := hg r hget
      exact h.move hget rfl rfl rfl rfl rfl (by simp [hno]) (by simp [RefreshStage.inFlight])
        (by simp)
  | login | revokeSessions | readEpoch | setEpoch | returns | presentAccess | moveAccess | accept =>
      exact h.keep (Nat.le_refl _) rfl rfl rfl (Or.inl rfl)

theorem dead_start : FamilyDead start where
  responding := by simp [start]
  timed := by simp [start]
  lasting := by simp [start]
  never := rfl

theorem reused_family_dies {es : List AuthEvent} (hrun : (machine settings).run start es = some s)
    (hguard : (machine settings).Along FamilyCheckedInTime start es) : s.afterReuse = [] := by
  have hinv : FamilyDead s := by
    refine Machine.invariant_along _ (I := FamilyDead) ?_ dead_start hguard hrun
    intro s e s' h hg hstep
    exact dead_step h hg (step_cases hstep)
  exact hinv.never

namespace Refreshing

-- The thief's first rotation is under way while the replay is detected.
def replayedInFlight : List AuthEvent :=
  .login "ana" :: rotation 0 0 ++ .refresh 1 none :: steps 1 3 ++ .refresh 0 none :: steps 2 5 ++
    steps 1 5

-- The family is revoked for what is left of the replayed token, which is less than its successor.
def outlived : List AuthEvent :=
  .login "ana" :: .tick 300000000000 :: rotation 0 0 ++ .refresh 0 none :: steps 1 5 ++
    .tick 400000000000 :: rotation 2 1

def stolen : List AuthEvent :=
  .login "ana" :: .tick 5000000 :: rotation 0 0 ++ .tick 5000000 :: .refresh 0 none :: steps 1 5 ++
    .tick 5000000 :: .refresh 1 none :: steps 2 1

end Refreshing

theorem reused_family_lives :
    (∃ s ∈ Refreshing.M.run start Refreshing.replayedInFlight,
      ∃ t ∈ s.refreshTokens, t.jti ∈ s.afterReuse ∧ accepts t.exp s.now = true) ∧
    ∃ s ∈ Refreshing.M.run start Refreshing.outlived,
      ∃ t ∈ s.refreshTokens, t.jti ∈ s.afterReuse ∧ accepts t.exp s.now = true :=
  ⟨by decide, by decide⟩

theorem reused_family_dies_stolen :
    ∃ s, Refreshing.M.run start Refreshing.stolen = some s ∧ s.reuses ≠ [] ∧ s.afterReuse = [] := by
  have hsome : (Refreshing.M.run start Refreshing.stolen).isSome := by decide
  obtain ⟨s, hrun⟩ := Option.isSome_iff_exists.mp hsome
  refine ⟨s, hrun, ?_, reused_family_dies hrun (by decide)⟩
  have hreused : ∀ s ∈ Refreshing.M.run start Refreshing.stolen, s.reuses ≠ [] := by
    decide
  exact hreused s hrun

end Sessions

end BTagent
