import BTagent.Hunt.IdentityGrants

namespace BTagent

namespace IngestDb
open IdentityGrants

-- Every session can still commit its finding, and none has been refused.
structure Unbroken (s : IngestDb) : Prop where
  usable : ∀ i, s.usable i = true
  kept : s.lost = []

-- The flush of a grant is of a row that the driver and the database take, and where it is an INSERT
-- no row of the tuple has been committed since the SELECT.
def Unopposed (refused : StoredGrant → Bool) (s : IngestDb) : IngestEvent → Prop
  | .write i newId =>
      match s.stage i, s.grants.transactions[i]? with
      | .looked finding fields existing, some x =>
          ∀ row ∈ merged newId finding fields existing,
            refused (tuple finding fields, row) = false ∧
              (existing = none → ¬ s.grants.Violated Conflict x (tuple finding fields, row))
      | _, _ => True
  | _ => True

instance (refused : StoredGrant → Bool) (s : IngestDb) (e : IngestEvent) :
    Decidable (Unopposed refused s e) := by
  cases e <;> simp only [Unopposed] <;> try infer_instance
  split <;> infer_instance

section Runs
variable {fromisoformat : String → Option ℤ} {refused : StoredGrant → Bool} {upsert : Bool}
  {s s' t : IngestDb} {i : ℕ} {e : IngestEvent} {es : List IngestEvent} {finding : GrantFinding}
  {fields : GrantFields} {existing : Option OAuthGrantRow} {newId : String}
  {x : Transaction StoredGrant String (OAuthGrantRow × OAuthGrantRow)} {row : OAuthGrantRow}

theorem unbroken_start (sessions : ℕ) (rows : List StoredGrant) :
    (start sessions rows).Unbroken := ⟨fun _ => rfl, rfl⟩

theorem Unbroken.look (h : s.Unbroken) : (s.look fromisoformat i x finding).Unbroken := by
  unfold IngestDb.look
  split
  · exact ⟨h.usable, h.kept⟩
  · split <;> exact ⟨h.usable, h.kept⟩

theorem Unbroken.finish (h : s.Unbroken) : (s.finish i x finding).Unbroken := by
  rw [IngestDb.finish, if_pos (h.usable i)]
  exact ⟨h.usable, h.kept⟩

theorem not_unbroken_deactivate : ¬ (s.deactivate i finding).Unbroken := by
  intro h
  have hself : Function.update s.usable i false i = true := h.usable i
  rw [Function.update_self] at hself
  cases hself

theorem write_cases (h : s.write refused i x finding fields existing newId = some s') :
    merged newId finding fields existing = none ∧ s' = s.goto i (.returned finding) ∨
      ∃ row, merged newId finding fields existing = some row ∧
        (s' = s.deactivate i finding ∧ (refused (tuple finding fields, row) = true ∨
            existing = none ∧ s.grants.Violated Conflict x (tuple finding fields, row)) ∨
          (∃ grants, s' = { s with
              grants := grants
              stage := Function.update s.stage i (.returned finding) }) ∧
            refused (tuple finding fields, row) = false ∧
              (existing = none → ¬ s.grants.Violated Conflict x (tuple finding fields, row))) := by
  unfold write at h
  split at h
  · next hmerged => exact Or.inl ⟨hmerged, (Option.some.inj h).symm⟩
  · next row hmerged =>
      refine Or.inr ⟨row, hmerged, ?_⟩
      split at h
      · next hrefused => exact Or.inl ⟨(Option.some.inj h).symm, Or.inl hrefused⟩
      · next hrefused =>
          have haccepted := eq_false_of_ne_true hrefused
          split at h
          · split at h
            · next hviolated => exact Or.inl ⟨(Option.some.inj h).symm, Or.inr ⟨rfl, hviolated⟩⟩
            · next hviolated =>
                split at h
                · cases h
                · exact Or.inr ⟨⟨_, (Option.some.inj h).symm⟩, haccepted, fun _ => hviolated⟩
          · split at h
            · cases h
            · exact Or.inr ⟨⟨_, (Option.some.inj h).symm⟩, haccepted, fun h => by cases h⟩

theorem write_unbroken_iff (h : s.Unbroken)
    (hwrite : s.write refused i x finding fields existing newId = some s') :
    s'.Unbroken ↔ ∀ row ∈ merged newId finding fields existing,
      refused (tuple finding fields, row) = false ∧
        (existing = none → ¬ s.grants.Violated Conflict x (tuple finding fields, row)) := by
  obtain ⟨hmerged, rfl⟩ | ⟨row, hmerged, ⟨rfl, hopposed⟩ | ⟨⟨grants, rfl⟩, haccepted⟩⟩ :=
    write_cases hwrite
  · refine iff_of_true ⟨h.usable, h.kept⟩ ?_
    rw [hmerged]
    rintro row ⟨⟩
  · refine iff_of_false not_unbroken_deactivate fun hall => ?_
    obtain ⟨haccepted, hfree⟩ := hall row hmerged
    rcases hopposed with hrefused | ⟨hnone, hviolated⟩
    · rw [haccepted] at hrefused
      cases hrefused
    · exact hfree hnone hviolated
  · refine iff_of_true ⟨h.usable, h.kept⟩ ?_
    rw [hmerged]
    rintro _ ⟨⟩
    exact haccepted

theorem unbroken_step (h : s.Unbroken) (hstep : step fromisoformat refused upsert s e = some s') :
    s'.Unbroken ↔ Unopposed refused s e := by
  cases e with
  | record i finding =>
      simp only [step] at hstep
      split at hstep
      · cases hstep
        exact iff_of_true ⟨h.usable, h.kept⟩ trivial
      · cases hstep
  | look i =>
      obtain ⟨x, hx, hstep⟩ := Option.bind_eq_some_iff.mp hstep
      split at hstep
      · cases hstep
        exact iff_of_true h.look trivial
      · cases hstep
  | write i newId =>
      obtain ⟨x, hx, hstep⟩ := Option.bind_eq_some_iff.mp hstep
      split at hstep
      · next finding fields existing hstage =>
          rw [write_unbroken_iff h hstep, Unopposed, hstage, hx]
      · cases hstep
  | commit i =>
      obtain ⟨x, hx, hstep⟩ := Option.bind_eq_some_iff.mp hstep
      split at hstep
      · cases hstep
        exact iff_of_true h.finish trivial
      · cases hstep
  | rollback i =>
      obtain ⟨x, hx, hstep⟩ := Option.bind_eq_some_iff.mp hstep
      cases hstep
      refine iff_of_true ⟨fun j => ?_, h.kept⟩ trivial
      rcases eq_or_ne j i with rfl | hne
      · exact Function.update_self ..
      · exact (Function.update_of_ne hne ..).trans (h.usable j)

theorem ingest_unbroken_iff (sessions : ℕ) (rows : List StoredGrant)
    (h : (machine fromisoformat refused true).run (start sessions rows) es = some t) :
    (∀ fs gs, es = fs ++ gs → ∀ u,
      (machine fromisoformat refused true).run (start sessions rows) fs = some u → u.Unbroken) ↔
        (machine fromisoformat refused true).Along (Unopposed refused) (start sessions rows) es :=
  (machine fromisoformat refused true).reached_iff id
    (fun hs hg hstep => (unbroken_step hs hstep).mpr hg)
    (fun hs hg hstep hunbroken => hg ((unbroken_step hs hstep).mp hunbroken))
    (unbroken_start sessions rows) h

-- Without the call no session ever stops being usable.
structure Plain (s : IngestDb) : Prop extends Unbroken s where
  stage : ∀ i, s.stage i = .idle ∨ ∃ finding, s.stage i = .returned finding

theorem Plain.goto {stage : IngestStage} (h : s.Plain)
    (hstage : stage = .idle ∨ ∃ finding, stage = .returned finding) (j : ℕ) :
    Function.update s.stage i stage j = .idle ∨
      ∃ finding, Function.update s.stage i stage j = .returned finding := by
  rcases eq_or_ne j i with rfl | hne
  · rw [Function.update_self]
    exact hstage
  · rw [Function.update_of_ne hne]
    exact h.stage j

theorem plain_step (h : s.Plain) (hstep : step fromisoformat refused false s e = some s') :
    s'.Plain := by
  have hopen : Unopposed refused s e := by
    cases e with
    | write i newId =>
        rcases h.stage i with hstage | ⟨finding, hstage⟩ <;> simp only [Unopposed, hstage]
    | _ => trivial
  refine ⟨(unbroken_step h.toUnbroken hstep).mpr hopen, ?_⟩
  cases e with
  | record i finding =>
      simp only [step] at hstep
      split at hstep
      · cases hstep
        exact h.goto (Or.inr ⟨finding, rfl⟩)
      · cases hstep
  | look i =>
      obtain ⟨x, hx, hstep⟩ := Option.bind_eq_some_iff.mp hstep
      rcases h.stage i with hstage | ⟨finding, hstage⟩ <;> simp only [hstage] at hstep <;> cases hstep
  | write i newId =>
      obtain ⟨x, hx, hstep⟩ := Option.bind_eq_some_iff.mp hstep
      rcases h.stage i with hstage | ⟨finding, hstage⟩ <;> simp only [hstage] at hstep <;> cases hstep
  | commit i =>
      obtain ⟨x, hx, hstep⟩ := Option.bind_eq_some_iff.mp hstep
      split at hstep
      · cases hstep
        rw [finish, if_pos (h.usable i)]
        exact h.goto (Or.inl rfl)
      · cases hstep
  | rollback i =>
      obtain ⟨x, hx, hstep⟩ := Option.bind_eq_some_iff.mp hstep
      cases hstep
      exact h.goto (Or.inl rfl)

theorem unbroken_without_upsert (sessions : ℕ) (rows : List StoredGrant)
    (h : (machine fromisoformat refused false).run (start sessions rows) es = some t) :
    t.Unbroken :=
  ((machine fromisoformat refused false).invariant_of_step (I := Plain) plain_step
    ⟨unbroken_start sessions rows, fun _ => Or.inl rfl⟩ h).toUnbroken

end Runs

section Example

def slackEvidence : Dict := ⟨[("principal_id", .str "alice"), ("app_id", .str "slack")], by decide⟩

def slackObserved (id : String) (createdAt : ℤ) : GrantFinding := ⟨id, "org_1", slackEvidence, createdAt⟩

def noDates : String → Option ℤ := fun _ => none

def noneRefused : StoredGrant → Bool := fun _ => false

def inTurn : List IngestEvent :=
  [.record 0 (slackObserved "hfnd_1" 1), .look 0, .write 0 "oag_1", .commit 0,
    .record 1 (slackObserved "hfnd_2" 2), .look 1, .write 1 "oag_2", .commit 1]

theorem ingests_in_turn : ∃ u,
    (machine noDates noneRefused true).run (start 2 []) inTurn = some u ∧ u.Unbroken := by
  have hruns : ((machine noDates noneRefused true).run (start 2 []) inTurn).isSome = true := by
    decide
  obtain ⟨u, hu⟩ := Option.isSome_iff_exists.mp hruns
  have hreached := (ingest_unbroken_iff 2 [] hu).mpr (by decide)
  exact ⟨u, hu, hreached inTurn [] (List.append_nil _).symm u hu⟩

-- Both look before either writes; the second INSERT takes its finding with it. Without the upsert
-- both findings are committed.
def atOnce : List IngestEvent :=
  [.record 0 (slackObserved "hfnd_1" 1), .record 1 (slackObserved "hfnd_2" 2), .look 0, .look 1,
    .write 0 "oag_1", .commit 0, .write 1 "oag_2", .commit 1]

theorem finding_lost :
    ((machine noDates noneRefused true).run (start 2 []) atOnce).map (fun u => (u.committed, u.lost)) =
        some (["hfnd_1"], ["hfnd_2"]) ∧
      ((machine noDates noneRefused false).run (start 2 [])
        [.record 0 (slackObserved "hfnd_1" 1), .record 1 (slackObserved "hfnd_2" 2), .commit 0,
          .commit 1]).map (fun u => (u.committed, u.lost)) = some (["hfnd_2", "hfnd_1"], []) := by
  decide

end Example

end IngestDb

end BTagent
