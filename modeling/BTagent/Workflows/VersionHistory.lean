import BTagent.Workflows.SinglePublished
import Mathlib.Data.Finset.Sort

namespace BTagent

namespace WorkflowDb

open WorkflowService

variable {N : JsonbNumeric} {s s' t : WorkflowDb} {e : VersionEvent} {i : ℕ} {stage : VersionStage}
  {workflowId : String} {row row' : WorkflowVersionRow}

section Numbers
variable {l : List ℕ} {x : VersionTransaction} {p : String × ℕ}

-- The workflow and the number of a version, which no two versions share.
def place (row : WorkflowVersionRow) : String × ℕ := (row.workflowId, row.versionNumber)

def numbers (rows : List WorkflowVersionRow) (workflowId : String) : List ℕ :=
  (rows.filter fun row => row.workflowId = workflowId).map (·.versionNumber)

-- A number that a version may have: the first, or the one after a committed version's.
def Follows (s : WorkflowDb) (p : String × ℕ) : Prop :=
  p.2 = 1 ∨ (1 < p.2 ∧ (p.1, p.2 - 1) ∈ s.versions.committed.map place)

def Inserting (stage : VersionStage) (p : String × ℕ) : Prop :=
  ∃ new retried, stage = .inserting new retried p.2 ∧ new.workflowId = p.1

structure Numbered (s : WorkflowDb) : Prop where
  distinct : s.versions.Distinct place
  committed : ∀ row ∈ s.versions.committed, Follows s (place row)
  inserted : ∀ x ∈ s.versions.transactions, ∀ row ∈ x.inserted, Follows s (place row)
  staged : ∀ i p, Inserting (s.stage i) p → Follows s p

theorem place_applyAll (ws : List (String × VersionChange)) (row : WorkflowVersionRow) :
    place (versionTable.applyAll ws row) = place row := by
  refine RowTable.applyAll_induction (T := versionTable) (P := fun r => place r = place row) ?_ rfl
  intro w _ r _ _ hr
  rcases w with ⟨k, c⟩
  cases c <;> exact hr

theorem versionConflict_of_place (a b : WorkflowVersionRow) (h : place b = place a) :
    versionConflict a b := by
  obtain ⟨hworkflow, hnumber⟩ := Prod.mk.inj h
  exact Or.inr ⟨hworkflow, hnumber⟩

theorem foldr_max_mem (h : l.foldr max 0 ≠ 0) : l.foldr max 0 ∈ l := by
  induction l with
  | nil => exact absurd rfl h
  | cons n l ih =>
      rw [List.foldr_cons] at h ⊢
      rcases max_choice n (l.foldr max 0) with hmax | hmax
      · rw [hmax]
        exact List.mem_cons_self
      · rw [hmax] at h ⊢
        exact List.mem_cons_of_mem _ (ih h)

theorem follows_next :
    Follows s (workflowId, nextVersionNumber s.versions.committed workflowId) := by
  rcases eq_or_ne ((numbers s.versions.committed workflowId).foldr max 0) 0 with hnone | hsome
  · left
    change (numbers s.versions.committed workflowId).foldr max 0 + 1 = 1
    rw [hnone]
  · right
    change 1 < (numbers s.versions.committed workflowId).foldr max 0 + 1 ∧ _
    refine ⟨by omega, ?_⟩
    obtain ⟨row, hrow, hnumber⟩ := List.mem_map.mp (foldr_max_mem hsome)
    obtain ⟨hrow, hworkflow⟩ := List.mem_filter.mp hrow
    exact List.mem_map.mpr ⟨row, hrow, Prod.ext (of_decide_eq_true hworkflow) hnumber⟩

theorem Follows.mono (h : Follows s p)
    (hsub : s.versions.committed.map place ⊆ s'.versions.committed.map place) : Follows s' p := by
  rcases h with hone | ⟨hlt, hmem⟩
  · exact Or.inl hone
  · exact Or.inr ⟨hlt, hsub hmem⟩

-- Distinct numbers of which each is the first or one after another are the first ones.
theorem perm_range (hnodup : l.Nodup) (hfollows : ∀ n ∈ l, n = 1 ∨ (1 < n ∧ n - 1 ∈ l)) :
    l.Perm (List.range' 1 l.length) := by
  have hbelow : ∀ k n, n + k ∈ l → 1 ≤ n → n ∈ l := by
    intro k
    induction k with
    | zero => exact fun n hn _ => hn
    | succ k ih =>
        intro n hn hpos
        rcases hfollows _ hn with hone | ⟨-, hprev⟩
        · omega
        · exact ih n (by rwa [Nat.add_succ_sub_one] at hprev) hpos
  have hpos : ∀ n ∈ l, 1 ≤ n := by
    intro n hn
    rcases hfollows n hn with hone | ⟨hlt, -⟩ <;> omega
  have hall : ∀ n, n ∈ l ↔ 1 ≤ n ∧ n ≤ l.foldr max 0 := by
    intro n
    constructor
    · intro hn
      refine ⟨hpos n hn, ?_⟩
      clear hfollows hbelow hpos hnodup
      induction l with
      | nil => cases hn
      | cons m l ih =>
          rw [List.foldr_cons]
          rcases List.mem_cons.mp hn with rfl | hn
          · exact le_max_left _ _
          · exact (ih hn).trans (le_max_right _ _)
    · rintro ⟨hone, hle⟩
      have hmax := foldr_max_mem (l := l) (by omega)
      obtain ⟨k, hk⟩ := Nat.exists_eq_add_of_le hle
      rw [hk] at hmax
      exact hbelow k n hmax hone
  have hsame : l.Perm (List.range' 1 (l.foldr max 0)) := by
    rw [List.perm_ext_iff_of_nodup hnodup (List.nodup_range' _)]
    intro n
    rw [hall, List.mem_range'_1]
    omega
  have hlength := hsame.length_eq
  rw [List.length_range'] at hlength
  rwa [← hlength] at hsame

theorem Numbered.keep (h : Numbered s) (hversions : s'.versions = s.versions)
    (hstage : ∀ i p, Inserting (s'.stage i) p → Inserting (s.stage i) p ∨ Follows s p) :
    Numbered s' := by
  have hsame : ∀ {p}, Follows s p → Follows s' p := fun hp => hp.mono (by rw [hversions]; simp)
  constructor
  · rw [hversions]
    exact h.distinct
  · rw [hversions]
    exact fun row hrow => hsame (h.committed row hrow)
  · rw [hversions]
    exact fun x hx row hrow => hsame (h.inserted x hx row hrow)
  · intro i p hp
    rcases hstage i p hp with hold | hnew
    · exact hsame (h.staged i p hold)
    · exact hsame hnew

theorem Numbered.goto (h : Numbered s) (hstage : ∀ p, Inserting stage p → Follows s p) :
    Numbered (s.goto i stage) := by
  refine h.keep (rfl : (s.goto i stage).versions = s.versions) ?_
  intro j p hp
  rcases eq_or_ne j i with rfl | hne
  · right
    apply hstage
    simpa [WorkflowDb.goto] using hp
  · left
    simpa [WorkflowDb.goto, Function.update_of_ne hne] using hp

theorem Numbered.insertDraft (h : Numbered s) (hx : s.versions.transactions[i]? = some x)
    (hawaited : ¬ s.versions.Awaited versionConflict i row)
    (hviolated : ¬ s.versions.Violated versionConflict x row) (hfollows : Follows s (place row)) :
    Numbered (s.insertDraft i x row) := by
  constructor
  · exact h.distinct.insert versionConflict_of_place hx hawaited hviolated
  · exact h.committed
  · apply Slots.forall_set h.inserted
    intro r hr
    rcases List.mem_append.mp hr with hr | hr
    · exact h.inserted x (List.mem_of_getElem? hx) r hr
    · rw [List.mem_singleton.mp hr]
      exact hfollows
  · intro j p hp
    rcases eq_or_ne j i with rfl | hne
    · obtain ⟨new, retried, hstage, -⟩ := hp
      simp [WorkflowDb.insertDraft] at hstage
    · apply h.staged j p
      simpa [WorkflowDb.insertDraft, Function.update_of_ne hne] using hp

theorem Numbered.write (h : Numbered s) {w : VersionWrite} {pending : List VersionWrite}
    (hx : s.versions.transactions[i]? = some x)
    (hversions : s'.versions = s.versions.update i x w.row.id w.change)
    (hstage : s'.stage = Function.update s.stage i (.writing pending)) : Numbered s' := by
  have hsame : ∀ {p}, Follows s p → Follows s' p := by
    intro p hp
    refine hp.mono ?_
    rw [hversions]
    exact List.Subset.refl _
  constructor
  · rw [hversions]
    exact h.distinct.move hx (List.Subperm.refl _)
  · rw [hversions]
    exact fun row hrow => hsame (h.committed row hrow)
  · rw [hversions]
    apply Slots.forall_set fun y hy row hrow => hsame (h.inserted y hy row hrow)
    exact fun row hrow => hsame (h.inserted x (List.mem_of_getElem? hx) row hrow)
  · rw [hstage]
    intro j p hp
    rcases eq_or_ne j i with rfl | hne
    · rw [Function.update_self] at hp
      obtain ⟨new, retried, hstage, -⟩ := hp
      cases hstage
    · rw [Function.update_of_ne hne] at hp
      exact hsame (h.staged j p hp)

theorem Numbered.commit (h : Numbered s) (hx : s.versions.transactions[i]? = some x)
    (hversions : s'.versions = s.versions.commit versionTable i x)
    (hstage : s'.stage = Function.update s.stage i .idle) : Numbered s' := by
  have hplaces : s'.versions.committed.map place =
      (s.versions.committed ++ x.inserted).map place := by
    rw [hversions]
    exact ReadCommitted.map_view place_applyAll
  have hsame : ∀ {p}, Follows s p → Follows s' p := by
    intro p hp
    refine hp.mono ?_
    rw [hplaces, List.map_append]
    exact List.subset_append_left _ _
  constructor
  · rw [hversions]
    exact h.distinct.commit place_applyAll hx
  · intro row hrow
    have hmem := List.mem_map_of_mem (f := place) hrow
    rw [hplaces] at hmem
    obtain ⟨old, hold, hplace⟩ := List.mem_map.mp hmem
    rw [← hplace]
    rcases List.mem_append.mp hold with hold | hold
    · exact hsame (h.committed old hold)
    · exact hsame (h.inserted x (List.mem_of_getElem? hx) old hold)
  · rw [hversions]
    apply Slots.forall_set fun y hy row hrow => hsame (h.inserted y hy row hrow)
    intro row hrow
    cases hrow
  · rw [hstage]
    intro j p hp
    rcases eq_or_ne j i with rfl | hne
    · rw [Function.update_self] at hp
      obtain ⟨new, retried, hstage, -⟩ := hp
      cases hstage
    · rw [Function.update_of_ne hne] at hp
      exact hsame (h.staged j p hp)

theorem Numbered.abort (h : Numbered s) {audit : AuditDb}
    (hx : s.versions.transactions[i]? = some x) : Numbered (s.abort i audit) := by
  constructor
  · exact h.distinct.move hx List.nil_subperm
  · exact h.committed
  · apply Slots.forall_set h.inserted
    intro row hrow
    cases hrow
  · intro j p hp
    rcases eq_or_ne j i with rfl | hne
    · obtain ⟨new, retried, hstage, -⟩ := hp
      simp [WorkflowDb.abort] at hstage
    · apply h.staged j p
      simpa [WorkflowDb.abort, Function.update_of_ne hne] using hp

theorem Numbered.request (h : Numbered s) {number : ℕ}
    {handle : WorkflowVersionRow → Except String VersionStage}
    (hhandle : ∀ version stage, handle version = .ok stage → ∀ p, ¬ Inserting stage p)
    (hstep : s.request i workflowId number handle = some s') : Numbered s' := by
  rw [WorkflowDb.request] at hstep
  split at hstep
  · split at hstep
    · cases hstep
      exact h
    · split at hstep
      · cases hstep
        exact h
      · next hok =>
          cases hstep
          exact h.goto fun p hp => absurd hp (hhandle _ _ hok p)
  · cases hstep

theorem not_inserting_updateVersionDefinition {version : WorkflowVersionRow} {definition : Dict}
    (h : updateVersionDefinition version definition = .ok stage) (p : String × ℕ) :
    ¬ Inserting stage p := by
  rintro ⟨new, retried, rfl, -⟩
  rw [updateVersionDefinition] at h
  split at h <;> cases h

theorem not_inserting_publishVersion {version : WorkflowVersionRow} {actor : String}
    {now : Timestamp} (h : publishVersion version actor now = .ok stage) (p : String × ℕ) :
    ¬ Inserting stage p := by
  rintro ⟨new, retried, rfl, -⟩
  rw [publishVersion] at h
  split_ifs at h
  cases h

theorem not_inserting_deprecateVersion {version : WorkflowVersionRow} {actor : String}
    {now : Timestamp} (h : deprecateVersion version actor now = .ok stage) (p : String × ℕ) :
    ¬ Inserting stage p := by
  rintro ⟨new, retried, rfl, -⟩
  rw [deprecateVersion] at h
  split_ifs at h <;> cases h

theorem numbered_step (h : Numbered s) (hstep : step N s e = some s') : Numbered s' := by
  cases e with
  | createWorkflow i id new now =>
      simp only [step, Option.bind_eq_bind, Option.bind_eq_some_iff] at hstep
      obtain ⟨x, hx, hstep⟩ := hstep
      split at hstep
      · split at hstep
        · cases hstep
        · next hawaited =>
            split at hstep
            · cases hstep
              exact h
            · next hviolated =>
                cases hstep
                exact h.insertDraft hx hawaited hviolated (Or.inl rfl)
      · cases hstep
  | createVersion i new =>
      simp only [step] at hstep
      split at hstep
      · cases hstep
        apply h.goto
        rintro p ⟨new, retried, hstage, -⟩
        cases hstage
      · cases hstep
  | nextNumber i =>
      simp only [step] at hstep
      split at hstep
      · cases hstep
        apply h.goto
        rintro ⟨w, n⟩ ⟨new, retried, hstage, hworkflow⟩
        cases hstage
        subst hworkflow
        exact follows_next
      · cases hstep
  | insertVersion i id now =>
      simp only [step, Option.bind_eq_bind, Option.bind_eq_some_iff] at hstep
      obtain ⟨x, hx, hstep⟩ := hstep
      split at hstep
      · next new retried number hinserting =>
          split at hstep
          · cases hstep
          · next hawaited =>
              split at hstep
              · cases hstep
                apply h.goto
                rintro p ⟨new, again, hstage, -⟩
                split at hstage <;> cases hstage
              · next hviolated =>
                  cases hstep
                  exact h.insertDraft hx hawaited hviolated
                    (h.staged i (new.workflowId, number) ⟨new, retried, hinserting, rfl⟩)
      · cases hstep
  | updateVersion i workflowId number definition =>
      exact h.request (fun _ _ => not_inserting_updateVersionDefinition) hstep
  | publishVersion i workflowId number actor now =>
      exact h.request (fun _ _ => not_inserting_publishVersion) hstep
  | deprecateVersion i workflowId number actor now =>
      exact h.request (fun _ _ => not_inserting_deprecateVersion) hstep
  | selectPublished i =>
      simp only [step] at hstep
      split at hstep
      · cases hstep
        apply h.goto
        rintro p ⟨new, retried, hstage, -⟩
        cases hstage
      · cases hstep
  | write i entryId =>
      simp only [step, Option.bind_eq_bind, Option.bind_eq_some_iff] at hstep
      obtain ⟨x, hx, hstep⟩ := hstep
      split at hstep
      · split at hstep
        · cases hstep
        · simp only [Option.bind_eq_some_iff] at hstep
          obtain ⟨audit, -, heq⟩ := hstep
          cases heq
          exact h.write hx rfl rfl
      · cases hstep
  | readHead i now =>
      simp only [step, Option.bind_eq_bind, Option.bind_eq_some_iff] at hstep
      obtain ⟨audit, -, heq⟩ := hstep
      cases heq
      exact h.keep rfl fun _ _ hp => Or.inl hp
  | insertEntry i =>
      simp only [step, Option.bind_eq_bind, Option.bind_eq_some_iff] at hstep
      obtain ⟨x, hx, before, -, audit, -, after, -, hstep⟩ := hstep
      split at hstep
      · obtain ⟨audit', -, heq⟩ := Option.bind_eq_some_iff.mp hstep
        cases heq
        exact h.abort hx
      · cases hstep
        exact h.keep rfl fun _ _ hp => Or.inl hp
  | commit i =>
      simp only [step, Option.bind_eq_bind, Option.bind_eq_some_iff] at hstep
      obtain ⟨x, hx, hstep⟩ := hstep
      split at hstep
      · obtain ⟨audit, -, heq⟩ := Option.bind_eq_some_iff.mp hstep
        cases heq
        exact h.commit hx rfl rfl
      · cases hstep
  | rollback i =>
      simp only [step, Option.bind_eq_bind, Option.bind_eq_some_iff] at hstep
      obtain ⟨x, hx, audit, -, heq⟩ := hstep
      cases heq
      exact h.abort hx

theorem start_numbered {writers : ℕ} : Numbered (start writers) := by
  have hempty : ∀ x ∈ (start writers).versions.transactions, x = .empty :=
    fun x hx => List.eq_of_mem_replicate hx
  constructor
  · have hnone : (start writers).versions.transactions.flatMap (·.inserted) = [] := by
      rw [List.flatMap_eq_nil_iff]
      intro x hx
      rw [hempty x hx]
      rfl
    rw [ReadCommitted.Distinct, hnone]
    exact List.nodup_nil
  · intro row hrow
    cases hrow
  · intro x hx row hrow
    rw [hempty x hx] at hrow
    cases hrow
  · rintro i p ⟨new, retried, hstage, -⟩
    cases hstage

theorem Numbered.perm_range (h : Numbered s) (workflowId : String) :
    (numbers s.versions.committed workflowId).Perm
      (List.range' 1 (numbers s.versions.committed workflowId).length) := by
  have hplaced : ∀ n, n ∈ numbers s.versions.committed workflowId ↔
      (workflowId, n) ∈ s.versions.committed.map place := by
    intro n
    simp [numbers, place, and_assoc]
  apply WorkflowDb.perm_range
  · have hnodup := (h.distinct.committed.of_map place).filter fun row =>
      decide (row.workflowId = workflowId)
    refine hnodup.map_on ?_
    intro row hrow other hother heq
    obtain ⟨hrow, hworkflow⟩ := List.mem_filter.mp hrow
    obtain ⟨hother, hworkflow'⟩ := List.mem_filter.mp hother
    have hplace : place row = place other :=
      Prod.ext ((of_decide_eq_true hworkflow).trans (of_decide_eq_true hworkflow').symm) heq
    exact List.inj_on_of_nodup_map h.distinct.committed hrow hother hplace
  · intro n hn
    obtain ⟨row, hrow, hplace⟩ := List.mem_map.mp ((hplaced n).mp hn)
    have hfollows := h.committed row hrow
    rw [hplace] at hfollows
    rcases hfollows with hone | ⟨hlt, hprev⟩
    · exact Or.inl hone
    · exact Or.inr ⟨hlt, (hplaced _).mpr hprev⟩

-- Whatever the writers do, the versions of a workflow are numbered from one without a gap.
theorem versions_numbered {writers : ℕ} {events : List VersionEvent}
    (h : (machine N).run (start writers) events = some s) (workflowId : String) :
    (numbers s.versions.committed workflowId).Perm
      (List.range' 1 (numbers s.versions.committed workflowId).length) :=
  ((machine N).invariant_of_step numbered_step start_numbered h).perm_range workflowId

theorem twoDrafts_numbered : ∃ s,
    (machine noNumbers).run (start 2) (twoDrafts ++ publishBoth) = some s ∧
      (numbers s.versions.committed "wf_1").Perm
        (List.range' 1 (numbers s.versions.committed "wf_1").length) := by
  have hrun : ((machine noNumbers).run (start 2) (twoDrafts ++ publishBoth)).isSome := by decide
  obtain ⟨s, hs⟩ := Option.isSome_iff_exists.mp hrun
  exact ⟨s, hs, versions_numbered hs "wf_1"⟩

end Numbers

section Descent

-- What later states keep of a committed version. A version that left the drafts stays out.
structure Descends (row row' : WorkflowVersionRow) : Prop where
  id : row'.id = row.id
  place : place row' = place row
  orgId : row'.orgId = row.orgId
  createdBy : row'.createdBy = row.createdBy
  createdAt : row'.createdAt = row.createdAt
  settled : row.state ≠ .DRAFT → row'.state ≠ .DRAFT

theorem Descends.refl (row : WorkflowVersionRow) : Descends row row :=
  ⟨rfl, rfl, rfl, rfl, rfl, fun hstate => hstate⟩

theorem Descends.trans {row'' : WorkflowVersionRow} (h : Descends row row')
    (h' : Descends row' row'') : Descends row row'' where
  id := h'.id.trans h.id
  place := h'.place.trans h.place
  orgId := h'.orgId.trans h.orgId
  createdBy := h'.createdBy.trans h.createdBy
  createdAt := h'.createdAt.trans h.createdAt
  settled hstate := h'.settled (h.settled hstate)

theorem descends_apply (c : VersionChange) : Descends row (c.apply row) := by
  cases c with
  | toPublished now => exact ⟨rfl, rfl, rfl, rfl, rfl, fun _ => by simp [VersionChange.apply]⟩
  | toDeprecated now => exact ⟨rfl, rfl, rfl, rfl, rfl, fun _ => by simp [VersionChange.apply]⟩
  | toDefinition definition => exact ⟨rfl, rfl, rfl, rfl, rfl, fun hstate => hstate⟩

theorem descends_applyAll (ws : List (String × VersionChange)) :
    Descends row (versionTable.applyAll ws row) :=
  RowTable.applyAll_induction (T := versionTable) (P := Descends row)
    (fun w _ _ _ _ hr => hr.trans (descends_apply w.2)) (Descends.refl row)

theorem descends_step (hstep : step N s e = some s') (hrow : row ∈ s.versions.committed) :
    ∃ row' ∈ s'.versions.committed, Descends row row' := by
  have hsame : s'.versions.committed = s.versions.committed →
      ∃ row' ∈ s'.versions.committed, Descends row row' :=
    fun heq => ⟨row, heq ▸ hrow, Descends.refl row⟩
  cases moved_of_step hstep with
  | still hversions _ => exact hsame (by rw [hversions])
  | staged _ _ _ _ hversions _ => exact hsame (by rw [hversions])
  | inserted _ _ _ _ _ _ _ _ hversions _ => exact hsame (by rw [hversions]; rfl)
  | wrote _ _ _ _ _ _ hversions _ => exact hsame (by rw [hversions]; rfl)
  | committed i x _ _ hversions _ =>
      refine ⟨versionTable.applyAll x.written row, ?_, descends_applyAll x.written⟩
      rw [hversions]
      exact List.mem_map_of_mem (List.mem_append_left _ hrow)
  | aborted _ _ _ hversions _ => exact hsame (by rw [hversions]; rfl)

end Descent

end WorkflowDb

end BTagent
