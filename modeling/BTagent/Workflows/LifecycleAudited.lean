import BTagent.Workflows.SinglePublished

namespace BTagent

namespace WorkflowDb

open WorkflowService

variable {N : JsonbNumeric} {s s' : WorkflowDb} {e : VersionEvent} {i : ℕ} {stage : VersionStage}
  {workflowId : String} {row : WorkflowVersionRow}

variable {state : WorkflowVersionState} {id : String} {x x' : VersionTransaction}
  {y y' : AuditSession} {w : VersionWrite} {a : Append} {entry : AuditEntry}

-- What the ledger says was done to a version that is in the state.
def actions : WorkflowVersionState → List String
  | .DRAFT => []
  | .PUBLISHED => ["publish"]
  | .DEPRECATED => ["auto_deprecate", "deprecate"]

def Tells (state : WorkflowVersionState) (id action : String) (details : Dict) : Prop :=
  action ∈ actions state ∧ details.get? "version_id" = some (.str id)

def VersionChange.state? : VersionChange → Option WorkflowVersionState
  | .toPublished _ => some .PUBLISHED
  | .toDeprecated _ => some .DEPRECATED
  | .toDefinition _ => none

def Noted (w : VersionWrite) : Prop :=
  ∀ state, VersionChange.state? w.change = some state → ∃ entry, w.entry = some entry ∧
    Tells state w.row.id entry.action (AuditTrail.details entry)

-- An append that is under way will put the entry into the ledger.
def Carries (state : WorkflowVersionState) (id : String) (a : Append) : Prop :=
  Tells state id a.entry.action (AuditTrail.details a.entry) ∧
    ∀ row, a.stage = .inserting row →
      row.action = a.entry.action ∧ row.details = AuditTrail.details a.entry

def Covered (x : VersionTransaction) (y : AuditSession) : Prop :=
  ∀ w ∈ x.written, ∀ state, VersionChange.state? w.2 = some state →
    (∃ row ∈ y.rows, Tells state w.1 row.action row.details) ∨
      ∃ a, y.append = some a ∧ Carries state w.1 a

structure Audited (s : WorkflowDb) : Prop where
  committed : ∀ row ∈ s.versions.committed, row.state ≠ .DRAFT →
    ∃ a ∈ s.audit.committed, Tells row.state row.id a.action a.details
  drafts : ∀ x ∈ s.versions.transactions, ∀ row ∈ x.inserted, row.state = .DRAFT
  covered : ∀ (i : ℕ) x y, s.versions.transactions[i]? = some x → s.audit.sessions[i]? = some y →
    Covered x y
  planned : ∀ i pending, s.stage i = .writing pending → ∀ w ∈ pending, Noted w

section Plans
variable {version : WorkflowVersionRow} {actor action : String} {now : Timestamp}
  {superseding : Option ℕ} {c : VersionChange}

theorem noted_workflowEntry
    (h : ∀ state, VersionChange.state? c = some state → action ∈ actions state) :
    Noted ⟨version, c, some (workflowEntry version actor action superseding)⟩ := by
  intro state hstate
  refine ⟨_, rfl, h state hstate, ?_⟩
  cases superseding <;> rfl

theorem noted_toDefinition {definition : Dict} : Noted ⟨version, .toDefinition definition, none⟩ := by
  intro state hstate
  cases hstate

theorem noted_toPublished :
    Noted ⟨version, .toPublished now, some (workflowEntry version actor "publish" none)⟩ := by
  apply noted_workflowEntry
  rintro state ⟨⟩
  exact List.mem_singleton_self _

theorem noted_toDeprecated (h : action ∈ actions .DEPRECATED) :
    Noted ⟨version, .toDeprecated now, some (workflowEntry version actor action superseding)⟩ := by
  apply noted_workflowEntry
  rintro state ⟨⟩
  exact h

theorem noted_publishWrites {prior : List WorkflowVersionRow} :
    ∀ w ∈ publishWrites version actor now prior, Noted w := by
  intro w hw
  rcases List.mem_append.mp hw with hw | hw
  · obtain ⟨row, -, rfl⟩ := List.mem_map.mp hw
    exact noted_toDeprecated List.mem_cons_self
  · rw [List.mem_singleton.mp hw]
    exact noted_toPublished

def AllNoted (stage : VersionStage) : Prop :=
  ∀ pending, stage = .writing pending → ∀ w ∈ pending, Noted w

theorem allNoted_updateVersionDefinition {definition : Dict}
    (h : updateVersionDefinition version definition = .ok stage) : AllNoted stage := by
  rintro pending rfl w hw
  rw [updateVersionDefinition] at h
  split at h
  · cases h
  · cases h
    rw [List.mem_singleton.mp hw]
    exact noted_toDefinition

theorem allNoted_publishVersion (h : publishVersion version actor now = .ok stage) :
    AllNoted stage := by
  rintro pending rfl
  rw [publishVersion] at h
  split_ifs at h
  cases h

theorem allNoted_deprecateVersion (h : deprecateVersion version actor now = .ok stage) :
    AllNoted stage := by
  rintro pending rfl w hw
  rw [deprecateVersion] at h
  split at h
  · cases h
  · split at h
    · cases h
      cases hw
    · cases h
      rw [List.mem_singleton.mp hw]
      exact noted_toDeprecated (List.mem_cons_of_mem _ List.mem_cons_self)

end Plans

theorem state_of_applyAll (ws : List (String × VersionChange)) (row : WorkflowVersionRow) :
    (versionTable.applyAll ws row).state = row.state ∨
      ∃ w ∈ ws, w.1 = row.id ∧
        VersionChange.state? w.2 = some (versionTable.applyAll ws row).state := by
  have hid : ∀ r : WorkflowVersionRow, versionTable.key r = versionTable.key row → r.id = row.id :=
    fun _ heq => heq
  refine RowTable.applyAll_induction (T := versionTable)
    (P := fun r => r.state = row.state ∨
      ∃ w ∈ ws, w.1 = row.id ∧ VersionChange.state? w.2 = some r.state) ?_ (Or.inl rfl)
  rintro ⟨k, c⟩ hw r hkey hsame hr
  have hk : k = row.id := hkey.trans (hid r hsame)
  cases c with
  | toPublished now => exact Or.inr ⟨_, hw, hk, rfl⟩
  | toDeprecated now => exact Or.inr ⟨_, hw, hk, rfl⟩
  | toDefinition definition => exact hr

theorem Covered.empty : Covered .empty y := by
  intro w hw
  cases hw

-- The row that is read, inserted or tried again is the entry's.
theorem Covered.carry (h : Covered x y) (hrows : ∀ row ∈ y.rows, row ∈ y'.rows)
    (happend : ∀ a, y.append = some a → ∀ state id, Carries state id a →
      (∃ row ∈ y'.rows, Tells state id row.action row.details) ∨
        ∃ a', y'.append = some a' ∧ Carries state id a') : Covered x y' := by
  intro w hw state hstate
  rcases h w hw state hstate with ⟨row, hrow, htells⟩ | ⟨a, ha, hcarries⟩
  · exact Or.inl ⟨row, hrows row hrow, htells⟩
  · exact happend a ha state w.1 hcarries

theorem Covered.record (h : Covered x y) (hidle : y.append = none) {entryId : String}
    (hw : ∀ state, VersionChange.state? w.change = some state →
      Tells state w.row.id entry.action (AuditTrail.details entry)) :
    Covered ⟨x.inserted, x.written ++ [w.update]⟩
      { y with append := some ⟨entryId, entry, 0, .reading⟩ } := by
  intro v hv state hstate
  rcases List.mem_append.mp hv with hv | hv
  · rcases h v hv state hstate with hrow | ⟨a, ha, -⟩
    · exact Or.inl hrow
    · rw [hidle] at ha
      cases ha
  · rw [List.mem_singleton.mp hv] at hstate ⊢
    refine Or.inr ⟨_, rfl, hw state hstate, ?_⟩
    intro row hrow
    cases hrow

theorem Covered.define (h : Covered x y) (hw : VersionChange.state? w.change = none) :
    Covered ⟨x.inserted, x.written ++ [w.update]⟩ y := by
  intro v hv state hstate
  rcases List.mem_append.mp hv with hv | hv
  · exact h v hv state hstate
  · rw [List.mem_singleton.mp hv] at hstate
    exact absurd (hw.symm.trans hstate) (by simp)

section Ledger
variable {d d' : AuditDb} {now : Timestamp}

theorem read_covered (h : AuditDb.step N d (.read i now) = some d') :
    d'.committed = d.committed ∧ ∃ y y', d.sessions[i]? = some y ∧
      d'.sessions = d.sessions.set i y' ∧ ∀ x, Covered x y → Covered x y' := by
  simp only [AuditDb.step, Option.bind_eq_bind, Option.bind_eq_some_iff] at h
  obtain ⟨y, hy, a, ha, h⟩ := h
  split at h
  · next hreading =>
      cases h
      refine ⟨rfl, y, _, hy, rfl, fun x hx => hx.carry (fun _ hrow => hrow) ?_⟩
      intro a' ha' state id hcarries
      rw [ha] at ha'
      cases ha'
      refine Or.inr ⟨_, rfl, hcarries.1, ?_⟩
      rintro row ⟨⟩
      exact ⟨rfl, rfl⟩
  · cases h

theorem insert_covered (h : AuditDb.step N d (.insert i) = some d') :
    d'.committed = d.committed ∧ ∃ y y', d.sessions[i]? = some y ∧
      d'.sessions = d.sessions.set i y' ∧
        ((y'.append = none ∧ y'.rows.length = y.rows.length) ∨
          ∀ x, Covered x y → Covered x y') := by
  simp only [AuditDb.step, Option.bind_eq_bind, Option.bind_eq_some_iff] at h
  obtain ⟨y, hy, a, ha, h⟩ := h
  split at h
  · next row hinserting =>
      rw [AuditDb.insert] at h
      split at h
      · cases h
      · split at h
        · cases h
          refine ⟨rfl, y, _, hy, rfl, ?_⟩
          rw [AuditSession.retry]
          split
          · exact Or.inl ⟨rfl, rfl⟩
          · refine Or.inr fun x hx => hx.carry (fun _ hrow => hrow) ?_
            intro a' ha' state id hcarries
            rw [ha] at ha'
            cases ha'
            refine Or.inr ⟨_, rfl, hcarries.1, ?_⟩
            rintro row ⟨⟩
        · cases h
          refine ⟨rfl, y, _, hy, rfl, Or.inr fun x hx => ?_⟩
          refine hx.carry (fun _ hrow => List.mem_append_left _ hrow) ?_
          intro a' ha' state id hcarries
          rw [ha] at ha'
          cases ha'
          obtain ⟨haction, hdetails⟩ := hcarries.2 row hinserting
          refine Or.inl ⟨AuditDb.stored N row, List.mem_append_right _ (List.mem_singleton_self _),
            ?_, ?_⟩
          · rw [AuditDb.stored, haction]
            exact hcarries.1.1
          · rw [AuditDb.stored, Jsonb.get?_obj, hdetails, hcarries.1.2]
            rfl
  · cases h

end Ledger

section Steps

theorem covered_at {xs xs' : List VersionTransaction} {ys ys' : List AuditSession}
    (h : ∀ (j : ℕ) x y, xs[j]? = some x → ys[j]? = some y → Covered x y)
    (hxs : ∀ j ≠ i, xs'[j]? = xs[j]?) (hys : ∀ j ≠ i, ys'[j]? = ys[j]?)
    (hnew : ∀ x y, xs'[i]? = some x → ys'[i]? = some y → Covered x y) :
    ∀ (j : ℕ) x y, xs'[j]? = some x → ys'[j]? = some y → Covered x y := by
  intro j x y hx hy
  rcases eq_or_ne j i with rfl | hne
  · exact hnew x y hx hy
  · rw [hxs j hne] at hx
    rw [hys j hne] at hy
    exact h j x y hx hy

theorem planned_at {stages : ℕ → VersionStage}
    (h : ∀ j pending, stages j = .writing pending → ∀ w ∈ pending, Noted w)
    (hstage : AllNoted stage) :
    ∀ j pending, Function.update stages i stage j = .writing pending → ∀ w ∈ pending, Noted w := by
  intro j pending hj
  rcases eq_or_ne j i with rfl | hne
  · rw [Function.update_self] at hj
    exact hstage pending hj
  · rw [Function.update_of_ne hne] at hj
    exact h j pending hj

theorem eq_of_set {α : Type*} {l : List α} {a b : α} (h : (l.set i a)[i]? = some b) : b = a := by
  rcases Slots.getElem?_set_cases h with ⟨-, heq⟩ | ⟨hne, -⟩
  · exact heq
  · exact absurd rfl hne

theorem Audited.goto (h : Audited s) (hstage : AllNoted stage) : Audited (s.goto i stage) :=
  ⟨h.committed, h.drafts, h.covered, planned_at h.planned hstage⟩

theorem Audited.request (h : Audited s) {number : ℕ}
    {handle : WorkflowVersionRow → Except String VersionStage}
    (hhandle : ∀ version stage, handle version = .ok stage → AllNoted stage)
    (hstep : s.request i workflowId number handle = some s') : Audited s' := by
  rw [WorkflowDb.request] at hstep
  split at hstep
  · split at hstep
    · cases hstep
      exact h
    · split at hstep
      · cases hstep
        exact h
      · next hok =>
          cases hstep
          exact h.goto (hhandle _ _ hok)
  · cases hstep

theorem Audited.insertDraft (h : Audited s) (hx : s.versions.transactions[i]? = some x)
    (hdraft : row.state = .DRAFT) : Audited (s.insertDraft i x row) := by
  refine ⟨h.committed, ?_, ?_, planned_at h.planned ?_⟩
  · apply Slots.forall_set h.drafts
    intro r hr
    rcases List.mem_append.mp hr with hr | hr
    · exact h.drafts x (List.mem_of_getElem? hx) r hr
    · rw [List.mem_singleton.mp hr]
      exact hdraft
  · refine covered_at h.covered (i := i) (fun j hne => List.getElem?_set_ne hne.symm)
      (fun _ _ => rfl) ?_
    intro x' y hx' hy
    rw [eq_of_set hx']
    exact h.covered i x y hx hy
  · rintro pending ⟨⟩ w hw
    cases hw

theorem Audited.write (h : Audited s) {pending : List VersionWrite} {entryId : String}
    {audit : AuditDb} (hx : s.versions.transactions[i]? = some x)
    (hwriting : s.stage i = .writing (w :: pending))
    (haudit : recordEntry N s.audit i entryId w.entry = some audit) :
    Audited ⟨s.versions.update i x w.row.id w.change, audit,
      Function.update s.stage i (.writing pending)⟩ := by
  have hnoted := h.planned i _ hwriting w List.mem_cons_self
  have hpending : AllNoted (.writing pending) := by
    rintro rest ⟨⟩ v hv
    exact h.planned i _ hwriting v (List.mem_cons_of_mem _ hv)
  have hdrafts : ∀ x' ∈ (s.versions.update i x w.row.id w.change).transactions,
      ∀ row ∈ x'.inserted, row.state = .DRAFT :=
    Slots.forall_set h.drafts fun row hrow => h.drafts x (List.mem_of_getElem? hx) row hrow
  have hother : ∀ j ≠ i,
      (s.versions.update i x w.row.id w.change).transactions[j]? = s.versions.transactions[j]? :=
    fun j hne => List.getElem?_set_ne hne.symm
  cases hentry : w.entry with
  | none =>
      rw [hentry] at haudit
      cases haudit
      have hdefines : VersionChange.state? w.change = none := by
        rw [Option.eq_none_iff_forall_ne_some]
        intro state hstate
        obtain ⟨entry, hsome, -⟩ := hnoted state hstate
        rw [hentry] at hsome
        cases hsome
      refine ⟨h.committed, hdrafts, ?_, planned_at h.planned hpending⟩
      refine covered_at h.covered (i := i) hother (fun _ _ => rfl) ?_
      intro x' y hx' hy
      rw [eq_of_set hx']
      exact (h.covered i x y hx hy).define hdefines
  | some entry =>
      rw [hentry, recordEntry, AuditDb.step] at haudit
      simp only [Option.bind_eq_bind, Option.bind_eq_some_iff] at haudit
      obtain ⟨y, hy, haudit⟩ := haudit
      split at haudit
      · next hidle =>
          cases haudit
          refine ⟨h.committed, hdrafts, ?_, planned_at h.planned hpending⟩
          refine covered_at h.covered (i := i) hother
            (fun j hne => List.getElem?_set_ne hne.symm) ?_
          intro x' y' hx' hy'
          rw [eq_of_set hx', eq_of_set hy']
          refine (h.covered i x y hx hy).record hidle ?_
          intro state hstate
          obtain ⟨entry', hsome, htells⟩ := hnoted state hstate
          rw [hentry] at hsome
          cases hsome
          exact htells
      · cases haudit

theorem Audited.read (h : Audited s) {now : Timestamp} {audit : AuditDb}
    (hread : AuditDb.step N s.audit (.read i now) = some audit) :
    Audited { s with audit := audit } := by
  obtain ⟨hcommitted, y, y', hy, hsessions, hcover⟩ := read_covered hread
  refine ⟨?_, h.drafts, ?_, h.planned⟩
  · rw [hcommitted]
    exact h.committed
  · rw [hsessions]
    refine covered_at h.covered (i := i) (fun _ _ => rfl)
      (fun j hne => List.getElem?_set_ne hne.symm) ?_
    intro x y'' hx hy''
    rw [eq_of_set hy'']
    exact hcover x (h.covered i x y hx hy)

theorem Audited.abort (h : Audited s) {audit audit' : AuditDb}
    (hcommitted : audit.committed = s.audit.committed)
    (hsessions : ∀ j ≠ i, audit.sessions[j]? = s.audit.sessions[j]?)
    (hrollback : AuditDb.step N audit (.rollback i) = some audit') : Audited (s.abort i audit') := by
  simp only [AuditDb.step, Option.bind_eq_bind, Option.bind_eq_some_iff] at hrollback
  obtain ⟨y, -, heq⟩ := hrollback
  cases heq
  refine ⟨?_, ?_, ?_, planned_at h.planned ?_⟩
  · intro row hrow hstate
    obtain ⟨a, ha, htells⟩ := h.committed row hrow hstate
    exact ⟨a, hcommitted ▸ ha, htells⟩
  · apply Slots.forall_set h.drafts
    intro row hrow
    cases hrow
  · refine covered_at h.covered (i := i) (fun j hne => List.getElem?_set_ne hne.symm)
      (fun j hne => (List.getElem?_set_ne hne.symm).trans (hsessions j hne)) ?_
    intro x y hx _
    rw [eq_of_set hx]
    exact .empty
  · rintro pending ⟨⟩

theorem Audited.insertEntry (h : Audited s) (hstep : step N s (.insertEntry i) = some s') :
    Audited s' := by
  simp only [step, Option.bind_eq_bind, Option.bind_eq_some_iff] at hstep
  obtain ⟨x, hx, before, hbefore, audit, hinsert, after, hafter, hstep⟩ := hstep
  obtain ⟨hcommitted, y, y', hy, hsessions, hcover⟩ := insert_covered hinsert
  have hother : ∀ j ≠ i, audit.sessions[j]? = s.audit.sessions[j]? := by
    intro j hne
    rw [hsessions]
    exact List.getElem?_set_ne hne.symm
  split at hstep
  · obtain ⟨audit', hrollback, heq⟩ := Option.bind_eq_some_iff.mp hstep
    cases heq
    exact h.abort hcommitted hother hrollback
  · next hgoes =>
      cases hstep
      refine ⟨?_, h.drafts, ?_, h.planned⟩
      · intro row hrow hstate
        obtain ⟨a, ha, htells⟩ := h.committed row hrow hstate
        exact ⟨a, hcommitted ▸ ha, htells⟩
      · refine covered_at h.covered (i := i) (fun _ _ => rfl) hother ?_
        intro x' y'' hx' hy''
        have hsame : y'' = after := Option.some.inj (hy''.symm.trans hafter)
        rw [hsessions] at hafter
        rw [hbefore] at hy
        cases hy
        rw [hsame, eq_of_set hafter]
        rcases hcover with ⟨hnone, hlength⟩ | hcover
        · refine absurd ⟨?_, ?_⟩ hgoes
          · rw [eq_of_set hafter, hnone]
            rfl
          · rw [eq_of_set hafter, hlength]
        · exact hcover x' (h.covered i x' before hx' hbefore)

theorem Audited.commit (h : Audited s) {audit : AuditDb}
    (hx : s.versions.transactions[i]? = some x)
    (haudit : AuditDb.step N s.audit (.commit i) = some audit) :
    Audited ⟨s.versions.commit versionTable i x, audit, Function.update s.stage i .idle⟩ := by
  simp only [AuditDb.step, Option.bind_eq_bind, Option.bind_eq_some_iff] at haudit
  obtain ⟨y, hy, haudit⟩ := haudit
  split at haudit
  · next hidle =>
      cases haudit
      refine ⟨?_, ?_, ?_, planned_at h.planned ?_⟩
      · intro row' hrow' hstate
        obtain ⟨row, hrow, rfl⟩ := ReadCommitted.mem_view.mp hrow'
        have hid : (versionTable.applyAll x.written row).id = row.id :=
          RowTable.key_applyAll (T := versionTable)
        rw [hid]
        rcases state_of_applyAll x.written row with hsame | ⟨w, hw, hkey, hset⟩
        · rw [hsame] at hstate ⊢
          rcases List.mem_append.mp hrow with hrow | hrow
          · obtain ⟨a, ha, htells⟩ := h.committed row hrow hstate
            exact ⟨a, List.mem_append_left _ ha, htells⟩
          · exact absurd (h.drafts x (List.mem_of_getElem? hx) row hrow) hstate
        · rw [← hkey]
          rcases h.covered i x y hx hy w hw _ hset with ⟨a, ha, htells⟩ | ⟨a, ha, -⟩
          · exact ⟨a, List.mem_append_right _ ha, htells⟩
          · rw [hidle] at ha
            cases ha
      · apply Slots.forall_set h.drafts
        intro row hrow
        cases hrow
      · refine covered_at h.covered (i := i) (fun j hne => List.getElem?_set_ne hne.symm)
          (fun j hne => List.getElem?_set_ne hne.symm) ?_
        intro x' y' hx' _
        rw [eq_of_set hx']
        exact .empty
      · rintro pending ⟨⟩
  · cases haudit

theorem audited_step (h : Audited s) (hstep : step N s e = some s') : Audited s' := by
  cases e with
  | createWorkflow i id new now =>
      simp only [step, Option.bind_eq_bind, Option.bind_eq_some_iff] at hstep
      obtain ⟨x, hx, hstep⟩ := hstep
      split at hstep
      · split at hstep
        · cases hstep
        · split at hstep
          · cases hstep
            exact h
          · cases hstep
            exact h.insertDraft hx rfl
      · cases hstep
  | createVersion i new =>
      simp only [step] at hstep
      split at hstep
      · cases hstep
        apply h.goto
        rintro pending ⟨⟩
      · cases hstep
  | nextNumber i =>
      simp only [step] at hstep
      split at hstep
      · cases hstep
        apply h.goto
        rintro pending ⟨⟩
      · cases hstep
  | insertVersion i id now =>
      simp only [step, Option.bind_eq_bind, Option.bind_eq_some_iff] at hstep
      obtain ⟨x, hx, hstep⟩ := hstep
      split at hstep
      · split at hstep
        · cases hstep
        · split at hstep
          · cases hstep
            apply h.goto
            intro pending hpending
            split at hpending <;> cases hpending
          · cases hstep
            exact h.insertDraft hx rfl
      · cases hstep
  | updateVersion i workflowId number definition =>
      exact h.request (fun _ _ => allNoted_updateVersionDefinition) hstep
  | publishVersion i workflowId number actor now =>
      exact h.request (fun _ _ => allNoted_publishVersion) hstep
  | deprecateVersion i workflowId number actor now =>
      exact h.request (fun _ _ => allNoted_deprecateVersion) hstep
  | selectPublished i =>
      simp only [step] at hstep
      split at hstep
      · cases hstep
        apply h.goto
        rintro pending ⟨⟩
        exact noted_publishWrites
      · cases hstep
  | write i entryId =>
      simp only [step, Option.bind_eq_bind, Option.bind_eq_some_iff] at hstep
      obtain ⟨x, hx, hstep⟩ := hstep
      split at hstep
      · next hwriting =>
          split at hstep
          · cases hstep
          · simp only [Option.bind_eq_some_iff] at hstep
            obtain ⟨audit, haudit, heq⟩ := hstep
            cases heq
            exact h.write hx hwriting haudit
      · cases hstep
  | readHead i now =>
      simp only [step, Option.bind_eq_bind, Option.bind_eq_some_iff] at hstep
      obtain ⟨audit, hread, heq⟩ := hstep
      cases heq
      exact h.read hread
  | insertEntry i => exact h.insertEntry hstep
  | commit i =>
      simp only [step, Option.bind_eq_bind, Option.bind_eq_some_iff] at hstep
      obtain ⟨x, hx, hstep⟩ := hstep
      split at hstep
      · obtain ⟨audit, haudit, heq⟩ := Option.bind_eq_some_iff.mp hstep
        cases heq
        exact h.commit hx haudit
      · cases hstep
  | rollback i =>
      simp only [step, Option.bind_eq_bind, Option.bind_eq_some_iff] at hstep
      obtain ⟨x, hx, audit, hrollback, heq⟩ := hstep
      cases heq
      exact h.abort rfl (fun _ _ => rfl) hrollback

theorem start_audited {writers : ℕ} : Audited (start writers) := by
  have hempty : ∀ x ∈ (start writers).versions.transactions, x = .empty :=
    fun x hx => List.eq_of_mem_replicate hx
  refine ⟨?_, ?_, ?_, ?_⟩
  · intro row hrow
    cases hrow
  · intro x hx row hrow
    rw [hempty x hx] at hrow
    cases hrow
  · intro i x y hx _
    rw [hempty x (List.mem_of_getElem? hx)]
    exact .empty
  · rintro i pending ⟨⟩

end Steps

-- No version leaves the drafts, or is retired, without the ledger saying so.
theorem lifecycle_audited {writers : ℕ} {events : List VersionEvent}
    (h : (machine N).run (start writers) events = some s) (hrow : row ∈ s.versions.committed)
    (hstate : row.state ≠ .DRAFT) :
    ∃ a ∈ s.audit.committed, Tells row.state row.id a.action a.details :=
  ((machine N).invariant_of_step audited_step start_audited h).committed row hrow hstate

theorem publishBoth_audited : ∃ s, ∃ row ∈ s.versions.committed, row.state = .PUBLISHED ∧
    (machine noNumbers).run (start 2) (twoDrafts ++ publishBoth) = some s ∧
      ∃ a ∈ s.audit.committed, Tells row.state row.id a.action a.details := by
  have hrun : ((machine noNumbers).run (start 2) (twoDrafts ++ publishBoth)).any fun s =>
      s.versions.committed.any fun row => decide (row.state = .PUBLISHED) := by
    decide
  obtain ⟨s, hs, hany⟩ := (Option.any_eq_true _ _).mp hrun
  obtain ⟨row, hrow, hstate⟩ := List.any_eq_true.mp hany
  have hpublished : row.state = .PUBLISHED := of_decide_eq_true hstate
  exact ⟨s, row, hrow, hpublished, hs, lifecycle_audited hs hrow (by rw [hpublished]; decide)⟩

end WorkflowDb

end BTagent
