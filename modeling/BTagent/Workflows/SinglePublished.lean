import BTagent.Workflows.Versions

namespace BTagent

namespace WorkflowDb

open WorkflowService

variable {N : JsonbNumeric} {s s' : WorkflowDb} {e : VersionEvent} {i : ℕ}

abbrev VersionTransaction := Transaction WorkflowVersionRow String VersionChange

def SinglePublished (rows : List WorkflowVersionRow) : Prop :=
  ∀ workflowId, (published rows workflowId).length ≤ 1

def Current (s : WorkflowDb) (x : VersionTransaction) : Prop :=
  ∀ w ∈ x.written, w.2.publishes → ∀ version ∈ s.versions.committed, version.id = w.1 → ∀ row ∈ published s.versions.committed version.workflowId,
      ∃ v ∈ x.written, v.1 = row.id

def CommitsCurrent (s : WorkflowDb) : VersionEvent → Prop
  | .commit i => ∀ x ∈ s.versions.transactions[i]?, Current s x
  | _ => True

def OnePublish (ws : List (String × VersionChange)) : Prop :=
  (∀ w ∈ ws, ∀ now, w.2 ≠ .toPublished now) ∨
    ∃ k, ∀ w ∈ ws, (∃ now, w.2 = .toDeprecated now) ∨ (w.1 = k ∧ ∃ now, w.2 = .toPublished now)

def pendingUpdates : VersionStage → List (String × VersionChange)
  | .writing pending => pending.map VersionWrite.update
  | _ => []

def Writing (stage : VersionStage) : Prop := ∃ pending, stage = .writing pending

section Plans
variable {version : WorkflowVersionRow} {actor : String} {now : Timestamp} {definition : Dict}
  {prior : List WorkflowVersionRow} {stage : VersionStage}

theorem onePublish_nil : OnePublish [] := by
  left
  intro w hw
  cases hw

theorem onePublish_publishWrites :
    OnePublish (pendingUpdates (.writing (publishWrites version actor now prior))) := by
  right
  refine ⟨version.id, ?_⟩
  intro w hw
  obtain ⟨p, hp, rfl⟩ := List.mem_map.mp hw
  rcases List.mem_append.mp hp with hp | hp
  · obtain ⟨row, -, rfl⟩ := List.mem_map.mp hp
    exact Or.inl ⟨now, rfl⟩
  · obtain rfl := List.mem_singleton.mp hp
    exact Or.inr ⟨rfl, now, rfl⟩

theorem onePublish_updateVersionDefinition
    (h : updateVersionDefinition version definition = .ok stage) :
    OnePublish (pendingUpdates stage) := by
  rw [updateVersionDefinition] at h
  split at h
  · cases h
  · cases h
    left
    intro w hw now
    obtain rfl := List.mem_singleton.mp hw
    intro heq
    cases heq

theorem onePublish_publishVersion (h : publishVersion version actor now = .ok stage) :
    OnePublish (pendingUpdates stage) := by
  rw [publishVersion] at h
  split at h
  · cases h
  · split at h
    · cases h
    · split at h
      · cases h
      · cases h
        exact onePublish_nil

theorem onePublish_deprecateVersion (h : deprecateVersion version actor now = .ok stage) :
    OnePublish (pendingUpdates stage) := by
  rw [deprecateVersion] at h
  split at h
  · cases h
  · split at h
    · cases h
      exact onePublish_nil
    · cases h
      left
      intro w hw now
      obtain rfl := List.mem_singleton.mp hw
      intro heq
      cases heq

end Plans

-- What a step does to the versions and to the stage of a transaction.
inductive Moved (s : WorkflowDb) : VersionEvent → WorkflowDb → Prop where
  | still {e : VersionEvent} {s' : WorkflowDb} (hversions : s'.versions = s.versions)
      (hstage : s'.stage = s.stage) : Moved s e s'
  | staged {e : VersionEvent} {s' : WorkflowDb} (i : ℕ) (stage : VersionStage)
      (hwriting : ¬ Writing (s.stage i))
      (hone : OnePublish (pendingUpdates stage)) (hversions : s'.versions = s.versions)
      (hstage : s'.stage = Function.update s.stage i stage) : Moved s e s'
  | inserted {e : VersionEvent} {s' : WorkflowDb} (i : ℕ) (x : VersionTransaction)
      (row : WorkflowVersionRow)
      (hx : s.versions.transactions[i]? = some x) (hwriting : ¬ Writing (s.stage i))
      (hawaited : ¬ s.versions.Awaited versionConflict i row)
      (hviolated : ¬ s.versions.Violated versionConflict x row) (hdraft : row.state = .DRAFT)
      (hversions : s'.versions = s.versions.insert i x row)
      (hstage : s'.stage = Function.update s.stage i (.writing [])) : Moved s e s'
  | wrote {e : VersionEvent} {s' : WorkflowDb} (i : ℕ) (x : VersionTransaction) (w : VersionWrite)
      (pending : List VersionWrite)
      (hx : s.versions.transactions[i]? = some x) (hwriting : s.stage i = .writing (w :: pending))
      (hversions : s'.versions = s.versions.update i x w.row.id w.change)
      (hstage : s'.stage = Function.update s.stage i (.writing pending)) : Moved s e s'
  | committed {s' : WorkflowDb} (i : ℕ) (x : VersionTransaction)
      (hx : s.versions.transactions[i]? = some x)
      (hwriting : s.stage i = .writing [])
      (hversions : s'.versions = s.versions.commit versionTable i x)
      (hstage : s'.stage = Function.update s.stage i .idle) : Moved s (.commit i) s'
  | aborted {e : VersionEvent} {s' : WorkflowDb} (i : ℕ) (x : VersionTransaction)
      (hx : s.versions.transactions[i]? = some x)
      (hversions : s'.versions = s.versions.rollback i)
      (hstage : s'.stage = Function.update s.stage i .idle) : Moved s e s'

section Steps

theorem not_writing_of_idle (h : s.stage i = .idle) : ¬ Writing (s.stage i) := by
  rintro ⟨pending, hpending⟩
  rw [h] at hpending
  cases hpending

theorem moved_request {workflowId : String} {number : ℕ}
    {handle : WorkflowVersionRow → Except String VersionStage}
    (hhandle : ∀ version stage, handle version = .ok stage → OnePublish (pendingUpdates stage))
    (h : s.request i workflowId number handle = some s') : Moved s e s' := by
  rw [request] at h
  split at h
  · next hidle =>
      split at h
      · cases h
        exact .still rfl rfl
      · split at h
        · cases h
          exact .still rfl rfl
        · next hok =>
            cases h
            exact .staged i _ (not_writing_of_idle hidle) (hhandle _ _ hok) rfl rfl
  · cases h

theorem moved_createWorkflow {id : String} {new : NewVersion} {now : Timestamp}
    (h : step N s (.createWorkflow i id new now) = some s') : Moved s e s' := by
  simp only [step, Option.bind_eq_bind, Option.bind_eq_some_iff] at h
  obtain ⟨x, hx, h⟩ := h
  split at h
  · next hidle =>
      split at h
      · cases h
      · next hawaited =>
          split at h
          · cases h
            exact .still rfl rfl
          · next hviolated =>
              cases h
              exact .inserted i x _ hx (not_writing_of_idle hidle) hawaited hviolated rfl rfl rfl
  · cases h

theorem moved_insertVersion {id : String} {now : Timestamp}
    (h : step N s (.insertVersion i id now) = some s') : Moved s e s' := by
  simp only [step, Option.bind_eq_bind, Option.bind_eq_some_iff] at h
  obtain ⟨x, hx, h⟩ := h
  split at h
  · next new retried number hinserting =>
      have hwriting : ¬ Writing (s.stage i) := by
        rintro ⟨pending, hpending⟩
        rw [hinserting] at hpending
        cases hpending
      split at h
      · cases h
      · next hawaited =>
          split at h
          · cases h
            refine .staged i (if retried then .idle else .numbering new true) hwriting ?_ rfl rfl
            cases retried <;> exact onePublish_nil
          · next hviolated =>
              cases h
              exact .inserted i x _ hx hwriting hawaited hviolated rfl rfl rfl
  · cases h

theorem moved_write {entryId : String} (h : step N s (.write i entryId) = some s') :
    Moved s e s' := by
  simp only [step, Option.bind_eq_bind, Option.bind_eq_some_iff] at h
  obtain ⟨x, hx, h⟩ := h
  split at h
  · next w pending hwriting =>
      split at h
      · cases h
      · simp only [Option.bind_eq_some_iff] at h
        obtain ⟨audit, -, heq⟩ := h
        cases heq
        exact .wrote i x w pending hx hwriting rfl rfl
  · cases h

theorem moved_insertEntry (h : step N s (.insertEntry i) = some s') : Moved s e s' := by
  simp only [step, Option.bind_eq_bind, Option.bind_eq_some_iff] at h
  obtain ⟨x, hx, before, -, audit, -, after, -, h⟩ := h
  split at h
  · obtain ⟨audit', -, heq⟩ := Option.bind_eq_some_iff.mp h
    cases heq
    exact .aborted i x hx rfl rfl
  · cases h
    exact .still rfl rfl

theorem moved_of_step (h : step N s e = some s') : Moved s e s' := by
  cases e with
  | createWorkflow i id new now => exact moved_createWorkflow h
  | createVersion i new =>
      simp only [step] at h
      split at h
      · next hidle =>
          cases h
          exact .staged i (.numbering new false) (not_writing_of_idle hidle) onePublish_nil rfl rfl
      · cases h
  | nextNumber i =>
      simp only [step] at h
      split at h
      · next new retried hnumbering =>
          cases h
          refine .staged i (.inserting new retried _) ?_ onePublish_nil rfl rfl
          rintro ⟨pending, hpending⟩
          rw [hnumbering] at hpending
          cases hpending
      · cases h
  | insertVersion i id now => exact moved_insertVersion h
  | updateVersion i workflowId number definition =>
      exact moved_request (fun _ _ => onePublish_updateVersionDefinition) h
  | publishVersion i workflowId number actor now =>
      exact moved_request (fun _ _ => onePublish_publishVersion) h
  | deprecateVersion i workflowId number actor now =>
      exact moved_request (fun _ _ => onePublish_deprecateVersion) h
  | selectPublished i =>
      simp only [step] at h
      split at h
      · next hselecting =>
          cases h
          refine .staged i (.writing (publishWrites _ _ _ _)) ?_ onePublish_publishWrites rfl rfl
          rintro ⟨pending, hpending⟩
          rw [hselecting] at hpending
          cases hpending
      · cases h
  | write i entryId => exact moved_write h
  | readHead i now =>
      simp only [step, Option.bind_eq_bind, Option.bind_eq_some_iff] at h
      obtain ⟨audit, -, heq⟩ := h
      cases heq
      exact .still rfl rfl
  | insertEntry i => exact moved_insertEntry h
  | commit i =>
      simp only [step, Option.bind_eq_bind, Option.bind_eq_some_iff] at h
      obtain ⟨x, hx, h⟩ := h
      split at h
      · next hwriting =>
          obtain ⟨audit, -, heq⟩ := Option.bind_eq_some_iff.mp h
          cases heq
          exact .committed i x hx hwriting rfl rfl
      · cases h
  | rollback i =>
      simp only [step, Option.bind_eq_bind, Option.bind_eq_some_iff] at h
      obtain ⟨x, hx, audit, -, heq⟩ := h
      cases heq
      exact .aborted i x hx rfl rfl

end Steps

-- What a transaction has written and will write, by its stage.
structure Planned (x : VersionTransaction) (stage : VersionStage) : Prop where
  one : OnePublish (x.written ++ pendingUpdates stage)
  settled : ¬ Writing stage → x = .empty
  apart : x.inserted = [] ∨ x.written ++ pendingUpdates stage = []

structure Sound (s : WorkflowDb) : Prop where
  keyed : s.versions.Keyed versionTable
  drafts : ∀ x ∈ s.versions.transactions, ∀ row ∈ x.inserted, row.state = .DRAFT
  planned : ∀ (i : ℕ) (x : VersionTransaction), s.versions.transactions[i]? = some x →
    Planned x (s.stage i)
  single : ∀ row ∈ s.versions.committed, ∀ row' ∈ s.versions.committed,
    row.workflowId = row'.workflowId → row.state = .PUBLISHED → row'.state = .PUBLISHED →
      row.id = row'.id

section Applied
variable {rows : List WorkflowVersionRow} {row : WorkflowVersionRow}
  {ws : List (String × VersionChange)} {k : String}

theorem workflowId_applyAll : (versionTable.applyAll ws row).workflowId = row.workflowId := by
  refine RowTable.applyAll_induction (T := versionTable)
    (P := fun r => r.workflowId = row.workflowId) ?_ rfl
  intro w _ r _ _ hr
  rcases w with ⟨k, c⟩
  cases c <;> exact hr

theorem published_of_applyAll (h : ∀ w ∈ ws, ∀ now, w.2 ≠ .toPublished now)
    (hrow : (versionTable.applyAll ws row).state = .PUBLISHED) : row.state = .PUBLISHED := by
  by_contra hstate
  refine absurd hrow (RowTable.applyAll_induction (T := versionTable)
    (P := fun r => r.state ≠ .PUBLISHED) ?_ hstate)
  intro w hw r _ _ hr
  rcases w with ⟨k, c⟩
  cases c with
  | toPublished now => exact absurd rfl (h _ hw now)
  | toDeprecated now => simp [versionTable, VersionChange.apply]
  | toDefinition definition => exact hr

theorem unmarked_of_applyAll
    (h : ∀ w ∈ ws, (∃ now, w.2 = .toDeprecated now) ∨ (w.1 = k ∧ ∃ now, w.2 = .toPublished now))
    (hid : row.id ≠ k) (hrow : (versionTable.applyAll ws row).state = .PUBLISHED) :
    row.state = .PUBLISHED ∧ ∀ w ∈ ws, w.1 ≠ row.id := by
  have hunmarked : ¬ ∃ w ∈ ws, w.1 = versionTable.key row := by
    intro hw
    have hmarks : ∀ w ∈ ws, w.1 = versionTable.key row → ∀ r,
        (versionTable.change w.2 r).state ≠ .PUBLISHED := by
      intro w hw hkey r
      rcases h w hw with ⟨now, hdeprecated⟩ | ⟨hk, -⟩
      · rw [hdeprecated]
        simp [versionTable, VersionChange.apply]
      · exact absurd (hkey.symm.trans hk) hid
    exact RowTable.applyAll_of_written (P := fun r => r.state ≠ .PUBLISHED) hmarks hw hrow
  have hnone : ∀ w ∈ ws, w.1 ≠ versionTable.key row := by
    intro w hw hkey
    exact hunmarked ⟨w, hw, hkey⟩
  rw [RowTable.applyAll_of_not_written hnone] at hrow
  exact ⟨hrow, hnone⟩

end Applied

section Sound
variable {x : VersionTransaction}

theorem mem_published {rows : List WorkflowVersionRow} {workflowId : String}
    {row : WorkflowVersionRow} :
    row ∈ published rows workflowId ↔
      row ∈ rows ∧ row.workflowId = workflowId ∧ row.state = .PUBLISHED := by
  simp [published]

theorem Sound.committed_of_published (h : Sound s) (hx : s.versions.transactions[i]? = some x)
    {row : WorkflowVersionRow} (hrow : row ∈ s.versions.committed ++ x.inserted)
    (hstate : row.state = .PUBLISHED) : row ∈ s.versions.committed := by
  rcases List.mem_append.mp hrow with hrow | hrow
  · exact hrow
  · rw [h.drafts x (List.mem_of_getElem? hx) row hrow] at hstate
    cases hstate

theorem Sound.published_alone (h : Sound s) (hx : s.versions.transactions[i]? = some x)
    (hcurrent : Current s x) {k : String}
    (hone : ∀ w ∈ x.written,
      (∃ now, w.2 = .toDeprecated now) ∨ (w.1 = k ∧ ∃ now, w.2 = .toPublished now))
    {row other : WorkflowVersionRow} (hrow : row ∈ s.versions.committed ++ x.inserted)
    (hother : other ∈ s.versions.committed ++ x.inserted) (hk : row.id = k) (hne : other.id ≠ k)
    (hsame : row.workflowId = other.workflowId)
    (hrowstate : (versionTable.applyAll x.written row).state = .PUBLISHED)
    (hotherstate : (versionTable.applyAll x.written other).state = .PUBLISHED) :
    row.id = other.id := by
  obtain ⟨hbefore, hunmarked⟩ := unmarked_of_applyAll hone hne hotherstate
  have hcommitted := h.committed_of_published hx hother hbefore
  by_cases hpublish : ∃ w ∈ x.written, ∃ now, w.2 = .toPublished now
  · obtain ⟨w, hw, now, hnow⟩ := hpublish
    have hwk : w.1 = k := by
      rcases hone w hw with ⟨now', hdeprecated⟩ | ⟨hwk, -⟩
      · rw [hnow] at hdeprecated
        cases hdeprecated
      · exact hwk
    have hrow' : row ∈ s.versions.committed := by
      rcases (h.planned i x hx).apart with hnone | hnone
      · rwa [hnone, List.append_nil] at hrow
      · rw [(List.append_eq_nil_iff.mp hnone).1] at hw
        cases hw
    obtain ⟨v, hv, hvother⟩ := hcurrent w hw (by rw [hnow]; rfl) row hrow' (hk.trans hwk.symm) other
      (mem_published.mpr ⟨hcommitted, hsame.symm, hbefore⟩)
    exact absurd hvother (hunmarked v hv)
  · have hnone : ∀ w ∈ x.written, ∀ now, w.2 ≠ .toPublished now := by
      intro w hw now hnow
      exact hpublish ⟨w, hw, now, hnow⟩
    have hrowbefore := published_of_applyAll hnone hrowstate
    exact h.single row (h.committed_of_published hx hrow hrowbefore) other hcommitted hsame
      hrowbefore hbefore

theorem Sound.single_commit (h : Sound s) (hx : s.versions.transactions[i]? = some x)
    (hwriting : s.stage i = .writing []) (hcurrent : Current s x)
    {row other : WorkflowVersionRow} (hrow : row ∈ s.versions.committed ++ x.inserted)
    (hother : other ∈ s.versions.committed ++ x.inserted)
    (hsame : row.workflowId = other.workflowId)
    (hrowstate : (versionTable.applyAll x.written row).state = .PUBLISHED)
    (hotherstate : (versionTable.applyAll x.written other).state = .PUBLISHED) :
    row.id = other.id := by
  have hone := (h.planned i x hx).one
  rw [hwriting, pendingUpdates, List.map_nil, List.append_nil] at hone
  rcases hone with hnone | ⟨k, hone⟩
  · have hrowbefore := published_of_applyAll hnone hrowstate
    have hotherbefore := published_of_applyAll hnone hotherstate
    exact h.single row (h.committed_of_published hx hrow hrowbefore) other
      (h.committed_of_published hx hother hotherbefore) hsame hrowbefore hotherbefore
  · rcases eq_or_ne row.id k with hk | hk
    · rcases eq_or_ne other.id k with hk' | hk'
      · exact hk.trans hk'.symm
      · exact h.published_alone hx hcurrent hone hrow hother hk hk' hsame hrowstate hotherstate
    · rcases eq_or_ne other.id k with hk' | hk'
      · exact (h.published_alone hx hcurrent hone hother hrow hk' hk hsame.symm hotherstate
          hrowstate).symm
      · have hrowbefore := (unmarked_of_applyAll hone hk hrowstate).1
        have hotherbefore := (unmarked_of_applyAll hone hk' hotherstate).1
        exact h.single row (h.committed_of_published hx hrow hrowbefore) other
          (h.committed_of_published hx hother hotherbefore) hsame hrowbefore hotherbefore

theorem planned_empty {stage : VersionStage} (h : OnePublish (pendingUpdates stage)) :
    Planned .empty stage :=
  ⟨h, fun _ => rfl, Or.inl rfl⟩

theorem Sound.stage (h : Sound s) {stage : VersionStage} (hwriting : ¬ Writing (s.stage i))
    (hone : OnePublish (pendingUpdates stage)) (hversions : s'.versions = s.versions)
    (hstage : s'.stage = Function.update s.stage i stage) : Sound s' := by
  constructor
  · rw [hversions]
    exact h.keyed
  · rw [hversions]
    exact h.drafts
  · rw [hversions, hstage]
    apply Slots.staged_update h.planned
    · intro j _
      rfl
    · intro x hx
      rw [(h.planned i x hx).settled hwriting]
      exact planned_empty hone
  · rw [hversions]
    exact h.single

theorem Sound.insert (h : Sound s) {row : WorkflowVersionRow}
    (hx : s.versions.transactions[i]? = some x) (hwriting : ¬ Writing (s.stage i))
    (hawaited : ¬ s.versions.Awaited versionConflict i row)
    (hviolated : ¬ s.versions.Violated versionConflict x row) (hdraft : row.state = .DRAFT)
    (hversions : s'.versions = s.versions.insert i x row)
    (hstage : s'.stage = Function.update s.stage i (.writing [])) : Sound s' := by
  have hempty := (h.planned i x hx).settled hwriting
  constructor
  · rw [hversions]
    exact h.keyed.insert (fun a b heq => Or.inl heq) hx hawaited hviolated
  · rw [hversions]
    apply Slots.forall_set h.drafts
    intro r hr
    rcases List.mem_append.mp hr with hr | hr
    · exact h.drafts x (List.mem_of_getElem? hx) r hr
    · rw [List.mem_singleton.mp hr]
      exact hdraft
  · rw [hversions, hstage]
    apply Slots.staged_set h.planned
    subst hempty
    exact ⟨onePublish_nil, fun hnot => absurd ⟨[], rfl⟩ hnot, Or.inr rfl⟩
  · rw [hversions]
    exact h.single

theorem Sound.write (h : Sound s) {w : VersionWrite} {pending : List VersionWrite}
    (hx : s.versions.transactions[i]? = some x) (hwriting : s.stage i = .writing (w :: pending))
    (hversions : s'.versions = s.versions.update i x w.row.id w.change)
    (hstage : s'.stage = Function.update s.stage i (.writing pending)) : Sound s' := by
  have hplanned := h.planned i x hx
  rw [hwriting] at hplanned
  have hmove : (x.written ++ [w.update]) ++ pendingUpdates (.writing pending) =
      x.written ++ pendingUpdates (.writing (w :: pending)) := by
    rw [List.append_assoc]
    rfl
  constructor
  · rw [hversions]
    exact h.keyed.update hx
  · rw [hversions]
    apply Slots.forall_set h.drafts
    exact h.drafts x (List.mem_of_getElem? hx)
  · rw [hversions, hstage]
    apply Slots.staged_set h.planned
    refine ⟨hmove ▸ hplanned.one, fun hnot => absurd ⟨pending, rfl⟩ hnot, ?_⟩
    rcases hplanned.apart with hnone | hnone
    · exact Or.inl hnone
    · simp [pendingUpdates] at hnone
  · rw [hversions]
    exact h.single

theorem Sound.abort (h : Sound s) (hx : s.versions.transactions[i]? = some x)
    (hversions : s'.versions = s.versions.rollback i)
    (hstage : s'.stage = Function.update s.stage i .idle) : Sound s' := by
  constructor
  · rw [hversions]
    exact h.keyed.rollback hx
  · rw [hversions]
    apply Slots.forall_set h.drafts
    intro r hr
    cases hr
  · rw [hversions, hstage]
    exact Slots.staged_set h.planned (planned_empty onePublish_nil)
  · rw [hversions]
    exact h.single

theorem Sound.commit (h : Sound s) (hx : s.versions.transactions[i]? = some x)
    (hwriting : s.stage i = .writing []) (hcurrent : Current s x)
    (hversions : s'.versions = s.versions.commit versionTable i x)
    (hstage : s'.stage = Function.update s.stage i .idle) : Sound s' := by
  constructor
  · rw [hversions]
    exact h.keyed.commit hx
  · rw [hversions]
    apply Slots.forall_set h.drafts
    intro r hr
    cases hr
  · rw [hversions, hstage]
    exact Slots.staged_set h.planned (planned_empty onePublish_nil)
  · rw [hversions]
    intro row' hrow' other' hother' hsame hrowstate hotherstate
    obtain ⟨row, hrow, rfl⟩ := ReadCommitted.mem_view.mp hrow'
    obtain ⟨other, hother, rfl⟩ := ReadCommitted.mem_view.mp hother'
    rw [workflowId_applyAll, workflowId_applyAll] at hsame
    have hid := h.single_commit hx hwriting hcurrent hrow hother hsame hrowstate hotherstate
    have hkey : ∀ r : WorkflowVersionRow, (versionTable.applyAll x.written r).id = r.id :=
      fun r => RowTable.key_applyAll (T := versionTable)
    rw [hkey, hkey]
    exact hid

theorem sound_step (h : Sound s) (hg : CommitsCurrent s e) (hstep : step N s e = some s') :
    Sound s' := by
  cases moved_of_step hstep with
  | still hversions hstage =>
      constructor
      · rw [hversions]
        exact h.keyed
      · rw [hversions]
        exact h.drafts
      · rw [hversions, hstage]
        exact h.planned
      · rw [hversions]
        exact h.single
  | staged i stage hwriting hone hversions hstage =>
      exact h.stage hwriting hone hversions hstage
  | inserted i x row hx hwriting hawaited hviolated hdraft hversions hstage =>
      exact h.insert hx hwriting hawaited hviolated hdraft hversions hstage
  | wrote i x w pending hx hwriting hversions hstage =>
      exact h.write hx hwriting hversions hstage
  | committed i x hx hwriting hversions hstage =>
      exact h.commit hx hwriting (hg x hx) hversions hstage
  | aborted i x hx hversions hstage => exact h.abort hx hversions hstage

theorem start_sound {writers : ℕ} : Sound (start writers) := by
  have hempty : ∀ x ∈ (start writers).versions.transactions, x = .empty :=
    fun x hx => List.eq_of_mem_replicate hx
  constructor
  · have hnone : (start writers).versions.transactions.flatMap (·.inserted) = [] := by
      rw [List.flatMap_eq_nil_iff]
      intro x hx
      rw [hempty x hx]
      rfl
    rw [ReadCommitted.Keyed, hnone]
    exact List.nodup_nil
  · intro x hx row hrow
    rw [hempty x hx] at hrow
    cases hrow
  · intro i x hx
    rw [hempty x (List.mem_of_getElem? hx)]
    exact planned_empty onePublish_nil
  · intro row hrow
    cases hrow

theorem Sound.singlePublished (h : Sound s) : SinglePublished s.versions.committed := by
  intro workflowId
  have hkeys : ((published s.versions.committed workflowId).map (·.id)).Nodup :=
    h.keyed.committed.sublist (List.filter_sublist.map _)
  have hsingle : ∀ row ∈ published s.versions.committed workflowId,
      ∀ other ∈ published s.versions.committed workflowId, row.id = other.id := by
    intro row hrow other hother
    obtain ⟨hmem, hworkflow, hstate⟩ := mem_published.mp hrow
    obtain ⟨hmem', hworkflow', hstate'⟩ := mem_published.mp hother
    exact h.single row hmem other hmem' (hworkflow.trans hworkflow'.symm) hstate hstate'
  match hrows : published s.versions.committed workflowId with
  | [] => exact Nat.zero_le 1
  | [row] => exact Nat.le_refl 1
  | row :: other :: rest =>
      rw [hrows] at hkeys hsingle
      have hid := hsingle row (by simp) other (by simp)
      simp [hid] at hkeys

theorem getPublishedVersion_ok {rows : List WorkflowVersionRow} (h : SinglePublished rows)
    (workflowId : String) : ∃ row, getPublishedVersion rows workflowId = .ok row := by
  have hlength := h workflowId
  rw [getPublishedVersion]
  match hrows : published rows workflowId with
  | [] => exact ⟨none, rfl⟩
  | [row] => exact ⟨some row, rfl⟩
  | _ :: _ :: _ =>
      rw [hrows] at hlength
      simp at hlength

end Sound

instance (s : WorkflowDb) (x : VersionTransaction) : Decidable (Current s x) :=
  inferInstanceAs (Decidable (∀ w ∈ x.written, w.2.publishes → ∀ version ∈ s.versions.committed,
    version.id = w.1 → ∀ row ∈ published s.versions.committed version.workflowId,
      ∃ v ∈ x.written, v.1 = row.id))

instance (s : WorkflowDb) : ∀ e, Decidable (CommitsCurrent s e)
  | .commit i => inferInstanceAs (Decidable (∀ x ∈ s.versions.transactions[i]?, Current s x))
  | .createWorkflow .. | .createVersion .. | .nextNumber _ | .insertVersion .. | .updateVersion ..
  | .publishVersion .. | .deprecateVersion .. | .selectPublished _ | .write .. | .readHead ..
  | .insertEntry _ | .rollback _ => isTrue trivial

def triage : NewVersion where
  workflowId := "wf_1"
  definition := ⟨[("name", .str "triage")], List.nodup_singleton _⟩
  orgId := "org_default"
  createdBy := none

def noNumbers : JsonbNumeric := .verbatim

def noon : Timestamp := ⟨2026, 7, 1, 12, 0, 0, 0, none⟩

def twoDrafts : List VersionEvent :=
  [.createWorkflow 0 "wfv_1" triage noon, .commit 0, .createVersion 0 triage, .nextNumber 0,
    .insertVersion 0 "wfv_2" noon, .commit 0]

-- Both look for the published version before either one commits.
def publishBoth : List VersionEvent :=
  [.publishVersion 0 "wf_1" 1 "alice" noon, .publishVersion 1 "wf_1" 2 "bob" noon,
    .selectPublished 0, .selectPublished 1, .write 0 "aud_1", .write 1 "aud_2", .readHead 0 noon,
    .readHead 1 noon, .insertEntry 0, .commit 0, .insertEntry 1, .readHead 1 noon, .insertEntry 1,
    .commit 1]

theorem two_versions_published : ¬ ∀ (N : JsonbNumeric) (writers : ℕ) (events : List VersionEvent)
    (s : WorkflowDb), (machine N).run (start writers) events = some s →
      SinglePublished s.versions.committed := by
  intro h
  have hrun : ((machine noNumbers).run (start 2) (twoDrafts ++ publishBoth)).any fun s =>
      decide (¬ (published s.versions.committed "wf_1").length ≤ 1) := by
    decide
  obtain ⟨s, hs, hnot⟩ := (Option.any_eq_true _ _).mp hrun
  exact of_decide_eq_true hnot (h noNumbers 2 _ s hs "wf_1")

theorem single_published {writers : ℕ} {events : List VersionEvent}
    (hg : (machine N).Along CommitsCurrent (start writers) events)
    (h : (machine N).run (start writers) events = some s) : SinglePublished s.versions.committed :=
  ((machine N).invariant_along (I := Sound) sound_step start_sound hg h).singlePublished

-- The second one publishes after the first has committed, and marks its version.
def publishInTurn : List VersionEvent :=
  [.publishVersion 0 "wf_1" 1 "alice" noon, .selectPublished 0, .write 0 "aud_1", .readHead 0 noon,
    .insertEntry 0, .publishVersion 1 "wf_1" 2 "bob" noon, .commit 0, .selectPublished 1,
    .write 1 "aud_2", .readHead 1 noon, .insertEntry 1, .write 1 "aud_3", .readHead 1 noon,
    .insertEntry 1, .commit 1]

theorem publishInTurn_single : ∃ s,
    (machine noNumbers).run (start 2) (twoDrafts ++ publishInTurn) = some s ∧
      s.versions.committed.map (·.state) = [.DEPRECATED, .PUBLISHED] ∧
      SinglePublished s.versions.committed := by
  have hrun : ((machine noNumbers).run (start 2) (twoDrafts ++ publishInTurn)).any fun s =>
      decide (s.versions.committed.map (·.state) = [.DEPRECATED, .PUBLISHED]) := by
    decide
  obtain ⟨s, hs, hstates⟩ := (Option.any_eq_true _ _).mp hrun
  exact ⟨s, hs, of_decide_eq_true hstates, single_published (by decide) hs⟩

end WorkflowDb

end BTagent
