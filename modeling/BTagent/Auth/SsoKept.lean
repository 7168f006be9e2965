import BTagent.Auth.SsoIdentities

namespace BTagent

-- What one request has done and will do to the identities and the ledger.
structure SsoSlot where
  inserted : List SSOIdentityRow
  deleted : List String
  entries : List AuditEntry
  stage : SsoStage

namespace SsoSlot

def pendingRecords : SsoStage → List AuditEntry
  | .writing pending _ => pending.filterMap fun
      | .record entry => some entry
      | _ => none
  | _ => []

def pendingDeletes : SsoStage → List String
  | .writing pending _ => pending.filterMap fun
      | .deleteIdentity id => some id
      | _ => none
  | _ => []

def rows : SsoStage → List SSOIdentityRow
  | .loading _ identity => [identity]
  | .writing pending login => login.toList ++ pending.filterMap fun
      | .insertIdentity row => some row
      | _ => none
  | _ => []

def recorded (c : SsoSlot) : List AuditEntry := c.entries ++ pendingRecords c.stage

def deletes (c : SsoSlot) : List String := c.deleted ++ pendingDeletes c.stage

def after (c : SsoSlot) : SsoWrite → SsoSlot
  | .insertIdentity row => { c with inserted := c.inserted ++ [row] }
  | .deleteIdentity id => { c with deleted := c.deleted ++ [id] }
  | .record entry => { c with entries := c.entries ++ [entry] }
  | _ => c

def enter (c : SsoSlot) (stage : SsoStage) : SsoSlot := { c with stage := stage }

def idle : SsoSlot := ⟨[], [], [], .idle⟩

section After
variable {c : SsoSlot} {w : SsoWrite} {pending : List SsoWrite} {login : Option SSOIdentityRow}

theorem recorded_after (h : c.stage = .writing (w :: pending) login) :
    ((c.after w).enter (.writing pending login)).recorded = c.recorded := by
  cases w <;> simp [recorded, enter, after, pendingRecords, h]

theorem deletes_after (h : c.stage = .writing (w :: pending) login) :
    ((c.after w).enter (.writing pending login)).deletes = c.deletes := by
  cases w <;> simp [deletes, enter, after, pendingDeletes, h]

end After

end SsoSlot

namespace SsoDb
open Sso SsoSlot

variable {providers : List String} {since s t : SsoDb} {i j : ℕ} {u : UserRow}
  {row : SSOIdentityRow} {recorded entries added : List AuditEntry} {fresh : List SSOIdentityRow}
  {pending : List SsoWrite} {login : Option SSOIdentityRow} {stage : SsoStage} {w : SsoWrite}

def slot (s : SsoDb) (i : ℕ) : SsoSlot where
  inserted := s.identities.transactions[i]?.elim [] (·.inserted)
  deleted := s.identities.transactions[i]?.elim [] fun y => y.written.map (·.1)
  entries := s.entries i
  stage := s.stage i

section Slots

@[simp] theorem slot_stage : (s.slot i).stage = s.stage i := rfl

theorem slot_enter : (s.enter i stage).slot i = (s.slot i).enter stage := by
  simp [slot, SsoDb.enter, SsoSlot.enter]

theorem slot_enter_ne (h : j ≠ i) : (s.enter i stage).slot j = s.slot j := by
  simp [slot, SsoDb.enter, Function.update_of_ne h]

theorem slot_abort : (s.abort i).slot i = SsoSlot.idle := by
  simp only [slot, abort, SsoSlot.idle, ReadCommitted.rollback, ReadCommitted.move,
    Function.update_self, List.getElem?_set_self']
  cases s.identities.transactions[i]? <;> rfl

theorem slot_abort_ne (h : j ≠ i) : (s.abort i).slot j = s.slot j := by
  simp [slot, abort, ReadCommitted.rollback, ReadCommitted.move, Function.update_of_ne h,
    List.getElem?_set_ne h.symm]

theorem Wrote.slot (h : Wrote s i w t) : t.slot i = (s.slot i).after w := by
  cases h with
  | insertUser => rfl
  | setPassword => rfl
  | insertIdentity row y hy =>
      have hi : i < s.identities.transactions.length := (List.getElem?_eq_some_iff.mp hy).1
      simp only [SsoDb.slot, after, ReadCommitted.insert, ReadCommitted.move, hy,
        List.getElem?_set_self hi, Option.elim_some]
  | deleteIdentity id y hy =>
      have hi : i < s.identities.transactions.length := (List.getElem?_eq_some_iff.mp hy).1
      simp only [SsoDb.slot, after, ReadCommitted.update, ReadCommitted.move, hy,
        List.getElem?_set_self hi, Option.elim_some, List.map_append, List.map_singleton]
  | record entry => simp [SsoDb.slot, after]

theorem Wrote.slot_ne (h : Wrote s i w t) (hne : j ≠ i) : t.slot j = s.slot j := by
  cases h with
  | insertUser => rfl
  | setPassword => rfl
  | insertIdentity =>
      simp [SsoDb.slot, ReadCommitted.insert, ReadCommitted.move, List.getElem?_set_ne hne.symm]
  | deleteIdentity =>
      simp [SsoDb.slot, ReadCommitted.update, ReadCommitted.move, List.getElem?_set_ne hne.symm]
  | record => simp [SsoDb.slot, Function.update_of_ne hne]

theorem recorded_done (h : s.stage i = .writing [] login) :
    (s.slot i).recorded = s.entries i := by
  rw [SsoSlot.recorded, slot_stage, h]
  exact List.append_nil _

-- What a commit does.
structure Committed (s : SsoDb) (i : ℕ) (t : SsoDb) : Prop where
  users : ∃ x, s.users.transactions[i]? = some x ∧ t.users = s.users.commit userTable i x
  identities : ∃ y, s.identities.transactions[i]? = some y ∧
    t.identities = s.identities.commitDeletes SSOIdentityRow.id i y
  mem : ∀ row, row ∈ t.identities.committed ↔
    (row ∈ s.identities.committed ∨ row ∈ (s.slot i).inserted) ∧ row.id ∉ (s.slot i).deleted
  trail : t.trail = s.trail ++ s.entries i
  logins : t.logins = s.logins
  slot : t.slot i = SsoSlot.idle
  slot_ne : ∀ j ≠ i, t.slot j = s.slot j

theorem committed_of_commit (h : s.commit i = some t) : Committed s i t := by
  simp only [commit, Option.bind_eq_bind, Option.bind_eq_some_iff, Option.some.injEq] at h
  obtain ⟨x, hx, y, hy, rfl⟩ := h
  have hi : i < s.identities.transactions.length := (List.getElem?_eq_some_iff.mp hy).1
  refine ⟨⟨x, hx, rfl⟩, ⟨y, hy, rfl⟩, ?_, rfl, rfl, ?_, ?_⟩
  · intro row
    rw [ReadCommitted.mem_commitDeletes]
    simp [SsoDb.slot, hy, ReadCommitted.Deleted]
  · simp [SsoDb.slot, ReadCommitted.commitDeletes, SsoSlot.idle, hi, Transaction.empty]
  · intro j hne
    simp [SsoDb.slot, ReadCommitted.commitDeletes, Function.update_of_ne hne,
      List.getElem?_set_ne hne.symm]

end Slots

-- A request has found, planned or inserted the identity, and not ended.
def InFlight (s : SsoDb) (row : SSOIdentityRow) : Prop :=
  ∃ i, row ∈ (s.slot i).inserted ∨ row ∈ rows (s.stage i)

def Mentions (entry : AuditEntry) (key value : String) : Prop :=
  ∃ d, entry.details = some d ∧ d.get? key = some (.str value)

-- The entry says that an administrator of the organisation bound the identity to its user.
structure IsLink (orgId : String) (row : SSOIdentityRow) (entry : AuditEntry) : Prop where
  orgId : entry.orgId = orgId
  action : entry.action = "sso.identity.link"
  outcome : entry.outcome = .SUCCESS
  resource : entry.resource = s!"user:{row.userId}"
  provider : Mentions entry "provider" row.provider
  subject : Mentions entry "subject" row.subject
  identityId : Mentions entry "identity_id" row.id

structure IsUnlink (id : String) (entry : AuditEntry) : Prop where
  action : entry.action = "sso.identity.unlink"
  outcome : entry.outcome = .SUCCESS
  identityId : Mentions entry "identity_id" id

theorem isLink_linkEntry {user : CurrentUser} {target : UserRow} (h : row.userId = target.id) :
    IsLink user.orgId row (linkEntry user target row) :=
  ⟨rfl, rfl, rfl, by rw [h]; rfl, ⟨_, rfl, rfl⟩, ⟨_, rfl, rfl⟩, ⟨_, rfl, rfl⟩⟩

theorem isUnlink_unlinkEntry {user : CurrentUser} : IsUnlink row.id (unlinkEntry user row) :=
  ⟨rfl, rfl, ⟨_, rfl, rfl⟩⟩

section Sound

def naturalKey (row : SSOIdentityRow) : String × String := (row.provider, row.subject)

def Checked (users : List UserRow) : SsoStage → Prop
  | .checking user _ target => user.orgId = target.orgId ∧
      ∃ v ∈ users, v.id = target.id ∧ v.orgId = target.orgId
  | _ => True

structure Sound (s : SsoDb) : Prop where
  users : s.users.Keyed userTable
  keys : s.identities.Distinct naturalKey
  checked : ∀ i, Checked s.users.committed (s.slot i).stage
  deletes : ∀ i, ∀ id ∈ (s.slot i).deletes, ∃ entry ∈ (s.slot i).recorded, IsUnlink id entry

theorem forall_slot {P : SsoSlot → Prop} (h : ∀ j, P (s.slot j))
    (hother : ∀ j ≠ i, t.slot j = s.slot j) (hnew : P (t.slot i)) : ∀ j, P (t.slot j) := by
  intro j
  rcases eq_or_ne j i with rfl | hne
  · exact hnew
  · exact hother j hne ▸ h j

-- A committed user keeps its id and its organisation, and a password once it has one.
def Kept (users users' : List UserRow) : Prop :=
  ∀ v ∈ users, ∃ v' ∈ users', v'.id = v.id ∧ v'.orgId = v.orgId ∧
    (v.passwordHash ≠ none → v'.passwordHash ≠ none)

theorem kept_commit {users : ReadCommitted UserRow String String}
    {x : Transaction UserRow String String} :
    Kept users.committed (users.commit userTable i x).committed := by
  intro v hv
  refine ⟨_, List.mem_map_of_mem (List.mem_append_left _ hv),
    RowTable.key_applyAll (T := userTable), ?_⟩
  refine RowTable.applyAll_induction (T := userTable)
    (P := fun r => r.orgId = v.orgId ∧ (v.passwordHash ≠ none → r.passwordHash ≠ none))
    ?_ ⟨rfl, id⟩
  rintro w - r - - ⟨horg, -⟩
  exact ⟨horg, fun _ => Option.some_ne_none _⟩

theorem Wrote.committed (h : Wrote s i w t) : t.users.committed = s.users.committed ∧
    t.identities.committed = s.identities.committed ∧ t.trail = s.trail ∧ t.logins = s.logins := by
  cases h <;> exact ⟨rfl, rfl, rfl, rfl⟩

theorem Checked.mono {users users' : List UserRow} (h : Checked users stage)
    (hkept : Kept users users') : Checked users' stage := by
  cases stage with
  | checking user body target =>
      obtain ⟨horg, v, hv, hid, hvorg⟩ := h
      obtain ⟨v', hv', hid', horg', -⟩ := hkept v hv
      exact ⟨horg, v', hv', hid'.trans hid, horg'.trans hvorg⟩
  | _ => trivial

theorem checked_of_readTo {users : List UserRow} {identities : List SSOIdentityRow}
    {stage' : SsoStage} (h : ReadTo users identities stage stage') : Checked users stage' := by
  cases h with
  | target hmem horg => exact ⟨horg.symm, _, hmem, rfl, rfl⟩
  | _ => trivial

-- A request that still reads has recorded and deleted what its slot says, and plans nothing.
theorem pending_of_readTo {users : List UserRow} {identities : List SSOIdentityRow}
    {stage' : SsoStage} (h : ReadTo users identities stage stage') :
    pendingRecords stage = [] ∧ pendingDeletes stage = [] ∧
      ∀ id ∈ pendingDeletes stage', ∃ entry ∈ pendingRecords stage', IsUnlink id entry := by
  cases h with
  | unlinked =>
      refine ⟨rfl, rfl, fun id hid => ?_⟩
      rw [List.mem_singleton.mp hid]
      exact ⟨_, List.mem_singleton_self _, isUnlink_unlinkEntry⟩
  | _ => exact ⟨rfl, rfl, fun id hid => absurd hid List.not_mem_nil⟩

theorem Sound.empty (n : ℕ) : Sound (SsoDb.empty n) where
  users := by
    rw [ReadCommitted.Keyed, SsoDb.empty, ReadCommitted.inserted_replicate]
    exact List.nodup_nil
  keys := by
    rw [ReadCommitted.Distinct, SsoDb.empty, ReadCommitted.inserted_replicate]
    exact List.nodup_nil
  checked _ := trivial
  deletes i := by
    have hnone : ((SsoDb.empty n).slot i).deletes = [] := by
      simp only [SsoSlot.deletes, slot, SsoDb.empty, List.getElem?_replicate]
      split <;> rfl
    simp [hnone]

theorem Sound.wrote (h : Sound s) (hstage : s.stage i = .writing (w :: pending) login)
    (hwrote : Wrote s i w t) : Sound (t.enter i (.writing pending login)) where
  users := by
    cases hwrote with
    | insertUser row x hx hawaited hviolated =>
        exact h.users.insert (fun a b heq => Or.inl heq) hx hawaited hviolated
    | setPassword userId passwordHash x hx => exact h.users.update hx
    | _ => exact h.users
  keys := by
    cases hwrote with
    | insertIdentity row y hy hawaited hviolated =>
        refine h.keys.insert (fun a b heq => Or.inr ?_) hy hawaited hviolated
        exact Prod.mk.inj heq
    | deleteIdentity id y hy => exact h.keys.move hy (List.Subperm.refl _)
    | _ => exact h.keys
  checked := by
    refine forall_slot (s := s) (i := i) (P := fun c => Checked _ c.stage) ?_ ?_ ?_
    · intro j
      have hchecked := h.checked j
      rwa [← hwrote.committed.1] at hchecked
    · intro j hne
      rw [slot_enter_ne hne, hwrote.slot_ne hne]
    · rw [slot_enter]
      trivial
  deletes := by
    refine forall_slot (s := s) (i := i)
      (P := fun c => ∀ id ∈ c.deletes, ∃ entry ∈ c.recorded, IsUnlink id entry) h.deletes ?_ ?_
    · intro j hne
      rw [slot_enter_ne hne, hwrote.slot_ne hne]
    · rw [slot_enter, hwrote.slot, recorded_after hstage, deletes_after hstage]
      exact h.deletes i

theorem deletes_enter {c : SsoSlot}
    (h : ∀ id ∈ c.deletes, ∃ entry ∈ c.recorded, IsUnlink id entry)
    (hrecords : pendingRecords c.stage = []) (hdeletes : pendingDeletes c.stage = [])
    (hnew : ∀ id ∈ pendingDeletes stage, ∃ entry ∈ pendingRecords stage, IsUnlink id entry) :
    ∀ id ∈ (c.enter stage).deletes, ∃ entry ∈ (c.enter stage).recorded, IsUnlink id entry := by
  simp only [SsoSlot.deletes, SsoSlot.recorded, hrecords, hdeletes, List.append_nil] at h
  intro id hid
  rcases List.mem_append.mp hid with hid | hid
  · obtain ⟨entry, hentry, hunlink⟩ := h id hid
    exact ⟨entry, List.mem_append_left _ hentry, hunlink⟩
  · obtain ⟨entry, hentry, hunlink⟩ := hnew id hid
    exact ⟨entry, List.mem_append_right _ hentry, hunlink⟩

theorem Sound.enter (h : Sound s) (hchecked : Checked s.users.committed stage)
    (hrecords : pendingRecords (s.stage i) = []) (hdeletes : pendingDeletes (s.stage i) = [])
    (hnew : ∀ id ∈ pendingDeletes stage, ∃ entry ∈ pendingRecords stage, IsUnlink id entry) :
    Sound (s.enter i stage) where
  users := h.users
  keys := h.keys
  checked := by
    refine forall_slot (s := s) (i := i) (P := fun c => Checked _ c.stage) h.checked
      (fun j => slot_enter_ne) ?_
    rw [slot_enter]
    exact hchecked
  deletes := by
    refine forall_slot (s := s) (i := i)
      (P := fun c => ∀ id ∈ c.deletes, ∃ entry ∈ c.recorded, IsUnlink id entry) h.deletes
      (fun j => slot_enter_ne) ?_
    rw [slot_enter]
    exact deletes_enter (h.deletes i) hrecords hdeletes hnew

theorem Sound.abort (h : Sound s) : Sound (s.abort i) where
  users := by
    cases hx : s.users.transactions[i]? with
    | none =>
        rw [SsoDb.abort, ReadCommitted.rollback_of_none hx]
        exact h.users
    | some x => exact h.users.rollback hx
  keys := by
    cases hy : s.identities.transactions[i]? with
    | none =>
        rw [SsoDb.abort, ReadCommitted.rollback_of_none hy]
        exact h.keys
    | some y => exact h.keys.move hy List.nil_subperm
  checked := by
    refine forall_slot (s := s) (i := i) (P := fun c => Checked _ c.stage) h.checked
      (fun j => slot_abort_ne) ?_
    rw [slot_abort]
    trivial
  deletes := by
    refine forall_slot (s := s) (i := i)
      (P := fun c => ∀ id ∈ c.deletes, ∃ entry ∈ c.recorded, IsUnlink id entry) h.deletes
      (fun j => slot_abort_ne) ?_
    rw [slot_abort]
    exact fun id hid => absurd hid List.not_mem_nil

theorem Committed.kept (h : Committed s i t) : Kept s.users.committed t.users.committed := by
  obtain ⟨x, -, hx⟩ := h.users
  rw [hx]
  exact kept_commit

theorem Sound.commit (h : Sound s) (hcommit : Committed s i t) : Sound t where
  users := by
    obtain ⟨x, hx, heq⟩ := hcommit.users
    rw [heq]
    exact h.users.commit hx
  keys := by
    obtain ⟨y, hy, heq⟩ := hcommit.identities
    rw [heq]
    exact h.keys.commitDeletes hy
  checked := by
    refine forall_slot (s := s) (i := i) (P := fun c => Checked _ c.stage)
      (fun j => (h.checked j).mono hcommit.kept) hcommit.slot_ne ?_
    rw [hcommit.slot]
    trivial
  deletes := by
    refine forall_slot (s := s) (i := i)
      (P := fun c => ∀ id ∈ c.deletes, ∃ entry ∈ c.recorded, IsUnlink id entry) h.deletes
      hcommit.slot_ne ?_
    rw [hcommit.slot]
    exact fun id hid => absurd hid List.not_mem_nil

theorem Sound.minted (h : Sound s) : Sound { s with logins := s.logins ++ [row] } :=
  ⟨h.users, h.keys, h.checked, h.deletes⟩

theorem sound_moved (h : Sound s) (hm : Moved s t) : Sound t := by
  cases hm with
  | requested i r hidle =>
      refine h.enter trivial ?_ ?_ fun id hid => absurd hid List.not_mem_nil
      · rw [hidle]
        rfl
      · rw [hidle]
        rfl
  | read i stage hread =>
      obtain ⟨hrecords, hdeletes, hnew⟩ := pending_of_readTo hread
      exact h.enter (checked_of_readTo hread) hrecords hdeletes hnew
  | wrote i w pending login hstage t hwrote => exact h.wrote hstage hwrote
  | minted i identity hstage =>
      refine h.minted.enter trivial ?_ ?_ fun id hid => absurd hid List.not_mem_nil
      · exact congrArg pendingRecords hstage
      · exact congrArg pendingDeletes hstage
  | committed i hstage t hcommit => exact h.commit (committed_of_commit hcommit)
  | aborted i => exact h.abort

theorem sound_of_run {n : ℕ} {es : List SsoEvent}
    (h : (machine providers).run (SsoDb.empty n) es = some s) : Sound s :=
  (machine providers).invariant_of_step (I := Sound)
    (fun hs hstep => sound_moved hs (moved_of_step hstep)) (Sound.empty n) h

end Sound

section PasswordAccounts

-- The identity was on its way at that moment, or an administrator's link of it is recorded.
def Covered (since : SsoDb) (orgId : String) (recorded : List AuditEntry)
    (row : SSOIdentityRow) : Prop :=
  since.InFlight row ∨ ∃ entry ∈ recorded, IsLink orgId row entry

def Explained (since : SsoDb) (orgId : String) (entries : List AuditEntry)
    (row : SSOIdentityRow) : Prop :=
  row ∈ since.identities.committed ∨ Covered since orgId entries row

-- A user that has the id of another is not inserted, and the request ends.
def SafePlan (since : SsoDb) (u : UserRow) (entries recorded : List AuditEntry)
    (login : Option SSOIdentityRow) : List SsoWrite → Prop
  | [] => ∀ row ∈ login, row.userId = u.id → Explained since u.orgId entries row
  | .insertUser user :: pending =>
      user.id = u.id ∨ SafePlan since u entries recorded login pending
  | .insertIdentity row :: pending =>
      (row.userId = u.id → Covered since u.orgId recorded row) ∧
        SafePlan since u entries recorded login pending
  | _ :: pending => SafePlan since u entries recorded login pending

def SafeStage (since : SsoDb) (u : UserRow) (entries recorded : List AuditEntry) :
    SsoStage → Prop
  | .loading _ identity => identity.userId = u.id → Explained since u.orgId entries identity
  | .writing pending login => SafePlan since u entries recorded login pending
  | _ => True

structure SafeSlot (since : SsoDb) (u : UserRow) (entries : List AuditEntry) (c : SsoSlot) :
    Prop where
  inserted : ∀ row ∈ c.inserted, row.userId = u.id → Covered since u.orgId c.recorded row
  stage : SafeStage since u entries c.recorded c.stage

-- What holds of a run since the moment a user had a password.
structure Safe (since : SsoDb) (u : UserRow) (entries : List AuditEntry)
    (fresh : List SSOIdentityRow) (s : SsoDb) : Prop where
  trail : s.trail = since.trail ++ entries
  logins : s.logins = since.logins ++ fresh
  password : ∃ v ∈ s.users.committed, v.id = u.id ∧ v.orgId = u.orgId ∧ v.passwordHash ≠ none
  committed : ∀ row ∈ s.identities.committed, row.userId = u.id →
    Explained since u.orgId entries row
  minted : ∀ row ∈ fresh, row.userId = u.id → Explained since u.orgId entries row
  slots : ∀ i, SafeSlot since u entries (s.slot i)

theorem Covered.mono (h : Covered since u.orgId recorded row)
    (hmem : ∀ entry ∈ recorded, entry ∈ entries) : Covered since u.orgId entries row := by
  rcases h with h | ⟨entry, hentry, hlink⟩
  · exact Or.inl h
  · exact Or.inr ⟨entry, hmem entry hentry, hlink⟩

theorem Explained.more (h : Explained since u.orgId entries row) :
    Explained since u.orgId (entries ++ added) row :=
  h.imp_right fun h => h.mono fun _ => List.mem_append_left _

theorem SafePlan.more (h : SafePlan since u entries recorded login pending) :
    SafePlan since u (entries ++ added) recorded login pending := by
  induction pending with
  | nil => exact fun row hrow huser => (h row hrow huser).more
  | cons w pending ih =>
      cases w with
      | insertUser user => exact h.imp_right ih
      | insertIdentity row => exact ⟨h.1, ih h.2⟩
      | setPassword => exact ih h
      | deleteIdentity => exact ih h
      | record => exact ih h

theorem SafeSlot.more {c : SsoSlot} (h : SafeSlot since u entries c) :
    SafeSlot since u (entries ++ added) c := by
  refine ⟨h.inserted, ?_⟩
  have hstage := h.stage
  cases hc : c.stage with
  | loading a identity =>
      rw [hc] at hstage
      exact fun huser => (hstage huser).more
  | writing pending login =>
      rw [hc] at hstage
      exact hstage.more
  | _ => trivial

theorem SafeSlot.enter {c : SsoSlot} (h : SafeSlot since u entries c)
    (hrecords : pendingRecords c.stage = [])
    (hstage : SafeStage since u entries (c.enter stage).recorded stage) :
    SafeSlot since u entries (c.enter stage) := by
  refine ⟨fun row hrow huser => (h.inserted row hrow huser).mono fun entry hentry => ?_, hstage⟩
  rw [SsoSlot.recorded, hrecords, List.append_nil] at hentry
  exact List.mem_append_left _ hentry

-- The rows of an account that has a password are those of the account.
theorem password_of_mem (hsound : Sound s) (h : Safe since u entries fresh s) {v : UserRow}
    (hv : v ∈ s.users.committed) (hid : v.id = u.id) :
    v.orgId = u.orgId ∧ v.passwordHash ≠ none := by
  obtain ⟨v', hv', hid', horg, hpassword⟩ := h.password
  obtain rfl : v = v' :=
    List.inj_on_of_nodup_map hsound.users.committed hv hv' (hid.trans hid'.symm)
  exact ⟨horg, hpassword⟩

theorem safeStage_of_readTo (hsound : Sound s) (h : Safe since u entries fresh s)
    (hread : ReadTo s.users.committed s.identities.committed (s.stage i) stage) :
    SafeStage since u entries ((s.slot i).enter stage).recorded stage := by
  have hstage := (h.slots i).stage
  have hchecked := hsound.checked i
  rw [slot_stage] at hstage hchecked
  generalize s.stage i = before at hread hstage hchecked
  cases hread with
  | found hmem => exact h.committed _ hmem
  | loaded =>
      rintro row ⟨⟩
      exact hstage
  | matched hmem hpassword huser =>
      have hother : ∀ identity : SSOIdentityRow, identity.userId = _ → identity.userId ≠ u.id :=
        fun identity heq hid =>
          (password_of_mem hsound h hmem (heq.symm.trans hid)).2 hpassword
      refine ⟨fun hid => absurd hid (hother _ huser), ?_⟩
      rintro row ⟨⟩ hid
      exact absurd hid (hother _ huser)
  | @created _ _ user identity huser =>
      by_cases hid : user.id = u.id
      · exact Or.inl hid
      · have hother : identity.userId ≠ u.id := fun heq => hid (huser.symm.trans heq)
        refine Or.inr ⟨fun heq => absurd heq hother, ?_⟩
        rintro row ⟨⟩ heq
        exact absurd heq hother
  | @linked user body target identity huser =>
      refine ⟨fun hid => Or.inr ⟨linkEntry user target identity, ?_, ?_⟩, ?_⟩
      · exact List.mem_append_right _ (List.mem_singleton_self _)
      · obtain ⟨horg, v, hv, hvid, hvorg⟩ := hchecked
        have hsame := password_of_mem hsound h hv (hvid.trans (huser.symm.trans hid))
        have hlink : IsLink user.orgId identity (linkEntry user target identity) :=
          isLink_linkEntry huser
        rwa [horg, ← hvorg, hsame.1] at hlink
      · rintro row ⟨⟩
  | unlinked =>
      rintro row ⟨⟩
  | inserted =>
      refine Or.inr ?_
      rintro row ⟨⟩
  | reset =>
      rintro row ⟨⟩
  | _ => trivial

theorem Safe.enter (h : Safe since u entries fresh s)
    (hrecords : pendingRecords (s.stage i) = [])
    (hstage : SafeStage since u entries ((s.slot i).enter stage).recorded stage) :
    Safe since u entries fresh (s.enter i stage) where
  trail := h.trail
  logins := h.logins
  password := h.password
  committed := h.committed
  minted := h.minted
  slots := by
    refine forall_slot (s := s) (i := i) h.slots (fun j => slot_enter_ne) ?_
    rw [slot_enter]
    exact (h.slots i).enter hrecords hstage

theorem safeSlot_after {c : SsoSlot} (h : SafeSlot since u entries c)
    (hstage : c.stage = .writing (w :: pending) login)
    (hfresh : ∀ user, w = .insertUser user → user.id ≠ u.id) :
    SafeSlot since u entries ((c.after w).enter (.writing pending login)) := by
  have hplan := h.stage
  rw [hstage] at hplan
  have hrecorded := recorded_after hstage
  refine ⟨?_, ?_⟩
  · rw [hrecorded]
    cases w with
    | insertIdentity row =>
        intro row' hrow'
        rcases List.mem_append.mp hrow' with hrow' | hrow'
        · exact h.inserted row' hrow'
        · rw [List.mem_singleton.mp hrow']
          exact hplan.1
    | _ => exact h.inserted
  · rw [hrecorded]
    cases w with
    | insertUser user => exact hplan.resolve_left (hfresh user rfl)
    | insertIdentity row => exact hplan.2
    | setPassword => exact hplan
    | deleteIdentity => exact hplan
    | record => exact hplan

theorem Safe.wrote (h : Safe since u entries fresh s)
    (hstage : s.stage i = .writing (w :: pending) login) (hwrote : Wrote s i w t) :
    Safe since u entries fresh (t.enter i (.writing pending login)) := by
  obtain ⟨husers, hidentities, htrail, hlogins⟩ := hwrote.committed
  refine ⟨htrail.trans h.trail, hlogins.trans h.logins, ?_, ?_, h.minted, ?_⟩
  · obtain ⟨v, hv, hvu⟩ := h.password
    exact ⟨v, husers ▸ hv, hvu⟩
  · intro row hrow
    exact h.committed row (hidentities ▸ hrow)
  · refine forall_slot (s := s) (i := i) h.slots ?_ ?_
    · intro j hne
      rw [slot_enter_ne hne, hwrote.slot_ne hne]
    · rw [slot_enter, hwrote.slot]
      apply safeSlot_after (h.slots i) hstage
      rintro user rfl
      cases hwrote with
      | insertUser _ x hx hawaited hviolated =>
          obtain ⟨v, hv, hid, -⟩ := h.password
          intro heq
          exact hviolated ⟨v, List.mem_append_left _ hv, Or.inl (hid.trans heq.symm)⟩

theorem Safe.minted_login (h : Safe since u entries fresh s)
    (hrow : row.userId = u.id → Explained since u.orgId entries row) :
    Safe since u entries (fresh ++ [row]) { s with logins := s.logins ++ [row] } where
  trail := h.trail
  logins := by rw [h.logins, List.append_assoc]
  password := h.password
  committed := h.committed
  minted := by
    intro row' hrow'
    rcases List.mem_append.mp hrow' with hrow' | hrow'
    · exact h.minted row' hrow'
    · rw [List.mem_singleton.mp hrow']
      exact hrow
  slots := h.slots

theorem Safe.commit (h : Safe since u entries fresh s) (hstage : s.stage i = .writing [] none)
    (hcommit : Committed s i t) : Safe since u (entries ++ s.entries i) fresh t where
  trail := by rw [hcommit.trail, h.trail, List.append_assoc]
  logins := hcommit.logins.trans h.logins
  password := by
    obtain ⟨v, hv, hid, horg, hpassword⟩ := h.password
    obtain ⟨v', hv', hid', horg', hkept⟩ := hcommit.kept v hv
    exact ⟨v', hv', hid'.trans hid, horg'.trans horg, hkept hpassword⟩
  committed := by
    intro row hrow huser
    rcases ((hcommit.mem row).mp hrow).1 with hrow | hrow
    · exact (h.committed row hrow huser).more
    · refine Or.inr (((h.slots i).inserted row hrow huser).mono fun entry hentry => ?_)
      rw [recorded_done hstage] at hentry
      exact List.mem_append_right _ hentry
  minted row hrow huser := (h.minted row hrow huser).more
  slots := by
    refine forall_slot (s := s) (i := i) (fun j => (h.slots j).more) hcommit.slot_ne ?_
    rw [hcommit.slot]
    exact ⟨fun row hrow => absurd hrow List.not_mem_nil, trivial⟩

theorem Safe.abort (h : Safe since u entries fresh s) :
    Safe since u entries fresh (s.abort i) where
  trail := h.trail
  logins := h.logins
  password := h.password
  committed := h.committed
  minted := h.minted
  slots := by
    refine forall_slot (s := s) (i := i) h.slots (fun j => slot_abort_ne) ?_
    rw [slot_abort]
    exact ⟨fun row hrow => absurd hrow List.not_mem_nil, trivial⟩

theorem safe_moved (hsound : Sound s) (h : Safe since u entries fresh s) (hm : Moved s t) :
    ∃ entries fresh, Safe since u entries fresh t := by
  cases hm with
  | requested i r hidle => exact ⟨_, _, h.enter (by rw [hidle]; rfl) trivial⟩
  | read i stage hread =>
      exact ⟨_, _, h.enter (pending_of_readTo hread).1 (safeStage_of_readTo hsound h hread)⟩
  | wrote i w pending login hstage t hwrote => exact ⟨_, _, h.wrote hstage hwrote⟩
  | minted i identity hstage =>
      have hplan := (h.slots i).stage
      rw [slot_stage, hstage] at hplan
      refine ⟨_, _, (h.minted_login (hplan identity rfl)).enter ?_ ?_⟩
      · exact congrArg pendingRecords hstage
      · rintro row ⟨⟩
  | committed i hstage t hcommit =>
      exact ⟨_, _, h.commit hstage (committed_of_commit hcommit)⟩
  | aborted i => exact ⟨_, _, h.abort⟩

theorem safePlan_start (h : ∀ row ∈ rows (.writing pending login), since.InFlight row) :
    SafePlan since u [] recorded login pending := by
  induction pending with
  | nil => exact fun row hrow _ => Or.inr (Or.inl (h row (by simpa [rows] using hrow)))
  | cons w pending ih =>
      have htail : ∀ row ∈ rows (.writing pending login), since.InFlight row := by
        intro row hrow
        apply h row
        rcases List.mem_append.mp hrow with hrow | hrow
        · exact List.mem_append_left _ hrow
        · refine List.mem_append_right _ ?_
          cases w <;> simp_all
      cases w with
      | insertIdentity row =>
          refine ⟨fun _ => Or.inl (h row ?_), ih htail⟩
          exact List.mem_append_right _ (by simp)
      | insertUser user => exact Or.inr (ih htail)
      | setPassword => exact ih htail
      | deleteIdentity => exact ih htail
      | record => exact ih htail

theorem safe_start (hu : u ∈ since.users.committed) (hpassword : u.passwordHash ≠ none) :
    Safe since u [] [] since where
  trail := (List.append_nil _).symm
  logins := (List.append_nil _).symm
  password := ⟨u, hu, rfl, rfl, hpassword⟩
  committed row hrow _ := Or.inl hrow
  minted row hrow := absurd hrow List.not_mem_nil
  slots i := by
    refine ⟨fun row hrow _ => Or.inl ⟨i, Or.inl hrow⟩, ?_⟩
    rw [slot_stage]
    cases hstage : since.stage i with
    | loading a identity =>
        refine fun _ => Or.inr (Or.inl ⟨i, Or.inr ?_⟩)
        rw [hstage]
        exact List.mem_singleton_self _
    | writing pending login =>
        refine safePlan_start fun row hrow => ⟨i, Or.inr ?_⟩
        rwa [hstage]
    | _ => trivial

theorem password_accounts_kept {providers : List String} {n : ℕ} {es fs : List SsoEvent}
    {since s : SsoDb} (hreach : (machine providers).run (SsoDb.empty n) es = some since)
    {u : UserRow} (hu : u ∈ since.users.committed) (hpassword : u.passwordHash ≠ none)
    (hrun : (machine providers).run since fs = some s) :
    ∃ entries fresh, s.trail = since.trail ++ entries ∧ s.logins = since.logins ++ fresh ∧
      ∀ row : SSOIdentityRow, row.userId = u.id → row ∈ s.identities.committed ∨ row ∈ fresh →
        row ∈ since.identities.committed ∨ since.InFlight row ∨
          ∃ entry ∈ entries, IsLink u.orgId row entry := by
  obtain ⟨-, entries, fresh, h⟩ := (machine providers).invariant_of_step
    (I := fun s => Sound s ∧ ∃ entries fresh, Safe since u entries fresh s)
    (fun hs hstep => ⟨sound_moved hs.1 (moved_of_step hstep), by
      obtain ⟨hsound, entries, fresh, h⟩ := hs
      exact safe_moved hsound h (moved_of_step hstep)⟩)
    ⟨sound_of_run hreach, [], [], safe_start hu hpassword⟩ hrun
  refine ⟨entries, fresh, h.trail, h.logins, fun row huser hrow => ?_⟩
  rcases hrow with hrow | hrow
  · exact h.committed row hrow huser
  · exact h.minted row hrow huser

def admin : CurrentUser := ⟨"root", "admin", "org_1"⟩

def ana : UserRow := ⟨"usr_1", "org_1", "ana", "ana@corp.com", some "hash", "analyst"⟩

def anaAtOkta : SSOIdentityRow := ⟨"sso_1", "usr_1", "okta", "sub-1", none⟩

def registering : List SsoEvent :=
  [.request 0 (.register admin ⟨"ana", "ana@corp.com", "hash", "analyst"⟩),
    .read 0 "usr_1" "" "", .write 0, .commit 0]

def linking : List SsoEvent :=
  [.request 0 (.linkSsoIdentity admin ⟨"usr_1", "okta", "sub-1", none⟩), .read 0 "" "" "",
    .read 0 "" "sso_1" "", .write 0, .write 0, .commit 0]

def signingIn : List SsoEvent :=
  [.request 1 (.jitProvision ⟨"okta", "sub-1", some "ana@corp.com", true, "analyst"⟩),
    .read 1 "" "" "", .read 1 "" "" "", .mint 1, .commit 1]

theorem password_accounts_kept_linked :
    ∃ since s, (machine ["okta"]).run (SsoDb.empty 2) registering = some since ∧
      (machine ["okta"]).run since (linking ++ signingIn) = some s ∧ s.logins = [anaAtOkta] ∧
      ∃ entries fresh, s.trail = since.trail ++ entries ∧ s.logins = since.logins ++ fresh ∧
        ∀ row : SSOIdentityRow, row.userId = ana.id → row ∈ s.identities.committed ∨ row ∈ fresh →
          row ∈ since.identities.committed ∨ since.InFlight row ∨
            ∃ entry ∈ entries, IsLink ana.orgId row entry := by
  refine ⟨_, _, rfl, rfl, rfl, ?_⟩
  exact password_accounts_kept
    (show (machine ["okta"]).run (SsoDb.empty 2) registering = some _ from rfl)
    (List.mem_singleton_self ana) (Option.some_ne_none _)
    (show (machine ["okta"]).run _ (linking ++ signingIn) = some _ from rfl)

end PasswordAccounts

section StableSignIn

variable {bound : SSOIdentityRow}

def Unlinked (bound : SSOIdentityRow) (entries : List AuditEntry) : Prop :=
  ∃ entry ∈ entries, IsUnlink bound.id entry

-- A sign-in under the bound provider and subject is one to the bound user.
def Settled (since : SsoDb) (bound : SSOIdentityRow) (entries : List AuditEntry)
    (row : SSOIdentityRow) : Prop :=
  naturalKey row = naturalKey bound →
    row.userId = bound.userId ∨ since.InFlight row ∨ Unlinked bound entries

-- A second row with the provider and the subject is not inserted, and the request ends.
def SettledPlan (since : SsoDb) (bound : SSOIdentityRow) (entries : List AuditEntry)
    (login : Option SSOIdentityRow) : List SsoWrite → Prop
  | [] => ∀ row ∈ login, Settled since bound entries row
  | .insertIdentity row :: pending =>
      naturalKey row = naturalKey bound ∨ SettledPlan since bound entries login pending
  | _ :: pending => SettledPlan since bound entries login pending

def SettledStage (since : SsoDb) (bound : SSOIdentityRow) (entries : List AuditEntry) :
    SsoStage → Prop
  | .loading _ identity => Settled since bound entries identity
  | .writing pending login => SettledPlan since bound entries login pending
  | _ => True

structure Stable (since : SsoDb) (bound : SSOIdentityRow) (entries : List AuditEntry)
    (fresh : List SSOIdentityRow) (s : SsoDb) : Prop where
  trail : s.trail = since.trail ++ entries
  logins : s.logins = since.logins ++ fresh
  stands : bound ∈ s.identities.committed ∨ Unlinked bound entries
  minted : ∀ row ∈ fresh, Settled since bound entries row
  stages : ∀ i, SettledStage since bound entries (s.slot i).stage

theorem Unlinked.more (h : Unlinked bound entries) : Unlinked bound (entries ++ added) := by
  obtain ⟨entry, hentry, hunlink⟩ := h
  exact ⟨entry, List.mem_append_left _ hentry, hunlink⟩

theorem Settled.more (h : Settled since bound entries row) :
    Settled since bound (entries ++ added) row :=
  fun hkey => (h hkey).imp_right fun h => h.imp_right Unlinked.more

theorem settled_of_unlinked (h : Unlinked bound entries) : Settled since bound entries row :=
  fun _ => Or.inr (Or.inr h)

theorem settledPlan_of_settled (h : ∀ row ∈ login, Settled since bound entries row) :
    SettledPlan since bound entries login pending := by
  induction pending with
  | nil => exact h
  | cons w pending ih =>
      cases w with
      | insertIdentity row => exact Or.inr ih
      | _ => exact ih

theorem SettledPlan.more (h : SettledPlan since bound entries login pending) :
    SettledPlan since bound (entries ++ added) login pending := by
  induction pending with
  | nil => exact fun row hrow => (h row hrow).more
  | cons w pending ih =>
      cases w with
      | insertIdentity row => exact h.imp_right ih
      | insertUser => exact ih h
      | setPassword => exact ih h
      | deleteIdentity => exact ih h
      | record => exact ih h

theorem SettledStage.more (h : SettledStage since bound entries stage) :
    SettledStage since bound (entries ++ added) stage := by
  cases stage with
  | loading a identity => exact Settled.more h
  | writing pending login => exact SettledPlan.more h
  | _ => trivial

theorem settled_of_mem (hsound : Sound s) (h : Stable since bound entries fresh s)
    (hrow : row ∈ s.identities.committed) : Settled since bound entries row := by
  intro hkey
  rcases h.stands with hbound | hunlinked
  · obtain rfl : row = bound :=
      List.inj_on_of_nodup_map hsound.keys.committed hrow hbound hkey
    exact Or.inl rfl
  · exact Or.inr (Or.inr hunlinked)

theorem settledPlan_insert {identity : SSOIdentityRow} :
    SettledPlan since bound entries (some identity) [.insertIdentity identity] := by
  by_cases hkey : naturalKey identity = naturalKey bound
  · exact Or.inl hkey
  · refine Or.inr ?_
    rintro row ⟨⟩ heq
    exact absurd heq hkey

theorem settledStage_of_readTo (hsound : Sound s) (h : Stable since bound entries fresh s)
    (hread : ReadTo s.users.committed s.identities.committed (s.stage i) stage) :
    SettledStage since bound entries stage := by
  have hstage := h.stages i
  rw [slot_stage] at hstage
  generalize s.stage i = before at hread hstage
  cases hread with
  | found hmem => exact settled_of_mem hsound h hmem
  | loaded =>
      rintro row ⟨⟩
      exact hstage
  | matched => exact settledPlan_insert
  | created => exact settledPlan_insert
  | linked =>
      apply settledPlan_of_settled
      rintro row ⟨⟩
  | unlinked =>
      rintro row ⟨⟩
  | inserted =>
      rintro row ⟨⟩
  | reset =>
      rintro row ⟨⟩
  | _ => trivial

theorem Stable.enter (h : Stable since bound entries fresh s)
    (hstage : SettledStage since bound entries stage) :
    Stable since bound entries fresh (s.enter i stage) where
  trail := h.trail
  logins := h.logins
  stands := h.stands
  minted := h.minted
  stages := by
    refine forall_slot (s := s) (i := i)
      (P := fun c => SettledStage since bound entries c.stage) h.stages
      (fun j => slot_enter_ne) ?_
    rw [slot_enter]
    exact hstage

theorem settledPlan_tail (h : Stable since bound entries fresh s)
    (hplan : SettledPlan since bound entries login (w :: pending)) (hwrote : Wrote s i w t) :
    SettledPlan since bound entries login pending := by
  cases hwrote with
  | insertIdentity row y hy hawaited hviolated =>
      rcases hplan with hkey | hplan
      · rcases h.stands with hbound | hunlinked
        · refine absurd ⟨bound, List.mem_append_left _ hbound, Or.inr ?_⟩ hviolated
          exact Prod.mk.inj hkey.symm
        · exact settledPlan_of_settled fun row _ => settled_of_unlinked hunlinked
      · exact hplan
  | _ => exact hplan

theorem Stable.wrote (h : Stable since bound entries fresh s)
    (hstage : s.stage i = .writing (w :: pending) login) (hwrote : Wrote s i w t) :
    Stable since bound entries fresh (t.enter i (.writing pending login)) := by
  obtain ⟨-, hidentities, htrail, hlogins⟩ := hwrote.committed
  have hplan := h.stages i
  rw [slot_stage, hstage] at hplan
  refine ⟨htrail.trans h.trail, hlogins.trans h.logins, ?_, h.minted, ?_⟩
  · exact h.stands.imp_left fun hbound => hidentities ▸ hbound
  · refine forall_slot (s := s) (i := i)
      (P := fun c => SettledStage since bound entries c.stage) h.stages ?_ ?_
    · intro j hne
      rw [slot_enter_ne hne, hwrote.slot_ne hne]
    · rw [slot_enter]
      exact settledPlan_tail h hplan hwrote

theorem Stable.minted_login (h : Stable since bound entries fresh s)
    (hrow : Settled since bound entries row) :
    Stable since bound entries (fresh ++ [row]) { s with logins := s.logins ++ [row] } where
  trail := h.trail
  logins := by rw [h.logins, List.append_assoc]
  stands := h.stands
  minted := by
    intro row' hrow'
    rcases List.mem_append.mp hrow' with hrow' | hrow'
    · exact h.minted row' hrow'
    · rw [List.mem_singleton.mp hrow']
      exact hrow
  stages := h.stages

theorem Stable.commit (hsound : Sound s) (h : Stable since bound entries fresh s)
    (hstage : s.stage i = .writing [] none) (hcommit : Committed s i t) :
    Stable since bound (entries ++ s.entries i) fresh t where
  trail := by rw [hcommit.trail, h.trail, List.append_assoc]
  logins := hcommit.logins.trans h.logins
  stands := by
    rcases h.stands with hbound | hunlinked
    · by_cases hdeleted : bound.id ∈ (s.slot i).deleted
      · obtain ⟨entry, hentry, hunlink⟩ :=
          hsound.deletes i bound.id (List.mem_append_left _ hdeleted)
        rw [recorded_done hstage] at hentry
        exact Or.inr ⟨entry, List.mem_append_right _ hentry, hunlink⟩
      · exact Or.inl ((hcommit.mem bound).mpr ⟨Or.inl hbound, hdeleted⟩)
    · exact Or.inr hunlinked.more
  minted row hrow := (h.minted row hrow).more
  stages := by
    refine forall_slot (s := s) (i := i)
      (P := fun c => SettledStage since bound (entries ++ s.entries i) c.stage)
      (fun j => (h.stages j).more) hcommit.slot_ne ?_
    rw [hcommit.slot]
    trivial

theorem Stable.abort (h : Stable since bound entries fresh s) :
    Stable since bound entries fresh (s.abort i) where
  trail := h.trail
  logins := h.logins
  stands := h.stands
  minted := h.minted
  stages := by
    refine forall_slot (s := s) (i := i)
      (P := fun c => SettledStage since bound entries c.stage) h.stages
      (fun j => slot_abort_ne) ?_
    rw [slot_abort]
    trivial

theorem stable_moved (hsound : Sound s) (h : Stable since bound entries fresh s)
    (hm : Moved s t) : ∃ entries fresh, Stable since bound entries fresh t := by
  cases hm with
  | requested i r hidle => exact ⟨_, _, h.enter trivial⟩
  | read i stage hread => exact ⟨_, _, h.enter (settledStage_of_readTo hsound h hread)⟩
  | wrote i w pending login hstage t hwrote => exact ⟨_, _, h.wrote hstage hwrote⟩
  | minted i identity hstage =>
      have hplan := h.stages i
      rw [slot_stage, hstage] at hplan
      refine ⟨_, _, (h.minted_login (hplan identity rfl)).enter ?_⟩
      rintro row ⟨⟩
  | committed i hstage t hcommit =>
      exact ⟨_, _, h.commit hsound hstage (committed_of_commit hcommit)⟩
  | aborted i => exact ⟨_, _, h.abort⟩

theorem stable_start (hbound : bound ∈ since.identities.committed) :
    Stable since bound [] [] since where
  trail := (List.append_nil _).symm
  logins := (List.append_nil _).symm
  stands := Or.inl hbound
  minted row hrow := absurd hrow List.not_mem_nil
  stages i := by
    rw [slot_stage]
    cases hstage : since.stage i with
    | loading a identity =>
        refine fun _ => Or.inr (Or.inl ⟨i, Or.inr ?_⟩)
        rw [hstage]
        exact List.mem_singleton_self _
    | writing pending login =>
        refine settledPlan_of_settled fun row hrow _ => Or.inr (Or.inl ⟨i, Or.inr ?_⟩)
        rw [hstage]
        exact List.mem_append_left _ (Option.mem_toList.mpr hrow)
    | _ => trivial

theorem sign_in_stable {providers : List String} {n : ℕ} {es fs : List SsoEvent}
    {since s : SsoDb} (hreach : (machine providers).run (SsoDb.empty n) es = some since)
    {bound : SSOIdentityRow} (hbound : bound ∈ since.identities.committed)
    (hrun : (machine providers).run since fs = some s) :
    ∃ entries fresh, s.trail = since.trail ++ entries ∧ s.logins = since.logins ++ fresh ∧
      ((bound ∈ s.identities.committed ∧
          (∀ row ∈ s.identities.committed, naturalKey row = naturalKey bound → row = bound) ∧
          ∀ row ∈ fresh, naturalKey row = naturalKey bound →
            row.userId = bound.userId ∨ since.InFlight row) ∨
        ∃ entry ∈ entries, IsUnlink bound.id entry) := by
  obtain ⟨hsound, entries, fresh, h⟩ := (machine providers).invariant_of_step
    (I := fun s => Sound s ∧ ∃ entries fresh, Stable since bound entries fresh s)
    (fun hs hstep => ⟨sound_moved hs.1 (moved_of_step hstep), by
      obtain ⟨hsound, entries, fresh, h⟩ := hs
      exact stable_moved hsound h (moved_of_step hstep)⟩)
    ⟨sound_of_run hreach, [], [], stable_start hbound⟩ hrun
  refine ⟨entries, fresh, h.trail, h.logins, ?_⟩
  by_cases hunlinked : Unlinked bound entries
  · exact Or.inr hunlinked
  · have hstands := h.stands.resolve_right hunlinked
    refine Or.inl ⟨hstands, fun row hrow hkey => ?_, fun row hrow hkey => ?_⟩
    · exact List.inj_on_of_nodup_map hsound.keys.committed hrow hstands hkey
    · exact (h.minted row hrow hkey).imp_right fun h => h.resolve_right hunlinked

theorem sign_in_stable_linked :
    ∃ since s, (machine ["okta"]).run (SsoDb.empty 2) (registering ++ linking) = some since ∧
      (machine ["okta"]).run since signingIn = some s ∧ s.logins = [anaAtOkta] ∧
      ∃ entries fresh, s.trail = since.trail ++ entries ∧ s.logins = since.logins ++ fresh ∧
        ((anaAtOkta ∈ s.identities.committed ∧
            (∀ row ∈ s.identities.committed,
              naturalKey row = naturalKey anaAtOkta → row = anaAtOkta) ∧
            ∀ row ∈ fresh, naturalKey row = naturalKey anaAtOkta →
              row.userId = anaAtOkta.userId ∨ since.InFlight row) ∨
          ∃ entry ∈ entries, IsUnlink anaAtOkta.id entry) := by
  refine ⟨_, _, rfl, rfl, rfl, ?_⟩
  exact sign_in_stable
    (show (machine ["okta"]).run (SsoDb.empty 2) (registering ++ linking) = some _ from rfl)
    (List.mem_singleton_self anaAtOkta)
    (show (machine ["okta"]).run _ signingIn = some _ from rfl)

end StableSignIn

end SsoDb

end BTagent
