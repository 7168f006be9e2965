import BTagent.Lib.Slots

-- Rows with a key; an UPDATE changes the other columns of the row that has a key.
structure RowTable (ρ κ γ : Type*) where
  key : ρ → κ
  change : γ → ρ → ρ
  key_change : ∀ c r, key (change c r) = key r

-- What a transaction has not committed: the rows it inserted and the updates it made.
structure Transaction (ρ κ γ : Type*) where
  inserted : List ρ
  written : List (κ × γ)

-- A table at READ COMMITTED: a statement sees what is committed and what its own transaction wrote.
structure ReadCommitted (ρ κ γ : Type*) where
  committed : List ρ
  transactions : List (Transaction ρ κ γ)

namespace Transaction

variable {ρ κ γ : Type*}

def empty : Transaction ρ κ γ := ⟨[], []⟩

end Transaction

namespace RowTable

variable {ρ κ γ : Type*} [DecidableEq κ] (T : RowTable ρ κ γ)

def apply (w : κ × γ) (r : ρ) : ρ := if T.key r = w.1 then T.change w.2 r else r

def applyAll (ws : List (κ × γ)) (r : ρ) : ρ := ws.foldl (fun r w => T.apply w r) r

section Apply
variable {T} {ws vs : List (κ × γ)} {w : κ × γ} {r : ρ}

@[simp] theorem key_apply : T.key (T.apply w r) = T.key r := by
  rw [apply]
  split
  · exact T.key_change _ _
  · rfl

@[simp] theorem applyAll_nil : T.applyAll [] r = r := rfl

@[simp] theorem applyAll_cons : T.applyAll (w :: ws) r = T.applyAll ws (T.apply w r) := rfl

@[simp] theorem key_applyAll : T.key (T.applyAll ws r) = T.key r := by
  induction ws generalizing r with
  | nil => rfl
  | cons w ws ih => rw [applyAll_cons, ih, key_apply]

theorem applyAll_of_not_written (h : ∀ w ∈ ws, w.1 ≠ T.key r) : T.applyAll ws r = r := by
  induction ws with
  | nil => rfl
  | cons w ws ih =>
      have hw : T.key r ≠ w.1 := (h w List.mem_cons_self).symm
      rw [applyAll_cons, apply, if_neg hw]
      exact ih fun w hw => h w (List.mem_cons_of_mem _ hw)

theorem applyAll_induction {P : ρ → Prop}
    (h : ∀ w ∈ ws, ∀ r', w.1 = T.key r' → T.key r' = T.key r → P r' → P (T.change w.2 r'))
    (hr : P r) : P (T.applyAll ws r) := by
  induction ws generalizing r with
  | nil => exact hr
  | cons w ws ih =>
      rw [applyAll_cons]
      apply ih
      · intro v hv r' hkey hsame
        exact h v (List.mem_cons_of_mem _ hv) r' hkey (hsame.trans key_apply)
      · rw [apply]
        split
        · next hkey => exact h w List.mem_cons_self r hkey.symm rfl hr
        · exact hr

theorem applyAll_of_written {P : ρ → Prop} (h : ∀ w ∈ ws, w.1 = T.key r → ∀ r', P (T.change w.2 r'))
    (hw : ∃ w ∈ ws, w.1 = T.key r) : P (T.applyAll ws r) := by
  induction ws generalizing r with
  | nil =>
      obtain ⟨w, hw, -⟩ := hw
      cases hw
  | cons v ws ih =>
      have htail : ∀ w ∈ ws, w.1 = T.key (T.apply v r) → ∀ r', P (T.change w.2 r') := by
        intro w hw hkey
        exact h w (List.mem_cons_of_mem _ hw) (hkey.trans key_apply)
      rw [applyAll_cons]
      by_cases hrest : ∃ w ∈ ws, w.1 = T.key (T.apply v r)
      · exact ih htail hrest
      · have hnone : ∀ w ∈ ws, w.1 ≠ T.key (T.apply v r) := by
          intro w hw hkey
          exact hrest ⟨w, hw, hkey⟩
        have hv : T.key r = v.1 := by
          obtain ⟨w, hw, hkey⟩ := hw
          rcases List.mem_cons.mp hw with rfl | hw
          · exact hkey.symm
          · exact absurd (hkey.trans key_apply.symm) (hnone w hw)
        rw [applyAll_of_not_written hnone, apply, if_pos hv]
        exact h v List.mem_cons_self hv.symm r

end Apply

end RowTable

namespace ReadCommitted

variable {ρ κ γ : Type*} [DecidableEq κ] (T : RowTable ρ κ γ)



def view (db : ReadCommitted ρ κ γ) (x : Transaction ρ κ γ) : List ρ :=
  (db.committed ++ x.inserted).map (T.applyAll x.written)

def move (db : ReadCommitted ρ κ γ) (i : ℕ) (x : Transaction ρ κ γ) : ReadCommitted ρ κ γ :=
  { db with transactions := db.transactions.set i x }

-- Another transaction has updated the row and not ended.
def Held (db : ReadCommitted ρ κ γ) (i : ℕ) (k : κ) : Prop :=
  ∃ w ∈ (db.transactions.eraseIdx i).flatMap (·.written), w.1 = k

instance (db : ReadCommitted ρ κ γ) (i : ℕ) (k : κ) : Decidable (db.Held i k) :=
  inferInstanceAs (Decidable (∃ w ∈ _, _))

-- Another transaction has inserted a row that this one may not stand beside.
def Awaited (Conflict : ρ → ρ → Prop) (db : ReadCommitted ρ κ γ) (i : ℕ) (row : ρ) : Prop :=
  ∃ other ∈ (db.transactions.eraseIdx i).flatMap (·.inserted), Conflict row other

def Violated (Conflict : ρ → ρ → Prop) (db : ReadCommitted ρ κ γ) (x : Transaction ρ κ γ)
    (row : ρ) : Prop :=
  ∃ other ∈ db.committed ++ x.inserted, Conflict row other

instance (Conflict : ρ → ρ → Prop) [DecidableRel Conflict] (db : ReadCommitted ρ κ γ) (i : ℕ)
    (row : ρ) : Decidable (db.Awaited Conflict i row) :=
  inferInstanceAs (Decidable (∃ other ∈ _, _))

instance (Conflict : ρ → ρ → Prop) [DecidableRel Conflict] (db : ReadCommitted ρ κ γ)
    (x : Transaction ρ κ γ) (row : ρ) : Decidable (db.Violated Conflict x row) :=
  inferInstanceAs (Decidable (∃ other ∈ _, _))

def insert (db : ReadCommitted ρ κ γ) (i : ℕ) (x : Transaction ρ κ γ) (row : ρ) :
    ReadCommitted ρ κ γ :=
  db.move i { x with inserted := x.inserted ++ [row] }

def update (db : ReadCommitted ρ κ γ) (i : ℕ) (x : Transaction ρ κ γ) (k : κ) (c : γ) :
    ReadCommitted ρ κ γ :=
  db.move i { x with written := x.written ++ [(k, c)] }

def commit (db : ReadCommitted ρ κ γ) (i : ℕ) (x : Transaction ρ κ γ) : ReadCommitted ρ κ γ :=
  { committed := db.view T x, transactions := db.transactions.set i .empty }

def rollback (db : ReadCommitted ρ κ γ) (i : ℕ) : ReadCommitted ρ κ γ := db.move i .empty

-- What `f` gives is not given twice by the rows that are committed or may become so.
def Distinct {μ : Type*} (f : ρ → μ) (db : ReadCommitted ρ κ γ) : Prop :=
  ((db.committed ++ db.transactions.flatMap (·.inserted)).map f).Nodup

section Distinct
variable {T} {μ : Type*} {f : ρ → μ} {db : ReadCommitted ρ κ γ} {i : ℕ} {x y : Transaction ρ κ γ}
  {row : ρ} {k : κ} {c : γ}

theorem mem_view {r' : ρ} :
    r' ∈ db.view T x ↔ ∃ r ∈ db.committed ++ x.inserted, T.applyAll x.written r = r' :=
  List.mem_map

omit [DecidableEq κ] in
theorem Distinct.committed (h : db.Distinct f) : (db.committed.map f).Nodup := by
  rw [Distinct, List.map_append] at h
  exact h.of_append_left

omit [DecidableEq κ] in
theorem Distinct.move (h : db.Distinct f) (hx : db.transactions[i]? = some x)
    (hxy : y.inserted.Subperm x.inserted) : (db.move i y).Distinct f := by
  have hsub := Slots.set_subperm (·.inserted) hx hxy
  have hall := (List.subperm_append_left db.committed).mpr hsub
  obtain ⟨l, hperm, hl⟩ := hall
  have hnodup : (l.map f).Nodup := h.sublist (hl.map _)
  exact (hperm.map f).nodup_iff.mp hnodup

omit [DecidableEq κ] in
theorem Distinct.insert {Conflict : ρ → ρ → Prop} (h : db.Distinct f)
    (hkey : ∀ a b, f b = f a → Conflict a b)
    (hx : db.transactions[i]? = some x) (hawaited : ¬ db.Awaited Conflict i row)
    (hviolated : ¬ db.Violated Conflict x row) : (db.insert i x row).Distinct f := by
  have hfresh : f row ∉ (db.committed ++ db.transactions.flatMap (·.inserted)).map f := by
    intro hmem
    obtain ⟨other, hother, heq⟩ := List.mem_map.mp hmem
    rcases List.mem_append.mp hother with hother | hother
    · exact hviolated ⟨other, List.mem_append_left _ hother, hkey row other heq⟩
    · rcases List.mem_append.mp ((Slots.perm_eraseIdx _ hx).mem_iff.mp hother) with hown | hforeign
      · exact hviolated ⟨other, List.mem_append_right _ hown, hkey row other heq⟩
      · exact hawaited ⟨other, hforeign, hkey row other heq⟩
  have hperm : ((db.transactions.set i { x with inserted := x.inserted ++ [row] }).flatMap
      (·.inserted)).Perm (row :: db.transactions.flatMap (·.inserted)) :=
    Slots.set_cons (·.inserted) hx (List.perm_append_singleton row x.inserted)
  have hall := ((hperm.append_left db.committed).trans List.perm_middle).map f
  exact hall.nodup_iff.mpr (List.nodup_cons.mpr ⟨hfresh, h⟩)

theorem map_view (hf : ∀ ws r, f (T.applyAll ws r) = f r) :
    (db.view T x).map f = (db.committed ++ x.inserted).map f := by
  rw [view, List.map_map]
  exact List.map_congr_left fun r _ => hf _ r

theorem Distinct.commit (hf : ∀ ws r, f (T.applyAll ws r) = f r) (h : db.Distinct f)
    (hx : db.transactions[i]? = some x) : (db.commit T i x).Distinct f := by
  have hrest := Slots.set_perm (·.inserted) hx (b := Transaction.empty)
  have hall := Slots.perm_eraseIdx (·.inserted) hx
  have hkeys : ((db.view T x ++ (db.transactions.set i .empty).flatMap (·.inserted)).map f).Perm
      ((db.committed ++ db.transactions.flatMap (·.inserted)).map f) := by
    rw [List.map_append, map_view hf, ← List.map_append, List.append_assoc]
    exact ((hrest.append_left x.inserted).trans hall.symm |>.append_left db.committed).map f
  exact hkeys.nodup_iff.mpr h

end Distinct

-- No key is twice among the rows that are committed or may become so.
def Keyed (db : ReadCommitted ρ κ γ) : Prop :=
  ((db.committed ++ db.transactions.flatMap (·.inserted)).map T.key).Nodup

section Keyed
variable {T} {db : ReadCommitted ρ κ γ} {i : ℕ} {x y : Transaction ρ κ γ} {row : ρ} {k : κ} {c : γ}

theorem map_key_view : (db.view T x).map T.key = (db.committed ++ x.inserted).map T.key :=
  map_view fun _ _ => RowTable.key_applyAll

omit [DecidableEq κ] in
theorem Keyed.committed (h : db.Keyed T) : (db.committed.map T.key).Nodup :=
  Distinct.committed h

omit [DecidableEq κ] in
theorem Keyed.move (h : db.Keyed T) (hx : db.transactions[i]? = some x)
    (hxy : y.inserted.Subperm x.inserted) : (db.move i y).Keyed T :=
  Distinct.move h hx hxy

omit [DecidableEq κ] in
theorem Keyed.insert {Conflict : ρ → ρ → Prop} (h : db.Keyed T)
    (hkey : ∀ a b, T.key b = T.key a → Conflict a b)
    (hx : db.transactions[i]? = some x) (hawaited : ¬ db.Awaited Conflict i row)
    (hviolated : ¬ db.Violated Conflict x row) : (db.insert i x row).Keyed T :=
  Distinct.insert h hkey hx hawaited hviolated

omit [DecidableEq κ] in
theorem Keyed.update (h : db.Keyed T) (hx : db.transactions[i]? = some x) :
    (db.update i x k c).Keyed T :=
  h.move hx (List.Subperm.refl _)

omit [DecidableEq κ] in
theorem Keyed.rollback (h : db.Keyed T) (hx : db.transactions[i]? = some x) :
    (db.rollback i).Keyed T :=
  h.move hx (List.nil_subperm)

theorem Keyed.commit (h : db.Keyed T) (hx : db.transactions[i]? = some x) :
    (db.commit T i x).Keyed T :=
  Distinct.commit (fun _ _ => RowTable.key_applyAll) h hx

end Keyed

omit [DecidableEq κ] in
theorem inserted_replicate (n : ℕ) :
    (List.replicate n (Transaction.empty : Transaction ρ κ γ)).flatMap (·.inserted) = [] := by
  simp [Transaction.empty]

omit [DecidableEq κ] in
theorem rollback_of_none {db : ReadCommitted ρ κ γ} {i : ℕ} (h : db.transactions[i]? = none) :
    db.rollback i = db := by
  rw [rollback, move, List.set_eq_of_length_le (List.getElem?_eq_none_iff.mp h)]

-- Rows are inserted and deleted: a write is the key of a row that its transaction deletes.
section Deletes
variable (key : ρ → κ)

def Deleted (x : Transaction ρ κ Unit) (r : ρ) : Prop := ∃ w ∈ x.written, w.1 = key r

instance (x : Transaction ρ κ Unit) (r : ρ) : Decidable (Deleted key x r) :=
  inferInstanceAs (Decidable (∃ w ∈ _, _))

def commitDeletes (db : ReadCommitted ρ κ Unit) (i : ℕ) (x : Transaction ρ κ Unit) :
    ReadCommitted ρ κ Unit :=
  { committed := (db.committed ++ x.inserted).filter fun r => ¬ Deleted key x r
    transactions := db.transactions.set i .empty }

-- A row that this one may not stand beside is being deleted by another transaction.
def Deleting (Conflict : ρ → ρ → Prop) (db : ReadCommitted ρ κ Unit) (i : ℕ) (row : ρ) : Prop :=
  ∃ other ∈ db.committed, Conflict row other ∧ db.Held i (key other)

instance (Conflict : ρ → ρ → Prop) [DecidableRel Conflict] (db : ReadCommitted ρ κ Unit) (i : ℕ)
    (row : ρ) : Decidable (db.Deleting key Conflict i row) :=
  inferInstanceAs (Decidable (∃ other ∈ _, _ ∧ _))

section Commit
variable {key} {μ : Type*} {f : ρ → μ} {db : ReadCommitted ρ κ Unit} {i : ℕ}
  {x : Transaction ρ κ Unit} {r : ρ}

theorem mem_commitDeletes : r ∈ (db.commitDeletes key i x).committed ↔
    (r ∈ db.committed ∨ r ∈ x.inserted) ∧ ¬ Deleted key x r := by
  simp [commitDeletes, or_and_right]

theorem Distinct.commitDeletes (h : db.Distinct f) (hx : db.transactions[i]? = some x) :
    (db.commitDeletes key i x).Distinct f := by
  have hrest := Slots.set_perm (·.inserted) hx (b := Transaction.empty)
  have hall := Slots.perm_eraseIdx (·.inserted) hx
  have hsub : (db.commitDeletes key i x).committed.Sublist (db.committed ++ x.inserted) :=
    List.filter_sublist
  have hbefore : ((db.committed ++ x.inserted) ++
      (db.transactions.set i .empty).flatMap (·.inserted)).Perm
        (db.committed ++ db.transactions.flatMap (·.inserted)) := by
    rw [List.append_assoc]
    exact ((hrest.append_left x.inserted).trans hall.symm).append_left db.committed
  have hnodup := (hbefore.map f).nodup_iff.mpr h
  exact hnodup.sublist ((hsub.append_right _).map f)

end Commit

end Deletes

end ReadCommitted
