import BTagent.Cti.Proposals
import BTagent.Lib.Monads

namespace BTagent

namespace ProposalDb

open CtiDetection

variable {T : CharTable} {parse : String → Option String} {repo : String} {s s' : ProposalDb}
  {e : ProposalEvent} {i : ℕ}

abbrev ProposalTransaction := Transaction DetectionProposalRow String ProposalUpdate

-- No row is in two PRs, and what was shipped of a row is what is stored of it, accepted.
structure ShipsOnce (s : ProposalDb) : Prop where
  once : (s.prs.flatMap fun pr => pr.files.map (·.rowId)).Nodup
  stored : ∀ pr ∈ s.prs, ∀ f ∈ pr.files, f.rowId ∈ s.proposals.committed.map (·.id)
  reviewed : ∀ pr ∈ s.prs, ∀ f ∈ pr.files, ∀ row ∈ s.proposals.committed, row.id = f.rowId →
    row.state ∈ shippable ∧ shippedYaml row = f.content

def pendingUpdates : ProposalStage → List (String × ProposalUpdate)
  | .writing pending => pending
  | _ => []

def Writing (stage : ProposalStage) : Prop := ∃ pending, stage = .writing pending

-- The transaction has opened a PR for the row and not committed its URL.
def Marked (x : ProposalTransaction) (stage : ProposalStage) (rowId : String) : Prop :=
  ∃ w ∈ x.written ++ pendingUpdates stage, w.1 = rowId ∧ w.2.prUrl ≠ none

-- No PR is recorded for the row, and no other transaction has one to record.
def Unshipped (s : ProposalDb) (i : ℕ) (rowId : String) : Prop :=
  (∀ row ∈ s.proposals.committed, row.id = rowId → ¬ truthy row.prUrl) ∧
    ∀ j < s.proposals.transactions.length, j ≠ i → ∀ x ∈ s.proposals.transactions[j]?,
      ¬ Marked x (s.stage j) rowId

def Alters (row row' : DetectionProposalRow) : Prop :=
  (row.state ∈ shippable ∧ row'.state ∉ shippable) ∨ shippedYaml row' ≠ shippedYaml row

-- A PR is opened for unshipped rows that are as they were read; a decision or an edit is committed
-- on unshipped rows; and what has opened a PR is not rolled back.
def InTurn (s : ProposalDb) : ProposalEvent → Prop
  | .openPr i =>
      match s.stage i with
      | .composing rows _ => ∀ r ∈ rows, Unshipped s i r.id ∧
          ∀ row ∈ s.proposals.committed, row.id = r.id →
            row.state ∈ shippable ∧ shippedYaml row = shippedYaml r
      | _ => True
  | .commit i => ∀ x ∈ s.proposals.transactions[i]?, ∀ row ∈ s.proposals.committed,
      Alters row (proposalTable.applyAll x.written row) → Unshipped s i row.id
  | .rollback i => ∀ x ∈ s.proposals.transactions[i]?,
      ∀ w ∈ x.written ++ pendingUpdates (s.stage i), w.2.prUrl = none
  | _ => True

def OnlyMarks (u : ProposalUpdate) : Prop :=
  u.state = none ∧ u.finalSigmaYaml = none ∧ truthy u.prUrl = true

structure Planned (ids : List String) (x : ProposalTransaction) (stage : ProposalStage) : Prop where
  inserted : x.inserted = []
  settled : ¬ Writing stage → x.written = []
  kind : (∀ w ∈ x.written ++ pendingUpdates stage, OnlyMarks w.2) ∨
    ∀ w ∈ x.written ++ pendingUpdates stage, w.2.prUrl = none
  known : ∀ w ∈ x.written ++ pendingUpdates stage, w.1 ∈ ids
  loaded : ∀ rows title, stage = .composing rows title →
    (rows.map (·.id)).Nodup ∧ ∀ r ∈ rows, r.id ∈ ids

section Updates
variable {row : DetectionProposalRow} {ws : List (String × ProposalUpdate)}

theorem truthy_applyAll (h : ∀ w ∈ ws, OnlyMarks w.2 ∨ w.2.prUrl = none)
    (hrow : truthy row.prUrl = true) : truthy (proposalTable.applyAll ws row).prUrl = true := by
  refine RowTable.applyAll_induction (T := proposalTable)
    (P := fun r => truthy r.prUrl = true) ?_ hrow
  intro w hw r _ _ hr
  rcases h w hw with ⟨-, -, hmark⟩ | hnone
  · have hsome : w.2.prUrl ≠ none := by
      intro hnone
      rw [hnone] at hmark
      cases hmark
    obtain ⟨url, hurl⟩ := Option.ne_none_iff_exists'.mp hsome
    rw [hurl] at hmark
    simpa [proposalTable, ProposalUpdate.apply, hurl] using hmark
  · simpa [proposalTable, ProposalUpdate.apply, hnone] using hr

theorem truthy_of_marked (h : ∀ w ∈ ws, OnlyMarks w.2) (hw : ∃ w ∈ ws, w.1 = row.id) :
    truthy (proposalTable.applyAll ws row).prUrl = true := by
  refine RowTable.applyAll_of_written (T := proposalTable)
    (P := fun r => truthy r.prUrl = true) ?_ hw
  intro w hw _ r
  obtain ⟨-, -, hmark⟩ := h w hw
  cases hurl : w.2.prUrl with
  | none =>
      rw [hurl] at hmark
      cases hmark
  | some url =>
      rw [hurl] at hmark
      simpa [proposalTable, ProposalUpdate.apply, hurl] using hmark

theorem not_alters_of_marks (h : ∀ w ∈ ws, OnlyMarks w.2) :
    ¬ Alters row (proposalTable.applyAll ws row) := by
  have hsame : (proposalTable.applyAll ws row).state = row.state ∧
      shippedYaml (proposalTable.applyAll ws row) = shippedYaml row := by
    refine RowTable.applyAll_induction (T := proposalTable)
      (P := fun r => r.state = row.state ∧ shippedYaml r = shippedYaml row) ?_ ⟨rfl, rfl⟩
    intro w hw r _ _ hr
    obtain ⟨hstate, hfinal, -⟩ := h w hw
    simpa [proposalTable, ProposalUpdate.apply, shippedYaml, hstate, hfinal] using hr
  rintro (⟨hbefore, hafter⟩ | hbody)
  · exact hafter (hsame.1 ▸ hbefore)
  · exact hbody hsame.2

end Updates

section Files
variable {rows : List DetectionProposalRow} {pr : DetectionPr} {ledger : List DetectionPr}
  {title : String}

theorem map_rowId_buildPrFilesFrom {seen : List String} :
    (buildPrFilesFrom T seen rows).map (·.rowId) = rows.map (·.id) := by
  induction rows generalizing seen with
  | nil => rfl
  | cons row rows ih => simp [buildPrFilesFrom, ih]

theorem content_buildPrFilesFrom {seen : List String} {f : RuleFile}
    (hf : f ∈ buildPrFilesFrom T seen rows) :
    ∃ r ∈ rows, f.rowId = r.id ∧ f.content = shippedYaml r := by
  induction rows generalizing seen with
  | nil => cases hf
  | cons row rows ih =>
      rw [buildPrFilesFrom] at hf
      rcases List.mem_cons.mp hf with rfl | hf
      · exact ⟨row, List.mem_cons_self, rfl, rfl⟩
      · obtain ⟨r, hr, heq⟩ := ih hf
        exact ⟨r, List.mem_cons_of_mem _ hr, heq⟩

theorem gitOpenDetectionPr_ok {files : List RuleFile}
    (h : gitOpenDetectionPr T repo ledger title files = .ok pr) :
    pr.files = files ∧ truthy (some pr.prUrl) = true := by
  rw [gitOpenDetectionPr] at h
  split at h
  · cases h
  · obtain ⟨_, -, h⟩ := Except.bind_ok_iff.mp h
    cases h
    refine ⟨rfl, ?_⟩
    simp only [truthy, Option.any_some, decide_eq_true_eq]
    intro hempty
    have hlength := congrArg String.length hempty
    simp at hlength

end Files

section Planned
variable {ids : List String} {x : ProposalTransaction} {stage : ProposalStage}

theorem planned_idle : Planned ids .empty .idle where
  inserted := rfl
  settled _ := rfl
  kind := Or.inr fun w hw => by cases hw
  known w hw := by cases hw
  loaded rows title h := by cases h

theorem planned_composing {rows : List DetectionProposalRow} {title : Option String}
    (hnodup : (rows.map (·.id)).Nodup) (hids : ∀ r ∈ rows, r.id ∈ ids) :
    Planned ids .empty (.composing rows title) where
  inserted := rfl
  settled _ := rfl
  kind := Or.inr fun w hw => by cases hw
  known w hw := by cases hw
  loaded rows' title' h := by
    cases h
    exact ⟨hnodup, hids⟩

theorem planned_update {rowId : String} {u : ProposalUpdate} (hid : rowId ∈ ids)
    (hu : u.prUrl = none) : Planned ids .empty (.writing [(rowId, u)]) where
  inserted := rfl
  settled h := absurd ⟨_, rfl⟩ h
  kind := by
    right
    intro w hw
    obtain rfl := List.mem_singleton.mp hw
    exact hu
  known w hw := by
    obtain rfl := List.mem_singleton.mp hw
    exact hid
  loaded rows title h := by cases h

theorem planned_marks {rows : List DetectionProposalRow} {url : String}
    (hids : ∀ r ∈ rows, r.id ∈ ids) (hurl : truthy (some url) = true) :
    Planned ids .empty (.writing (rows.map (shippedMark url))) where
  inserted := rfl
  settled h := absurd ⟨_, rfl⟩ h
  kind := by
    left
    intro w hw
    obtain ⟨r, -, rfl⟩ := List.mem_map.mp hw
    exact ⟨rfl, rfl, hurl⟩
  known w hw := by
    obtain ⟨r, hr, rfl⟩ := List.mem_map.mp hw
    exact hids r hr
  loaded rows title h := by cases h

theorem Planned.write {w : String × ProposalUpdate} {pending : List (String × ProposalUpdate)}
    (h : Planned ids x (.writing (w :: pending))) :
    Planned ids { x with written := x.written ++ [w] } (.writing pending) := by
  have hmove : (x.written ++ [w]) ++ pendingUpdates (.writing pending) =
      x.written ++ pendingUpdates (.writing (w :: pending)) := by
    rw [List.append_assoc]
    rfl
  constructor
  · exact h.inserted
  · intro hnot
    exact absurd ⟨pending, rfl⟩ hnot
  · exact hmove ▸ h.kind
  · exact hmove ▸ h.known
  · intro rows title hstage
    cases hstage

theorem Planned.empty_of_settled (h : Planned ids x stage) (hwriting : ¬ Writing stage) :
    x = .empty := by
  rcases x with ⟨inserted, written⟩
  have hinserted : inserted = [] := h.inserted
  have hwritten : written = [] := h.settled hwriting
  rw [hinserted, hwritten]
  rfl

end Planned

-- What a step does.
inductive Moved (s : ProposalDb) : ProposalEvent → ProposalDb → Prop where
  | still {e : ProposalEvent} : Moved s e s
  | staged {e : ProposalEvent} (i : ℕ) (stage : ProposalStage) (hwriting : ¬ Writing (s.stage i))
      (hplanned : (s.proposals.committed.map (·.id)).Nodup →
        Planned (s.proposals.committed.map (·.id)) .empty stage) : Moved s e (s.goto i stage)
  | opened (i : ℕ) (x : ProposalTransaction) (rows : List DetectionProposalRow)
      (title : Option String) (pr : DetectionPr) (hx : s.proposals.transactions[i]? = some x)
      (hcomposing : s.stage i = .composing rows title)
      (hfiles : ∃ seen, pr.files = buildPrFilesFrom T seen rows)
      (hurl : truthy (some pr.prUrl) = true) :
      Moved s (.openPr i) { s with
        prs := s.prs ++ [pr]
        stage := Function.update s.stage i (.writing (rows.map (shippedMark pr.prUrl))) }
  | wrote {e : ProposalEvent} (i : ℕ) (x : ProposalTransaction) (w : String × ProposalUpdate)
      (pending : List (String × ProposalUpdate)) (hx : s.proposals.transactions[i]? = some x)
      (hwriting : s.stage i = .writing (w :: pending)) :
      Moved s e { s with
        proposals := s.proposals.update i x w.1 w.2
        stage := Function.update s.stage i (.writing pending) }
  | committed (i : ℕ) (x : ProposalTransaction) (hx : s.proposals.transactions[i]? = some x)
      (hwriting : s.stage i = .writing []) :
      Moved s (.commit i) { s with
        proposals := s.proposals.commit proposalTable i x
        stage := Function.update s.stage i .idle }
  | aborted (i : ℕ) (x : ProposalTransaction) (hx : s.proposals.transactions[i]? = some x) :
      Moved s (.rollback i) { s with
        proposals := s.proposals.rollback i
        stage := Function.update s.stage i .idle }

section Steps

theorem mem_loadRows {rows : List DetectionProposalRow} {orgId : String} {rowIds : List String}
    {r : DetectionProposalRow} :
    r ∈ loadRows rows orgId rowIds ↔ r ∈ rows ∧ r.id ∈ rowIds ∧ r.orgId = orgId := by
  simp [loadRows]

theorem moved_request {orgId rowId : String}
    {handle : DetectionProposalRow → Except String ProposalUpdate}
    (hhandle : ∀ row u, handle row = .ok u → u.prUrl = none)
    (h : s.request i orgId rowId handle = some s') : Moved (T := T) s e s' := by
  rw [request] at h
  split at h
  · next hidle =>
      have hwriting : ¬ Writing (s.stage i) := by
        rintro ⟨pending, hpending⟩
        rw [hidle] at hpending
        cases hpending
      split at h
      · cases h
        exact .still
      · next row rest hrows =>
          split at h
          · cases h
            exact .still
          · next u hok =>
              cases h
              apply Moved.staged i _ hwriting
              intro _
              apply planned_update _ (hhandle row u hok)
              have hrow : row ∈ loadRows s.proposals.committed orgId [rowId] := by
                rw [hrows]
                exact List.mem_cons_self
              exact List.mem_map_of_mem (mem_loadRows.mp hrow).1
  · cases h

theorem eligibleRows_ok {rows out : List DetectionProposalRow} {rowIds : List String}
    (h : eligibleRows rows rowIds = .ok out) : out = ordered rows := by
  simp only [eligibleRows] at h
  split at h
  · cases h
  · split at h
    · cases h
    · split at h
      · cases h
      · split at h
        · cases h
        · cases h
          rfl

theorem moved_of_step (h : step T parse repo s e = some s') : Moved (T := T) s e s' := by
  cases e with
  | setState i orgId rowId state =>
      apply moved_request _ h
      intro row u hu
      rw [setProposalState] at hu
      split at hu
      · cases hu
      · cases hu
        rfl
  | setSigma i orgId rowId sigmaYaml =>
      apply moved_request _ h
      intro row u hu
      rw [setProposalSigma] at hu
      split at hu
      · cases hu
      · split at hu
        · cases hu
        · split at hu
          · cases hu
          · cases hu
            rfl
  | validate i orgId rowId payload =>
      have hrequest : s.request i orgId rowId (fun _ => .ok (validateProposal payload)) = some s' :=
        h
      apply moved_request _ hrequest
      intro row u hu
      cases hu
      rfl
  | recordOutcome i orgId rowId outcome =>
      apply moved_request _ h
      intro row u hu
      rw [recordPrOutcome] at hu
      split at hu
      · cases hu
      · split at hu
        · cases hu
        · cases hu
          rfl
  | compose i orgId rowIds title =>
      simp only [step] at h
      split at h
      · next hidle =>
          split at h
          · cases h
            exact .still
          · next rows hok =>
              cases h
              obtain rfl := eligibleRows_ok hok
              have hperm := (List.perm_insertionSort (fun a b => a.id ≤ b.id)
                (loadRows s.proposals.committed orgId rowIds))
              apply Moved.staged i
              · rintro ⟨pending, hpending⟩
                rw [hidle] at hpending
                cases hpending
              · intro hnodup
                apply planned_composing
                · apply ((hperm.map (·.id)).nodup_iff).mpr
                  exact hnodup.sublist (List.filter_sublist.map _)
                · intro r hr
                  exact List.mem_map_of_mem (mem_loadRows.mp (hperm.mem_iff.mp hr)).1
      · cases h
  | openPr i =>
      simp only [step, Option.bind_eq_bind, Option.bind_eq_some_iff] at h
      obtain ⟨x, hx, h⟩ := h
      split at h
      · next rows title hcomposing =>
          split at h
          · cases h
            apply Moved.staged i
            · rintro ⟨pending, hpending⟩
              rw [hcomposing] at hpending
              cases hpending
            · intro _
              exact planned_idle
          · next pr hok =>
              cases h
              obtain ⟨hfiles, hurl⟩ := gitOpenDetectionPr_ok hok
              exact .opened i x rows title pr hx hcomposing ⟨[], hfiles⟩ hurl
      · cases h
  | write i =>
      simp only [step, Option.bind_eq_bind, Option.bind_eq_some_iff] at h
      obtain ⟨x, hx, h⟩ := h
      split at h
      · next w pending hwriting =>
          split at h
          · cases h
          · cases h
            exact .wrote i x w pending hx hwriting
      · cases h
  | commit i =>
      simp only [step, Option.bind_eq_bind, Option.bind_eq_some_iff] at h
      obtain ⟨x, hx, h⟩ := h
      split at h
      · next hwriting =>
          cases h
          exact .committed i x hx hwriting
      · cases h
  | rollback i =>
      simp only [step, Option.bind_eq_bind, Option.bind_eq_some_iff] at h
      obtain ⟨x, hx, h⟩ := h
      cases h
      exact .aborted i x hx

end Steps

structure Sound (s : ProposalDb) : Prop where
  ships : ShipsOnce s
  keyed : (s.proposals.committed.map (·.id)).Nodup
  planned : ∀ (i : ℕ) (x : ProposalTransaction), s.proposals.transactions[i]? = some x →
    Planned (s.proposals.committed.map (·.id)) x (s.stage i)
  recorded : ∀ pr ∈ s.prs, ∀ f ∈ pr.files,
    (∃ row ∈ s.proposals.committed, row.id = f.rowId ∧ truthy row.prUrl = true) ∨
      ∃ i x, s.proposals.transactions[i]? = some x ∧ Marked x (s.stage i) f.rowId

section Sound
variable {x : ProposalTransaction} {stage : ProposalStage} {rowId : String}

theorem Sound.marked_of_unshipped (h : Sound s) {pr : DetectionPr} (hpr : pr ∈ s.prs) {f : RuleFile}
    (hf : f ∈ pr.files) (hunshipped : Unshipped s i f.rowId) :
    ∃ x, s.proposals.transactions[i]? = some x ∧ Marked x (s.stage i) f.rowId := by
  rcases h.recorded pr hpr f hf with ⟨row, hrow, hid, hurl⟩ | ⟨j, x, hx, hmarked⟩
  · exact absurd hurl (hunshipped.1 row hrow hid)
  · rcases eq_or_ne j i with rfl | hne
    · exact ⟨x, hx, hmarked⟩
    · exact absurd hmarked (hunshipped.2 j (List.getElem?_eq_some_iff.mp hx).1 hne x hx)

theorem not_marked_empty (hwriting : ¬ Writing stage) : ¬ Marked .empty stage rowId := by
  rintro ⟨w, hw, -⟩
  cases stage with
  | writing pending => exact hwriting ⟨pending, rfl⟩
  | idle => cases hw
  | composing rows title => cases hw

theorem marked_set {ts : List ProposalTransaction} {y : ProposalTransaction}
    {stages : ℕ → ProposalStage} (hy : ts[i]? = some x)
    (hkeep : Marked x (stages i) rowId → Marked y stage rowId)
    (h : ∃ j z, ts[j]? = some z ∧ Marked z (stages j) rowId) :
    ∃ j z, (ts.set i y)[j]? = some z ∧ Marked z (Function.update stages i stage j) rowId := by
  obtain ⟨j, z, hz, hmarked⟩ := h
  rcases eq_or_ne j i with rfl | hne
  · obtain rfl := Option.some.inj (hy.symm.trans hz)
    refine ⟨j, y, ?_, ?_⟩
    · rw [List.getElem?_set_self (List.getElem?_eq_some_iff.mp hz).1]
    · rw [Function.update_self]
      exact hkeep hmarked
  · refine ⟨j, z, ?_, ?_⟩
    · rw [List.getElem?_set_ne hne.symm]
      exact hz
    · rw [Function.update_of_ne hne]
      exact hmarked

theorem Sound.goto (h : Sound s) (hwriting : ¬ Writing (s.stage i))
    (hplanned : Planned (s.proposals.committed.map (·.id)) .empty stage) :
    Sound (s.goto i stage) := by
  have hnew : ∀ (x : ProposalTransaction), s.proposals.transactions[i]? = some x →
      Planned (s.proposals.committed.map (·.id)) x stage := by
    intro x hx
    rw [(h.planned i x hx).empty_of_settled hwriting]
    exact hplanned
  refine ⟨⟨h.ships.once, h.ships.stored, h.ships.reviewed⟩, h.keyed,
    Slots.staged_update h.planned (fun _ _ => rfl) hnew, ?_⟩
  intro pr hpr f hf
  rcases h.recorded pr hpr f hf with hrow | ⟨j, x, hx, hmarked⟩
  · exact Or.inl hrow
  · have hne : j ≠ i := by
      rintro rfl
      rw [(h.planned j x hx).empty_of_settled hwriting] at hmarked
      exact not_marked_empty hwriting hmarked
    refine Or.inr ⟨j, x, hx, ?_⟩
    change Marked x (Function.update s.stage i stage j) f.rowId
    rw [Function.update_of_ne hne]
    exact hmarked

theorem Sound.write (h : Sound s) {w : String × ProposalUpdate}
    {pending : List (String × ProposalUpdate)} (hx : s.proposals.transactions[i]? = some x)
    (hwriting : s.stage i = .writing (w :: pending)) :
    Sound { s with
      proposals := s.proposals.update i x w.1 w.2
      stage := Function.update s.stage i (.writing pending) } := by
  have hplanned := h.planned i x hx
  rw [hwriting] at hplanned
  refine ⟨⟨h.ships.once, h.ships.stored, h.ships.reviewed⟩, h.keyed,
    Slots.staged_set h.planned hplanned.write, ?_⟩
  intro pr hpr f hf
  rcases h.recorded pr hpr f hf with hrow | hmarked
  · exact Or.inl hrow
  · right
    apply marked_set hx _ hmarked
    rw [hwriting]
    rintro ⟨v, hv, heq⟩
    refine ⟨v, ?_, heq⟩
    have hmove : (x.written ++ [w]) ++ pendingUpdates (.writing pending) =
        x.written ++ pendingUpdates (.writing (w :: pending)) := by
      rw [List.append_assoc]
      rfl
    exact hmove ▸ hv

theorem Sound.abort (h : Sound s) (hx : s.proposals.transactions[i]? = some x)
    (hg : InTurn s (.rollback i)) :
    Sound { s with
      proposals := s.proposals.rollback i
      stage := Function.update s.stage i .idle } := by
  refine ⟨⟨h.ships.once, h.ships.stored, h.ships.reviewed⟩, h.keyed,
    Slots.staged_set h.planned planned_idle, ?_⟩
  intro pr hpr f hf
  rcases h.recorded pr hpr f hf with hrow | hmarked
  · exact Or.inl hrow
  · right
    apply marked_set hx _ hmarked
    rintro ⟨w, hw, -, hurl⟩
    exact absurd (hg x hx w hw) hurl

theorem Sound.open (h : Sound s) {rows : List DetectionProposalRow} {title : Option String}
    {pr : DetectionPr} (hcomposing : s.stage i = .composing rows title)
    (hfiles : ∃ seen, pr.files = buildPrFilesFrom T seen rows)
    (hurl : truthy (some pr.prUrl) = true) (hx : s.proposals.transactions[i]? = some x)
    (hg : InTurn s (.openPr i)) :
    Sound { s with
      prs := s.prs ++ [pr]
      stage := Function.update s.stage i (.writing (rows.map (shippedMark pr.prUrl))) } := by
  obtain ⟨seen, hfiles⟩ := hfiles
  have hwriting : ¬ Writing (s.stage i) := by
    rintro ⟨pending, hpending⟩
    rw [hcomposing] at hpending
    cases hpending
  have hempty := (h.planned i x hx).empty_of_settled hwriting
  obtain ⟨hnodup, hids⟩ := (h.planned i x hx).loaded rows title hcomposing
  simp only [InTurn, hcomposing] at hg
  have hrowIds : pr.files.map (·.rowId) = rows.map (·.id) := by
    rw [hfiles, map_rowId_buildPrFilesFrom]
  have hfresh : ∀ pr' ∈ s.prs, ∀ f ∈ pr'.files, f.rowId ∉ rows.map (·.id) := by
    intro pr' hpr' f hf hmem
    obtain ⟨r, hr, hid⟩ := List.mem_map.mp hmem
    obtain ⟨y, hy, hmarked⟩ := h.marked_of_unshipped hpr' hf (hid ▸ (hg r hr).1)
    rw [(h.planned i y hy).empty_of_settled hwriting] at hmarked
    exact not_marked_empty hwriting hmarked
  have hmarks : ∀ f ∈ pr.files,
      Marked .empty (.writing (rows.map (shippedMark pr.prUrl))) f.rowId := by
    intro f hf
    rw [hfiles] at hf
    obtain ⟨r, hr, hid, -⟩ := content_buildPrFilesFrom hf
    refine ⟨shippedMark pr.prUrl r, List.mem_map_of_mem hr, hid.symm, ?_⟩
    intro hnone
    cases hnone
  refine ⟨⟨?_, ?_, ?_⟩, h.keyed, ?_, ?_⟩
  · rw [List.flatMap_append, List.flatMap_singleton, hrowIds]
    refine List.nodup_append.mpr ⟨h.ships.once, hnodup, ?_⟩
    rintro rowId hold _ hnew rfl
    obtain ⟨pr', hpr', hmem⟩ := List.mem_flatMap.mp hold
    obtain ⟨f, hf, rfl⟩ := List.mem_map.mp hmem
    exact hfresh pr' hpr' f hf hnew
  · intro pr' hpr' f hf
    rcases List.mem_append.mp hpr' with hpr' | hpr'
    · exact h.ships.stored pr' hpr' f hf
    · obtain rfl := List.mem_singleton.mp hpr'
      rw [hfiles] at hf
      obtain ⟨r, hr, hid, -⟩ := content_buildPrFilesFrom hf
      exact hid ▸ hids r hr
  · intro pr' hpr' f hf row hrow hid
    rcases List.mem_append.mp hpr' with hpr' | hpr'
    · exact h.ships.reviewed pr' hpr' f hf row hrow hid
    · obtain rfl := List.mem_singleton.mp hpr'
      rw [hfiles] at hf
      obtain ⟨r, hr, hrid, hcontent⟩ := content_buildPrFilesFrom hf
      obtain ⟨hstate, hbody⟩ := (hg r hr).2 row hrow (hid.trans hrid)
      exact ⟨hstate, hbody.trans hcontent.symm⟩
  · apply Slots.staged_update h.planned (fun _ _ => rfl)
    intro y hy
    rw [(h.planned i y hy).empty_of_settled hwriting]
    exact planned_marks hids hurl
  · intro pr' hpr' f hf
    rcases List.mem_append.mp hpr' with hpr' | hpr'
    · rcases h.recorded pr' hpr' f hf with hrow | ⟨j, y, hy, hmarked⟩
      · exact Or.inl hrow
      · have hne : j ≠ i := by
          rintro rfl
          rw [(h.planned j y hy).empty_of_settled hwriting] at hmarked
          exact not_marked_empty hwriting hmarked
        refine Or.inr ⟨j, y, hy, ?_⟩
        change Marked y (Function.update s.stage i _ j) f.rowId
        rw [Function.update_of_ne hne]
        exact hmarked
    · obtain rfl := List.mem_singleton.mp hpr'
      refine Or.inr ⟨i, x, hx, ?_⟩
      change Marked x (Function.update s.stage i _ i) f.rowId
      rw [Function.update_self, hempty]
      exact hmarks f hf

theorem Sound.reviewed_commit (h : Sound s) (hx : s.proposals.transactions[i]? = some x)
    (hg : InTurn s (.commit i)) {pr : DetectionPr} (hpr : pr ∈ s.prs) {f : RuleFile}
    (hf : f ∈ pr.files) {row : DetectionProposalRow} (hrow : row ∈ s.proposals.committed)
    (hid : row.id = f.rowId) :
    (proposalTable.applyAll x.written row).state ∈ shippable ∧
      shippedYaml (proposalTable.applyAll x.written row) = f.content := by
  obtain ⟨hstate, hbody⟩ := h.ships.reviewed pr hpr f hf row hrow hid
  have hkept : ¬ Alters row (proposalTable.applyAll x.written row) := by
    intro halters
    obtain ⟨y, hy, w, hw, -, hurl⟩ :=
      h.marked_of_unshipped hpr hf (hid ▸ hg x hx row hrow halters)
    obtain rfl := Option.some.inj (hx.symm.trans hy)
    rcases (h.planned i x hx).kind with hmarks | hnone
    · exact not_alters_of_marks (fun w hw => hmarks w (List.mem_append_left _ hw)) halters
    · exact hurl (hnone w hw)
  constructor
  · by_contra hnot
    exact hkept (Or.inl ⟨hstate, hnot⟩)
  · by_contra hnot
    apply hkept
    right
    intro hsame
    exact hnot (hsame.trans hbody)

theorem Sound.commit (h : Sound s) (hx : s.proposals.transactions[i]? = some x)
    (hwriting : s.stage i = .writing []) (hg : InTurn s (.commit i)) :
    Sound { s with
      proposals := s.proposals.commit proposalTable i x
      stage := Function.update s.stage i .idle } := by
  have hplanned := h.planned i x hx
  rw [hwriting] at hplanned
  have hkind : ∀ w ∈ x.written, OnlyMarks w.2 ∨ w.2.prUrl = none := by
    intro w hw
    rcases hplanned.kind with hmarks | hnone
    · exact Or.inl (hmarks w (List.mem_append_left _ hw))
    · exact Or.inr (hnone w (List.mem_append_left _ hw))
  have hids : (s.proposals.view proposalTable x).map (·.id) =
      s.proposals.committed.map (·.id) := by
    have hkeys : (s.proposals.view proposalTable x).map proposalTable.key =
        (s.proposals.committed ++ x.inserted).map proposalTable.key :=
      ReadCommitted.map_key_view
    rw [hplanned.inserted, List.append_nil] at hkeys
    exact hkeys
  have hview : ∀ row' ∈ s.proposals.view proposalTable x,
      ∃ row ∈ s.proposals.committed, proposalTable.applyAll x.written row = row' := by
    intro row' hrow'
    have hmem := ReadCommitted.mem_view.mp hrow'
    rwa [hplanned.inserted, List.append_nil] at hmem
  have hid : ∀ row, (proposalTable.applyAll x.written row).id = row.id :=
    fun row => RowTable.key_applyAll (T := proposalTable)
  refine ⟨⟨h.ships.once, ?_, ?_⟩, ?_, ?_, ?_⟩
  · intro pr hpr f hf
    exact hids ▸ h.ships.stored pr hpr f hf
  · intro pr hpr f hf row' hrow' hrid
    obtain ⟨row, hrow, rfl⟩ := hview row' hrow'
    exact h.reviewed_commit hx hg hpr hf hrow ((hid row).symm.trans hrid)
  · exact hids ▸ h.keyed
  · change ∀ (j : ℕ) (y : ProposalTransaction),
      (s.proposals.transactions.set i .empty)[j]? = some y →
        Planned ((s.proposals.view proposalTable x).map (·.id)) y
          (Function.update s.stage i .idle j)
    rw [hids]
    exact Slots.staged_set h.planned planned_idle
  · intro pr hpr f hf
    have hcommitted : ∀ row ∈ s.proposals.committed,
        truthy (proposalTable.applyAll x.written row).prUrl = true → row.id = f.rowId →
          ∃ row' ∈ s.proposals.view proposalTable x, row'.id = f.rowId ∧
            truthy row'.prUrl = true := by
      intro row hrow hurl hrid
      refine ⟨_, ReadCommitted.mem_view.mpr ⟨row, List.mem_append_left _ hrow, rfl⟩, ?_, hurl⟩
      rw [hid]
      exact hrid
    rcases h.recorded pr hpr f hf with ⟨row, hrow, hrid, hurl⟩ | hmarked
    · exact Or.inl (hcommitted row hrow (truthy_applyAll hkind hurl) hrid)
    · by_cases hown : Marked x (.writing []) f.rowId
      · obtain ⟨w, hw, hwid, hurl⟩ := hown
        obtain ⟨row, hrow, hrid⟩ := List.mem_map.mp (hplanned.known w hw)
        have hmarks : ∀ w ∈ x.written, OnlyMarks w.2 := by
          rcases hplanned.kind with hmarks | hnone
          · exact fun w hw => hmarks w (List.mem_append_left _ hw)
          · exact absurd (hnone w hw) hurl
        have hwritten : w ∈ x.written := by
          rwa [pendingUpdates, List.append_nil] at hw
        exact Or.inl (hcommitted row hrow
          (truthy_of_marked hmarks ⟨w, hwritten, hrid.symm⟩) (hrid.trans hwid))
      · right
        apply marked_set hx _ hmarked
        rw [hwriting]
        intro hmark
        exact absurd hmark hown

theorem sound_step (h : Sound s) (hg : InTurn s e) (hstep : step T parse repo s e = some s') :
    Sound s' := by
  cases moved_of_step hstep with
  | still => exact h
  | staged i stage hwriting hplanned => exact h.goto hwriting (hplanned h.keyed)
  | opened i x rows title pr hx hcomposing hfiles hurl => exact h.open hcomposing hfiles hurl hx hg
  | wrote i x w pending hx hwriting => exact h.write hx hwriting
  | committed i x hx hwriting => exact h.commit hx hwriting hg
  | aborted i x hx => exact h.abort hx hg

-- Rows under review: none of them is in a PR yet.
def Unreleased (rows : List DetectionProposalRow) : Prop :=
  (rows.map (·.id)).Nodup ∧ ∀ row ∈ rows, row.prUrl = none

theorem start_sound {writers : ℕ} {rows : List DetectionProposalRow} (h : Unreleased rows) :
    Sound (start writers rows) := by
  refine ⟨⟨List.nodup_nil, ?_, ?_⟩, h.1, ?_, ?_⟩
  · intro pr hpr
    cases hpr
  · intro pr hpr
    cases hpr
  · intro i x hx
    obtain rfl : x = .empty := List.eq_of_mem_replicate (List.mem_of_getElem? hx)
    exact planned_idle
  · intro pr hpr
    cases hpr

end Sound

instance (s : ProposalDb) : Decidable (ShipsOnce s) :=
  decidable_of_iff ((s.prs.flatMap fun pr => pr.files.map (·.rowId)).Nodup ∧
      (∀ pr ∈ s.prs, ∀ f ∈ pr.files, f.rowId ∈ s.proposals.committed.map (·.id)) ∧
      ∀ pr ∈ s.prs, ∀ f ∈ pr.files, ∀ row ∈ s.proposals.committed, row.id = f.rowId →
        row.state ∈ shippable ∧ shippedYaml row = f.content)
    ⟨fun h => ⟨h.1, h.2.1, h.2.2⟩, fun h => ⟨h.once, h.stored, h.reviewed⟩⟩

instance (x : ProposalTransaction) (stage : ProposalStage) (rowId : String) :
    Decidable (Marked x stage rowId) :=
  decidable_of_iff
    (∃ w ∈ x.written ++ pendingUpdates stage, w.1 = rowId ∧ w.2.prUrl.isSome = true)
    (by simp only [Marked, Option.isSome_iff_ne_none])

instance (s : ProposalDb) (i : ℕ) (rowId : String) : Decidable (Unshipped s i rowId) :=
  inferInstanceAs (Decidable (_ ∧ ∀ j < s.proposals.transactions.length, j ≠ i →
    ∀ x ∈ s.proposals.transactions[j]?, ¬ Marked x (s.stage j) rowId))

instance (row row' : DetectionProposalRow) : Decidable (Alters row row') :=
  inferInstanceAs (Decidable (_ ∨ _))

instance (s : ProposalDb) : ∀ e, Decidable (InTurn s e)
  | .openPr i =>
      match h : s.stage i with
      | .composing rows _ =>
          decidable_of_iff (∀ r ∈ rows, Unshipped s i r.id ∧
              ∀ row ∈ s.proposals.committed, row.id = r.id →
                row.state ∈ shippable ∧ shippedYaml row = shippedYaml r)
            (by simp only [InTurn, h])
      | .idle => isTrue (by simp only [InTurn, h])
      | .writing _ => isTrue (by simp only [InTurn, h])
  | .commit i => inferInstanceAs (Decidable (∀ x ∈ s.proposals.transactions[i]?,
      ∀ row ∈ s.proposals.committed,
        Alters row (proposalTable.applyAll x.written row) → Unshipped s i row.id))
  | .rollback i =>
      decidable_of_iff (∀ x ∈ s.proposals.transactions[i]?,
          ∀ w ∈ x.written ++ pendingUpdates (s.stage i), w.2.prUrl.isNone = true)
        (by simp only [InTurn, Option.isNone_iff_eq_none])
  | .setState .. | .setSigma .. | .validate .. | .compose .. | .recordOutcome .. | .write _ =>
      isTrue trivial

def phishingRule : DetectionProposalRow where
  id := "dprop_1"
  orgId := "org_default"
  title := "Phishing domain"
  sigmaYaml := "title: Phishing domain"
  finalSigmaYaml := none
  techniqueIds := ["T1566"]
  state := .PROPOSED
  validation := none
  prUrl := none
  prOutcome := .PROPOSED

def accepted : List ProposalEvent :=
  [.setState 0 "org_default" "dprop_1" .ACCEPTED, .write 0, .commit 0]

-- The second request loads the row before the first one has committed its PR.
def composedTwice : List ProposalEvent :=
  [.compose 0 "org_default" ["dprop_1"] none, .openPr 0,
    .compose 1 "org_default" ["dprop_1"] none, .openPr 1]

theorem rule_shipped_twice : ¬ ∀ (T : CharTable) (parse : String → Option String) (repo : String)
    (writers : ℕ) (rows : List DetectionProposalRow) (events : List ProposalEvent) (s : ProposalDb),
    Unreleased rows → (machine T parse repo).run (start writers rows) events = some s →
      ShipsOnce s := by
  intro h
  have hrows : Unreleased [phishingRule] := ⟨List.nodup_singleton _, by simp [phishingRule]⟩
  have hrun : ((machine .ascii some "rules").run (start 2 [phishingRule])
      (accepted ++ composedTwice)).any fun s => decide (¬ ShipsOnce s) := by
    decide +kernel
  obtain ⟨s, hs, hnot⟩ := (Option.any_eq_true _ _).mp hrun
  exact of_decide_eq_true hnot (h .ascii some "rules" 2 _ _ s hrows hs)

theorem ships_once {writers : ℕ} {rows : List DetectionProposalRow} {events : List ProposalEvent}
    (hrows : Unreleased rows)
    (hg : (machine T parse repo).Along InTurn (start writers rows) events)
    (h : (machine T parse repo).run (start writers rows) events = some s) : ShipsOnce s :=
  ((machine T parse repo).invariant_along (I := Sound) sound_step (start_sound hrows) hg h).ships

-- The second request finds the row shipped, and the merge is recorded.
def composedAndMerged : List ProposalEvent :=
  [.validate 1 "org_default" "dprop_1" (.str "clean"),
    .compose 0 "org_default" ["dprop_1"] none, .write 1, .openPr 0, .commit 1, .write 0, .commit 0,
    .compose 1 "org_default" ["dprop_1"] none, .recordOutcome 1 "org_default" "dprop_1" .MERGED,
    .write 1, .commit 1]

theorem composedAndMerged_once : ∃ s, (machine .ascii some "rules").run
      (start 2 [phishingRule]) (accepted ++ composedAndMerged) = some s ∧ s.prs.length = 1 ∧
      s.proposals.committed.map (·.prOutcome) = [.MERGED] ∧ ShipsOnce s := by
  have hrows : Unreleased [phishingRule] := ⟨List.nodup_singleton _, by simp [phishingRule]⟩
  have hrun : ((machine .ascii some "rules").run (start 2 [phishingRule])
      (accepted ++ composedAndMerged)).any fun s =>
        decide (s.prs.length = 1 ∧ s.proposals.committed.map (·.prOutcome) = [.MERGED]) := by
    decide +kernel
  obtain ⟨s, hs, hstate⟩ := (Option.any_eq_true _ _).mp hrun
  obtain ⟨hlength, houtcome⟩ := of_decide_eq_true hstate
  exact ⟨s, hs, hlength, houtcome, ships_once hrows (by decide +kernel) hs⟩

end ProposalDb

end BTagent
