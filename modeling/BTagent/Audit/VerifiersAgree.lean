import BTagent.Audit.Ledger

namespace BTagent

structure AuditLineageNode where
  id : String
  seq : ℕ
  timestamp : Timestamp
  actor : String
  category : String
  action : String
  resource : String
  outcome : String
  prevHash : String
  sequence : ℕ

structure AuditLineageEdge where
  source : String
  target : String
  kind : String := "chain"

structure AuditLineageGraph where
  nodes : List AuditLineageNode := []
  edges : List AuditLineageEdge := []
  intact : Bool := true
  brokenAt : Option String := none

namespace AuditLineage

open AuditTrail

def verifyRow (row : AuditLogRow) (expectedPrevHash : String) : Bool :=
  if row.prevHash ≠ expectedPrevHash then false else expectedHash row = row.hash

-- What the loop has gathered so far.
structure Projection where
  nodes : List AuditLineageNode := []
  edges : List AuditLineageEdge := []
  expectedPrev : String := GENESIS_HASH
  brokenAt : Option String := none
  inOrgHashes : List String := []
  position : ℕ := 0

def node (row : AuditLogRow) (position : ℕ) : AuditLineageNode where
  id := row.hash
  seq := row.seq
  timestamp := row.timestamp
  actor := row.actor
  category := row.category
  action := row.action
  resource := row.resource
  outcome := row.outcome
  prevHash := row.prevHash
  sequence := position

def projectRow (orgId : String) (s : Projection) (row : AuditLogRow) : Projection :=
  let rowOk := verifyRow row s.expectedPrev
  if row.orgId = orgId then
    { nodes := s.nodes ++ [node row s.position]
      edges := s.edges ++
        (if row.prevHash ≠ GENESIS_HASH ∧ row.prevHash ∈ s.inOrgHashes
          then [{ source := row.prevHash, target := row.hash }] else [])
      brokenAt := if s.brokenAt = none ∧ rowOk = false then some row.hash else s.brokenAt
      inOrgHashes := row.hash :: s.inOrgHashes
      position := s.position + 1
      expectedPrev := row.hash }
  else { s with expectedPrev := row.hash }

def projectRows (rows : List AuditLogRow) (orgId : String) : AuditLineageGraph :=
  let s := rows.foldl (projectRow orgId) {}
  { nodes := s.nodes, edges := s.edges, intact := s.brokenAt.isNone, brokenAt := s.brokenAt }

end AuditLineage

namespace AuditTrail

open AuditLineage

def seqOrder (table : List AuditLogRow) : List AuditLogRow := table.insertionSort SeqLe

def Broken (row : AuditLogRow) (prevHash : String) : Prop :=
  row.prevHash ≠ prevHash ∨ row.hash ≠ expectedHash row

instance (row : AuditLogRow) (prevHash : String) : Decidable (Broken row prevHash) :=
  inferInstanceAs (Decidable (_ ∨ _))

-- The first row of the org that does not name the link before it or has not its own hash.
def firstBroken (orgId prevHash : String) : List AuditLogRow → Option AuditLogRow
  | [] => none
  | row :: rows =>
      if row.orgId = orgId ∧ Broken row prevHash then some row
      else firstBroken orgId row.hash rows

def Names (error : String) (row : AuditLogRow) : Prop :=
  error = genesisError row ∨ (∃ prevHash, error = prevHashError row prevHash) ∨
    error = hashError row

section Verify
variable {orgId prevHash : String} {rows : List AuditLogRow}

theorem errorsFrom_of_none (h : firstBroken orgId prevHash rows = none) :
    errorsFrom orgId prevHash rows = [] := by
  induction rows generalizing prevHash with
  | nil => rfl
  | cons row rows ih =>
      unfold firstBroken at h
      split at h
      · cases h
      · rename_i hsound
        have hprev : ¬ (row.orgId = orgId ∧ row.prevHash ≠ prevHash) := fun hbad =>
          hsound ⟨hbad.1, Or.inl hbad.2⟩
        have hhash : ¬ (row.orgId = orgId ∧ row.hash ≠ expectedHash row) := fun hbad =>
          hsound ⟨hbad.1, Or.inr hbad.2⟩
        rw [errorsFrom, if_neg hprev, if_neg hhash, ih h]
        rfl

theorem errorsFrom_of_some {row : AuditLogRow} (h : firstBroken orgId prevHash rows = some row) :
    ∃ error ∈ (errorsFrom orgId prevHash rows).head?, Names error row := by
  induction rows generalizing prevHash with
  | nil => cases h
  | cons first rows ih =>
      unfold firstBroken at h
      split at h
      · rename_i hbroken
        cases h
        by_cases hprev : row.prevHash = prevHash
        · have hhash := hbroken.2.resolve_left (not_not.mpr hprev)
          refine ⟨hashError row, ?_, Or.inr (Or.inr rfl)⟩
          rw [errorsFrom, if_neg (by simp [hprev]), if_pos ⟨hbroken.1, hhash⟩]
          rfl
        · refine ⟨prevHashError row prevHash, ?_, Or.inr (Or.inl ⟨prevHash, rfl⟩)⟩
          rw [errorsFrom, if_pos ⟨hbroken.1, hprev⟩]
          rfl
      · rename_i hsound
        have hprev : ¬ (first.orgId = orgId ∧ first.prevHash ≠ prevHash) := fun hbad =>
          hsound ⟨hbad.1, Or.inl hbad.2⟩
        have hhash : ¬ (first.orgId = orgId ∧ first.hash ≠ expectedHash first) := fun hbad =>
          hsound ⟨hbad.1, Or.inr hbad.2⟩
        rw [errorsFrom, if_neg hprev, if_neg hhash]
        exact ih h

theorem verifyChain_of_none {table : List AuditLogRow}
    (h : firstBroken orgId GENESIS_HASH (seqOrder table) = none) :
    verifyChain orgId table = (true, []) := by
  have herrors := errorsFrom_of_none h
  unfold seqOrder at h herrors
  unfold verifyChain
  cases hrows : table.insertionSort SeqLe with
  | nil => rfl
  | cons first rows =>
      rw [hrows] at h herrors
      have hgenesis : ¬ (first.orgId = orgId ∧ first.prevHash ≠ GENESIS_HASH) := by
        intro hbad
        rw [firstBroken, if_pos ⟨hbad.1, Or.inl hbad.2⟩] at h
        cases h
      simp only [herrors, if_neg hgenesis]
      rfl

theorem verifyChain_of_some {table : List AuditLogRow} {row : AuditLogRow}
    (h : firstBroken orgId GENESIS_HASH (seqOrder table) = some row) :
    (verifyChain orgId table).1 = false ∧
      ∃ error ∈ (verifyChain orgId table).2.head?, Names error row := by
  have herrors := errorsFrom_of_some h
  unfold seqOrder at h herrors
  unfold verifyChain
  cases hrows : table.insertionSort SeqLe with
  | nil => rw [hrows] at h; cases h
  | cons first rows =>
      rw [hrows] at h herrors
      dsimp only
      split
      · rename_i hgenesis
        rw [firstBroken, if_pos ⟨hgenesis.1, Or.inl hgenesis.2⟩] at h
        cases h
        exact ⟨rfl, genesisError row, rfl, Or.inl rfl⟩
      · obtain ⟨error, hhead, hnames⟩ := herrors
        rw [List.nil_append]
        refine ⟨?_, error, hhead, hnames⟩
        cases herr : errorsFrom orgId GENESIS_HASH (first :: rows) with
        | nil => rw [herr] at hhead; cases hhead
        | cons e es => rfl

end Verify

section Project
variable {orgId : String} {rows : List AuditLogRow}

theorem verifyRow_eq_false {row : AuditLogRow} {prevHash : String} :
    verifyRow row prevHash = false ↔ Broken row prevHash := by
  unfold verifyRow Broken
  split
  · rename_i h
    simp [h]
  · rename_i h
    simp [h, eq_comm]

theorem brokenAt_foldl (s : Projection) :
    (rows.foldl (projectRow orgId) s).brokenAt =
      s.brokenAt.or ((firstBroken orgId s.expectedPrev rows).map (·.hash)) := by
  induction rows generalizing s with
  | nil => simp [firstBroken]
  | cons row rows ih =>
      rw [List.foldl_cons, ih, projectRow, firstBroken]
      by_cases horg : row.orgId = orgId
      · rw [if_pos horg]
        cases hbefore : s.brokenAt with
        | some hash => simp
        | none =>
            by_cases hbroken : Broken row s.expectedPrev
            · simp [hbroken, verifyRow_eq_false.mpr hbroken, horg]
            · have hok : verifyRow row s.expectedPrev ≠ false := mt verifyRow_eq_false.mp hbroken
              simp [hbroken, hok]
      · rw [if_neg horg, if_neg fun h => horg h.1]

theorem projectRows_brokenAt :
    (projectRows rows orgId).brokenAt =
      (firstBroken orgId GENESIS_HASH rows).map (·.hash) := by
  have hfold : (rows.foldl (projectRow orgId) {}).brokenAt =
      Option.or none ((firstBroken orgId GENESIS_HASH rows).map (·.hash)) := brokenAt_foldl {}
  rw [Option.none_or] at hfold
  exact hfold

theorem projectRows_intact :
    (projectRows rows orgId).intact = (firstBroken orgId GENESIS_HASH rows).isNone := by
  have hbroken : (projectRows rows orgId).brokenAt =
      (firstBroken orgId GENESIS_HASH rows).map (·.hash) := projectRows_brokenAt
  unfold projectRows at hbroken ⊢
  dsimp only at hbroken ⊢
  rw [hbroken, Option.isNone_map]

end Project

section Rewritten
variable {orgId : String} {row row' : AuditLogRow}

def hashedFields (row : AuditLogRow) : List Json :=
  [.str row.id, .int row.seq, .str (withUtc row.timestamp).isoformat, .str row.actor,
    .str row.category, .str row.action, .str row.resource, .str row.outcome,
    .str (detailsToCanonical row.details), .str row.prevHash]

def payload (row : AuditLogRow) : String := JsonText.dumps payloadStyle (.arr (hashedFields row))

theorem expectedHash_eq (row : AuditLogRow) : expectedHash row = sha256 (payload row).toByteArray :=
  rfl

-- The same stored hash and org over other fields.
structure Rewritten (row row' : AuditLogRow) : Prop where
  orgId : row'.orgId = row.orgId
  hash : row'.hash = row.hash
  fields : hashedFields row' ≠ hashedFields row

-- No collision of SHA-256 between the two rows, and none of the encoding of their fields.
structure Distinguished (row row' : AuditLogRow) : Prop where
  sha : sha256 (payload row').toByteArray = sha256 (payload row).toByteArray →
    payload row' = payload row
  encoding : payload row' = payload row → hashedFields row' = hashedFields row

theorem rewritten_hash (hrewritten : Rewritten row row') (hdistinct : Distinguished row row')
    (hstored : row.hash = expectedHash row) : row'.hash ≠ expectedHash row' := by
  intro hfits
  have hsame : expectedHash row' = expectedHash row := by
    rw [← hfits, hrewritten.hash, hstored]
  rw [expectedHash_eq, expectedHash_eq] at hsame
  exact hrewritten.fields (hdistinct.encoding (hdistinct.sha hsame))

theorem firstBroken_of_mem {rows : List AuditLogRow} {prevHash : String} (hmem : row ∈ rows)
    (horg : row.orgId = orgId) (hhash : row.hash ≠ expectedHash row) :
    ∃ first, firstBroken orgId prevHash rows = some first := by
  induction rows generalizing prevHash with
  | nil => cases hmem
  | cons other rows ih =>
      unfold firstBroken
      split
      · exact ⟨other, rfl⟩
      · rename_i hsound
        rcases List.mem_cons.mp hmem with rfl | hrest
        · exact absurd ⟨horg, Or.inr hhash⟩ hsound
        · exact ih hrest

theorem verifiers_agree (orgId : String) (table : List AuditLogRow) :
    (verifyChain orgId table).1 = (projectRows (seqOrder table) orgId).intact ∧
    (∀ error ∈ (verifyChain orgId table).2.head?, ∃ row,
      firstBroken orgId GENESIS_HASH (seqOrder table) = some row ∧ Names error row ∧
        (projectRows (seqOrder table) orgId).brokenAt = some row.hash) ∧
    ∀ (i : ℕ) (row row' : AuditLogRow), table[i]? = some row → row.orgId = orgId →
      row.hash = expectedHash row → Rewritten row row' → Distinguished row row' →
        (verifyChain orgId (table.set i row')).1 = false ∧
          (projectRows (seqOrder (table.set i row')) orgId).intact = false := by
  refine ⟨?_, ?_, ?_⟩
  · rw [projectRows_intact]
    cases h : firstBroken orgId GENESIS_HASH (seqOrder table) with
    | none => rw [verifyChain_of_none h]; rfl
    | some row => exact (verifyChain_of_some h).1
  · intro error herror
    rw [projectRows_brokenAt]
    cases h : firstBroken orgId GENESIS_HASH (seqOrder table) with
    | none =>
        rw [verifyChain_of_none h] at herror
        cases herror
    | some row =>
        obtain ⟨-, first, hfirst, hnames⟩ := verifyChain_of_some h
        have hsame : error = first := Option.mem_unique herror hfirst
        exact ⟨row, rfl, hsame ▸ hnames, rfl⟩
  · intro i row row' hrow horg hstored hrewritten hdistinct
    have hmem : row' ∈ seqOrder (table.set i row') := by
      rw [seqOrder, List.mem_insertionSort]
      have hlt := (List.getElem?_eq_some_iff.mp hrow).1
      exact List.mem_set hlt row'
    have hbroken : ∃ first, firstBroken orgId GENESIS_HASH (seqOrder (table.set i row')) =
        some first := firstBroken_of_mem hmem (hrewritten.orgId.trans horg)
      (rewritten_hash hrewritten hdistinct hstored)
    obtain ⟨first, hfirst⟩ := hbroken
    rw [projectRows_intact, hfirst]
    exact ⟨(verifyChain_of_some hfirst).1, rfl⟩

end Rewritten

def sealRow (row : AuditLogRow) : AuditLogRow := { row with hash := expectedHash row }

def genesisRow : AuditLogRow := sealRow
  { id := "aud_1", orgId := "org_default", seq := 1
    timestamp := ⟨2026, 7, 1, 12, 0, 0, 250000, none⟩, actor := "usr_ana"
    category := "containment", action := "block_dispatched", resource := "inv_1"
    outcome := "success", details := .empty, prevHash := GENESIS_HASH, hash := "" }

theorem sealRow_hash (row : AuditLogRow) : (sealRow row).hash = expectedHash (sealRow row) := by
  simp only [sealRow, expectedHash]

theorem genesisRow_hash : genesisRow.hash = expectedHash genesisRow := sealRow_hash _

-- The same entry under another name.
def forgedRow : AuditLogRow := { genesisRow with actor := "usr_eve" }

theorem forged_payload : payload forgedRow ≠ payload genesisRow := by decide +kernel

theorem forged_sha :
    sha256 (payload forgedRow).toByteArray ≠ sha256 (payload genesisRow).toByteArray := by
  decide +kernel

theorem forged_fields : hashedFields forgedRow ≠ hashedFields genesisRow := fun h =>
  forged_payload (congrArg (fun fields => JsonText.dumps payloadStyle (.arr fields)) h)

theorem forgery_noticed :
    (verifyChain "org_default" [forgedRow]).1 = false ∧
      (projectRows (seqOrder [forgedRow]) "org_default").intact = false :=
  (verifiers_agree "org_default" [genesisRow]).2.2 0 genesisRow forgedRow rfl rfl
    genesisRow_hash
    ⟨rfl, rfl, forged_fields⟩
    ⟨fun h => absurd h forged_sha, fun h => absurd h forged_payload⟩

-- Writing the true actor back into a forged row makes the ledger valid.
theorem repaired_row_unnoticed :
    ¬ ∀ (orgId : String) (table : List AuditLogRow) (i : ℕ) (row row' : AuditLogRow),
      table[i]? = some row → row.orgId = orgId → Rewritten row row' → Distinguished row row' →
        (verifyChain orgId (table.set i row')).1 = false := by
  have hvalid : verifyChain "org_default" [genesisRow] = (true, []) := by
    apply verifyChain_of_none
    have hsound : ¬ Broken genesisRow GENESIS_HASH := by
      rintro (hprev | hhash)
      · exact hprev rfl
      · exact hhash genesisRow_hash
    have horder : seqOrder [genesisRow] = [genesisRow] := rfl
    rw [horder, firstBroken, if_neg fun h => hsound h.2, firstBroken]
  intro h
  have hbroken := h "org_default" [forgedRow] 0 forgedRow genesisRow rfl rfl
    ⟨rfl, rfl, forged_fields.symm⟩
    ⟨fun h => absurd h forged_sha.symm, fun h => absurd h forged_payload.symm⟩
  have hset : [forgedRow].set 0 genesisRow = [genesisRow] := rfl
  rw [hset, hvalid] at hbroken
  cases hbroken

end AuditTrail

end BTagent
