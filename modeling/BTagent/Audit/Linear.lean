import BTagent.Audit.Ledger
import BTagent.Lib.HashChain
import BTagent.Lib.Slots
import Mathlib.Data.List.Chain
import Mathlib.Data.List.Range

namespace BTagent

namespace AuditTrail

-- The rows are numbered from one, and each names the hash of the one before.
structure LinearChain (rows : List AuditLogRow) : Prop where
  seqs : rows.map (·.seq) = List.range' 1 rows.length
  genesis : ∀ row ∈ rows.head?, row.prevHash = GENESIS_HASH
  links : rows.IsChain fun row next => next.prevHash = row.hash

def links (digest : AuditLogRow → String) : HashChain AuditLogRow String where
  prev := AuditLogRow.prevHash
  link := AuditLogRow.hash
  digest := digest

structure Chained (digest : AuditLogRow → String) (rows : List AuditLogRow) : Prop where
  seqs : rows.map (·.seq) = List.range' 1 rows.length
  linked : (links digest).Linked GENESIS_HASH rows

section Chained
variable {digest : AuditLogRow → String} {rows rows' : List AuditLogRow} {row : AuditLogRow}
  {p orgId : String}

theorem chained_nil : Chained digest [] := ⟨rfl, trivial⟩

theorem Chained.concat (h : Chained digest rows) (hseq : row.seq = rows.length + 1)
    (hprev : row.prevHash = (links digest).tip GENESIS_HASH rows)
    (hdigest : digest row = row.hash) : Chained digest (rows ++ [row]) := by
  constructor
  · rw [List.map_append, h.seqs, List.length_append, List.length_singleton,
      List.range'_1_concat, List.map_singleton, hseq, Nat.add_comm]
  · exact HashChain.linked_concat.mpr ⟨h.linked, hprev, hdigest⟩

theorem Chained.of_append (h : Chained digest (rows ++ rows')) : Chained digest rows := by
  constructor
  · have htake := congrArg (List.take rows.length) h.seqs
    rw [List.map_append, List.length_append, List.take_left' (List.length_map _)] at htake
    rw [htake, ← List.range'_append_1, List.take_left' List.length_range']
  · exact h.linked.prefix_ (List.prefix_append _ _)

theorem Chained.next_seq (h : Chained digest (rows ++ row :: rows')) :
    row.seq = rows.length + 1 := by
  have hseqs := congrArg (fun seqs => seqs[rows.length]?) h.seqs
  rw [List.map_append, List.map_cons] at hseqs
  simpa [Nat.add_comm] using hseqs

theorem Chained.exists_seq (h : Chained digest rows) {k : ℕ} :
    (∃ row ∈ rows, row.seq = k) ↔ 1 ≤ k ∧ k ≤ rows.length := by
  have hmem : k ∈ rows.map (·.seq) ↔ 1 ≤ k ∧ k ≤ rows.length := by
    rw [h.seqs, List.mem_range'_1]
    omega
  rw [← hmem, List.mem_map]

theorem Chained.pairwise (h : Chained digest rows) :
    rows.Pairwise fun row next => row.seq < next.seq := by
  have hlt : (rows.map (·.seq)).Pairwise (· < ·) := h.seqs ▸ List.pairwise_lt_range'
  exact List.pairwise_map.mp hlt

theorem latest_eq_getLast? (h : rows.Pairwise fun row next => row.seq < next.seq) :
    latest rows = rows.getLast? := by
  induction rows with
  | nil => rfl
  | cons row rows ih =>
      obtain ⟨hrow, hrows⟩ := List.pairwise_cons.mp h
      rw [latest, ih hrows]
      cases hlast : rows.getLast? with
      | none => simp [List.getLast?_eq_none_iff.mp hlast]
      | some other =>
          have hlt := hrow other (List.mem_of_getLast? hlast)
          simp [List.getLast?_cons, hlast, Nat.not_lt.mpr (Nat.le_of_lt hlt)]

theorem Chained.nextSeqAndPrevHash_eq (h : Chained digest rows) :
    nextSeqAndPrevHash rows = (rows.length + 1, (links digest).tip GENESIS_HASH rows) := by
  rw [nextSeqAndPrevHash, latest_eq_getLast? h.pairwise, HashChain.tip_eq_getLast?]
  cases hlast : rows.getLast? with
  | none =>
      obtain rfl := List.getLast?_eq_none_iff.mp hlast
      rfl
  | some row =>
      obtain ⟨init, rfl⟩ := List.getLast?_eq_some_iff.mp hlast
      have hseq := congrArg List.getLast? h.seqs
      simp [List.range'_1_concat] at hseq
      simp [hseq, links]
      omega

theorem Chained.linear (h : Chained digest rows) : LinearChain rows := by
  obtain ⟨hseqs, hlinked⟩ := h
  refine ⟨hseqs, ?_, ?_⟩
  · cases rows with
    | nil => simp
    | cons row rows =>
        rintro _ ⟨⟩
        exact hlinked.1
  · clear hseqs
    generalize GENESIS_HASH = p at hlinked
    induction rows generalizing p with
    | nil => exact List.IsChain.nil
    | cons row rows ih =>
        cases rows with
        | nil => exact List.isChain_singleton _
        | cons next rows =>
            exact List.isChain_cons_cons.mpr ⟨hlinked.2.2.1, ih _ hlinked.2.2⟩

theorem errorsFrom_eq_nil (h : (links expectedHash).Linked p rows) :
    errorsFrom orgId p rows = [] := by
  induction rows generalizing p with
  | nil => rfl
  | cons row rows ih =>
      obtain ⟨hprev, hhash, hrest⟩ := h
      have hprev' : row.prevHash = p := hprev
      have hhash' : row.hash = expectedHash row := hhash.symm
      simp only [errorsFrom, hprev', ← hhash', ne_eq, not_true, and_false, if_false,
        List.nil_append]
      exact ih hrest

theorem Chained.verifyChain_eq (h : Chained expectedHash rows) :
    verifyChain orgId rows = (true, []) := by
  have hsorted : rows.insertionSort SeqLe = rows :=
    (h.pairwise.imp fun hlt => Nat.le_of_lt hlt).insertionSort_eq
  rw [verifyChain, hsorted]
  cases rows with
  | nil => rfl
  | cons row rows =>
      have hprev : row.prevHash = GENESIS_HASH := h.linked.1
      have herrors : errorsFrom orgId GENESIS_HASH (row :: rows) = [] := errorsFrom_eq_nil h.linked
      simp [herrors, hprev]

end Chained

section Kept
variable {N : JsonbNumeric} {entryId : String} {entry : AuditEntry} {now : Timestamp}
  {rows : List AuditLogRow}

-- Every float in the details is given back by the column as it was.
def DetailsKept (N : JsonbNumeric) (entry : AuditEntry) : Prop :=
  ∀ d ∈ entry.details, (Json.obj d.entries).Throughout (Json.FloatKept N)

theorem detailsToCanonical_obj (h : DetailsKept N entry) :
    detailsToCanonical (Jsonb.obj N (details entry)) = detailsToCanonical (details entry) := by
  cases hd : entry.details with
  | none => simp [details, hd, Jsonb.obj, OrderedDict.empty, Jsonb.storeFields, Jsonb.sortKeys]
  | some d =>
      have hsort : canonicalStyle.sortKeys = true := rfl
      have hstore := JsonText.dumps_store hsort (.obj d.entries) (entry.keyed d hd) (h d hd)
      simpa [details, hd, detailsToCanonical, Jsonb.obj, Jsonb.store] using hstore

theorem expectedHash_stored (h : DetailsKept N entry) :
    expectedHash (AuditDb.stored N (computeRow entryId entry now rows)) =
      (computeRow entryId entry now rows).hash := by
  simp only [expectedHash, AuditDb.stored, computeRow, withUtc, reduceCtorEq, if_false,
    detailsToCanonical_obj h]

end Kept

end AuditTrail

namespace AuditSession

def inserting (x : AuditSession) : Option AuditLogRow :=
  x.append.bind fun a =>
    match a.stage with
    | .inserting row => some row
    | .reading => none

end AuditSession

namespace AuditDb
open AuditTrail

-- The row continues the chain of the rows that were there when it was computed.
structure Headed (digest : AuditLogRow → String) (N : JsonbNumeric) (rows : List AuditLogRow)
    (row : AuditLogRow) : Prop where
  hash_eq : digest (stored N row) = row.hash
  head : ∃ n ≤ rows.length, row.seq = n + 1 ∧
    row.prevHash = (links digest).tip GENESIS_HASH (rows.take n)

section Run
variable (digest : AuditLogRow → String) (N : JsonbNumeric) (Good : AuditEntry → Prop)

structure SessionInv (committed : List AuditLogRow) (x : AuditSession) : Prop where
  chained : Chained digest (committed ++ x.rows)
  headed : ∀ row ∈ x.inserting, Headed digest N (committed ++ x.rows) row
  good : ∀ a ∈ x.append, Good a.entry

structure Inv (s : AuditDb) : Prop where
  committed : Chained digest s.committed
  sessions : ∀ x ∈ s.sessions, SessionInv digest N Good s.committed x
  alone : Slots.AtMostOne (fun x => x.rows ≠ []) s.sessions

def Records : AuditEvent → Prop
  | .record _ _ entry => Good entry
  | _ => True

variable {digest N Good} {s s' : AuditDb} {i : ℕ} {x x' : AuditSession} {a : Append}
  {row : AuditLogRow} {rows rows' : List AuditLogRow}

theorem Headed.extend (h : Headed digest N rows row) : Headed digest N (rows ++ rows') row := by
  obtain ⟨n, hn, hseq, hprev⟩ := h.head
  refine ⟨h.hash_eq, n, ?_, hseq, ?_⟩
  · rw [List.length_append]
    omega
  · rwa [List.take_append_of_le_length hn]

theorem inv_start {writers : ℕ} : Inv digest N Good (start writers) := by
  refine ⟨chained_nil, ?_, ?_⟩
  · intro x hx
    obtain rfl := List.eq_of_mem_replicate hx
    exact ⟨chained_nil, by simp [AuditSession.idle, AuditSession.inserting],
      by simp [AuditSession.idle]⟩
  · intro j k x y hj _ hx _
    obtain rfl := List.eq_of_mem_replicate (List.mem_of_getElem? hj)
    exact absurd rfl hx

theorem Inv.move (h : Inv digest N Good s) (hi : s.sessions[i]? = some x)
    (hx : SessionInv digest N Good s.committed x') (hrows : x'.rows ≠ [] → x.rows ≠ []) :
    Inv digest N Good (s.move i x') :=
  ⟨h.committed, Slots.forall_set h.sessions hx, h.alone.set hi hrows⟩

theorem SessionInv.keep (h : SessionInv digest N Good s.committed x) (hrows : x'.rows <+: x.rows)
    (hrow : ∀ row ∈ x'.inserting, Headed digest N (s.committed ++ x'.rows) row)
    (hgood : ∀ a ∈ x'.append, Good a.entry) : SessionInv digest N Good s.committed x' := by
  refine ⟨?_, hrow, hgood⟩
  obtain ⟨rest, hrest⟩ := hrows
  have hchained := h.chained
  rw [← hrest, ← List.append_assoc] at hchained
  exact hchained.of_append

theorem Inv.move_prefix (h : Inv digest N Good s) (hi : s.sessions[i]? = some x)
    (hrows : x'.rows <+: x.rows)
    (hrow : ∀ row ∈ x'.inserting, Headed digest N (s.committed ++ x'.rows) row)
    (hgood : ∀ a ∈ x'.append, Good a.entry) : Inv digest N Good (s.move i x') := by
  apply h.move hi
  · exact (h.sessions x (List.mem_of_getElem? hi)).keep hrows hrow hgood
  · intro hne hnil
    rw [hnil] at hrows
    exact hne (List.prefix_nil.mp hrows)

theorem Inv.retry (h : Inv digest N Good s) (hi : s.sessions[i]? = some x)
    (ha : x.append = some a) : Inv digest N Good (s.move i (x.retry a)) := by
  have hgood := (h.sessions x (List.mem_of_getElem? hi)).good a ha
  unfold AuditSession.retry
  split
  · exact h.move_prefix hi (List.prefix_refl _) (by simp [AuditSession.inserting]) (by simp)
  · exact h.move_prefix hi (List.prefix_refl _) (by simp [AuditSession.inserting])
      (by simpa using hgood)

theorem Headed.last (h : Headed digest N rows row) (hrows : Chained digest rows)
    (hfree : ¬ ∃ other ∈ rows, Conflict row other) :
    row.seq = rows.length + 1 ∧ row.prevHash = (links digest).tip GENESIS_HASH rows := by
  obtain ⟨n, hn, hseq, hprev⟩ := h.head
  have hlast : n = rows.length := by
    by_contra hne
    obtain ⟨other, hother, heq⟩ := hrows.exists_seq.mpr
      (show 1 ≤ n + 1 ∧ n + 1 ≤ rows.length by omega)
    exact hfree ⟨other, hother, Or.inl (heq.trans hseq.symm)⟩
  subst hlast
  rw [List.take_length] at hprev
  exact ⟨hseq, hprev⟩

theorem Inv.append (h : Inv digest N Good s) (hi : s.sessions[i]? = some x)
    (hrow : x.inserting = some row)
    (hwait : ¬ ∃ other ∈ (s.sessions.eraseIdx i).flatMap (·.rows), Conflict row other)
    (hfree : ¬ ∃ other ∈ s.committed ++ x.rows, Conflict row other) :
    Inv digest N Good (s.move i { x with rows := x.rows ++ [stored N row], append := none }) := by
  have hx := h.sessions x (List.mem_of_getElem? hi)
  have hheaded := hx.headed row hrow
  obtain ⟨hseq, hprev⟩ := hheaded.last hx.chained hfree
  have hchained : Chained digest (s.committed ++ (x.rows ++ [stored N row])) := by
    rw [← List.append_assoc]
    exact hx.chained.concat hseq hprev hheaded.hash_eq
  have hnew : SessionInv digest N Good s.committed
      { x with rows := x.rows ++ [stored N row], append := none } :=
    ⟨hchained, by simp [AuditSession.inserting], by simp⟩
  by_cases hnil : x.rows = []
  · refine ⟨h.committed, Slots.forall_set h.sessions hnew, Slots.AtMostOne.set_alone ?_⟩
    intro c hc hne
    obtain ⟨j, hj⟩ := List.mem_iff_getElem?.mp hc
    have hji : j ≠ i := by
      rintro rfl
      rw [hi] at hj
      cases hj
      exact hne hnil
    obtain ⟨other, rest, hrows⟩ := List.exists_cons_of_ne_nil hne
    have hother : other.seq = s.committed.length + 1 := by
      have hc' := (h.sessions c hc).chained
      rw [hrows] at hc'
      exact hc'.next_seq
    apply hwait
    refine ⟨other, ?_, Or.inl ?_⟩
    · have herase : c ∈ s.sessions.eraseIdx i := List.mem_eraseIdx_iff_getElem?.mpr ⟨j, hji, hj⟩
      exact List.mem_flatMap.mpr ⟨c, herase, by simp [hrows]⟩
    · rw [hother, hseq, hnil, List.append_nil]
  · exact h.move hi hnew fun _ => hnil

theorem Inv.commit (h : Inv digest N Good s) (hi : s.sessions[i]? = some x) :
    Inv digest N Good ⟨s.committed ++ x.rows, s.sessions.set i .idle⟩ := by
  have hx := h.sessions x (List.mem_of_getElem? hi)
  refine ⟨hx.chained, ?_, h.alone.set hi fun hne => absurd rfl hne⟩
  intro c hc
  obtain ⟨j, hj⟩ := List.mem_iff_getElem?.mp hc
  rcases Slots.getElem?_set_cases hj with ⟨-, rfl⟩ | ⟨hji, hj⟩
  · refine ⟨?_, by simp [AuditSession.idle, AuditSession.inserting], by simp [AuditSession.idle]⟩
    simpa [AuditSession.idle] using hx.chained
  · have hold := h.sessions c (List.mem_of_getElem? hj)
    by_cases hrows : x.rows = []
    · simpa [hrows] using hold
    · have hnil : c.rows = [] := by
        by_contra hne
        exact hji (h.alone j i c x hj hi hne hrows)
      refine ⟨by simpa [hnil] using hx.chained, ?_, hold.good⟩
      intro row hrow
      have hheaded := hold.headed row hrow
      rw [hnil, List.append_nil] at hheaded ⊢
      exact hheaded.extend

variable (hgood : ∀ {entryId entry now rows}, Good entry →
  digest (stored N (computeRow entryId entry now rows)) = (computeRow entryId entry now rows).hash)
include hgood

theorem Inv.read (h : Inv digest N Good s) (hi : s.sessions[i]? = some x) (ha : x.append = some a)
    (now : Timestamp) : Inv digest N Good (s.move i { x with
      append := some { a with
        stage := .inserting (computeRow a.entryId a.entry now (s.committed ++ x.rows)) } }) := by
  have hx := h.sessions x (List.mem_of_getElem? hi)
  refine h.move_prefix hi (List.prefix_refl _) ?_ ?_
  · intro row hrow
    obtain rfl : computeRow a.entryId a.entry now (s.committed ++ x.rows) = row := by
      simpa [AuditSession.inserting] using hrow
    refine ⟨hgood (hx.good a ha), _, Nat.le_refl _, ?_, ?_⟩
    · simp [computeRow, hx.chained.nextSeqAndPrevHash_eq]
    · rw [List.take_length]
      simp [computeRow, hx.chained.nextSeqAndPrevHash_eq]
  · simpa using hx.good a ha

theorem inv_step {e : AuditEvent} (h : Inv digest N Good s) (hrec : Records Good e)
    (hstep : step N s e = some s') : Inv digest N Good s' := by
  cases e with
  | record i entryId entry =>
      obtain ⟨x, hi, hstep⟩ := Option.bind_eq_some_iff.mp hstep
      split at hstep
      · cases hstep
        have hentry : Good entry := hrec
        exact h.move_prefix hi (List.prefix_refl _) (by simp [AuditSession.inserting])
          (by simpa using hentry)
      · cases hstep
  | read i now =>
      obtain ⟨x, hi, hstep⟩ := Option.bind_eq_some_iff.mp hstep
      obtain ⟨a, ha, hstep⟩ := Option.bind_eq_some_iff.mp hstep
      split at hstep
      · cases hstep
        exact h.read hgood hi ha now
      · cases hstep
  | insert i =>
      obtain ⟨x, hi, hstep⟩ := Option.bind_eq_some_iff.mp hstep
      obtain ⟨a, ha, hstep⟩ := Option.bind_eq_some_iff.mp hstep
      split at hstep
      · next row hstage =>
          have hrow : x.inserting = some row := by simp [AuditSession.inserting, ha, hstage]
          unfold AuditDb.insert at hstep
          split at hstep
          · cases hstep
          · next hwait =>
              split at hstep
              · cases hstep
                exact h.retry hi ha
              · next hfree =>
                  cases hstep
                  exact h.append hi hrow hwait hfree
      · cases hstep
  | violate i =>
      obtain ⟨x, hi, hstep⟩ := Option.bind_eq_some_iff.mp hstep
      obtain ⟨a, ha, hstep⟩ := Option.bind_eq_some_iff.mp hstep
      cases hstep
      exact h.retry hi ha
  | fail i =>
      obtain ⟨x, hi, hstep⟩ := Option.bind_eq_some_iff.mp hstep
      cases hstep
      exact h.move_prefix hi (List.prefix_refl _) (by simp [AuditSession.inserting]) (by simp)
  | savepoint i =>
      obtain ⟨x, hi, hstep⟩ := Option.bind_eq_some_iff.mp hstep
      split at hstep
      · next hnone =>
          cases hstep
          exact h.move_prefix hi (List.prefix_refl _) (by simp [AuditSession.inserting, hnone])
            (by simp [hnone])
      · cases hstep
  | release i =>
      obtain ⟨x, hi, hstep⟩ := Option.bind_eq_some_iff.mp hstep
      split at hstep
      · next hnone =>
          cases hstep
          exact h.move_prefix hi (List.prefix_refl _) (by simp [AuditSession.inserting, hnone])
            (by simp [hnone])
      · cases hstep
  | rollbackTo i =>
      obtain ⟨x, hi, hstep⟩ := Option.bind_eq_some_iff.mp hstep
      split at hstep
      · cases hstep
        exact h.move_prefix hi (List.take_prefix _ _) (by simp [AuditSession.inserting]) (by simp)
      · cases hstep
  | commit i =>
      obtain ⟨x, hi, hstep⟩ := Option.bind_eq_some_iff.mp hstep
      split at hstep
      · cases hstep
        exact h.commit hi
      · cases hstep
  | rollback i =>
      obtain ⟨x, hi, hstep⟩ := Option.bind_eq_some_iff.mp hstep
      cases hstep
      exact h.move_prefix hi List.nil_prefix (by simp [AuditSession.idle, AuditSession.inserting])
        (by simp [AuditSession.idle])

theorem inv_run {writers : ℕ} {es : List AuditEvent}
    (hrec : ∀ e ∈ es, Records Good e) (h : (machine N).run (start writers) es = some s) :
    Inv digest N Good s := by
  have halong : (machine N).Along (fun _ e => Records Good e) (start writers) es :=
    Machine.along_of_forall _ fun _ e he => hrec e he
  refine Machine.invariant_along _ (I := Inv digest N Good) ?_ inv_start halong h
  intro _ _ _ hinv hevent hstep
  exact inv_step hgood hinv hevent hstep

end Run

section Ledger
variable {N : JsonbNumeric} {writers : ℕ} {es : List AuditEvent} {t : AuditDb}

theorem committed_chained (h : (machine N).run (start writers) es = some t) :
    Chained AuditLogRow.hash t.committed := by
  have hany : ∀ e ∈ es, Records (fun _ => True) e := by
    intro e _
    cases e <;> trivial
  exact (inv_run (fun _ => rfl) hany h).committed

theorem ledger_linear (h : (machine N).run (start writers) es = some t) :
    LinearChain t.committed ∧
      ((∀ e ∈ es, Records (DetailsKept N) e) →
        ∀ orgId, verifyChain orgId t.committed = (true, [])) := by
  refine ⟨(committed_chained h).linear, ?_⟩
  intro hkept orgId
  exact (inv_run expectedHash_stored hkept h).committed.verifyChain_eq

end Ledger

end AuditDb

namespace TwoWriters

-- `numeric` has one zero and no exponents, and an integer has no decimal point.
def numeric : JsonbNumeric where
  read r := if r = "1e+22" then .int 10000000000000000000000 else .float r
  stable r := by
    by_cases h : r = "1e+22"
    · exact Or.inl ⟨_, if_pos h⟩
    · exact Or.inr ⟨r, if_neg h, if_neg h⟩

def entry (score : String) : AuditEntry where
  actor := "usr_ana"
  category := .CONTAINMENT
  action := "bulk_block_dispatched"
  resource := "inv_1"
  outcome := .SUCCESS
  details := some ⟨[("score", .float score)], List.nodup_singleton _⟩
  orgId := "org_default"
  keyed := by
    rintro _ ⟨⟩
    simp [Json.Throughout, Json.ThroughoutFields, Json.DistinctKeys]

def now : Timestamp := ⟨2026, 7, 1, 12, 0, 0, 250000, none⟩

-- Both see the empty ledger; the second one loses, and appends again after the first has committed.
def race (score : String) : List AuditEvent :=
  [.record 0 "aud_0" (entry score), .record 1 "aud_1" (entry score), .read 0 now, .read 1 now,
    .insert 0, .commit 0, .insert 1, .read 1 now, .insert 1, .commit 1]

def final (score : String) : Option AuditDb :=
  (AuditDb.machine numeric).run (AuditDb.start 2) (race score)

end TwoWriters

theorem AuditDb.ledger_linear_race : ∃ t ∈ TwoWriters.final "0.5",
    t.committed.map (·.seq) = [1, 2] ∧ AuditTrail.LinearChain t.committed ∧
      AuditTrail.verifyChain "org_default" t.committed = (true, []) := by
  have hrun : (TwoWriters.final "0.5").isSome = true := by decide
  obtain ⟨t, ht⟩ := Option.isSome_iff_exists.mp hrun
  have hseqs : (TwoWriters.final "0.5").map (fun t => t.committed.map (·.seq)) = some [1, 2] := by
    decide
  rw [ht] at hseqs
  obtain ⟨hlinear, hvalid⟩ := AuditDb.ledger_linear ht
  refine ⟨t, ht, Option.some.inj hseqs, hlinear, hvalid ?_ _⟩
  have hkept : AuditTrail.DetailsKept TwoWriters.numeric (TwoWriters.entry "0.5") := by
    rintro _ ⟨⟩
    simp [Json.Throughout, Json.ThroughoutFields, Json.FloatKept, TwoWriters.numeric]
  simp [TwoWriters.race, AuditDb.Records, hkept]

-- The column gives an integer back for a float that is one, and its text is hashed again.
theorem AuditDb.large_float_fails_verification :
    (TwoWriters.final "1e+22").map
      (fun t => (AuditTrail.verifyChain "org_default" t.committed).1) = some false := by
  decide +kernel

end BTagent
