import BTagent.Audit.Linear
import BTagent.Audit.VerifiersAgree
import BTagent.Data.JsonRoundTrip
import Mathlib.Data.List.Forall2

namespace BTagent

namespace AuditTrail

open JsonText

section Verified
variable {orgId p : String} {table rows : List AuditLogRow} {row row' : AuditLogRow}

theorem errorsFrom_of_valid (h : (verifyChain orgId table).1 = true) :
    errorsFrom orgId GENESIS_HASH (seqOrder table) = [] := by
  unfold verifyChain at h
  rw [seqOrder]
  dsimp only at h
  split at h
  · next hempty =>
      rw [hempty]
      rfl
  · next hrows =>
      exact (List.append_eq_nil_iff.mp (List.isEmpty_iff.mp h)).2

-- A row is checked by the verification of its own org.
theorem linked_of_errorsFrom (h : ∀ orgId, errorsFrom orgId p rows = []) :
    (links expectedHash).Linked p rows := by
  induction rows generalizing p with
  | nil => trivial
  | cons row rows ih =>
      have hsplit := fun orgId => List.append_eq_nil_iff.mp (h orgId)
      obtain ⟨hprev, hhash⟩ := List.append_eq_nil_iff.mp (hsplit row.orgId).1
      refine ⟨?_, ?_, ih fun orgId => (hsplit orgId).2⟩
      · by_contra hne
        rw [if_pos ⟨rfl, hne⟩] at hprev
        cases hprev
      · by_contra hne
        rw [if_pos ⟨rfl, fun heq => hne heq.symm⟩] at hhash
        cases hhash

theorem linked_of_verified (h : ∀ orgId, (verifyChain orgId table).1 = true) :
    (links expectedHash).Linked GENESIS_HASH (seqOrder table) :=
  linked_of_errorsFrom fun orgId => errorsFrom_of_valid (h orgId)

-- What the hash of a row covers, and the hash.
structure Sealed where
  fields : List Json
  prevHash : String
  hash : String

def Sealed.of (row : AuditLogRow) : Sealed := ⟨hashedFields row, row.prevHash, row.hash⟩

def seals : HashChain Sealed String where
  prev := Sealed.prevHash
  link := Sealed.hash
  digest r := sha256 (dumps payloadStyle (.arr r.fields)).toByteArray

theorem linked_sealed (h : (links expectedHash).Linked p rows) :
    seals.Linked p (rows.map Sealed.of) := by
  induction rows generalizing p with
  | nil => trivial
  | cons row rows ih => exact ⟨h.1, h.2.1, ih h.2.2⟩

theorem tip_sealed : seals.tip p (rows.map Sealed.of) = (rows.getLast?.map (·.hash)).getD p := by
  rw [HashChain.tip_eq_getLast?, List.getLast?_map, Option.map_map]
  rfl

theorem spaced_payload : Spaced payloadStyle := ⟨⟨0, rfl⟩, ⟨0, rfl⟩⟩

theorem spaced_canonical : Spaced canonicalStyle := ⟨⟨1, rfl⟩, ⟨1, rfl⟩⟩

-- The fields of a row are texts and a number, so that their encoding is read back.
theorem payload_injective (P : Python) (h : payload row = payload row') :
    hashedFields row = hashedFields row' := by
  have hreadable : ∀ row, Readable P (.arr (hashedFields row)) := by
    intro row
    simp [Readable, hashedFields, Json.Throughout, Json.ThroughoutList, Json.DistinctKeys,
      ReadsFloat]
  have hordered : ∀ row, ordered payloadStyle (.arr (hashedFields row)) =
      .arr (hashedFields row) := fun _ => rfl
  have hsame := dumps_injective spaced_payload (hreadable row) (hreadable row') h
  rw [hordered, hordered] at hsame
  exact Json.arr.inj hsame

end Verified

-- What a forger of the ledger has found: two payloads of one hash, or one that hashes to the
-- genesis.
def Forgery (rows rows' : List AuditLogRow) : Prop :=
  (∃ row ∈ rows, ∃ row' ∈ rows', payload row ≠ payload row' ∧
    sha256 (payload row).toByteArray = sha256 (payload row').toByteArray) ∨
  ∃ row ∈ rows ++ rows', sha256 (payload row).toByteArray = GENESIS_HASH

-- The org of a row is not hashed, and the keys of its details may stand in another order.
structure SameEntry (row row' : AuditLogRow) : Prop where
  id : row'.id = row.id
  seq : row'.seq = row.seq
  timestamp : (withUtc row'.timestamp).isoformat = (withUtc row.timestamp).isoformat
  actor : row'.actor = row.actor
  category : row'.category = row.category
  action : row'.action = row.action
  resource : row'.resource = row.resource
  outcome : row'.outcome = row.outcome
  prevHash : row'.prevHash = row.prevHash
  hash : row'.hash = row.hash
  details : ∀ P, Readable P (.obj row.details.entries) → Readable P (.obj row'.details.entries) →
    ordered canonicalStyle (.obj row'.details.entries) =
      ordered canonicalStyle (.obj row.details.entries)

section Tampered
variable {rows rows' : List AuditLogRow} {row row' : AuditLogRow}

theorem sameEntry_of_sealed (h : Sealed.of row = Sealed.of row') : SameEntry row row' := by
  simp only [Sealed.of, hashedFields, Sealed.mk.injEq, List.cons.injEq, Json.str.injEq,
    Json.int.injEq, and_true] at h
  obtain ⟨⟨hid, hseq, htimestamp, hactor, hcategory, haction, hresource, houtcome, hdetails, -⟩,
    hprev, hhash⟩ := h
  refine ⟨hid.symm, by exact_mod_cast hseq.symm, htimestamp.symm, hactor.symm, hcategory.symm,
    haction.symm, hresource.symm, houtcome.symm, hprev.symm, hhash.symm, ?_⟩
  intro P hread hread'
  exact dumps_injective spaced_canonical hread' hread hdetails.symm

theorem sealed_of_digest (P : Python) (hforgery : ¬ Forgery rows rows') (hrow : row ∈ rows)
    (hrow' : row' ∈ rows')
    (hdigest : seals.digest (Sealed.of row) = seals.digest (Sealed.of row'))
    (hlink : row.hash = row'.hash) : Sealed.of row = Sealed.of row' := by
  have hpayload : payload row = payload row' := by
    by_contra hne
    exact hforgery (Or.inl ⟨row, hrow, row', hrow', hne, hdigest⟩)
  have hfields := payload_injective P hpayload
  have hprev : row.prevHash = row'.prevHash := by
    have hlast := congrArg List.getLast? hfields
    simpa [hashedFields] using hlast
  rw [Sealed.of, Sealed.of, hfields, hprev, hlink]

theorem rooted (hforgery : ¬ Forgery rows rows') (hrow : row ∈ rows ++ rows')
    (hdigest : expectedHash row = row.hash) : row.hash ≠ GENESIS_HASH := by
  rw [← hdigest, expectedHash_eq]
  exact fun hgenesis => hforgery (Or.inr ⟨row, hrow, hgenesis⟩)

theorem digest_of_linked {p : String} (h : (links expectedHash).Linked p rows) :
    ∀ row ∈ rows, expectedHash row = row.hash := by
  induction rows generalizing p with
  | nil => nofun
  | cons row rows ih => exact List.forall_mem_cons.mpr ⟨h.2.1, ih h.2.2⟩

-- Two tables that verify and end in one hash are one, unless a forger found what SHA-256 hides.
theorem same_entries (h : (links expectedHash).Linked GENESIS_HASH rows)
    (h' : (links expectedHash).Linked GENESIS_HASH rows')
    (htip : rows.getLast?.map (·.hash) = rows'.getLast?.map (·.hash))
    (hforgery : ¬ Forgery rows rows') : List.Forall₂ SameEntry rows rows' := by
  have P : Python := ⟨.ascii, fun _ => true, id⟩
  have hsame : rows.map Sealed.of = rows'.map Sealed.of := by
    apply HashChain.eq_of_tip_eq (linked_sealed h) (linked_sealed h')
    · rintro _ hr _ hr' hdigest hlink
      obtain ⟨row, hrow, rfl⟩ := List.mem_map.mp hr
      obtain ⟨row', hrow', rfl⟩ := List.mem_map.mp hr'
      exact sealed_of_digest P hforgery hrow hrow' hdigest hlink
    · rintro _ hr
      obtain ⟨row, hrow, rfl⟩ := List.mem_map.mp hr
      exact rooted hforgery (List.mem_append_left _ hrow) (digest_of_linked h row hrow)
    · rintro _ hr
      obtain ⟨row, hrow, rfl⟩ := List.mem_map.mp hr
      exact rooted hforgery (List.mem_append_right _ hrow) (digest_of_linked h' row hrow)
    · rw [tip_sealed, tip_sealed, htip]
  have hforall : List.Forall₂ (· = ·) (rows.map Sealed.of) (rows'.map Sealed.of) :=
    List.forall₂_eq_eq_eq ▸ hsame
  rw [List.forall₂_map_left_iff, List.forall₂_map_right_iff] at hforall
  exact hforall.imp fun _ _ => sameEntry_of_sealed

end Tampered

end AuditTrail

namespace AuditDb

open AuditTrail

variable {N : JsonbNumeric} {writers : ℕ} {es : List AuditEvent} {t : AuditDb}

end AuditDb

end BTagent
