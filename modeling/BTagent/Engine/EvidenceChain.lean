import BTagent.Data.Timestamp
import BTagent.Engine.Runner
import BTagent.Lib.HashChain
import Mathlib.Data.Set.Function

namespace BTagent

-- `hashlib.sha256(...).hexdigest()` and `json.dumps(..., sort_keys=True, default=str)`.
structure Hashing where
  sha256 : ByteArray → String
  dumps : Dict → String

structure EvidenceRecord where
  runId : String
  nodeId : String
  prevHash : String
  linkHash : String
  inputHash : String
  outputHash : String
  timestamp : Timestamp
  deriving DecidableEq

namespace EvidenceChain

def GENESIS_HASH : String := String.ofList (List.replicate 64 '0')

-- `"\x00".join`
def joinNul : List String → String
  | [] => ""
  | [part] => part
  | part :: parts => part ++ String.singleton '\x00' ++ joinNul parts

def linkParts (nodeId inputHash outputHash runId timestampIso prevHash : String) : ByteArray :=
  (joinNul [nodeId, inputHash, outputHash, runId, timestampIso, prevHash]).toByteArray

variable (H : Hashing)

def sha256Of (payload : Dict) : String := H.sha256 (H.dumps payload).toByteArray

def linkHash (nodeId inputHash outputHash runId timestampIso prevHash : String) : String :=
  H.sha256 (linkParts nodeId inputHash outputHash runId timestampIso prevHash)

def tailHash (records : List EvidenceRecord) : String :=
  match records.getLast? with
  | some r => r.linkHash
  | none => GENESIS_HASH

-- `EvidenceChainMiddleware.after_run`
def afterRun (runId : String) (records : List EvidenceRecord) (f : Frame) (output : Dict)
    (now : Timestamp) : List EvidenceRecord :=
  let prevHash := tailHash records
  let inputHash := sha256Of H f.input
  let outputHash := sha256Of H output
  records ++ [{
    runId := runId
    nodeId := f.node.id
    prevHash := prevHash
    linkHash := linkHash H f.node.id inputHash outputHash runId now.isoformat prevHash
    inputHash := inputHash
    outputHash := outputHash
    timestamp := now }]

def verifyFrom (expectedPrev : String) : List EvidenceRecord → Bool × Option String
  | [] => (true, none)
  | r :: records =>
      if r.prevHash ≠ expectedPrev then (false, some r.linkHash)
      else if linkHash H r.nodeId r.inputHash r.outputHash r.runId r.timestamp.isoformat r.prevHash ≠
          r.linkHash then
        (false, some r.linkHash)
      else verifyFrom r.linkHash records

def verifyChain (records : List EvidenceRecord) : Bool × Option String :=
  verifyFrom H GENESIS_HASH records

section Spec
variable {H} {records records' : List EvidenceRecord}

def linkPreimage (r : EvidenceRecord) : ByteArray :=
  linkParts r.nodeId r.inputHash r.outputHash r.runId r.timestamp.isoformat r.prevHash

def hashChain (H : Hashing) : HashChain EvidenceRecord String where
  prev := EvidenceRecord.prevHash
  link := EvidenceRecord.linkHash
  digest r := H.sha256 (linkPreimage r)

theorem verifyFrom_iff {expected : String} :
    verifyFrom H expected records = (true, none) ↔ (hashChain H).Linked expected records := by
  induction records generalizing expected with
  | nil => simp [verifyFrom, HashChain.Linked]
  | cons r records ih =>
      have hcons : (hashChain H).Linked expected (r :: records) ↔ r.prevHash = expected ∧
          linkHash H r.nodeId r.inputHash r.outputHash r.runId r.timestamp.isoformat r.prevHash =
            r.linkHash ∧ (hashChain H).Linked r.linkHash records := Iff.rfl
      rw [hcons, verifyFrom, ← ih]
      rcases eq_or_ne r.prevHash expected with rfl | hprev
      · by_cases hlink : linkHash H r.nodeId r.inputHash r.outputHash r.runId
            r.timestamp.isoformat r.prevHash = r.linkHash
        · simp [hlink]
        · simp [hlink]
      · simp [hprev]

theorem verifyChain_iff :
    verifyChain H records = (true, none) ↔ (hashChain H).Linked GENESIS_HASH records :=
  verifyFrom_iff

theorem tailHash_eq : tailHash records = (hashChain H).tip GENESIS_HASH records := by
  rw [HashChain.tip_eq_getLast?, tailHash]
  cases records.getLast? <;> rfl

theorem linked_afterRun {runId : String} {f : Frame} {output : Dict} {now : Timestamp}
    (h : (hashChain H).Linked GENESIS_HASH records) :
    (hashChain H).Linked GENESIS_HASH (afterRun H runId records f output now) :=
  HashChain.linked_concat.mpr ⟨h, tailHash_eq, rfl⟩

theorem prefix_afterRun {runId : String} {f : Frame} {output : Dict} {now : Timestamp} :
    records <+: afterRun H runId records f output now := List.prefix_append _ _

-- No field of the record holds the separator.
def Separable (r : EvidenceRecord) : Prop :=
  ∀ field ∈ [r.nodeId, r.inputHash, r.outputHash, r.runId], '\x00' ∉ field.toList

theorem toList_joinNul_cons {part next : String} {parts : List String} :
    (joinNul (part :: next :: parts)).toList =
      part.toList ++ '\x00' :: (joinNul (next :: parts)).toList := by
  simp [joinNul]

theorem notMem_padded {width n : ℕ} {c : Char} (hc : ∀ d < 10, c ≠ Char.ofNat (48 + d)) :
    c ∉ padded width n := by
  intro h
  obtain ⟨d, hd, heq⟩ := padded_digit c h
  exact hc d hd heq

theorem nul_notMem_isoformat {t : Timestamp} : '\x00' ∉ t.isoformat.toList := by
  have hdigits : ∀ {width n : ℕ}, '\x00' ∉ padded width n := notMem_padded (by decide)
  have hfraction : ∀ {n}, '\x00' ∉ fraction n := by
    intro n
    unfold fraction
    split <;> simp [hdigits]
  have hoffset : ∀ {o}, '\x00' ∉ Timestamp.formatOffset o := by
    intro o
    cases o with
    | none => simp [Timestamp.formatOffset]
    | some o =>
        simp only [Timestamp.formatOffset, UtcOffset.format, UtcOffset.formatSeconds]
        split <;> split <;> simp [hdigits, hfraction]
  simp [Timestamp.isoformat, Timestamp.isoChars, hdigits, hfraction, hoffset]

theorem joinNul_cons_inj {part part' next next' : String} {parts parts' : List String}
    (hpart : '\x00' ∉ part.toList) (hpart' : '\x00' ∉ part'.toList)
    (h : joinNul (part :: next :: parts) = joinNul (part' :: next' :: parts')) :
    part = part' ∧ joinNul (next :: parts) = joinNul (next' :: parts') := by
  have hlist := congrArg String.toList h
  rw [toList_joinNul_cons, toList_joinNul_cons] at hlist
  have hlen : part.toList.length = part'.toList.length := by
    have hidx := congrArg (List.idxOf '\x00') hlist
    rwa [List.idxOf_append_of_notMem hpart, List.idxOf_append_of_notMem hpart',
      List.idxOf_cons_self, List.idxOf_cons_self, Nat.add_zero, Nat.add_zero] at hidx
  obtain ⟨hinit, hrest⟩ := List.append_inj hlist hlen
  exact ⟨String.toList_injective hinit, String.toList_injective (List.cons.inj hrest).2⟩

theorem linkPreimage_inj {r r' : EvidenceRecord} (hr : Separable r) (hr' : Separable r')
    (hlink : r.linkHash = r'.linkHash) (h : linkPreimage r = linkPreimage r') : r = r' := by
  have hjoin := String.toByteArray_inj.mp h
  simp only [Separable, List.forall_mem_cons] at hr hr'
  obtain ⟨hnode, hjoin⟩ := joinNul_cons_inj hr.1 hr'.1 hjoin
  obtain ⟨hinput, hjoin⟩ := joinNul_cons_inj hr.2.1 hr'.2.1 hjoin
  obtain ⟨houtput, hjoin⟩ := joinNul_cons_inj hr.2.2.1 hr'.2.2.1 hjoin
  obtain ⟨hrun, hjoin⟩ := joinNul_cons_inj hr.2.2.2.1 hr'.2.2.2.1 hjoin
  obtain ⟨htime, hprev⟩ :=
    joinNul_cons_inj nul_notMem_isoformat nul_notMem_isoformat hjoin
  have htimestamp := Timestamp.isoformat_inj htime
  have hprev' : r.prevHash = r'.prevHash := hprev
  cases r
  cases r'
  simp_all

-- SHA-256 has no collision among the records and hashes none of them to the genesis value.
structure NoCollision (H : Hashing) (records : List EvidenceRecord) : Prop where
  injective : Set.InjOn H.sha256 {text | ∃ r ∈ records, text = linkPreimage r}
  genesis : ∀ r ∈ records, r.linkHash ≠ GENESIS_HASH

theorem eq_of_tailHash_eq (hsep : ∀ r ∈ records ++ records', Separable r)
    (hhash : NoCollision H (records ++ records'))
    (h : verifyChain H records = (true, none)) (h' : verifyChain H records' = (true, none))
    (htail : tailHash records = tailHash records') : records = records' := by
  apply HashChain.eq_of_tip_eq (verifyChain_iff.mp h) (verifyChain_iff.mp h')
  · intro r hr r' hr' hdigest hlink
    have hmem : r ∈ records ++ records' := List.mem_append_left _ hr
    have hmem' : r' ∈ records ++ records' := List.mem_append_right _ hr'
    have hpreimage := hhash.injective ⟨r, hmem, rfl⟩ ⟨r', hmem', rfl⟩ hdigest
    exact linkPreimage_inj (hsep r hmem) (hsep r' hmem') hlink hpreimage
  · exact fun r hr => hhash.genesis r (List.mem_append_left _ hr)
  · exact fun r hr => hhash.genesis r (List.mem_append_right _ hr)
  · rwa [← tailHash_eq, ← tailHash_eq]

end Spec

end EvidenceChain

end BTagent
