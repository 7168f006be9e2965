import BTagent.Engine.Gates
import BTagent.Lib.OrderedDict

namespace BTagent

namespace TLP

def all : List TLP := [.red, .amberStrict, .amber, .green, .white]

-- `TLP(text.lower())`; no letter outside ASCII lowers to one of a level's name.
def ofText (text : String) : Option TLP :=
  all.find? fun t => text.toList.map Char.toLower = t.value.toList

end TLP

-- What egress payloads are made of. A list and a tuple are one; a key that is no string is `none`.
inductive EgressPayload where
  | none
  | other
  | text (s : String)
  | tlp (t : TLP)
  | seq (xs : List EgressPayload)
  | dict (kvs : List (Option String × EgressPayload))

namespace EgressPayload

def TLP_FIELD_NAMES : List String := ["tlp_level", "tlp", "TLP", "TLPLevel"]

def MAX_SCAN_DEPTH : ℕ := 64

def coerceTlp : EgressPayload → Option TLP
  | .tlp t => some t
  | .text s => TLP.ofText s
  | _ => Option.none

def tlpFields (kvs : List (Option String × EgressPayload)) : List EgressPayload :=
  TLP_FIELD_NAMES.filterMap fun key => OrderedDict.find (some key) kvs

def redTagged (kvs : List (Option String × EgressPayload)) : Bool :=
  (tlpFields kvs).any fun v => coerceTlp v = some .red

mutual

-- `_scan`
def scan (depth : ℕ) : EgressPayload → Bool
  | .dict kvs => decide (MAX_SCAN_DEPTH < depth) || redTagged kvs || scanValues (depth + 1) kvs
  | .seq xs => decide (MAX_SCAN_DEPTH < depth) || scanItems (depth + 1) xs
  | _ => decide (MAX_SCAN_DEPTH < depth)

def scanItems (depth : ℕ) : List EgressPayload → Bool
  | [] => false
  | x :: xs => scan depth x || scanItems depth xs

def scanValues (depth : ℕ) : List (Option String × EgressPayload) → Bool
  | [] => false
  | kv :: kvs => scan depth kv.2 || scanValues depth kvs

end

def scanPayloadForRed (payload : EgressPayload) : Bool := scan 0 payload

def children : EgressPayload → List EgressPayload
  | .seq xs => xs
  | .dict kvs => kvs.map Prod.snd
  | _ => []

def tagged : EgressPayload → Bool
  | .dict kvs => redTagged kvs
  | _ => false

-- `NodeAt p n q`: from `p` the value `q` is reached by going `n` containers deep.
inductive NodeAt : EgressPayload → ℕ → EgressPayload → Prop
  | root (p : EgressPayload) : NodeAt p 0 p
  | child {p c q : EgressPayload} {n : ℕ} : c ∈ p.children → NodeAt c n q → NodeAt p (n + 1) q

def HasRed (p : EgressPayload) : Prop := ∃ n q, NodeAt p n q ∧ q.tagged = true

def TooDeep (p : EgressPayload) : Prop := ∃ n q, NodeAt p n q ∧ MAX_SCAN_DEPTH < n

theorem scanItems_eq_any (depth : ℕ) (xs : List EgressPayload) :
    scanItems depth xs = xs.any (scan depth) := by
  induction xs with
  | nil => rfl
  | cons x xs ih => simp only [scanItems, List.any_cons, ih]

theorem scanValues_eq_any (depth : ℕ) (kvs : List (Option String × EgressPayload)) :
    scanValues depth kvs = (kvs.map Prod.snd).any (scan depth) := by
  induction kvs with
  | nil => rfl
  | cons kv kvs ih => simp only [scanValues, List.map_cons, List.any_cons, ih]

theorem scan_eq (depth : ℕ) (p : EgressPayload) :
    scan depth p =
      (decide (MAX_SCAN_DEPTH < depth) || p.tagged || p.children.any (scan (depth + 1))) := by
  cases p with
  | seq xs => simp [scan, tagged, children, scanItems_eq_any]
  | dict kvs => simp [scan, tagged, children, scanValues_eq_any]
  | _ => simp [scan, tagged, children]

theorem sizeOf_child {p c : EgressPayload} (h : c ∈ p.children) : sizeOf c < sizeOf p := by
  cases p with
  | seq xs =>
      have hmem : c ∈ xs := h
      have := List.sizeOf_lt_of_mem hmem
      simp only [seq.sizeOf_spec]
      omega
  | dict kvs =>
      obtain ⟨kv, hkv, rfl⟩ := List.mem_map.mp h
      have := List.sizeOf_lt_of_mem hkv
      obtain ⟨k, v⟩ := kv
      simp only [dict.sizeOf_spec, Prod.mk.sizeOf_spec] at this ⊢
      omega
  | _ => simp [children] at h

theorem nodeAt_zero {p q : EgressPayload} : NodeAt p 0 q ↔ q = p := by
  constructor
  · intro h
    cases h
    rfl
  · rintro rfl
    exact .root q

theorem nodeAt_succ {p q : EgressPayload} {n : ℕ} :
    NodeAt p (n + 1) q ↔ ∃ c ∈ p.children, NodeAt c n q := by
  constructor
  · intro h
    cases h with
    | child hc hq => exact ⟨_, hc, hq⟩
  · rintro ⟨c, hc, hq⟩
    exact .child hc hq

theorem scan_iff (depth : ℕ) (p : EgressPayload) :
    scan depth p = true ↔
      ∃ n q, NodeAt p n q ∧ (MAX_SCAN_DEPTH < depth + n ∨ q.tagged = true) := by
  induction hsize : sizeOf p using Nat.strong_induction_on generalizing depth p with
  | _ size ih =>
  have hchild : p.children.any (scan (depth + 1)) = true ↔
      ∃ n q, NodeAt p (n + 1) q ∧ (MAX_SCAN_DEPTH < depth + (n + 1) ∨ q.tagged = true) := by
    simp only [List.any_eq_true, nodeAt_succ]
    constructor
    · rintro ⟨c, hc, hscan⟩
      obtain ⟨n, q, hq, hhit⟩ := (ih _ (hsize ▸ sizeOf_child hc) (depth + 1) c rfl).mp hscan
      exact ⟨n, q, ⟨c, hc, hq⟩, by rwa [show depth + (n + 1) = depth + 1 + n by omega]⟩
    · rintro ⟨n, q, ⟨c, hc, hq⟩, hhit⟩
      refine ⟨c, hc, (ih _ (hsize ▸ sizeOf_child hc) (depth + 1) c rfl).mpr ⟨n, q, hq, ?_⟩⟩
      rwa [show depth + 1 + n = depth + (n + 1) by omega]
  simp only [scan_eq, Bool.or_eq_true, decide_eq_true_eq, hchild]
  constructor
  · rintro (hhere | ⟨n, hbelow⟩)
    · exact ⟨0, p, .root p, hhere⟩
    · exact ⟨n + 1, hbelow⟩
  · rintro ⟨n, q, hq, hhit⟩
    cases n with
    | zero =>
        obtain rfl := nodeAt_zero.mp hq
        exact Or.inl hhit
    | succ n => exact Or.inr ⟨n, q, hq, hhit⟩

theorem scanPayloadForRed_iff (p : EgressPayload) :
    scanPayloadForRed p = true ↔ HasRed p ∨ TooDeep p := by
  unfold scanPayloadForRed HasRed TooDeep
  simp only [scan_iff, Nat.zero_add, and_or_left, exists_or]
  exact Or.comm

def supplied : EgressPayload → List EgressPayload
  | .tlp t => [.tlp t]
  | .text s => [.text s]
  | .dict kvs => tlpFields kvs
  | _ => []

-- `_resolve_classification`
def resolveClassification : EgressPayload → TLP
  | .tlp t => t
  | .text s => (coerceTlp (.text s)).getD .red
  | .dict kvs =>
      match (tlpFields kvs).findSome? coerceTlp with
      | some t => t
      | Option.none => if (tlpFields kvs).isEmpty then .green else .red
  | _ => .green

theorem resolveClassification_eq (ctx : EgressPayload) :
    resolveClassification ctx =
      ((supplied ctx).findSome? coerceTlp).getD
        (if (supplied ctx).isEmpty then .green else .red) := by
  cases ctx with
  | text s =>
      simp only [resolveClassification, supplied, List.findSome?_singleton]
      rfl
  | dict kvs =>
      simp only [resolveClassification, supplied]
      cases (tlpFields kvs).findSome? coerceTlp <;> rfl
  | _ => rfl

end EgressPayload

structure TLPViolationEvent where
  tlp : TLP
  egressKind : String
  channel : String
  orgId : Option String
  matchedPolicyId : Option String
  reason : String
  deriving DecidableEq

inductive EgressError where
  | unknownKind (kind : String)
  | violation (tlp : TLP) (channel : String)
  deriving DecidableEq

-- What a gate emits before it returns or raises.
structure GateOutcome where
  emitted : List TLPViolationEvent
  result : Except EgressError Unit

namespace GateOutcome

def permitted : GateOutcome := ⟨[], .ok ()⟩

def refused (event : TLPViolationEvent) : GateOutcome :=
  ⟨[event], .error (.violation event.tlp event.channel)⟩

def Raises (o : GateOutcome) : Prop := o.result ≠ .ok ()

def orElseRaise (o : GateOutcome) (next : GateOutcome) : GateOutcome :=
  match o.result with
  | .ok () => ⟨o.emitted ++ next.emitted, next.result⟩
  | .error e => ⟨o.emitted, .error e⟩

end GateOutcome

namespace TlpEgress
open EgressPayload

def VALID_EGRESS_KINDS : List String :=
  ["stix_export", "knowledge_ingest", "mcp_return", "event_emit", "report_export"]

def channel (kind : String) : String := "egress:" ++ kind

-- `_emit_block_event`
def blockEvent (kind : String) (orgId : Option String) (reason : String) : TLPViolationEvent where
  tlp := .red
  egressKind := kind
  channel := channel kind
  orgId := orgId
  matchedPolicyId := Option.none
  reason := reason

def assertTlpAllowsEgress (payload : EgressPayload) (kind : String) (ctx : EgressPayload)
    (orgId : Option String) : GateOutcome :=
  if kind ∉ VALID_EGRESS_KINDS then ⟨[], .error (.unknownKind kind)⟩
  else if resolveClassification ctx = .red then
    .refused (blockEvent kind orgId "investigation classification is TLP:RED")
  else if scanPayloadForRed payload then
    .refused (blockEvent kind orgId "payload contains TLP:RED-tagged data")
  else .permitted

-- A TLP field is supplied that is RED or cannot be parsed.
def Closing (ctx : EgressPayload) : Prop :=
  ∃ v ∈ supplied ctx, coerceTlp v = Option.none ∨ coerceTlp v = some .red

-- Such a field is there, and the first field that parses is below RED.
def Masked (ctx : EgressPayload) : Prop :=
  Closing ctx ∧ ∃ t, (supplied ctx).findSome? coerceTlp = some t ∧ t ≠ .red

def FailsClosed (payload : EgressPayload) (kind : String) (ctx : EgressPayload)
    (orgId : Option String) : Prop :=
  (assertTlpAllowsEgress payload kind ctx orgId).Raises ↔
    kind ∉ VALID_EGRESS_KINDS ∨ HasRed payload ∨ TooDeep payload ∨ Closing ctx

theorem raises_iff (payload : EgressPayload) (kind : String) (ctx : EgressPayload)
    (orgId : Option String) :
    (assertTlpAllowsEgress payload kind ctx orgId).Raises ↔
      kind ∉ VALID_EGRESS_KINDS ∨ resolveClassification ctx = .red ∨
        scanPayloadForRed payload = true := by
  unfold assertTlpAllowsEgress GateOutcome.Raises
  by_cases hkind : kind ∉ VALID_EGRESS_KINDS
  · simp [hkind]
  · by_cases hctx : resolveClassification ctx = .red
    · simp [hkind, hctx, GateOutcome.refused]
    · by_cases hscan : scanPayloadForRed payload = true
      · simp [hkind, hctx, hscan, GateOutcome.refused]
      · simp [hkind, hctx, hscan, GateOutcome.permitted]

theorem resolves_red_iff (ctx : EgressPayload) :
    resolveClassification ctx = .red ↔ Closing ctx ∧ ¬ Masked ctx := by
  rw [resolveClassification_eq]
  unfold Masked Closing
  cases hfirst : (supplied ctx).findSome? coerceTlp with
  | none =>
      have hnone := List.findSome?_eq_none_iff.mp hfirst
      cases hs : supplied ctx with
      | nil => simp
      | cons v vs =>
          have hv : coerceTlp v = Option.none := hnone v (by simp [hs])
          simp [hv]
  | some t =>
      obtain ⟨v, hv, ht⟩ := List.exists_of_findSome?_eq_some hfirst
      constructor
      · intro hred
        have hred : t = .red := hred
        exact ⟨⟨v, hv, Or.inr (hred ▸ ht)⟩, by simp [hred]⟩
      · rintro ⟨hclosing, hunmasked⟩
        by_contra hred
        exact hunmasked ⟨hclosing, t, rfl, hred⟩

theorem fails_closed_iff (payload : EgressPayload) (kind : String) (ctx : EgressPayload)
    (orgId : Option String) :
    FailsClosed payload kind ctx orgId ↔
      kind ∉ VALID_EGRESS_KINDS ∨ HasRed payload ∨ TooDeep payload ∨ ¬ Masked ctx := by
  have hmasked : Masked ctx → Closing ctx := fun h => h.1
  unfold FailsClosed
  rw [raises_iff, resolves_red_iff, scanPayloadForRed_iff]
  tauto

-- The second field is RED; the first one, which parses, decides.
theorem red_behind_green :
    ¬ FailsClosed (.seq []) "stix_export"
      (.dict [(some "tlp_level", .text "green"), (some "tlp", .text "red")]) Option.none := by
  intro hclosed
  have hclosing : Closing (.dict [(some "tlp_level", .text "green"), (some "tlp", .text "red")]) :=
    ⟨.text "red", by simp [supplied, tlpFields, TLP_FIELD_NAMES, OrderedDict.find], Or.inr (by decide)⟩
  exact hclosed.mpr (Or.inr (Or.inr (Or.inr hclosing))) (by decide)

theorem raised_is_red {payload : EgressPayload} {kind : String} {ctx : EgressPayload}
    {orgId : Option String} {e : EgressError} (hkind : kind ∈ VALID_EGRESS_KINDS)
    (h : (assertTlpAllowsEgress payload kind ctx orgId).result = .error e) :
    e = .violation .red (channel kind) := by
  unfold assertTlpAllowsEgress at h
  rw [if_neg (not_not.mpr hkind)] at h
  split at h
  · cases h
    rfl
  · split at h <;> cases h
    rfl

end TlpEgress

end BTagent
