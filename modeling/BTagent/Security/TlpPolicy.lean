import BTagent.Security.TlpEgress
import Mathlib.Data.List.Sort

namespace BTagent

-- A datetime in microseconds on its own clock; without an offset it is naive.
structure PolicyTime where
  wall : ℤ
  offset : Option ℤ

namespace PolicyTime

-- `_aware`: a naive datetime is read as UTC.
def instant (t : PolicyTime) : ℤ := t.wall - t.offset.getD 0

end PolicyTime

inductive TLPPolicyAction where
  | allow
  | deny
  | downgradeThenAllow
  deriving DecidableEq

structure TLPPolicy where
  id : String
  orgId : String
  action : TLPPolicyAction
  egressKinds : List String
  appliesToTlp : List TLP
  downgradeTo : Option TLP
  validUntil : Option PolicyTime
  createdAt : PolicyTime

namespace TLPPolicy

def expired (p : TLPPolicy) (now : PolicyTime) : Bool :=
  p.validUntil.any fun u => u.instant < now.instant

def «matches» (p : TLPPolicy) (tlp : TLP) (kind : String) (now : PolicyTime) : Bool :=
  if p.expired now then false
  else if p.egressKinds ≠ [] ∧ kind ∉ p.egressKinds then false
  else if p.appliesToTlp ≠ [] ∧ tlp ∉ p.appliesToTlp then false
  else true

structure Denies (p : TLPPolicy) (tlp : TLP) (kind : String) (now : PolicyTime) : Prop where
  deny : p.action = .deny
  unexpired : ∀ u ∈ p.validUntil, now.instant ≤ u.instant
  kinds : p.egressKinds = [] ∨ kind ∈ p.egressKinds
  levels : p.appliesToTlp = [] ∨ tlp ∈ p.appliesToTlp

theorem denies_iff {p : TLPPolicy} {tlp : TLP} {kind : String} {now : PolicyTime} :
    p.Denies tlp kind now ↔ p.matches tlp kind now = true ∧ p.action = .deny := by
  have hexpired : p.expired now = false ↔ ∀ u ∈ p.validUntil, now.instant ≤ u.instant := by
    unfold expired
    cases p.validUntil <;> simp
  constructor
  · rintro ⟨hdeny, hlive, hkinds, hlevels⟩
    refine ⟨?_, hdeny⟩
    unfold «matches»
    rw [if_neg (by simp [hexpired.mpr hlive]), if_neg (by tauto), if_neg (by tauto)]
  · rintro ⟨hmatch, hdeny⟩
    unfold «matches» at hmatch
    split at hmatch
    · cases hmatch
    · next hlive =>
        split at hmatch
        · cases hmatch
        · next hkinds =>
            split at hmatch
            · cases hmatch
            · next hlevels =>
                exact ⟨hdeny, hexpired.mp (by simpa using hlive), by tauto, by tauto⟩

end TLPPolicy

structure PolicyDecision where
  allowed : Bool
  effectiveTlp : TLP
  action : TLPPolicyAction
  matchedPolicyId : Option String := none
  reason : String

def downgradeDecision (p : TLPPolicy) (tlp : TLP) : PolicyDecision :=
  let target := p.downgradeTo.getD .green
  if target.order < tlp.order then
    { allowed := true
      effectiveTlp := target
      action := .downgradeThenAllow
      matchedPolicyId := some p.id
      reason := s!"downgraded {tlp.value}->{target.value} by policy" }
  else
    { allowed := true
      effectiveTlp := tlp
      action := .downgradeThenAllow
      matchedPolicyId := some p.id
      reason := "downgrade target not lower; allowed at original classification" }

def defaultDecision (tlp : TLP) : PolicyDecision :=
  if tlp = .red then
    { allowed := false
      effectiveTlp := tlp
      action := .deny
      reason := "default-deny: TLP:RED" }
  else
    { allowed := true
      effectiveTlp := tlp
      action := .allow
      reason := "default-allow: classification below RED" }

def evaluateEgressPolicy (tlp : TLP) (kind : String) (policies : List TLPPolicy)
    (now : PolicyTime) : PolicyDecision :=
  let matching := policies.filter fun p => p.matches tlp kind now
  match matching.find? fun p => p.action = .deny with
  | some p =>
      { allowed := false
        effectiveTlp := tlp
        action := .deny
        matchedPolicyId := some p.id
        reason := "explicit deny policy" }
  | none =>
      match matching.find? fun p => p.action = .downgradeThenAllow with
      | some p => downgradeDecision p tlp
      | none =>
          match matching.find? fun p => p.action = .allow with
          | some p =>
              { allowed := true
                effectiveTlp := tlp
                action := .allow
                matchedPolicyId := some p.id
                reason := "explicit allow policy" }
          | none => defaultDecision tlp

theorem downgradeDecision_allowed (p : TLPPolicy) (tlp : TLP) :
    (downgradeDecision p tlp).allowed = true := by
  simp only [downgradeDecision]
  split <;> rfl

theorem defaultDecision_allowed {tlp : TLP} (h : tlp ≠ .red) :
    (defaultDecision tlp).allowed = true := by
  rw [defaultDecision, if_neg h]

theorem find_deny {policies : List TLPPolicy} {tlp : TLP} {kind : String} {now : PolicyTime} :
    (policies.filter fun p => p.matches tlp kind now).find? (fun p => p.action = .deny) = none ↔
      ¬ ∃ p ∈ policies, p.Denies tlp kind now := by
  simp only [List.find?_eq_none, List.mem_filter, decide_eq_true_eq, TLPPolicy.denies_iff]
  constructor
  · rintro hnone ⟨p, hp, hmatch, hdeny⟩
    exact hnone p ⟨hp, hmatch⟩ hdeny
  · intro hno p hp hdeny
    exact hno ⟨p, hp.1, hp.2, hdeny⟩

theorem evaluate_allowed_iff {policies : List TLPPolicy} {tlp : TLP} {kind : String}
    {now : PolicyTime} (hred : tlp ≠ .red) :
    (evaluateEgressPolicy tlp kind policies now).allowed = true ↔
      ¬ ∃ p ∈ policies, p.Denies tlp kind now := by
  rw [← find_deny]
  simp only [evaluateEgressPolicy]
  split
  · next p hp => simp [hp]
  · next hnone =>
      rw [iff_true_right hnone]
      split
      · exact downgradeDecision_allowed _ _
      · split
        · rfl
        · exact defaultDecision_allowed hred

namespace TlpEgress

-- What a call site passes on as the classification of the data.
inductive Classification where
  | unset
  | level (t : TLP)
  | text (s : String)

def Classification.context : Classification → EgressPayload
  | .unset => .none
  | .level t => .tlp t
  | .text s => .text s

-- `tlp_egress_guard._coerce`
def coerce : Classification → TLP
  | .level t => t
  | .unset => .green
  | .text s => (TLP.ofText s).getD .red

theorem coerce_eq_resolve (c : Classification) :
    coerce c = EgressPayload.resolveClassification c.context := by
  cases c <;> rfl

-- `TLPPolicyService.list_policies`, newest first.
def listPolicies (stored : List TLPPolicy) (orgId : String) : List TLPPolicy :=
  (stored.filter fun p => p.orgId = orgId).mergeSort fun p q =>
    decide (q.createdAt.instant ≤ p.createdAt.instant)

def policyEvent (decision : PolicyDecision) (tlp : TLP) (kind orgId : String) :
    TLPViolationEvent where
  tlp := tlp
  egressKind := kind
  channel := channel kind
  orgId := some orgId
  matchedPolicyId := decision.matchedPolicyId
  reason := if decision.reason = "" then "denied by org TLP policy" else decision.reason

-- `lookup` is `none` where the policy store cannot be read: then nothing is refused here.
def assertOrgPolicyAllowsEgress (lookup : Option (List TLPPolicy)) (now : PolicyTime)
    (orgId : String) (c : Classification) (kind : String) : GateOutcome :=
  match lookup with
  | none => .permitted
  | some stored =>
      let decision := evaluateEgressPolicy (coerce c) kind (listPolicies stored orgId) now
      if decision.allowed then .permitted
      else .refused (policyEvent decision (coerce c) kind orgId)

def guardEgress (lookup : Option (List TLPPolicy)) (now : PolicyTime) (orgId : String)
    (payload : EgressPayload) (c : Classification) (kind : String) : GateOutcome :=
  (assertTlpAllowsEgress payload kind c.context (some orgId)).orElseRaise
    (assertOrgPolicyAllowsEgress lookup now orgId c kind)

variable {lookup : Option (List TLPPolicy)} {stored stored' : List TLPPolicy} {now : PolicyTime}
  {orgId kind : String} {payload : EgressPayload} {c : Classification} {p : TLPPolicy}

theorem mem_listPolicies : p ∈ listPolicies stored orgId ↔ p ∈ stored ∧ p.orgId = orgId := by
  simp [listPolicies]

def Denied (stored : List TLPPolicy) (now : PolicyTime) (orgId : String) (c : Classification)
    (kind : String) : Prop :=
  ∃ p ∈ stored, p.orgId = orgId ∧ p.Denies (coerce c) kind now

theorem baseline_below_red
    (h : ¬ (assertTlpAllowsEgress payload kind c.context (some orgId)).Raises) :
    coerce c ≠ .red := by
  rw [raises_iff] at h
  rw [coerce_eq_resolve]
  tauto

theorem orElseRaise_raises {o next : GateOutcome} :
    (o.orElseRaise next).Raises ↔ o.Raises ∨ next.Raises := by
  unfold GateOutcome.orElseRaise GateOutcome.Raises
  cases o.result <;> simp

theorem guard_raises_iff (hred : coerce c ≠ .red) :
    (assertOrgPolicyAllowsEgress (some stored) now orgId c kind).Raises ↔
      Denied stored now orgId c kind := by
  have hallowed : (evaluateEgressPolicy (coerce c) kind (listPolicies stored orgId) now).allowed =
      true ↔ ¬ ∃ p ∈ listPolicies stored orgId, p.Denies (coerce c) kind now :=
    evaluate_allowed_iff hred
  have hdenied : (∃ p ∈ listPolicies stored orgId, p.Denies (coerce c) kind now) ↔
      Denied stored now orgId c kind := by
    simp only [mem_listPolicies, Denied, and_assoc]
  rw [hdenied] at hallowed
  simp only [assertOrgPolicyAllowsEgress]
  split
  · next h => simp [GateOutcome.permitted, GateOutcome.Raises, hallowed.mp h]
  · next h =>
      have hden := not_not.mp fun hno => h (hallowed.mpr hno)
      simp [GateOutcome.refused, GateOutcome.Raises, hden]

theorem guardEgress_raises_iff :
    (guardEgress (some stored) now orgId payload c kind).Raises ↔
      (assertTlpAllowsEgress payload kind c.context (some orgId)).Raises ∨
        Denied stored now orgId c kind := by
  unfold guardEgress
  rw [orElseRaise_raises]
  by_cases hbase : (assertTlpAllowsEgress payload kind c.context (some orgId)).Raises
  · simp [hbase]
  · rw [guard_raises_iff (baseline_below_red hbase)]

theorem denied_perm (h : stored.Perm stored') :
    Denied stored' now orgId c kind ↔ Denied stored now orgId c kind := by
  simp only [Denied, h.mem_iff]

theorem denied_cons (hp : p.action ≠ .deny) :
    Denied (p :: stored) now orgId c kind ↔ Denied stored now orgId c kind := by
  simp only [Denied, List.exists_mem_cons_iff]
  constructor
  · rintro (⟨-, hdenies⟩ | hrest)
    · exact absurd hdenies.deny hp
    · exact hrest
  · exact Or.inr

theorem org_policy_only_subtracts (stored : List TLPPolicy) (now : PolicyTime) (orgId : String)
    (payload : EgressPayload) (c : Classification) (kind : String) :
    (¬ (guardEgress (some stored) now orgId payload c kind).Raises ↔
      ¬ (assertTlpAllowsEgress payload kind c.context (some orgId)).Raises ∧
        ¬ ∃ p ∈ stored, p.orgId = orgId ∧ p.Denies (coerce c) kind now) ∧
    (∀ stored', stored.Perm stored' →
      ((guardEgress (some stored') now orgId payload c kind).Raises ↔
        (guardEgress (some stored) now orgId payload c kind).Raises)) ∧
    (∀ p : TLPPolicy, p.action ≠ .deny →
      ((guardEgress (some (p :: stored)) now orgId payload c kind).Raises ↔
        (guardEgress (some stored) now orgId payload c kind).Raises)) := by
  simp only [guardEgress_raises_iff, not_or]
  refine ⟨Iff.rfl, fun stored' hperm => ?_, fun p hp => ?_⟩
  · rw [denied_perm hperm]
  · rw [denied_cons hp]

def amberDeny : TLPPolicy where
  id := "tpol_1"
  orgId := "org_1"
  action := .deny
  egressKinds := ["stix_export"]
  appliesToTlp := [.amber]
  downgradeTo := none
  validUntil := some ⟨100, some 0⟩
  createdAt := ⟨0, some 0⟩

theorem org_policy_only_subtracts_amber :
    (guardEgress (some [amberDeny]) ⟨50, none⟩ "org_1" (.seq []) (.level .amber)
      "stix_export").Raises := by
  have hguard := (org_policy_only_subtracts [amberDeny] ⟨50, none⟩ "org_1" (.seq [])
    (.level .amber) "stix_export").1
  by_contra hpermits
  apply (hguard.mp hpermits).2
  refine ⟨amberDeny, List.mem_cons_self, rfl, rfl, ?_, Or.inr ?_, Or.inr ?_⟩
  · rintro u ⟨⟩
    decide
  · decide
  · decide

theorem unreadable_store :
    (guardEgress none now orgId payload c kind).Raises ↔
      (assertTlpAllowsEgress payload kind c.context (some orgId)).Raises := by
  unfold guardEgress
  rw [orElseRaise_raises]
  simp [assertOrgPolicyAllowsEgress, GateOutcome.permitted, GateOutcome.Raises]

end TlpEgress

end BTagent
