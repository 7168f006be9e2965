import BTagent.Engine.QueryIR
import BTagent.Lib.Clauses
import Std.Data.String.ToNat

namespace BTagent

-- An event is what tests it passes; how an engine compares a field with a value is its own matter.
abbrev LogEvent := FieldTest → Bool

namespace QueryMeaning
open Clauses

variable (e : LogEvent)

def tests (c : QueryCondition) : List FieldTest :=
  c.value.values.map fun v => ⟨c.field, c.op.relation, v⟩

def CondHolds (c : QueryCondition) : Prop :=
  if c.op = .NE then ¬ Holds e (tests c) else Holds e (tests c)

def IRHolds (ir : QueryIR) : Prop :=
  match ir.logic with
  | .AND => ∀ c ∈ ir.conditions, CondHolds e c
  | .OR => ∃ c ∈ ir.conditions, CondHolds e c

def TermHolds : SplunkTerm → Prop
  | .test t => e t = true
  | .unequal field value => e ⟨field, .eq, value⟩ = false
  | .anyOf field values => Holds e (values.map fun v => ⟨field, .eq, v⟩)

-- Every event of the index is searched where no term is given; each piped regex filters further.
def SplunkSelects (s : SplunkSearch) : Prop :=
  (match s.logic with
    | .AND => ∀ t ∈ s.terms, TermHolds e t
    | .OR => s.terms ≠ [] → ∃ t ∈ s.terms, TermHolds e t) ∧
  ∀ r ∈ s.filters, TermHolds e r

def modifierRelation : String → Option Relation
  | "contains" => some .contains
  | "startswith" => some .startswith
  | "endswith" => some .endswith
  | "re" => some .regex
  | "gt" => some .gt
  | "lt" => some .lt
  | "gte" => some .gte
  | "lte" => some .lte
  | _ => none

def readKey (key : String) : Option (String × Relation) :=
  match key.toList.splitOn '|' with
  | [field] => some (String.ofList field, .eq)
  | [field, modifier] =>
      (modifierRelation (String.ofList modifier)).map fun r => (String.ofList field, r)
  | _ => none

def ItemHolds (kv : String × QueryValue) : Prop :=
  match readKey kv.1 with
  | some (field, relation) => Holds e (kv.2.values.map fun v => ⟨field, relation, v⟩)
  | none => False

def ItemsHold (items : SigmaItems) : Prop :=
  ∀ kv ∈ ((OrderedDict.empty : OrderedDict String QueryValue).update items).entries, ItemHolds e kv

def SigmaSelects (rule : SigmaRule) : Prop :=
  let detection := (OrderedDict.empty : OrderedDict String SigmaItems).update rule.detection
  match rule.condition with
  | .identifier name => ∃ items, detection.get? name = some items ∧ ItemsHold e items
  | .oneOf stem => ∃ kv ∈ detection.entries, stem.toList <+: kv.1.toList ∧ ItemsHold e kv.2

def MeaningKept (ir : QueryIR) : Prop :=
  ∀ e : LogEvent, (SigmaSelects e (sigmaRule ir) ↔ IRHolds e ir) ∧
    (SplunkSelects e (splunkSearch ir) ↔ IRHolds e ir)

def Survives (conds : List QueryCondition) (c : QueryCondition) : Prop :=
  ∃ pre post, conds = pre ++ c :: post ∧ ∀ d ∈ post, sigmaKey d ≠ sigmaKey c

def Expressible (ir : QueryIR) : Prop :=
  match ir.logic with
  | .AND => (∃ c, Survives ir.conditions c ∧ c.value = .many []) ∨
      (∀ c ∈ ir.conditions, c.op ≠ .NE ∧ ∃ d, Survives ir.conditions d ∧ tests d ⊆ tests c)
  | .OR => ir.conditions ≠ [] ∧ (∀ c ∈ ir.conditions, c.op ≠ .NE) ∧
      ((∀ c ∈ ir.conditions, c.op ≠ .REGEX) ∨
        ∀ c ∈ ir.conditions, ∀ d ∈ ir.conditions, c.op = .REGEX ∧ c.field = d.field ∧
          c.value = d.value)

variable {e} {ir : QueryIR} {c d : QueryCondition} {conds : List QueryCondition}

section Conditions

theorem tests_eq_nil : tests c = [] ↔ c.value = .many [] := by
  rw [tests, List.map_eq_nil_iff]
  cases c.value with
  | one s => simp [QueryValue.values]
  | many xs => simp [QueryValue.values]

theorem condHolds_of_ne (h : c.op ≠ .NE) : CondHolds e c ↔ Holds e (tests c) := by
  rw [CondHolds, if_neg h]

theorem tests_ne (h : c.op = .NE) : ∃ v, c.value = .one v ∧ tests c = [⟨c.field, .eq, v⟩] := by
  cases hv : c.value with
  | one v => exact ⟨v, rfl, by simp [tests, hv, h, QueryValue.values, Operator.relation]⟩
  | many xs => cases (c.listed xs hv).symm.trans h

theorem tests_regex (h : c.op = .REGEX) :
    ∃ v, c.value = .one v ∧ tests c = [⟨c.field, .regex, v⟩] := by
  cases hv : c.value with
  | one v => exact ⟨v, rfl, by simp [tests, hv, h, QueryValue.values, Operator.relation]⟩
  | many xs => cases (c.listed xs hv).symm.trans h

theorem relation_of_mem {t : FieldTest} (h : t ∈ tests c) : t.relation = c.op.relation := by
  obtain ⟨_, _, rfl⟩ := List.mem_map.mp h
  rfl

theorem relation_regex {op : Operator} : op.relation = .regex ↔ op = .REGEX := by
  cases op <;> simp [Operator.relation]

theorem condHolds_eq_of_in (h : c.op = .IN) :
    Holds e (c.value.values.map fun v => ⟨c.field, .eq, v⟩) ↔ CondHolds e c := by
  rw [condHolds_of_ne (by simp [h]), tests, h]
  rfl

end Conditions

section Splunk

theorem termHolds_splunkCond : TermHolds e (splunkCond c) ↔ CondHolds e c := by
  by_cases hin : c.op = .IN
  · have hcond : splunkCond c = .anyOf c.field c.value.values := by
      simp only [splunkCond, hin]
    rw [hcond]
    exact condHolds_eq_of_in hin
  · obtain ⟨v, hv⟩ : ∃ v, c.value = .one v := by
      cases hv : c.value with
      | one v => exact ⟨v, rfl⟩
      | many xs => exact absurd (c.listed xs hv) hin
    by_cases hne : c.op = .NE
    · have hcond : splunkCond c = .unequal c.field v := by
        simp only [splunkCond, hne, hv]
      rw [hcond, CondHolds, if_pos hne, tests, hne, hv]
      simp [TermHolds, QueryValue.values, Operator.relation]
    · have hcond : splunkCond c = .test ⟨c.field, c.op.relation, v⟩ := by
        cases hop : c.op <;> simp_all [splunkCond]
      rw [hcond, condHolds_of_ne hne, tests, hv]
      simp [TermHolds, QueryValue.values]

theorem splunkSelects_and (h : ir.logic = .AND) :
    SplunkSelects e (splunkSearch ir) ↔ ∀ c ∈ ir.conditions, CondHolds e c := by
  simp only [SplunkSelects, splunkSearch, h, List.forall_mem_map, List.mem_filter,
    termHolds_splunkCond, decide_eq_true_eq]
  constructor
  · rintro ⟨hterms, hfilters⟩ c hc
    by_cases hop : c.op = .REGEX
    · exact hfilters c ⟨hc, hop⟩
    · exact hterms c ⟨hc, hop⟩
  · intro hall
    exact ⟨fun c hc => hall c hc.1, fun c hc => hall c hc.1⟩

theorem splunkSelects_or (h : ir.logic = .OR) :
    SplunkSelects e (splunkSearch ir) ↔
      ((∃ c ∈ ir.conditions, c.op ≠ .REGEX) →
        ∃ c ∈ ir.conditions, c.op ≠ .REGEX ∧ CondHolds e c) ∧
      ∀ c ∈ ir.conditions, c.op = .REGEX → CondHolds e c := by
  have hsome : (splunkSearch ir).terms ≠ [] ↔ ∃ c ∈ ir.conditions, c.op ≠ .REGEX := by
    simp [splunkSearch]
  have hterms : (∃ t ∈ (splunkSearch ir).terms, TermHolds e t) ↔
      ∃ c ∈ ir.conditions, c.op ≠ .REGEX ∧ CondHolds e c := by
    simp [splunkSearch, termHolds_splunkCond, and_assoc]
  have hfilters : (∀ r ∈ (splunkSearch ir).filters, TermHolds e r) ↔
      ∀ c ∈ ir.conditions, c.op = .REGEX → CondHolds e c := by
    simp only [splunkSearch, List.forall_mem_map, List.mem_filter, decide_eq_true_eq,
      termHolds_splunkCond, and_imp]
  have hlogic : (splunkSearch ir).logic = .OR := h
  simp only [SplunkSelects, hlogic, hsome, hterms, hfilters]

end Splunk

section Sigma

theorem modifier_cases (op : Operator) : (sigmaModifier op = "" ∧ op.relation = .eq) ∨
    ∃ m, (sigmaModifier op).toList = '|' :: m ∧ '|' ∉ m ∧
      modifierRelation (String.ofList m) = some op.relation := by
  cases op
  case EQ | NE | IN => exact Or.inl ⟨rfl, rfl⟩
  case CONTAINS => exact Or.inr ⟨"contains".toList, by decide⟩
  case STARTSWITH => exact Or.inr ⟨"startswith".toList, by decide⟩
  case ENDSWITH => exact Or.inr ⟨"endswith".toList, by decide⟩
  case REGEX => exact Or.inr ⟨"re".toList, by decide⟩
  case GT => exact Or.inr ⟨"gt".toList, by decide⟩
  case LT => exact Or.inr ⟨"lt".toList, by decide⟩
  case GTE => exact Or.inr ⟨"gte".toList, by decide⟩
  case LTE => exact Or.inr ⟨"lte".toList, by decide⟩

theorem readKey_sigmaKey : readKey (sigmaKey c) = some (c.field, c.op.relation) := by
  rcases modifier_cases c.op with ⟨hmod, hrel⟩ | ⟨m, hmod, hm, hrel⟩
  · have hjoin : (sigmaKey c).toList = ['|'].intercalate [c.field.toList] := by
      simp [sigmaKey, hmod, List.intercalate]
    have hsplit : (sigmaKey c).toList.splitOn '|' = [c.field.toList] := by
      rw [hjoin]
      apply List.splitOn_intercalate
      · simp [c.canonical]
      · exact List.cons_ne_nil _ _
    simp [readKey, hsplit, hrel]
  · have hjoin : (sigmaKey c).toList = ['|'].intercalate [c.field.toList, m] := by
      simp [sigmaKey, hmod, List.intercalate]
    have hsplit : (sigmaKey c).toList.splitOn '|' = [c.field.toList, m] := by
      rw [hjoin]
      apply List.splitOn_intercalate
      · simp [c.canonical, hm]
      · exact List.cons_ne_nil _ _
    simp [readKey, hsplit, hrel]

theorem itemHolds_iff : ItemHolds e (sigmaKey c, c.value) ↔ Holds e (tests c) := by
  simp only [ItemHolds, readKey_sigmaKey, tests]

theorem itemsHold_conditions :
    ItemsHold e (conds.map fun c => (sigmaKey c, c.value)) ↔
      ∀ c, Survives conds c → Holds e (tests c) := by
  constructor
  · rintro h c ⟨pre, post, rfl, hpost⟩
    rw [← itemHolds_iff]
    refine h _ (OrderedDict.mem_update_empty.mpr
      ⟨pre.map fun c => (sigmaKey c, c.value), post.map fun c => (sigmaKey c, c.value), ?_, ?_⟩)
    · simp
    · simpa using hpost
  · intro h kv hkv
    obtain ⟨pre, post, heq, hpost⟩ := OrderedDict.mem_update_empty.mp hkv
    obtain ⟨pre', rest, rfl, rfl, hrest⟩ := List.map_eq_append_iff.mp heq
    obtain ⟨c, post', rfl, hkv', rfl⟩ := List.map_eq_cons_iff.mp hrest
    have hc : kv = (sigmaKey c, c.value) := hkv'.symm
    rw [hc, itemHolds_iff]
    refine h c ⟨pre', post', rfl, fun d hd => ?_⟩
    have hne := hpost (sigmaKey d, d.value) (List.mem_map_of_mem hd)
    rwa [hc] at hne

theorem sigmaSelects_and (h : ir.logic = .AND) :
    SigmaSelects e (sigmaRule ir) ↔ ∀ c, Survives ir.conditions c → Holds e (tests c) := by
  have hget : ((OrderedDict.empty : OrderedDict String SigmaItems).update
      (sigmaRule ir).detection).get? "selection" =
        some (ir.conditions.map fun c => (sigmaKey c, c.value)) := by
    simp only [sigmaRule, h]
    exact OrderedDict.get?_set_self _ _ _
  have hcond : (sigmaRule ir).condition = .identifier "selection" := by
    simp only [sigmaRule, h]
  simp only [SigmaSelects, hcond, hget, Option.some.injEq, exists_eq_left', itemsHold_conditions]

theorem selectionName_inj {i j : ℕ} (h : selectionName i = selectionName j) : i = j := by
  have hlist := congrArg String.toList h
  simp only [selectionName, String.toList_append] at hlist
  exact Nat.repr_injective (String.toList_inj.mp (List.append_cancel_left hlist))

theorem nodup_selections : ((conds.mapIdx fun i c =>
    (selectionName i, [(sigmaKey c, c.value)])).map Prod.fst).Nodup := by
  rw [List.Nodup, List.pairwise_iff_getElem]
  intro i j hi hj hij heq
  simp only [List.getElem_map, List.getElem_mapIdx] at heq
  exact absurd (selectionName_inj heq) (by omega)

theorem sigmaSelects_or (h : ir.logic = .OR) :
    SigmaSelects e (sigmaRule ir) ↔ ∃ c ∈ ir.conditions, Holds e (tests c) := by
  have hcond : (sigmaRule ir).condition = .oneOf "sel_" := by
    simp only [sigmaRule, h]
  have hdetection : (sigmaRule ir).detection = ir.conditions.mapIdx fun i c =>
      (selectionName i, [(sigmaKey c, c.value)]) := by
    simp only [sigmaRule, h]
  have hitems : ∀ c : QueryCondition, ItemsHold e [(sigmaKey c, c.value)] ↔ Holds e (tests c) := by
    intro c
    have hsingle : ItemsHold e ([c].map fun c => (sigmaKey c, c.value)) ↔
        ∀ d, Survives [c] d → Holds e (tests d) := itemsHold_conditions
    rw [List.map_singleton] at hsingle
    rw [hsingle]
    constructor
    · exact fun hall => hall c ⟨[], [], rfl, by simp⟩
    · rintro hc d ⟨pre, post, heq, _⟩
      have hmem : d ∈ [c] := heq ▸ List.mem_append_right pre List.mem_cons_self
      rwa [List.mem_singleton.mp hmem]
  simp only [SigmaSelects, hcond, hdetection]
  constructor
  · rintro ⟨⟨name, items⟩, hmem, _, hhold⟩
    obtain ⟨i, hi, heq⟩ := List.mem_mapIdx.mp ((OrderedDict.mem_update_nodup nodup_selections).mp hmem)
    obtain ⟨_, rfl⟩ := Prod.mk.inj heq
    exact ⟨_, List.getElem_mem hi, (hitems _).mp hhold⟩
  · rintro ⟨c, hc, hhold⟩
    obtain ⟨i, hi, rfl⟩ := List.mem_iff_getElem.mp hc
    refine ⟨(selectionName i, [(sigmaKey ir.conditions[i], ir.conditions[i].value)]), ?_, ?_, ?_⟩
    · exact (OrderedDict.mem_update_nodup nodup_selections).mpr (List.mem_mapIdx.mpr ⟨i, hi, rfl⟩)
    · simp [selectionName]
    · exact (hitems _).mpr hhold

end Sigma

section Conjunction

theorem Survives.mem (h : Survives conds c) : c ∈ conds := by
  obtain ⟨pre, post, rfl, _⟩ := h
  exact List.mem_append_right pre List.mem_cons_self

theorem not_condHolds_true (h : c.op = .NE) : ¬ CondHolds (fun _ => true) c := by
  obtain ⟨v, _, htests⟩ := tests_ne h
  rw [CondHolds, if_pos h, htests]
  exact not_not.mpr (holds_true (List.cons_ne_nil _ _))

theorem meaningKept_and (h : ir.logic = .AND) :
    MeaningKept ir ↔ ∀ e : LogEvent, (∀ c, Survives ir.conditions c → Holds e (tests c)) ↔
      ∀ c ∈ ir.conditions, CondHolds e c := by
  simp only [MeaningKept, sigmaSelects_and h, splunkSelects_and h, IRHolds, h, iff_self,
    and_true]

theorem expressible_of_kept_and (h : ∀ e : LogEvent,
      (∀ c, Survives conds c → Holds e (tests c)) ↔ ∀ c ∈ conds, CondHolds e c) :
    (∃ c, Survives conds c ∧ c.value = .many []) ∨
      ∀ c ∈ conds, c.op ≠ .NE ∧ ∃ d, Survives conds d ∧ tests d ⊆ tests c := by
  by_cases hdead : ∃ c, Survives conds c ∧ c.value = .many []
  · exact Or.inl hdead
  · right
    intro c hc
    -- where no surviving list is empty, the event that passes every test is selected
    have hall : ∀ d, Survives conds d → Holds (fun _ => true) (tests d) := by
      intro d hd
      exact holds_true fun hnil => hdead ⟨d, hd, tests_eq_nil.mp hnil⟩
    have hne : ∀ d ∈ conds, d.op ≠ .NE := fun d hd hop =>
      not_condHolds_true hop ((h _).mp hall d hd)
    refine ⟨hne c hc, ?_⟩
    have hentails : ∀ e : LogEvent, All e {t | ∃ d, Survives conds d ∧ tests d = t} →
        Holds e (tests c) := by
      intro e he
      rw [← condHolds_of_ne (hne c hc)]
      exact (h e).mp (fun d hd => he _ ⟨d, hd, rfl⟩) c hc
    obtain ⟨_, ⟨d, hd, rfl⟩, hsub⟩ := entails_iff.mp hentails
    exact ⟨d, hd, hsub⟩

theorem kept_of_expressible_and (h : (∃ c, Survives conds c ∧ c.value = .many []) ∨
      ∀ c ∈ conds, c.op ≠ .NE ∧ ∃ d, Survives conds d ∧ tests d ⊆ tests c) (e : LogEvent) :
    (∀ c, Survives conds c → Holds e (tests c)) ↔ ∀ c ∈ conds, CondHolds e c := by
  rcases h with ⟨c, hc, hempty⟩ | h
  · have hnil : tests c = [] := tests_eq_nil.mpr hempty
    have hfail : ¬ Holds e (tests c) := by
      rw [hnil]
      exact not_holds_nil
    have hop : c.op ≠ .NE := by simp [c.listed [] hempty]
    constructor
    · exact fun hall => absurd (hall c hc) hfail
    · exact fun hall => absurd ((condHolds_of_ne hop).mp (hall c hc.mem)) hfail
  · constructor
    · intro hall c hc
      obtain ⟨hop, d, hd, hsub⟩ := h c hc
      exact (condHolds_of_ne hop).mpr ((hall d hd).mono hsub)
    · intro hall c hc
      exact (condHolds_of_ne (h c hc.mem).1).mp (hall c hc.mem)

end Conjunction

section Disjunction

theorem condHolds_false (h : c.op = .NE) : CondHolds (fun _ => false) c := by
  rw [CondHolds, if_pos h]
  exact not_holds_false

def SameRegex (conds : List QueryCondition) : Prop :=
  ∀ c ∈ conds, ∀ d ∈ conds, c.op = .REGEX ∧ c.field = d.field ∧ c.value = d.value

structure KeptOr (conds : List QueryCondition) (e : LogEvent) : Prop where
  sigma : (∃ c ∈ conds, Holds e (tests c)) ↔ ∃ c ∈ conds, CondHolds e c
  splunk : (((∃ c ∈ conds, c.op ≠ .REGEX) → ∃ c ∈ conds, c.op ≠ .REGEX ∧ CondHolds e c) ∧
    ∀ c ∈ conds, c.op = .REGEX → CondHolds e c) ↔ ∃ c ∈ conds, CondHolds e c

theorem meaningKept_or (h : ir.logic = .OR) :
    MeaningKept ir ↔ ∀ e : LogEvent, KeptOr ir.conditions e := by
  simp only [MeaningKept, sigmaSelects_or h, splunkSelects_or h, IRHolds, h]
  exact ⟨fun hall e => ⟨(hall e).1, (hall e).2⟩, fun hall e => ⟨(hall e).1, (hall e).2⟩⟩

theorem onlyRegex (h : ∀ e : LogEvent, KeptOr conds e) (hc : c ∈ conds) (hop : c.op = .REGEX)
    (hne : ∀ d ∈ conds, d.op ≠ .NE) : SameRegex conds := by
  obtain ⟨v, hv, htests⟩ := tests_regex hop
  let e : LogEvent := fun t => t = ⟨c.field, .regex, v⟩
  have hself : CondHolds e c := by
    rw [condHolds_of_ne (hne c hc), htests]
    simp [e]
  have hsplunk := (h e).splunk.mpr ⟨c, hc, hself⟩
  have hregex : ∀ d ∈ conds, d.op = .REGEX := by
    intro d hd
    by_contra hdop
    obtain ⟨d, hd, hdop, hhold⟩ := hsplunk.1 ⟨d, hd, hdop⟩
    obtain ⟨t, ht, hpass⟩ := (condHolds_of_ne (hne d hd)).mp hhold
    have hrel : d.op.relation = .regex := by
      rw [← relation_of_mem ht, show t = ⟨c.field, .regex, v⟩ from of_decide_eq_true hpass]
    exact hdop (relation_regex.mp hrel)
  have hlike : ∀ d ∈ conds, d.field = c.field ∧ d.value = c.value := by
    intro d hd
    obtain ⟨w, hw, hdtests⟩ := tests_regex (hregex d hd)
    have hhold := (condHolds_of_ne (hne d hd)).mp (hsplunk.2 d hd (hregex d hd))
    rw [hdtests, holds_singleton] at hhold
    have heq : (⟨d.field, .regex, w⟩ : FieldTest) = ⟨c.field, .regex, v⟩ := of_decide_eq_true hhold
    injection heq with hfield _ hvalue
    exact ⟨hfield, by rw [hw, hv, hvalue]⟩
  intro d hd f hf
  refine ⟨hregex d hd, ?_, ?_⟩
  · rw [(hlike d hd).1, (hlike f hf).1]
  · rw [(hlike d hd).2, (hlike f hf).2]

theorem expressible_of_kept_or (h : ∀ e : LogEvent, KeptOr conds e) :
    conds ≠ [] ∧ (∀ c ∈ conds, c.op ≠ .NE) ∧
      ((∀ c ∈ conds, c.op ≠ .REGEX) ∨ SameRegex conds) := by
  have hne : ∀ c ∈ conds, c.op ≠ .NE := by
    intro c hc hop
    obtain ⟨d, _, hd⟩ := (h fun _ => false).sigma.mpr ⟨c, hc, condHolds_false hop⟩
    exact not_holds_false hd
  refine ⟨?_, hne, ?_⟩
  · rintro rfl
    obtain ⟨c, hc, _⟩ := (h fun _ => false).splunk.mp ⟨by simp, by simp⟩
    cases hc
  · by_cases hregex : ∃ c ∈ conds, c.op = .REGEX
    · obtain ⟨c, hc, hop⟩ := hregex
      exact Or.inr (onlyRegex h hc hop hne)
    · exact Or.inl fun c hc hop => hregex ⟨c, hc, hop⟩

theorem kept_of_expressible_or (hnil : conds ≠ []) (hne : ∀ c ∈ conds, c.op ≠ .NE)
    (hregex : (∀ c ∈ conds, c.op ≠ .REGEX) ∨ SameRegex conds) (e : LogEvent) : KeptOr conds e where
  sigma := by
    constructor
    · rintro ⟨c, hc, hhold⟩
      exact ⟨c, hc, (condHolds_of_ne (hne c hc)).mpr hhold⟩
    · rintro ⟨c, hc, hhold⟩
      exact ⟨c, hc, (condHolds_of_ne (hne c hc)).mp hhold⟩
  splunk := by
    obtain ⟨first, hfirst⟩ := List.exists_mem_of_ne_nil conds hnil
    rcases hregex with hplain | hsame
    · constructor
      · rintro ⟨hterms, _⟩
        obtain ⟨c, hc, _, hhold⟩ := hterms ⟨first, hfirst, hplain first hfirst⟩
        exact ⟨c, hc, hhold⟩
      · rintro ⟨c, hc, hhold⟩
        exact ⟨fun _ => ⟨c, hc, hplain c hc, hhold⟩, fun d hd hop => absurd hop (hplain d hd)⟩
    · constructor
      · rintro ⟨_, hfilters⟩
        exact ⟨first, hfirst, hfilters first hfirst (hsame first hfirst first hfirst).1⟩
      · rintro ⟨c, hc, hhold⟩
        constructor
        · rintro ⟨d, hd, hop⟩
          exact absurd (hsame d hd d hd).1 hop
        · intro d hd hop
          have htests : tests d = tests c := by
            obtain ⟨_, hfield, hvalue⟩ := hsame d hd c hc
            rw [tests, tests, hfield, hvalue, hop, (hsame c hc c hc).1]
          rw [condHolds_of_ne (hne d hd), htests]
          exact (condHolds_of_ne (hne c hc)).mp hhold

end Disjunction

theorem meaning_kept_iff (ir : QueryIR) : MeaningKept ir ↔ Expressible ir := by
  cases hlogic : ir.logic with
  | AND =>
      rw [meaningKept_and hlogic]
      simp only [Expressible, hlogic]
      exact ⟨expressible_of_kept_and, kept_of_expressible_and⟩
  | OR =>
      rw [meaningKept_or hlogic]
      simp only [Expressible, hlogic]
      constructor
      · exact expressible_of_kept_or
      · rintro ⟨hnil, hne, hregex⟩
        exact kept_of_expressible_or hnil hne hregex

section Users

def userIs (op : Operator) (name : String) : QueryCondition where
  field := "user"
  op := op
  value := .one (.str name)
  canonical := by decide
  listed xs hxs := by cases hxs

def userQuery (logic : LogicOp) (conditions : List QueryCondition) : QueryIR where
  title := "Users"
  dataSource := "auth"
  conditions := conditions
  logic := logic
  timeWindowHours := none
  limit := none

-- A logon by `alice`; a value is matched by itself only.
def aliceLogon : LogEvent := fun t => t.field = "user" && t.value = .str "alice"

theorem alice_holds {op : Operator} {name : String} (h : op ≠ .NE) :
    CondHolds aliceLogon (userIs op name) ↔ name = "alice" := by
  rw [condHolds_of_ne h]
  simp [tests, userIs, QueryValue.values, aliceLogon]

theorem last_survives {c d last : QueryCondition} (h : Survives [c, d] last)
    (hkey : sigmaKey d = sigmaKey c) : last = d := by
  obtain ⟨pre, post, heq, hpost⟩ := h
  match pre, heq with
  | [], heq =>
      obtain ⟨rfl, rfl⟩ := List.cons.inj heq
      exact absurd hkey (hpost d List.mem_cons_self)
  | [_], heq =>
      obtain ⟨_, heq⟩ := List.cons.inj heq
      exact (List.cons.inj heq).1.symm
  | _ :: _ :: pre, heq =>
      have hlen := congrArg List.length heq
      simp only [List.length_cons, List.length_append, List.length_nil] at hlen
      omega

-- A refused user is selected, a second value for a field replaces the first, and a regex joined by
-- OR narrows the search.
theorem rendering_changes_meaning :
    (SigmaSelects aliceLogon (sigmaRule (userQuery .AND [userIs .NE "alice"])) ∧
      ¬ IRHolds aliceLogon (userQuery .AND [userIs .NE "alice"])) ∧
    (SigmaSelects aliceLogon (sigmaRule (userQuery .AND [userIs .EQ "bob", userIs .EQ "alice"])) ∧
      ¬ IRHolds aliceLogon (userQuery .AND [userIs .EQ "bob", userIs .EQ "alice"])) ∧
    (¬ SplunkSelects aliceLogon
        (splunkSearch (userQuery .OR [userIs .EQ "alice", userIs .REGEX "bob"])) ∧
      IRHolds aliceLogon (userQuery .OR [userIs .EQ "alice", userIs .REGEX "bob"])) := by
  have hne : Holds aliceLogon (tests (userIs .NE "alice")) := ⟨_, List.mem_singleton_self _, by decide⟩
  refine ⟨⟨?_, ?_⟩, ⟨?_, ?_⟩, ?_, ?_⟩
  · rw [sigmaSelects_and rfl]
    intro c hc
    rw [List.mem_singleton.mp hc.mem]
    exact hne
  · intro h
    have hcond := h (userIs .NE "alice") (List.mem_singleton_self _)
    have hop : (userIs .NE "alice").op = .NE := rfl
    rw [CondHolds, if_pos hop] at hcond
    exact hcond hne
  · rw [sigmaSelects_and rfl]
    intro c hc
    rw [last_survives hc rfl]
    exact (condHolds_of_ne (by decide)).mp ((alice_holds (by decide)).mpr rfl)
  · intro h
    have hbob := (alice_holds (by decide)).mp (h (userIs .EQ "bob") List.mem_cons_self)
    revert hbob
    decide
  · rw [splunkSelects_or rfl]
    rintro ⟨_, hfilters⟩
    have hbob := (alice_holds (by decide)).mp (hfilters (userIs .REGEX "bob") (by simp [userQuery]) rfl)
    revert hbob
    decide
  · exact ⟨userIs .EQ "alice", List.mem_cons_self, (alice_holds (by decide)).mpr rfl⟩

end Users

end QueryMeaning

end BTagent
