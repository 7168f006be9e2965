import BTagent.Engine.Executor

namespace BTagent

namespace Executor

def gateFields : List String := ["payload", "prompt", "required_role"]

-- What a gate is given in a field: its configuration's value, else what flows in under that name.
def gateField (node : WorkflowNode) (carried : Payload) (field : String) : Option Json :=
  (node.config.get? field).or (carried.rawBase.get? field)

def isMapping : Option Json → Bool
  | none | some (.obj _) => true
  | some _ => false

def isText : Option Json → Bool
  | none | some (.str _) => true
  | some _ => false

def renderContext (carried : Payload) (st : WorkflowState) : Dict :=
  promote (promote (conditionContext st.outputs) st.triggerPayload) carried.rawBase

structure GateReady (E : Engine) (node : WorkflowNode) (carried : Payload) (st : WorkflowState) :
    Prop where
  room : st.nodesExecuted.length < Compiler.maxSteps
  fresh : st.reused node.stepId = none
  keys : onlyKeys gateFields node.config = true
  renders : (renderFields E (renderContext carried st) node.config.entries).isOk = true
  payload : isMapping (gateField node carried "payload") = true
  prompt : isText (gateField node carried "prompt") = true
  role : isText (gateField node carried "required_role") = true

instance (E : Engine) (node : WorkflowNode) (carried : Payload) (st : WorkflowState) :
    Decidable (GateReady E node carried st) :=
  decidable_of_iff
    (st.nodesExecuted.length < Compiler.maxSteps ∧ (st.reused node.stepId).isNone = true ∧
      onlyKeys gateFields node.config = true ∧
      (renderFields E (renderContext carried st) node.config.entries).isOk = true ∧
      isMapping (gateField node carried "payload") = true ∧
      isText (gateField node carried "prompt") = true ∧
      isText (gateField node carried "required_role") = true) (by
    constructor
    · rintro ⟨h₁, h₂, h₃, h₄, h₅, h₆, h₇⟩
      exact ⟨h₁, Option.isNone_iff_eq_none.mp h₂, h₃, h₄, h₅, h₆, h₇⟩
    · rintro ⟨h₁, h₂, h₃, h₄, h₅, h₆, h₇⟩
      exact ⟨h₁, Option.isNone_iff_eq_none.mpr h₂, h₃, h₄, h₅, h₆, h₇⟩)

section Validate
variable {d : Dict}

theorem dictOr_isSome (default : Dict) {v : Option Json} :
    (dictOr default v).isSome = isMapping v := by
  rcases v with _ | v
  · rfl
  · cases v <;> rfl

theorem stringOr_isSome (default : String) {v : Option Json} :
    (stringOr default v).isSome = isText v := by
  rcases v with _ | v
  · rfl
  · cases v <;> rfl

theorem validateHitlGate_ok : (∃ valid, validateHitlGate d = .ok valid) ↔
    onlyKeys gateFields d = true ∧ isMapping (d.get? "payload") = true ∧
      isText (d.get? "prompt") = true ∧ isText (d.get? "required_role") = true := by
  rw [← dictOr_isSome .empty, ← stringOr_isSome "", ← stringOr_isSome "senior_analyst"]
  simp only [validateHitlGate, gateFields]
  split
  · next hkeys =>
      cases dictOr .empty (d.get? "payload") <;> cases stringOr "" (d.get? "prompt") <;>
        cases stringOr "senior_analyst" (d.get? "required_role") <;> simp [hkeys]
  · next hkeys => simp [hkeys]

end Validate

section Render
variable {E : Engine} {ctx : Dict} {kvs rendered : List (String × Json)} {v w : Json}

theorem renderPayload_kind (h : renderPayload E ctx v = .ok w) :
    isMapping (some w) = isMapping (some v) ∧ isText (some w) = isText (some v) := by
  cases v with
  | str s =>
      simp only [renderPayload] at h
      cases hs : E.renderTemplate s ctx <;> rw [hs] at h <;> cases h
      exact ⟨rfl, rfl⟩
  | arr xs =>
      simp only [renderPayload] at h
      cases hs : renderItems E ctx xs <;> rw [hs] at h <;> cases h
      exact ⟨rfl, rfl⟩
  | obj kvs =>
      simp only [renderPayload] at h
      cases hs : renderFields E ctx kvs <;> rw [hs] at h <;> cases h
      exact ⟨rfl, rfl⟩
  | _ =>
      simp only [renderPayload] at h
      cases h
      exact ⟨rfl, rfl⟩

theorem renderFields_keys (h : renderFields E ctx kvs = .ok rendered) :
    rendered.map Prod.fst = kvs.map Prod.fst := by
  induction kvs generalizing rendered with
  | nil =>
      simp only [renderFields] at h
      cases h
      rfl
  | cons kv kvs ih =>
      obtain ⟨k, v⟩ := kv
      simp only [renderFields, Except.bind_ok_iff] at h
      obtain ⟨w, -, rest, hrest, heq⟩ := h
      cases heq
      simp [ih hrest]

theorem renderFields_find (h : renderFields E ctx kvs = .ok rendered) (k : String) :
    (OrderedDict.find k rendered = none ∧ OrderedDict.find k kvs = none) ∨
      ∃ v w, OrderedDict.find k rendered = some w ∧ OrderedDict.find k kvs = some v ∧
        renderPayload E ctx v = .ok w := by
  induction kvs generalizing rendered with
  | nil =>
      simp only [renderFields] at h
      cases h
      exact Or.inl ⟨rfl, rfl⟩
  | cons kv kvs ih =>
      obtain ⟨j, v⟩ := kv
      simp only [renderFields, Except.bind_ok_iff] at h
      obtain ⟨w, hw, rest, hrest, heq⟩ := h
      cases heq
      by_cases hk : j = k
      · exact Or.inr ⟨v, w, by simp [OrderedDict.find, hk], by simp [OrderedDict.find, hk], hw⟩
      · simpa [OrderedDict.find, hk] using ih hrest

end Render

section Enters
variable {E : Engine} {wf : Workflow} {node : WorkflowNode} {carried : Payload}
  {st : WorkflowState} {c : StepId}

theorem onlyKeys_iff {allowed : List String} {d : Dict} :
    onlyKeys allowed d = true ↔ ∀ k, (d.get? k).isSome → k ∈ allowed := by
  simp [onlyKeys, OrderedDict.get?_isSome]

theorem gate_resolves (hnode : node.nodeId = Gates.hitlGateNodeId) :
    resolveNode E node = .ok hitlGateNode := by
  have hdecision : Gates.hitlGateNodeId ≠ Compiler.decisionNodeId := by decide
  have hparallel : Gates.hitlGateNodeId ≠ Compiler.parallelNodeId := by decide
  simp [resolveNode, hnode, hdecision, hparallel]

theorem buildInput_eq {cls : NodeClass} {config : Dict} :
    buildInput E cls carried config st =
      match renderFields E (renderContext carried st) config.entries with
      | .ok rendered =>
          .ok ((carried.rawBase.filterKeys fun k => k ∈ cls.inputFields).update rendered)
      | .error cause => .error (.templateRenderFailed cls.id cause) := by
  cases hempty : config.entries with
  | nil => simp [buildInput, hempty, renderFields, OrderedDict.update]
  | cons kv kvs =>
      simp only [renderContext]
      cases hrender : renderFields E (promote (promote (conditionContext st.outputs)
        st.triggerPayload) carried.rawBase) (kv :: kvs) <;>
        simp [buildInput, hempty, hrender]

theorem gateInput_get? {config : Dict} {rendered : List (String × Json)}
    (h : renderFields E (renderContext carried st) config.entries = .ok rendered) (k : String) :
    ((carried.rawBase.filterKeys fun k => k ∈ hitlGateNode.inputFields).update rendered).get? k =
      (OrderedDict.find k rendered).or
        (if k ∈ gateFields then carried.rawBase.get? k else none) := by
  have hn : (rendered.map Prod.fst).Nodup := renderFields_keys h ▸ config.nodup
  rw [OrderedDict.find_foldl_set _ hn, OrderedDict.get?_filterKeys]
  simp only [decide_eq_true_eq]
  rfl

theorem gateInput_keys {config : Dict} {rendered : List (String × Json)}
    (h : renderFields E (renderContext carried st) config.entries = .ok rendered) :
    onlyKeys gateFields
        ((carried.rawBase.filterKeys fun k => k ∈ hitlGateNode.inputFields).update rendered) =
      true ↔ onlyKeys gateFields config = true := by
  simp only [onlyKeys_iff, gateInput_get? h]
  constructor
  · intro hall k hk
    rcases renderFields_find h k with ⟨-, hnone⟩ | ⟨v, w, hw, -, -⟩
    · rw [OrderedDict.get?, hnone] at hk
      cases hk
    · exact hall k (by simp [hw])
  · intro hall k hk
    rcases renderFields_find h k with ⟨hnone, -⟩ | ⟨v, w, -, hv, -⟩
    · by_contra hout
      simp [hnone, hout] at hk
    · exact hall k (by simp [OrderedDict.get?, hv])

theorem gateInput_kind {rendered : List (String × Json)}
    (h : renderFields E (renderContext carried st) node.config.entries = .ok rendered)
    {k : String} (hk : k ∈ gateFields) :
    isMapping (((carried.rawBase.filterKeys fun k => k ∈ hitlGateNode.inputFields).update
        rendered).get? k) = isMapping (gateField node carried k) ∧
      isText (((carried.rawBase.filterKeys fun k => k ∈ hitlGateNode.inputFields).update
        rendered).get? k) = isText (gateField node carried k) := by
  rw [gateInput_get? h, if_pos hk, gateField]
  rcases renderFields_find h k with ⟨hnone, hconfig⟩ | ⟨v, w, hw, hconfig, hrender⟩
  · have hget : node.config.get? k = none := hconfig
    rw [hnone, hget]
    exact ⟨rfl, rfl⟩
  · have hget : node.config.get? k = some v := hconfig
    rw [hw, hget]
    exact renderPayload_kind hrender

theorem gate_nodeInput (hnode : node.nodeId = Gates.hitlGateNodeId) :
    nodeInput E node carried st =
      (buildInput E hitlGateNode carried node.config st).map fun input => (hitlGateNode, input) := by
  have hdecision : Gates.hitlGateNodeId ≠ Compiler.decisionNodeId := by decide
  have hresolve : resolveNode E node = .ok hitlGateNode := gate_resolves hnode
  cases hinput : buildInput E hitlGateNode carried node.config st <;>
    simp [nodeInput, hresolve, hinput, hnode, hdecision, bind, Except.bind, Except.map, pure,
      Except.pure]

theorem gate_input_valid (hnode : node.nodeId = Gates.hitlGateNodeId) :
    (∃ input valid, nodeInput E node carried st = .ok (hitlGateNode, input) ∧
        validateHitlGate input = .ok valid) ↔
      onlyKeys gateFields node.config = true ∧
        (renderFields E (renderContext carried st) node.config.entries).isOk = true ∧
        isMapping (gateField node carried "payload") = true ∧
        isText (gateField node carried "prompt") = true ∧
        isText (gateField node carried "required_role") = true := by
  rw [gate_nodeInput hnode, buildInput_eq]
  cases hrender : renderFields E (renderContext carried st) node.config.entries with
  | error cause => simp [Except.map, Except.isOk, Except.toBool]
  | ok rendered =>
      have hpayload := (gateInput_kind (k := "payload") hrender (by decide)).1
      have hprompt := (gateInput_kind (k := "prompt") hrender (by decide)).2
      have hrole := (gateInput_kind (k := "required_role") hrender (by decide)).2
      rw [← gateInput_keys hrender, ← hpayload, ← hprompt, ← hrole]
      simp only [Except.map, Except.isOk, Except.toBool, true_and]
      rw [← validateHitlGate_ok]
      simp

theorem gate_enters_iff (hstep : wf.step c = some node)
    (hnode : node.nodeId = Gates.hitlGateNodeId) :
    (∃ input valid, visit E wf c carried st = .execute hitlGateNode input ∧
        validateHitlGate input = .ok valid) ↔ GateReady E node carried st := by
  have hpass : node.nodeId ∉ passthroughNodeIds := by rw [hnode]; decide
  have hparallel : node.nodeId ≠ Compiler.parallelNodeId := by rw [hnode]; decide
  constructor
  · rintro ⟨input, valid, hvisit, hvalid⟩
    obtain ⟨hroom, node', hstep', -, hcases⟩ := visit_cases hvisit (by simp)
    rw [hstep] at hstep'
    cases hstep'
    cases hcases with
    | execute hfresh _ _ hin =>
        obtain ⟨hkeys, hrenders, hpayload, hprompt, hrole⟩ :=
          (gate_input_valid hnode).mp ⟨input, valid, hin, hvalid⟩
        exact ⟨hroom, hfresh, hkeys, hrenders, hpayload, hprompt, hrole⟩
  · rintro ⟨hroom, hfresh, hkeys, hrenders, hpayload, hprompt, hrole⟩
    obtain ⟨input, valid, hin, hvalid⟩ :=
      (gate_input_valid hnode).mpr ⟨hkeys, hrenders, hpayload, hprompt, hrole⟩
    refine ⟨input, valid, ?_, hvalid⟩
    simp [visit, Nat.not_le.mpr hroom, hstep, visitNode, hfresh, hpass, hparallel, hin]

theorem gate_keys {step : Compiler.CompiledStep} (hgate : step.type = .hitlGate) :
    onlyKeys gateFields (Compiler.buildNode step).config = true ↔
      step.timeoutSeconds = none ∧ ∀ k, (step.config.get? k).isSome → k ∈ gateFields := by
  have hset : ∀ (d : OrderedDict String Yaml) (k j : String) (v : Yaml),
      ((d.setDefault k v).get? j).isSome ↔ j = k ∨ (d.get? j).isSome := by
    intro d k j v
    simp only [OrderedDict.get?_isSome, OrderedDict.mem_keys_setDefault]
  simp only [onlyKeys_iff, Compiler.buildNode, OrderedDict.get?_mapVal, Option.isSome_map,
    Compiler.buildConfig, hgate, Compiler.withTimeout]
  cases step.timeoutSeconds with
  | none =>
      simp only [hset, true_and]
      constructor
      · intro h k hk
        exact h k (Or.inr (Or.inr hk))
      · rintro h k (rfl | rfl | hk)
        · decide
        · decide
        · exact h k hk
  | some n =>
      simp only [hset, reduceCtorEq, false_and, iff_false]
      intro h
      have hmem := h "timeout_seconds" (Or.inl rfl)
      simp [gateFields] at hmem

theorem not_gateReady_of_timeout {step : Compiler.CompiledStep} {n : Int}
    (hgate : step.type = .hitlGate) (htimeout : step.timeoutSeconds = some n) :
    ¬ GateReady E (Compiler.buildNode step) carried st := by
  intro hready
  have hkeys := (gate_keys hgate).mp hready.keys
  rw [htimeout] at hkeys
  cases hkeys.1

end Enters

end Executor

end BTagent
