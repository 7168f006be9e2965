import BTagent.Runs.RunRow
import BTagent.Runs.Walk

namespace BTagent

open Jsonb (Same)

-- Two results that no JSONB column tells apart, or two errors.
def SameResult (N : JsonbNumeric) {ε : Type} : Except ε Dict → Except ε Dict → Prop
  | .ok d, .ok e => Same N d e
  | .error _, .error _ => True
  | _, _ => False

def Payload.Same (N : JsonbNumeric) : Payload → Payload → Prop
  | .none, .none => True
  | .dict d, .dict e => Jsonb.Same N d e
  | .model d, .model e => Jsonb.Same N d e
  | _, _ => False

def SameOption (N : JsonbNumeric) : Option Dict → Option Dict → Prop
  | none, none => True
  | some d, some e => Jsonb.Same N d e
  | _, _ => False

section Lift
variable {N : JsonbNumeric} {p q : Payload}

theorem Payload.Same.rawBase (h : Payload.Same N p q) : Jsonb.Same N p.rawBase q.rawBase := by
  cases p <;> cases q <;> first | exact h | exact absurd h id | exact .refl _

theorem SameOption.map {a b : Option Dict} (h : SameOption N a b) :
    a.map (Jsonb.obj N) = b.map (Jsonb.obj N) := by
  cases a <;> cases b
  · rfl
  · exact absurd h id
  · exact absurd h id
  · exact congrArg some (Jsonb.obj_ext N h)

theorem SameOption.json {a b : Option Dict} (h : SameOption N a b) :
    (a.map fun d => Json.obj d.entries).map (Jsonb.store N) =
      (b.map fun d => Json.obj d.entries).map (Jsonb.store N) := by
  cases a <;> cases b
  · rfl
  · exact absurd h id
  · exact absurd h id
  · exact congrArg some (Jsonb.store_obj_eq_iff.mpr h)

end Lift

namespace Gates

variable {N : JsonbNumeric} {P : Posture} {m : ConnectorManifest} {node : NodeClass}
  {d e : Dict} {md md' : Metadata}

theorem resolveCapability_same (h : Same N d e) :
    resolveCapability m node d = resolveCapability m node e := by
  unfold resolveCapability
  cases hd : d.get? "_capability_id" with
  | none => rw [h.get?_none hd]
  | some x =>
      cases x with
      | null => rw [h.get?_null hd]
      | str text => rw [h.get?_str hd]
      | bool _ | int _ | float _ | arr _ | obj _ =>
          cases he : e.get? "_capability_id" with
          | none => rw [h.symm.get?_none he] at hd; cases hd
          | some y =>
              cases y with
              | null => rw [h.symm.get?_null he] at hd; cases hd
              | str text => rw [h.symm.get?_str he] at hd; cases hd
              | _ => rfl

theorem strings_store (xs : List Json) : strings (xs.map (Jsonb.store N)) = strings xs := by
  induction xs with
  | nil => rfl
  | cons x xs ih =>
      simp only [strings] at ih ⊢
      cases x with
      | str text => simp [Jsonb.store, ih]
      | float r => rcases N.stable r with ⟨n, h⟩ | ⟨r', h, -⟩ <;> simp [Jsonb.store, h, ih]
      | _ => simp [Jsonb.store, ih]

theorem arrayItems_store (o : Option Json) :
    arrayItems (o.map (Jsonb.store N)) = (arrayItems o).map (Jsonb.store N) := by
  cases o with
  | none => rfl
  | some x =>
      cases x with
      | arr xs => simp [arrayItems, Jsonb.store, Jsonb.storeList_eq_map]
      | float r => rcases N.stable r with ⟨n, h⟩ | ⟨r', h, -⟩ <;> simp [arrayItems, Jsonb.store, h]
      | _ => rfl

theorem eventClass_store (x : Json) :
    eventClass (Jsonb.store N x) = (eventClass x).map (Jsonb.store N) := by
  cases x with
  | obj kvs => exact Jsonb.find_store
  | float r => rcases N.stable r with ⟨n, h⟩ | ⟨r', h, -⟩ <;> simp [eventClass, Jsonb.store, h]
  | _ => rfl

theorem extractOcsfClaims_same (h : Same N d e) : extractOcsfClaims d = extractOcsfClaims e := by
  have hclass : strings (d.get? "ocsf_event_class").toList =
      strings (e.get? "ocsf_event_class").toList := by
    rw [← strings_store (N := N), ← strings_store (N := N) (e.get? _).toList, ← Option.toList_map,
      ← Option.toList_map, h]
  have hemits : strings (arrayItems (d.get? "ocsf_emits")) =
      strings (arrayItems (e.get? "ocsf_emits")) := by
    rw [← strings_store (N := N), ← strings_store (N := N) (arrayItems (e.get? _)),
      ← arrayItems_store, ← arrayItems_store, h]
  have hfilter : ∀ xs : List Json, strings ((xs.map (Jsonb.store N)).filterMap eventClass) =
      strings (xs.filterMap eventClass) := by
    intro xs
    rw [List.filterMap_map, ← strings_store (N := N) (xs.filterMap eventClass), List.map_filterMap]
    congr 2
    funext x
    exact eventClass_store x
  have hevents : strings ((arrayItems (d.get? "events")).filterMap eventClass) =
      strings ((arrayItems (e.get? "events")).filterMap eventClass) := by
    rw [← hfilter, ← hfilter (arrayItems (e.get? _)), ← arrayItems_store, ← arrayItems_store, h]
  rw [extractOcsfClaims, extractOcsfClaims, hclass, hemits, hevents]

theorem ocsfUndeclared_same (h : Same N d e)
    (hcap : node.manifest ≠ none → md.capabilityId = md'.capabilityId) :
    ocsfUndeclared node d md = ocsfUndeclared node e md' := by
  unfold ocsfUndeclared
  cases hm : node.manifest with
  | none => rfl
  | some m => rw [hcap (by simp [hm]), extractOcsfClaims_same h]

end Gates

namespace Walker

-- Two walkers that stand at the same step, the second with no fewer approvals.
structure Alike (N : JsonbNumeric) (v w : Walker) : Prop where
  current : v.current = w.current
  carried : Payload.Same N v.carried w.carried
  last : SameOption N v.last w.last
  nodes : v.state.nodesExecuted = w.state.nodesExecuted
  outputs : ∀ c, SameOption N (v.state.outputs.get? c) (w.state.outputs.get? c)
  trigger : Same N v.state.triggerPayload w.state.triggerPayload
  approved : v.md.approvedSteps ⊆ w.md.approvedSteps

end Walker

namespace EventLoop
open Executor Gates

def renderContext (carried : Payload) (st : WorkflowState) : Dict :=
  promote (promote (conditionContext st.outputs) st.triggerPayload) carried.rawBase

-- Neither the templates and the condition of a step nor its class tell apart what it is given
-- here from anything that a JSONB column keeps as the same value.
structure Indifferent (E : Engine) (N : JsonbNumeric) (run : String → Dict → Except String Dict)
    (node : WorkflowNode) (carried : Payload) (st : WorkflowState) : Prop where
  render : ∀ ctx, Same N (renderContext carried st) ctx →
    renderFields E ctx node.config.entries =
      renderFields E (renderContext carried st) node.config.entries
  condition : ∀ text ctx, node.config.get? "condition" = some (.str text) →
    Same N (conditionContext st.outputs) ctx →
    E.evaluateCondition text ctx = E.evaluateCondition text (conditionContext st.outputs)
  validate : ∀ cls input d, nodeInput E node carried st = .ok (cls, input) → Same N input d →
    SameResult N (cls.validate d) (cls.validate input)
  run : ∀ cls input valid d, nodeInput E node carried st = .ok (cls, input) →
    cls.validate input = .ok valid → Same N valid d →
    SameResult N (runNode E run cls.id d) (runNode E run cls.id valid)

variable {E : Engine} {N : JsonbNumeric} {P : Posture} {wf : Workflow}
  {run : String → Dict → Except String Dict} {node : WorkflowNode} {v w : Walker} {d e : Dict}
  {f g : Frame} {c : StepId}

section Inputs

theorem conditionContext_same {a b : OrderedDict StepId Dict}
    (h : ∀ c, SameOption N (a.get? c) (b.get? c)) :
    Same N (conditionContext a) (conditionContext b) := by
  refine Jsonb.Same.set (.refl _) _ (Jsonb.store_obj_eq_iff.mpr fun k => ?_)
  rw [OrderedDict.get?_mapVal, OrderedDict.get?_mapVal]
  exact (h k).json

theorem renderContext_same (h : Walker.Alike N v w) :
    Same N (renderContext v.carried v.state) (renderContext w.carried w.state) :=
  (((conditionContext_same h.outputs).update (h.trigger.filterKeys _)).update
    (h.carried.rawBase.filterKeys _))

theorem coercePassthrough_same {p q : Payload} (h : Payload.Same N p q) :
    Same N (coercePassthrough p) (coercePassthrough q) := by
  cases p <;> cases q <;> first | exact absurd h id | skip
  · exact .refl _
  · exact Jsonb.Same.set (.refl _) _ (Jsonb.store_obj_eq_iff.mpr h)
  · exact h

theorem buildInput_same {cls : NodeClass} (h : Walker.Alike N v w)
    (hind : Indifferent E N run node w.carried w.state) :
    SameResult N (buildInput E cls v.carried node.config v.state)
      (buildInput E cls w.carried node.config w.state) := by
  have hbase := h.carried.rawBase.filterKeys fun k => k ∈ cls.inputFields
  have hrender := hind.render _ (renderContext_same h).symm
  simp only [renderContext] at hrender
  simp only [buildInput]
  split
  · exact hbase
  · rw [hrender]
    split
    · exact hbase.update_list _
    · trivial

theorem valueInput_same {a b : Json} (h : Jsonb.store N a = Jsonb.store N b) :
    Same N (valueInput a) (valueInput b) :=
  Jsonb.Same.set (.refl _) _ h

theorem value_same (h : Same N d e) : Jsonb.store N ((d.get? "value").getD .null) =
    Jsonb.store N ((e.get? "value").getD .null) := by
  cases hd : d.get? "value" with
  | none => rw [h.get?_none hd]
  | some x =>
      obtain ⟨y, hy, hs⟩ := Option.map_eq_some_iff.mp (hd ▸ h "value").symm
      rw [hy]
      exact hs.symm

theorem applyCondition_same (h : Walker.Alike N v w)
    (hind : Indifferent E N run node w.carried w.state) (hin : Same N d e) :
    SameResult N (applyCondition E node d v.state) (applyCondition E node e w.state) := by
  simp only [applyCondition]
  split
  · next text htext =>
      split
      · exact valueInput_same (value_same hin)
      · rw [hind.condition text _ htext (conditionContext_same h.outputs).symm]
        split
        · exact .refl _
        · trivial
  · exact valueInput_same (value_same hin)

theorem nodeInput_of_class {cls : NodeClass} (h : resolveNode E node = .ok cls) (p : Payload)
    (st : WorkflowState) : nodeInput E node p st =
      match buildInput E cls p node.config st with
      | .error x => .error x
      | .ok input =>
          if node.nodeId = Compiler.decisionNodeId then
            match applyCondition E node input st with
            | .error x => .error x
            | .ok input => .ok (cls, input)
          else .ok (cls, input) := by
  simp only [nodeInput, h, bind, Except.bind]
  cases buildInput E cls p node.config st with
  | error x => rfl
  | ok input =>
      simp only
      split
      · cases applyCondition E node input st <;> rfl
      · rfl

theorem nodeInput_same (h : Walker.Alike N v w)
    (hind : Indifferent E N run node w.carried w.state) :
    (∃ cls d e, nodeInput E node v.carried v.state = .ok (cls, d) ∧
      nodeInput E node w.carried w.state = .ok (cls, e) ∧ Same N d e) ∨
    ∃ x y, nodeInput E node v.carried v.state = .error x ∧
      nodeInput E node w.carried w.state = .error y := by
  cases hcls : resolveNode E node with
  | error x => exact Or.inr ⟨x, x, by simp only [nodeInput, hcls]; rfl, by simp only [nodeInput, hcls]; rfl⟩
  | ok cls =>
      have hbuild := @buildInput_same E N run node v w cls h hind
      rw [nodeInput_of_class hcls, nodeInput_of_class hcls]
      cases hv : buildInput E cls v.carried node.config v.state <;>
        cases hw : buildInput E cls w.carried node.config w.state <;> rw [hv, hw] at hbuild
      · exact Or.inr ⟨_, _, rfl, rfl⟩
      · exact absurd hbuild id
      · exact absurd hbuild id
      · next d e =>
          simp only
          split
          · have hcond := applyCondition_same h hind hbuild
            cases hv' : applyCondition E node d v.state <;>
              cases hw' : applyCondition E node e w.state <;> rw [hv', hw'] at hcond
            · exact Or.inr ⟨_, _, rfl, rfl⟩
            · exact absurd hcond id
            · exact absurd hcond id
            · exact Or.inl ⟨cls, _, _, rfl, rfl, hcond⟩
          · exact Or.inl ⟨cls, d, e, rfl, rfl, hbuild⟩

end Inputs

section Routing

theorem nextDecisionStep_same (h : Same N d e) :
    (∃ next, nextDecisionStep wf c d = .ok next ∧ nextDecisionStep wf c e = .ok next) ∨
      ∃ x y, nextDecisionStep wf c d = .error x ∧ nextDecisionStep wf c e = .error y := by
  have hother : ∀ {d e : Dict}, Same N d e → (∀ text, e.get? "branch" ≠ some (.str text)) →
      ∃ x, nextDecisionStep wf c d = .error x := by
    intro d e h hnot
    unfold nextDecisionStep
    split
    · exact ⟨_, rfl⟩
    · exact ⟨_, rfl⟩
    · next hd => exact absurd (h.get?_str hd) (hnot _)
    · exact ⟨_, rfl⟩
  by_cases hstr : ∃ text, e.get? "branch" = some (.str text)
  · obtain ⟨text, he⟩ := hstr
    simp only [nextDecisionStep, he, h.symm.get?_str he]
    split
    · exact Or.inl ⟨_, rfl, rfl⟩
    · exact Or.inr ⟨_, _, rfl, rfl⟩
  · have hnot : ∀ text, e.get? "branch" ≠ some (.str text) := fun text he => hstr ⟨text, he⟩
    obtain ⟨x, hx⟩ := hother h hnot
    obtain ⟨y, hy⟩ := hother (.refl e) hnot
    exact Or.inr ⟨x, y, hx, hy⟩

theorem route_same (h : Same N d e) :
    (∃ next, route wf node d = .ok next ∧ route wf node e = .ok next) ∨
      ∃ x y, route wf node d = .error x ∧ route wf node e = .error y := by
  unfold route
  split
  · rcases nextDecisionStep_same h with ⟨n, hd, he⟩ | ⟨x, y, hd, he⟩
    · rw [hd, he]
      exact Or.inl ⟨some n, rfl, rfl⟩
    · rw [hd, he]
      exact Or.inr ⟨x, y, rfl, rfl⟩
  · split
    · exact Or.inl ⟨_, rfl, rfl⟩
    · exact Or.inl ⟨_, rfl, rfl⟩

end Routing

section Hooks
variable {md md' : Metadata} {evidence evidence' : List EvidenceEntry} {output : Dict}

theorem passHooks_before : passHooks P f .before backendChain (md, evidence) =
    match hitlBefore P f.node md, hitlGateBefore f.node f.input md,
        connectorPolicyBefore P f.node f.input md with
    | some p, _, _ => .error (.pause p)
    | none, some p, _ => .error (.pause p)
    | none, none, .pass md => .ok (md, evidence)
    | none, none, .violation x => .error (.policy x)
    | none, none, .pause p => .error (.pause p) := by
  simp only [passHooks, backendChain, Runner.runHook, Runner.beforeRun, Runner.raiseIf, Except.map]
  cases hitlBefore P f.node md with
  | some p => rfl
  | none =>
      simp only
      cases hitlGateBefore f.node f.input md with
      | some p => rfl
      | none =>
          simp only
          cases connectorPolicyBefore P f.node f.input md <;> rfl

theorem passHooks_after {acc : Metadata × List EvidenceEntry} :
    passHooks P f (.after output) backendChain.reverse acc =
      if (ocsfUndeclared f.node output acc.1).isEmpty then
        .ok (acc.1, acc.2 ++ [⟨f.stepId, f.node.id⟩])
      else .error (.other "OCSFContractViolation") := by
  cases hundeclared : (ocsfUndeclared f.node output acc.1).isEmpty <;>
    simp [passHooks, backendChain, Runner.runHook, Runner.afterRun, Runner.refuseIf, Except.map,
      hundeclared]

def GatesFollow (node : NodeClass) (md md' : Metadata) :
    Except NodeException (Metadata × List EvidenceEntry) →
    Except NodeException (Metadata × List EvidenceEntry) → Prop
  | .ok a, .ok b => a.1.approvedSteps = md.approvedSteps ∧ b.1.approvedSteps = md'.approvedSteps ∧
      (node.manifest ≠ none → a.1.capabilityId = b.1.capabilityId)
  | .error (.pause _), _ => True
  | .error (.policy _), .error (.policy _) => True
  | _, _ => False

theorem connectorPolicy_follows {m : ConnectorManifest} {cls : NodeClass}
    (hm : cls.manifest = some m) (hin : Same N d e)
    (happ : stepIsApproved md = true → stepIsApproved md' = true) :
    (∃ x y, connectorPolicyBefore P cls d md = .violation x ∧
      connectorPolicyBefore P cls e md' = .violation y) ∨
    (∃ p, connectorPolicyBefore P cls d md = .pause p) ∨
    ∃ a b, connectorPolicyBefore P cls d md = .pass a ∧ connectorPolicyBefore P cls e md' = .pass b ∧
      a.approvedSteps = md.approvedSteps ∧ b.approvedSteps = md'.approvedSteps ∧
      a.capabilityId = b.capabilityId := by
  simp only [connectorPolicyBefore, hm, resolveCapability_same hin]
  cases resolveCapability m cls e with
  | none => exact Or.inl ⟨_, _, rfl, rfl⟩
  | some cap =>
      simp only
      split
      · exact Or.inl ⟨_, _, rfl, rfl⟩
      · split
        · exact Or.inr (Or.inl ⟨_, rfl⟩)
        · next hpass =>
            have hpass' : ¬ (cap.hitlRequired && !stepIsApproved md') = true := by
              intro hx
              simp only [Bool.and_eq_true, Bool.not_eq_true'] at hx hpass
              refine hpass ⟨hx.1, ?_⟩
              cases hmd : stepIsApproved md with
              | false => rfl
              | true =>
                  rw [happ hmd] at hx
                  exact absurd hx.2 (by simp)
            rw [if_neg hpass']
            exact Or.inr (Or.inr ⟨_, _, rfl, rfl, rfl, rfl, rfl⟩)

theorem before_follows (hnode : f.node = g.node) (hin : Same N f.input g.input)
    (happ : stepIsApproved md = true → stepIsApproved md' = true) :
    GatesFollow g.node md md' (passHooks P f .before backendChain (md, evidence))
      (passHooks P g .before backendChain (md', evidence')) := by
  have hfalse : stepIsApproved md' = false → stepIsApproved md = false := by
    intro hx
    cases hmd : stepIsApproved md with
    | false => rfl
    | true => rw [happ hmd] at hx; cases hx
  rw [passHooks_before, passHooks_before, hnode]
  cases hh : hitlBefore P g.node md with
  | some p => trivial
  | none =>
      have hh' : hitlBefore P g.node md' = none := by
        refine Option.eq_none_iff_forall_ne_some.mpr fun p hp => ?_
        obtain ⟨hcat, hreq, hmd, rfl⟩ := hitlBefore_eq_some.mp hp
        rw [hitlBefore_eq_some.mpr ⟨hcat, hreq, hfalse hmd, rfl⟩] at hh
        cases hh
      rw [hh']
      cases hg : hitlGateBefore g.node f.input md with
      | some p => trivial
      | none =>
          have hg' : hitlGateBefore g.node g.input md' = none := by
            refine Option.eq_none_iff_forall_ne_some.mpr fun p hp => ?_
            obtain ⟨hid, hmd, -⟩ := hitlGateBefore_eq_some.mp hp
            rw [hitlGateBefore_eq_some.mpr ⟨hid, hfalse hmd, rfl⟩] at hg
            cases hg
          rw [hg']
          cases hm : g.node.manifest with
          | none =>
              simp only [connectorPolicyBefore, hm]
              exact ⟨rfl, rfl, fun h => absurd hm h⟩
          | some m =>
              rcases connectorPolicy_follows hm hin happ with ⟨x, y, hx, hy⟩ | ⟨p, hp⟩ |
                ⟨a, b, ha, hb, haa, hba, hcap⟩
              · rw [hx, hy]
                trivial
              · rw [hp]
                trivial
              · rw [ha, hb]
                exact ⟨haa, hba, fun _ => hcap⟩

end Hooks

section Turn

def Follows (N : JsonbNumeric) : Except Failure Walker → Except Failure Walker → Prop
  | .ok v, .ok w => Walker.Alike N v w
  | .error (.paused _ _), _ => True
  | .error _, .error e => ∀ c p, e ≠ .paused c p
  | _, _ => False

theorem record_alike (h : Walker.Alike N v w) (hd : Same N d e) (c : StepId)
    (next : Option StepId) :
    Walker.Alike N ((v.record c d).goto d next) ((w.record c e).goto e next) := by
  refine ⟨rfl, hd, hd, ?_, fun j => ?_, h.trigger, h.approved⟩
  · simp only [Walker.goto, Walker.record, WorkflowState.record, h.nodes]
  · simp only [Walker.goto, Walker.record, WorkflowState.record, OrderedDict.get?_set]
    split
    · exact hd
    · exact h.outputs j

theorem conclude_follows (h : Walker.Alike N v w) (hd : Same N d e) :
    Follows N (conclude wf v c d) (conclude wf w c e) := by
  unfold conclude
  cases wf.step c with
  | none => exact fun _ _ hx => by cases hx
  | some node =>
      simp only
      rcases route_same hd with ⟨next, hv, hw⟩ | ⟨x, y, hv, hw⟩
      · rw [hv, hw]
        exact record_alike h hd c next
      · rw [hv, hw]
        exact fun _ _ hx => by cases hx

theorem wrap_other_ne_paused {what : String} {c' : StepId} {p : Pause} :
    (NodeException.other what).wrap c ≠ .paused c' p := by
  simp [NodeException.wrap]

theorem hooked_alike {a b : Metadata × List EvidenceEntry} (h : Walker.Alike N v w)
    (ha : a.1.approvedSteps = v.md.approvedSteps) (hb : b.1.approvedSteps = w.md.approvedSteps) :
    Walker.Alike N (v.hooked a) (w.hooked b) := by
  refine ⟨h.current, h.carried, h.last, h.nodes, h.outputs, h.trigger, ?_⟩
  simp only [Walker.hooked, ha, hb]
  exact h.approved

theorem attend_follows (h : Walker.Alike N v w) (hid : f.stepId = g.stepId)
    (hnode : f.node = g.node)
    (hgates : GatesFollow g.node v.md w.md (passHooks P f .before backendChain (v.md, v.evidence))
      (passHooks P g .before backendChain (w.md, w.evidence)))
    (hrun : SameResult N (runNode E run g.node.id f.input) (runNode E run g.node.id g.input)) :
    Follows N (attend E P wf run v f) (attend E P wf run w g) := by
  unfold attend
  rw [hnode, hid]
  cases hv : passHooks P f .before backendChain (v.md, v.evidence) with
  | error x =>
      cases x with
      | pause p => trivial
      | policy y =>
          cases hw : passHooks P g .before backendChain (w.md, w.evidence) with
          | error z =>
              rw [hv, hw] at hgates
              cases z with
              | policy z => exact fun _ _ hx => by cases hx
              | pause _ | other _ => exact absurd hgates id
          | ok b => rw [hv, hw] at hgates; exact absurd hgates id
      | other _ =>
          rw [hv] at hgates
          exact absurd hgates id
  | ok a =>
      cases hw : passHooks P g .before backendChain (w.md, w.evidence) with
      | error z => rw [hv, hw] at hgates; exact absurd hgates id
      | ok b =>
          rw [hv, hw] at hgates
          obtain ⟨ha, hb, hcap⟩ := hgates
          simp only
          cases hrv : runNode E run g.node.id f.input <;>
            cases hrw : runNode E run g.node.id g.input <;> rw [hrv, hrw] at hrun
          · exact fun _ _ hx => by cases hx
          · exact absurd hrun id
          · exact absurd hrun id
          · next d e =>
              simp only [passHooks_after, hnode, ocsfUndeclared_same hrun hcap]
              cases (ocsfUndeclared g.node e b.1).isEmpty with
              | true => exact conclude_follows (hooked_alike h ha hb) hrun
              | false => exact fun _ _ hx => wrap_other_ne_paused hx

theorem merge_follows (h : Walker.Alike N v w) (c : StepId) :
    Follows N (attend E P wf run v (mergeFrame c [])) (attend E P wf run w (mergeFrame c [])) := by
  have hpass : ∀ acc, passHooks P (mergeFrame c []) .before backendChain acc = .ok acc := by
    rintro ⟨md, evidence⟩
    rw [passHooks_before]
    rfl
  refine attend_follows h rfl rfl ?_ ?_
  · rw [hpass, hpass]
    exact ⟨rfl, rfl, fun hm => absurd rfl hm⟩
  · exact Jsonb.Same.refl _

theorem stamp_alike (h : Walker.Alike N v w) (c : StepId) :
    Walker.Alike N (v.stamp c) (w.stamp c) :=
  ⟨h.current, h.carried, h.last, h.nodes, h.outputs, h.trigger, h.approved⟩

theorem stamp_approved (h : Walker.Alike N v w)
    (hv : stepIsApproved (v.stamp c).md = true) : stepIsApproved (w.stamp c).md = true := by
  simp only [stepIsApproved, Walker.stamp] at hv ⊢
  exact decide_eq_true (h.approved (of_decide_eq_true hv))

theorem turn_follows (h : Walker.Alike N v w) (hv : v.state.reused c = none)
    (hw : w.state.reused c = none)
    (hind : ∀ node, wf.step c = some node → Indifferent E N run node w.carried w.state) :
    Follows N (turn E P wf run v c) (turn E P wf run w c) := by
  have herror : ∀ {x y : ExecutionError},
      Follows N (.error (.execution x)) (.error (.execution y)) := fun _ _ hx => by cases hx
  unfold turn visit
  rw [h.nodes]
  by_cases hcap : Compiler.maxSteps ≤ w.state.nodesExecuted.length
  · simp only [hcap, if_true]
    exact herror
  simp only [hcap, if_false]
  cases hnode : wf.step c with
  | none => exact herror
  | some node =>
      simp only [visitNode, Workflow.step_stepId hnode, hv, hw]
      by_cases hpass : node.nodeId ∈ passthroughNodeIds
      · simp only [hpass, if_true]
        exact record_alike h (coercePassthrough_same h.carried) c _
      simp only [hpass, if_false]
      by_cases hparallel : node.nodeId = Compiler.parallelNodeId
      · simp only [hparallel, if_true]
        cases branchTargets E wf c with
        | none => exact fun _ _ hx => by cases hx
        | some targets => exact merge_follows h c
      simp only [hparallel, if_false]
      rcases nodeInput_same h (hind node hnode) with ⟨cls, d, e, hd, he, hsame⟩ | ⟨x, y, hd, he⟩
      · rw [hd, he]
        have hvalid := (hind node hnode).validate cls e d he hsame.symm
        simp only
        cases hvd : cls.validate d <;> cases hve : cls.validate e <;> rw [hvd, hve] at hvalid
        · exact herror
        · exact absurd hvalid id
        · exact absurd hvalid id
        · next d' e' =>
            have hrun := (hind node hnode).run cls e e' d' he hve hvalid.symm
            exact attend_follows (stamp_alike h c) rfl rfl
              (before_follows rfl hvalid (stamp_approved h)) hrun
      · rw [hd, he]
        exact herror

end Turn

end EventLoop

end BTagent
