import BTagent.Engine.CompiledGraph
import BTagent.Runs.Alike
import BTagent.Runs.AttemptChain

namespace BTagent

namespace Workflow

variable {wf : Workflow}

theorem Acyclic.wellFounded (h : wf.Acyclic) : WellFounded fun d c => wf.Edge c d := by
  have hedge : ∀ {c d}, wf.Edge c d ↔ Kahn.Edge (wf.edges.map fun e => (e.source, e.target)) c d := by
    intro c d
    simp [Edge, Kahn.Edge]
  refine Subrelation.wf (fun h => hedge.mp h) (Kahn.wellFounded_of_acyclic fun c hc => h c ?_)
  exact Relation.TransGen.mono (fun _ _ hd => hedge.mpr hd) c c hc

end Workflow

namespace EventLoop
open Executor

variable {E : Engine} {N : JsonbNumeric} {P : Posture} {wf : Workflow}
  {run : String → Dict → Except String Dict} {v w w' : Walker} {c : StepId} {f : Frame}

section Turn

theorem passHooks_before_approved {md md' : Metadata} {evidence evidence' : List EvidenceEntry}
    (h : passHooks P f .before backendChain (md, evidence) = .ok (md', evidence')) :
    md'.approvedSteps = md.approvedSteps := by
  rw [passHooks_before] at h
  split at h
  · cases h
  · cases h
  · next hp =>
      cases h
      exact (Gates.connectorPolicyBefore_pass hp).1
  · cases h
  · cases h

theorem passHooks_paused {md : Metadata} {evidence : List EvidenceEntry} {p : Pause}
    (h : passHooks P f .before backendChain (md, evidence) = .error (.pause p)) :
    Gates.stepIsApproved md = false := by
  rw [passHooks_before] at h
  split at h
  · next hp => exact (Gates.hitlBefore_eq_some.mp hp).2.2.1
  · next hp => exact (Gates.hitlGateBefore_eq_some.mp hp).2.1
  · cases h
  · cases h
  · next hp =>
      obtain ⟨_, _, -, -, -, happ, -⟩ := Gates.connectorPolicyBefore_pause hp
      exact happ

def Advanced (wf : Workflow) (w w' : Walker) (c : StepId) : Prop :=
  ∃ node output next, wf.step c = some node ∧ route wf node output = .ok next ∧
    w'.current = next ∧ w'.carried = .model output ∧ w'.last = some output ∧
    w'.state = w.state.record c output ∧ w'.md.approvedSteps = w.md.approvedSteps

theorem Advanced.edge (h : Advanced wf w w' c) {d : StepId} (hd : w'.current = some d) :
    wf.Edge c d := by
  obtain ⟨node, output, next, hnode, hroute, hcur, -⟩ := h
  rw [hcur] at hd
  rw [hd] at hroute
  exact Workflow.step_stepId hnode ▸ route_edge hroute

theorem conclude_advanced {output : Dict} (h : conclude wf w c output = .ok w') :
    Advanced wf w w' c := by
  unfold conclude at h
  split at h
  · cases h
  · next node hnode =>
      split at h
      · next next hroute =>
          cases h
          exact ⟨node, output, next, hnode, hroute, rfl, rfl, rfl, rfl, rfl⟩
      · cases h

theorem attend_advanced (h : attend E P wf run w f = .ok w') : Advanced wf w w' f.stepId := by
  unfold attend at h
  split at h
  · cases h
  · next acc hacc =>
      split at h
      · cases h
      · next output _ =>
          rw [passHooks_after] at h
          split at h
          · cases h
          · next acc' hacc' =>
              obtain ⟨node, output, next, hnode, hroute, hcur, hcar, hlast, hst, happ⟩ :=
                conclude_advanced h
              refine ⟨node, output, next, hnode, hroute, hcur, hcar, hlast, hst, happ.trans ?_⟩
              split at hacc'
              · cases hacc'
                exact passHooks_before_approved hacc
              · cases hacc'

theorem turn_advanced (hnew : w.state.reused c = none) (h : turn E P wf run w c = .ok w') :
    Advanced wf w w' c := by
  unfold turn at h
  cases hv : visit E wf c w.carried w.state with
  | fail e =>
      rw [hv] at h
      cases h
  | reuse output next =>
      obtain ⟨-, node, -, rfl, hcases⟩ := visit_cases hv (by simp)
      cases hcases with
      | reuse hr => rw [hnew] at hr; cases hr
  | passthrough output next =>
      rw [hv] at h
      obtain ⟨-, node, hnode, rfl, hcases⟩ := visit_cases hv (by simp)
      cases hcases with
      | passthrough hr hp =>
          cases h
          refine ⟨node, _, nextStep wf node.stepId, hnode, ?_, rfl, rfl, rfl, rfl, rfl⟩
          have hdecision : node.nodeId ≠ Compiler.decisionNodeId := by
            rintro heq
            rw [heq] at hp
            exact absurd hp (by decide)
          have hparallel : node.nodeId ≠ Compiler.parallelNodeId := by
            rintro heq
            rw [heq] at hp
            exact absurd hp (by decide)
          simp [route, hdecision, hparallel]
  | fork targets =>
      rw [hv] at h
      exact attend_advanced h
  | execute node input =>
      rw [hv] at h
      simp only at h
      split at h
      · cases h
      · exact attend_advanced h

theorem turn_moves (h : turn E P wf run w c = .ok w') :
    (∀ d, w'.current = some d → wf.Edge c d) ∧ w'.md.approvedSteps = w.md.approvedSteps := by
  cases hr : w.state.reused c with
  | none =>
      have hadv := turn_advanced hr h
      refine ⟨fun d hd => hadv.edge hd, ?_⟩
      obtain ⟨-, -, -, -, -, -, -, -, -, happ⟩ := hadv
      exact happ
  | some stored =>
      unfold turn at h
      cases hv : visit E wf c w.carried w.state with
      | fail e =>
          rw [hv] at h
          cases h
      | reuse output next =>
          rw [hv] at h
          obtain ⟨-, node, -, rfl, hcases⟩ := visit_cases hv (by simp)
          cases h
          cases hcases with
          | reuse _ hroute =>
              refine ⟨fun d hd => ?_, rfl⟩
              obtain rfl : next = some d := hd
              exact route_edge hroute
      | passthrough output next | fork targets | execute node input =>
          obtain ⟨-, node, -, rfl, hcases⟩ := visit_cases hv (by simp)
          cases hcases
          simp_all

theorem attend_paused {c' : StepId} {p : Pause}
    (h : attend E P wf run w f = .error (.paused c' p)) : c' = f.stepId ∧
      passHooks P f .before backendChain (w.md, w.evidence) = .error (.pause p) := by
  unfold attend at h
  split at h
  · next x hx =>
      cases x with
      | pause p' =>
          cases h
          exact ⟨rfl, hx⟩
      | policy y | other what => cases h
  · split at h
    · cases h
    · rw [passHooks_after] at h
      split at h
      · next x hx =>
          split at hx
          · cases hx
          · cases hx
            cases h
      · unfold conclude at h
        split at h
        · cases h
        · split at h <;> cases h

theorem turn_paused {c' : StepId} {p : Pause} (h : turn E P wf run w c = .error (.paused c' p)) :
    c' = c ∧ w.state.nodesExecuted.length < Compiler.maxSteps ∧ c ∈ wf.stepIds ∧
      c ∉ w.md.approvedSteps := by
  unfold turn at h
  cases hv : visit E wf c w.carried w.state with
  | fail e =>
      rw [hv] at h
      cases h
      exact absurd hv visit_fail_not_paused
  | reuse output next | passthrough output next =>
      rw [hv] at h
      cases h
  | fork targets =>
      rw [hv] at h
      obtain ⟨-, hpause⟩ := attend_paused h
      rw [passHooks_before] at hpause
      cases hpause
  | execute node input =>
      rw [hv] at h
      simp only at h
      split at h
      · cases h
      · obtain ⟨hcap, wfNode, hnode, hid, -⟩ := visit_cases hv (by simp)
        obtain ⟨hc, hpause⟩ := attend_paused h
        have hnot := passHooks_paused hpause
        simp only [Gates.stepIsApproved, Walker.stamp] at hnot
        exact ⟨hc, hcap, hid ▸ List.mem_map.mpr ⟨wfNode, Workflow.step_mem hnode, rfl⟩,
          of_decide_eq_false hnot⟩

def NoBranches (wf : Workflow) : Prop := ∀ e ∈ wf.edges, isBranchLabel e.label = false

theorem NoBranches.fork (h : NoBranches wf) {carried : Payload} {st : WorkflowState}
    {targets : List StepId} (hv : visit E wf c carried st = .fork targets) : targets = [] := by
  obtain ⟨-, node, -, -, hcases⟩ := visit_cases hv (by simp)
  cases hcases with
  | fork _ _ ht =>
      have hnone : (wf.outEdges node.stepId).filter (fun e => isBranchLabel e.label) = [] := by
        refine List.filter_eq_nil_iff.mpr fun e he => ?_
        simp [h e (List.mem_filter.mp he).1]
      simp only [branchTargets, hnone] at ht
      simpa using ht.symm

end Turn

section Trace

def Walked (E : Engine) (P : Posture) (wf : Workflow) (run : String → Dict → Except String Dict) :
    Walker → Walker → Prop :=
  Relation.ReflTransGen fun w w' => ∃ c, w.current = some c ∧ turn E P wf run w c = .ok w'

-- A walk that was not resumed, and the steps behind it lead to the one ahead.
structure Traced (wf : Workflow) (w : Walker) : Prop where
  completed : w.state.completedSteps = []
  past : ∀ d ∈ w.state.nodesExecuted, ∀ c, w.current = some c → Relation.TransGen wf.Edge d c

variable {u : Walker} {st : WorkflowState} {s : Exec}

theorem Traced.fresh (h : Traced wf w) (c : StepId) : w.state.reused c = none := by
  simp [WorkflowState.reused, h.completed]

theorem Traced.ahead (h : Traced wf w) (hacyclic : wf.Acyclic) (hc : w.current = some c) :
    c ∉ w.state.nodesExecuted := fun hm => hacyclic c (h.past c hm c hc)

theorem mem_nodes_record {output : Dict} {d : StepId}
    (h : d ∈ (st.record c output).nodesExecuted) : d ∈ st.nodesExecuted ∨ d = c := by
  simp only [WorkflowState.record] at h
  split at h
  · exact Or.inl h
  · simpa using h

theorem traced_turn (h : Traced wf w) (hc : w.current = some c)
    (ht : turn E P wf run w c = .ok w') : Traced wf w' := by
  have hadv := turn_advanced (h.fresh c) ht
  have hedge : ∀ {d}, w'.current = some d → wf.Edge c d := hadv.edge
  obtain ⟨node, output, next, -, -, -, -, -, hst, -⟩ := hadv
  refine ⟨by rw [hst]; exact h.completed, fun d hd c' hc' => ?_⟩
  rw [hst] at hd
  rcases mem_nodes_record hd with hd | rfl
  · exact .tail (h.past d hd c hc) (hedge hc')
  · exact .single (hedge hc')

theorem walked_traced (hw : Walked E P wf run w u) (h : Traced wf w) : Traced wf u := by
  induction hw with
  | refl => exact h
  | tail _ hturn ih =>
      obtain ⟨c, hc, ht⟩ := hturn
      exact traced_turn ih hc ht

theorem walked_outputs (hacyclic : wf.Acyclic) (hw : Walked E P wf run w u) (h : Traced wf w)
    {d : StepId} (hd : d ∈ w.state.nodesExecuted) :
    d ∈ u.state.nodesExecuted ∧ u.state.outputs.get? d = w.state.outputs.get? d := by
  induction hw with
  | refl => exact ⟨hd, rfl⟩
  | @tail x y hwx hturn ih =>
      obtain ⟨c, hc, ht⟩ := hturn
      have hx := walked_traced hwx h
      obtain ⟨-, output, -, -, -, -, -, -, hst, -⟩ := turn_advanced (hx.fresh c) ht
      have hne : d ≠ c := by
        rintro rfl
        exact hx.ahead hacyclic hc ih.1
      rw [hst]
      refine ⟨WorkflowState.subset_record ih.1, ?_⟩
      simp only [WorkflowState.record, OrderedDict.get?_set_ne _ _ hne]
      exact ih.2

theorem turn_reuse {node : WorkflowNode} {output : Dict} {next : Option StepId}
    (hcap : v.state.nodesExecuted.length < Compiler.maxSteps) (hnode : wf.step c = some node)
    (hr : v.state.reused c = some output) (hroute : route wf node output = .ok next) :
    turn E P wf run v c = .ok (v.goto output next) := by
  have hid := Workflow.step_stepId hnode
  simp [turn, visit, visitNode, Nat.not_le_of_lt hcap, hnode, hid, hr, hroute]

theorem walked_approved (hw : Walked E P wf run w u) :
    u.md.approvedSteps = w.md.approvedSteps := by
  induction hw with
  | refl => rfl
  | tail _ hturn ih =>
      obtain ⟨c, -, ht⟩ := hturn
      exact (turn_moves ht).2.trans ih

theorem walked_trigger (hw : Walked E P wf run w u) (h : Traced wf w) :
    u.state.triggerPayload = w.state.triggerPayload := by
  induction hw with
  | refl => rfl
  | tail hwx hturn ih =>
      obtain ⟨c, -, ht⟩ := hturn
      obtain ⟨-, output, -, -, -, -, -, -, hst, -⟩ :=
        turn_advanced ((walked_traced hwx h).fresh c) ht
      rw [hst]
      exact ih

structure Replayed (N : JsonbNumeric) (v w : Walker) : Prop where
  current : v.current = w.current
  carried : Payload.Same N v.carried w.carried
  last : SameOption N v.last w.last

structure Snapshot (N : JsonbNumeric) (st st' : WorkflowState) : Prop where
  nodes : st.nodesExecuted = st'.nodesExecuted
  outputs : ∀ c, SameOption N (st.outputs.get? c) (st'.outputs.get? c)
  trigger : Jsonb.Same N st.triggerPayload st'.triggerPayload

theorem replay (hacyclic : wf.Acyclic) (hw : Walked E P wf run w u) (h : Traced wf w)
    (hsnap : Snapshot N st u.state) (hcompleted : st.completedSteps = st.nodesExecuted)
    (hcap : st.nodesExecuted.length < Compiler.maxSteps) (hv : Replayed N v w)
    (hst : v.state = st) :
    ∃ v', Walked E P wf run v v' ∧ v'.state = st ∧ v'.md = v.md ∧ Replayed N v' u := by
  induction hw using Relation.ReflTransGen.head_induction_on generalizing v with
  | refl => exact ⟨v, .refl, hst, rfl, hv⟩
  | @head x y hturn hyu ih =>
      obtain ⟨c, hc, ht⟩ := hturn
      have hy := traced_turn h hc ht
      obtain ⟨node, output, next, hnode, hroute, hcur, hcar, hlast, hyst, -⟩ :=
        turn_advanced (h.fresh c) ht
      have hcy : c ∈ y.state.nodesExecuted := hyst ▸ WorkflowState.mem_record
      obtain ⟨hcu, houtput⟩ := walked_outputs hacyclic hyu hy hcy
      have hsame := hsnap.outputs c
      rw [houtput, hyst] at hsame
      simp only [WorkflowState.record, OrderedDict.get?_set_self] at hsame
      cases hstored : st.outputs.get? c with
      | none => rw [hstored] at hsame; exact absurd hsame id
      | some output' =>
          rw [hstored] at hsame
          have hreused : v.state.reused c = some output' := by
            have hm : c ∈ st.completedSteps := hcompleted ▸ hsnap.nodes ▸ hcu
            simp [WorkflowState.reused, hst, hm, hstored]
          have hroute' : route wf node output' = .ok next := by
            rcases route_same hsame with ⟨n, hn', hn⟩ | ⟨_, _, -, hn⟩
            · rw [hroute] at hn
              cases hn
              exact hn'
            · rw [hroute] at hn
              cases hn
          have hreuse : turn E P wf run v c = .ok (v.goto output' next) :=
            turn_reuse (hst ▸ hcap) hnode hreused hroute'
          have hnext : Replayed N (v.goto output' next) y := by
            refine ⟨hcur.symm, ?_, ?_⟩
            · rw [hcar]
              exact hsame
            · rw [hlast]
              exact hsame
          obtain ⟨v', hwalk, hst', hmd, hrep⟩ := ih hy hnext hst
          exact ⟨v', .head ⟨c, hv.current.trans hc, hreuse⟩ hwalk, hst', hmd, hrep⟩

end Trace

section Ends

variable {s s₁ s₂ : Exec} {r r₁ r₂ : Except Failure (Option Dict)}

theorem Ends.stuck (h : Ends E P wf run s s₁ r) : drive E P wf run s₁ = none := by
  have hended := h.ended
  simp only [Exec.ended] at hended
  obtain ⟨p, hp, hr⟩ := Option.bind_eq_some_iff.mp hended
  cases p with
  | finished last | failed e => simp [drive, h.idle, hp]
  | _ => cases hr

theorem Ends.unique (h : Ends E P wf run s s₁ r₁) (h' : Ends E P wf run s s₂ r₂) :
    s₁ = s₂ ∧ r₁ = r₂ := by
  have hright : Relator.RightUnique fun s s' => drive E P wf run s = some s' := by
    intro a b c hb hc
    rw [hb] at hc
    exact Option.some.inj hc
  have hstay : ∀ {t t' : Exec} {r}, Ends E P wf run s t r → Drives E P wf run t t' → t = t' := by
    intro t t' r ht hdrives
    rcases Relation.ReflTransGen.cases_head hdrives with rfl | ⟨u, hu, -⟩
    · rfl
    · rw [ht.stuck] at hu
      cases hu
  have heq : s₁ = s₂ := by
    rcases Relation.ReflTransGen.total_of_right_unique hright h.drives h'.drives with hd | hd
    · exact hstay h hd
    · exact (hstay h' hd).symm
  subst heq
  exact ⟨rfl, Option.some.inj (h.ended.symm.trans h'.ended)⟩

theorem walked_drives (hbranch : NoBranches wf) (hw : Walked E P wf run v w) (hat : At s v .head) :
    ∃ s', Drives E P wf run s s' ∧ At s' w .head := by
  induction hw with
  | refl => exact ⟨s, .refl, hat⟩
  | tail _ hturn ih =>
      obtain ⟨c, hc, ht⟩ := hturn
      obtain ⟨s₁, hs₁, hat₁⟩ := ih
      have hturns := @turn_turns E P wf run _ _ _ hat₁ hc fun _ => hbranch.fork
      rw [ht] at hturns
      obtain ⟨s₂, hs₂, hat₂⟩ := hturns
      exact ⟨s₂, hs₁.trans hs₂, hat₂⟩

theorem walk_ends (hacyclic : wf.Acyclic) (hbranch : NoBranches wf) (hat : At s v .head) :
    ∃ s' r, Ends E P wf run s s' r ∧
      ∀ c p, r = .error (.paused c p) → c ∈ wf.stepIds ∧ c ∉ v.md.approvedSteps := by
  have hwf := hacyclic.wellFounded
  cases hc : v.current with
  | none =>
      obtain ⟨s', hends, -⟩ := @ends_finish E P wf run _ _ hat hc
      exact ⟨s', _, hends, fun _ _ he => by cases he⟩
  | some c =>
      induction c using hwf.induction generalizing v s with
      | _ c ih =>
      have hturns := @turn_turns E P wf run _ _ _ hat hc fun _ => hbranch.fork
      cases hv : turn E P wf run v c with
      | error e =>
          rw [hv] at hturns
          obtain ⟨s', hends, -⟩ := hturns
          refine ⟨s', _, hends, fun c' p he => ?_⟩
          cases he
          obtain ⟨rfl, -, hmem, hnot⟩ := turn_paused hv
          exact ⟨hmem, hnot⟩
      | ok v' =>
          rw [hv] at hturns
          obtain ⟨s₁, hs₁, hat₁⟩ := hturns
          obtain ⟨hedge, happ⟩ := turn_moves hv
          rw [← happ]
          cases hc' : v'.current with
          | none =>
              obtain ⟨s', hends, -⟩ := @ends_finish E P wf run _ _ hat₁ hc'
              exact ⟨s', _, hends.after hs₁, fun _ _ he => by cases he⟩
          | some d =>
              obtain ⟨s', r, hends, hpaused⟩ := ih d (hedge d hc') hat₁ hc'
              exact ⟨s', r, hends.after hs₁, hpaused⟩

end Ends

section Lockstep

variable {s : Exec}

structure Joined (N : JsonbNumeric) (wf : Workflow) (v w : Walker) : Prop where
  alike : Walker.Alike N v w
  traced : Traced wf w
  backed : v.state.completedSteps ⊆ v.state.nodesExecuted

-- Where the walk of an attempt ends, seen from the uninterrupted walk.
def EndsAt (E : Engine) (N : JsonbNumeric) (P : Posture) (wf : Workflow)
    (run : String → Dict → Except String Dict) (st : WorkflowState) (w : Walker) :
    Except Failure (Option Dict) → Prop
  | .ok last => w.current = none ∧ SameOption N last w.last ∧ Snapshot N st w.state
  | .error (.paused c _) => w.current = some c ∧ Snapshot N st w.state ∧
      st.nodesExecuted.length < Compiler.maxSteps
  | .error _ => ∃ c e, w.current = some c ∧ turn E P wf run w c = .error e ∧
      ∀ c' p, e ≠ .paused c' p

theorem alike_snapshot (h : Walker.Alike N v w) : Snapshot N v.state w.state :=
  ⟨h.nodes, h.outputs, h.trigger⟩

theorem lockstep (hacyclic : wf.Acyclic) (hbranch : NoBranches wf) {w₀ : Walker}
    (hind : ∀ w, Walked E P wf run w₀ w → ∀ c node, w.current = some c → wf.step c = some node →
      Indifferent E N run node w.carried w.state)
    (hj : Joined N wf v w) (hw : Walked E P wf run w₀ w) (hat : At s v .head) :
    ∃ s' r u, Ends E P wf run s s' r ∧ Walked E P wf run w u ∧
      EndsAt E N P wf run s'.state u r := by
  have hwf := hacyclic.wellFounded
  cases hc : v.current with
  | none =>
      obtain ⟨s', hends, hst⟩ := @ends_finish E P wf run _ _ hat hc
      exact ⟨s', _, w, hends, .refl, hj.alike.current ▸ hc, hj.alike.last, hst ▸ alike_snapshot hj.alike⟩
  | some c =>
      induction c using hwf.induction generalizing v w s with
      | _ c ih =>
      have hcw : w.current = some c := hj.alike.current ▸ hc
      have hnew : c ∉ v.state.completedSteps := fun hm =>
        hj.traced.ahead hacyclic hcw (hj.alike.nodes ▸ hj.backed hm)
      have hvnew : v.state.reused c = none := by simp [WorkflowState.reused, hnew]
      have hfollows := turn_follows (P := P) hj.alike hvnew (hj.traced.fresh c)
        fun node hnode => hind w hw c node hcw hnode
      have hturns := @turn_turns E P wf run _ _ _ hat hc fun _ => hbranch.fork
      cases hv : turn E P wf run v c with
      | error e =>
          rw [hv] at hfollows hturns
          obtain ⟨s', hends, hpaused⟩ := hturns
          refine ⟨s', _, w, hends, .refl, ?_⟩
          cases e with
          | paused c' p =>
              obtain ⟨rfl, hcap, -, -⟩ := turn_paused hv
              rw [EndsAt, hpaused _ _ rfl]
              exact ⟨hcw, alike_snapshot hj.alike, hcap⟩
          | execution x | unexpected what =>
              cases hwt : turn E P wf run w c with
              | ok w' => rw [hwt] at hfollows; exact absurd hfollows id
              | error e' =>
                  rw [hwt] at hfollows
                  exact ⟨c, e', hcw, hwt, hfollows⟩
      | ok v' =>
          rw [hv] at hfollows hturns
          obtain ⟨s₁, hs₁, hat₁⟩ := hturns
          cases hwt : turn E P wf run w c with
          | error e' => rw [hwt] at hfollows; exact absurd hfollows id
          | ok w' =>
              rw [hwt] at hfollows
              have hadv := turn_advanced hvnew hv
              have hbacked : v'.state.completedSteps ⊆ v'.state.nodesExecuted := by
                obtain ⟨-, output, -, -, -, -, -, -, hst, -⟩ := id hadv
                rw [hst]
                exact fun d hd => WorkflowState.subset_record (hj.backed hd)
              have hj' : Joined N wf v' w' :=
                ⟨hfollows, traced_turn hj.traced hcw hwt, hbacked⟩
              have hw' : Walked E P wf run w₀ w' := hw.tail ⟨c, hcw, hwt⟩
              cases hc' : v'.current with
              | none =>
                  obtain ⟨s', hends, hst⟩ :=
                    @ends_finish E P wf run _ _ hat₁ hc'
                  refine ⟨s', _, w', hends.after hs₁, .single ⟨c, hcw, hwt⟩, ?_⟩
                  exact ⟨hfollows.current ▸ hc', hfollows.last, hst ▸ alike_snapshot hfollows⟩
              | some d =>
                  obtain ⟨s', r, u, hends, hwu, hat'⟩ := ih d (hadv.edge hc') hj' hw' hat₁ hc'
                  exact ⟨s', r, u, hends.after hs₁, .head ⟨c, hcw, hwt⟩ hwu, hat'⟩

end Lockstep

end EventLoop

end BTagent
