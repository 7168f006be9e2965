import BTagent.Engine.EventLoop

namespace BTagent

namespace Exec

variable (s : Exec) (i : ℕ) (t : Task) (e : Failure)

@[simp] theorem put_state : (s.put i t).state = s.state := rfl
@[simp] theorem put_md : (s.put i t).md = s.md := rfl
@[simp] theorem put_evidence : (s.put i t).evidence = s.evidence := rfl
@[simp] theorem put_tasks : (s.put i t).tasks = s.tasks.set i t := rfl
@[simp] theorem put_active : (s.put i t).active = s.active := rfl
@[simp] theorem put_fails : (s.put i t).fails = s.fails := rfl
@[simp] theorem put_visits : (s.put i t).visits = s.visits := rfl
@[simp] theorem put_forks : (s.put i t).forks = s.forks := rfl
@[simp] theorem put_runs : (s.put i t).runs = s.runs := rfl
@[simp] theorem put_returned : (s.put i t).returned = s.returned := rfl

@[simp] theorem idle_state : s.idle.state = s.state := rfl
@[simp] theorem idle_md : s.idle.md = s.md := rfl
@[simp] theorem idle_evidence : s.idle.evidence = s.evidence := rfl
@[simp] theorem idle_tasks : s.idle.tasks = s.tasks := rfl
@[simp] theorem idle_active : s.idle.active = none := rfl
@[simp] theorem idle_fails : s.idle.fails = s.fails := rfl
@[simp] theorem idle_visits : s.idle.visits = s.visits := rfl
@[simp] theorem idle_forks : s.idle.forks = s.forks := rfl
@[simp] theorem idle_runs : s.idle.runs = s.runs := rfl
@[simp] theorem idle_returned : s.idle.returned = s.returned := rfl

@[simp] theorem fail_state : (s.fail i t e).state = s.state := rfl
@[simp] theorem fail_md : (s.fail i t e).md = s.md := rfl
@[simp] theorem fail_evidence : (s.fail i t e).evidence = s.evidence := rfl
@[simp] theorem fail_tasks : (s.fail i t e).tasks = s.tasks.set i (t.at_ (.failed e)) := rfl
@[simp] theorem fail_active : (s.fail i t e).active = none := rfl
@[simp] theorem fail_fails : (s.fail i t e).fails = s.fails ++ [i] := rfl
@[simp] theorem fail_visits : (s.fail i t e).visits = s.visits := rfl
@[simp] theorem fail_forks : (s.fail i t e).forks = s.forks := rfl
@[simp] theorem fail_runs : (s.fail i t e).runs = s.runs := rfl
@[simp] theorem fail_returned : (s.fail i t e).returned = s.returned := rfl

end Exec

namespace Task

variable (t : Task) (p : Phase) (d : Dict) (next : Option StepId)

@[simp] theorem at_current : (t.at_ p).current = t.current := rfl
@[simp] theorem at_carried : (t.at_ p).carried = t.carried := rfl
@[simp] theorem at_stopAt : (t.at_ p).stopAt = t.stopAt := rfl
@[simp] theorem at_phase : (t.at_ p).phase = p := rfl
@[simp] theorem goto_current : (t.goto d next).current = next := rfl
@[simp] theorem goto_stopAt : (t.goto d next).stopAt = t.stopAt := rfl
@[simp] theorem goto_phase : (t.goto d next).phase = .head := rfl

theorem target_eq_some {t : Task} {stepId : StepId} :
    t.target = some stepId ↔ t.current = some stepId ∧ t.stopAt ≠ some stepId := by
  unfold target
  split
  · next h => constructor
              · intro hn
                cases hn
              · rintro ⟨hc, hs⟩
                exact absurd (h ▸ hc) hs
  · next h => constructor
              · intro hc
                exact ⟨hc, fun hs => h (hc.trans hs.symm)⟩
              · exact And.left

end Task

namespace EventLoop

variable (E : Engine) (P : Posture) (wf : Workflow) (chain : List Hook)

-- Why a task that is past its visit stops with a failure, nothing else being changed.
inductive Raise (s : Exec) (t : Task) : Failure → Prop where
  | hook {f h rest refusal stage x} (hp : t.phase = .hooks f stage (h :: rest))
      (hx : Runner.runHook P h f refusal s.md s.evidence stage = .error x) :
      Raise s t (x.wrap f.stepId)
  | node {f x} (hp : t.phase = .hooks f (.error x) []) : Raise s t (x.wrap f.stepId)
  | branch {kids e} (hp : t.phase = .gather kids) (he : s.gatherFailure kids = some e) :
      Raise s t e
  | badOutput {f what} (hp : t.phase = .running f) :
      Raise s t (.execution (.runFailed f.stepId what))
  | emission {f stage rest what} (hp : t.phase = .emitting f stage rest) :
      Raise s t (.execution (.runFailed f.stepId what))

inductive Step (s : Exec) : Exec → Prop where
  | wake {i t} (hact : s.active = none) (ht : s.tasks[i]? = some t) (hready : s.ready t = true) :
      Step s { s with active := some i }
  | finish {i t} (hact : s.active = some i) (ht : s.tasks[i]? = some t) (hp : t.phase = .head)
      (htarget : t.target = none) :
      Step s (s.put i (t.at_ (.finished t.last))).idle
  | raise {i t e} (hact : s.active = none ∨ s.active = some i) (ht : s.tasks[i]? = some t)
      (hr : Raise P s t e) :
      Step s (s.fail i t e)
  | refuse {i t c e} (hact : s.active = some i) (ht : s.tasks[i]? = some t) (hp : t.phase = .head)
      (htarget : t.target = some c)
      (hv : Executor.visit E wf c t.carried s.state = .fail e) :
      Step s ({ s with visits := s.visits ++ [c] }.fail i t e)
  | invalidInput {i t c node input what} (hact : s.active = some i) (ht : s.tasks[i]? = some t)
      (hp : t.phase = .head) (htarget : t.target = some c)
      (hv : Executor.visit E wf c t.carried s.state = .execute node input) :
      Step s ({ s with
        visits := s.visits ++ [c]
        md := { s.md with currentStepId := some c } }.fail i t (.execution (.runFailed c what)))
  | reuse {i t c output next} (hact : s.active = some i) (ht : s.tasks[i]? = some t)
      (hp : t.phase = .head) (htarget : t.target = some c)
      (hv : Executor.visit E wf c t.carried s.state = .reuse output next) :
      Step s ({ s with visits := s.visits ++ [c] }.put i (t.goto output next))
  | passthrough {i t c output next} (hact : s.active = some i) (ht : s.tasks[i]? = some t)
      (hp : t.phase = .head) (htarget : t.target = some c)
      (hv : Executor.visit E wf c t.carried s.state = .passthrough output next) :
      Step s ({ s with
        visits := s.visits ++ [c]
        state := s.state.record c output }.put i (t.goto output next))
  | mergeEmpty {i t c} (hact : s.active = some i) (ht : s.tasks[i]? = some t)
      (hp : t.phase = .head) (htarget : t.target = some c)
      (hv : Executor.visit E wf c t.carried s.state = .fork []) :
      Step s ({ s with visits := s.visits ++ [c], forks := s.forks ++ [c] }.put i
        (t.at_ (.hooks (mergeFrame c []) .before chain)))
  | fork {i t c targets} (hact : s.active = some i) (ht : s.tasks[i]? = some t)
      (hp : t.phase = .head) (htarget : t.target = some c)
      (hv : Executor.visit E wf c t.carried s.state = .fork targets) :
      Step s { s with
        visits := s.visits ++ [c]
        forks := s.forks ++ [c]
        tasks := s.tasks.set i (t.at_ (.gather
          ((List.range targets.length).map fun k => s.tasks.length + k))) ++
          targets.map (Task.start (Executor.joinTarget wf c) t.carried)
        active := none }
  | enter {i t c node input valid} (hact : s.active = some i) (ht : s.tasks[i]? = some t)
      (hp : t.phase = .head) (htarget : t.target = some c)
      (hv : Executor.visit E wf c t.carried s.state = .execute node input)
      (hvalid : node.validate input = .ok valid) :
      Step s ({ s with
        visits := s.visits ++ [c]
        md := { s.md with currentStepId := some c } }.put i
          (t.at_ (.hooks ⟨c, node, valid⟩ .before chain)))
  | run {i t f} (hact : s.active = some i) (ht : s.tasks[i]? = some t)
      (hp : t.phase = .hooks f .before []) :
      Step s { (s.put i (t.at_ (.running f))).idle with runs := s.runs ++ [f] }
  | complete {i t f output node next} (hact : s.active = some i) (ht : s.tasks[i]? = some t)
      (hp : t.phase = .hooks f (.after output) []) (hnode : wf.step f.stepId = some node)
      (hroute : Executor.route wf node output = .ok next) :
      Step s ({ s with state := s.state.record f.stepId output }.put i (t.goto output next))
  | misroute {i t f output e} (hact : s.active = some i) (ht : s.tasks[i]? = some t)
      (hp : t.phase = .hooks f (.after output) []) :
      Step s ({ s with state := s.state.record f.stepId output }.fail i t (.execution e))
  | emit {i t f stage rest} (hact : s.active = some i) (ht : s.tasks[i]? = some t)
      (hp : t.phase = .hooks f stage (.eventEmitter :: rest)) :
      Step s (s.put i (t.at_ (.emitting f stage rest))).idle
  | hook {i t f stage h rest refusal md evidence} (hact : s.active = some i)
      (ht : s.tasks[i]? = some t) (hp : t.phase = .hooks f stage (h :: rest))
      (hh : h ≠ .eventEmitter)
      (hok : Runner.runHook P h f refusal s.md s.evidence stage = .ok (md, evidence)) :
      Step s { s.put i (t.at_ (.hooks f stage rest)) with md := md, evidence := evidence }
  | join {i t c kids results} (hact : s.active = some i) (ht : s.tasks[i]? = some t)
      (hp : t.phase = .gather kids) (hcur : t.current = some c)
      (hresults : s.gatherResults kids = some results) :
      Step s (s.put i (t.at_ (.hooks (mergeFrame c results) .before chain)))
  | ret {i t f d} (hact : s.active = none) (ht : s.tasks[i]? = some t)
      (hp : t.phase = .running f) :
      Step s { s.put i (t.at_ (.hooks f (.after d) chain.reverse)) with
        active := some i, returned := s.returned ++ [f] }
  | raised {i t f what} (hact : s.active = none) (ht : s.tasks[i]? = some t)
      (hp : t.phase = .running f) :
      Step s { s.put i (t.at_ (.hooks f (.error (.other what)) chain.reverse)) with
        active := some i }
  | emitted {i t f stage rest} (hact : s.active = none) (ht : s.tasks[i]? = some t)
      (hp : t.phase = .emitting f stage rest) :
      Step s { s.put i (t.at_ (.hooks f stage rest)) with active := some i }

variable {E P wf chain} {s s' : Exec}

section Act
variable {i : ℕ} {t : Task} (hact : s.active = some i) (ht : s.tasks[i]? = some t)
include hact ht

theorem visitStep_cases {c : StepId} (hp : t.phase = .head) (htarget : t.target = some c) :
    Step E P wf chain s (visitStep E wf chain s i t c) := by
  unfold visitStep
  cases hv : Executor.visit E wf c t.carried s.state with
  | fail e => exact .refuse hact ht hp htarget hv
  | reuse output next => exact .reuse hact ht hp htarget hv
  | passthrough output next => exact .passthrough hact ht hp htarget hv
  | fork targets =>
      cases targets with
      | nil => exact .mergeEmpty hact ht hp htarget hv
      | cons target targets => simpa [openFork] using Step.fork hact ht hp htarget hv
  | execute node input =>
      simp only [enter]
      cases hvalid : node.validate input with
      | error what => exact .invalidInput hact ht hp htarget hv
      | ok valid => exact .enter hact ht hp htarget hv hvalid

theorem complete_cases {f : Frame} {output : Dict} (hp : t.phase = .hooks f (.after output) []) :
    Step E P wf chain s (complete wf s i t f output) := by
  unfold complete
  cases hnode : wf.step f.stepId with
  | none => exact .misroute hact ht hp
  | some node =>
      simp only
      cases hroute : Executor.route wf node output with
      | ok next => exact .complete hact ht hp hnode hroute
      | error e => exact .misroute hact ht hp

theorem act_cases {refusal : Option String} (h : act E P wf chain s i t refusal = some s') :
    Step E P wf chain s s' := by
  unfold act at h
  split at h
  · next hp =>
      split at h
      · next htarget =>
          cases h
          exact .finish hact ht hp htarget
      · next c htarget =>
          cases h
          exact visitStep_cases hact ht hp htarget
  · next f stage hp =>
      cases h
      cases stage with
      | before => exact .run hact ht hp
      | after output => exact complete_cases hact ht hp
      | error e => exact .raise (.inr hact) ht (.node hp)
  · next f stage hk rest hp =>
      cases h
      unfold callHook
      split
      · next hemit =>
          subst hemit
          exact .emit hact ht hp
      · next hother =>
          split
          · next hok => exact .hook hact ht hp hother hok
          · next hx => exact .raise (.inr hact) ht (.hook hp hx)
  · next kids hp =>
      unfold joinFork at h
      split at h
      · next e he =>
          cases h
          exact .raise (.inr hact) ht (.branch hp he)
      · split at h
        · next hresults hcur =>
            cases h
            exact .join hact ht hp hcur hresults
        · cases h
  · cases h

end Act

theorem step_cases {e : Event} (h : step E P wf chain s e = some s') :
    Step E P wf chain s s' := by
  cases e with
  | wake i =>
      simp only [step] at h
      split at h
      · next hact ht =>
          split at h
          · next hready =>
              cases h
              exact .wake hact ht hready
          · cases h
      · cases h
  | act refusal =>
      simp only [step] at h
      split at h
      · next i hact =>
          obtain ⟨t, ht, hs⟩ := Option.bind_eq_some_iff.mp h
          exact act_cases hact ht hs
      · cases h
  | ret i r =>
      simp only [step] at h
      split at h
      · next hact ht =>
          split at h
          · next f hp =>
              cases h
              cases r with
              | output d => exact .ret hact ht hp
              | invalid what => exact .raise (.inl hact) ht (.badOutput hp)
              | raised what => exact .raised hact ht hp
          · cases h
      · cases h
  | emitted i error =>
      simp only [step] at h
      split at h
      · next hact ht =>
          split at h
          · next f stage rest hp =>
              cases h
              cases error with
              | none => exact .emitted hact ht hp
              | some what => exact .raise (.inl hact) ht (.emission hp)
          · cases h
      · cases h

theorem execute_ok {resume : Option WorkflowState} {approved : List StepId}
    {evidence : List EvidenceEntry} {input : Payload}
    (h : execute wf resume approved evidence input = .ok s) :
    ∃ entry, s = Exec.start
        (match resume with
          | some st => { st with completedSteps := st.nodesExecuted }
          | none => .fresh input.rawBase) approved evidence input entry ∧
      Executor.findEntryId wf = .ok entry := by
  obtain ⟨entry, hentry, heq⟩ := Except.bind_ok_iff.mp h
  cases heq
  exact ⟨entry, rfl, hentry⟩

end EventLoop

end BTagent
