import BTagent.Engine.Completion
import Mathlib.Logic.Relation

namespace BTagent

-- The loop variables of the outermost walk with what it shares with the hooks.
structure Walker where
  current : Option StepId
  carried : Payload
  last : Option Dict
  state : WorkflowState
  md : Metadata
  evidence : List EvidenceEntry

namespace Walker

def goto (w : Walker) (output : Dict) (next : Option StepId) : Walker :=
  { w with current := next, carried := .model output, last := some output }

def record (w : Walker) (c : StepId) (output : Dict) : Walker :=
  { w with state := w.state.record c output }

def stamp (w : Walker) (c : StepId) : Walker := { w with md := { w.md with currentStepId := some c } }

def hooked (w : Walker) (acc : Metadata × List EvidenceEntry) : Walker :=
  { w with md := acc.1, evidence := acc.2 }

def task (w : Walker) (p : Phase) : Task := ⟨w.current, w.carried, w.last, none, p⟩

def start (st : WorkflowState) (approved : List StepId) (evidence : List EvidenceEntry)
    (payload : Payload) (entry : StepId) : Walker :=
  ⟨some entry, payload, none, st, ⟨none, approved, none, none, none⟩, evidence⟩

end Walker

namespace EventLoop

section Drive
variable (E : Engine) (P : Posture) (wf : Workflow) (run : String → Dict → Except String Dict)

def answer (f : Frame) : Returned :=
  match Executor.runNode E run f.node.id f.input with
  | .ok output => .output output
  | .error what => .raised what

-- The next step of an execution without branches in which every node computes `run`.
def drive (s : Exec) : Option Exec :=
  match s.active with
  | some _ => step E P wf backendChain s (.act none)
  | none =>
      match s.phase? 0 with
      | some (.running f) => step E P wf backendChain s (.ret 0 (answer E run f))
      | _ => none

def Drives : Exec → Exec → Prop := Relation.ReflTransGen fun s s' => drive E P wf run s = some s'

def settle : ℕ → Exec → Exec
  | 0, s => s
  | n + 1, s =>
      match drive E P wf run s with
      | none => s
      | some s' => settle n s'

-- How an execution ends, if it does within `n` steps.
def conclusion (n : ℕ) (s : Exec) : Option (Exec × Except Failure (Option Dict)) :=
  let s' := settle E P wf run n s
  if s'.active = none then s'.ended.map fun r => (s', r) else none

structure Ends (s s' : Exec) (r : Except Failure (Option Dict)) : Prop where
  drives : Drives E P wf run s s'
  idle : s'.active = none
  ended : s'.ended = some r

def passHooks (f : Frame) (stage : Stage) : List Hook → Metadata × List EvidenceEntry →
    Except NodeException (Metadata × List EvidenceEntry)
  | [], acc => .ok acc
  | h :: hs, acc =>
      match Runner.runHook P h f none acc.1 acc.2 stage with
      | .ok acc => passHooks f stage hs acc
      | .error x => .error x

def conclude (w : Walker) (c : StepId) (output : Dict) : Except Failure Walker :=
  match wf.step c with
  | none => .error (.execution (.unknownStep c))
  | some node =>
      match Executor.route wf node output with
      | .ok next => .ok ((w.record c output).goto output next)
      | .error e => .error (.execution e)

def attend (w : Walker) (f : Frame) : Except Failure Walker :=
  match passHooks P f .before backendChain (w.md, w.evidence) with
  | .error x => .error (x.wrap f.stepId)
  | .ok acc =>
      match Executor.runNode E run f.node.id f.input with
      | .error what => .error (.execution (.runFailed f.stepId what))
      | .ok output =>
          match passHooks P f (.after output) backendChain.reverse acc with
          | .error x => .error (x.wrap f.stepId)
          | .ok acc => conclude wf (w.hooked acc) f.stepId output

def turn (w : Walker) (c : StepId) : Except Failure Walker :=
  match Executor.visit E wf c w.carried w.state with
  | .fail e => .error e
  | .reuse output next => .ok (w.goto output next)
  | .passthrough output next => .ok ((w.record c output).goto output next)
  | .fork _ => attend E P wf run w (mergeFrame c [])
  | .execute node input =>
      match node.validate input with
      | .error what => .error (.execution (.runFailed c what))
      | .ok input => attend E P wf run (w.stamp c) ⟨c, node, input⟩

end Drive

structure At (s : Exec) (w : Walker) (p : Phase) : Prop where
  state : s.state = w.state
  md : s.md = w.md
  evidence : s.evidence = w.evidence
  tasks : s.tasks = [w.task p]
  active : s.active = some 0

variable {E : Engine} {P : Posture} {wf : Workflow} {run : String → Dict → Except String Dict}
  {s s' : Exec} {w w' : Walker} {p : Phase} {f : Frame} {stage : Stage} {c : StepId}
  {output : Dict} {r : Except Failure (Option Dict)}

theorem Drives.single (h : drive E P wf run s = some s') : Drives E P wf run s s' :=
  Relation.ReflTransGen.single h

theorem Ends.after {s₀ : Exec} (h : Drives E P wf run s₀ s) (he : Ends E P wf run s s' r) :
    Ends E P wf run s₀ s' r :=
  ⟨h.trans he.drives, he.idle, he.ended⟩

theorem settle_drives {n : ℕ} : Drives E P wf run s (settle E P wf run n s) := by
  induction n generalizing s with
  | zero => exact .refl
  | succ n ih =>
      simp only [settle]
      split
      · exact .refl
      · next s' hs' => exact .head hs' ih

theorem ends_of_conclusion {n : ℕ} (h : conclusion E P wf run n s = some (s', r)) :
    Ends E P wf run s s' r := by
  simp only [conclusion] at h
  split at h
  · next hidle =>
      obtain ⟨r', hr', heq⟩ := Option.map_eq_some_iff.mp h
      cases heq
      exact ⟨settle_drives, hidle, hr'⟩
  · cases h

section Act

theorem drive_act (h : At s w p) :
    drive E P wf run s = act E P wf backendChain s 0 (w.task p) none := by
  simp [drive, step, h.active, h.tasks]

theorem At.put (h : At s w p) (t : Task) : (s.put 0 t).tasks = [t] := by
  simp [h.tasks]

theorem ends_fail {e : Failure} {t : Task} (h : At s w p) (hstate : s'.tasks = s.tasks)
    (hd : drive E P wf run s = some (s'.fail 0 t e)) : Ends E P wf run s (s'.fail 0 t e) (.error e) := by
  refine ⟨Drives.single hd, rfl, ?_⟩
  simp [Exec.ended, Exec.phase?, hstate, h.tasks, Phase.ended]

theorem ends_finish (h : At s w .head) (hc : w.current = none) :
    ∃ s', Ends E P wf run s s' (.ok w.last) ∧ s'.state = w.state := by
  have htarget : (w.task .head).target = none := by simp [Task.target, Walker.task, hc]
  have hd : drive E P wf run s =
      some (s.put 0 ((w.task .head).at_ (.finished (w.task .head).last))).idle := by
    rw [drive_act h]
    simp only [act, Walker.task] at htarget ⊢
    rw [htarget]
  refine ⟨_, ⟨Drives.single hd, rfl, ?_⟩, h.state⟩
  simp [Exec.ended, Exec.phase?, h.tasks, Phase.ended, Walker.task]

section Hooks
variable {h : Hook} {hooks : List Hook} {acc : Metadata × List EvidenceEntry} {x : NodeException}

theorem drive_hook (hne : h ≠ .eventEmitter) (hat : At s w (.hooks f stage (h :: hooks)))
    (hok : Runner.runHook P h f none w.md w.evidence stage = .ok acc) :
    ∃ s', Drives E P wf run s s' ∧ At s' (w.hooked acc) (.hooks f stage hooks) := by
  have hd : drive E P wf run s = some { s.put 0 (w.task (.hooks f stage hooks)) with
      md := acc.1, evidence := acc.2 } := by
    rw [drive_act hat]
    simp only [act, Walker.task, callHook, hne, if_false, hat.md, hat.evidence, hok]
    rfl
  exact ⟨_, Drives.single hd, hat.state, rfl, rfl, hat.put _, hat.active⟩

theorem ends_hook (hne : h ≠ .eventEmitter) (hat : At s w (.hooks f stage (h :: hooks)))
    (hx : Runner.runHook P h f none w.md w.evidence stage = .error x) :
    ∃ s', Ends E P wf run s s' (.error (x.wrap f.stepId)) ∧ s'.state = w.state := by
  have hd : drive E P wf run s =
      some (s.fail 0 (w.task (.hooks f stage (h :: hooks))) (x.wrap f.stepId)) := by
    rw [drive_act hat]
    simp only [act, Walker.task, callHook, hne, if_false, hat.md, hat.evidence, hx]
  exact ⟨_, ends_fail hat rfl hd, hat.state⟩

theorem hooks_pass (hemit : Hook.eventEmitter ∉ hooks) (hat : At s w (.hooks f stage hooks))
    (hok : passHooks P f stage hooks (w.md, w.evidence) = .ok acc) :
    ∃ s', Drives E P wf run s s' ∧ At s' (w.hooked acc) (.hooks f stage []) := by
  induction hooks generalizing s w with
  | nil =>
      cases hok
      exact ⟨s, .refl, hat⟩
  | cons h hooks ih =>
      simp only [List.mem_cons, not_or] at hemit
      simp only [passHooks] at hok
      split at hok
      · next acc' hx =>
          obtain ⟨s₁, hs₁, hat₁⟩ := drive_hook (fun heq => hemit.1 heq.symm) hat hx
          obtain ⟨s₂, hs₂, hat₂⟩ := ih hemit.2 hat₁ hok
          exact ⟨s₂, hs₁.trans hs₂, hat₂⟩
      · cases hok

theorem hooks_fail (hemit : Hook.eventEmitter ∉ hooks) (hat : At s w (.hooks f stage hooks))
    (hx : passHooks P f stage hooks (w.md, w.evidence) = .error x) :
    ∃ s', Ends E P wf run s s' (.error (x.wrap f.stepId)) ∧ s'.state = w.state := by
  induction hooks generalizing s w with
  | nil => cases hx
  | cons h hooks ih =>
      simp only [List.mem_cons, not_or] at hemit
      have hne : h ≠ .eventEmitter := fun heq => hemit.1 heq.symm
      simp only [passHooks] at hx
      split at hx
      · next acc hok =>
          obtain ⟨s₁, hs₁, hat₁⟩ := drive_hook hne hat hok
          obtain ⟨s₂, hs₂, hstate⟩ := ih hemit.2 hat₁ hx
          exact ⟨s₂, hs₂.after hs₁, hstate⟩
      · next hfail =>
          cases hx
          exact ends_hook hne hat hfail

theorem passHooks_error {y : NodeException} : passHooks P f (.error y) hooks acc = .ok acc := by
  induction hooks with
  | nil => rfl
  | cons h hooks ih => exact ih

end Hooks

end Act

section Turn

def Turns (E : Engine) (P : Posture) (wf : Workflow) (run : String → Dict → Except String Dict)
    (s : Exec) (w : Walker) : Except Failure Walker → Prop
  | .ok w' => ∃ s', Drives E P wf run s s' ∧ At s' w' .head
  | .error e => ∃ s', Ends E P wf run s s' (.error e) ∧
      ∀ c p, e = .paused c p → s'.state = w.state

theorem Turns.after {s₀ : Exec} {r : Except Failure Walker} (h : Drives E P wf run s₀ s)
    (ht : Turns E P wf run s w r) (hstate : w.state = w'.state) : Turns E P wf run s₀ w' r := by
  cases r with
  | ok w'' =>
      obtain ⟨s', hs', hat⟩ := ht
      exact ⟨s', h.trans hs', hat⟩
  | error e =>
      obtain ⟨s', hs', hpaused⟩ := ht
      exact ⟨s', hs'.after h, fun c p he => (hpaused c p he).trans hstate⟩

theorem turns_fail {e : Failure} (h : ∃ s', Ends E P wf run s s' (.error e) ∧ s'.state = w.state) :
    Turns E P wf run s w (.error e) := by
  obtain ⟨s', hs', hstate⟩ := h
  exact ⟨s', hs', fun _ _ _ => hstate⟩

theorem conclude_turns (hat : At s w (.hooks f (.after output) [])) :
    Turns E P wf run s w (conclude wf w f.stepId output) := by
  have hact : drive E P wf run s = _ := drive_act hat
  simp only [act, Walker.task, leaveStage, complete] at hact
  unfold conclude
  split
  · next hnode =>
      simp only [hnode] at hact
      exact ⟨_, ends_fail hat (by simp) hact, fun _ _ he => by cases he⟩
  · next node hnode =>
      simp only [hnode] at hact
      split
      · next next hroute =>
          simp only [hroute] at hact
          refine ⟨_, Drives.single hact, ?_, hat.md, hat.evidence, hat.put _, hat.active⟩
          change s.state.record f.stepId output = w.state.record f.stepId output
          rw [hat.state]
      · next e hroute =>
          simp only [hroute] at hact
          exact ⟨_, ends_fail hat (by simp) hact, fun _ _ he => by cases he⟩

theorem drive_running (hp : s.phase? 0 = some (.running f)) (hidle : s.active = none)
    (htasks : s.tasks = [w.task (.running f)]) :
    drive E P wf run s =
      some (returnRun backendChain s 0 (w.task (.running f)) f (answer E run f)) := by
  simp [drive, hidle, hp, step, htasks, Walker.task]

theorem drive_run (hat : At s w (.hooks f .before [])) :
    ∃ s', Drives E P wf run s s' ∧ At s' w (.hooks f
      (match Executor.runNode E run f.node.id f.input with
        | .ok output => .after output
        | .error what => .error (.other what)) backendChain.reverse) := by
  have hact : drive E P wf run s = _ := drive_act hat
  simp only [act, Walker.task, leaveStage] at hact
  have hret : drive E P wf run { (s.put 0 (w.task (.running f))).idle with
      runs := s.runs ++ [f] } = _ :=
    drive_running (by simp [Exec.phase?, hat.tasks, Walker.task]) rfl (hat.put _)
  have hdrives := (Drives.single hact).trans (Drives.single hret)
  cases hr : Executor.runNode E run f.node.id f.input with
  | ok output =>
      simp only [answer, hr, returnRun] at hdrives
      exact ⟨_, hdrives, hat.state, hat.md, hat.evidence, by simp [hat.tasks, Walker.task, Task.at_],
        rfl⟩
  | error what =>
      simp only [answer, hr, returnRun] at hdrives
      exact ⟨_, hdrives, hat.state, hat.md, hat.evidence, by simp [hat.tasks, Walker.task, Task.at_],
        rfl⟩

theorem attend_turns (hat : At s w (.hooks f .before backendChain)) :
    Turns E P wf run s w (attend E P wf run w f) := by
  unfold attend
  split
  · next hx => exact turns_fail (hooks_fail (by decide) hat hx)
  · next acc hok =>
      obtain ⟨s₁, hs₁, hat₁⟩ := hooks_pass (by decide) hat hok
      obtain ⟨s₂, hs₂, hat₂⟩ : ∃ s₂, Drives E P wf run s₁ s₂ ∧ _ := drive_run hat₁
      refine Turns.after (hs₁.trans hs₂) ?_ (w := w.hooked acc) rfl
      split
      · next what hr =>
          rw [hr] at hat₂
          obtain ⟨s₃, hs₃, hat₃⟩ := hooks_pass (by decide) hat₂ passHooks_error
          refine Turns.after hs₃ (turns_fail ?_) (w := (w.hooked acc).hooked _) rfl
          have hact : drive E P wf run s₃ = _ := drive_act hat₃
          simp only [act, Walker.task, leaveStage] at hact
          exact ⟨_, ends_fail hat₃ rfl hact, hat₃.state⟩
      · next output hr =>
          rw [hr] at hat₂
          split
          · next hx => exact turns_fail (hooks_fail (by decide) hat₂ hx)
          · next acc' hok' =>
              obtain ⟨s₃, hs₃, hat₃⟩ := hooks_pass (by decide) hat₂ hok'
              exact Turns.after hs₃ (conclude_turns hat₃) rfl

theorem turn_turns (hat : At s w .head) (hc : w.current = some c)
    (hfork : ∀ targets, Executor.visit E wf c w.carried w.state = .fork targets → targets = []) :
    Turns E P wf run s w (turn E P wf run w c) := by
  have htarget : (w.task .head).target = some c := Task.target_eq_some.mpr ⟨hc, by simp [Walker.task]⟩
  have hact : drive E P wf run s =
      some (visitStep E wf backendChain s 0 (w.task .head) c) := by
    rw [drive_act hat]
    simp only [act, Walker.task] at htarget ⊢
    rw [htarget]
  unfold visitStep at hact
  unfold turn
  cases hv : Executor.visit E wf c w.carried w.state with
  | fail e =>
      rw [← hat.state] at hv
      simp only [Walker.task, hv] at hact
      exact turns_fail ⟨_, ends_fail hat (by simp) hact, hat.state⟩
  | reuse output next =>
      rw [← hat.state] at hv
      simp only [Walker.task, hv] at hact
      exact ⟨_, Drives.single hact, hat.state, hat.md, hat.evidence, hat.put _, hat.active⟩
  | passthrough output next =>
      rw [← hat.state] at hv
      simp only [Walker.task, hv] at hact
      have hrecord : s.state.record c output = w.state.record c output := by rw [hat.state]
      exact ⟨_, Drives.single hact, hrecord, hat.md, hat.evidence, hat.put _, hat.active⟩
  | fork targets =>
      obtain rfl := hfork targets hv
      rw [← hat.state] at hv
      simp only [Walker.task, hv, openFork] at hact
      refine Turns.after (Drives.single hact) (attend_turns ?_) rfl
      exact ⟨hat.state, hat.md, hat.evidence, hat.put _, hat.active⟩
  | execute node input =>
      rw [← hat.state] at hv
      simp only [Walker.task, hv, enter] at hact ⊢
      cases hvalid : node.validate input with
      | error what =>
          simp only [hvalid] at hact
          exact turns_fail ⟨_, ends_fail hat (by simp) hact, hat.state⟩
      | ok valid =>
          simp only [hvalid] at hact
          refine Turns.after (Drives.single hact) (attend_turns ?_) (w := w.stamp c) rfl
          exact ⟨hat.state, by simp [Walker.stamp, hat.md], hat.evidence, hat.put _, hat.active⟩

end Turn

end EventLoop

end BTagent
