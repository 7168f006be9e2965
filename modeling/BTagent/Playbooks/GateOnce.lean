import BTagent.Lib.Slots
import BTagent.Playbooks.Execution

namespace BTagent

namespace PlaybookRun

open PlaybookService

variable {P : Compiler.Deps} {D : List PlaybookStep} {s s' : PlaybookRun} {i : ℕ}

def dispatched (P : Compiler.Deps) (yaml : String) : List PlaybookStep :=
  match compilePlaybook P yaml with
  | .ok definition => definition.steps
  | .error _ => []

def Live : StepWalker → Prop
  | .over => False
  | .starting .. | .walking .. | .sleeping .. => True

def Resuming : Decision → Prop
  | .resuming .. => True
  | .deciding .. | .over => False

-- Every pause has one decision, and one walk after an approval; a step is reached after the gates
-- before it were approved, in the order of the definition; and what is RUNNING has a walk.
structure ResolvedOnce (D : List PlaybookStep) (s : PlaybookRun) : Prop where
  decidedOnce : (s.decided.map Prod.fst).Nodup
  decidedPaused : ∀ x ∈ s.decided, ∃ gate ∈ s.ran, gate.type = .hitlGate ∧ gate.id = x.1
  walkedOnce : s.resumed.Nodup
  walkedApproved : ∀ gateId ∈ s.resumed, (gateId, true) ∈ s.decided
  gated : ∀ before step after, s.ran = before ++ step :: after →
    ∀ gate ∈ before, gate.type = .hitlGate → (gate.id, true) ∈ s.decided
  ofDefinition : s.ran <+: D
  ranOnce : (s.ran.map (·.id)).Nodup
  walked : s.row.status = .RUNNING →
    (∃ w ∈ s.walkers, Live w) ∨ ∃ d ∈ s.decisions, Resuming d

-- A decision is written on the pause that it read; and a walk goes on in the steps that the
-- definition it was dispatched with has next.
def InTurn (P : Compiler.Deps) (yaml : String) (s : PlaybookRun) : PlaybookEvent → Prop
  | .writeDecision d =>
      match s.decisions[d]? with
      | some (.deciding gateId ..) => s.row.status = .PAUSED_HITL ∧
          (s.row.stepResults.get? gateId).any (·.output.awaits)
      | _ => True
  | .resume d =>
      match s.decisions[d]? with
      | some (.resuming gateId _) =>
          (compilePlaybook P s.yamlContent).toOption.bind (stepsUntilGate · (some gateId)) =
            (compilePlaybook P yaml).toOption.bind (stepsUntilGate · (some gateId))
      | _ => True
  | _ => True

section Segments

theorem untilGate_cons {step : PlaybookStep} {pending all : List PlaybookStep} (h : untilGate all = step :: pending) :
    ∃ rest, all = step :: rest ∧ (step.type ≠ .hitlGate → pending = untilGate rest) := by
  cases all with
  | nil => cases h
  | cons first others =>
      rw [untilGate] at h
      split at h
      · next hgate =>
          cases h
          exact ⟨others, rfl, fun hne => absurd hgate hne⟩
      · cases h
        exact ⟨others, rfl, fun _ => rfl⟩

theorem stepsUntilGate_after {definition : PlaybookDefinition} {before rest : List PlaybookStep}
    {gate : PlaybookStep} (hsteps : definition.steps = before ++ gate :: rest)
    (hnodup : (definition.steps.map (·.id)).Nodup) :
    stepsUntilGate definition (some gate.id) = some (untilGate rest) := by
  have hids : definition.steps.map (·.id) =
      before.map (·.id) ++ gate.id :: rest.map (·.id) := by
    rw [hsteps, List.map_append, List.map_cons]
  have hnew : gate.id ∉ before.map (·.id) := by
    rw [hids] at hnodup
    have hdisjoint := (List.nodup_append.mp hnodup).2.2
    intro hmem
    exact hdisjoint gate.id hmem gate.id List.mem_cons_self rfl
  have hindex : (definition.steps.map (·.id)).idxOf gate.id = before.length := by
    rw [hids, List.idxOf_append_of_notMem hnew, List.idxOf_cons_self, List.length_map,
      Nat.add_zero]
  have hmem : gate.id ∈ definition.steps.map (·.id) := by
    rw [hids]
    simp
  simp only [stepsUntilGate]
  rw [if_pos hmem, hindex, hsteps, List.drop_length_add_append]
  rfl

end Segments

def Quiet (results : StepResults) (but : Option StepId) : Prop :=
  ∀ k result, results.get? k = some result → some k ≠ but → result.output.awaits = false

section Quiet
variable {results : StepResults} {but : Option StepId} {k : StepId} {result : StepResult}

theorem quiet_empty : Quiet .empty none := by
  intro k result h
  cases h

theorem Quiet.set (h : Quiet results but) (hresult : result.output.awaits = false)
    (hbut : but = none ∨ but = some k) : Quiet (results.set k result) none := by
  intro j other hj _
  rcases eq_or_ne j k with rfl | hne
  · rw [OrderedDict.get?_set_self] at hj
    cases hj
    exact hresult
  · rw [OrderedDict.get?_set_ne _ _ hne] at hj
    apply h j other hj
    rcases hbut with rfl | rfl
    · intro heq
      cases heq
    · intro heq
      exact hne (Option.some.inj heq)

theorem Quiet.pause (h : Quiet results none) : Quiet (results.set k result) (some k) := by
  intro j other hj hne
  have hjk : j ≠ k := by
    rintro rfl
    exact hne rfl
  rw [OrderedDict.get?_set_ne _ _ hjk] at hj
  apply h j other hj
  intro heq
  cases heq

theorem Quiet.eq_of_awaits (h : Quiet results (some k)) {j : StepId}
    (hj : results.get? j = some result) (hawaits : result.output.awaits = true) : j = k := by
  by_contra hne
  have hquiet := h j result hj fun heq => hne (Option.some.inj heq)
  rw [hquiet] at hawaits
  cases hawaits

theorem awaitingGate_spec (h : awaitingGate results = some (k, result)) :
    results.get? k = some result ∧ result.output.awaits = true := by
  have hmem : (k, result) ∈ results.entries :=
    (List.perm_insertionSort _ _).mem_iff.mp (List.mem_of_find?_eq_some h)
  have hfind : (Jsonb.sortKeys results.entries).find?
      (fun entry : StepId × StepResult => entry.2.output.awaits) = some (k, result) := h
  have hawaits := List.find?_some hfind
  exact ⟨OrderedDict.mem_entries_iff.mp hmem, hawaits⟩

end Quiet

-- Where a walk stands: it will run what follows the steps that were run, up to the next gate.
def WalkerAt (P : Compiler.Deps) (D ran : List PlaybookStep) : StepWalker → Prop
  | .starting yaml resumeAfter results => Quiet results none ∧ ∃ rest, D = ran ++ rest ∧
      ∀ definition, compilePlaybook P yaml = .ok definition →
        stepsUntilGate definition resumeAfter = some (untilGate rest)
  | .walking pending results => Quiet results none ∧ ∃ rest, D = ran ++ rest ∧
      pending = untilGate rest
  | .sleeping _ pending results => Quiet results none ∧ ∃ rest, D = ran ++ rest ∧
      pending = untilGate rest
  | .over => True

def Approved (ran : List PlaybookStep) (decided : List (StepId × Bool)) : Prop :=
  ∀ gate ∈ ran, gate.type = .hitlGate → (gate.id, true) ∈ decided

-- A pause: the last step that was reached is a gate that waits, and nobody has decided on it.
structure PausedAt (ran : List PlaybookStep) (results : StepResults)
    (decided : List (StepId × Bool)) (before : List PlaybookStep) (gate : PlaybookStep) :
    Prop where
  last : ran = before ++ [gate]
  isGate : gate.type = .hitlGate
  quiet : Quiet results (some gate.id)
  approved : Approved before decided
  undecided : gate.id ∉ decided.map Prod.fst

structure Sound (P : Compiler.Deps) (D : List PlaybookStep) (s : PlaybookRun) : Prop where
  oneWalker : Slots.AtMostOne Live s.walkers
  oneResume : Slots.AtMostOne Resuming s.decisions
  apart : ∀ w ∈ s.walkers, Live w → ∀ d ∈ s.decisions, ¬ Resuming d
  busy : s.row.status = .RUNNING ↔
    (∃ w ∈ s.walkers, Live w) ∨ ∃ d ∈ s.decisions, Resuming d
  walks : ∀ w ∈ s.walkers, Live w → WalkerAt P D s.ran w
  decides : ∀ gateId approved results now, Decision.deciding gateId approved results now ∈
    s.decisions → Quiet results none
  resumes : ∀ gateId results, Decision.resuming gateId results ∈ s.decisions →
    Quiet results none ∧ gateId ∉ s.resumed ∧ (gateId, true) ∈ s.decided ∧
      ∃ before gate, s.ran = before ++ [gate] ∧ gate.id = gateId
  running : s.row.status = .RUNNING → Approved s.ran s.decided
  paused : s.row.status = .PAUSED_HITL →
    ∃ before gate, PausedAt s.ran s.row.stepResults s.decided before gate
  decidedOnce : (s.decided.map Prod.fst).Nodup
  decidedPaused : ∀ x ∈ s.decided, ∃ gate ∈ s.ran, gate.type = .hitlGate ∧ gate.id = x.1
  walkedOnce : s.resumed.Nodup
  walkedApproved : ∀ gateId ∈ s.resumed, (gateId, true) ∈ s.decided
  gated : ∀ before step after, s.ran = before ++ step :: after → Approved before s.decided
  ofDefinition : s.ran <+: D

section Sound

theorem Sound.resolvedOnce (h : Sound P D s) (hnodup : (D.map (·.id)).Nodup) :
    ResolvedOnce D s where
  decidedOnce := h.decidedOnce
  decidedPaused := h.decidedPaused
  walkedOnce := h.walkedOnce
  walkedApproved := h.walkedApproved
  gated := h.gated
  ofDefinition := h.ofDefinition
  ranOnce := hnodup.sublist (h.ofDefinition.sublist.map _)
  walked := h.busy.mp

theorem sound_dispatch (yaml : String) : Sound P (dispatched P yaml) (dispatch yaml) where
  oneWalker := by
    have hnone : ∀ w ∈ ([] : List StepWalker), ¬ Live w := by
      intro w hw
      cases hw
    exact Slots.AtMostOne.append_alone hnone
  oneResume := by
    intro i j a b hi
    cases hi
  apart := by
    intro w _ _ d hd
    cases hd
  busy := ⟨fun _ => Or.inl ⟨_, List.mem_singleton_self _, trivial⟩, fun _ => rfl⟩
  walks := by
    intro w hw _
    obtain rfl := List.mem_singleton.mp hw
    refine ⟨quiet_empty, dispatched P yaml, rfl, ?_⟩
    intro definition hok
    rw [dispatched, hok]
    rfl
  decides := by
    intro gateId approved results now hd
    cases hd
  resumes := by
    intro gateId results hd
    cases hd
  running := by
    intro _ gate hgate
    cases hgate
  paused := by
    intro hpaused
    cases hpaused
  decidedOnce := List.nodup_nil
  decidedPaused := by
    intro x hx
    cases hx
  walkedOnce := List.nodup_nil
  walkedApproved := by
    intro gateId hgate
    cases hgate
  gated := by
    intro before step after heq
    simp [dispatch] at heq
  ofDefinition := List.nil_prefix

section Walks
variable {w : StepWalker} (w' : StepWalker) (row : PlaybookExecutionRow)
  (new : List PlaybookStep)

theorem Sound.running_of_live (h : Sound P D s) (hw : w ∈ s.walkers) (hlive : Live w) :
    s.row.status = .RUNNING :=
  h.busy.mpr (Or.inl ⟨w, hw, hlive⟩)

theorem Sound.live_only (h : Sound P D s) (hw : s.walkers[i]? = some w) (hlive : Live w)
    {w' v : StepWalker} (hv : v ∈ s.walkers.set i w') (hvlive : Live v) : v = w' := by
  obtain ⟨j, hj⟩ := List.getElem?_of_mem hv
  rcases Slots.getElem?_set_cases hj with ⟨-, rfl⟩ | ⟨hne, hold⟩
  · rfl
  · exact absurd (h.oneWalker j i v w hold hw hvlive hlive) hne

theorem Sound.move (h : Sound P D s) (hw : s.walkers[i]? = some w) (hlive : Live w)
    (hrow : row.status = .RUNNING ↔ Live w')
    (hat : Live w' → WalkerAt P D (s.ran ++ new) w')
    (hgates : Live w' → ∀ step ∈ new, step.type ≠ .hitlGate)
    (hpaused : row.status = .PAUSED_HITL →
      ∃ before gate, PausedAt (s.ran ++ new) row.stepResults s.decided before gate)
    (hnew : new.length ≤ 1) (hreach : s.ran ++ new <+: D) :
    Sound P D { s with walkers := s.walkers.set i w', row := row, ran := s.ran ++ new } := by
  have hrunning := h.running_of_live (List.mem_of_getElem? hw) hlive
  have hnoResume := h.apart w (List.mem_of_getElem? hw) hlive
  have hlt : i < s.walkers.length := (List.getElem?_eq_some_iff.mp hw).1
  constructor
  · exact h.oneWalker.set hw fun _ => hlive
  · exact h.oneResume
  · intro v hv hvlive d hd
    exact hnoResume d hd
  · constructor
    · intro hstatus
      exact Or.inl ⟨w', List.mem_set hlt _, hrow.mp hstatus⟩
    · rintro (⟨v, hv, hvlive⟩ | ⟨d, hd, hresuming⟩)
      · obtain rfl := h.live_only hw hlive hv hvlive
        exact hrow.mpr hvlive
      · exact absurd hresuming (hnoResume d hd)
  · intro v hv hvlive
    obtain rfl := h.live_only hw hlive hv hvlive
    exact hat hvlive
  · exact h.decides
  · intro gateId results hd
    exact absurd trivial (hnoResume _ hd)
  · intro hstatus gate hgate hisGate
    rcases List.mem_append.mp hgate with hold | hnewGate
    · exact h.running hrunning gate hold hisGate
    · exact absurd hisGate (hgates (hrow.mp hstatus) gate hnewGate)
  · exact hpaused
  · exact h.decidedOnce
  · intro x hx
    obtain ⟨gate, hgate, hisGate⟩ := h.decidedPaused x hx
    exact ⟨gate, List.mem_append_left _ hgate, hisGate⟩
  · exact h.walkedOnce
  · exact h.walkedApproved
  · intro before step after heq gate hgate hisGate
    -- One step more was started at most, so what came before it had been run already.
    have hold : gate ∈ s.ran := by
      have hsplit := congrArg List.length heq
      simp only [List.length_append, List.length_cons] at hsplit
      have hall : before <+: s.ran ++ new := by
        rw [show s.ran ++ new = before ++ step :: after from heq]
        exact List.prefix_append _ _
      have hbefore : before <+: s.ran :=
        List.prefix_of_prefix_length_le hall (List.prefix_append _ _) (by omega)
      exact hbefore.subset hgate
    exact h.running hrunning gate hold hisGate
  · exact hreach

theorem Sound.stop (h : Sound P D s) (hw : s.walkers[i]? = some w) (hlive : Live w)
    (hrow : row.status ≠ .RUNNING) (hpaused : row.status ≠ .PAUSED_HITL) :
    Sound P D { s.setWalker i .over with row := row } := by
  have hmove := h.move .over row [] hw hlive ⟨fun hstatus => absurd hstatus hrow, False.elim⟩
    False.elim False.elim (fun hstatus => absurd hstatus hpaused) (Nat.zero_le 1)
  rw [List.append_nil] at hmove
  exact hmove h.ofDefinition

theorem Sound.goOn (h : Sound P D s) (hw : s.walkers[i]? = some w) (hlive : Live w)
    (hlive' : Live w') (hrow : row.status = .RUNNING) (hat : WalkerAt P D s.ran w') :
    Sound P D { s.setWalker i w' with row := row } := by
  have hmove := h.move w' row [] hw hlive ⟨fun _ => hlive', fun _ => hrow⟩
  rw [List.append_nil] at hmove
  apply hmove (fun _ => hat)
  · intro _ step hstep
    cases hstep
  · intro hstatus
    rw [hrow] at hstatus
    cases hstatus
  · exact Nat.zero_le 1
  · exact h.ofDefinition

theorem sound_begin {yaml : String} {resumeAfter : Option StepId} {results : StepResults}
    {now : Timestamp} (h : Sound P D s)
    (hw : s.walkers[i]? = some (.starting yaml resumeAfter results)) :
    Sound P D (begin P s i yaml resumeAfter results now) := by
  have hmem := List.mem_of_getElem? hw
  have hrunning := h.running_of_live hmem trivial
  obtain ⟨hquiet, rest, hD, hnext⟩ := h.walks _ hmem trivial
  rw [begin]
  cases hcompile : compilePlaybook P yaml with
  | error why =>
      apply h.stop _ hw trivial
      · intro hstatus
        cases hstatus
      · intro hstatus
        cases hstatus
  | ok definition =>
      dsimp only
      rw [hnext definition hcompile]
      exact h.goOn (.walking _ _) s.row hw trivial trivial hrunning ⟨hquiet, rest, hD, rfl⟩

theorem sound_advance {pending : List PlaybookStep} {results : StepResults} {now : Timestamp}
    (h : Sound P D s) (hnodup : (D.map (·.id)).Nodup)
    (hw : s.walkers[i]? = some (.walking pending results)) :
    Sound P D (s.advance i pending results now) := by
  have hmem := List.mem_of_getElem? hw
  have hrunning := h.running_of_live hmem trivial
  obtain ⟨hquiet, rest, hD, hpending⟩ := h.walks _ hmem trivial
  cases pending with
  | nil =>
      apply h.stop _ hw trivial
      · intro hstatus
        cases hstatus
      · intro hstatus
        cases hstatus
  | cons step pending =>
      obtain ⟨others, rfl, hothers⟩ := untilGate_cons hpending.symm
      have hreach : s.ran ++ [step] <+: D := by
        rw [hD]
        exact ⟨others, by simp⟩
      rw [PlaybookRun.advance]
      by_cases hgate : step.type = .hitlGate
      · rw [if_pos hgate]
        apply h.move .over _ [step] hw trivial
        · exact ⟨fun hstatus => (by cases hstatus), False.elim⟩
        · exact False.elim
        · exact False.elim
        · intro _
          refine ⟨s.ran, step, rfl, hgate, hquiet.pause, h.running hrunning, ?_⟩
          -- A decision would be on a gate that was run before, and the ids are different.
          intro hdecided
          obtain ⟨x, hx, hid⟩ := List.mem_map.mp hdecided
          obtain ⟨gate, hran, -, hgateId⟩ := h.decidedPaused x hx
          rw [hD, List.map_append] at hnodup
          have hdisjoint := (List.nodup_append.mp hnodup).2.2
          apply hdisjoint gate.id (List.mem_map_of_mem hran) step.id (by simp)
          rw [hgateId, hid]
        · exact Nat.le_refl 1
        · exact hreach
      · rw [if_neg hgate]
        apply h.move (.sleeping ..) _ [step] hw trivial
        · exact ⟨fun _ => trivial, fun _ => hrunning⟩
        · intro _
          refine ⟨hquiet.set rfl (Or.inl rfl), others, ?_, hothers hgate⟩
          rw [hD]
          simp
        · intro _ other hother
          obtain rfl := List.mem_singleton.mp hother
          exact hgate
        · intro hstatus
          rw [show s.row.status = _ from hstatus] at hrunning
          cases hrunning
        · exact Nat.le_refl 1
        · exact hreach

theorem sound_complete {step : PlaybookStep} {pending : List PlaybookStep}
    {results : StepResults} {now : Timestamp} (h : Sound P D s)
    (hw : s.walkers[i]? = some (.sleeping step pending results)) :
    Sound P D (s.complete i step pending results now) := by
  have hmem := List.mem_of_getElem? hw
  have hrunning := h.running_of_live hmem trivial
  obtain ⟨hquiet, hrest⟩ := h.walks _ hmem trivial
  refine h.goOn (.walking ..) _ hw trivial trivial ?_ ⟨?_, hrest⟩
  · exact hrunning
  · cases results.get? step.id with
    | none => exact hquiet
    | some result => exact hquiet.set rfl (Or.inl rfl)

end Walks

section Decisions

theorem Sound.not_running_of_paused (h : Sound P D s) (hpaused : s.row.status = .PAUSED_HITL) :
    (∀ w ∈ s.walkers, ¬ Live w) ∧ ∀ d ∈ s.decisions, ¬ Resuming d := by
  have hstatus : s.row.status ≠ .RUNNING := by
    rw [hpaused]
    intro hne
    cases hne
  constructor
  · intro w hw hlive
    exact hstatus (h.busy.mpr (Or.inl ⟨w, hw, hlive⟩))
  · intro d hd hresuming
    exact hstatus (h.busy.mpr (Or.inr ⟨d, hd, hresuming⟩))

theorem resolveHitlGate_spec {row : PlaybookExecutionRow} {approved : Bool}
    {approverId comment : String} {now : Timestamp} {decision : Decision}
    (hok : resolveHitlGate row approved approverId comment now = .ok decision) :
    row.status = .PAUSED_HITL ∧ ∃ gateId result,
      row.stepResults.get? gateId = some result ∧ result.output.awaits = true ∧
      decision = .deciding gateId approved (row.stepResults.set gateId
        (resolvedResult result approved approverId comment now)) now := by
  rw [resolveHitlGate] at hok
  split at hok
  · cases hok
  · next hstatus =>
      split at hok
      · cases hok
      · next gateId result hgate =>
          cases hok
          obtain ⟨hget, hawaits⟩ := awaitingGate_spec hgate
          exact ⟨not_not.mp hstatus, gateId, result, hget, hawaits, rfl⟩

theorem sound_decide {gateId : StepId} {approved : Bool} {results : StepResults}
    {now : Timestamp} (h : Sound P D s) (hquiet : Quiet results none) :
    Sound P D { s with decisions := s.decisions ++ [.deciding gateId approved results now] } where
  oneWalker := h.oneWalker
  oneResume := h.oneResume.append id
  apart := by
    intro w hw hlive d hd
    rcases List.mem_append.mp hd with hd | hd
    · exact h.apart w hw hlive d hd
    · obtain rfl := List.mem_singleton.mp hd
      exact id
  busy := by
    refine h.busy.trans (or_congr_right ?_)
    constructor
    · rintro ⟨d, hd, hresuming⟩
      exact ⟨d, List.mem_append_left _ hd, hresuming⟩
    · rintro ⟨d, hd, hresuming⟩
      rcases List.mem_append.mp hd with hd | hd
      · exact ⟨d, hd, hresuming⟩
      · obtain rfl := List.mem_singleton.mp hd
        exact hresuming.elim
  walks := h.walks
  decides := by
    intro k a r t hd
    rcases List.mem_append.mp hd with hd | hd
    · exact h.decides k a r t hd
    · cases List.mem_singleton.mp hd
      exact hquiet
  resumes := by
    intro k r hd
    rcases List.mem_append.mp hd with hd | hd
    · exact h.resumes k r hd
    · cases List.mem_singleton.mp hd
  running := h.running
  paused := h.paused
  decidedOnce := h.decidedOnce
  decidedPaused := h.decidedPaused
  walkedOnce := h.walkedOnce
  walkedApproved := h.walkedApproved
  gated := h.gated
  ofDefinition := h.ofDefinition

theorem sound_dropDecision {d : ℕ} {gateId : StepId} {approved : Bool} {results : StepResults}
    {now : Timestamp} (h : Sound P D s)
    (hd : s.decisions[d]? = some (.deciding gateId approved results now)) :
    Sound P D (s.setDecision d .over) := by
  have hold : ∀ {c : Decision}, c ∈ s.decisions.set d .over → c ≠ .over → c ∈ s.decisions := by
    intro c hc hne
    rcases List.mem_or_eq_of_mem_set hc with hc | rfl
    · exact hc
    · exact absurd rfl hne
  constructor
  · exact h.oneWalker
  · exact h.oneResume.set hd False.elim
  · intro w hw hlive c hc hresuming
    refine h.apart w hw hlive c (hold hc ?_) hresuming
    rintro rfl
    exact hresuming
  · refine h.busy.trans (or_congr_right ?_)
    constructor
    · rintro ⟨c, hc, hresuming⟩
      obtain ⟨j, hj⟩ := List.getElem?_of_mem hc
      have hne : d ≠ j := by
        rintro rfl
        rw [hd] at hj
        cases hj
        exact hresuming
      exact ⟨c, List.mem_of_getElem? ((List.getElem?_set_ne hne).trans hj), hresuming⟩
    · rintro ⟨c, hc, hresuming⟩
      refine ⟨c, hold hc ?_, hresuming⟩
      rintro rfl
      exact hresuming
  · exact h.walks
  · intro k a r t hc
    exact h.decides k a r t (hold hc nofun)
  · intro k r hc
    exact h.resumes k r (hold hc nofun)
  · exact h.running
  · exact h.paused
  · exact h.decidedOnce
  · exact h.decidedPaused
  · exact h.walkedOnce
  · exact h.walkedApproved
  · exact h.gated
  · exact h.ofDefinition

section Write
variable {d : ℕ} {gateId : StepId} {approved : Bool} {results : StepResults} {now : Timestamp}

theorem Approved.append {ran : List PlaybookStep} {decided : List (StepId × Bool)}
    (h : Approved ran decided) (x : StepId × Bool) : Approved ran (decided ++ [x]) :=
  fun gate hgate hisGate => List.mem_append_left _ (h gate hgate hisGate)

theorem Sound.decided_nodup (h : Sound P D s) (hnew : gateId ∉ s.decided.map Prod.fst) :
    ((s.decided ++ [(gateId, approved)]).map Prod.fst).Nodup := by
  rw [List.map_append, List.nodup_append]
  refine ⟨h.decidedOnce, List.nodup_singleton _, ?_⟩
  rintro k hk j hj rfl
  obtain rfl := List.mem_singleton.mp hj
  exact hnew hk

theorem Sound.decided_paused (h : Sound P D s) {before : List PlaybookStep}
    {gate : PlaybookStep} (hlast : s.ran = before ++ [gate]) (hisGate : gate.type = .hitlGate) :
    ∀ x ∈ s.decided ++ [(gate.id, approved)],
      ∃ gate ∈ s.ran, gate.type = .hitlGate ∧ gate.id = x.1 := by
  intro x hx
  rcases List.mem_append.mp hx with hx | hx
  · exact h.decidedPaused x hx
  · obtain rfl := List.mem_singleton.mp hx
    refine ⟨gate, ?_, hisGate, rfl⟩
    rw [hlast]
    exact List.mem_append_right _ List.mem_cons_self

theorem sound_reject (h : Sound P D s) {before : List PlaybookStep} {gate : PlaybookStep}
    (hpaused : s.row.status = .PAUSED_HITL)
    (hat : PausedAt s.ran s.row.stepResults s.decided before gate) :
    Sound P D { s.setDecision d .over with
      row := decidedRow s.row gate.id false results now
      decided := s.decided ++ [(gate.id, false)] } := by
  obtain ⟨hwalkers, hdecisions⟩ := h.not_running_of_paused hpaused
  have hset : ∀ c ∈ s.decisions.set d .over, ¬ Resuming c := Slots.forall_set hdecisions id
  constructor
  · exact h.oneWalker
  · exact Slots.AtMostOne.set_alone hdecisions
  · intro w hw hlive
    exact absurd hlive (hwalkers w hw)
  · constructor
    · intro hstatus
      cases hstatus
    · rintro (⟨w, hw, hlive⟩ | ⟨c, hc, hresuming⟩)
      · exact absurd hlive (hwalkers w hw)
      · exact absurd hresuming (hset c hc)
  · exact h.walks
  · intro k a r t hc
    rcases List.mem_or_eq_of_mem_set hc with hc | hc
    · exact h.decides k a r t hc
    · cases hc
  · intro k r hc
    exact absurd trivial (hset _ hc)
  · intro hstatus
    cases hstatus
  · intro hstatus
    cases hstatus
  · exact h.decided_nodup hat.undecided
  · exact h.decided_paused hat.last hat.isGate
  · exact h.walkedOnce
  · intro k hk
    exact List.mem_append_left _ (h.walkedApproved k hk)
  · intro before step after heq
    exact (h.gated before step after heq).append _
  · exact h.ofDefinition

theorem sound_approve (h : Sound P D s) {before : List PlaybookStep} {gate : PlaybookStep}
    (hd : s.decisions[d]? = some (.deciding gate.id true results now))
    (hpaused : s.row.status = .PAUSED_HITL)
    (hat : PausedAt s.ran s.row.stepResults s.decided before gate) :
    Sound P D { s.setDecision d (.resuming gate.id results) with
      row := decidedRow s.row gate.id true results now
      decided := s.decided ++ [(gate.id, true)] } := by
  obtain ⟨hwalkers, hdecisions⟩ := h.not_running_of_paused hpaused
  have hlt : d < s.decisions.length := (List.getElem?_eq_some_iff.mp hd).1
  constructor
  · exact h.oneWalker
  · exact Slots.AtMostOne.set_alone hdecisions
  · intro w hw hlive
    exact absurd hlive (hwalkers w hw)
  · exact ⟨fun _ => Or.inr ⟨_, List.mem_set hlt _, trivial⟩, fun _ => rfl⟩
  · exact h.walks
  · intro k a r t hc
    rcases List.mem_or_eq_of_mem_set hc with hc | hc
    · exact h.decides k a r t hc
    · cases hc
  · intro k r hc
    rcases List.mem_or_eq_of_mem_set hc with hc | hc
    · exact absurd trivial (hdecisions _ hc)
    · cases hc
      refine ⟨h.decides _ _ _ _ (List.mem_of_getElem? hd), ?_, ?_, before, gate, hat.last, rfl⟩
      · intro hresumed
        exact hat.undecided (List.mem_map.mpr ⟨_, h.walkedApproved _ hresumed, rfl⟩)
      · exact List.mem_append_right _ List.mem_cons_self
  · intro _ other hother hisGate
    have hran : other ∈ before ++ [gate] := by
      rw [← hat.last]
      exact hother
    rcases List.mem_append.mp hran with hbefore | hlast
    · exact hat.approved.append _ other hbefore hisGate
    · obtain rfl := List.mem_singleton.mp hlast
      exact List.mem_append_right _ List.mem_cons_self
  · intro hstatus
    cases hstatus
  · exact h.decided_nodup hat.undecided
  · exact h.decided_paused hat.last hat.isGate
  · exact h.walkedOnce
  · intro k hk
    exact List.mem_append_left _ (h.walkedApproved k hk)
  · intro before step after heq
    exact (h.gated before step after heq).append _
  · exact h.ofDefinition

theorem sound_writeDecision (h : Sound P D s)
    (hd : s.decisions[d]? = some (.deciding gateId approved results now))
    (hpaused : s.row.status = .PAUSED_HITL)
    (hawaits : (s.row.stepResults.get? gateId).any (·.output.awaits) = true) :
    Sound P D { s.setDecision d (if approved then .resuming gateId results else .over) with
      row := decidedRow s.row gateId approved results now
      decided := s.decided ++ [(gateId, approved)] } := by
  obtain ⟨before, gate, hat⟩ := h.paused hpaused
  obtain ⟨result, hget, hwaits⟩ := (Option.any_eq_true _ _).mp hawaits
  obtain rfl := hat.quiet.eq_of_awaits hget hwaits
  cases approved with
  | false => exact sound_reject h hpaused hat
  | true => exact sound_approve h hd hpaused hat

theorem sound_resume {yaml : String} (h : Sound P (dispatched P yaml) s)
    (hnodup : ((dispatched P yaml).map (·.id)).Nodup)
    (hd : s.decisions[d]? = some (.resuming gateId results))
    (hsame : (compilePlaybook P s.yamlContent).toOption.bind (stepsUntilGate · (some gateId)) =
      (compilePlaybook P yaml).toOption.bind (stepsUntilGate · (some gateId))) :
    Sound P (dispatched P yaml) { s.setDecision d .over with
      walkers := s.walkers ++ [.starting s.yamlContent (some gateId) results]
      resumed := s.resumed ++ [gateId] } := by
  have hmem := List.mem_of_getElem? hd
  have hrunning : s.row.status = .RUNNING := h.busy.mpr (Or.inr ⟨_, hmem, trivial⟩)
  obtain ⟨hquiet, hnew, happroved, before, gate, hran, rfl⟩ := h.resumes _ _ hmem
  have hwalkers : ∀ w ∈ s.walkers, ¬ Live w := fun w hw hlive => h.apart w hw hlive _ hmem trivial
  have hset : ∀ c ∈ s.decisions.set d .over, ¬ Resuming c := by
    intro c hc hresuming
    obtain ⟨j, hj⟩ := List.getElem?_of_mem hc
    rcases Slots.getElem?_set_cases hj with ⟨-, rfl⟩ | ⟨hne, hold⟩
    · exact hresuming
    · exact hne (h.oneResume j d c _ hold hd hresuming trivial)
  obtain ⟨rest, hD⟩ := h.ofDefinition
  have hnext : ∀ definition, compilePlaybook P s.yamlContent = .ok definition →
      stepsUntilGate definition (some gate.id) = some (untilGate rest) := by
    intro definition hcompile
    rw [hcompile] at hsame
    rw [hran, List.append_assoc, List.singleton_append] at hD
    cases horiginal : compilePlaybook P yaml with
    | error why =>
        rw [dispatched, horiginal] at hD
        simp at hD
    | ok original =>
        rw [dispatched, horiginal] at hD hnodup
        rw [horiginal] at hsame
        exact hsame.trans (stepsUntilGate_after hD.symm hnodup)
  constructor
  · exact Slots.AtMostOne.append_alone hwalkers
  · exact h.oneResume.set hd False.elim
  · intro w _ _ c hc
    exact hset c hc
  · exact ⟨fun _ => Or.inl ⟨_, List.mem_append_right _ List.mem_cons_self, trivial⟩,
      fun _ => hrunning⟩
  · intro w hw hlive
    rcases List.mem_append.mp hw with hw | hw
    · exact absurd hlive (hwalkers w hw)
    · obtain rfl := List.mem_singleton.mp hw
      exact ⟨hquiet, rest, hD.symm, hnext⟩
  · intro k a r t hc
    rcases List.mem_or_eq_of_mem_set hc with hc | hc
    · exact h.decides k a r t hc
    · cases hc
  · intro k r hc
    exact absurd trivial (hset _ hc)
  · exact h.running
  · intro hstatus
    rw [show s.row.status = _ from hstatus] at hrunning
    cases hrunning
  · exact h.decidedOnce
  · exact h.decidedPaused
  · rw [List.nodup_append]
    refine ⟨h.walkedOnce, List.nodup_singleton _, ?_⟩
    rintro k hk j hj rfl
    obtain rfl := List.mem_singleton.mp hj
    exact hnew hk
  · intro k hk
    rcases List.mem_append.mp hk with hk | hk
    · exact h.walkedApproved k hk
    · obtain rfl := List.mem_singleton.mp hk
      exact happroved
  · exact h.gated
  · exact ⟨rest, hD⟩

end Write

end Decisions

theorem sound_step {yaml : String} {e : PlaybookEvent}
    (hnodup : ((dispatched P yaml).map (·.id)).Nodup) (h : Sound P (dispatched P yaml) s)
    (hturn : InTurn P yaml s e) (hstep : (machine P).step s e = some s') :
    Sound P (dispatched P yaml) s' := by
  cases e with
  | update text =>
      simp only [machine, step] at hstep
      split at hstep <;> cases hstep
      · exact h
      · exact { h with }
  | decide approved approverId comment now =>
      simp only [machine, step] at hstep
      split at hstep
      · cases hstep
        exact h
      · next decision hok =>
          cases hstep
          obtain ⟨hpaused, gateId, result, hget, hawaits, rfl⟩ := resolveHitlGate_spec hok
          obtain ⟨before, gate, hat⟩ := h.paused hpaused
          obtain rfl := hat.quiet.eq_of_awaits hget hawaits
          exact sound_decide h (hat.quiet.set rfl (Or.inr rfl))
  | writeDecision d =>
      simp only [machine, step] at hstep
      split at hstep
      · next gateId approved results now hd =>
          cases hstep
          simp only [InTurn, hd] at hturn
          exact sound_writeDecision h hd hturn.1 hturn.2
      · cases hstep
  | dropDecision d =>
      simp only [machine, step] at hstep
      split at hstep
      · next gateId approved results now hd =>
          cases hstep
          exact sound_dropDecision h hd
      · cases hstep
  | resume d =>
      simp only [machine, step] at hstep
      split at hstep
      · next gateId results hd =>
          cases hstep
          simp only [InTurn, hd] at hturn
          exact sound_resume h hnodup hd hturn
      · cases hstep
  | begin w now =>
      simp only [machine, step] at hstep
      split at hstep
      · next yaml resumeAfter results hw =>
          cases hstep
          exact sound_begin h hw
      · cases hstep
  | advance w now =>
      simp only [machine, step] at hstep
      split at hstep
      · next pending results hw =>
          cases hstep
          exact sound_advance h hnodup hw
      · cases hstep
  | complete w now =>
      simp only [machine, step] at hstep
      split at hstep
      · next step pending results hw =>
          cases hstep
          exact sound_complete h hw
      · cases hstep

theorem sound_run {yaml : String} {es : List PlaybookEvent}
    (hnodup : ((dispatched P yaml).map (·.id)).Nodup)
    (hturn : (machine P).Along (InTurn P yaml) (dispatch yaml) es)
    (hrun : (machine P).run (dispatch yaml) es = some s) : Sound P (dispatched P yaml) s :=
  (machine P).invariant_along (I := Sound P (dispatched P yaml)) (sound_step hnodup)
    (sound_dispatch yaml) hturn hrun

end Sound

-- A guard that can be evaluated: the playbook has still the text that was dispatched.
def Unedited (yaml : String) (s : PlaybookRun) : PlaybookEvent → Prop
  | .writeDecision d =>
      match s.decisions[d]? with
      | some (.deciding gateId ..) => s.row.status = .PAUSED_HITL ∧
          (s.row.stepResults.get? gateId).any (·.output.awaits)
      | _ => True
  | .resume _ => s.yamlContent = yaml
  | _ => True

theorem Unedited.inTurn {yaml : String} {e : PlaybookEvent} (h : Unedited yaml s e) :
    InTurn P yaml s e := by
  cases e with
  | writeDecision d => exact h
  | resume d =>
      simp only [InTurn]
      split
      · rw [show s.yamlContent = yaml from h]
      · trivial
  | _ => trivial

instance (yaml : String) (s : PlaybookRun) : ∀ e, Decidable (Unedited yaml s e)
  | .writeDecision d =>
      match h : s.decisions[d]? with
      | some (.deciding gateId ..) =>
          decidable_of_iff (s.row.status = .PAUSED_HITL ∧
            (s.row.stepResults.get? gateId).any (·.output.awaits)) (by simp [Unedited, h])
      | some (.resuming ..) => isTrue (by simp [Unedited, h])
      | some .over => isTrue (by simp [Unedited, h])
      | none => isTrue (by simp [Unedited, h])
  | .resume _ => inferInstanceAs (Decidable (s.yamlContent = yaml))
  | .update _ | .decide .. | .dropDecision _ | .begin .. | .advance .. | .complete .. =>
      isTrue trivial

namespace Containment

def text : String :=
  "name: contain\ntrigger: \x7btype: manual\x7d\nsteps:\n" ++
    "- \x7bid: approve, type: hitl_gate\x7d\n- \x7bid: isolate, tool_name: isolate_host\x7d\n"

def field (key value : String) : Yaml × Yaml := (.str key, .str value)

def document : Yaml := .map [
  field "name" "contain",
  (.str "trigger", .map [field "type" "manual"]),
  (.str "steps", .seq [
    .map [field "id" "approve", field "type" "hitl_gate"],
    .map [field "id" "isolate", field "tool_name" "isolate_host"]])]

def deps : Compiler.Deps :=
  .loading fun source => if source = text then .ok document else .error "not loaded"

def noon : Timestamp := ⟨2026, 7, 1, 12, 0, 0, 0, none⟩

-- Two people read the run while it is paused, and then both of their requests are written.
def submittedTwice : List PlaybookEvent :=
  [.begin 0 noon, .advance 0 noon, .decide true "alice" "" noon, .decide true "bob" "" noon,
    .writeDecision 0, .writeDecision 1, .resume 0, .resume 1]

-- The second one reads the run after the first has decided.
def submittedAgain : List PlaybookEvent :=
  [.begin 0 noon, .advance 0 noon, .decide true "alice" "" noon, .writeDecision 0,
    .decide true "bob" "" noon, .resume 0, .begin 1 noon, .advance 1 noon, .complete 1 noon,
    .advance 1 noon]

end Containment

open Containment in
theorem gate_resolved_twice : ¬ ∀ (P : Compiler.Deps) (yaml : String) (es : List PlaybookEvent)
    (s : PlaybookRun), ((dispatched P yaml).map (·.id)).Nodup →
      (machine P).run (dispatch yaml) es = some s → ResolvedOnce (dispatched P yaml) s := by
  intro h
  have hrun : ((machine deps).run (dispatch text) submittedTwice).any fun s =>
      decide (¬ (s.decided.map Prod.fst).Nodup) := by
    decide
  obtain ⟨s, hs, hnot⟩ := (Option.any_eq_true _ _).mp hrun
  exact of_decide_eq_true hnot (h deps text _ s (by decide) hs).decidedOnce

theorem resolved_once {yaml : String} {es : List PlaybookEvent}
    (hnodup : ((dispatched P yaml).map (·.id)).Nodup)
    (hturn : (machine P).Along (InTurn P yaml) (dispatch yaml) es)
    (hrun : (machine P).run (dispatch yaml) es = some s) : ResolvedOnce (dispatched P yaml) s :=
  (sound_run hnodup hturn hrun).resolvedOnce hnodup

open Containment in
theorem submittedAgain_once : ∃ s, (machine deps).run (dispatch text) submittedAgain = some s ∧
    s.row.status = .COMPLETED ∧ s.ran.map (·.id) = ["approve", "isolate"] ∧
      ResolvedOnce (dispatched deps text) s := by
  have hrun : ((machine deps).run (dispatch text) submittedAgain).any fun s =>
      decide (s.row.status = .COMPLETED ∧ s.ran.map (·.id) = ["approve", "isolate"]) := by
    decide
  have hturn : (machine deps).Along (InTurn deps text) (dispatch text) submittedAgain := by
    apply (machine deps).along_mono (G := Unedited text) fun _ _ => Unedited.inTurn
    decide
  obtain ⟨s, hs, hended⟩ := (Option.any_eq_true _ _).mp hrun
  obtain ⟨hstatus, hran⟩ := of_decide_eq_true hended
  exact ⟨s, hs, hstatus, hran, resolved_once (by decide) hturn hs⟩

end PlaybookRun

end BTagent
