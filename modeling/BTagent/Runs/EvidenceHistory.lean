import BTagent.Engine.EvidenceChain
import BTagent.Runs.ResumeRefines
import Mathlib

namespace BTagent

-- The records an attempt was seeded with and the ones it holds.
structure Ledger where
  prior : List EvidenceRecord
  records : List EvidenceRecord

-- The attempts of a run with their ledgers, and every chain its row has held.
structure EvidenceHistory where
  entries : List (Attempt × Ledger)
  persisted : List (List EvidenceRecord)

namespace Runner
open Gates

def recordedBy (h : Hook) (f : Frame) (refusal : Option String) : Stage → Option (Frame × Dict)
  | .after output => if h = .evidenceChain ∧ refusal = none then some (f, output) else none
  | _ => none

def entryOf (x : Frame × Dict) : EvidenceEntry := ⟨x.1.stepId, x.1.node.id⟩

variable {P : Posture} {h : Hook} {f : Frame} {refusal : Option String} {md md' : Metadata}
  {evidence evidence' : List EvidenceEntry} {stage : Stage}

theorem afterRun_recorded {output : Dict}
    (hok : afterRun h f output refusal md evidence = .ok evidence') :
    evidence' = evidence ++ ((recordedBy h f refusal (.after output)).map entryOf).toList := by
  by_cases hchain : h = .evidenceChain
  · subst hchain
    cases refusal with
    | none =>
        cases hok
        rfl
    | some what => cases hok
  · have hsame : evidence' = evidence := by
      cases h <;> simp only [afterRun, refuseIf] at hok
      all_goals
        try split at hok
        all_goals first | exact absurd rfl hchain | (cases hok; rfl) | cases hok
    simp [hsame, recordedBy, hchain]

theorem runHook_recorded
    (hok : runHook P h f refusal md evidence stage = .ok (md', evidence')) :
    evidence' = evidence ++ ((recordedBy h f refusal stage).map entryOf).toList := by
  cases stage with
  | before =>
      simp only [runHook] at hok
      cases hb : beforeRun P h f refusal md <;> rw [hb] at hok <;> cases hok
      simp [recordedBy]
  | after output =>
      simp only [runHook] at hok
      cases ha : afterRun h f output refusal md evidence <;> rw [ha] at hok <;> cases hok
      exact afterRun_recorded ha
  | error x =>
      cases hok
      simp [recordedBy]

theorem runHook_unrecorded {x : NodeException}
    (herr : runHook P h f refusal md evidence stage = .error x) :
    recordedBy h f refusal stage = none := by
  cases stage with
  | after output =>
      simp only [recordedBy]
      split
      · next hcond =>
          obtain ⟨rfl, rfl⟩ := hcond
          cases herr
      · rfl
  | before | error e => rfl

end Runner

namespace EventLoop
open Runner

-- The node run that the evidence middleware records in a step of the loop.
def recorded? (s : Exec) : Event → Option (Frame × Dict)
  | .act refusal =>
      match s.active.bind s.phase? with
      | some (.hooks f stage (h :: _)) => recordedBy h f refusal stage
      | _ => none
  | _ => none

variable {E : Engine} {P : Posture} {wf : Workflow} {chain : List Hook} {s s' : Exec} {i : ℕ}
  {t : Task}

theorem visitStep_evidence {c : StepId} : (visitStep E wf chain s i t c).evidence = s.evidence := by
  simp only [visitStep]
  cases Executor.visit E wf c t.carried s.state with
  | fail e => rfl
  | reuse output next => rfl
  | passthrough output next => rfl
  | fork targets => cases targets <;> rfl
  | execute node input =>
      simp only [enter]
      cases node.validate input <;> rfl

theorem leaveStage_evidence {f : Frame} {stage : Stage} :
    (leaveStage wf s i t f stage).evidence = s.evidence := by
  cases stage with
  | before => rfl
  | after output =>
      simp only [leaveStage, complete]
      split
      · rfl
      · split <;> rfl
  | error e => rfl

theorem callHook_evidence {f : Frame} {stage : Stage} {h : Hook} {rest : List Hook}
    {refusal : Option String} : (callHook P s i t f stage h rest refusal).evidence =
      s.evidence ++ ((recordedBy h f refusal stage).map entryOf).toList := by
  unfold callHook
  split
  · next hemit =>
      subst hemit
      cases stage <;> simp [recordedBy]
  · split
    · next hok => exact runHook_recorded hok
    · next herr => simp [runHook_unrecorded herr]

theorem act_evidence {refusal : Option String} (hact : s.active = some i)
    (ht : s.tasks[i]? = some t) (h : act E P wf chain s i t refusal = some s') :
    s'.evidence = s.evidence ++ ((recorded? s (.act refusal)).map entryOf).toList := by
  have hphase : s.active.bind s.phase? = some t.phase := by simp [hact, Exec.phase?, ht]
  simp only [recorded?, hphase]
  unfold act at h
  split at h
  · next hp =>
      simp only [hp]
      split at h
      · cases h; simp
      · cases h; simp [visitStep_evidence]
  · next f stage hp =>
      simp only [hp]
      cases h
      simp [leaveStage_evidence]
  · next f stage h' rest hp =>
      simp only [hp]
      cases h
      exact callHook_evidence
  · next kids hp =>
      simp only [hp]
      unfold joinFork at h
      split at h
      · cases h; simp
      · split at h
        · cases h; simp
        · cases h
  · cases h

theorem step_evidence {e : Event} (h : step E P wf chain s e = some s') :
    s'.evidence = s.evidence ++ ((recorded? s e).map entryOf).toList := by
  cases e with
  | wake i =>
      simp only [step] at h
      split at h
      · split at h
        · cases h; simp [recorded?]
        · cases h
      · cases h
  | act refusal =>
      simp only [step] at h
      split at h
      · next i hact =>
          obtain ⟨t, ht, hs⟩ := Option.bind_eq_some_iff.mp h
          exact act_evidence hact ht hs
      · cases h
  | ret i r =>
      simp only [step] at h
      split at h
      · split at h
        · cases h
          cases r <;> simp [returnRun, recorded?]
        · cases h
      · cases h
  | emitted i error =>
      simp only [step] at h
      split at h
      · split at h
        · cases h
          cases error <;> simp [endEmission, recorded?]
        · cases h
      · cases h

end EventLoop

namespace Ledger

variable (H : Hashing) (runId : String)

def record (l : Ledger) (now : Timestamp) : Option (Frame × Dict) → Ledger
  | none => l
  | some (f, output) => { l with records := EvidenceChain.afterRun H runId l.records f output now }

-- The chain a row is given: `resume_run` keeps the prior one where a failed attempt has none.
def persist (l : Ledger) (resumed : Option WorkflowRunRow) (status : WorkflowRunStatus) :
    List EvidenceRecord :=
  if resumed.isSome ∧ status = .failed ∧ l.records.isEmpty then l.prior else l.records

end Ledger

namespace EvidenceHistory
open EventLoop

variable (E : Engine) (N : JsonbNumeric) (wf : Workflow) (payload : Dict) (H : Hashing)
  (runId : String)

-- An execution that fails before its first step leaves a row with an empty chain.
def start (posture : Posture) : EvidenceHistory :=
  match execute wf none [] [] (.dict payload) with
  | .ok s => ⟨[(⟨posture, s, [], none, none⟩, ⟨[], []⟩)], []⟩
  | .error _ => ⟨[], [[]]⟩

def tail (x : EvidenceHistory) : List EvidenceRecord := x.persisted.getLast?.getD []

def save (x : EvidenceHistory) (l : Ledger) (a a' : Attempt) : List (List EvidenceRecord) :=
  match a.saved, a'.saved with
  | none, some row => x.persisted ++ [l.persist a.resumed row.status]
  | _, _ => x.persisted

-- A time is read whenever a record is made.
def step (x : EvidenceHistory) : ChainEvent × Timestamp → Option EvidenceHistory
  | (.loop k e, now) => (x.entries[k]?).bind fun (a, l) =>
      (EventLoop.step E a.posture wf backendChain a.exec e).map fun s =>
        let a' := { a with exec := s }.capture N payload
        let l' := l.record H runId now (recorded? a.exec e)
        ⟨x.entries.set k (a', l'), x.save l' a a'⟩
  | (.resume autonomy, _) => (x.entries.getLast?).bind fun (a, _) => a.saved.bind fun row =>
      (AttemptChain.resumeRun wf row { a.posture with integrationAutonomy := autonomy }).map fun a' =>
        { x with entries := x.entries ++ [(a', ⟨x.tail, x.tail⟩)] }

def machine : Machine EvidenceHistory (ChainEvent × Timestamp) := ⟨step E N wf payload H runId⟩

variable {E N wf payload H runId} {x x' : EvidenceHistory}

theorem step_attempts {e : ChainEvent} {now : Timestamp} :
    (x.step E N wf payload H runId (e, now)).map (·.entries.map Prod.fst) =
      AttemptChain.step E N wf payload (x.entries.map Prod.fst) e := by
  cases e with
  | loop k e =>
      simp only [step, AttemptChain.step, List.getElem?_map]
      cases x.entries[k]? with
      | none => rfl
      | some entry =>
          cases hs : EventLoop.step E entry.1.posture wf backendChain entry.1.exec e with
          | none => simp [hs]
          | some s => simp [hs, List.map_set]
  | resume autonomy =>
      simp only [step, AttemptChain.step, List.getLast?_map]
      cases x.entries.getLast? with
      | none => rfl
      | some entry =>
          cases hsaved : entry.1.saved with
          | none => simp [hsaved]
          | some row =>
              simp only [Option.map_some, Option.bind_some, hsaved]
              cases AttemptChain.resumeRun wf row
                { entry.1.posture with integrationAutonomy := autonomy } <;> simp

-- What a ledger has in common with its attempt.
structure Keeps (H : Hashing) (entry : Attempt × Ledger) : Prop where
  linked : (EvidenceChain.hashChain H).Linked EvidenceChain.GENESIS_HASH entry.2.records
  extends_ : entry.2.prior <+: entry.2.records
  alike : entry.2.records.map (·.nodeId) = entry.1.exec.evidence.map (·.nodeId)
  resumed : ∀ row ∈ entry.1.resumed,
    entry.2.prior.map (·.nodeId) = row.evidenceChain.map (·.nodeId)

structure Intact (H : Hashing) (x : EvidenceHistory) : Prop where
  keeps : ∀ entry ∈ x.entries, Keeps H entry
  last : ∀ k entry, x.entries[k]? = some entry → entry.1.saved = none → k + 1 = x.entries.length
  prior : ∀ entry ∈ x.entries.getLast?, entry.1.saved = none → entry.2.prior = x.tail
  row : ∀ entry ∈ x.entries.getLast?, ∀ row ∈ entry.1.saved,
    x.tail.map (·.nodeId) = row.evidenceChain.map (·.nodeId)
  verified : ∀ chain ∈ x.persisted,
    (EvidenceChain.hashChain H).Linked EvidenceChain.GENESIS_HASH chain
  chain : x.persisted.IsChain (· <+: ·)

section Capture
variable {a : Attempt} {l : Ledger}

@[simp] theorem capture_exec : (a.capture N payload).exec = a.exec := by
  unfold Attempt.capture
  split <;> rfl

@[simp] theorem capture_resumed : (a.capture N payload).resumed = a.resumed := by
  unfold Attempt.capture
  split <;> rfl

theorem capture_saved_some {row : WorkflowRunRow} (h : a.saved = some row) :
    (a.capture N payload).saved = some row := by
  unfold Attempt.capture
  split
  · next hnone _ => rw [h] at hnone; cases hnone
  · exact h

theorem capture_saved_none {row : WorkflowRunRow} (h : a.saved = none)
    (hsaved : (a.capture N payload).saved = some row) :
    ∃ r, row = a.row N payload (.capture a.exec.state a.exec.evidence r) := by
  unfold Attempt.capture at hsaved
  split at hsaved
  · exact ⟨_, (Option.some.inj hsaved).symm⟩
  · rw [h] at hsaved
    cases hsaved

theorem persist_eq {resumed : Option WorkflowRunRow} {status : WorkflowRunStatus}
    (h : l.prior <+: l.records) : l.persist resumed status = l.records := by
  unfold Ledger.persist
  split
  · next hcond =>
      have hnil : l.records = [] := List.isEmpty_iff.mp hcond.2.2
      rw [hnil] at h ⊢
      exact List.prefix_nil.mp h
  · rfl

theorem row_alike {r : Except Failure (Option Dict)} (h : Keeps H (a, l)) :
    l.records.map (·.nodeId) =
      (a.row N payload (.capture a.exec.state a.exec.evidence r)).evidenceChain.map (·.nodeId) := by
  unfold Attempt.row
  split
  · simpa [WorkflowRunRow.create] using h.alike
  · next row hrow =>
      simp only [WorkflowRunRow.update, Outcome.capture_evidence]
      split
      · next hcond =>
          have hnil : a.exec.evidence = [] := List.isEmpty_iff.mp hcond.2
          have hrecords : l.records = [] := by
            have hmap := h.alike
            rw [hnil] at hmap
            exact List.map_eq_nil_iff.mp hmap
          have hprior := h.extends_
          rw [hrecords] at hprior
          rw [hrecords, ← h.resumed row hrow, List.prefix_nil.mp hprior]
      · exact h.alike

theorem keeps_record {s : Exec} {now : Timestamp} {recorded : Option (Frame × Dict)}
    (h : Keeps H (a, l))
    (hs : s.evidence = a.exec.evidence ++ (recorded.map Runner.entryOf).toList) :
    Keeps H ({ a with exec := s }, l.record H runId now recorded) := by
  cases recorded with
  | none =>
      have hsame : s.evidence = a.exec.evidence := by simpa using hs
      refine ⟨h.linked, h.extends_, ?_, ?_⟩
      · simpa [Ledger.record, hsame] using h.alike
      · exact h.resumed
  | some recorded =>
      obtain ⟨f, output⟩ := recorded
      refine ⟨EvidenceChain.linked_afterRun h.linked,
        h.extends_.trans EvidenceChain.prefix_afterRun, ?_, ?_⟩
      · have hold := h.alike
        simp [Ledger.record, EvidenceChain.afterRun, hs, Runner.entryOf, hold]
      · exact h.resumed

end Capture

theorem getLast?_set {α : Type*} {l : List α} {k : ℕ} {a b : α}
    (h : (l.set k b).getLast? = some a) :
    (k + 1 = l.length ∧ a = b) ∨ (k + 1 ≠ l.length ∧ l.getLast? = some a) := by
  rw [List.getLast?_eq_getElem?, List.length_set] at h
  rcases Slots.getElem?_set_cases h with ⟨hk, rfl⟩ | ⟨hk, hget⟩
  · have hlt := (List.getElem?_eq_some_iff.mp h).1
    rw [List.length_set] at hlt
    exact Or.inl ⟨by omega, rfl⟩
  · have hlt := (List.getElem?_eq_some_iff.mp hget).1
    refine Or.inr ⟨by omega, ?_⟩
    rw [List.getLast?_eq_getElem?]
    exact hget

theorem linked_tail (h : Intact H x) :
    (EvidenceChain.hashChain H).Linked EvidenceChain.GENESIS_HASH x.tail := by
  unfold tail
  cases hlast : x.persisted.getLast? with
  | none => trivial
  | some chain => exact h.verified chain (List.mem_of_getLast? hlast)

theorem save_cases {a a' : Attempt} {l : Ledger} (hprior : l.prior <+: l.records) :
    (x.save l a a' = x.persisted ∧ (a.saved = none → a'.saved = none)) ∨
      (a.saved = none ∧ (∃ row, a'.saved = some row) ∧ x.save l a a' = x.persisted ++ [l.records]) := by
  unfold save
  split
  · next row hnone hsome => exact Or.inr ⟨hnone, ⟨row, hsome⟩, by rw [persist_eq hprior]⟩
  · next hother =>
      refine Or.inl ⟨rfl, fun hnone => ?_⟩
      cases hsaved : a'.saved with
      | none => rfl
      | some row => exact absurd hsaved (hother row hnone)

theorem getLast?_of_index {α : Type*} {l : List α} {k : ℕ} {a : α} (hget : l[k]? = some a)
    (hlast : k + 1 = l.length) : l.getLast? = some a := by
  rw [List.getLast?_eq_getElem?, ← hlast]
  exact hget

section Replace
variable {k : ℕ} {a a' : Attempt} {l l' : Ledger} (h : Intact H x)
  (hget : x.entries[k]? = some (a, l)) (hkeeps : Keeps H (a', l')) (hprior : l'.prior = l.prior)
include h hget hkeeps hprior

theorem intact_unsaved (hsaved : ∀ row, a.saved = some row → a'.saved = some row)
    (hnone : a.saved = none → a'.saved = none) :
    Intact H ⟨x.entries.set k (a', l'), x.persisted⟩ := by
  have hold : a'.saved = none → a.saved = none := by
    intro hn
    cases ha : a.saved with
    | none => rfl
    | some row => rw [hsaved row ha] at hn; cases hn
  refine ⟨Slots.forall_set h.keeps hkeeps, fun j entry hj hn => ?_, fun entry hentry hn => ?_,
    fun entry hentry row hrow => ?_, h.verified, h.chain⟩
  · rw [List.length_set]
    rcases Slots.getElem?_set_cases hj with ⟨rfl, rfl⟩ | ⟨-, hj⟩
    · exact h.last j _ hget (hold hn)
    · exact h.last j entry hj hn
  · rcases getLast?_set hentry with ⟨hk, rfl⟩ | ⟨-, hentry⟩
    · exact hprior.trans (h.prior _ (getLast?_of_index hget hk) (hold hn))
    · exact h.prior entry hentry hn
  · rcases getLast?_set hentry with ⟨hk, rfl⟩ | ⟨-, hentry⟩
    · cases ha : a.saved with
      | none =>
          have hnew := hnone ha
          rw [hrow] at hnew
          cases hnew
      | some old =>
          have hsame := hsaved old ha
          rw [hrow] at hsame
          cases hsame
          exact h.row _ (getLast?_of_index hget hk) row ha
    · exact h.row entry hentry row hrow

theorem intact_saved (hnone : a.saved = none) {row : WorkflowRunRow} (hrow : a'.saved = some row)
    (hnew : l'.records.map (·.nodeId) = row.evidenceChain.map (·.nodeId)) :
    Intact H ⟨x.entries.set k (a', l'), x.persisted ++ [l'.records]⟩ := by
  have hlast := h.last k _ hget hnone
  have htail := h.prior _ (getLast?_of_index hget hlast) hnone
  have hend : ∀ entry, (x.entries.set k (a', l')).getLast? = some entry → entry = (a', l') := by
    intro entry hentry
    rcases getLast?_set hentry with ⟨-, rfl⟩ | ⟨hne, -⟩
    · rfl
    · exact absurd hlast hne
  refine ⟨Slots.forall_set h.keeps hkeeps, fun j entry hj hn => ?_, fun entry hentry hn => ?_,
    fun entry hentry row' hrow' => ?_, fun chain hchain => ?_, ?_⟩
  · rw [List.length_set]
    rcases Slots.getElem?_set_cases hj with ⟨rfl, rfl⟩ | ⟨-, hj⟩
    · exact hlast
    · exact h.last j entry hj hn
  · obtain rfl := hend entry hentry
    rw [hrow] at hn
    cases hn
  · obtain rfl := hend entry hentry
    rw [hrow] at hrow'
    cases hrow'
    simpa [tail] using hnew
  · rcases List.mem_append.mp hchain with hchain | hchain
    · exact h.verified chain hchain
    · obtain rfl := List.mem_singleton.mp hchain
      exact hkeeps.linked
  · refine h.chain.append (List.isChain_singleton _) fun last hlast' next hnext => ?_
    obtain rfl := Option.some.inj hnext
    have heq : x.tail = last := by
      unfold tail
      rw [hlast']
      rfl
    rw [← heq, ← htail, ← hprior]
    exact hkeeps.extends_

end Replace

theorem intact_loop {k : ℕ} {a : Attempt} {l : Ledger} {s : Exec} {e : Event} {now : Timestamp}
    (h : Intact H x) (hget : x.entries[k]? = some (a, l))
    (hs : EventLoop.step E a.posture wf backendChain a.exec e = some s) :
    Intact H ⟨x.entries.set k ({ a with exec := s }.capture N payload,
        l.record H runId now (recorded? a.exec e)),
      x.save (l.record H runId now (recorded? a.exec e)) a
        ({ a with exec := s }.capture N payload)⟩ := by
  have hrecord : Keeps H ({ a with exec := s }, l.record H runId now (recorded? a.exec e)) :=
    keeps_record (h.keeps _ (List.mem_of_getElem? hget)) (EventLoop.step_evidence hs)
  have hkeeps : Keeps H ({ a with exec := s }.capture N payload,
      l.record H runId now (recorded? a.exec e)) := by
    refine ⟨hrecord.linked, hrecord.extends_, ?_, ?_⟩
    · rw [capture_exec]
      exact hrecord.alike
    · rw [capture_resumed]
      exact hrecord.resumed
  have hprior : (l.record H runId now (recorded? a.exec e)).prior = l.prior := by
    cases recorded? a.exec e <;> rfl
  have hsaved : ∀ row, a.saved = some row →
      ({ a with exec := s }.capture N payload).saved = some row :=
    fun row hrow => capture_saved_some hrow
  rcases @save_cases x a ({ a with exec := s }.capture N payload) _ hkeeps.extends_ with
    ⟨hsave, hnone⟩ | ⟨hnone, ⟨row, hrow⟩, hsave⟩
  · rw [hsave]
    exact intact_unsaved h hget hkeeps hprior hsaved hnone
  · rw [hsave]
    obtain ⟨r, rfl⟩ := capture_saved_none (show ({ a with exec := s } : Attempt).saved = none from
      hnone) hrow
    exact intact_saved h hget hkeeps hprior hnone hrow (row_alike hrecord)

theorem intact_resume {a a' : Attempt} {l : Ledger} {row : WorkflowRunRow} {posture : Posture}
    (h : Intact H x) (hget : x.entries.getLast? = some (a, l)) (hsaved : a.saved = some row)
    (hresume : AttemptChain.resumeRun wf row posture = some a') :
    Intact H { x with entries := x.entries ++ [(a', ⟨x.tail, x.tail⟩)] } := by
  obtain ⟨-, paused, entry, -, -, rfl⟩ := AttemptChain.resumeRun_spec hresume
  have halike := h.row _ hget row hsaved
  have hnew : ∀ e ∈ x.entries, e.1.saved ≠ none := by
    intro e he hn
    obtain ⟨j, hj⟩ := List.mem_iff_getElem?.mp he
    have hlast := getLast?_of_index hj (h.last j e hj hn)
    rw [hget] at hlast
    cases hlast
    rw [hsaved] at hn
    cases hn
  refine ⟨fun e he => ?_, fun j e hj hn => ?_, fun e he hn => ?_, fun e he row' hrow' => ?_,
    h.verified, h.chain⟩
  · rcases List.mem_append.mp he with he | he
    · exact h.keeps e he
    · obtain rfl := List.mem_singleton.mp he
      refine ⟨linked_tail h, List.prefix_refl _, halike, ?_⟩
      rintro row' ⟨⟩
      exact halike
  · rcases Nat.lt_or_ge j x.entries.length with hlt | hge
    · rw [List.getElem?_append_left hlt] at hj
      exact absurd hn (hnew e (List.mem_of_getElem? hj))
    · have hlt := (List.getElem?_eq_some_iff.mp hj).1
      simp only [List.length_append, List.length_singleton] at hlt ⊢
      omega
  · rw [List.getLast?_concat] at he
    cases he
    rfl
  · rw [List.getLast?_concat] at he
    cases he
    cases hrow'

theorem intact_step {e : ChainEvent × Timestamp} (h : Intact H x)
    (hstep : (machine E N wf payload H runId).step x e = some x') : Intact H x' := by
  obtain ⟨e, now⟩ := e
  cases e with
  | loop k e =>
      obtain ⟨⟨a, l⟩, hget, hrest⟩ := Option.bind_eq_some_iff.mp hstep
      obtain ⟨s, hs, rfl⟩ := Option.map_eq_some_iff.mp hrest
      exact intact_loop h hget hs
  | resume autonomy =>
      obtain ⟨⟨a, l⟩, hget, hrest⟩ := Option.bind_eq_some_iff.mp hstep
      obtain ⟨row, hsaved, hresume⟩ := Option.bind_eq_some_iff.mp hrest
      obtain ⟨a', ha', rfl⟩ := Option.map_eq_some_iff.mp hresume
      exact intact_resume h hget hsaved ha'

theorem intact_start {posture : Posture} : Intact H (start wf payload posture) := by
  unfold start
  split
  · next s hs =>
      obtain ⟨entry, rfl, -⟩ := execute_ok hs
      refine ⟨?_, ?_, ?_, ?_, by simp, List.isChain_nil⟩
      · intro entry hentry
        obtain rfl := List.mem_singleton.mp hentry
        exact ⟨trivial, List.prefix_refl _, rfl, by simp⟩
      · intro k entry hk hn
        have hlt := (List.getElem?_eq_some_iff.mp hk).1
        simp only [List.length_singleton] at hlt ⊢
        omega
      · rintro entry ⟨⟩ -
        rfl
      · rintro entry ⟨⟩ row hrow
        cases hrow
  · refine ⟨by simp, by simp, by simp, by simp, ?_, List.isChain_singleton _⟩
    intro chain hchain
    obtain rfl := List.mem_singleton.mp hchain
    trivial

theorem evidence_chain_intact {posture : Posture} {es : List (ChainEvent × Timestamp)}
    (hrun : (machine E N wf payload H runId).run (start wf payload posture) es = some x) :
    (∀ chain ∈ x.persisted, EvidenceChain.verifyChain H chain = (true, none)) ∧
      x.persisted.IsChain (· <+: ·) ∧
      ∀ records records' : List EvidenceRecord,
        (∀ r ∈ records ++ records', EvidenceChain.Separable r) →
        EvidenceChain.NoCollision H (records ++ records') →
        EvidenceChain.verifyChain H records = (true, none) →
        EvidenceChain.verifyChain H records' = (true, none) →
        EvidenceChain.tailHash records = EvidenceChain.tailHash records' → records = records' := by
  have hintact : Intact H x := by
    apply Machine.invariant_of_step _ (I := Intact H) _ intact_start hrun
    exact fun h hstep => intact_step h hstep
  refine ⟨fun chain hchain => ?_, hintact.chain, ?_⟩
  · exact EvidenceChain.verifyChain_iff.mpr (hintact.verified chain hchain)
  · exact fun records records' => EvidenceChain.eq_of_tailHash_eq

namespace Spelled

-- A hash without collisions: the text itself, after a letter.
def spell (text : ByteArray) : String :=
  String.ofList ('h' :: text.data.toList.map Char.ofUInt8)

theorem ofUInt8_inj {a b : UInt8} (h : Char.ofUInt8 a = Char.ofUInt8 b) : a = b := by
  have hval : a.toUInt32 = b.toUInt32 := congrArg Char.val h
  apply UInt8.toNat_inj.mp
  have hnat := congrArg UInt32.toNat hval
  simpa using hnat

theorem spell_injective : Function.Injective spell := by
  intro a b h
  have hlist := (List.cons.inj (String.ofList_injective h)).2
  have hdata := List.map_injective_iff.mpr (fun _ _ => ofUInt8_inj) hlist
  exact ByteArray.ext (Array.ext' hdata)

theorem spell_ne_genesis {text : ByteArray} : spell text ≠ EvidenceChain.GENESIS_HASH := by
  intro h
  have hhead := (List.cons.inj (String.ofList_injective h)).1
  exact absurd hhead (by decide)

def noon : Timestamp := ⟨2026, 1, 15, 12, 0, 0, 0, some ⟨false, 0, 0, 0, 0⟩⟩

def hashing : Hashing := ⟨spell, fun d => if d.entries = [] then "\x7b\x7d" else "null"⟩

-- The hash that differs from it on one text, which it sends to the genesis value.
def first : EvidenceRecord :=
  ⟨"r", "lookup", EvidenceChain.GENESIS_HASH, EvidenceChain.GENESIS_HASH, "in", "out", noon⟩

def rooted (text : ByteArray) : String :=
  if text = EvidenceChain.linkPreimage first then EvidenceChain.GENESIS_HASH else spell text

theorem rooted_injective : Function.Injective rooted := by
  intro a b h
  unfold rooted at h
  split at h
  · next ha =>
      split at h
      · next hb => exact ha.trans hb.symm
      · exact absurd h.symm spell_ne_genesis
  · split at h
    · exact absurd h spell_ne_genesis
    · exact spell_injective h

def rootedHashing : Hashing := { hashing with sha256 := rooted }

def second : EvidenceRecord :=
  { first with nodeId := "respond", linkHash := rooted (EvidenceChain.linkPreimage
    { first with nodeId := "respond" }) }

end Spelled

-- Nothing in the chain says how many records there are: the first one is cut off.
theorem truncated_chain_verifies :
    Function.Injective Spelled.rootedHashing.sha256 ∧
      (∀ r ∈ [Spelled.first, Spelled.second], EvidenceChain.Separable r) ∧
      EvidenceChain.verifyChain Spelled.rootedHashing [Spelled.first, Spelled.second] =
        (true, none) ∧
      EvidenceChain.verifyChain Spelled.rootedHashing [Spelled.second] = (true, none) ∧
      EvidenceChain.tailHash [Spelled.first, Spelled.second] =
        EvidenceChain.tailHash [Spelled.second] ∧
      [Spelled.first, Spelled.second] ≠ [Spelled.second] := by
  refine ⟨Spelled.rooted_injective, ?_, ?_, ?_, rfl, by simp⟩
  · unfold EvidenceChain.Separable
    decide
  · decide
  · decide

namespace ApprovedTwice
open EventLoop.GatedPair

def acts (k n : ℕ) : List ChainEvent := List.replicate n (.loop k (.act none))

-- Both steps of the pair pause, are approved and return.
def events : List ChainEvent :=
  acts 0 2 ++ .resume {} :: acts 1 7 ++ .loop 1 (.ret 0 (.output .empty)) :: acts 1 8 ++
    .resume {} :: acts 2 8 ++ .loop 2 (.ret 0 (.output .empty)) :: acts 2 7

def history : Option EvidenceHistory :=
  (EvidenceHistory.machine engine numeric workflow .empty Spelled.hashing "run").run
    (EvidenceHistory.start workflow .empty posture) (events.map (·, Spelled.noon))

end ApprovedTwice

theorem evidence_chain_intact_approved :
    ∃ x, ApprovedTwice.history = some x ∧ x.persisted.map (·.length) = [0, 1, 2] ∧
      (∀ chain ∈ x.persisted, EvidenceChain.verifyChain Spelled.hashing chain = (true, none)) ∧
      x.persisted.IsChain (· <+: ·) ∧
      ∀ chain ∈ x.persisted, ∀ chain' ∈ x.persisted,
        EvidenceChain.tailHash chain = EvidenceChain.tailHash chain' → chain = chain' := by
  have hsome : ApprovedTwice.history.isSome := by decide
  obtain ⟨x, hrun⟩ := Option.isSome_iff_exists.mp hsome
  have hfacts : ∀ x ∈ ApprovedTwice.history, x.persisted.map (·.length) = [0, 1, 2] ∧
      ∀ chain ∈ x.persisted, ∀ r ∈ chain, EvidenceChain.Separable r ∧
        r.linkHash ≠ EvidenceChain.GENESIS_HASH := by
    unfold EvidenceChain.Separable
    decide +kernel
  obtain ⟨hlength, hrecords⟩ := hfacts x hrun
  obtain ⟨hverified, hchain, htamper⟩ := evidence_chain_intact hrun
  refine ⟨x, hrun, hlength, hverified, hchain, fun chain hc chain' hc' htail => ?_⟩
  have hall : ∀ r ∈ chain ++ chain', EvidenceChain.Separable r ∧
      r.linkHash ≠ EvidenceChain.GENESIS_HASH := by
    intro r hr
    rcases List.mem_append.mp hr with hr | hr
    · exact hrecords chain hc r hr
    · exact hrecords chain' hc' r hr
  exact htamper chain chain' (fun r hr => (hall r hr).1)
    ⟨Spelled.spell_injective.injOn, fun r hr => (hall r hr).2⟩ (hverified chain hc)
    (hverified chain' hc') htail

end EvidenceHistory

end BTagent
