import BTagent.Lib.AsyncQueue
import BTagent.Ws.Hub

namespace BTagent

namespace WebSocketHub

variable {Payload : Type}

abbrev ClientQueue (Payload : Type) := AsyncQueue Payload BACKPRESSURE_QUEUE_LIMIT

def drain (q : ClientQueue Payload) (drained : List Payload) : List Payload × ClientQueue Payload :=
  if q.isEmpty then (drained, q)
  else
    match _h : q.getNowait with
    | .ok (item, q') => drain q' (drained ++ [item])
    | .error _ => (drained, q)
termination_by q.items.length
decreasing_by exact AsyncQueue.getNowait_length ‹_›

-- `validate` is `EventEnvelope.model_validate_json`, `none` where it raises.
def keepFrom (validate : Payload → Option EventEnvelope) (keep : List Payload) (item : Payload) :
    List Payload :=
  match validate item with
  | some e => if isCritical e then keep ++ [item] else keep
  | none => keep ++ [item]

def refill (q : ClientQueue Payload) : List Payload → ClientQueue Payload
  | [] => q
  | item :: keep =>
      match q.putNowait item with
      | .ok q' => refill q' keep
      | .error _ => q

def enqueue (validate : Payload → Option EventEnvelope) (q : ClientQueue Payload)
    (payload : Payload) (critical : Bool) : Except QueueError (ClientQueue Payload) :=
  if q.full then
    if critical then
      let (drained, q) := drain q []
      let keep := drained.foldl (keepFrom validate) [] ++ [payload]
      let keep :=
        if BACKPRESSURE_QUEUE_LIMIT < keep.length then
          keep.drop (keep.length - BACKPRESSURE_QUEUE_LIMIT)
        else keep
      .ok (refill q keep)
    else .ok q
  else q.putNowait payload

-- A payload that the drain puts back: a critical event, or no event at all.
def stays (validate : Payload → Option EventEnvelope) (payload : Payload) : Bool :=
  match validate payload with
  | some e => isCritical e
  | none => true

-- `arrived` is all that was enqueued so far, `escaped` what `_enqueue` raised.
structure QueueRun (Payload : Type) where
  queue : ClientQueue Payload
  arrived : List Payload
  escaped : Option QueueError

inductive QueueEvent (Payload : Type) where
  | enqueue (payload : Payload) (critical : Bool)
  | dequeue

-- A sender that finds the queue empty waits.
def queueMachine (validate : Payload → Option EventEnvelope) :
    Machine (QueueRun Payload) (QueueEvent Payload) where
  step s
    | .enqueue payload critical =>
        match enqueue validate s.queue payload critical with
        | .ok queue => some { s with queue := queue, arrived := s.arrived ++ [payload] }
        | .error raised => some { s with escaped := some raised, arrived := s.arrived ++ [payload] }
    | .dequeue =>
        match s.queue.getNowait with
        | .ok (_, queue) => some { s with queue := queue }
        | .error _ => none

def freshQueue : QueueRun Payload := ⟨.empty, [], none⟩

variable {validate : Payload → Option EventEnvelope} {q q' : ClientQueue Payload}
  {payload : Payload} {critical : Bool} {s s' : QueueRun Payload} {e : QueueEvent Payload}

theorem drain_eq (q : ClientQueue Payload) (drained : List Payload) :
    ∃ q', drain q drained = (drained ++ q.items, q') ∧ q'.items = [] := by
  induction hitems : q.items generalizing q drained with
  | nil =>
      rw [drain]
      simp [AsyncQueue.isEmpty, hitems]
  | cons item items ih =>
      obtain ⟨q', hget, hrest⟩ := AsyncQueue.getNowait_cons hitems
      obtain ⟨q'', hdrain, hempty⟩ := ih q' (drained ++ [item]) hrest
      refine ⟨q'', ?_, hempty⟩
      rw [drain]
      simp only [AsyncQueue.isEmpty, hitems, List.isEmpty_cons, Bool.false_eq_true, if_false]
      split
      · next hok =>
          rw [hget] at hok
          cases hok
          rw [hdrain, List.append_assoc, List.singleton_append]
      · next herr =>
          rw [hget] at herr
          cases herr

theorem keepFrom_eq {keep : List Payload} :
    keepFrom validate keep payload = if stays validate payload then keep ++ [payload] else keep := by
  unfold keepFrom stays
  cases validate payload <;> rfl

theorem foldl_keepFrom {keep items : List Payload} :
    items.foldl (keepFrom validate) keep = keep ++ items.filter (stays validate) := by
  induction items generalizing keep with
  | nil => simp
  | cons item items ih =>
      rw [List.foldl_cons, ih, keepFrom_eq, List.filter_cons]
      cases stays validate item <;> simp

theorem refill_items {keep : List Payload}
    (h : q.items.length + keep.length ≤ BACKPRESSURE_QUEUE_LIMIT) :
    (refill q keep).items = q.items ++ keep := by
  induction keep generalizing q with
  | nil => simp [refill]
  | cons item keep ih =>
      rw [List.length_cons] at h
      obtain ⟨q', hput, hitems⟩ := AsyncQueue.putNowait_ok (q := q) (a := item) (by omega)
      rw [refill, hput]
      simp only
      rw [ih (by rw [hitems, List.length_append, List.length_singleton]; omega), hitems,
        List.append_assoc, List.singleton_append]

theorem enqueue_spec (validate : Payload → Option EventEnvelope) (q : ClientQueue Payload)
    (payload : Payload) (critical : Bool) :
    ∃ q', enqueue validate q payload critical = .ok q' ∧ q'.items =
      if q.items.length < BACKPRESSURE_QUEUE_LIMIT then q.items ++ [payload]
      else if critical then
        (q.items.filter (stays validate) ++ [payload]).drop
          ((q.items.filter (stays validate) ++ [payload]).length - BACKPRESSURE_QUEUE_LIMIT)
      else q.items := by
  by_cases hroom : q.items.length < BACKPRESSURE_QUEUE_LIMIT
  · obtain ⟨q', hput, hitems⟩ := AsyncQueue.putNowait_ok (q := q) (a := payload) hroom
    have hfull : q.full = false := by simpa [AsyncQueue.full] using hroom
    refine ⟨q', ?_, by rw [if_pos hroom, hitems]⟩
    rw [enqueue, hfull]
    exact hput
  · have hfull : q.full = true := AsyncQueue.full_iff.mpr (Nat.le_of_not_lt hroom)
    cases critical with
    | false => exact ⟨q, by simp [enqueue, hfull], by simp [hroom]⟩
    | true =>
        obtain ⟨drained, hdrain, hempty⟩ := drain_eq q []
        refine ⟨_, by rw [enqueue, hfull, if_pos rfl, if_pos rfl], ?_⟩
        rw [hdrain, foldl_keepFrom, if_neg hroom, if_pos rfl]
        simp only [List.nil_append]
        split
        · next hlong =>
            rw [refill_items, hempty, List.nil_append]
            rw [hempty, List.length_nil, List.length_drop]
            omega
        · next hshort =>
            rw [refill_items, hempty, List.nil_append]
            · rw [Nat.sub_eq_zero_of_le (Nat.le_of_not_lt hshort), List.drop_zero]
            · rw [hempty, List.length_nil]
              omega

theorem enqueue_sublist (henq : enqueue validate q payload critical = .ok q') :
    q'.items.Sublist (q.items ++ [payload]) := by
  obtain ⟨q'', hok, hitems⟩ := enqueue_spec validate q payload critical
  cases henq.symm.trans hok
  rw [hitems]
  split
  · exact List.Sublist.refl _
  · split
    · exact (List.drop_sublist _ _).trans (List.Sublist.append List.filter_sublist (.refl _))
    · exact List.sublist_append_left _ _

theorem enqueue_critical (henq : enqueue validate q payload true = .ok q') :
    payload ∈ q'.items := by
  obtain ⟨q'', hok, hitems⟩ := enqueue_spec validate q payload true
  cases henq.symm.trans hok
  rw [hitems]
  split
  · simp
  · have hlast : (q.items.filter (stays validate) ++ [payload]).length - BACKPRESSURE_QUEUE_LIMIT ≤
        (q.items.filter (stays validate)).length := by
      have hlimit : 1 ≤ BACKPRESSURE_QUEUE_LIMIT := by decide
      rw [List.length_append, List.length_singleton]
      omega
    rw [if_pos rfl, List.drop_append_of_le_length hlast]
    simp

theorem enqueue_keeps (henq : enqueue validate q payload critical = .ok q')
    (hroom : (q.items.filter (stays validate)).length + 1 ≤ BACKPRESSURE_QUEUE_LIMIT) :
    (q.items.filter (stays validate) ++ if critical then [payload] else []).Sublist q'.items := by
  obtain ⟨q'', hok, hitems⟩ := enqueue_spec validate q payload critical
  cases henq.symm.trans hok
  have hnew : (if critical then [payload] else []).Sublist [payload] := by
    cases critical <;> simp
  rw [hitems]
  by_cases hspace : q.items.length < BACKPRESSURE_QUEUE_LIMIT
  · rw [if_pos hspace]
    exact List.Sublist.append List.filter_sublist hnew
  · rw [if_neg hspace]
    cases critical with
    | false => simp
    | true =>
        rw [if_pos rfl, if_pos rfl, List.length_append, List.length_singleton,
          Nat.sub_eq_zero_of_le hroom, List.drop_zero]

structure Orderly (s : QueueRun Payload) : Prop where
  quiet : s.escaped = none
  inOrder : s.queue.items.Sublist s.arrived

theorem step_enqueue (validate : Payload → Option EventEnvelope) (s : QueueRun Payload) (payload : Payload) (critical : Bool) :
    ∃ q', enqueue validate s.queue payload critical = .ok q' ∧
      (queueMachine validate).step s (.enqueue payload critical) =
        some { s with queue := q', arrived := s.arrived ++ [payload] } := by
  obtain ⟨q', henq, -⟩ := enqueue_spec validate s.queue payload critical
  exact ⟨q', henq, by simp only [queueMachine, henq]⟩

theorem orderly_step (h : Orderly s) (hstep : (queueMachine validate).step s e = some s') :
    Orderly s' := by
  cases e with
  | enqueue payload critical =>
      obtain ⟨q', henq, hnext⟩ := step_enqueue validate s payload critical
      cases hnext.symm.trans hstep
      exact ⟨h.quiet, (enqueue_sublist henq).trans (List.Sublist.append h.inOrder (.refl _))⟩
  | dequeue =>
      cases hitems : s.queue.items with
      | nil =>
          have hwaits : s.queue = AsyncQueue.empty := AsyncQueue.ext_items hitems
          simp only [queueMachine, hwaits] at hstep
          cases hstep
      | cons item items =>
          obtain ⟨q', hget, hrest⟩ := AsyncQueue.getNowait_cons hitems
          simp only [queueMachine, hget] at hstep
          cases hstep
          refine ⟨h.quiet, ?_⟩
          have hold := h.inOrder
          rw [hitems] at hold
          rw [hrest]
          exact (List.sublist_cons_self item items).trans hold

theorem queue_never_overflows {events : List (QueueEvent Payload)}
    (hrun : (queueMachine validate).run freshQueue events = some s) :
    s.queue.items.length ≤ BACKPRESSURE_QUEUE_LIMIT ∧ s.escaped = none ∧
      s.queue.items.Sublist s.arrived ∧
      ∀ (payload : Payload) (critical : Bool), ∃ s',
        (queueMachine validate).step s (.enqueue payload critical) = some s' ∧
          s'.escaped = none ∧
          (critical = true → payload ∈ s'.queue.items) ∧
          s'.queue.items.Sublist (s.queue.items ++ [payload]) ∧
          ((s.queue.items.filter (stays validate)).length + 1 ≤ BACKPRESSURE_QUEUE_LIMIT →
            (s.queue.items.filter (stays validate) ++
              if critical then [payload] else []).Sublist s'.queue.items) := by
  have hstart : Orderly (freshQueue : QueueRun Payload) := ⟨rfl, List.Sublist.refl _⟩
  have horderly : Orderly s := (queueMachine validate).invariant_of_step orderly_step hstart hrun
  refine ⟨s.queue.bounded, horderly.quiet, horderly.inOrder, ?_⟩
  intro payload critical
  obtain ⟨q', henq, hstep⟩ := step_enqueue validate s payload critical
  refine ⟨_, hstep, horderly.quiet, ?_, enqueue_sublist henq, enqueue_keeps henq⟩
  rintro rfl
  exact enqueue_critical henq

def acknowledged : String → Option EventEnvelope := fun _ => none

theorem queue_never_overflows_ack :
    ∃ s, (queueMachine acknowledged).run freshQueue
        [.enqueue "subscribed" true, .enqueue "pong" true, .dequeue] = some s ∧
      s.queue.items = ["pong"] ∧ s.queue.items.length ≤ BACKPRESSURE_QUEUE_LIMIT ∧
      s.escaped = none ∧ s.queue.items.Sublist s.arrived := by
  have hrun : ∃ s, (queueMachine acknowledged).run freshQueue
      [.enqueue "subscribed" true, .enqueue "pong" true, .dequeue] = some s ∧
        s.queue.items = ["pong"] := ⟨_, rfl, rfl⟩
  obtain ⟨s, hrun, hitems⟩ := hrun
  obtain ⟨hbound, hquiet, horder, -⟩ := queue_never_overflows hrun
  exact ⟨s, hrun, hitems, hbound, hquiet, horder⟩

end WebSocketHub

namespace ConnectedClient

open WebSocketHub

def envelope : QueueItem → Option EventEnvelope
  | .event e => some e
  | .subscribed _ | .unsubscribed _ => none

-- The queue of a client in the hub is this queue, filled with events and acknowledgements.
theorem enqueue_client {c : ConnectedClient} {q : ClientQueue QueueItem} (hq : q.items = c.queue)
    (item : QueueItem) (critical : Bool) :
    ∃ q', WebSocketHub.enqueue envelope q item critical = .ok q' ∧
      q'.items = (c.enqueue item critical).queue := by
  have hkeeps : stays envelope = keeps := by
    funext item
    cases item <;> rfl
  obtain ⟨q', hok, hitems⟩ := enqueue_spec envelope q item critical
  refine ⟨q', hok, ?_⟩
  rw [hitems, hkeeps, hq, ConnectedClient.enqueue]
  split
  · rfl
  · cases critical <;> simp only [Bool.false_eq_true, if_false, if_true]

end ConnectedClient

end BTagent
