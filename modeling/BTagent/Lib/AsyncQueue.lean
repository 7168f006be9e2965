import Mathlib.Data.List.Basic

-- `asyncio.Queue(maxsize)` with a positive `maxsize`: first in, first out, and never more than that.
structure AsyncQueue (α : Type*) (maxsize : ℕ) where
  items : List α
  bounded : items.length ≤ maxsize

inductive QueueError where
  | QueueFull
  | QueueEmpty
  deriving DecidableEq

namespace AsyncQueue

variable {α : Type*} {n : ℕ} {q q' : AsyncQueue α n} {a : α}

def empty : AsyncQueue α n := ⟨[], Nat.zero_le n⟩

def isEmpty (q : AsyncQueue α n) : Bool := q.items.isEmpty

def full (q : AsyncQueue α n) : Bool := n ≤ q.items.length

def putNowait (q : AsyncQueue α n) (a : α) : Except QueueError (AsyncQueue α n) :=
  if h : q.items.length < n then
    .ok ⟨q.items ++ [a], by rw [List.length_append, List.length_singleton]; exact h⟩
  else .error .QueueFull

def getNowait (q : AsyncQueue α n) : Except QueueError (α × AsyncQueue α n) :=
  match q with
  | ⟨[], _⟩ => .error .QueueEmpty
  | ⟨a :: items, h⟩ => .ok (a, ⟨items, Nat.le_of_succ_le h⟩)

theorem ext_items (h : q.items = q'.items) : q = q' := by
  cases q
  cases q'
  cases h
  rfl

theorem full_iff : q.full = true ↔ n ≤ q.items.length := decide_eq_true_iff

theorem putNowait_ok (h : q.items.length < n) :
    ∃ q', q.putNowait a = .ok q' ∧ q'.items = q.items ++ [a] :=
  ⟨_, dif_pos h, rfl⟩

theorem getNowait_cons {items : List α} (h : q.items = a :: items) :
    ∃ q', q.getNowait = .ok (a, q') ∧ q'.items = items := by
  obtain ⟨items', hbound⟩ := q
  cases h
  exact ⟨⟨items, Nat.le_of_succ_le hbound⟩, rfl, rfl⟩

theorem getNowait_length {p : α × AsyncQueue α n} (h : q.getNowait = .ok p) :
    p.2.items.length < q.items.length := by
  obtain ⟨items, hbound⟩ := q
  cases items with
  | nil => cases h
  | cons a items =>
      cases h
      exact Nat.lt_succ_self items.length

end AsyncQueue
