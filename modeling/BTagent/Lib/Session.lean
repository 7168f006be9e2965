import Mathlib.Logic.Basic

inductive SessionError where
  | flushFailed
  | pendingRollback
  deriving DecidableEq

-- A session over a database: what is committed, what its transaction sees, and whether it is usable.
structure Session (σ : Type*) where
  committed : σ
  working : σ
  active : Bool

namespace Session

variable {σ : Type*}

def fresh (d : σ) : Session σ := ⟨d, d, true⟩

-- The state after a flush that failed outside a savepoint.
def deactivated (s : Session σ) : Session σ := ⟨s.committed, s.committed, false⟩

end Session

-- A program on a session, which keeps the session when it raises.
def SessionM (σ : Type*) (α : Type*) := Session σ → Except SessionError α × Session σ

namespace SessionM

variable {σ α β : Type*}

def ret (a : α) : SessionM σ α := fun s => (.ok a, s)

def andThen (p : SessionM σ α) (f : α → SessionM σ β) : SessionM σ β := fun s =>
  match p s with
  | (.ok a, s') => f a s'
  | (.error e, s') => (.error e, s')

def execute (query : σ → α) : SessionM σ α := fun s =>
  if s.active then (.ok (query s.working), s) else (.error .pendingRollback, s)

-- A flush with nothing pending sends nothing that could be refused.
def flush (pending : Option (σ → σ)) (refused : Bool) : SessionM σ Unit := fun s =>
  if s.active then
    match pending with
    | none => (.ok (), s)
    | some change =>
        if refused then (.error .flushFailed, s.deactivated)
        else (.ok (), { s with working := change s.working })
  else (.error .pendingRollback, s)

def commit : SessionM σ Unit := fun s =>
  if s.active then (.ok (), { s with committed := s.working }) else (.error .pendingRollback, s)

-- `try: p` with an `except Exception` that returns `a`.
def swallow (p : SessionM σ α) (a : α) : SessionM σ α := fun s =>
  match p s with
  | (.ok b, s') => (.ok b, s')
  | (.error _, s') => (.ok a, s')

-- `async with begin_nested(): p`, which rolls back to its savepoint when `p` raises.
def savepoint (p : SessionM σ α) : SessionM σ α := fun s =>
  match p s with
  | (.ok a, s') => (.ok a, s')
  | (.error e, _) => (.error e, s)

def Unusable (p : SessionM σ α) : Prop := ∀ s, s.active = false → p s = (.error .pendingRollback, s)

section Rules
variable {p : SessionM σ α} {f : α → SessionM σ β} {q : σ → α} {s s' : Session σ} {a : α} {b : β}
  {e : SessionError} {change : σ → σ} {refused : Bool}

theorem andThen_ok (h : p s = (.ok a, s')) : p.andThen f s = f a s' := by
  simp only [andThen, h]

theorem andThen_error (h : p s = (.error e, s')) : p.andThen f s = (.error e, s') := by
  simp only [andThen, h]

theorem execute_active (h : s.active = true) : execute q s = (.ok (q s.working), s) := by
  simp only [execute, h, if_true]

theorem execute_andThen {f : α → SessionM σ β} (h : s.active = true) :
    (execute q).andThen f s = f (q s.working) s := andThen_ok (execute_active h)

theorem flush_none (h : s.active = true) : flush none refused s = (.ok (), s) := by
  simp only [flush, h, if_true]

theorem flush_some (h : s.active = true) :
    flush (some change) false s = (.ok (), { s with working := change s.working }) := by
  simp [flush, h]

theorem flush_refused (h : s.active = true) :
    flush (some change) true s = (.error .flushFailed, s.deactivated) := by
  simp only [flush, h, if_true]

theorem unusable_execute : (execute q).Unusable := by
  intro s h
  simp [execute, h]

theorem Unusable.andThen (h : p.Unusable) : (p.andThen f).Unusable :=
  fun s hs => andThen_error (h s hs)

theorem Unusable.swallow (h : p.Unusable) (hs : s.active = false) : p.swallow a s = (.ok a, s) := by
  simp only [SessionM.swallow, h s hs]

theorem swallow_ok (h : p s = (.ok a, s')) {c : α} : p.swallow c s = (.ok a, s') := by
  simp only [SessionM.swallow, h]

theorem swallow_error (h : p s = (.error e, s')) : p.swallow a s = (.ok a, s') := by
  simp only [SessionM.swallow, h]

theorem savepoint_ok (h : p s = (.ok a, s')) : p.savepoint s = (.ok a, s') := by
  simp only [savepoint, h]

theorem savepoint_error (h : p s = (.error e, s')) : p.savepoint s = (.error e, s) := by
  simp only [savepoint, h]

end Rules

end SessionM
