import BTagent.Lib.Machine
import Mathlib.Algebra.Order.Field.Rat
import Mathlib.Data.Rat.Lemmas
import Mathlib.Logic.Function.Basic
import Mathlib.Tactic.Linarith
import Mathlib.Tactic.Positivity

namespace BTagent

def RATE_LIMITS : List (String × ℕ) :=
  [("analyst", 60), ("senior_analyst", 120), ("incident_commander", 200), ("admin", 500)]

namespace RateLimiter

-- `RATE_LIMITS.get(role, 60)`
def limit (role : String) : ℕ := (RATE_LIMITS.lookup role).getD 60

structure TokenBucket where
  capacity : ℤ
  tokens : ℚ
  lastRefill : ℚ
  refillRate : ℚ

def TokenBucket.refill (bucket : TokenBucket) (now : ℚ) : TokenBucket :=
  let elapsed := now - bucket.lastRefill
  { bucket with
    tokens := min bucket.capacity (bucket.tokens + elapsed * bucket.refillRate)
    lastRefill := now }

abbrev LocalBuckets := String → Option TokenBucket

-- What a hash of the store holds, and when it expires.
structure StoredBucket where
  tokens : ℚ
  lastRefill : ℚ
  expiresAt : ℚ

abbrev RedisStore := String → Option StoredBucket

-- The script: what is left of a bucket, and whether a token was taken.
def script (stored : Option StoredBucket) (capacity : ℤ) (refillRate now : ℚ) :
    StoredBucket × Bool :=
  let (tokens, lastRefill) := match stored with
    | some bucket => (bucket.tokens, bucket.lastRefill)
    | none => ((capacity : ℚ), now)
  let elapsed := now - lastRefill
  let tokens := min (capacity : ℚ) (tokens + elapsed * refillRate)
  if tokens < 1 then (⟨tokens, now, now + 120⟩, false) else (⟨tokens - 1, now, now + 120⟩, true)

def live (store : RedisStore) (key : String) (now : ℚ) : Option StoredBucket :=
  (store key).filter fun bucket => now ≤ bucket.expiresAt

def checkRateLimitRedis (store : RedisStore) (key : String) (capacity : ℤ) (refillRate now : ℚ) :
    RedisStore × Bool :=
  let (bucket, allowed) := script (live store key now) capacity refillRate now
  (Function.update store key (some bucket), allowed)

def checkRateLimitLocal (buckets : LocalBuckets) (key : String) (capacity : ℤ)
    (refillRate now : ℚ) : LocalBuckets × Bool :=
  let bucket := (buckets key).getD ⟨capacity, capacity, now, refillRate⟩
  let bucket := bucket.refill now
  if bucket.tokens < 1 then (Function.update buckets key (some bucket), false)
  else
    (Function.update buckets key (some { bucket with tokens := bucket.tokens - 1 }), true)

structure Request where
  time : ℚ
  userId : String
  role : String
  burst : Option ℤ := none

namespace Request

def key (r : Request) : String := s!"btagent:ratelimit:{r.userId}"

def capacity (r : Request) : ℤ := r.burst.getD (limit r.role)

def refillRate (r : Request) : ℚ := limit r.role / 60

end Request

def checkLocal (buckets : LocalBuckets) (r : Request) : LocalBuckets × Bool :=
  checkRateLimitLocal buckets r.key r.capacity r.refillRate r.time

def checkRedis (store : RedisStore) (r : Request) : RedisStore × Bool :=
  checkRateLimitRedis store r.key r.capacity r.refillRate r.time

end RateLimiter

namespace RateLimiter

-- The same requests put to both limiters.
structure Limiters where
  buckets : LocalBuckets
  store : RedisStore
  clock : ℚ
  allowedLocal : List Bool
  allowedRedis : List Bool

namespace Limiters

def init (start : ℚ) : Limiters := ⟨fun _ => none, fun _ => none, start, [], []⟩

def next (s : Limiters) (r : Request) : Limiters where
  buckets := (checkLocal s.buckets r).1
  store := (checkRedis s.store r).1
  clock := r.time
  allowedLocal := s.allowedLocal ++ [(checkLocal s.buckets r).2]
  allowedRedis := s.allowedRedis ++ [(checkRedis s.store r).2]

def machine : Machine Limiters Request where
  step s r := if s.clock ≤ r.time then some (s.next r) else none

-- The user's bucket was made for this capacity and rate, and it is full again where the stored
-- one has expired.
def Steady (s : Limiters) (r : Request) : Prop :=
  ∀ bucket ∈ s.buckets r.key,
    (bucket.capacity = r.capacity ∧ bucket.refillRate = r.refillRate) ∧
      (r.time ≤ bucket.lastRefill + 120 ∨ r.capacity ≤ (bucket.refill r.time).tokens)

instance (s : Limiters) (r : Request) : Decidable (s.Steady r) :=
  inferInstanceAs (Decidable (∀ bucket ∈ s.buckets r.key, _))

def Matches (stored : StoredBucket) (bucket : TokenBucket) : Prop :=
  stored.tokens = bucket.tokens ∧ stored.lastRefill = bucket.lastRefill ∧
    stored.expiresAt = bucket.lastRefill + 120

-- Every user has the same bucket in both.
structure InStep (s : Limiters) : Prop where
  buckets : ∀ key, Option.Rel Matches (s.store key) (s.buckets key)
  answers : s.allowedLocal = s.allowedRedis

theorem inStep_init (start : ℚ) : InStep (init start) := ⟨fun _ => Option.Rel.none, rfl⟩

-- The bucket that a request finds full or refills.
def drawn (bucket : TokenBucket) : TokenBucket × Bool :=
  if bucket.tokens < 1 then (bucket, false) else ({ bucket with tokens := bucket.tokens - 1 }, true)

theorem checkLocal_eq (buckets : LocalBuckets) (r : Request) :
    checkLocal buckets r =
      let result := drawn (((buckets r.key).getD
        ⟨r.capacity, r.capacity, r.time, r.refillRate⟩).refill r.time)
      (Function.update buckets r.key (some result.1), result.2) := by
  simp only [checkLocal, checkRateLimitLocal, drawn]
  split <;> rfl

theorem script_eq (stored : Option StoredBucket) (capacity : ℤ) (refillRate now : ℚ)
    {bucket : TokenBucket}
    (h : bucket.tokens = min (capacity : ℚ) (stored.elim (capacity : ℚ) StoredBucket.tokens +
      (now - stored.elim now StoredBucket.lastRefill) * refillRate)) :
    script stored capacity refillRate now =
      (⟨(drawn bucket).1.tokens, now, now + 120⟩, (drawn bucket).2) := by
  unfold script drawn
  cases stored <;> simp only [Option.elim_none, Option.elim_some] at h <;> simp only [← h] <;>
    split <;> rfl

theorem refill_stored {s : Limiters} {r : Request} {bucket : TokenBucket} {stored : StoredBucket}
    (hsteady : s.Steady r) (hbucket : s.buckets r.key = some bucket)
    (hmatches : Matches stored bucket) :
    (bucket.refill r.time).tokens = min (r.capacity : ℚ)
      (((some stored).filter fun b => r.time ≤ b.expiresAt).elim (r.capacity : ℚ)
          StoredBucket.tokens +
        (r.time - ((some stored).filter fun b => r.time ≤ b.expiresAt).elim r.time
          StoredBucket.lastRefill) * r.refillRate) := by
  obtain ⟨⟨hcapacity, hrate⟩, hidle⟩ := hsteady bucket hbucket
  obtain ⟨htokens, hlast, hexpires⟩ := hmatches
  by_cases hlive : r.time ≤ stored.expiresAt
  · rw [Option.filter_some_pos (by simpa using hlive)]
    simp only [Option.elim_some, TokenBucket.refill, htokens, hlast, hcapacity, hrate]
  · have hfull : (r.capacity : ℚ) ≤ (bucket.refill r.time).tokens := by
      rw [hexpires] at hlive
      exact hidle.resolve_left hlive
    have hbound : (bucket.refill r.time).tokens ≤ r.capacity := by
      rw [← hcapacity]
      exact min_le_left _ _
    rw [Option.filter_some_neg (by simpa using hlive)]
    simp only [Option.elim_none, sub_self, zero_mul, add_zero, min_self]
    exact le_antisymm hbound hfull

theorem drawn_lastRefill (bucket : TokenBucket) :
    (drawn bucket).1.lastRefill = bucket.lastRefill := by
  unfold drawn
  split <;> rfl

theorem inStep_next {s : Limiters} {r : Request} (hs : InStep s) (hsteady : s.Steady r) :
    InStep (s.next r) := by
  let bucket := ((s.buckets r.key).getD ⟨r.capacity, r.capacity, r.time, r.refillRate⟩).refill r.time
  have htokens : bucket.tokens = min (r.capacity : ℚ)
      ((live s.store r.key r.time).elim (r.capacity : ℚ) StoredBucket.tokens +
        (r.time - (live s.store r.key r.time).elim r.time StoredBucket.lastRefill) *
          r.refillRate) := by
    have hrel := hs.buckets r.key
    unfold live
    cases hbucket : s.buckets r.key with
    | none =>
        rw [hbucket] at hrel
        cases hstored : s.store r.key with
        | none => simp only [bucket, hbucket, Option.getD_none, TokenBucket.refill]; rfl
        | some stored => rw [hstored] at hrel; cases hrel
    | some b =>
        rw [hbucket] at hrel
        cases hstored : s.store r.key with
        | none => rw [hstored] at hrel; cases hrel
        | some stored =>
            rw [hstored] at hrel
            cases hrel with
            | some hmatches =>
                simp only [bucket, hbucket, Option.getD_some]
                exact refill_stored hsteady hbucket hmatches
  have hscript := script_eq (live s.store r.key r.time) r.capacity r.refillRate r.time htokens
  have hlocal := checkLocal_eq s.buckets r
  have hredis : checkRedis s.store r = (Function.update s.store r.key
      (some ⟨(drawn bucket).1.tokens, r.time, r.time + 120⟩), (drawn bucket).2) := by
    rw [checkRedis, checkRateLimitRedis, hscript]
  constructor
  · intro key
    simp only [next, hlocal, hredis]
    rcases eq_or_ne key r.key with rfl | hne
    · rw [Function.update_self, Function.update_self]
      have hlast : (drawn bucket).1.lastRefill = r.time := drawn_lastRefill bucket
      exact Option.Rel.some ⟨rfl, hlast.symm, by rw [hlast]⟩
    · rw [Function.update_of_ne hne, Function.update_of_ne hne]
      exact hs.buckets key
  · simp only [next, hlocal, hredis, hs.answers]
    rfl

theorem machine_step {s s' : Limiters} {r : Request} :
    machine.step s r = some s' ↔ s.clock ≤ r.time ∧ s' = s.next r := by
  simp only [machine, Option.ite_none_right_eq_some, Option.some_inj]
  exact and_congr_right fun _ => eq_comm

theorem inStep_run {s t : Limiters} {requests : List Request} (hs : InStep s)
    (hsteady : machine.Along Steady s requests) (hrun : machine.run s requests = some t) :
    InStep t := by
  apply machine.invariant_along _ hs hsteady hrun
  intro s r s' hs hg hstep
  rw [(machine_step.mp hstep).2]
  exact inStep_next hs hg

theorem same_answers {start : ℚ} {requests : List Request} {t : Limiters}
    (hsteady : machine.Along Steady (init start) requests)
    (hrun : machine.run (init start) requests = some t) :
    t.allowedLocal = t.allowedRedis :=
  (inStep_run (inStep_init start) hsteady hrun).answers

-- A bucket that is drawn empty, left alone until it is full again, and then drawn once more.
def quietUser : List Request :=
  [⟨0, "mallory", "analyst", some 1⟩, ⟨0, "mallory", "analyst", some 1⟩,
    ⟨500, "mallory", "analyst", some 1⟩]

theorem same_answers_quietUser :
    (machine.run (init 0) quietUser).map (fun t => decide (t.allowedLocal = t.allowedRedis)) =
      some true := by
  have hsteady : machine.Along Steady (init 0) quietUser := by decide +kernel
  have hruns : (machine.run (init 0) quietUser).isSome = true := by decide
  obtain ⟨t, ht⟩ := Option.isSome_iff_exists.mp hruns
  rw [ht, Option.map_some, decide_eq_true (same_answers hsteady ht)]

-- The burst of the first request stays the capacity of the local bucket.
def widerBurst : List Request :=
  [⟨0, "mallory", "analyst", some 1⟩, ⟨10, "mallory", "analyst", none⟩,
    ⟨10, "mallory", "analyst", none⟩]

theorem widerBurst_differs :
    ¬ ∀ start requests t, machine.run (init start) requests = some t →
      t.allowedLocal = t.allowedRedis := by
  have hrun : ((machine.run (init 0) widerBurst).any fun t =>
      decide (t.allowedLocal ≠ t.allowedRedis)) = true := by
    decide +kernel
  obtain ⟨t, ht, hdiffer⟩ := (Option.any_eq_true _ _).mp hrun
  intro h
  exact of_decide_eq_true hdiffer (h 0 widerBurst t ht)

section Fixed
variable {requests : List Request}

-- Each user keeps one capacity and one rate, and no burst is more than two minutes refill.
structure Fixed (requests : List Request) : Prop where
  same : ∀ r ∈ requests, ∀ r' ∈ requests, r.key = r'.key →
    r.capacity = r'.capacity ∧ r.refillRate = r'.refillRate
  refilled : ∀ r ∈ requests, (r.capacity : ℚ) ≤ 120 * r.refillRate

structure Kept (requests : List Request) (s : Limiters) (key : String) (bucket : TokenBucket) :
    Prop where
  maker : ∃ r ∈ requests, r.key = key ∧ bucket.capacity = r.capacity ∧
    bucket.refillRate = r.refillRate
  floor : min 0 (bucket.capacity : ℚ) ≤ bucket.tokens
  past : bucket.lastRefill ≤ s.clock

def AllKept (requests : List Request) (s : Limiters) : Prop :=
  ∀ key, ∀ bucket ∈ s.buckets key, Kept requests s key bucket

theorem refillRate_nonneg (r : Request) : 0 ≤ r.refillRate := by
  unfold Request.refillRate
  positivity

theorem steady_of_kept (hfixed : Fixed requests) {s : Limiters} (hs : AllKept requests s)
    {r : Request} (hr : r ∈ requests) : s.Steady r := by
  intro bucket hbucket
  obtain ⟨⟨maker, hmaker, hkey, hcapacity, hrate⟩, hfloor, hpast⟩ := hs r.key bucket hbucket
  obtain ⟨hsameCapacity, hsameRate⟩ := hfixed.same maker hmaker r hr hkey
  refine ⟨⟨hcapacity.trans hsameCapacity, hrate.trans hsameRate⟩, ?_⟩
  rcases le_or_gt r.time (bucket.lastRefill + 120) with hsoon | hidle
  · exact Or.inl hsoon
  · right
    have hfill := hfixed.refilled r hr
    have hnonneg := refillRate_nonneg r
    have helapsed : 120 * r.refillRate ≤ (r.time - bucket.lastRefill) * r.refillRate :=
      mul_le_mul_of_nonneg_right (by linarith) hnonneg
    rw [hcapacity, hsameCapacity] at hfloor
    simp only [TokenBucket.refill, hcapacity, hsameCapacity, hrate, hsameRate]
    apply le_min le_rfl
    rcases min_le_iff.mp hfloor with hzero | hnegative
    · linarith
    · nlinarith

theorem refill_floor {bucket : TokenBucket} {now : ℚ} (hrate : 0 ≤ bucket.refillRate)
    (hpast : bucket.lastRefill ≤ now) (hfloor : min 0 (bucket.capacity : ℚ) ≤ bucket.tokens) :
    min 0 (bucket.capacity : ℚ) ≤ (bucket.refill now).tokens := by
  have hgain : 0 ≤ (now - bucket.lastRefill) * bucket.refillRate :=
    mul_nonneg (by linarith) hrate
  apply le_min (min_le_right _ _)
  linarith

theorem drawn_floor {bucket : TokenBucket} (hfloor : min 0 (bucket.capacity : ℚ) ≤ bucket.tokens) :
    min 0 ((drawn bucket).1.capacity : ℚ) ≤ (drawn bucket).1.tokens := by
  unfold drawn
  split
  · exact hfloor
  · rename_i hone
    exact (min_le_left _ _).trans (by dsimp only; linarith)

theorem drawn_settings (bucket : TokenBucket) :
    (drawn bucket).1.capacity = bucket.capacity ∧
      (drawn bucket).1.refillRate = bucket.refillRate := by
  unfold drawn
  split <;> exact ⟨rfl, rfl⟩

theorem allKept_next {s : Limiters} (hs : AllKept requests s) {r : Request} (hr : r ∈ requests)
    (hclock : s.clock ≤ r.time) : AllKept requests (s.next r) := by
  intro key bucket hbucket
  simp only [next, checkLocal_eq] at hbucket
  rcases eq_or_ne key r.key with rfl | hne
  · rw [Function.update_self, Option.mem_some_iff] at hbucket
    subst hbucket
    have hold : ∃ old : TokenBucket,
        (s.buckets r.key).getD ⟨r.capacity, r.capacity, r.time, r.refillRate⟩ = old ∧
        (∃ maker ∈ requests, maker.key = r.key ∧ old.capacity = maker.capacity ∧
          old.refillRate = maker.refillRate) ∧
        min 0 (old.capacity : ℚ) ≤ old.tokens ∧ old.lastRefill ≤ r.time := by
      cases hfound : s.buckets r.key with
      | none => exact ⟨_, rfl, ⟨r, hr, rfl, rfl, rfl⟩, min_le_right _ _, le_rfl⟩
      | some old =>
          obtain ⟨hmaker, hfloor, hpast⟩ := hs r.key old hfound
          exact ⟨old, rfl, hmaker, hfloor, hpast.trans hclock⟩
    obtain ⟨old, hget, ⟨maker, hmaker, hkey, hcapacity, hrate⟩, hfloor, hpast⟩ := hold
    rw [hget]
    obtain ⟨hkeepCapacity, hkeepRate⟩ := drawn_settings (old.refill r.time)
    constructor
    · exact ⟨maker, hmaker, hkey, hkeepCapacity.trans hcapacity, hkeepRate.trans hrate⟩
    · exact drawn_floor (refill_floor (hrate ▸ refillRate_nonneg maker) hpast hfloor)
    · exact (drawn_lastRefill (old.refill r.time)).le
  · rw [Function.update_of_ne hne] at hbucket
    obtain ⟨hmaker, hfloor, hpast⟩ := hs key bucket hbucket
    exact ⟨hmaker, hfloor, hpast.trans hclock⟩

theorem steady_along (hfixed : Fixed requests) {s : Limiters} (hs : AllKept requests s)
    {rs : List Request} (hrs : rs ⊆ requests) : machine.Along Steady s rs := by
  induction rs generalizing s with
  | nil => trivial
  | cons r rs ih =>
      have hr := hrs List.mem_cons_self
      refine ⟨steady_of_kept hfixed hs hr, ?_⟩
      cases hstep : machine.step s r with
      | none => trivial
      | some s' =>
          obtain ⟨hclock, rfl⟩ := machine_step.mp hstep
          exact ih (allKept_next hs hr hclock) fun x hx => hrs (List.mem_cons_of_mem _ hx)

theorem fixed_limits_agree (hfixed : Fixed requests) {start : ℚ} {t : Limiters}
    (hrun : machine.run (init start) requests = some t) : t.allowedLocal = t.allowedRedis := by
  have hkept : AllKept requests (init start) := fun _ _ hbucket =>
    absurd hbucket (Option.not_mem_none _)
  exact (inStep_run (inStep_init start)
    (steady_along hfixed hkept (List.Subset.refl requests)) hrun).answers

end Fixed

end Limiters

end RateLimiter

end BTagent
