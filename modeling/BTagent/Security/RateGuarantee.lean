import BTagent.Lib.Bucket
import BTagent.Security.RateLimiter

namespace BTagent

namespace RateLimiter

namespace Limiters

variable {s t : Limiters} {r : Request} {rs : List Request} {key : String}
  {capacity rate start finish : ℚ} {given : ℕ}

-- How many requests on the bucket were let through from `start` to `finish`.
def admitted (key : String) (start finish : ℚ) (rs : List Request) (answers : List Bool) : ℕ :=
  (rs.zip answers).countP fun p => p.2 ∧ p.1.key = key ∧ start ≤ p.1.time ∧ p.1.time ≤ finish

-- No request on the bucket asks for more than the capacity and the rate.
structure Bounded (capacity rate : ℚ) (r : Request) : Prop where
  nonneg : 0 ≤ r.capacity
  capacity : (r.capacity : ℚ) ≤ capacity
  rate : r.refillRate ≤ rate

-- What is known of the stored bucket while the window is open, and of the window once it is closed.
structure RedisWithin (key : String) (capacity rate start finish : ℚ) (given : ℕ) (s : Limiters) :
    Prop where
  bound : (given : ℚ) ≤ capacity + rate * (finish - start)
  bucket : s.clock ≤ finish → ∀ b ∈ s.store key, b.expiresAt = b.lastRefill + 120 ∧
    b.lastRefill ≤ s.clock ∧ Bucket.Within capacity rate start given b.tokens b.lastRefill
  untouched : s.store key = none → given = 0

-- The bucket of a process keeps the capacity and the rate of the request that it was made for.
structure LocalWithin (key : String) (capacity rate start finish : ℚ) (given : ℕ) (s : Limiters) :
    Prop where
  bound : (given : ℚ) ≤ capacity + rate * (finish - start)
  bucket : s.clock ≤ finish → ∀ b ∈ s.buckets key,
    (0 ≤ b.capacity ∧ (b.capacity : ℚ) ≤ capacity) ∧ (0 ≤ b.refillRate ∧ b.refillRate ≤ rate) ∧
      b.lastRefill ≤ s.clock ∧ Bucket.Within capacity rate start given b.tokens b.lastRefill
  untouched : s.buckets key = none → given = 0

theorem run_concat : machine.run s (rs ++ [r]) = some t ↔
    ∃ u, machine.run s rs = some u ∧ u.clock ≤ r.time ∧ t = u.next r := by
  simp only [Machine.run_append, Machine.run_cons, Machine.run_nil, machine_step]
  constructor
  · rintro ⟨u, hu, v, ⟨hclock, rfl⟩, ht⟩
    exact ⟨u, hu, hclock, (Option.some.inj ht).symm⟩
  · rintro ⟨u, hu, hclock, rfl⟩
    exact ⟨u, hu, _, ⟨hclock, rfl⟩, rfl⟩

theorem admitted_concat {answers : List Bool} {answer : Bool} (hlength : rs.length = answers.length) :
    admitted key start finish (rs ++ [r]) (answers ++ [answer]) =
      admitted key start finish rs answers +
        if answer ∧ r.key = key ∧ start ≤ r.time ∧ r.time ≤ finish then 1 else 0 := by
  rw [admitted, List.zip_append hlength, List.countP_append]
  simp [admitted, List.countP_cons]

theorem length_answers {first : ℚ} (h : machine.run (init first) rs = some s) :
    rs.length = s.allowedLocal.length ∧ rs.length = s.allowedRedis.length := by
  induction rs using List.reverseRecOn generalizing s with
  | nil =>
      cases h
      exact ⟨rfl, rfl⟩
  | append_singleton rs r ih =>
      obtain ⟨u, hu, -, rfl⟩ := run_concat.mp h
      obtain ⟨hlocal, hredis⟩ := ih hu
      simp only [Limiters.next, List.length_append, List.length_singleton]
      exact ⟨congrArg (· + 1) hlocal, congrArg (· + 1) hredis⟩

theorem within_drawn {bucket : TokenBucket} {last : ℚ}
    (h : Bucket.Within capacity rate start given bucket.tokens last) :
    Bucket.Within capacity rate start (given + if (drawn bucket).2 ∧ start ≤ last then 1 else 0)
      (drawn bucket).1.tokens last := by
  unfold drawn
  by_cases hempty : bucket.tokens < 1
  · simpa [hempty] using h
  · simpa [hempty] using h.take (not_lt.mp hempty)

section Redis

-- The level that the script finds the bucket at.
theorem within_stored (hs : RedisWithin key capacity rate start finish given s)
    (hclock : s.clock ≤ r.time) (hopen : r.time ≤ finish) (hr : Bounded capacity rate r)
    (hidle : capacity ≤ 120 * rate) :
    Bucket.Within capacity rate start given
      (min (r.capacity : ℚ) ((live s.store key r.time).elim (r.capacity : ℚ) StoredBucket.tokens +
        (r.time - (live s.store key r.time).elim r.time StoredBucket.lastRefill) * r.refillRate))
      r.time := by
  have hcapacity : (0 : ℚ) ≤ r.capacity := by exact_mod_cast hr.nonneg
  have hrate : 0 ≤ rate := (refillRate_nonneg r).trans hr.rate
  have hfull : min (r.capacity : ℚ) (r.capacity + (r.time - r.time) * r.refillRate) = r.capacity := by
    simp
  rw [live]
  cases hstored : s.store key with
  | none =>
      rw [Option.filter_none, Option.elim_none, Option.elim_none, hfull, hs.untouched hstored]
      exact .fresh hcapacity hr.capacity hrate
  | some b =>
      obtain ⟨hexpires, hlast, hwithin⟩ := hs.bucket (hclock.trans hopen) b hstored
      rcases le_or_gt r.time b.expiresAt with hlive | hexpired
      · rw [Option.filter_some_pos (by simpa using hlive)]
        exact hwithin.refill (hlast.trans hclock) hcapacity hr.capacity (refillRate_nonneg r) hr.rate
      · rw [Option.filter_some_neg (by simpa using hexpired), Option.elim_none, Option.elim_none,
          hfull]
        refine hwithin.renew (hlast.trans hclock) hcapacity hr.capacity hrate ?_
        rw [hexpires] at hexpired
        have helapsed : 120 * rate ≤ (r.time - b.lastRefill) * rate :=
          mul_le_mul_of_nonneg_right (by linarith) hrate
        rw [mul_comm rate]
        exact hidle.trans helapsed

theorem redisWithin_next (hs : RedisWithin key capacity rate start finish given s)
    (hclock : s.clock ≤ r.time) (hr : r.key = key → Bounded capacity rate r)
    (hidle : capacity ≤ 120 * rate) (hwindow : start ≤ finish) :
    RedisWithin key capacity rate start finish
      (given + if (checkRedis s.store r).2 ∧ r.key = key ∧ start ≤ r.time ∧ r.time ≤ finish
        then 1 else 0) (s.next r) := by
  rcases ne_or_eq r.key key with hkey | rfl
  · have hsame : (s.next r).store key = s.store key := Function.update_of_ne hkey.symm _ _
    rw [if_neg fun h => hkey h.2.1, Nat.add_zero]
    refine ⟨hs.bound, ?_, ?_⟩
    · intro hopen b hb
      obtain ⟨hexpires, hlast, hwithin⟩ := hs.bucket (hclock.trans hopen) b (hsame ▸ hb)
      exact ⟨hexpires, hlast.trans hclock, hwithin⟩
    · rw [hsame]
      exact hs.untouched
  · rcases lt_or_ge finish r.time with hclosed | hopen
    · rw [if_neg fun h => absurd h.2.2.2 (not_le.mpr hclosed), Nat.add_zero]
      refine ⟨hs.bound, fun hopen => absurd hopen (not_le.mpr hclosed), ?_⟩
      intro hnone
      simp [Limiters.next, checkRedis, checkRateLimitRedis] at hnone
    · let level : ℚ := min (r.capacity : ℚ)
        ((live s.store r.key r.time).elim (r.capacity : ℚ) StoredBucket.tokens +
          (r.time - (live s.store r.key r.time).elim r.time StoredBucket.lastRefill) *
            r.refillRate)
      let bucket : TokenBucket := ⟨r.capacity, level, r.time, r.refillRate⟩
      have hscript : script (live s.store r.key r.time) r.capacity r.refillRate r.time =
          (⟨(drawn bucket).1.tokens, r.time, r.time + 120⟩, (drawn bucket).2) :=
        script_eq _ _ _ _ rfl
      have hlevel : Bucket.Within capacity rate start given bucket.tokens r.time :=
        within_stored hs hclock hopen (hr rfl) hidle
      have hwithin := within_drawn hlevel
      have hanswer : (checkRedis s.store r).2 = (drawn bucket).2 := by
        rw [checkRedis, checkRateLimitRedis, hscript]
      have hstored : (s.next r).store r.key =
          some ⟨(drawn bucket).1.tokens, r.time, r.time + 120⟩ := by
        simp only [Limiters.next, checkRedis, checkRateLimitRedis, hscript, Function.update_self]
      have hgiven : (if (checkRedis s.store r).2 ∧ r.key = r.key ∧ start ≤ r.time ∧ r.time ≤ finish
          then 1 else 0) = if (drawn bucket).2 ∧ start ≤ r.time then 1 else 0 := by
        simp [hanswer, hopen]
      rw [hgiven]
      have hrate : 0 ≤ rate := (refillRate_nonneg r).trans (hr rfl).rate
      refine ⟨hwithin.bound hrate hwindow hopen, ?_, ?_⟩
      · intro _ b hb
        rw [hstored] at hb
        obtain rfl := Option.some.inj hb
        exact ⟨rfl, le_rfl, hwithin⟩
      · intro hnone
        rw [hstored] at hnone
        cases hnone

theorem redisWithin_run {first : ℚ} (hcapacity : 0 ≤ capacity) (hrate : 0 ≤ rate)
    (hidle : capacity ≤ 120 * rate) (hwindow : start ≤ finish)
    (hbounded : ∀ r ∈ rs, r.key = key → Bounded capacity rate r)
    (h : machine.run (init first) rs = some s) :
    RedisWithin key capacity rate start finish (admitted key start finish rs s.allowedRedis) s := by
  induction rs using List.reverseRecOn generalizing s with
  | nil =>
      cases h
      refine ⟨?_, fun _ b hb => absurd hb (by simp [init]), fun _ => rfl⟩
      have hgain := mul_nonneg hrate (sub_nonneg.mpr hwindow)
      simpa [admitted] using add_nonneg hcapacity hgain
  | append_singleton rs r ih =>
      obtain ⟨u, hu, hclock, rfl⟩ := run_concat.mp h
      have hu' := ih (fun r hr => hbounded r (List.mem_append_left _ hr)) hu
      have hnext := redisWithin_next hu' hclock
        (hbounded r (List.mem_append_right _ (List.mem_singleton_self _))) hidle hwindow
      rwa [← admitted_concat (length_answers hu).2] at hnext

end Redis

section Local

theorem within_refilled (hs : LocalWithin key capacity rate start finish given s)
    (hclock : s.clock ≤ r.time) (hopen : r.time ≤ finish) (hr : Bounded capacity rate r) :
    let bucket := ((s.buckets key).getD ⟨r.capacity, r.capacity, r.time, r.refillRate⟩).refill r.time
    ((0 ≤ bucket.capacity ∧ (bucket.capacity : ℚ) ≤ capacity) ∧
      (0 ≤ bucket.refillRate ∧ bucket.refillRate ≤ rate)) ∧
        Bucket.Within capacity rate start given bucket.tokens r.time := by
  have hcapacity : (0 : ℚ) ≤ r.capacity := by exact_mod_cast hr.nonneg
  cases hbucket : s.buckets key with
  | none =>
      refine ⟨⟨⟨hr.nonneg, hr.capacity⟩, refillRate_nonneg r, hr.rate⟩, ?_⟩
      have hfull : min (r.capacity : ℚ) (r.capacity + (r.time - r.time) * r.refillRate) =
          r.capacity := by
        simp
      rw [hs.untouched hbucket]
      simp only [Option.getD_none, TokenBucket.refill, hfull]
      exact .fresh hcapacity hr.capacity ((refillRate_nonneg r).trans hr.rate)
  | some b =>
      obtain ⟨hc, hrate, hlast, hwithin⟩ := hs.bucket (hclock.trans hopen) b hbucket
      refine ⟨⟨hc, hrate⟩, ?_⟩
      exact hwithin.refill (hlast.trans hclock) (by exact_mod_cast hc.1) hc.2 hrate.1 hrate.2

theorem localWithin_next (hs : LocalWithin key capacity rate start finish given s)
    (hclock : s.clock ≤ r.time) (hr : r.key = key → Bounded capacity rate r)
    (hwindow : start ≤ finish) :
    LocalWithin key capacity rate start finish
      (given + if (checkLocal s.buckets r).2 ∧ r.key = key ∧ start ≤ r.time ∧ r.time ≤ finish
        then 1 else 0) (s.next r) := by
  rcases ne_or_eq r.key key with hkey | rfl
  · have hsame : (s.next r).buckets key = s.buckets key := by
      rw [Limiters.next, checkLocal_eq]
      exact Function.update_of_ne hkey.symm _ _
    rw [if_neg fun h => hkey h.2.1, Nat.add_zero]
    refine ⟨hs.bound, ?_, ?_⟩
    · intro hopen b hb
      obtain ⟨hc, hrate, hlast, hwithin⟩ := hs.bucket (hclock.trans hopen) b (hsame ▸ hb)
      exact ⟨hc, hrate, hlast.trans hclock, hwithin⟩
    · rw [hsame]
      exact hs.untouched
  · rcases lt_or_ge finish r.time with hclosed | hopen
    · rw [if_neg fun h => absurd h.2.2.2 (not_le.mpr hclosed), Nat.add_zero]
      refine ⟨hs.bound, fun hopen => absurd hopen (not_le.mpr hclosed), ?_⟩
      intro hnone
      simp [Limiters.next, checkLocal_eq] at hnone
    · obtain ⟨⟨hc, hrate⟩, hlevel⟩ := within_refilled hs hclock hopen (hr rfl)
      generalize hbucket : ((s.buckets r.key).getD
        ⟨r.capacity, r.capacity, r.time, r.refillRate⟩).refill r.time = bucket at hc hrate hlevel
      have hcheck : checkLocal s.buckets r =
          (Function.update s.buckets r.key (some (drawn bucket).1), (drawn bucket).2) := by
        rw [checkLocal_eq, hbucket]
      have hlast : (drawn bucket).1.lastRefill = r.time := by
        rw [drawn_lastRefill, ← hbucket]
        rfl
      have hwithin := within_drawn hlevel
      have hgiven : (if (checkLocal s.buckets r).2 ∧ r.key = r.key ∧ start ≤ r.time ∧
          r.time ≤ finish then 1 else 0) = if (drawn bucket).2 ∧ start ≤ r.time then 1 else 0 := by
        simp [hcheck, hopen]
      rw [hgiven]
      refine ⟨hwithin.bound (hrate.1.trans hrate.2) hwindow hopen, ?_, ?_⟩
      · intro _ b hb
        simp only [Limiters.next, hcheck, Function.update_self] at hb
        obtain rfl := Option.some.inj hb
        rw [(drawn_settings bucket).1, (drawn_settings bucket).2, hlast]
        exact ⟨hc, hrate, le_rfl, hwithin⟩
      · intro hnone
        simp [Limiters.next, hcheck] at hnone

theorem localWithin_run {first : ℚ} (hcapacity : 0 ≤ capacity) (hrate : 0 ≤ rate)
    (hwindow : start ≤ finish) (hbounded : ∀ r ∈ rs, r.key = key → Bounded capacity rate r)
    (h : machine.run (init first) rs = some s) :
    LocalWithin key capacity rate start finish (admitted key start finish rs s.allowedLocal) s := by
  induction rs using List.reverseRecOn generalizing s with
  | nil =>
      cases h
      refine ⟨?_, fun _ b hb => absurd hb (by simp [init]), fun _ => rfl⟩
      have hgain := mul_nonneg hrate (sub_nonneg.mpr hwindow)
      simpa [admitted] using add_nonneg hcapacity hgain
  | append_singleton rs r ih =>
      obtain ⟨u, hu, hclock, rfl⟩ := run_concat.mp h
      have hu' := ih (fun r hr => hbounded r (List.mem_append_left _ hr)) hu
      have hnext := localWithin_next hu' hclock
        (hbounded r (List.mem_append_right _ (List.mem_singleton_self _))) hwindow
      rwa [← admitted_concat (length_answers hu).1] at hnext

end Local

theorem rate_bounded {first : ℚ} (hcapacity : 0 ≤ capacity) (hrate : 0 ≤ rate)
    (hwindow : start ≤ finish) (hbounded : ∀ r ∈ rs, r.key = key → Bounded capacity rate r)
    (h : machine.run (init first) rs = some s) :
    (admitted key start finish rs s.allowedLocal : ℚ) ≤ capacity + rate * (finish - start) ∧
      (capacity ≤ 120 * rate →
        (admitted key start finish rs s.allowedRedis : ℚ) ≤ capacity + rate * (finish - start)) :=
  ⟨(localWithin_run hcapacity hrate hwindow hbounded h).bound,
    fun hidle => (redisWithin_run hcapacity hrate hidle hwindow hbounded h).bound⟩

-- One burst of one request and one of two, half a minute apart.
def twoBursts : List Request :=
  [⟨0, "mallory", "analyst", some 1⟩, ⟨0, "mallory", "analyst", some 1⟩,
    ⟨30, "mallory", "analyst", some 2⟩, ⟨30, "mallory", "analyst", some 2⟩]

theorem twoBursts_bounded :
    (machine.run (init 0) twoBursts).any (fun s =>
      decide (admitted "btagent:ratelimit:mallory" 0 30 twoBursts s.allowedRedis ≤ 32)) = true := by
  have hruns : (machine.run (init 0) twoBursts).isSome = true := by decide
  obtain ⟨s, hs⟩ := Option.isSome_iff_exists.mp hruns
  have hlimit : limit "analyst" = 60 := by decide
  have hbounded : ∀ r ∈ twoBursts, r.key = "btagent:ratelimit:mallory" → Bounded 2 1 r := by
    intro r hr _
    simp only [twoBursts, List.mem_cons, List.not_mem_nil, or_false] at hr
    rcases hr with rfl | rfl | rfl | rfl <;>
      constructor <;> norm_num [Request.capacity, Request.refillRate, hlimit]
  have hredis := (@rate_bounded _ _ _ 2 1 0 30 _ (by norm_num) (by norm_num) (by norm_num)
    hbounded hs).2 (by norm_num)
  rw [hs, Option.any_some, decide_eq_true_iff]
  have hcast : (admitted "btagent:ratelimit:mallory" 0 30 twoBursts s.allowedRedis : ℚ) ≤
      (32 : ℕ) := by
    refine hredis.trans ?_
    norm_num
  exact_mod_cast hcast

end Limiters

end RateLimiter

end BTagent
