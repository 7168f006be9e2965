import Mathlib.Algebra.Order.Field.Basic
import Mathlib.Tactic.Linarith
import Mathlib.Tactic.Ring

-- A bucket that fills over time and gives a token for what it lets through.
namespace Bucket

variable {K : Type*} [Field K] [LinearOrder K] [IsStrictOrderedRing K]

-- The level of a bucket at the time `last`, and how many tokens it gave since `start`: never more
-- than its greatest capacity and what a refill at the greatest rate brings.
structure Within (capacity rate start : K) (given : ℕ) (tokens last : K) : Prop where
  nonneg : 0 ≤ tokens
  full : tokens ≤ capacity
  spent : given + tokens ≤ capacity + rate * max 0 (last - start)
  before : last < start → given = 0

variable {capacity rate start tokens last now c r finish : K} {given : ℕ}

theorem Within.fresh (hc : 0 ≤ c) (hle : c ≤ capacity) (hrate : 0 ≤ rate) :
    Within capacity rate start 0 c now := by
  refine ⟨hc, hle, ?_, fun _ => rfl⟩
  have hpos : 0 ≤ rate * max 0 (now - start) := mul_nonneg hrate (le_max_left _ _)
  rw [Nat.cast_zero]
  linarith

theorem elapsed_le (hlast : last ≤ now) (h : start ≤ last) :
    max 0 (last - start) + (now - last) = max 0 (now - start) := by
  rw [max_eq_right (sub_nonneg.mpr h), max_eq_right (sub_nonneg.mpr (h.trans hlast))]
  ring

theorem Within.refill (h : Within capacity rate start given tokens last) (hlast : last ≤ now)
    (hc : 0 ≤ c) (hle : c ≤ capacity) (hr : 0 ≤ r) (hrate : r ≤ rate) :
    Within capacity rate start given (min c (tokens + (now - last) * r)) now := by
  have helapsed : 0 ≤ now - last := sub_nonneg.mpr hlast
  have hgain : 0 ≤ (now - last) * r := mul_nonneg helapsed hr
  have hrate' : (now - last) * r ≤ rate * (now - last) := by
    rw [mul_comm rate]
    exact mul_le_mul_of_nonneg_left hrate helapsed
  refine ⟨le_min hc (add_nonneg h.nonneg hgain), (min_le_left _ _).trans hle, ?_, ?_⟩
  · rcases lt_or_ge last start with hbefore | hafter
    · have hpos : 0 ≤ rate * max 0 (now - start) :=
        mul_nonneg (hr.trans hrate) (le_max_left _ _)
      have hmin := min_le_left c (tokens + (now - last) * r)
      rw [h.before hbefore, Nat.cast_zero]
      linarith
    · have hmin := min_le_right c (tokens + (now - last) * r)
      have hspent := h.spent
      rw [← elapsed_le hlast hafter, mul_add]
      linarith
  · exact fun hnow => h.before (hlast.trans_lt hnow)

-- A bucket that is thrown away and made anew had the time to fill up.
theorem Within.renew (h : Within capacity rate start given tokens last) (hlast : last ≤ now)
    (hc : 0 ≤ c) (hle : c ≤ capacity) (hrate : 0 ≤ rate) (hidle : capacity ≤ rate * (now - last)) :
    Within capacity rate start given c now := by
  refine ⟨hc, hle, ?_, fun hnow => h.before (hlast.trans_lt hnow)⟩
  rcases lt_or_ge last start with hbefore | hafter
  · have hpos : 0 ≤ rate * max 0 (now - start) := mul_nonneg hrate (le_max_left _ _)
    rw [h.before hbefore, Nat.cast_zero]
    linarith
  · have hspent := h.spent
    have htokens := h.nonneg
    rw [← elapsed_le hlast hafter, mul_add]
    linarith

theorem Within.take (h : Within capacity rate start given tokens last) (htokens : 1 ≤ tokens) :
    Within capacity rate start (given + if start ≤ last then 1 else 0) (tokens - 1) last := by
  have hfull := h.full
  have hspent := h.spent
  split_ifs with hstart
  · refine ⟨by linarith, by linarith, ?_, fun hlt => absurd hstart (not_le.mpr hlt)⟩
    push_cast
    linarith
  · refine ⟨by linarith, by linarith, ?_, h.before⟩
    push_cast
    linarith

theorem Within.bound (h : Within capacity rate start given tokens last) (hrate : 0 ≤ rate)
    (hstart : start ≤ finish) (hlast : last ≤ finish) :
    (given : K) ≤ capacity + rate * (finish - start) := by
  have hspent := h.spent
  have htokens := h.nonneg
  have hmax : max 0 (last - start) ≤ finish - start :=
    max_le (sub_nonneg.mpr hstart) (sub_le_sub_right hlast start)
  have hmul := mul_le_mul_of_nonneg_left hmax hrate
  linarith

end Bucket
