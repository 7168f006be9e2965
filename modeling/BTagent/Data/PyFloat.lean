import Mathlib.Algebra.Order.Floor.Ring
import Mathlib.Data.Int.Log
import Mathlib.Data.Rat.Floor
import Mathlib.Tactic.FieldSimp

namespace BTagent

namespace PyFloat

def roundEven (q : ℚ) : ℤ :=
  let n := ⌊q⌋
  if q - n < 1 / 2 then n
  else if 1 / 2 < q - n then n + 1
  else if n % 2 = 0 then n
  else n + 1

def ulp (q : ℚ) : ℚ := 2 ^ (Int.log 2 q - 52)

-- The float nearest to a number that is zero or at least the least normal float.
def toFloat (q : ℚ) : ℚ := roundEven (q / ulp q) * ulp q

-- `round(x, ndigits)` goes through the decimal text of the exact value.
def roundDigits (q : ℚ) (ndigits : ℕ) : ℚ := toFloat (roundEven (q * 10 ^ ndigits) / 10 ^ ndigits)

variable {q : ℚ} {z : ℤ}

theorem roundEven_le (h : q ≤ z) : roundEven q ≤ z := by
  have hfloor : ⌊q⌋ ≤ z := Int.cast_le.mp ((Int.floor_le q).trans h)
  have hnext : 1 / 2 ≤ q - ⌊q⌋ → ⌊q⌋ + 1 ≤ z := by
    intro hhalf
    by_contra hnot
    have heq : ⌊q⌋ = z := by omega
    rw [heq] at hhalf
    linarith
  rw [roundEven]
  split
  · exact hfloor
  · next hhalf =>
      split
      · exact hnext (not_lt.mp hhalf)
      · split
        · exact hfloor
        · exact hnext (not_lt.mp hhalf)

theorem le_roundEven (h : z ≤ q) : z ≤ roundEven q := by
  have hfloor : z ≤ ⌊q⌋ := Int.le_floor.mpr h
  rw [roundEven]
  split
  · exact hfloor
  · split
    · omega
    · split
      · exact hfloor
      · omega

theorem ulp_pos (q : ℚ) : 0 < ulp q := zpow_pos (by norm_num) _

theorem toFloat_nonneg (h : 0 ≤ q) : 0 ≤ toFloat q := by
  have hquotient : ((0 : ℤ) : ℚ) ≤ q / ulp q := by
    rw [Int.cast_zero]
    exact div_nonneg h (ulp_pos q).le
  exact mul_nonneg (Int.cast_nonneg (le_roundEven hquotient)) (ulp_pos q).le

-- One is a float, so that nothing below it is rounded to above it.
theorem toFloat_le_one (h : q ≤ 1) : toFloat q ≤ 1 := by
  have hlog : Int.log 2 q ≤ 0 := by
    rw [Int.log_of_right_le_one 2 h]
    omega
  obtain ⟨k, hk⟩ := Int.eq_ofNat_of_zero_le (by omega : 0 ≤ 52 - Int.log 2 q)
  have hulp : ulp q = (2 ^ k : ℚ)⁻¹ := by
    rw [ulp, ← neg_sub, hk, zpow_neg, zpow_natCast]
  have hquotient : q / ulp q ≤ ((2 ^ k : ℤ) : ℚ) := by
    rw [hulp, div_inv_eq_mul]
    push_cast
    have hpow : (0 : ℚ) ≤ 2 ^ k := by positivity
    nlinarith
  have hround : ((roundEven (q / ulp q) : ℤ) : ℚ) ≤ ((2 ^ k : ℤ) : ℚ) :=
    Int.cast_le.mpr (roundEven_le hquotient)
  have hinv : (0 : ℚ) ≤ (2 ^ k : ℚ)⁻¹ := by positivity
  calc toFloat q = roundEven (q / ulp q) * (2 ^ k : ℚ)⁻¹ := by rw [toFloat, hulp]
    _ ≤ ((2 ^ k : ℤ) : ℚ) * (2 ^ k : ℚ)⁻¹ := mul_le_mul_of_nonneg_right (hulp ▸ hround) hinv
    _ = 1 := by
      push_cast
      exact mul_inv_cancel₀ (by positivity)

theorem roundDigits_mem (hzero : 0 ≤ q) (hone : q ≤ 1) (ndigits : ℕ) :
    0 ≤ roundDigits q ndigits ∧ roundDigits q ndigits ≤ 1 := by
  have hpow : (0 : ℚ) < 10 ^ ndigits := by positivity
  constructor
  · apply toFloat_nonneg
    refine div_nonneg (Int.cast_nonneg (le_roundEven ?_)) hpow.le
    rw [Int.cast_zero]
    positivity
  · apply toFloat_le_one
    rw [div_le_one hpow]
    have hscaled : q * 10 ^ ndigits ≤ ((10 ^ ndigits : ℤ) : ℚ) := by
      push_cast
      nlinarith
    have hround := Int.cast_le (R := ℚ).mpr (roundEven_le hscaled)
    push_cast at hround
    exact hround

end PyFloat

end BTagent
