import Mathlib.Algebra.Order.Field.Basic
import Mathlib.Algebra.Order.Ring.Pow
import Mathlib.Data.Nat.Notation
import Mathlib.Logic.Function.Basic

-- The wait after the k-th failed attempt in a row: it doubles, up to a cap.
def backoff {α : Type*} [Semiring α] [Min α] (base cap : α) (k : ℕ) : α :=
  min (base * 2 ^ (k - 1)) cap

section Backoff
variable {α : Type*} [Field α] [LinearOrder α] [IsStrictOrderedRing α] {base cap : α} {k n : ℕ}

theorem backoff_pos (hbase : 0 < base) (hcap : 0 < cap) : 0 < backoff base cap k :=
  lt_min (mul_pos hbase (pow_pos two_pos _)) hcap

theorem backoff_cut (hbase : 0 ≤ base) (hcap : cap ≤ base * 2 ^ n) :
    min (base * 2 ^ min (k - 1) n) cap = backoff base cap k := by
  rcases le_total (k - 1) n with hle | hle
  · rw [min_eq_left hle, backoff]
  · have hpow : base * 2 ^ n ≤ base * 2 ^ (k - 1) := by
      apply mul_le_mul_of_nonneg_left _ hbase
      exact pow_le_pow_right₀ one_le_two hle
    rw [min_eq_right hle, min_eq_right hcap, backoff, min_eq_right (hcap.trans hpow)]

end Backoff

-- A store whose entries are there up to a time; a key that is set again gets a new time.
abbrev Expiring (κ ν : Type*) := κ → Option (ν × ℕ)

namespace Expiring

variable {κ ν : Type*}

def empty : Expiring κ ν := fun _ => none

def get (s : Expiring κ ν) (now : ℕ) (k : κ) : Option ν :=
  (s k).bind fun e => if now ≤ e.2 then some e.1 else none

def set [DecidableEq κ] (s : Expiring κ ν) (k : κ) (v : ν) (time : ℕ) : Expiring κ ν :=
  Function.update s k (some (v, time))

variable {s : Expiring κ ν} {now time : ℕ} {k j : κ} {v : ν}

theorem get_eq (h : s k = some (v, time)) (hnow : now ≤ time) : s.get now k = some v := by
  simp [get, h, hnow]

variable [DecidableEq κ]

@[simp] theorem set_self : s.set k v time k = some (v, time) := by simp [set]

theorem set_ne (h : j ≠ k) : s.set k v time j = s j := by simp [set, h]

end Expiring
