import Mathlib.Algebra.GroupWithZero.Nat
import Mathlib.Data.Int.Notation
import Mathlib.Data.List.Basic
import Mathlib.Data.Nat.Notation
import Mathlib.Data.String.Basic

namespace BTagent

instance nonzeroYears : NeZero 10000 := ⟨by decide⟩
instance nonzeroMonths : NeZero 13 := ⟨by decide⟩
instance nonzeroDays : NeZero 32 := ⟨by decide⟩
instance nonzeroHours : NeZero 24 := ⟨by decide⟩
instance nonzeroMinutes : NeZero 60 := ⟨by decide⟩
instance nonzeroMicroseconds : NeZero 1000000 := ⟨by decide⟩

def padded : ℕ → ℕ → List Char
  | 0, _ => []
  | width + 1, n => padded width (n / 10) ++ [Char.ofNat (48 + n % 10)]

structure UtcOffset where
  negative : Bool
  hours : Fin 24
  minutes : Fin 60
  seconds : Fin 60
  microseconds : Fin 1000000
  deriving DecidableEq

structure Timestamp where
  year : Fin 10000
  month : Fin 13
  day : Fin 32
  hour : Fin 24
  minute : Fin 60
  second : Fin 60
  microsecond : Fin 1000000
  offset : Option UtcOffset
  deriving DecidableEq

def fraction (n : Fin 1000000) : List Char := if n = 0 then [] else '.' :: padded 6 n

namespace UtcOffset

def formatSeconds (seconds : Fin 60) (microseconds : Fin 1000000) : List Char :=
  if seconds = 0 ∧ microseconds = 0 then []
  else ':' :: (padded 2 seconds ++ fraction microseconds)

-- `_format_offset`
def format (o : UtcOffset) : List Char :=
  (if o.negative then '-' else '+') :: (padded 2 o.hours ++ ':' :: (padded 2 o.minutes ++
    formatSeconds o.seconds o.microseconds))

end UtcOffset

namespace Timestamp

def formatOffset : Option UtcOffset → List Char
  | none => []
  | some o => o.format

def isoChars (t : Timestamp) : List Char :=
  padded 4 t.year ++ '-' :: (padded 2 t.month ++ '-' :: (padded 2 t.day ++ 'T' ::
    (padded 2 t.hour ++ ':' :: (padded 2 t.minute ++ ':' :: (padded 2 t.second ++
      (fraction t.microsecond ++ formatOffset t.offset))))))

def isoformat (t : Timestamp) : String := String.ofList t.isoChars

end Timestamp

theorem length_padded {width n : ℕ} : (padded width n).length = width := by
  induction width generalizing n with
  | zero => rfl
  | succ width ih => simp [padded, ih]

theorem digit_inj : ∀ m < 10, ∀ n < 10, Char.ofNat (48 + m) = Char.ofNat (48 + n) → m = n := by
  decide

theorem padded_inj {width m n : ℕ} (hm : m < 10 ^ width) (hn : n < 10 ^ width)
    (h : padded width m = padded width n) : m = n := by
  induction width generalizing m n with
  | zero =>
      simp only [Nat.pow_zero] at hm hn
      omega
  | succ width ih =>
      have hlen : (padded width (m / 10)).length = (padded width (n / 10)).length := by
        rw [length_padded, length_padded]
      obtain ⟨hinit, hlast⟩ := List.append_inj h hlen
      have hq : m / 10 = n / 10 := by
        apply ih _ _ hinit
        · rw [Nat.pow_succ] at hm
          omega
        · rw [Nat.pow_succ] at hn
          omega
      have hr : m % 10 = n % 10 :=
        digit_inj _ (Nat.mod_lt _ (by decide)) _ (Nat.mod_lt _ (by decide))
          (List.singleton_inj.mp hlast)
      omega

theorem padded_append_inj {width m n : ℕ} {xs ys : List Char} (hm : m < 10 ^ width)
    (hn : n < 10 ^ width) (h : padded width m ++ xs = padded width n ++ ys) : m = n ∧ xs = ys := by
  obtain ⟨hinit, hrest⟩ := List.append_inj h (by rw [length_padded, length_padded])
  exact ⟨padded_inj hm hn hinit, hrest⟩

theorem padded_digit {width n : ℕ} : ∀ c ∈ padded width n, ∃ d < 10, c = Char.ofNat (48 + d) := by
  induction width generalizing n with
  | zero => simp [padded]
  | succ width ih =>
      intro c hc
      rcases List.mem_append.mp hc with hc | hc
      · exact ih c hc
      · obtain rfl := List.mem_singleton.mp hc
        exact ⟨n % 10, Nat.mod_lt _ (by decide), rfl⟩

theorem fin_padded_inj {width bound : ℕ} {m n : Fin bound} {xs ys : List Char}
    (hbound : bound ≤ 10 ^ width) (h : padded width m ++ xs = padded width n ++ ys) :
    m = n ∧ xs = ys := by
  obtain ⟨hval, hrest⟩ := padded_append_inj (Nat.lt_of_lt_of_le m.isLt hbound)
    (Nat.lt_of_lt_of_le n.isLt hbound) h
  exact ⟨Fin.ext hval, hrest⟩

theorem fraction_inj {m n : Fin 1000000} (h : fraction m = fraction n) : m = n := by
  by_cases hm : m = 0 <;> by_cases hn : n = 0 <;>
    simp only [fraction, hm, hn, if_true, if_false] at h
  · exact hm.trans hn.symm
  · cases h
  · cases h
  · have hdigits : padded 6 m ++ [] = padded 6 n ++ [] := by
      rw [(List.cons.inj h).2]
    exact (fin_padded_inj (by decide) hdigits).1

namespace UtcOffset

theorem format_ne_nil (o : UtcOffset) : o.format ≠ [] := List.cons_ne_nil _ _

theorem format_ne_dot {o : UtcOffset} {xs : List Char} : o.format ≠ '.' :: xs := by
  unfold format
  intro h
  have hhead := (List.cons.inj h).1
  split at hhead <;> exact absurd hhead (by decide)

theorem formatSeconds_inj {s s' : Fin 60} {m m' : Fin 1000000}
    (h : formatSeconds s m = formatSeconds s' m') : s = s' ∧ m = m' := by
  by_cases hz : s = 0 ∧ m = 0 <;> by_cases hz' : s' = 0 ∧ m' = 0 <;>
    simp only [formatSeconds, hz, hz', if_false] at h
  · exact ⟨hz.1.trans hz'.1.symm, hz.2.trans hz'.2.symm⟩
  · cases h
  · cases h
  · obtain ⟨hs, hm⟩ := fin_padded_inj (by decide) (List.cons.inj h).2
    exact ⟨hs, fraction_inj hm⟩

theorem format_inj {o o' : UtcOffset} (h : o.format = o'.format) : o = o' := by
  obtain ⟨hsign, h⟩ := List.cons.inj h
  obtain ⟨hhours, h⟩ := fin_padded_inj (by decide) h
  obtain ⟨hminutes, h⟩ := fin_padded_inj (by decide) (List.cons.inj h).2
  obtain ⟨hseconds, hmicroseconds⟩ := formatSeconds_inj h
  have hnegative : o.negative = o'.negative := by
    revert hsign
    cases o.negative <;> cases o'.negative <;> decide
  cases o
  cases o'
  simp_all

end UtcOffset

namespace Timestamp

theorem formatOffset_inj {o o' : Option UtcOffset} (h : formatOffset o = formatOffset o') :
    o = o' := by
  cases o with
  | none =>
      cases o' with
      | none => rfl
      | some o' => exact absurd h.symm (UtcOffset.format_ne_nil o')
  | some o =>
      cases o' with
      | none => exact absurd h (UtcOffset.format_ne_nil o)
      | some o' => rw [UtcOffset.format_inj h]

theorem formatOffset_ne_dot {o : Option UtcOffset} {xs : List Char} :
    formatOffset o ≠ '.' :: xs := by
  cases o with
  | none => exact (List.cons_ne_nil _ _).symm
  | some o => exact UtcOffset.format_ne_dot

theorem fraction_append_inj {m n : Fin 1000000} {o o' : Option UtcOffset}
    (h : fraction m ++ formatOffset o = fraction n ++ formatOffset o') : m = n ∧ o = o' := by
  by_cases hm : m = 0 <;> by_cases hn : n = 0 <;>
    simp only [fraction, hm, hn, if_true, if_false, List.nil_append, List.cons_append] at h
  · exact ⟨hm.trans hn.symm, formatOffset_inj h⟩
  · exact absurd h formatOffset_ne_dot
  · exact absurd h.symm formatOffset_ne_dot
  · obtain ⟨hdigits, hoffset⟩ := fin_padded_inj (by decide) (List.cons.inj h).2
    exact ⟨hdigits, formatOffset_inj hoffset⟩

theorem isoformat_inj {t t' : Timestamp} (h : t.isoformat = t'.isoformat) : t = t' := by
  have hchars : t.isoChars = t'.isoChars := String.ofList_injective h
  obtain ⟨hyear, h⟩ := fin_padded_inj (by decide) hchars
  obtain ⟨hmonth, h⟩ := fin_padded_inj (by decide) (List.cons.inj h).2
  obtain ⟨hday, h⟩ := fin_padded_inj (by decide) (List.cons.inj h).2
  obtain ⟨hhour, h⟩ := fin_padded_inj (by decide) (List.cons.inj h).2
  obtain ⟨hminute, h⟩ := fin_padded_inj (by decide) (List.cons.inj h).2
  obtain ⟨hsecond, h⟩ := fin_padded_inj (by decide) (List.cons.inj h).2
  obtain ⟨hmicrosecond, hoffset⟩ := fraction_append_inj h
  cases t
  cases t'
  simp_all

end Timestamp

-- A `datetime` in microseconds, of UTC where it has an offset; two that compare equal are one.
structure Moment where
  aware : Bool
  time : ℤ
  deriving DecidableEq

namespace Moment

-- A naive and an aware `datetime` cannot be compared: `TypeError`.
def lt? (a b : Moment) : Option Bool :=
  if a.aware = b.aware then some (a.time < b.time) else none

def toAware (m : Moment) : Moment := { m with aware := true }

theorem lt?_of_aware {a b : Moment} (h : a.aware = b.aware) : lt? a b = some (decide (a.time < b.time)) :=
  if_pos h

theorem lt?_eq_none {a b : Moment} : lt? a b = none ↔ a.aware ≠ b.aware := by
  rw [lt?]
  split
  · next h => simp [h]
  · next h => simp [h]

end Moment

end BTagent
