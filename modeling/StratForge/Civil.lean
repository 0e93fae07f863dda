import Mathlib.Order.Monotone.Basic
import Mathlib.Tactic.Linarith

/-!
# The civil calendar, by months

Day numbers count from 0000-03-01 in the proleptic Gregorian calendar, so that the leap day is the
last day of its year. `monthFirst m` is the day on which the `m`-th month begins (month `0` is March
of year 0), `monthOf z` the month a day lies in; `monthOf_spec` is the whole of what later modules
use: a day lies in `[monthFirst (monthOf z), monthFirst (monthOf z + 1))`.
-/

namespace Civil

/-- Days from 0000-03-01 to March 1st of year `y`. -/
def marchFirst (y : Int) : Int := 365 * y + y / 4 - y / 100 + y / 400

def monthFirst (m : Int) : Int := marchFirst (m / 12) + (153 * (m % 12) + 2) / 5

/-- The year of day `doe` of a 400-year era: centuries, then four-year cycles, then years. -/
def yearOfEra (doe : Int) : Int :=
  let c := min (doe / 36524) 3
  let q := (doe - 36524 * c) / 1461
  100 * c + 4 * q + min ((doe - 36524 * c - 1461 * q) / 365) 3

def yearOf (z : Int) : Int := 400 * (z / 146097) + yearOfEra (z % 146097)

def monthOf (z : Int) : Int := 12 * yearOf z + (5 * (z - marchFirst (yearOf z)) + 2) / 153

theorem marchFirst_add_era (e y : Int) : marchFirst (400 * e + y) = 146097 * e + marchFirst y := by
  unfold marchFirst; omega

theorem marchFirst_succ (y : Int) :
    marchFirst y + 365 ≤ marchFirst (y + 1) ∧ marchFirst (y + 1) ≤ marchFirst y + 366 := by
  unfold marchFirst; omega

theorem yearOfEra_spec (doe : Int) (h0 : 0 ≤ doe) (h1 : doe < 146097) :
    marchFirst (yearOfEra doe) ≤ doe ∧ doe < marchFirst (yearOfEra doe + 1) := by
  unfold yearOfEra marchFirst
  simp only []
  generalize hc : min (doe / 36524) 3 = c
  generalize hq : (doe - 36524 * c) / 1461 = q
  generalize hy : min ((doe - 36524 * c - 1461 * q) / 365) 3 = y
  have hq' : 0 ≤ q ∧ q ≤ 24 := by omega
  have hc' : 0 ≤ c ∧ c ≤ 3 := by omega
  have hy' : 0 ≤ y ∧ y ≤ 3 := by omega
  have e1 : (100 * c + 4 * q + y) / 4 = 25 * c + q := by omega
  have e2 : (100 * c + 4 * q + y) / 100 = c := by omega
  have e3 : (100 * c + 4 * q + y) / 400 = 0 := by omega
  refine ⟨by omega, ?_⟩
  -- the next year is a new cycle, a new century or neither
  by_cases hy3 : y = 3
  · by_cases hq3 : q = 24
    · have e4 : (100 * c + 4 * q + y + 1) / 4 = 25 * c + 25 := by omega
      have e5 : (100 * c + 4 * q + y + 1) / 100 = c + 1 := by omega
      have e6 : (100 * c + 4 * q + y + 1) / 400 = (c + 1) / 4 := by omega
      rw [e4, e5, e6]; omega
    · have e4 : (100 * c + 4 * q + y + 1) / 4 = 25 * c + q + 1 := by omega
      have e5 : (100 * c + 4 * q + y + 1) / 100 = c := by omega
      have e6 : (100 * c + 4 * q + y + 1) / 400 = 0 := by omega
      rw [e4, e5, e6]; omega
  · have e4 : (100 * c + 4 * q + y + 1) / 4 = 25 * c + q := by omega
    have e5 : (100 * c + 4 * q + y + 1) / 100 = c := by omega
    have e6 : (100 * c + 4 * q + y + 1) / 400 = 0 := by omega
    rw [e4, e5, e6]; omega

theorem yearOf_spec (z : Int) : marchFirst (yearOf z) ≤ z ∧ z < marchFirst (yearOf z + 1) := by
  obtain ⟨h1, h2⟩ := yearOfEra_spec (z % 146097) (by omega) (by omega)
  have hs : yearOf z + 1 = 400 * (z / 146097) + (yearOfEra (z % 146097) + 1) := by
    unfold yearOf; omega
  rw [hs, yearOf, marchFirst_add_era, marchFirst_add_era]
  omega

theorem monthOf_div (z : Int) : monthOf z / 12 = yearOf z := by
  have h := yearOf_spec z
  have := marchFirst_succ (yearOf z)
  unfold monthOf; omega

theorem monthOf_mod (z : Int) : monthOf z % 12 = (5 * (z - marchFirst (yearOf z)) + 2) / 153 := by
  have h := yearOf_spec z
  have := marchFirst_succ (yearOf z)
  unfold monthOf; omega

theorem monthFirst_lt_succ (m : Int) : monthFirst m < monthFirst (m + 1) := by
  have := marchFirst_succ (m / 12)
  unfold monthFirst
  by_cases h : m % 12 = 11
  · rw [show (m + 1) / 12 = m / 12 + 1 by omega]; omega
  · rw [show (m + 1) / 12 = m / 12 by omega]; omega

theorem monthOf_spec (z : Int) : monthFirst (monthOf z) ≤ z ∧ z < monthFirst (monthOf z + 1) := by
  obtain ⟨h1, h2⟩ := yearOf_spec z
  have h3 := monthOf_div z
  have h4 := monthOf_mod z
  have h5 := marchFirst_succ (yearOf z)
  refine ⟨?_, ?_⟩ <;> unfold monthFirst
  · rw [h3, h4]; omega
  · by_cases h : monthOf z % 12 = 11
    · rw [show (monthOf z + 1) / 12 = yearOf z + 1 by omega]; omega
    · rw [show (monthOf z + 1) / 12 = yearOf z by omega,
        show (monthOf z + 1) % 12 = monthOf z % 12 + 1 by omega, h4]
      omega

end Civil
