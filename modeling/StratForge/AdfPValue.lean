import Mathlib.Tactic.FieldSimp
import Mathlib.Tactic.NormNum.OfScientific
import Mathlib.Tactic.Positivity
import Mathlib.Tactic.Ring
import StratForge.Performance
import StratForge.PiecewiseLinear

/-!
# p-values of the ADF statistic (`stats/adf.hpp`)

The map from the statistic goes through the three critical values of the sample size by straight lines. The critical
values are negative and apart for every sample size, so the map rises through all of its branches (`pvalues_ordered`).
-/

namespace StratForge
namespace Adf

section
variable {α : Type} [Arith α]

def kMacKinnonC1Pct : Vector α 3 := #v[-3.43035, -6.5393, -16.786]

def kMacKinnonC5Pct : Vector α 3 := #v[-2.86154, -2.8903, -4.234]

def kMacKinnonC10Pct : Vector α 3 := #v[-2.56677, -1.5384, -2.809]

def criticalValue (coef : Vector α 3) (nRegression : Nat) : α :=
  let T := Arith.ofCount nRegression
  coef.get 0 + coef.get 1 / T + coef.get 2 / (T * T)

def tstatToPvalue (tstat : α) (nRegression : Nat) : α :=
  let cv1 := criticalValue kMacKinnonC1Pct nRegression
  let cv5 := criticalValue kMacKinnonC5Pct nRegression
  let cv10 := criticalValue kMacKinnonC10Pct nRegression
  if tstat ≤ cv1 then
    let slope := (0.05 - 0.01) / (cv5 - cv1)
    let p := 0.01 + slope * (tstat - cv1)
    Arith.max p 1e-8
  else if tstat ≤ cv5 then
    let slope := (0.05 - 0.01) / (cv5 - cv1)
    0.01 + slope * (tstat - cv1)
  else if tstat ≤ cv10 then
    let slope := (0.10 - 0.05) / (cv10 - cv5)
    0.05 + slope * (tstat - cv5)
  else
    let slope := (0.99 - 0.10) / (0.0 - cv10)
    let p := 0.10 + slope * (tstat - cv10)
    Arith.min (Arith.max p 0.10) 0.999

end

/-! ### The critical values -/

/-- Where the lines meet. -/
structure Knots (cv1 cv5 cv10 : ℚ) : Prop where
  one_five : cv1 < cv5
  five_ten : cv5 < cv10
  ten_neg : cv10 < 0

/-- In the reciprocal of the sample size the critical values are quadratic, with coefficients that are further down one by
one. -/
theorem criticalValues (n : Nat) :
    Knots (criticalValue kMacKinnonC1Pct n) (criticalValue kMacKinnonC5Pct n) (criticalValue kMacKinnonC10Pct n) := by
  have hvalue : ∀ coef : Vector ℚ 3, criticalValue coef n =
      coef.get 0 + coef.get 1 * (n : ℚ)⁻¹ + coef.get 2 * ((n : ℚ)⁻¹ * (n : ℚ)⁻¹) := by
    intro coef
    rw [criticalValue, ExtendedMetricsCalculator.ofCount_rat, div_eq_mul_inv, div_eq_mul_inv, mul_inv]
  have hu : 0 ≤ (n : ℚ)⁻¹ := inv_nonneg.2 n.cast_nonneg
  generalize (n : ℚ)⁻¹ = u at hvalue hu
  have huu : 0 ≤ u * u := mul_self_nonneg u
  rw [hvalue, hvalue, hvalue]
  show Knots (-3.43035 + -6.5393 * u + -16.786 * (u * u)) (-2.86154 + -2.8903 * u + -4.234 * (u * u))
    (-2.56677 + -1.5384 * u + -2.809 * (u * u))
  constructor <;> linarith

/-! ### The branches -/

section
open PiecewiseLinear
variable {cv1 cv5 cv10 t : ℚ}

/-- The branches after the first two critical values, after the first, and all of them, from the right. -/
def afterTen (cv10 t : ℚ) : ℚ := Min.min (Max.max (line cv10 0.10 0.0 0.99 t) 0.10) 0.999

def afterFive (cv5 cv10 t : ℚ) : ℚ := if t ≤ cv10 then line cv5 0.05 cv10 0.10 t else afterTen cv10 t

def afterOne (cv1 cv5 cv10 t : ℚ) : ℚ := if t ≤ cv5 then line cv1 0.01 cv5 0.05 t else afterFive cv5 cv10 t

def throughAll (cv1 cv5 cv10 t : ℚ) : ℚ :=
  if t ≤ cv1 then Max.max (line cv1 0.01 cv5 0.05 t) 1e-8 else afterOne cv1 cv5 cv10 t

theorem slope_line (x₀ y₀ x₁ y₁ t : ℚ) : y₀ + (y₁ - y₀) / (x₁ - x₀) * (t - x₀) = line x₀ y₀ x₁ y₁ t := by
  rw [line, div_mul_comm]

theorem tstatToPvalue_eq (t : ℚ) (n : Nat) : tstatToPvalue t n =
    throughAll (criticalValue kMacKinnonC1Pct n) (criticalValue kMacKinnonC5Pct n) (criticalValue kMacKinnonC10Pct n) t := by
  simp only [tstatToPvalue, throughAll, afterOne, afterFive, afterTen, slope_line, Arith.max_rat, Arith.min_rat]

theorem line_monotone {x₀ y₀ x₁ y₁ : ℚ} (hx : x₀ < x₁) (hy : y₀ ≤ y₁) : Monotone (line x₀ y₀ x₁ y₁) := fun _ _ => line_mono hx hy

theorem afterTen_between (cv10 t : ℚ) : 0.10 ≤ afterTen cv10 t ∧ afterTen cv10 t ≤ 0.999 :=
  ⟨le_min (le_max_right _ _) (by norm_num), min_le_right _ _⟩

theorem afterTen_mono (h : cv10 < 0) : Monotone (afterTen cv10) := by
  have hline : Monotone (line cv10 0.10 0.0 0.99) := line_monotone (by norm_num; exact h) (by norm_num)
  exact (hline.max monotone_const).min monotone_const

variable (h : Knots cv1 cv5 cv10)
include h

theorem afterFive_between (ht : cv5 < t) : 0.05 ≤ afterFive cv5 cv10 t ∧ afterFive cv5 cv10 t ≤ 0.999 := by
  unfold afterFive
  split_ifs with hle
  · have hlow := le_line h.five_ten (by norm_num : (0.05 : ℚ) ≤ 0.10) ht.le
    have hhigh := line_le h.five_ten (by norm_num : (0.05 : ℚ) ≤ 0.10) hle
    exact ⟨hlow, hhigh.trans (by norm_num)⟩
  · obtain ⟨hlow, hhigh⟩ := afterTen_between cv10 t
    exact ⟨le_trans (by norm_num) hlow, hhigh⟩

theorem afterFive_mono : Monotone (afterFive cv5 cv10) := by
  refine mono_pieces (line_monotone h.five_ten (by norm_num)) (afterTen_mono h.ten_neg) fun r r' hr _ => ?_
  exact (line_le h.five_ten (by norm_num) hr).trans (afterTen_between cv10 r').1

theorem afterOne_between (ht : cv1 < t) : 0.01 ≤ afterOne cv1 cv5 cv10 t ∧ afterOne cv1 cv5 cv10 t ≤ 0.999 := by
  unfold afterOne
  split_ifs with hle
  · have hlow := le_line h.one_five (by norm_num : (0.01 : ℚ) ≤ 0.05) ht.le
    have hhigh := line_le h.one_five (by norm_num : (0.01 : ℚ) ≤ 0.05) hle
    exact ⟨hlow, hhigh.trans (by norm_num)⟩
  · obtain ⟨hlow, hhigh⟩ := afterFive_between h (not_le.1 hle)
    exact ⟨le_trans (by norm_num) hlow, hhigh⟩

theorem afterOne_mono : Monotone (afterOne cv1 cv5 cv10) := by
  refine mono_pieces (line_monotone h.one_five (by norm_num)) (afterFive_mono h) fun r r' hr hr' => ?_
  exact (line_le h.one_five (by norm_num) hr).trans (afterFive_between h hr').1

/-- Left of the first critical value the line is below what it is there, and so is the floor. -/
theorem floor_le (ht : t ≤ cv1) : Max.max (line cv1 0.01 cv5 0.05 t) 1e-8 ≤ 0.01 := by
  refine max_le ?_ (by norm_num)
  have hmono := line_mono h.one_five (by norm_num : (0.01 : ℚ) ≤ 0.05) ht
  rwa [line_start] at hmono

theorem throughAll_between (t : ℚ) : 1e-8 ≤ throughAll cv1 cv5 cv10 t ∧ throughAll cv1 cv5 cv10 t ≤ 0.999 := by
  unfold throughAll
  split_ifs with hle
  · exact ⟨le_max_right _ _, (floor_le h hle).trans (by norm_num)⟩
  · obtain ⟨hlow, hhigh⟩ := afterOne_between h (not_le.1 hle)
    exact ⟨le_trans (by norm_num) hlow, hhigh⟩

theorem throughAll_mono : Monotone (throughAll cv1 cv5 cv10) := by
  have hline : Monotone (line cv1 0.01 cv5 0.05) := line_monotone h.one_five (by norm_num)
  refine mono_pieces (hline.max monotone_const) (afterOne_mono h) fun r r' hr hr' => ?_
  exact (floor_le h hr).trans (afterOne_between h hr').1

end

/-- For every sample size no branch divides by zero, and the p-values are ordered as the statistics are, within bounds. -/
theorem pvalues_ordered {n : Nat} (hn : 1 ≤ n) :
    (Arith.ofCount n : ℚ) ≠ 0 ∧
    Knots (criticalValue kMacKinnonC1Pct n) (criticalValue kMacKinnonC5Pct n) (criticalValue kMacKinnonC10Pct n) ∧
    (∀ t₁ t₂ : ℚ, t₁ ≤ t₂ → tstatToPvalue t₁ n ≤ tstatToPvalue t₂ n) ∧
    ∀ t : ℚ, 1e-8 ≤ tstatToPvalue t n ∧ tstatToPvalue t n ≤ 0.999 := by
  have h := criticalValues n
  have hcount : (Arith.ofCount n : ℚ) ≠ 0 := by
    rw [ExtendedMetricsCalculator.ofCount_rat]
    exact_mod_cast (by omega : n ≠ 0)
  refine ⟨hcount, h, fun t₁ t₂ ht => ?_, fun t => ?_⟩
  · rw [tstatToPvalue_eq, tstatToPvalue_eq]
    exact throughAll_mono h ht
  · rw [tstatToPvalue_eq]
    exact throughAll_between h t

theorem pvalues_ordered_one :
    (Arith.ofCount 1 : ℚ) ≠ 0 ∧
    Knots (criticalValue kMacKinnonC1Pct 1) (criticalValue kMacKinnonC5Pct 1) (criticalValue kMacKinnonC10Pct 1) ∧
    tstatToPvalue (-7 : ℚ) 1 ≤ tstatToPvalue (-5 : ℚ) 1 ∧ tstatToPvalue (3 : ℚ) 1 ≤ 0.999 := by
  obtain ⟨hcount, hknots, hmono, hbounds⟩ := pvalues_ordered (n := 1) le_rfl
  exact ⟨hcount, hknots, hmono (-7) (-5) (by norm_num), (hbounds 3).2⟩

end Adf
end StratForge
