import Mathlib.Algebra.BigOperators.Intervals
import Mathlib.Algebra.BigOperators.Ring.Finset
import Mathlib.Algebra.Order.BigOperators.Group.Finset
import Mathlib.Algebra.Order.BigOperators.Ring.Finset
import Mathlib.Algebra.Order.Field.Basic
import Mathlib.Tactic.FieldSimp
import Mathlib.Tactic.Linarith
import Mathlib.Tactic.Positivity
import Mathlib.Tactic.Ring

/-! # The line of least squares

Through the points `(x i, y i)` for `i < n` there is one line whose residuals sum to zero, alone and weighted by `x`,
unless all `x i` are equal. Its slope is a ratio of sums of products of deviations (`slope`), which other formulas come
to (`cov_raw`), which does not depend on the order of the points or the origin of `x` (`cov_reflect`, `cov_shift`), and
no other line has a lesser sum of squared residuals (`residual_le`). -/

namespace LeastSquares
universe u

open Finset

variable {K : Type u} [Field K] {n : Nat} {x y : Nat → K} {a b c : K}

def mean (x : Nat → K) (n : Nat) : K := (∑ i ∈ range n, x i) / n

/-- The sum of products of deviations from the mean. -/
def cov (x y : Nat → K) (n : Nat) : K := ∑ i ∈ range n, (x i - mean x n) * (y i - mean y n)

def slope (x y : Nat → K) (n : Nat) : K := cov x y n / cov x x n

def intercept (x y : Nat → K) (n : Nat) : K := mean y n - slope x y n * mean x n

/-- The sum of squared residuals of the line `a + b x`. -/
def residual (x y : Nat → K) (n : Nat) (a b : K) : K := ∑ i ∈ range n, (y i - a - b * x i) * (y i - a - b * x i)

theorem sum_div (x : Nat → K) (n : Nat) : (∑ i ∈ range n, x i) / n = mean x n := rfl

theorem sum_deviations (x y : Nat → K) (n : Nat) : ∑ i ∈ range n, (x i - mean x n) * (y i - mean y n) = cov x y n := rfl

theorem sum_residuals (x y : Nat → K) (n : Nat) (a b : K) :
    ∑ i ∈ range n, (y i - a - b * x i) * (y i - a - b * x i) = residual x y n a b := rfl

theorem mean_congr {x' : Nat → K} (h : ∀ i < n, x i = x' i) : mean x n = mean x' n := by
  rw [mean, mean, sum_congr rfl fun i hi => h i (mem_range.1 hi)]

theorem cov_congr {x' y' : Nat → K} (hx : ∀ i < n, x i = x' i) (hy : ∀ i < n, y i = y' i) : cov x y n = cov x' y' n := by
  rw [cov, cov, mean_congr hx, mean_congr hy]
  exact sum_congr rfl fun i hi => by rw [hx i (mem_range.1 hi), hy i (mem_range.1 hi)]

theorem slope_congr {x' : Nat → K} (h : ∀ i < n, x i = x' i) (y : Nat → K) : slope x y n = slope x' y n := by
  rw [slope, slope, cov_congr h fun _ _ => rfl, cov_congr h h]

theorem intercept_congr {x' : Nat → K} (h : ∀ i < n, x i = x' i) (y : Nat → K) : intercept x y n = intercept x' y n := by
  rw [intercept, intercept, slope_congr h, mean_congr h]

/-! ### Other orders -/

theorem mean_reflect (x : Nat → K) (n : Nat) : mean (fun i => x (n - 1 - i)) n = mean x n := by
  rw [mean, mean, sum_range_reflect]

theorem cov_reflect (x y : Nat → K) (n : Nat) : cov (fun i => x (n - 1 - i)) (fun i => y (n - 1 - i)) n = cov x y n := by
  unfold cov
  rw [mean_reflect, mean_reflect]
  exact sum_range_reflect (fun i => (x i - mean x n) * (y i - mean y n)) n

theorem slope_reflect (x y : Nat → K) (n : Nat) : slope (fun i => x (n - 1 - i)) (fun i => y (n - 1 - i)) n = slope x y n := by
  rw [slope, slope, cov_reflect, cov_reflect]

theorem intercept_reflect (x y : Nat → K) (n : Nat) :
    intercept (fun i => x (n - 1 - i)) (fun i => y (n - 1 - i)) n = intercept x y n := by
  rw [intercept, intercept, slope_reflect, mean_reflect, mean_reflect]

theorem residual_reflect (x y : Nat → K) (n : Nat) (a b : K) :
    residual (fun i => x (n - 1 - i)) (fun i => y (n - 1 - i)) n a b = residual x y n a b :=
  sum_range_reflect (fun i => (y i - a - b * x i) * (y i - a - b * x i)) n

/-! ### Residuals -/

/-- The residuals from the means. -/
theorem residual_term (x y : Nat → K) (n i : Nat) :
    y i - intercept x y n - slope x y n * x i = (y i - mean y n) - slope x y n * (x i - mean x n) := by
  rw [intercept]
  ring

theorem normal_x (hx : cov x x n ≠ 0) (y : Nat → K) :
    ∑ i ∈ range n, (x i - mean x n) * (y i - intercept x y n - slope x y n * x i) = 0 := by
  have hterm : ∀ i, (x i - mean x n) * (y i - intercept x y n - slope x y n * x i) =
      (x i - mean x n) * (y i - mean y n) - slope x y n * ((x i - mean x n) * (x i - mean x n)) := by
    intro i
    rw [residual_term]
    ring
  simp only [hterm]
  rw [sum_sub_distrib, ← mul_sum]
  show cov x y n - slope x y n * cov x x n = 0
  rw [slope, div_mul_cancel₀ _ hx, sub_self]

/-- The level line through the mean. -/
theorem residual_mean (y : Nat → K) (x : Nat → K) (n : Nat) : residual x y n (mean y n) 0 = cov y y n :=
  sum_congr rfl fun i _ => by ring

variable [LinearOrder K] [IsStrictOrderedRing K]

/-! ### Sums -/

theorem sum_eq (hn : 0 < n) (x : Nat → K) : ∑ i ∈ range n, x i = n * mean x n := by
  have hne : (n : K) ≠ 0 := by exact_mod_cast hn.ne'
  rw [mean, mul_div_cancel₀ _ hne]

theorem sum_sub_mean (hn : 0 < n) (x : Nat → K) : ∑ i ∈ range n, (x i - mean x n) = 0 := by
  rw [sum_sub_distrib, sum_eq hn, sum_const, card_range, nsmul_eq_mul, sub_self]

/-- One of the deviations is enough. -/
theorem cov_left (hn : 0 < n) (x y : Nat → K) : cov x y n = ∑ i ∈ range n, (x i - mean x n) * y i := by
  have hzero : ∑ i ∈ range n, (x i - mean x n) * mean y n = 0 := by rw [← sum_mul, sum_sub_mean hn, zero_mul]
  simp only [cov, mul_sub]
  rw [sum_sub_distrib, hzero, sub_zero]

theorem cov_eq (hn : 0 < n) (x y : Nat → K) : cov x y n = (∑ i ∈ range n, x i * y i) - n * mean x n * mean y n := by
  rw [cov_left hn]
  simp only [sub_mul]
  rw [sum_sub_distrib, ← mul_sum, sum_eq hn y]
  ring

/-- In raw sums. -/
theorem cov_raw (hn : 0 < n) (x y : Nat → K) :
    n * (∑ i ∈ range n, x i * y i) - (∑ i ∈ range n, x i) * ∑ i ∈ range n, y i = n * cov x y n := by
  rw [cov_eq hn, sum_eq hn x, sum_eq hn y]
  ring

theorem intercept_raw (hn : 0 < n) (x y : Nat → K) :
    ((∑ i ∈ range n, y i) - slope x y n * ∑ i ∈ range n, x i) / n = intercept x y n := by
  have hne : (n : K) ≠ 0 := by exact_mod_cast hn.ne'
  rw [sum_eq hn x, sum_eq hn y, intercept, mul_left_comm, ← mul_sub, mul_div_cancel_left₀ _ hne]

theorem squares_raw (hn : 0 < n) (y : Nat → K) :
    (∑ i ∈ range n, y i * y i) - (∑ i ∈ range n, y i) * (∑ i ∈ range n, y i) / n = cov y y n := by
  have hne : (n : K) ≠ 0 := by exact_mod_cast hn.ne'
  rw [← mul_right_inj' hne, mul_sub, mul_div_cancel₀ _ hne, cov_raw hn]

/-! ### Other origins -/

theorem mean_shift (hn : 0 < n) (c : K) (x : Nat → K) : mean (fun i => c + x i) n = c + mean x n := by
  have hne : (n : K) ≠ 0 := by exact_mod_cast hn.ne'
  rw [mean, sum_add_distrib, sum_const, card_range, nsmul_eq_mul, add_div, mul_div_cancel_left₀ _ hne, mean]

theorem cov_shift (hn : 0 < n) (c : K) (x y : Nat → K) : cov (fun i => c + x i) y n = cov x y n := by
  unfold cov
  rw [mean_shift hn]
  exact sum_congr rfl fun i _ => by ring

theorem slope_shift (hn : 0 < n) (c : K) (x y : Nat → K) : slope (fun i => c + x i) y n = slope x y n := by
  have hself : cov (fun i => c + x i) (fun i => c + x i) n = cov x x n := by
    unfold cov
    rw [mean_shift hn]
    exact sum_congr rfl fun i _ => by ring
  rw [slope, slope, cov_shift hn, hself]

/-- The values on the line stay. -/
theorem intercept_shift (hn : 0 < n) (c d : K) (x y : Nat → K) :
    intercept (fun i => c + x i) y n + slope (fun i => c + x i) y n * (c + d) = intercept x y n + slope x y n * d := by
  rw [intercept, intercept, slope_shift hn, mean_shift hn]
  ring

/-! ### Points that are not above each other -/

theorem cov_self_nonneg (x : Nat → K) (n : Nat) : 0 ≤ cov x x n := sum_nonneg fun _ _ => mul_self_nonneg _

theorem cov_self_pos (hx : ∃ i < n, ∃ j < n, x i ≠ x j) : 0 < cov x x n := by
  obtain ⟨i, hi, j, hj, hij⟩ := hx
  refine lt_of_le_of_ne (cov_self_nonneg x n) fun hzero => hij ?_
  have hmean : ∀ k < n, x k = mean x n := by
    intro k hk
    have hk0 := (sum_eq_zero_iff_of_nonneg fun _ _ => mul_self_nonneg _).1 hzero.symm k (mem_range.2 hk)
    exact sub_eq_zero.1 (mul_self_eq_zero.1 hk0)
  rw [hmean i hi, hmean j hj]

/-! ### The least sum -/

theorem normal_one (hn : 0 < n) (x y : Nat → K) : ∑ i ∈ range n, (y i - intercept x y n - slope x y n * x i) = 0 := by
  simp only [residual_term]
  rw [sum_sub_distrib, ← mul_sum, sum_sub_mean hn, sum_sub_mean hn, mul_zero, sub_zero]

section
variable (hx : cov x x n ≠ 0) (hn : 0 < n)
include hx hn

/-- Another line adds the squares of what it differs. -/
theorem residual_add (a b : K) :
    residual x y n a b = residual x y n (intercept x y n) (slope x y n) +
      ∑ i ∈ range n, (intercept x y n - a + (slope x y n - b) * x i) * (intercept x y n - a + (slope x y n - b) * x i) := by
  have hcross : ∑ i ∈ range n, (y i - intercept x y n - slope x y n * x i) *
      (intercept x y n - a + (slope x y n - b) * x i) = 0 := by
    have heq : ∀ i, (y i - intercept x y n - slope x y n * x i) * (intercept x y n - a + (slope x y n - b) * x i) =
        (intercept x y n - a + (slope x y n - b) * mean x n) * (y i - intercept x y n - slope x y n * x i) +
          (slope x y n - b) * ((x i - mean x n) * (y i - intercept x y n - slope x y n * x i)) := fun i => by ring
    simp only [heq]
    rw [sum_add_distrib, ← mul_sum, ← mul_sum, normal_one hn, normal_x hx, mul_zero, mul_zero, add_zero]
  have hsquare : ∀ i, (y i - a - b * x i) * (y i - a - b * x i) =
      (y i - intercept x y n - slope x y n * x i) * (y i - intercept x y n - slope x y n * x i) +
        (intercept x y n - a + (slope x y n - b) * x i) * (intercept x y n - a + (slope x y n - b) * x i) +
        2 * ((y i - intercept x y n - slope x y n * x i) * (intercept x y n - a + (slope x y n - b) * x i)) := fun i => by ring
  unfold residual
  simp only [hsquare]
  rw [sum_add_distrib, sum_add_distrib, ← mul_sum, hcross, mul_zero, add_zero]

theorem residual_le (a b : K) : residual x y n (intercept x y n) (slope x y n) ≤ residual x y n a b := by
  rw [residual_add hx hn a b]
  exact le_add_of_nonneg_right (sum_nonneg fun _ _ => mul_self_nonneg _)

/-- The part of the squares that the line explains. -/
theorem explained (hy : cov y y n ≠ 0) :
    0 ≤ 1 - residual x y n (intercept x y n) (slope x y n) / cov y y n ∧
      1 - residual x y n (intercept x y n) (slope x y n) / cov y y n ≤ 1 := by
  have hpos : 0 < cov y y n := lt_of_le_of_ne (cov_self_nonneg y n) hy.symm
  have hle := residual_le hx hn (y := y) (mean y n) 0
  rw [residual_mean] at hle
  have hnonneg : 0 ≤ residual x y n (intercept x y n) (slope x y n) := sum_nonneg fun _ _ => mul_self_nonneg _
  exact ⟨sub_nonneg.2 ((div_le_one hpos).2 hle), sub_le_self _ (div_nonneg hnonneg hpos.le)⟩

end

/-! ### The places as `x` -/

theorem sum_places (n : Nat) : ∑ i ∈ range n, (i : K) = n * (n - 1) / 2 := by
  induction n with
  | zero => simp
  | succ n ih =>
    rw [sum_range_succ, ih]
    push_cast
    ring

theorem sum_squares (n : Nat) : ∑ i ∈ range n, (i : K) * i = n * (n - 1) * (2 * n - 1) / 6 := by
  induction n with
  | zero => simp
  | succ n ih =>
    rw [sum_range_succ, ih]
    push_cast
    ring

end LeastSquares
