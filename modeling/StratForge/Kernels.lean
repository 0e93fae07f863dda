import Mathlib.Algebra.Polynomial.AlgebraMap
import Mathlib.Algebra.Polynomial.Derivative
import Mathlib.Algebra.Polynomial.Coeff
import Mathlib.Algebra.Order.BigOperators.Ring.Finset
import Mathlib.Algebra.Order.Field.Basic
import Mathlib.Tactic.Ring
import Mathlib.Tactic.Linarith

/-!
# Kernels

A filter that weighs the last values of a series is a polynomial in the delay of one place. A filter after a filter is
the product (`apply_mul`), so filters commute; the weights sum to the value at 1, and the derivative there is how far
the filter lags behind a straight line (`apply_line`).
-/

namespace Kernel
open Polynomial Finset

variable {K : Type} [Field K]

/-- The series one place later. -/
def delay : Module.End K (ℤ → K) where
  toFun x t := x (t - 1)
  map_add' _ _ := rfl
  map_smul' _ _ := rfl

/-- The coefficient of `X ^ i` weighs the value `i` places ago. -/
noncomputable def apply (P : K[X]) : Module.End K (ℤ → K) := aeval delay P

/-- The first `n` weights. -/
noncomputable def ofFn (n : Nat) (w : Nat → K) : K[X] := ∑ i ∈ range n, C (w i) * X ^ i

variable {P Q : K[X]} {n : Nat} {w : Nat → K} {x y : ℤ → K} {t : ℤ}

theorem delay_pow (i : Nat) (x : ℤ → K) (t : ℤ) : (delay ^ i : Module.End K (ℤ → K)) x t = x (t - i) := by
  induction i generalizing t with
  | zero => simp
  | succ i ih =>
    rw [pow_succ', Module.End.mul_apply]
    show (delay ^ i) x (t - 1) = _
    rw [ih]
    push_cast
    ring_nf

theorem apply_ofFn (n : Nat) (w : Nat → K) (x : ℤ → K) (t : ℤ) : apply (ofFn n w) x t = ∑ i ∈ range n, w i * x (t - i) := by
  rw [apply, ofFn, map_sum, LinearMap.sum_apply, Finset.sum_apply]
  refine sum_congr rfl fun i _ => ?_
  rw [map_mul, aeval_C, map_pow, aeval_X, Module.End.mul_apply, Module.algebraMap_end_apply, Pi.smul_apply, delay_pow, smul_eq_mul]

theorem coeff_ofFn (n : Nat) (w : Nat → K) (k : Nat) : (ofFn n w).coeff k = if k < n then w k else 0 := by
  rw [ofFn, finsetSum_coeff]
  simp only [coeff_C_mul, coeff_X_pow, mul_ite, mul_one, mul_zero]
  rw [sum_ite_eq]
  simp

/-- A kernel is its weights. -/
theorem eq_ofFn (h : ∀ k, n ≤ k → P.coeff k = 0) : P = ofFn n P.coeff := by
  ext k
  rw [coeff_ofFn]
  split_ifs with hk
  · rfl
  · exact h k (Nat.not_lt.1 hk)

theorem ofFn_congr {w' : Nat → K} (h : ∀ i < n, w i = w' i) : ofFn n w = ofFn n w' := by
  ext k
  rw [coeff_ofFn, coeff_ofFn]
  split_ifs with hk
  · exact h k hk
  · rfl

/-- A filter after a filter. -/
theorem apply_mul (P Q : K[X]) (x : ℤ → K) : apply (P * Q) x = apply P (apply Q x) := by
  rw [apply, map_mul, Module.End.mul_apply]
  rfl

theorem apply_C_mul (c : K) (P : K[X]) (x : ℤ → K) (t : ℤ) : apply (C c * P) x t = c * apply P x t := by
  rw [apply, map_mul, aeval_C, Module.End.mul_apply, Module.algebraMap_end_apply, Pi.smul_apply, smul_eq_mul]
  rfl

theorem apply_sub (P Q : K[X]) (x : ℤ → K) (t : ℤ) : apply (P - Q) x t = apply P x t - apply Q x t := by
  rw [apply, map_sub]
  rfl

theorem apply_eq_sum (h : ∀ k, n ≤ k → P.coeff k = 0) (x : ℤ → K) (t : ℤ) :
    apply P x t = ∑ i ∈ range n, P.coeff i * x (t - i) := by
  rw [eq_ofFn h, apply_ofFn, ← eq_ofFn h]

/-- The weights sum to the value at 1. -/
theorem sum_coeff (h : ∀ k, n ≤ k → P.coeff k = 0) : ∑ i ∈ range n, P.coeff i = P.eval 1 := by
  conv_rhs => rw [eq_ofFn h, ofFn, eval_finsetSum]
  simp

theorem coeff_of_natDegree (P : K[X]) (k : Nat) (hk : P.natDegree + 1 ≤ k) : P.coeff k = 0 := coeff_eq_zero_of_natDegree_lt hk

/-- Weights that sum to 1 follow a change of units. -/
theorem apply_affine (hmass : P.eval 1 = 1) (a b : K) (x : ℤ → K) (t : ℤ) :
    apply P (fun t => a * x t + b) t = a * apply P x t + b := by
  have hzero := coeff_of_natDegree P
  have hone : ∑ i ∈ range (P.natDegree + 1), P.coeff i = 1 := (sum_coeff hzero).trans hmass
  rw [apply_eq_sum hzero, apply_eq_sum hzero, mul_sum]
  calc ∑ i ∈ range (P.natDegree + 1), P.coeff i * (a * x (t - i) + b)
      = ∑ i ∈ range (P.natDegree + 1), (a * (P.coeff i * x (t - i)) + P.coeff i * b) := sum_congr rfl fun i _ => by ring
    _ = ∑ i ∈ range (P.natDegree + 1), a * (P.coeff i * x (t - i)) + b := by rw [sum_add_distrib, ← sum_mul, hone, one_mul]

/-- How far the weights lie back. -/
noncomputable def lag (P : K[X]) : K := P.derivative.eval 1

theorem lag_mul (hP : P.eval 1 = 1) (hQ : Q.eval 1 = 1) : lag (P * Q) = lag P + lag Q := by
  rw [lag, derivative_mul, eval_add, eval_mul, eval_mul, hP, hQ]
  simp only [lag]
  ring

theorem lag_ofFn (n : Nat) (w : Nat → K) : lag (ofFn n w) = ∑ i ∈ range n, i * w i := by
  rw [lag, ofFn, derivative_sum, eval_finsetSum]
  refine sum_congr rfl fun i _ => ?_
  rw [derivative_C_mul_X_pow]
  simp [mul_comm]

/-- A straight line comes out later. -/
theorem apply_line (hmass : P.eval 1 = 1) (t : ℤ) : apply P (fun t => (t : K)) t = t - lag P := by
  have hzero := coeff_of_natDegree P
  have hone : ∑ i ∈ range (P.natDegree + 1), P.coeff i = 1 := (sum_coeff hzero).trans hmass
  have hlag : lag P = ∑ i ∈ range (P.natDegree + 1), i * P.coeff i := by
    conv_lhs => rw [eq_ofFn hzero]
    rw [lag_ofFn]
  rw [apply_eq_sum hzero, hlag]
  calc ∑ i ∈ range (P.natDegree + 1), P.coeff i * ((t - i : ℤ) : K)
      = ∑ i ∈ range (P.natDegree + 1), (P.coeff i * t - i * P.coeff i) := sum_congr rfl fun i _ => by push_cast; ring
    _ = t - ∑ i ∈ range (P.natDegree + 1), i * P.coeff i := by rw [sum_sub_distrib, ← sum_mul, hone, one_mul]

/-- Weights that are not negative keep to the range of the window. -/
theorem apply_mem [LinearOrder K] [IsStrictOrderedRing K] {lo hi : K} (h : ∀ k, n ≤ k → P.coeff k = 0)
    (hnonneg : ∀ k, 0 ≤ P.coeff k) (hmass : P.eval 1 = 1) (hx : ∀ i < n, lo ≤ x (t - i) ∧ x (t - i) ≤ hi) :
    lo ≤ apply P x t ∧ apply P x t ≤ hi := by
  have hone : ∑ i ∈ range n, P.coeff i = 1 := (sum_coeff h).trans hmass
  rw [apply_eq_sum h]
  constructor
  · calc lo = ∑ i ∈ range n, P.coeff i * lo := by rw [← sum_mul, hone, one_mul]
      _ ≤ _ := sum_le_sum fun i hi => mul_le_mul_of_nonneg_left (hx i (mem_range.1 hi)).1 (hnonneg i)
  · calc _ ≤ ∑ i ∈ range n, P.coeff i * hi := sum_le_sum fun i hi => mul_le_mul_of_nonneg_left (hx i (mem_range.1 hi)).2 (hnonneg i)
      _ = hi := by rw [← sum_mul, hone, one_mul]

/-! ### Boxes, triangles and binomials -/

/-- The sum of the last `n` values. -/
noncomputable def box (n : Nat) : K[X] := ofFn n fun _ => 1

/-- Two boxes of about the same size make a triangle. -/
theorem box_mul_box {a b : Nat} (hab : a ≤ b) (hb : b ≤ a + 1) :
    (box a * box b : K[X]) = ofFn (a + b - 1) fun k => ((min (k + 1) (a + b - 1 - k) : Nat) : K) := by
  ext k
  rw [coeff_mul, Nat.sum_antidiagonal_eq_sum_range_succ fun i j => (box a : K[X]).coeff i * (box b : K[X]).coeff j, coeff_ofFn]
  have hterm : ∀ i ∈ range (k + 1), (box a : K[X]).coeff i * (box b : K[X]).coeff (k - i) =
      if i ∈ Ico (k + 1 - b) (min a (k + 1)) then 1 else 0 := by
    intro i hi
    rw [mem_range] at hi
    simp only [box, coeff_ofFn, mem_Ico]
    split_ifs <;> first | omega | simp
  rw [sum_congr rfl hterm, ← sum_filter, sum_const, nsmul_eq_mul, mul_one]
  have hcard : ((range (k + 1)).filter fun i => i ∈ Ico (k + 1 - b) (min a (k + 1))) = Ico (k + 1 - b) (min a (k + 1)) := by
    ext i
    simp only [mem_filter, mem_range, mem_Ico]
    omega
  rw [hcard, Nat.card_Ico]
  split_ifs with hk
  · congr 1
    omega
  · rw [show min a (k + 1) - (k + 1 - b) = 0 by omega, Nat.cast_zero]

/-- The weights of a row of Pascal's triangle. -/
theorem ofFn_choose (n : Nat) : (ofFn (n + 1) fun k => (n.choose k : K)) = (1 + X) ^ n := by
  ext k
  rw [coeff_ofFn, coeff_one_add_X_pow]
  split_ifs with hk
  · rfl
  · rw [Nat.choose_eq_zero_of_lt (by omega), Nat.cast_zero]

/-! ### Averages -/

/-- The average with these weights. -/
noncomputable def average (n : Nat) (w : Nat → K) : K[X] := C (∑ i ∈ range n, w i)⁻¹ * ofFn n w

theorem eval_ofFn (n : Nat) (w : Nat → K) : (ofFn n w).eval 1 = ∑ i ∈ range n, w i := by
  rw [ofFn, eval_finsetSum]
  simp

theorem coeff_average (n : Nat) (w : Nat → K) (k : Nat) :
    (average n w).coeff k = if k < n then (∑ i ∈ range n, w i)⁻¹ * w k else 0 := by
  rw [average, coeff_C_mul, coeff_ofFn, mul_ite, mul_zero]

theorem eval_average (h : ∑ i ∈ range n, w i ≠ 0) : (average n w).eval 1 = 1 := by
  rw [average, eval_mul, eval_C, eval_ofFn, inv_mul_cancel₀ h]

theorem average_congr {w' : Nat → K} (h : ∀ i < n, w i = w' i) : average n w = average n w' := by
  rw [average, average, ofFn_congr h, sum_congr rfl fun i hi => h i (mem_range.1 hi)]

theorem apply_average (n : Nat) (w : Nat → K) (x : ℤ → K) (t : ℤ) :
    apply (average n w) x t = (∑ i ∈ range n, w i * x (t - i)) / ∑ i ∈ range n, w i := by
  rw [average, apply_C_mul, apply_ofFn, inv_mul_eq_div]

theorem lag_average (n : Nat) (w : Nat → K) : lag (average n w) = (∑ i ∈ range n, i * w i) / ∑ i ∈ range n, w i := by
  rw [lag, average, derivative_C_mul, eval_C_mul, ← lag, lag_ofFn, inv_mul_eq_div]

/-- An average of averages weighs with the products. -/
theorem average_mul {m k : Nat} {u v : Nat → K} (h : ofFn n u * ofFn m v = ofFn k w) :
    average n u * average m v = average k w := by
  have hmass : (∑ i ∈ range n, u i) * ∑ i ∈ range m, v i = ∑ i ∈ range k, w i := by
    rw [← eval_ofFn, ← eval_ofFn, ← eval_ofFn, ← h, eval_mul]
  rw [average, average, average, ← hmass, ← h, mul_inv, C_mul]
  ring

end Kernel
