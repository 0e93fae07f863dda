import Mathlib.Algebra.BigOperators.Group.List.Basic
import Mathlib.Algebra.Order.BigOperators.Group.Finset
import Mathlib.Algebra.Order.BigOperators.Group.List
import Mathlib.Algebra.Order.Field.Basic
import Mathlib.Tactic.Linarith
import Mathlib.Tactic.Ring

/-! # Values between others

`Amid xs v`: `v` is not below the least and not above the greatest of `xs`. Means and mixtures of such values are such
values again. How far a path has come is at most how far it has gone (`abs_sub_le_travel`), so one in parts of the
other is a weight. -/

namespace Mixtures
universe u

variable {K : Type u} [Field K] [LinearOrder K] [IsStrictOrderedRing K] {xs ys : List K} {v w a b c e : K}

/-- In every interval that holds all of `xs`. -/
def Amid (xs : List K) (v : K) : Prop := ∀ lo hi, (∀ x ∈ xs, lo ≤ x ∧ x ≤ hi) → lo ≤ v ∧ v ≤ hi

/-- In the unit interval. -/
def Weight (c : K) : Prop := 0 ≤ c ∧ c ≤ 1

namespace Amid

omit [Field K] [IsStrictOrderedRing K] in
theorem of_mem (h : v ∈ xs) : Amid xs v := fun _ _ hxs => hxs v h

omit [Field K] [IsStrictOrderedRing K] in
theorem mono (h : Amid xs v) (hsub : xs ⊆ ys) : Amid ys v := fun lo hi hys => h lo hi fun x hx => hys x (hsub hx)

/-- The part `c` of the way from one to the other. -/
theorem mix (hv : Amid xs v) (hw : Amid xs w) (hc : Weight c) : Amid xs (v * (1 - c) + w * c) := by
  intro lo hi hxs
  obtain ⟨hv0, hv1⟩ := hv lo hi hxs
  obtain ⟨hw0, hw1⟩ := hw lo hi hxs
  have hrest : 0 ≤ 1 - c := sub_nonneg.2 hc.2
  constructor
  · calc lo = lo * (1 - c) + lo * c := by ring
      _ ≤ v * (1 - c) + w * c := add_le_add (mul_le_mul_of_nonneg_right hv0 hrest) (mul_le_mul_of_nonneg_right hw0 hc.1)
  · calc v * (1 - c) + w * c ≤ hi * (1 - c) + hi * c :=
          add_le_add (mul_le_mul_of_nonneg_right hv1 hrest) (mul_le_mul_of_nonneg_right hw1 hc.1)
      _ = hi := by ring

theorem mean (hsub : ys ⊆ xs) (hne : ys ≠ []) : Amid xs (ys.sum / ys.length) := by
  intro lo hi hxs
  have hpos : (0 : K) < ys.length := by exact_mod_cast List.length_pos_iff.2 hne
  have hlo := List.card_nsmul_le_sum ys lo fun y hy => (hxs y (hsub hy)).1
  have hhi := List.sum_le_card_nsmul ys hi fun y hy => (hxs y (hsub hy)).2
  rw [nsmul_eq_mul, mul_comm] at hlo hhi
  exact ⟨(le_div_iff₀ hpos).2 hlo, (div_le_iff₀ hpos).2 hhi⟩

end Amid

/-! ### Weights -/

theorem weight_zero : Weight (0 : K) := ⟨le_rfl, zero_le_one⟩

/-- The ends may come in either order. -/
theorem Weight.blend (ha : Weight a) (hb : Weight b) (he : Weight e) : Weight (e * (a - b) + b) := by
  have hrest : 0 ≤ 1 - e := sub_nonneg.2 he.2
  have hmix : e * (a - b) + b = a * e + b * (1 - e) := by ring
  rw [hmix]
  constructor
  · exact add_nonneg (mul_nonneg ha.1 he.1) (mul_nonneg hb.1 hrest)
  · calc a * e + b * (1 - e) ≤ 1 * e + 1 * (1 - e) :=
          add_le_add (mul_le_mul_of_nonneg_right ha.2 he.1) (mul_le_mul_of_nonneg_right hb.2 hrest)
      _ = 1 := by ring

theorem Weight.mul (ha : Weight a) (hb : Weight b) : Weight (a * b) :=
  ⟨mul_nonneg ha.1 hb.1, mul_le_one₀ ha.2 hb.1 hb.2⟩

theorem weight_div (ha : 0 ≤ a) (hab : a ≤ b) : Weight (a / b) :=
  ⟨div_nonneg ha (ha.trans hab), div_le_one_of_le₀ hab (ha.trans hab)⟩

/-! ### Ways -/

/-- How far the path has gone in `n` steps. -/
def travel (f : Nat → K) (n : Nat) : K := ∑ i ∈ Finset.range n, |f i - f (i + 1)|

theorem abs_sub_le_travel (f : Nat → K) (n : Nat) : |f 0 - f n| ≤ travel f n := by
  rw [← Finset.sum_range_sub' f n]
  exact Finset.abs_sum_le_sum_abs _ _

/-- Of two sums of sizes. -/
theorem abs_sub_le_add (ha : 0 ≤ a) (hb : 0 ≤ b) : |a - b| ≤ a + b := abs_le.2 ⟨by linarith, by linarith⟩

end Mixtures
