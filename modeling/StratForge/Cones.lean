import Mathlib.Algebra.BigOperators.Group.List.Basic
import Mathlib.Algebra.Order.Field.Basic
import Mathlib.Tactic.Linarith
import Mathlib.Tactic.Ring

/-! # Averages of pairs

Two series are averaged side by side. A relation between their values that sums and multiples keep (`Cone`), as that one
is at least the size of the other, is kept by every kind of average that weighs both alike. -/

namespace Cones
universe u

variable {K : Type u} [Field K] [LinearOrder K] [IsStrictOrderedRing K]

/-- Sums with a weight that is not negative, and multiples by a weight that is positive. -/
structure Cone (C : K → K → Prop) : Prop where
  shift : ∀ {x y x' y' c : K}, C x y → C x' y' → 0 ≤ c → C (x + c * x') (y + c * y')
  scale : ∀ {x y c : K}, C x y → 0 < c → C (c * x) (c * y)

namespace Cone
variable {C : K → K → Prop} {x y x' y' : K} {xs ys : List K} {n : Nat}

theorem sum (h : Cone C) (hxy : List.Forall₂ C xs ys) (hne : xs ≠ []) : C xs.sum ys.sum := by
  induction hxy with
  | nil => exact absurd rfl hne
  | @cons a b as bs hab hrest ih =>
    rw [List.sum_cons, List.sum_cons]
    rcases hrest with _ | ⟨hcd, hrest⟩
    · simpa using hab
    · have hshift := h.shift hab (ih (List.cons_ne_nil _ _)) zero_le_one
      rwa [one_mul, one_mul] at hshift

theorem mean (h : Cone C) (hxy : List.Forall₂ C xs ys) (hn : 0 < n) (hne : xs ≠ []) : C (xs.sum / n) (ys.sum / n) := by
  have hpos : (0 : K) < n := by exact_mod_cast hn
  have hscale := h.scale (h.sum hxy hne) (inv_pos.2 hpos)
  rwa [inv_mul_eq_div, inv_mul_eq_div] at hscale

/-- The part `m` of the way to the new values. -/
theorem approach {m : K} (h : Cone C) (hxy : C x y) (hnew : C x' y') (hm : 0 < m) (hle : m ≤ 1) :
    C ((x' - x) * m + x) ((y' - y) * m + y) := by
  have hshift := h.shift (h.scale hnew hm) hxy (sub_nonneg.2 hle)
  rwa [show m * x' + (1 - m) * x = (x' - x) * m + x by ring, show m * y' + (1 - m) * y = (y' - y) * m + y by ring] at hshift

/-- The old values weigh `n - 1` of `n`. -/
theorem smooth (h : Cone C) (hxy : C x y) (hnew : C x' y') (hn : 0 < n) :
    C ((x * (n - 1) + x') / n) ((y * (n - 1) + y') / n) := by
  have hpos : (0 : K) < n := by exact_mod_cast hn
  have hone : (1 : K) ≤ n := by exact_mod_cast hn
  have hscale := h.scale (h.shift hnew hxy (sub_nonneg.2 hone)) (inv_pos.2 hpos)
  rwa [inv_mul_eq_div, inv_mul_eq_div, show x' + ((n : K) - 1) * x = x * (n - 1) + x' by ring,
    show y' + ((n : K) - 1) * y = y * (n - 1) + y' by ring] at hscale

end Cone

/-- Neither is negative, and where something moves they are not both zero. -/
theorem cone_nonneg (moves : Prop) : Cone fun x y : K => 0 ≤ x ∧ 0 ≤ y ∧ (moves → 0 < x + y) where
  shift := by
    rintro x y x' y' c ⟨hx, hy, hpos⟩ ⟨hx', hy', hpos'⟩ hc
    refine ⟨add_nonneg hx (mul_nonneg hc hx'), add_nonneg hy (mul_nonneg hc hy'), fun hm => ?_⟩
    have hrest : 0 ≤ c * x' + c * y' := add_nonneg (mul_nonneg hc hx') (mul_nonneg hc hy')
    linarith [hpos hm]
  scale := by
    rintro x y c ⟨hx, hy, hpos⟩ hc
    refine ⟨mul_nonneg hc.le hx, mul_nonneg hc.le hy, fun hm => ?_⟩
    rw [← mul_add]
    exact mul_pos hc (hpos hm)

/-- The one is at least the size of the other, and where something moves it is not zero. -/
theorem cone_abs (moves : Prop) : Cone fun x y : K => |x| ≤ y ∧ (moves → 0 < y) where
  shift := by
    rintro x y x' y' c ⟨habs, hpos⟩ ⟨habs', hpos'⟩ hc
    refine ⟨?_, fun hm => add_pos_of_pos_of_nonneg (hpos hm) (mul_nonneg hc (hpos' hm).le)⟩
    calc |x + c * x'| ≤ |x| + |c * x'| := abs_add_le _ _
      _ = |x| + c * |x'| := by rw [abs_mul, abs_of_nonneg hc]
      _ ≤ y + c * y' := add_le_add habs (mul_le_mul_of_nonneg_left habs' hc)
  scale := by
    rintro x y c ⟨habs, hpos⟩ hc
    refine ⟨?_, fun hm => mul_pos hc (hpos hm)⟩
    rw [abs_mul, abs_of_pos hc]
    exact mul_le_mul_of_nonneg_left habs hc.le

end Cones
