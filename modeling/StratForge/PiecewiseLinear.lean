import Mathlib.Algebra.Order.Field.Basic
import Mathlib.Tactic.Linarith

/-!
# Interpolation between knots

Knots `(x i, y i)` for `i ≤ n`, neither of them falling. `Interpolant x y n r v`: at `r` the polygon through the knots,
constant outside, has the value `v`. Where several knots stand at one place it jumps; before the first of them it
comes from the left, at all of them it is at the last. It lies between the first and the last `y`, never falls, and
meets every knot that stands alone.
-/

namespace PiecewiseLinear

variable {α : Type} [Field α] [LinearOrder α]

/-- The straight line through two knots. -/
def line (x₀ y₀ x₁ y₁ r : α) : α := y₀ + (r - x₀) / (x₁ - x₀) * (y₁ - y₀)

inductive Interpolant (x y : Nat → α) (n : Nat) (r : α) : α → Prop
  | before (h : r ≤ x 0) : Interpolant x y n r (y 0)
  | after (h : x 0 < r) (hn : x n ≤ r) : Interpolant x y n r (y n)
  | between (h : x 0 < r) (k : Nat) (hk : k < n) (hl : x k ≤ r) (hr : r < x (k + 1)) :
    Interpolant x y n r (line (x k) (y k) (x (k + 1)) (y (k + 1)) r)

/-- The knots from the first to the `n`-th do not fall. -/
def Rising (f : Nat → α) (n : Nat) : Prop := ∀ i j, i ≤ j → j ≤ n → f i ≤ f j

omit [LinearOrder α] in
theorem line_start (x₀ y₀ x₁ y₁ : α) : line x₀ y₀ x₁ y₁ x₀ = y₀ := by
  unfold line
  rw [sub_self, zero_div, zero_mul, add_zero]

variable [IsStrictOrderedRing α]

section line
variable {x₀ y₀ x₁ y₁ r r' : α} (hx : x₀ < x₁) (hy : y₀ ≤ y₁)
include hx hy

theorem line_mono (h : r ≤ r') : line x₀ y₀ x₁ y₁ r ≤ line x₀ y₀ x₁ y₁ r' := by
  have hslope : (r - x₀) / (x₁ - x₀) ≤ (r' - x₀) / (x₁ - x₀) :=
    div_le_div_of_nonneg_right (sub_le_sub_right h x₀) (sub_nonneg.2 hx.le)
  exact add_le_add_right (mul_le_mul_of_nonneg_right hslope (sub_nonneg.2 hy)) y₀

theorem le_line (h : x₀ ≤ r) : y₀ ≤ line x₀ y₀ x₁ y₁ r := by
  have hmono := line_mono hx hy h
  rwa [line_start] at hmono

theorem line_le (h : r ≤ x₁) : line x₀ y₀ x₁ y₁ r ≤ y₁ := by
  have hend : line x₀ y₀ x₁ y₁ x₁ = y₁ := by
    unfold line
    rw [div_self (sub_ne_zero.2 hx.ne'), one_mul, add_sub_cancel]
  exact (line_mono hx hy h).trans_eq hend

end line

namespace Interpolant
variable {x y : Nat → α} {n : Nat} {r r' v v' : α} (hx : Rising x n) (hy : Rising y n)

section
include hy

theorem bounded (h : Interpolant x y n r v) : y 0 ≤ v ∧ v ≤ y n := by
  cases h with
  | before => exact ⟨le_rfl, hy 0 n n.zero_le le_rfl⟩
  | after => exact ⟨hy 0 n n.zero_le le_rfl, le_rfl⟩
  | between _ k hk hl hr =>
    have hxk : x k < x (k + 1) := hl.trans_lt hr
    have hyk : y k ≤ y (k + 1) := hy k (k + 1) k.le_succ hk
    exact ⟨(hy 0 k k.zero_le hk.le).trans (le_line hxk hyk hl),
      (line_le hxk hyk hr.le).trans (hy (k + 1) n hk le_rfl)⟩

end

include hx

theorem mono (hy : Rising y n) (h : Interpolant x y n r v) (h' : Interpolant x y n r' v') (hr : r ≤ r') : v ≤ v' := by
  have hlow := (bounded hy h').1
  have hhigh := (bounded hy h).2
  cases h with
  | before => exact hlow
  | after h0 hn =>
    cases h' with
    | before h0' => exact absurd (h0.trans_le hr) (not_lt.2 h0')
    | after => exact le_rfl
    | between _ k hk _ hrk => exact absurd (hrk.trans_le (hx (k + 1) n hk le_rfl)) (not_lt.2 (hn.trans hr))
  | between h0 k hk hl hrk =>
    have hxk : x k < x (k + 1) := hl.trans_lt hrk
    have hyk : y k ≤ y (k + 1) := hy k (k + 1) k.le_succ hk
    cases h' with
    | before h0' => exact absurd (h0.trans_le hr) (not_lt.2 h0')
    | after => exact hhigh
    | between _ j hj hl' hrj =>
      rcases lt_trichotomy k j with hkj | rfl | hjk
      · exact (line_le hxk hyk hrk.le).trans ((hy (k + 1) j hkj hj.le).trans
          (le_line (hl'.trans_lt hrj) (hy j (j + 1) j.le_succ hj) hl'))
      · exact line_mono hxk hyk hr
      · exact absurd (hr.trans_lt hrj) (not_lt.2 ((hx (j + 1) k hjk hk.le).trans hl))

omit [IsStrictOrderedRing α] in
/-- A knot that stands alone is met. -/
theorem of_alone {k : Nat} (hk : k ≤ n) (halone : ∀ j, j ≤ n → x j = x k → j = k) (h : Interpolant x y n (x k) v) :
    v = y k := by
  cases h with
  | before h0 =>
    have heq : x 0 = x k := le_antisymm (hx 0 k k.zero_le hk) h0
    rw [halone 0 n.zero_le heq]
  | after _ hn =>
    have heq : x n = x k := le_antisymm hn (hx k n hk le_rfl)
    rw [halone n le_rfl heq]
  | between _ j hj hl hr =>
    rcases lt_trichotomy j k with hjk | rfl | hkj
    · exact absurd hr (not_lt.2 (hx (j + 1) k hjk hk))
    · exact line_start ..
    · have heq : x j = x k := le_antisymm hl (hx k j hkj.le hj.le)
      exact absurd (halone j hj.le heq) hkj.ne'

end Interpolant

omit [Field α] [IsStrictOrderedRing α] in
/-- Two pieces that rise, and do not fall where they meet. -/
theorem mono_pieces {f g : α → α} {c : α} (hf : Monotone f) (hg : Monotone g) (hseam : ∀ r r', r ≤ c → c < r' → f r ≤ g r') :
    Monotone fun r => if r ≤ c then f r else g r := by
  intro r r' h
  dsimp only
  by_cases hr' : r' ≤ c
  · rw [if_pos hr', if_pos (h.trans hr')]
    exact hf h
  · rw [if_neg hr']
    by_cases hr : r ≤ c
    · rw [if_pos hr]
      exact hseam r r' hr (not_le.1 hr')
    · rw [if_neg hr]
      exact hg h

end PiecewiseLinear
