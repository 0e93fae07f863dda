import Mathlib.Algebra.Order.Field.Basic
import Mathlib.MeasureTheory.Integral.IntervalIntegral.Basic
import Mathlib.MeasureTheory.Measure.Lebesgue.Basic

/-!
# Step functions of marginal rates

A list of steps, each with the threshold up to which its rate applies, gives the rate of every volume
(`rateAt`): that of the first step whose threshold is above the volume, and `last` beyond all of
them. `area` sums rate times width from one volume to another; over a sorted list it is the integral
of the rate (`integral_rateAt`).
-/

namespace Marginal
variable {ι K : Type*} [Field K] [LinearOrder K] (threshold rate : ι → K) (last : K)

def rateAt (steps : List ι) (v : K) : K := ((steps.find? fun s => v < threshold s).map rate).getD last

/-- From `start` to `v`, where the steps begin at `start`. -/
def area : List ι → K → K → K
  | [], start, v => last * (v - start)
  | s :: rest, start, v =>
      if v ≤ threshold s then rate s * (v - start)
      else rate s * (threshold s - start) + area rest (threshold s) v

/-- Thresholds ascend from `start`. -/
def Ascending : List ι → K → Prop
  | [], _ => True
  | s :: rest, start => start ≤ threshold s ∧ Ascending rest (threshold s)

variable {threshold rate last} {steps : List ι} {start v w : K}

omit [Field K] in
theorem rateAt_of_lt {s : ι} (h : v < threshold s) :
    rateAt threshold rate last (s :: steps) v = rate s := by
  simp [rateAt, h]

omit [Field K] in
theorem rateAt_of_le {s : ι} (h : threshold s ≤ v) :
    rateAt threshold rate last (s :: steps) v = rateAt threshold rate last steps v := by
  simp [rateAt, not_lt.2 h]

theorem area_of_le {s : ι} (h : v ≤ threshold s) :
    area threshold rate last (s :: steps) start v = rate s * (v - start) := by
  rw [area, if_pos h]

theorem area_of_lt {s : ι} (h : threshold s < v) :
    area threshold rate last (s :: steps) start v =
      rate s * (threshold s - start) + area threshold rate last steps (threshold s) v := by
  rw [area, if_neg (not_le.2 h)]

theorem area_self (h : Ascending threshold steps start) : area threshold rate last steps start start = 0 := by
  cases steps with
  | nil => simp [area]
  | cons s steps => rw [area_of_le h.1, sub_self, mul_zero]

/-- A step that begins no later than the volume contributes all its width. -/
theorem area_cons_of_ge {s : ι} (hs : Ascending threshold steps (threshold s)) (h : threshold s ≤ v) :
    area threshold rate last (s :: steps) start v =
      rate s * (threshold s - start) + area threshold rate last steps (threshold s) v := by
  rcases h.lt_or_eq with hlt | rfl
  · exact area_of_lt hlt
  · rw [area_of_le le_rfl, area_self hs, add_zero]

/-- With rates that are not negative a larger volume has the larger area. -/
theorem area_mono [IsStrictOrderedRing K] (hs : Ascending threshold steps start)
    (hrate : ∀ s ∈ steps, 0 ≤ rate s) (hlast : 0 ≤ last) (hv : start ≤ v) (hvw : v ≤ w) :
    area threshold rate last steps start v ≤ area threshold rate last steps start w := by
  induction steps generalizing start v with
  | nil => exact mul_le_mul_of_nonneg_left (sub_le_sub_right hvw _) hlast
  | cons s steps ih =>
    obtain ⟨h1, h2⟩ := hs
    have hrest : ∀ s' ∈ steps, 0 ≤ rate s' := fun s' h => hrate s' (List.mem_cons_of_mem _ h)
    have hr := hrate s List.mem_cons_self
    rcases le_total w (threshold s) with hw | hw
    · rw [area_of_le hw, area_of_le (hvw.trans hw)]
      exact mul_le_mul_of_nonneg_left (sub_le_sub_right hvw _) hr
    rw [area_cons_of_ge h2 hw]
    rcases le_total v (threshold s) with hvs | hvs
    · have hzero := ih h2 hrest le_rfl hw
      rw [area_self h2] at hzero
      rw [area_of_le hvs]
      exact (mul_le_mul_of_nonneg_left (sub_le_sub_right hvs _) hr).trans (le_add_of_nonneg_right hzero)
    · rw [area_cons_of_ge h2 hvs]
      exact add_le_add_right (ih h2 hrest hvs hvw) _

/-- Along a sorted list the area is the integral of the rate. -/
theorem integral_rateAt {threshold rate : ι → ℝ} {last : ℝ} {steps : List ι} {start v : ℝ}
    (hs : Ascending threshold steps start) (hv : start ≤ v) :
    IntervalIntegrable (rateAt threshold rate last steps) MeasureTheory.volume start v ∧
      ∫ x in start..v, rateAt threshold rate last steps x = area threshold rate last steps start v := by
  induction steps generalizing start v with
  | nil =>
    refine ⟨intervalIntegrable_const, ?_⟩
    show ∫ _ in start..v, last = _
    rw [intervalIntegral.integral_const, smul_eq_mul, mul_comm]
    rfl
  | cons s steps ih =>
    obtain ⟨h1, h2⟩ := hs
    -- up to the threshold the rate is that of the step
    have hfirst : ∀ w, start ≤ w → w ≤ threshold s →
        IntervalIntegrable (rateAt threshold rate last (s :: steps)) MeasureTheory.volume start w ∧
        ∫ x in start..w, rateAt threshold rate last (s :: steps) x = rate s * (w - start) := by
      intro w hw hws
      have heq : (Set.uIoo start w).EqOn (fun _ => rate s) (rateAt threshold rate last (s :: steps)) := by
        intro x hx
        rw [Set.uIoo_of_le hw] at hx
        exact (rateAt_of_lt (hx.2.trans_le hws)).symm
      refine ⟨intervalIntegrable_const.congr_uIoo heq, ?_⟩
      rw [← intervalIntegral.integral_congr_uIoo heq, intervalIntegral.integral_const, smul_eq_mul, mul_comm]
    rcases le_total v (threshold s) with hvs | hvs
    · rw [area_of_le hvs]
      exact hfirst v hv hvs
    -- beyond it the rate is that of the other steps
    · have heq : (Set.uIoo (threshold s) v).EqOn (rateAt threshold rate last steps)
          (rateAt threshold rate last (s :: steps)) := by
        intro x hx
        rw [Set.uIoo_of_le hvs] at hx
        exact (rateAt_of_le hx.1.le).symm
      obtain ⟨hi1, he1⟩ := hfirst (threshold s) h1 le_rfl
      obtain ⟨hi2, he2⟩ := ih h2 hvs
      have hi2' := hi2.congr_uIoo heq
      refine ⟨hi1.trans hi2', ?_⟩
      rw [← intervalIntegral.integral_add_adjacent_intervals hi1 hi2', he1,
        ← intervalIntegral.integral_congr_uIoo heq, he2, area_cons_of_ge h2 hvs]

end Marginal
