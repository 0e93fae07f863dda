import StratForge.LeastSquares
import StratForge.LookBack

/-!
# Regressions over a window (`indicators/linearreg.hpp`, `ols.hpp`, `alpha191_ops.hpp`, `jkp_ops.hpp`)

The slope and the intercept from centred sums, back from the newest bar or forward from the oldest, from raw sums, and
from closed forms when `x` counts the bars. In exact arithmetic all are those of the line of least squares
(`regressions_agree`).
-/

namespace StratForge
namespace Indicators
open Floating (nan isNaN)
open Access (readBack)

section
variable {α : Type} [Arith α] [Floating α]

/-- `x` and `y` at the places that the loops of a window read. -/
def readPairs (readX readY : Nat → Option α) (period : Nat) : Option (List (α × α)) :=
  (List.range period).mapM fun i => do
    let x ← readX i
    let y ← readY i
    return (x, y)

/-! ### OLS -/

/-- `line` is the slope. -/
structure OLS_Slope_InterceptN (α : Type) where
  period : Nat
  line : List α := []
  intercept : List α := []

namespace OLS_Slope_InterceptN

def init (period : Nat) : OLS_Slope_InterceptN α := { period := if period = 0 then 1 else period }

def next (data0 data1 : Line α) (o : OLS_Slope_InterceptN α) : Option (OLS_Slope_InterceptN α) :=
  if data0.idx + 1 < o.period then some { o with line := o.line ++ [nan], intercept := o.intercept ++ [nan] }
  else do
    let window ← readPairs (readBack data1.data data0.idx) (readBack data0.data data0.idx) o.period
    let meanX := Simd.reduceSum (window.map fun w => w.1) / Arith.ofCount o.period
    let meanY := Simd.reduceSum (window.map fun w => w.2) / Arith.ofCount o.period
    let sxx := Simd.reduceSum (window.map fun w => (w.1 - meanX) * (w.1 - meanX))
    let sxy := Simd.reduceSum (window.map fun w => (w.1 - meanX) * (w.2 - meanY))
    let slope := if sxx == 0 then 0 else sxy / sxx
    return { o with line := o.line ++ [slope], intercept := o.intercept ++ [meanY - slope * meanX] }

end OLS_Slope_InterceptN

/-! ### Alpha 191 -/

structure RegResult (α : Type) where
  alpha : α
  beta : α
  rSquared : α
deriving DecidableEq

/-- The window from its oldest bar on. -/
def pairsForward (y x : Line α) (idx period : Nat) : Option (List (α × α)) :=
  readPairs (fun i => x.data[idx + 1 - period + i]?) (fun i => y.data[idx + 1 - period + i]?) period

def regCompute (y x : Line α) (idx d : Nat) : Option (RegResult α) :=
  if idx + 1 < d then some ⟨nan, nan, nan⟩
  else do
    let n : α := Arith.ofCount d
    let window ← pairsForward y x idx d
    let sx := Simd.reduceSum (window.map fun w => w.1)
    let sy := Simd.reduceSum (window.map fun w => w.2)
    let sxx := Simd.reduceSum (window.map fun w => w.1 * w.1)
    let sxy := Simd.reduceSum (window.map fun w => w.1 * w.2)
    let syy := Simd.reduceSum (window.map fun w => w.2 * w.2)
    let denom := n * sxx - sx * sx
    if denom == 0 then return ⟨nan, nan, nan⟩
    let beta := (n * sxy - sx * sy) / denom
    let alpha := (sy - beta * sx) / n
    let ssTot := syy - sy * sy / n
    if ssTot == 0 then return ⟨alpha, beta, nan⟩
    let ssRes := Simd.reduceSum (window.map fun w => (w.2 - alpha - beta * w.1) * (w.2 - alpha - beta * w.1))
    return ⟨alpha, beta, 1 - ssRes / ssTot⟩

/-! ### JKP -/

namespace Jkp

def beta (y x : Line α) (idx period : Nat) : Option α :=
  if idx + 1 < period then some nan
  else do
    let window ← pairsForward y x idx period
    let mx := Simd.reduceSum (window.map fun w => w.1) / Arith.ofCount period
    let my := Simd.reduceSum (window.map fun w => w.2) / Arith.ofCount period
    let cov := Simd.reduceSum (window.map fun w => (w.1 - mx) * (w.2 - my))
    let varX := Simd.reduceSum (window.map fun w => (w.1 - mx) * (w.1 - mx))
    return if varX == 0 then nan else cov / varX

def alphaOls (y x : Line α) (idx period : Nat) : Option α :=
  if idx + 1 < period then some nan
  else do
    let window ← pairsForward y x idx period
    let mx := Simd.reduceSum (window.map fun w => w.1) / Arith.ofCount period
    let my := Simd.reduceSum (window.map fun w => w.2) / Arith.ofCount period
    let b ← beta y x idx period
    return if isNaN b then nan else my - b * mx

def rSquared (y x : Line α) (idx period : Nat) : Option α :=
  if idx + 1 < period then some nan
  else do
    let ys ← (List.range period).mapM fun i => y.data[idx + 1 - period + i]?
    let my := Simd.reduceSum ys / Arith.ofCount period
    let ssTot := Simd.reduceSum (ys.map fun v => (v - my) * (v - my))
    if ssTot == 0 then return nan
    let b ← beta y x idx period
    let a ← alphaOls y x idx period
    if isNaN b then return nan
    let window ← pairsForward y x idx period
    let ssRes := Simd.reduceSum (window.map fun w => (w.2 - a - b * w.1) * (w.2 - a - b * w.1))
    return 1 - ssRes / ssTot

end Jkp

/-! ### Against the bars of the window -/

/-- `line` is the fitted value. -/
structure LinearReg (α : Type) where
  period : Nat
  line : List α := []
  slope : List α := []
  intercept : List α := []

namespace LinearReg

def init (period : Nat) : LinearReg α := { period := if period = 0 then 1 else period }

def next (source : Line α) (l : LinearReg α) : Option (LinearReg α) :=
  if source.idx + 1 < l.period then
    some { l with line := l.line ++ [nan], slope := l.slope ++ [nan], intercept := l.intercept ++ [nan] }
  else do
    let n : α := Arith.ofCount l.period
    let sumX := n * (n - 1.0) / 2.0
    let sumX2 := n * (n - 1.0) * (2.0 * n - 1.0) / 6.0
    let window ← readPairs (fun i => some (Arith.ofCount i)) (fun i => source.data[source.idx + 1 - l.period + i]?) l.period
    let sumY := Simd.reduceSum (window.map fun w => w.2)
    let sumXY := Simd.reduceSum (window.map fun w => w.1 * w.2)
    let denom := n * sumX2 - sumX * sumX
    let s := if denom == 0 then 0 else (n * sumXY - sumX * sumY) / denom
    let b := (sumY - s * sumX) / n
    return { l with line := l.line ++ [s * (n - 1.0) + b], slope := l.slope ++ [s], intercept := l.intercept ++ [b] }

end LinearReg

end

/-! ### Windows of numbers -/

open LeastSquares (mean cov slope intercept residual)

section
variable {xs ys : List ℚ} {x y : Line OrNan} {idx p : Nat} {u v : Nat → ℚ}

/-- Two lines of numbers, on a bar with enough history of both whose window of `x` is not constant. -/
structure Fits (xs ys : List ℚ) (x y : Line OrNan) (idx p : Nat) : Prop where
  dataX : x.data = xs.map .num
  dataY : y.data = ys.map .num
  pos : 0 < p
  history : p ≤ idx + 1
  withinX : idx < xs.length
  withinY : idx < ys.length
  varies : ∃ i < p, ∃ j < p, ago xs idx i ≠ ago xs idx j

theorem readPairs_nums {readX readY : Nat → Option OrNan} (hx : ∀ i < p, readX i = some (.num (u i)))
    (hy : ∀ i < p, readY i = some (.num (v i))) :
    readPairs readX readY p = some ((List.range p).map fun i => (.num (u i), .num (v i))) := by
  refine Access.mapM_eq_some fun i hi => ?_
  have hlt := List.mem_range.1 hi
  rw [hx i hlt, hy i hlt]
  rfl

namespace Fits
variable (h : Fits xs ys x y idx p)
include h

theorem warm : ¬ idx + 1 < p := by
  have hhistory := h.history
  omega

theorem count_ne : (p : ℚ) ≠ 0 := by exact_mod_cast h.pos.ne'

/-- The windows from their oldest bars on. -/
theorem forward : ∀ i < p, x.data[idx + 1 - p + i]? = some (.num (ago xs idx (p - 1 - i))) ∧
    y.data[idx + 1 - p + i]? = some (.num (ago ys idx (p - 1 - i))) := by
  intro i hi
  have hhistory := h.history
  have hx := h.withinX
  have hy := h.withinY
  rw [h.dataX, h.dataY, read_nums (by omega), read_nums (by omega), ago, ago, show idx - (p - 1 - i) = idx + 1 - p + i by omega]
  exact ⟨rfl, rfl⟩

theorem pairsForward : pairsForward y x idx p =
    some ((List.range p).map fun i => (.num (ago xs idx (p - 1 - i)), .num (ago ys idx (p - 1 - i)))) :=
  readPairs_nums (fun i hi => (h.forward i hi).1) fun i hi => (h.forward i hi).2

theorem pairsBack : readPairs (readBack x.data idx) (readBack y.data idx) p =
    some ((List.range p).map fun i => (.num (ago xs idx i), .num (ago ys idx i))) := by
  have hhistory := h.history
  refine readPairs_nums (fun i hi => ?_) fun i hi => ?_
  · rw [h.dataX]
    exact readBack_nums (by omega) h.withinX
  · rw [h.dataY]
    exact readBack_nums (by omega) h.withinY

theorem varies_ne : cov (ago xs idx) (ago xs idx) p ≠ 0 := (LeastSquares.cov_self_pos h.varies).ne'

theorem ols (o : OLS_Slope_InterceptN OrNan) (ho : o.period = p) (hidx : y.idx = idx) :
    o.next y x = some { o with
      line := o.line ++ [.num (slope (ago xs idx) (ago ys idx) p)]
      intercept := o.intercept ++ [.num (LeastSquares.intercept (ago xs idx) (ago ys idx) p)] } := by
  subst ho
  have hvaries := h.varies_ne
  have hcount := h.count_ne
  rw [OLS_Slope_InterceptN.next, hidx, if_neg h.warm, h.pairsBack, Option.bind_eq_bind, Option.bind_some]
  simp only [List.map_map, Function.comp_def, OrNan.reduceSum_range, OrNan.ofCount_eq, OrNan.num_div hcount, OrNan.num_sub,
    OrNan.num_mul, LeastSquares.sum_div, LeastSquares.sum_deviations, OrNan.zero_eq, OrNan.num_beq, hvaries, decide_false, Bool.false_eq_true, if_false,
    OrNan.num_div hvaries]
  rfl

theorem beta : Jkp.beta y x idx p = some (.num (slope (ago xs idx) (ago ys idx) p)) := by
  have hvaries := h.varies_ne
  have hcount := h.count_ne
  rw [Jkp.beta, if_neg h.warm, h.pairsForward, Option.bind_eq_bind, Option.bind_some]
  simp only [List.map_map, Function.comp_def, OrNan.reduceSum_range, OrNan.ofCount_eq, OrNan.num_div hcount, OrNan.num_sub,
    OrNan.num_mul, LeastSquares.sum_div,
    LeastSquares.sum_deviations]
  rw [LeastSquares.cov_reflect, LeastSquares.cov_reflect, OrNan.zero_eq, OrNan.num_beq, if_neg (by simpa using hvaries),
    OrNan.num_div hvaries]
  rfl

theorem alphaOls : Jkp.alphaOls y x idx p = some (.num (LeastSquares.intercept (ago xs idx) (ago ys idx) p)) := by
  have hcount := h.count_ne
  rw [Jkp.alphaOls, if_neg h.warm, h.pairsForward, Option.bind_eq_bind, Option.bind_some, h.beta]
  simp only [List.map_map, Function.comp_def, OrNan.reduceSum_range, OrNan.ofCount_eq, OrNan.num_div hcount,
    LeastSquares.sum_div, LeastSquares.mean_reflect]
  rfl

/-- NaN where all `y` are equal. -/
def squares (xs ys : List ℚ) (idx p : Nat) : OrNan :=
  if cov (ago ys idx) (ago ys idx) p = 0 then .nan
  else .num (1 - residual (ago xs idx) (ago ys idx) p (LeastSquares.intercept (ago xs idx) (ago ys idx) p)
    (slope (ago xs idx) (ago ys idx) p) / cov (ago ys idx) (ago ys idx) p)

theorem rSquared : Jkp.rSquared y x idx p = some (squares xs ys idx p) := by
  have hcount := h.count_ne
  have hys : (List.range p).mapM (fun i => y.data[idx + 1 - p + i]?) =
      some ((List.range p).map fun i => .num (ago ys idx (p - 1 - i))) :=
    Access.mapM_eq_some fun i hi => (h.forward i (List.mem_range.1 hi)).2
  rw [Jkp.rSquared, if_neg h.warm, hys, Option.bind_eq_bind, Option.bind_some, h.beta, h.alphaOls, h.pairsForward]
  simp only [List.map_map, Function.comp_def, OrNan.reduceSum_range, OrNan.ofCount_eq, OrNan.num_div hcount, OrNan.num_sub,
    OrNan.num_mul, LeastSquares.sum_div, LeastSquares.sum_deviations, LeastSquares.sum_residuals, LeastSquares.cov_reflect,
    LeastSquares.residual_reflect, OrNan.isNaN_num, Bool.false_eq_true, if_false, Option.bind_eq_bind, Option.bind_some]
  rw [OrNan.zero_eq, OrNan.num_beq, squares]
  by_cases hflat : cov (ago ys idx) (ago ys idx) p = 0
  · rw [if_pos (by simpa using hflat), if_pos hflat]
    rfl
  · rw [if_neg (by simpa using hflat), if_neg hflat, OrNan.num_div hflat]
    rfl

theorem regCompute : regCompute y x idx p = some ⟨.num (LeastSquares.intercept (ago xs idx) (ago ys idx) p),
    .num (slope (ago xs idx) (ago ys idx) p), squares xs ys idx p⟩ := by
  have hcount := h.count_ne
  have hvaries : (p : ℚ) * cov (ago xs idx) (ago xs idx) p ≠ 0 := mul_ne_zero hcount h.varies_ne
  have hdenom := LeastSquares.cov_raw h.pos (fun i => ago xs idx (p - 1 - i)) fun i => ago xs idx (p - 1 - i)
  have hnum := LeastSquares.cov_raw h.pos (fun i => ago xs idx (p - 1 - i)) fun i => ago ys idx (p - 1 - i)
  have hslope : (p : ℚ) * cov (ago xs idx) (ago ys idx) p / (p * cov (ago xs idx) (ago xs idx) p) = slope (ago xs idx) (ago ys idx) p :=
    mul_div_mul_left _ _ hcount
  have hintercept := LeastSquares.intercept_raw h.pos (fun i => ago xs idx (p - 1 - i)) fun i => ago ys idx (p - 1 - i)
  have hsquares := LeastSquares.squares_raw h.pos fun i => ago ys idx (p - 1 - i)
  rw [LeastSquares.cov_reflect] at hdenom hnum hsquares
  rw [LeastSquares.intercept_reflect, LeastSquares.slope_reflect] at hintercept
  rw [Indicators.regCompute, if_neg h.warm, h.pairsForward]
  simp only [List.map_map, Function.comp_def, OrNan.reduceSum_range, OrNan.ofCount_eq, OrNan.num_div hcount, OrNan.num_sub,
    OrNan.num_mul, Option.bind_eq_bind, Option.bind_some, hdenom, hnum, OrNan.num_div hvaries, hslope, hintercept, hsquares,
    LeastSquares.sum_residuals, LeastSquares.residual_reflect]
  rw [OrNan.zero_eq, OrNan.num_beq, if_neg (by simpa using hvaries), OrNan.num_beq, squares]
  by_cases hflat : cov (ago ys idx) (ago ys idx) p = 0
  · rw [if_pos (by simpa using hflat), if_pos hflat]
    rfl
  · rw [if_neg (by simpa using hflat), if_neg hflat, OrNan.num_div hflat]
    rfl

/-- When `x` counts the bars, the window of `x` is that of the places from its oldest bar on, but for the origin. -/
theorem counted (hcounts : ∀ t < xs.length, xs.getD t 0 = t) :
    cov (fun i => (i : ℚ)) (fun i => (i : ℚ)) p ≠ 0 ∧
      slope (fun i => (i : ℚ)) (fun i => ago ys idx (p - 1 - i)) p = slope (ago xs idx) (ago ys idx) p ∧
      slope (fun i => (i : ℚ)) (fun i => ago ys idx (p - 1 - i)) p * (p - 1) +
        LeastSquares.intercept (fun i => (i : ℚ)) (fun i => ago ys idx (p - 1 - i)) p =
      LeastSquares.intercept (ago xs idx) (ago ys idx) p + slope (ago xs idx) (ago ys idx) p * idx := by
  have hhistory := h.history
  have hwithin := h.withinX
  have hplaces : ∀ i < p, ago xs idx (p - 1 - i) = ((idx + 1 - p : Nat) : ℚ) + i := by
    intro i hi
    rw [ago, hcounts _ (by omega), show idx - (p - 1 - i) = idx + 1 - p + i by omega, Nat.cast_add]
  have hidx : (idx : ℚ) = ((idx + 1 - p : Nat) : ℚ) + (p - 1) := by
    rw [Nat.cast_sub hhistory]
    push_cast
    ring
  have hslope : slope (fun i => (i : ℚ)) (fun i => ago ys idx (p - 1 - i)) p = slope (ago xs idx) (ago ys idx) p := by
    rw [← LeastSquares.slope_reflect (ago xs idx), LeastSquares.slope_congr hplaces, LeastSquares.slope_shift h.pos]
  refine ⟨?_, hslope, ?_⟩
  · obtain ⟨i, hi, j, hj, hij⟩ := h.varies
    have htwo : 1 < p := by
      by_contra hone
      exact hij (by rw [show i = j by omega])
    exact (LeastSquares.cov_self_pos ⟨0, h.pos, 1, htwo, by simp⟩).ne'
  · have hshift := LeastSquares.intercept_shift h.pos ((idx + 1 - p : Nat) : ℚ) (p - 1) (fun i => (i : ℚ)) fun i => ago ys idx (p - 1 - i)
    rw [← LeastSquares.slope_congr hplaces, ← LeastSquares.intercept_congr hplaces, LeastSquares.slope_reflect,
      LeastSquares.intercept_reflect, ← hidx] at hshift
    rw [hshift, add_comm]

theorem linearReg (hcounts : ∀ t < xs.length, xs.getD t 0 = t) (l : LinearReg OrNan) (hl : l.period = p) (hidx : y.idx = idx) :
    ∃ b, l.next y = some { l with
      line := l.line ++ [.num (LeastSquares.intercept (ago xs idx) (ago ys idx) p + slope (ago xs idx) (ago ys idx) p * idx)]
      slope := l.slope ++ [.num (slope (ago xs idx) (ago ys idx) p)]
      intercept := l.intercept ++ [.num b] } := by
  obtain ⟨hvaries, hslope, hfitted⟩ := h.counted hcounts
  have hcount := h.count_ne
  have hwindow : readPairs (fun i => some (Arith.ofCount i)) (fun i => y.data[idx + 1 - p + i]?) p =
      some ((List.range p).map fun i => (.num (i : ℚ), .num (ago ys idx (p - 1 - i)))) :=
    readPairs_nums (fun i _ => congrArg some (OrNan.ofCount_eq i)) fun i hi => (h.forward i hi).2
  have hvaries' : (p : ℚ) * cov (fun i => (i : ℚ)) (fun i => (i : ℚ)) p ≠ 0 := mul_ne_zero hcount hvaries
  have hdenom := LeastSquares.cov_raw h.pos (fun i => (i : ℚ)) fun i => (i : ℚ)
  have hnum := LeastSquares.cov_raw h.pos (fun i => (i : ℚ)) fun i => ago ys idx (p - 1 - i)
  have hintercept := LeastSquares.intercept_raw h.pos (fun i => (i : ℚ)) fun i => ago ys idx (p - 1 - i)
  rw [LeastSquares.sum_squares, LeastSquares.sum_places] at hdenom
  rw [LeastSquares.sum_places] at hnum hintercept
  refine ⟨LeastSquares.intercept (fun i => (i : ℚ)) (fun i => ago ys idx (p - 1 - i)) p, ?_⟩
  rw [← hfitted, ← hslope]
  subst hl hidx
  have htwo : (2 : ℚ) ≠ 0 := by simp
  have hsix : (6 : ℚ) ≠ 0 := by simp
  have hlit : ((1.0 : OrNan) = .num 1) ∧ ((2.0 : OrNan) = .num 2) ∧ ((6.0 : OrNan) = .num 6) := by
    simp only [OrNan.ofScientific_eq]
    norm_num
  rw [LinearReg.next, if_neg h.warm, hwindow, Option.bind_eq_bind, Option.bind_some]
  simp only [List.map_map, Function.comp_def, OrNan.reduceSum_range, OrNan.ofCount_eq, hlit.1, hlit.2.1, hlit.2.2,
    OrNan.num_div htwo, OrNan.num_div hsix, OrNan.num_sub, OrNan.num_mul, hdenom, hnum]
  have hs : (if (OrNan.num (l.period * cov (fun i => (i : ℚ)) (fun i => (i : ℚ)) l.period) == 0) = true then 0 else
      OrNan.num (l.period * cov (fun i => (i : ℚ)) (fun i => ago ys y.idx (l.period - 1 - i)) l.period) /
        .num (l.period * cov (fun i => (i : ℚ)) (fun i => (i : ℚ)) l.period)) =
      .num (slope (fun i => (i : ℚ)) (fun i => ago ys y.idx (l.period - 1 - i)) l.period) := by
    rw [OrNan.zero_eq, OrNan.num_beq, if_neg (by simpa using hvaries'), OrNan.num_div hvaries', mul_div_mul_left _ _ hcount]
    rfl
  simp only [hs, OrNan.num_mul, OrNan.num_sub, OrNan.num_div hcount, OrNan.num_add, hintercept]
  rfl

end Fits

/-- All of them on a bar. `ago` counts the bars of the window back from it. -/
theorem regressions_agree (h : Fits xs ys x y idx p) :
    ∃ a b r, regCompute y x idx p = some ⟨.num a, .num b, r⟩ ∧ Jkp.beta y x idx p = some (.num b) ∧
      Jkp.alphaOls y x idx p = some (.num a) ∧ Jkp.rSquared y x idx p = some r ∧ (∀ q, r = .num q → 0 ≤ q ∧ q ≤ 1) ∧
      (∀ a' b', residual (ago xs idx) (ago ys idx) p a b ≤ residual (ago xs idx) (ago ys idx) p a' b') ∧
      (y.idx = idx → ∀ o : OLS_Slope_InterceptN OrNan, o.period = p →
        o.next y x = some { o with line := o.line ++ [.num b], intercept := o.intercept ++ [.num a] }) ∧
      ((∀ t < xs.length, xs.getD t 0 = t) → y.idx = idx → ∀ l : LinearReg OrNan, l.period = p →
        ∃ c, l.next y = some { l with
          line := l.line ++ [.num (a + b * idx)], slope := l.slope ++ [.num b], intercept := l.intercept ++ [.num c] }) := by
  refine ⟨_, _, _, h.regCompute, h.beta, h.alphaOls, h.rSquared, fun q hq => ?_,
    fun a' b' => LeastSquares.residual_le h.varies_ne h.pos a' b', fun hidx o ho => h.ols o ho hidx,
    fun hcounts hidx l hl => h.linearReg hcounts l hl hidx⟩
  unfold Fits.squares at hq
  split_ifs at hq with hflat
  obtain rfl := OrNan.num_injective hq
  exact LeastSquares.explained h.varies_ne h.pos hflat

theorem regressions_agree_two :
    ∃ a b r, regCompute { data := [5, 7].map OrNan.num, idx := 1 } { data := [0, 1].map OrNan.num, idx := 1 } 1 2 =
      some ⟨.num a, .num b, r⟩ ∧ ∀ q, r = .num q → 0 ≤ q ∧ q ≤ 1 := by
  have hfits : Fits [0, 1] [5, 7] { data := [0, 1].map OrNan.num, idx := 1 } { data := [5, 7].map OrNan.num, idx := 1 } 1 2 :=
    ⟨rfl, rfl, by simp, by simp, by simp, by simp, 0, by simp, 1, by simp, by simp [ago]⟩
  obtain ⟨a, b, r, hreg, -, -, -, hr, -⟩ := regressions_agree hfits
  exact ⟨a, b, r, hreg, hr⟩

end

end Indicators
end StratForge
