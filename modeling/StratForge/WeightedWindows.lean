import Mathlib.Data.Nat.Fib.Basic
import StratForge.Composites
import StratForge.Kernels
import StratForge.LookBack

/-!
# Weighted windows (`indicators/sma.hpp`, `average.hpp`, `wma.hpp`, `weightedaverage.hpp`, `trima.hpp`, `fwma.hpp`, `pwma.hpp`,
`swma.hpp`, `hma.hpp`, `decay_linear` of `alpha101_ops.hpp`)

Every class reads its window in its own order and weighs it in its own way. In exact arithmetic each is a kernel
(`lineOf_since`), over a source of numbers as over another average that is still warming up, so which averages are the
same, or one after the other, is a matter of polynomials.
-/

namespace StratForge
namespace Indicators
open Floating (nan isNaN)
open Access (readBack)

section
variable {α : Type} [Arith α] [Floating α]

/-- The arithmetic mean, from the oldest value on. -/
structure Average (α : Type) where
  period : Nat
  line : List α := []

namespace Average

def init (period : Nat) : Average α := { period := if period = 0 then 1 else period }

def next (source : Line α) (a : Average α) : Option (Average α) :=
  if source.idx + 1 < a.period then some { a with line := a.line ++ [nan] }
  else do
    let values ← (List.range a.period).mapM fun i => source.data[source.idx + 1 - a.period + i]?
    return { a with line := a.line ++ [Simd.reduceSum values / Arith.ofCount a.period] }

end Average

/-- What `FWMA`, `PWMA`, `SWMA` and `TRIMA` share: weights for the window from its oldest value on, and their sum. -/
structure WeightedWindow (α : Type) where
  period : Nat
  weights : List α
  weightSum : α
  line : List α := []

namespace WeightedWindow

def ofWeights (weights : List α) : WeightedWindow α :=
  { period := weights.length, weights, weightSum := Simd.reduceSum weights }

def next (source : Line α) (w : WeightedWindow α) : Option (WeightedWindow α) :=
  if source.idx + 1 < w.period then some { w with line := w.line ++ [nan] }
  else do
    let start := source.idx + 1 - w.period
    let terms ← (List.range w.period).mapM fun i => do return (← source.data[start + i]?) * (← w.weights[i]?)
    return { w with line := w.line ++ [Simd.reduceSum terms / w.weightSum] }

end WeightedWindow

def fibWeights (period : Nat) : List α :=
  (List.range period).foldl (fun weights i =>
    weights ++ [if i < 2 then 1 else valueAt weights (i - 1) + valueAt weights (i - 2)]) []

def FWMA.init (period : Nat) : WeightedWindow α := .ofWeights (fibWeights (if period = 0 then 1 else period))

/-- Each weight from the one before. -/
def pascalWeights (period : Nat) : List α :=
  let n := period - 1
  (List.range period).foldl (fun weights k =>
    weights ++ [if k = 0 then 1 else valueAt weights (k - 1) * Arith.ofCount (n - k + 1) / Arith.ofCount k]) []

def PWMA.init (period : Nat) : WeightedWindow α := .ofWeights (pascalWeights (if period = 0 then 1 else period))

def symmetricWeights (period : Nat) : List α :=
  let mid := Arith.ofCount (period - 1) / 2.0
  (List.range period).map fun i => mid - Arith.abs (Arith.ofCount i - mid) + 1

def SWMA.init (period : Nat) : WeightedWindow α := .ofWeights (symmetricWeights (if period = 0 then 1 else period))

/-- `TRIMA` computes them again on every bar. -/
def triangularWeights (period : Nat) : List α := (List.range period).map fun i => Arith.ofCount (min (i + 1) (period - i))

def TRIMA.init (period : Nat) : WeightedWindow α := .ofWeights (triangularWeights (if period = 0 then 1 else period))

/-- `decay_linear`, and `wma` of `alpha191_ops.hpp`. -/
def decayLinear (x : Line α) (idx period : Nat) : Option α :=
  if idx + 1 < period then some nan
  else do
    let terms ← (List.range period).mapM fun i => do
      return (← x.data[idx + 1 - period + i]?) * Arith.ofCount (i + 1)
    let den := Simd.reduceSum ((List.range period).map fun i => (Arith.ofCount (i + 1) : α))
    return Simd.reduceSum terms / den

/-! ### All of them -/

inductive MovingAverage
  | SMA | Average | WMA | TRIMA | FWMA | PWMA | SWMA | HMA
deriving DecidableEq, Repr

/-- The output line of an average over these values, from bar 0 on. -/
def MovingAverage.lineOf : MovingAverage → Nat → List α → Option (List α)
  | .SMA, period, values => (overSource (fun source s => some (s.next source.data source.idx)) (smaOf period) values).map (·.2.line)
  | .Average, period, values => (overSource Average.next (.init period) values).map (·.2.line)
  | .WMA, period, values => (overSource WMA.next { period } values).map (·.2.line)
  | .TRIMA, period, values => (overSource WeightedWindow.next (TRIMA.init period) values).map (·.2.line)
  | .FWMA, period, values => (overSource WeightedWindow.next (FWMA.init period) values).map (·.2.line)
  | .PWMA, period, values => (overSource WeightedWindow.next (PWMA.init period) values).map (·.2.line)
  | .SWMA, period, values => (overSource WeightedWindow.next (SWMA.init period) values).map (·.2.line)
  | .HMA, period, values => (overSource HMA.next (.init period) values).map (·.2.line)

end

/-! ### A line that warms up -/

namespace Windows

section
variable {r p q n t : Nat} {f g : ℤ → ℚ} {source : Line OrNan}

/-- A number from the `r`-th bar on. -/
def since (r : Nat) (f : ℤ → ℚ) (t : Nat) : OrNan := if t + 1 < r then nan else .num (f t)

def sinceLine (r : Nat) (f : ℤ → ℚ) (n : Nat) : List OrNan := (List.range n).map (since r f)

@[simp] theorem length_sinceLine (r : Nat) (f : ℤ → ℚ) (n : Nat) : (sinceLine r f n).length = n := by simp [sinceLine]

theorem sinceLine_succ (r : Nat) (f : ℤ → ℚ) (n : Nat) : sinceLine r f (n + 1) = sinceLine r f n ++ [since r f n] := by
  simp [sinceLine, List.range_succ]

theorem since_nan (h : t + 1 < r) : since r f t = .nan := if_pos h

theorem since_num (h : r ≤ t + 1) : since r f t = .num (f t) := if_neg (Nat.not_lt.2 h)

theorem idx_since (hs : Sourced (sinceLine r f (t + 1)) source) : source.idx = t := by simp [hs.cursor]

theorem read_since (hs : Sourced (sinceLine r f (t + 1)) source) {k : Nat} (hk : k ≤ t) : source.data[k]? = some (since r f k) := by
  simp [hs.data, sinceLine, Nat.lt_succ_of_le hk]

/-- A sum over the window is a number when its oldest value is one. -/
theorem reduceSum_since (hr : 0 < r) {place : Nat → Nat} (v : Nat → ℚ)
    (hplace : ∀ i < p, t + 1 - p ≤ place i ∧ place i ≤ t) (holdest : ∃ i < p, place i = t + 1 - p) (hp : p ≤ t + 1) :
    Simd.reduceSum ((List.range p).map fun i => since r f (place i) * .num (v i)) =
      if t + 1 < r + p - 1 then .nan else .num (∑ i ∈ Finset.range p, v i * f (place i)) := by
  split_ifs with hlate
  · have hnan : ¬ OrNan.IsNum (Simd.reduceSum ((List.range p).map fun i => since r f (place i) * .num (v i))) := by
      obtain ⟨i, hi, hfirst⟩ := holdest
      rw [OrNan.isNum_reduceSum, List.forall_mem_map]
      intro hall
      have hnum := hall i (List.mem_range.2 hi)
      rw [hfirst, since_nan (by omega), OrNan.isNum_mul] at hnum
      exact hnum.1 rfl
    exact not_not.1 hnan
  · rw [← OrNan.reduceSum_range]
    congr 1
    refine List.map_congr_left fun i hi => ?_
    have := hplace i (List.mem_range.1 hi)
    rw [since_num (by omega), OrNan.num_mul, mul_comm]

theorem since_average {w : Nat → ℚ} (hmass : ∑ i ∈ Finset.range p, w i ≠ 0) :
    (if t + 1 < r + p - 1 then OrNan.nan else .num (∑ i ∈ Finset.range p, w i * f (t - i))) /
        .num (∑ i ∈ Finset.range p, w i) = since (r + p - 1) (Kernel.apply (Kernel.average p w) f) t := by
  unfold since
  split_ifs
  · rfl
  · rw [OrNan.num_div hmass, Kernel.apply_average]

/-- The window from its oldest value on. -/
theorem sum_forward (hr : 0 < r) (hp : 0 < p) (hlong : p ≤ t + 1) (v : Nat → ℚ) :
    Simd.reduceSum ((List.range p).map fun i => since r f (t + 1 - p + i) * .num (v i)) =
      if t + 1 < r + p - 1 then .nan else .num (∑ i ∈ Finset.range p, v (p - 1 - i) * f (t - i)) := by
  rw [reduceSum_since hr v (fun i hi => ⟨by omega, by omega⟩) ⟨0, hp, by omega⟩ hlong,
    ← Finset.sum_range_reflect (fun i => v (p - 1 - i) * f (t - i))]
  congr 2
  refine Finset.sum_congr rfl fun i hi => ?_
  rw [Finset.mem_range] at hi
  congr 2
  · omega
  · omega

/-- The window from its newest value on. -/
theorem sum_back (hr : 0 < r) (hp : 0 < p) (hlong : p ≤ t + 1) (v : Nat → ℚ) :
    Simd.reduceSum ((List.range p).map fun i => since r f (t - i) * .num (v i)) =
      if t + 1 < r + p - 1 then .nan else .num (∑ i ∈ Finset.range p, v i * f (t - i)) := by
  rw [reduceSum_since hr v (fun i hi => ⟨by omega, by omega⟩) ⟨p - 1, by omega, by omega⟩ hlong]
  congr 2
  refine Finset.sum_congr rfl fun i hi => ?_
  rw [Finset.mem_range] at hi
  congr 2
  omega

theorem reads_forward (hs : Sourced (sinceLine r f (t + 1)) source) (hlong : p ≤ t + 1) :
    ((List.range p).mapM fun i => source.data[source.idx + 1 - p + i]?) = some ((List.range p).map fun i => since r f (t + 1 - p + i)) := by
  refine Access.mapM_eq_some fun i hi => ?_
  rw [List.mem_range] at hi
  rw [idx_since hs, read_since hs (by omega)]

theorem reads_weighted (hs : Sourced (sinceLine r f (t + 1)) source) (hlong : p ≤ t + 1) {weights : List OrNan} {v : Nat → ℚ}
    (hweights : weights = (List.range p).map fun i => .num (v i)) :
    ((List.range p).mapM fun i => do return (← source.data[t + 1 - p + i]?) * (← weights[i]?)) =
      some ((List.range p).map fun i => since r f (t + 1 - p + i) * .num (v i)) := by
  refine Access.mapM_eq_some fun i hi => ?_
  rw [List.mem_range] at hi
  rw [read_since hs (by omega), hweights, List.getElem?_map, List.getElem?_range hi]
  rfl

theorem sum_ones (hp : 0 < p) : ∑ _i ∈ Finset.range p, (1 : ℚ) ≠ 0 := by
  simp
  omega

/-! ### One step -/

theorem mean_since (hr : 0 < r) (hp : 0 < p) (hlong : p ≤ t + 1) :
    Simd.reduceSum ((List.range p).map fun i => since r f (t + 1 - p + i)) / Arith.ofCount p =
      since (r + p - 1) (Kernel.apply (Kernel.average p fun _ => 1) f) t := by
  have hone : ((List.range p).map fun i => since r f (t + 1 - p + i)) =
      (List.range p).map fun i => since r f (t + 1 - p + i) * .num 1 := by
    refine List.map_congr_left fun i _ => ?_
    cases since r f (t + 1 - p + i) with
    | nan => rfl
    | num x => rw [OrNan.num_mul, mul_one]
  rw [hone, sum_forward hr hp hlong fun _ => 1, ← since_average (sum_ones hp)]
  simp

theorem Average.next_since {a : Average OrNan} (hs : Sourced (sinceLine r f (t + 1)) source) (hr : 0 < r) (hp : 0 < a.period) :
    a.next source = some { a with line := a.line ++
      [since (r + a.period - 1) (Kernel.apply (Kernel.average a.period fun _ => 1) f) t] } := by
  unfold Average.next
  rw [idx_since hs]
  split_ifs with hshort
  · rw [since_nan (by omega), OrNan.nan_eq]
  · have hreads := reads_forward hs (Nat.not_lt.1 hshort)
    rw [idx_since hs] at hreads
    rw [hreads, ← mean_since hr hp (Nat.not_lt.1 hshort)]
    rfl

theorem SMA.next_since {s : StratForge.SMA OrNan} (hs : Sourced (sinceLine r f (t + 1)) source) (hr : 0 < r) (hp : 0 < s.period) :
    s.next source.data source.idx = { s with line := s.line ++
      [since (r + s.period - 1) (Kernel.apply (Kernel.average s.period fun _ => 1) f) t] } := by
  unfold StratForge.SMA.next
  rw [idx_since hs]
  split_ifs with hshort
  · rw [since_nan (by omega), OrNan.nan_eq]
  · have hwindow : window source.data t s.period = (List.range s.period).map fun i => since r f (t + 1 - s.period + i) := by
      refine List.ext_getElem? fun i => ?_
      by_cases hi : i < s.period
      · rw [window, List.getElem?_take_of_lt hi, List.getElem?_drop, read_since hs (by omega), List.getElem?_map,
          List.getElem?_range hi]
        rfl
      · rw [List.getElem?_eq_none (by simp [window]; omega), List.getElem?_eq_none (by simp; omega)]
    rw [hwindow, mean_since hr hp (Nat.not_lt.1 hshort)]

theorem weightedSum_eq (g : Nat → OrNan) (p : Nat) : WMA.weightedSum ((List.range p).map g) p =
    Simd.reduceSum ((List.range p).map fun i => g i * .num (p - i : Nat)) := by
  have hzip : ((List.range p).map g).zipIdx = (List.range p).map fun i => (g i, i) := by
    refine List.ext_getElem (by simp) fun i hi hi' => ?_
    simp
  rw [WMA.weightedSum, hzip, List.foldl_map, Simd.reduceSum, List.foldl_map]
  simp only [OrNan.ofCount_eq]

/-- The weights of `WMA`, the newest value first. -/
def linear (p i : Nat) : ℚ := (p - i : Nat)

theorem sum_linear (p : Nat) : ∑ i ∈ Finset.range p, linear p i = p * (p + 1) / 2 := by
  have hflip : ∑ i ∈ Finset.range p, linear p i = ∑ i ∈ Finset.range p, ((i + 1 : Nat) : ℚ) := by
    rw [← Finset.sum_range_reflect]
    refine Finset.sum_congr rfl fun i hi => ?_
    rw [Finset.mem_range] at hi
    rw [linear, show p - (p - 1 - i) = i + 1 by omega]
  rw [hflip]
  clear hflip
  induction p with
  | zero => simp
  | succ p ih =>
    rw [Finset.sum_range_succ, ih]
    push_cast
    ring

theorem sum_linear_ne (hp : 0 < p) : ∑ i ∈ Finset.range p, linear p i ≠ 0 := by
  have hpos : (0 : ℚ) < p := by exact_mod_cast hp
  rw [sum_linear]
  positivity

theorem denominator_eq (p : Nat) : (WMA.denominator p : OrNan) = .num (∑ i ∈ Finset.range p, linear p i) := by
  rw [WMA.denominator, OrNan.ofCount_eq, OrNan.ofScientific_eq, OrNan.num_div (by norm_num), sum_linear]
  push_cast
  norm_num

theorem WMA.next_since {w : WMA OrNan} (hs : Sourced (sinceLine r f (t + 1)) source) (hr : 0 < r) (hp : 0 < w.period) :
    w.next source = some { w with line := w.line ++
      [since (r + w.period - 1) (Kernel.apply (Kernel.average w.period (linear w.period)) f) t] } := by
  unfold Indicators.WMA.next
  rw [idx_since hs]
  split_ifs with hshort
  · rw [since_nan (by omega), OrNan.nan_eq]
  · have hreads : (List.range w.period).mapM (readBack source.data t) = some ((List.range w.period).map fun i => since r f (t - i)) := by
      refine Access.mapM_eq_some fun i hi => ?_
      rw [List.mem_range] at hi
      rw [readBack, if_pos (by omega), read_since hs (by omega)]
    rw [hreads, Option.bind_eq_bind, Option.bind_some, weightedSum_eq, denominator_eq,
      sum_back hr hp (Nat.not_lt.1 hshort) fun i => ((w.period - i : Nat) : ℚ)]
    rw [show (∑ i ∈ Finset.range w.period, ((w.period - i : Nat) : ℚ) * f (t - i)) =
      ∑ i ∈ Finset.range w.period, linear w.period i * f (t - i) from rfl, since_average (sum_linear_ne hp)]
    rfl

/-- The weights are numbers, the oldest value's first, with their sum. -/
structure Weighs (v : Nat → ℚ) (w : WeightedWindow OrNan) : Prop where
  weights : w.weights = (List.range w.period).map fun i => .num (v i)
  weightSum : w.weightSum = .num (∑ i ∈ Finset.range w.period, v (w.period - 1 - i))

theorem weighs_ofWeights (v : Nat → ℚ) (p : Nat) : Weighs v (.ofWeights ((List.range p).map fun i => .num (v i))) := by
  refine ⟨by simp [WeightedWindow.ofWeights], ?_⟩
  rw [WeightedWindow.ofWeights, List.length_map, List.length_range, OrNan.reduceSum_range, Finset.sum_range_reflect]

theorem WeightedWindow.next_since {v : Nat → ℚ} {w : WeightedWindow OrNan} (hw : Weighs v w)
    (hs : Sourced (sinceLine r f (t + 1)) source) (hr : 0 < r) (hp : 0 < w.period)
    (hmass : ∑ i ∈ Finset.range w.period, v (w.period - 1 - i) ≠ 0) :
    w.next source = some { w with line := w.line ++
      [since (r + w.period - 1) (Kernel.apply (Kernel.average w.period fun i => v (w.period - 1 - i)) f) t] } := by
  unfold Indicators.WeightedWindow.next
  rw [idx_since hs]
  split_ifs with hshort
  · rw [since_nan (by omega), OrNan.nan_eq]
  · dsimp only
    rw [reads_weighted hs (Nat.not_lt.1 hshort) hw.weights, Option.bind_eq_bind, Option.bind_some, sum_forward hr hp (Nat.not_lt.1 hshort), hw.weightSum, since_average hmass]
    rfl

theorem linear_reflect {i : Nat} (hi : i < p) : ((p - 1 - i + 1 : Nat) : ℚ) = linear p i := by
  rw [linear, show p - 1 - i + 1 = p - i by omega]

theorem sum_counts (p : Nat) : ∑ i ∈ Finset.range p, ((i + 1 : Nat) : ℚ) = ∑ i ∈ Finset.range p, linear p i := by
  rw [← Finset.sum_range_reflect]
  exact Finset.sum_congr rfl fun i hi => linear_reflect (Finset.mem_range.1 hi)

/-- The window with the weights 1, 2 and so on from its oldest value on. -/
theorem sum_counting (hr : 0 < r) (hp : 0 < p) (hlong : p ≤ t + 1) :
    Simd.reduceSum ((List.range p).map fun i => since r f (t + 1 - p + i) * .num ((i + 1 : Nat) : ℚ)) =
      if t + 1 < r + p - 1 then .nan else .num (∑ i ∈ Finset.range p, linear p i * f (t - i)) := by
  rw [sum_forward hr hp hlong fun i => ((i + 1 : Nat) : ℚ)]
  congr 2
  refine Finset.sum_congr rfl fun i hi => ?_
  rw [linear_reflect (Finset.mem_range.1 hi)]

theorem decayLinear_since (hs : Sourced (sinceLine r f (t + 1)) source) (hr : 0 < r) (hp : 0 < p) :
    decayLinear source t p = some (since (r + p - 1) (Kernel.apply (Kernel.average p (linear p)) f) t) := by
  unfold decayLinear
  split_ifs with hshort
  · rw [since_nan (by omega), OrNan.nan_eq]
  · have hreads : ((List.range p).mapM fun i => do
        return (← source.data[t + 1 - p + i]?) * Arith.ofCount (i + 1)) =
        some ((List.range p).map fun i => since r f (t + 1 - p + i) * .num ((i + 1 : Nat) : ℚ)) := by
      refine Access.mapM_eq_some fun i hi => ?_
      rw [List.mem_range] at hi
      rw [read_since hs (by omega), OrNan.ofCount_eq]
      rfl
    rw [hreads, Option.bind_eq_bind, Option.bind_some, sum_counting hr hp (Nat.not_lt.1 hshort)]
    simp only [OrNan.ofCount_eq]
    rw [OrNan.reduceSum_range, sum_counts, since_average (sum_linear_ne hp)]
    rfl

/-- The average whose weights are the default ones, with the coefficient that makes them sum to 1. -/
theorem WeightedAverage.next_since {w : WeightedAverage OrNan} (hweights : w.weights = (List.range w.period).map fun i => .num ((i + 1 : Nat) : ℚ))
    (hcoef : w.coef = 1 / WMA.denominator w.period) (hs : Sourced (sinceLine r f (t + 1)) source) (hr : 0 < r) (hp : 0 < w.period) :
    w.next source = some { w with line := w.line ++
      [since (r + w.period - 1) (Kernel.apply (Kernel.average w.period (linear w.period)) f) t] } := by
  have hmass := sum_linear_ne hp
  unfold Indicators.WeightedAverage.next
  rw [idx_since hs]
  split_ifs with hshort
  · rw [since_nan (by omega), OrNan.nan_eq]
  · rw [reads_weighted hs (Nat.not_lt.1 hshort) hweights, Option.bind_eq_bind, Option.bind_some, sum_counting hr hp (Nat.not_lt.1 hshort), hcoef, denominator_eq,
      OrNan.one_eq, OrNan.num_div hmass, ← since_average hmass]
    split_ifs
    · rfl
    · rw [OrNan.num_mul, OrNan.num_div hmass, one_div, inv_mul_eq_div]
      rfl

/-! ### Over a line -/

/-- What is kept of every bar of such a line holds after all of them. -/
theorem over_since {S : Type} {next : Line OrNan → S → Option S} {s : S} (Inv : Nat → S → Prop) (h0 : Inv 0 s)
    (hstep : ∀ t source s, Sourced (sinceLine r f (t + 1)) source → Inv t s → ∃ s', next source s = some s' ∧ Inv (t + 1) s')
    (n : Nat) : ∃ l s', overSource next s (sinceLine r f n) = some (l, s') ∧ Inv n s' := by
  induction n with
  | zero => exact ⟨{}, s, rfl, h0⟩
  | succ n ih =>
    obtain ⟨l, s', hover, hinv⟩ := ih
    have hsource := (overSource_sourced hover).forward (since r f n)
    rw [← sinceLine_succ] at hsource
    obtain ⟨s'', hnext, hinv'⟩ := hstep n _ s' hsource hinv
    exact ⟨_, s'', by rw [sinceLine_succ]; exact overSource_concat hover hnext, hinv'⟩

/-- A class that puts out one value a bar, whatever its line holds already. -/
theorem line_since {S : Type} {next : Line OrNan → S → Option S} {line : S → List OrNan} {s : S} (Inv : S → Prop) (h0 : Inv s)
    (hline : line s = []) (hstep : ∀ t source s, Sourced (sinceLine r f (t + 1)) source → Inv s →
      ∃ s', next source s = some s' ∧ Inv s' ∧ line s' = line s ++ [since q g t]) (n : Nat) :
    (overSource next s (sinceLine r f n)).map (fun x => line x.2) = some (sinceLine q g n) := by
  obtain ⟨l, s', hover, -, hlines⟩ := over_since (fun t s => Inv s ∧ line s = sinceLine q g t) ⟨h0, hline⟩
    (fun t source s hs hinv => by
      obtain ⟨s', hnext, hinv', hadds⟩ := hstep t source s hs hinv.1
      exact ⟨s', hnext, hinv', by rw [hadds, hinv.2, sinceLine_succ]⟩) n
  rw [hover, Option.map_some, hlines]

theorem line_average (hr : 0 < r) (hp : 0 < p) (n : Nat) : MovingAverage.lineOf .Average p (sinceLine r f n) =
    some (sinceLine (r + p - 1) (Kernel.apply (Kernel.average p fun _ => 1) f) n) := by
  refine line_since (fun a : Average OrNan => a.period = p) (if_neg hp.ne') rfl (fun t source a hs ha => ?_) n
  subst ha
  exact ⟨_, Average.next_since hs hr hp, rfl, rfl⟩

theorem line_sma (hr : 0 < r) (hp : 0 < p) (n : Nat) : MovingAverage.lineOf .SMA p (sinceLine r f n) =
    some (sinceLine (r + p - 1) (Kernel.apply (Kernel.average p fun _ => 1) f) n) := by
  refine line_since (fun s : StratForge.SMA OrNan => s.period = p) (if_neg hp.ne') rfl (fun t source s hs ha => ?_) n
  subst ha
  exact ⟨_, congrArg some (SMA.next_since hs hr hp), rfl, rfl⟩

theorem line_wma (hr : 0 < r) (hp : 0 < p) (n : Nat) : MovingAverage.lineOf .WMA p (sinceLine r f n) =
    some (sinceLine (r + p - 1) (Kernel.apply (Kernel.average p (linear p)) f) n) := by
  refine line_since (fun w : WMA OrNan => w.period = p) rfl rfl (fun t source w hs hw => ?_) n
  subst hw
  exact ⟨_, WMA.next_since hs hr hp, rfl, rfl⟩

theorem line_weights (hr : 0 < r) (hp : 0 < p) {v w : Nat → ℚ} {weights : List OrNan}
    (hweights : weights = (List.range p).map fun i => .num (v i)) (hw : ∀ i < p, v (p - 1 - i) = w i)
    (hmass : ∑ i ∈ Finset.range p, w i ≠ 0) (n : Nat) :
    (overSource WeightedWindow.next (.ofWeights weights) (sinceLine r f n)).map (fun x => x.2.line) =
      some (sinceLine (r + p - 1) (Kernel.apply (Kernel.average p w) f) n) := by
  have hsame : ∑ i ∈ Finset.range p, v (p - 1 - i) = ∑ i ∈ Finset.range p, w i :=
    Finset.sum_congr rfl fun i hi => hw i (Finset.mem_range.1 hi)
  have hperiod : (WeightedWindow.ofWeights weights).period = p := by simp [WeightedWindow.ofWeights, hweights]
  refine line_since (fun x : WeightedWindow OrNan => x.period = p ∧ Weighs v x) ⟨hperiod, hweights ▸ weighs_ofWeights v p⟩ rfl
    (fun t source x hs hx => ?_) n
  obtain ⟨rfl, hx⟩ := hx
  rw [← Kernel.average_congr hw]
  exact ⟨_, WeightedWindow.next_since hx hs hr hp (hsame ▸ hmass), ⟨rfl, hx.weights, hx.weightSum⟩, rfl⟩

/-! ### The weights -/

/-- The weights of `TRIMA` and `SWMA`. -/
def triangle (p i : Nat) : ℚ := (min (i + 1) (p - i) : Nat)

theorem triangularWeights_eq (p : Nat) : (triangularWeights p : List OrNan) = (List.range p).map fun i => .num (triangle p i) := by
  unfold triangularWeights
  simp only [OrNan.ofCount_eq]
  rfl

theorem triangle_reflect {i : Nat} (hi : i < p) : triangle p (p - 1 - i) = triangle p i := by
  unfold triangle
  congr 1
  omega

theorem triangle_nonneg (p i : Nat) : 0 ≤ triangle p i := Nat.cast_nonneg _

theorem sum_triangle_ne (hp : 0 < p) : ∑ i ∈ Finset.range p, triangle p i ≠ 0 := by
  have hfirst : triangle p 0 = 1 := by
    unfold triangle
    rw [show min (0 + 1) (p - 0) = 1 by omega, Nat.cast_one]
  refine (Finset.sum_pos' (fun i _ => triangle_nonneg p i) ⟨0, Finset.mem_range.2 hp, ?_⟩).ne'
  rw [hfirst]
  exact one_pos

/-- Half up and half down again, with the middle as a fraction. -/
theorem symmetricWeights_eq (p : Nat) : (symmetricWeights p : List OrNan) = (List.range p).map fun i => .num (triangle p i) := by
  unfold symmetricWeights
  refine List.map_congr_left fun i hi => ?_
  rw [List.mem_range] at hi
  have hcast : ((p - 1 : Nat) : ℚ) = p - 1 := by
    rw [Nat.cast_sub (by omega), Nat.cast_one]
  have hmid : (Arith.ofCount (p - 1) / 2.0 : OrNan) = .num ((p - 1) / 2) := by
    rw [OrNan.ofCount_eq, OrNan.ofScientific_eq, OrNan.num_div (by norm_num), hcast]
    norm_num
  rw [hmid, OrNan.ofCount_eq, OrNan.num_sub, OrNan.abs_num, OrNan.num_sub, OrNan.one_eq, OrNan.num_add, triangle]
  congr 1
  rcases Nat.le_total (i + 1) (p - i) with hle | hle
  · have hhalf : (i : ℚ) + 1 ≤ p - i := by
      rw [← Nat.cast_sub hi.le]
      exact_mod_cast hle
    rw [min_eq_left hle, abs_of_nonpos (by linarith)]
    push_cast
    ring
  · have hhalf : (p : ℚ) - i ≤ i + 1 := by
      rw [← Nat.cast_sub hi.le]
      exact_mod_cast hle
    rw [min_eq_right hle, abs_of_nonneg (by linarith), Nat.cast_sub hi.le]
    ring

theorem foldl_weights {step : List OrNan → Nat → OrNan} {v : Nat → ℚ} {p : Nat}
    (hstep : ∀ k < p, step ((List.range k).map fun i => .num (v i)) k = .num (v k)) :
    (List.range p).foldl (fun weights k => weights ++ [step weights k]) [] = (List.range p).map fun i => .num (v i) := by
  induction p with
  | zero => rfl
  | succ p ih =>
    rw [List.range_succ, List.foldl_append, ih fun k hk => hstep k (by omega), List.foldl_cons, List.foldl_nil,
      hstep p (by omega), List.map_append, List.map_singleton]

theorem valueAt_weights (v : Nat → ℚ) {i k : Nat} (hi : i < k) :
    valueAt ((List.range k).map fun i => OrNan.num (v i)) i = .num (v i) := by
  rw [valueAt, List.getElem?_map, List.getElem?_range hi]
  rfl

theorem fibWeights_eq (p : Nat) : (fibWeights p : List OrNan) = (List.range p).map fun i => .num (Nat.fib (i + 1) : ℚ) := by
  refine foldl_weights fun k _ => ?_
  split_ifs with hk
  · obtain rfl | rfl : k = 0 ∨ k = 1 := by omega
    · simp [OrNan.one_eq]
    · simp [OrNan.one_eq]
  · obtain ⟨j, rfl⟩ : ∃ j, k = j + 2 := ⟨k - 2, by omega⟩
    rw [valueAt_weights (fun i => (Nat.fib (i + 1) : ℚ)) (by omega), valueAt_weights (fun i => (Nat.fib (i + 1) : ℚ)) (by omega),
      OrNan.num_add, Nat.fib_add_two (n := j + 1)]
    push_cast
    rw [add_comm]

theorem pascalWeights_eq (p : Nat) :
    (pascalWeights p : List OrNan) = (List.range p).map fun i => .num ((p - 1).choose i : ℚ) := by
  refine foldl_weights fun k hk => ?_
  split_ifs with hzero
  · rw [hzero, Nat.choose_zero_right]
    rfl
  · obtain ⟨j, rfl⟩ : ∃ j, k = j + 1 := ⟨k - 1, by omega⟩
    have hne : ((j + 1 : Nat) : ℚ) ≠ 0 := by positivity
    rw [valueAt_weights (fun i => ((p - 1).choose i : ℚ)) (by omega), OrNan.ofCount_eq, OrNan.ofCount_eq, OrNan.num_mul,
      OrNan.num_div hne]
    congr 1
    rw [div_eq_iff hne, show p - 1 - (j + 1) + 1 = p - 1 - j by omega]
    exact_mod_cast (Nat.choose_succ_right_eq (p - 1) j).symm

/-! ### HMA -/

/-- The half period, and the length of the last average. -/
def half (p : Nat) : Nat := if p / 2 = 0 then 1 else p / 2

theorem half_pos (p : Nat) : 0 < half p := by
  unfold half
  split_ifs <;> omega

theorem half_le (hp : 0 < p) : half p ≤ p := by
  unfold half
  split_ifs <;> omega

theorem sqrt_pos (hp : 0 < p) : 0 < Nat.sqrt p := Nat.sqrt_pos.2 hp

/-- Twice the average of the half window less that of the whole one. -/
noncomputable def hullDiff (p : Nat) (f : ℤ → ℚ) (t : ℤ) : ℚ :=
  2 * Kernel.apply (Kernel.average (half p) (linear (half p))) f t - Kernel.apply (Kernel.average p (linear p)) f t

structure HullAfter (r p : Nat) (f : ℤ → ℚ) (t : Nat) (h : HMA OrNan) : Prop where
  full : h.wmaFull.period = p
  halved : h.wmaHalf.period = half p
  final : h.wmaFinal.period = Nat.sqrt p
  diff : Sourced (sinceLine (r + p - 1) (hullDiff p f) t) h.diff
  line : h.line = sinceLine (r + p + Nat.sqrt p - 2)
    (Kernel.apply (Kernel.average (Nat.sqrt p) (linear (Nat.sqrt p))) (hullDiff p f)) t

theorem hull_init (hp : 0 < p) : HullAfter r p f 0 (.init p) where
  full := rfl
  halved := rfl
  final := if_neg (sqrt_pos hp).ne'
  diff := ⟨rfl, rfl⟩
  line := rfl

theorem HullAfter.next {h : HMA OrNan} (hh : HullAfter r p f t h) (hs : Sourced (sinceLine r f (t + 1)) source)
    (hr : 0 < r) (hp : 0 < p) : ∃ h', h.next source = some h' ∧ HullAfter r p f (t + 1) h' := by
  have hfull := WMA.next_since (w := h.wmaFull) hs hr (hh.full ▸ hp)
  have hhalf := WMA.next_since (w := h.wmaHalf) hs hr (hh.halved ▸ half_pos p)
  have hle := half_le hp
  have hsqrt := sqrt_pos hp
  rw [hh.full] at hfull
  rw [hh.halved] at hhalf
  -- the difference is a number when the average of the whole window is one
  have hdiff := hh.diff.forward (since (r + p - 1) (hullDiff p f) t)
  rw [← sinceLine_succ] at hdiff
  have hfinal := WMA.next_since (w := h.wmaFinal) hdiff (by omega) (hh.final ▸ sqrt_pos hp)
  rw [hh.final, show r + p - 1 + Nat.sqrt p - 1 = r + p + Nat.sqrt p - 2 by omega] at hfinal
  unfold HMA.next
  rw [hfull, hhalf]
  simp only [Option.bind_eq_bind, Option.bind_some, List.getLast?_append, List.getLast?_singleton, Option.some_or]
  by_cases hlate : t + 1 < r + p - 1
  · rw [since_nan hlate, OrNan.isNaN_nan, Bool.true_or, if_pos rfl]
    rw [since_nan hlate] at hfinal hdiff
    rw [OrNan.nan_eq, hfinal]
    refine ⟨_, rfl, ⟨rfl, rfl, rfl, hdiff, ?_⟩⟩
    rw [sinceLine_succ, since_nan (r := r + p + Nat.sqrt p - 2) (by omega), ← hh.line]
  · rw [since_num (r := r + p - 1) (by omega), since_num (r := r + half p - 1) (by omega)]
    rw [since_num (r := r + p - 1) (by omega)] at hfinal hdiff
    have hvalue : 2.0 * OrNan.num (Kernel.apply (Kernel.average (half p) (linear (half p))) f t) -
        OrNan.num (Kernel.apply (Kernel.average p (linear p)) f t) = .num (hullDiff p f t) := by
      rw [OrNan.ofScientific_eq, OrNan.num_mul, OrNan.num_sub, hullDiff]
      norm_num
    rw [OrNan.isNaN_num, OrNan.isNaN_num, Bool.or_false, if_neg Bool.false_ne_true, hvalue, hfinal]
    simp only [Option.bind_some, List.getLast?_append, List.getLast?_singleton, Option.some_or]
    refine ⟨_, rfl, ⟨rfl, rfl, rfl, hdiff, ?_⟩⟩
    rw [sinceLine_succ, ← hh.line]

end

end Windows

/-! ### The kernels -/

namespace MovingAverage
open Windows

variable {k : MovingAverage} {p r n : Nat} {f : ℤ → ℚ}

/-- What the value `i` bars ago weighs. -/
def weight : MovingAverage → Nat → Nat → ℚ
  | .SMA, _, _ | .Average, _, _ => 1
  | .WMA, p, i | .HMA, p, i => linear p i
  | .TRIMA, p, i | .SWMA, p, i => triangle p i
  | .FWMA, p, i => Nat.fib (p - i)
  | .PWMA, p, i => (p - 1).choose i

/-- The bars until the first number. -/
def minimumPeriod : MovingAverage → Nat → Nat
  | .HMA, p => p + Nat.sqrt p - 1
  | _, p => p

open Polynomial in
noncomputable def kernel : MovingAverage → Nat → ℚ[X]
  | .HMA, p => Kernel.average (Nat.sqrt p) (linear (Nat.sqrt p)) *
      (C 2 * Kernel.average (half p) (linear (half p)) - Kernel.average p (linear p))
  | k, p => Kernel.average p (k.weight p)

theorem weight_nonneg (k : MovingAverage) (p i : Nat) : 0 ≤ k.weight p i := by
  cases k with
  | SMA | Average => exact zero_le_one
  | _ => exact Nat.cast_nonneg _

theorem weight_pos (k : MovingAverage) (hp : 0 < p) : 0 < k.weight p 0 := by
  cases k with
  | TRIMA | SWMA =>
    show (0 : ℚ) < (min (0 + 1) (p - 0) : Nat)
    rw [show min (0 + 1) (p - 0) = 1 by omega, Nat.cast_one]
    exact one_pos
  | FWMA => exact Nat.cast_pos.2 (Nat.fib_pos.2 hp)
  | _ => simp [weight, linear, hp]

theorem sum_weight_ne (k : MovingAverage) (hp : 0 < p) : ∑ i ∈ Finset.range p, k.weight p i ≠ 0 :=
  (Finset.sum_pos' (fun i _ => k.weight_nonneg p i) ⟨0, Finset.mem_range.2 hp, k.weight_pos hp⟩).ne'

theorem kernel_eq (hk : k ≠ .HMA) (p : Nat) : k.kernel p = Kernel.average p (k.weight p) := by
  cases k with
  | HMA => exact absurd rfl hk
  | _ => rfl

theorem eval_linear (hp : 0 < p) : (Kernel.average p (linear p)).eval 1 = 1 := Kernel.eval_average (sum_linear_ne hp)

theorem eval_hullDiff (hp : 0 < p) :
    (Polynomial.C 2 * Kernel.average (half p) (linear (half p)) - Kernel.average p (linear p)).eval 1 = 1 := by
  rw [Polynomial.eval_sub, Polynomial.eval_mul, Polynomial.eval_C, eval_linear (half_pos p), eval_linear hp]
  norm_num

theorem eval_kernel (k : MovingAverage) (hp : 0 < p) : (k.kernel p).eval 1 = 1 := by
  by_cases hk : k = .HMA
  · subst hk
    rw [kernel, Polynomial.eval_mul, eval_linear (sqrt_pos hp), eval_hullDiff hp, mul_one]
  · rw [kernel_eq hk]
    exact Kernel.eval_average (k.sum_weight_ne hp)

/-- Over a line that warms up, every class is its kernel, and warms up in turn. -/
theorem lineOf_since (k : MovingAverage) (hr : 0 < r) (hp : 0 < p) (f : ℤ → ℚ) (n : Nat) :
    k.lineOf p (sinceLine r f n) = some (sinceLine (r + k.minimumPeriod p - 1) (Kernel.apply (k.kernel p) f) n) := by
  have hsame : (if p = 0 then 1 else p) = p := if_neg hp.ne'
  cases k with
  | SMA => exact line_sma hr hp n
  | Average => exact line_average hr hp n
  | WMA => exact line_wma hr hp n
  | TRIMA =>
    refine line_weights hr hp ?_ (fun i hi => triangle_reflect hi) (sum_triangle_ne hp) n
    rw [hsame]
    exact triangularWeights_eq p
  | SWMA =>
    refine line_weights hr hp ?_ (fun i hi => triangle_reflect hi) (sum_triangle_ne hp) n
    rw [hsame]
    exact symmetricWeights_eq p
  | FWMA =>
    refine line_weights (v := fun i => (Nat.fib (i + 1) : ℚ)) hr hp ?_ (fun i hi => ?_) (sum_weight_ne .FWMA hp) n
    · rw [hsame]
      exact fibWeights_eq p
    · rw [weight, show p - 1 - i + 1 = p - i by omega]
  | PWMA =>
    refine line_weights (v := fun i => ((p - 1).choose i : ℚ)) hr hp ?_ (fun i hi => ?_) (sum_weight_ne .PWMA hp) n
    · rw [hsame]
      exact pascalWeights_eq p
    · rw [weight, Nat.choose_symm (by omega)]
  | HMA =>
    obtain ⟨l, h, hover, hafter⟩ := over_since (HullAfter r p f) (hull_init hp) (fun t source h hs hh => hh.next hs hr hp) n
    have hdiff : Kernel.apply (Polynomial.C 2 * Kernel.average (half p) (linear (half p)) - Kernel.average p (linear p)) f =
        hullDiff p f := by
      funext t
      rw [Kernel.apply_sub, Kernel.apply_C_mul]
      rfl
    rw [lineOf, hover, Option.map_some, hafter.line, kernel, Kernel.apply_mul, hdiff, minimumPeriod,
      show r + (p + Nat.sqrt p - 1) - 1 = r + p + Nat.sqrt p - 2 by omega]

/-! ### One average after another -/

/-- An average of averages. -/
theorem lineOf_lineOf (k k' : MovingAverage) {p' : Nat} (hr : 0 < r) (hp : 0 < p) (hp' : 0 < p') (f : ℤ → ℚ) (n : Nat) :
    (k.lineOf p (sinceLine r f n)).bind (k'.lineOf p') =
      some (sinceLine (r + k.minimumPeriod p + k'.minimumPeriod p' - 2) (Kernel.apply (k'.kernel p' * k.kernel p) f) n) := by
  have hpos : 0 < k.minimumPeriod p := by
    cases k <;> simp only [minimumPeriod] <;> have := sqrt_pos hp <;> omega
  rw [lineOf_since k hr hp, Option.bind_some, lineOf_since k' (by omega) hp', Kernel.apply_mul]
  congr 2
  omega

/-- A triangle is a box after a box. -/
theorem kernel_triangle (hp : 0 < p) :
    Kernel.average p (triangle p) = MovingAverage.kernel .SMA ((p + 1) / 2) * MovingAverage.kernel .SMA (p / 2 + 1) := by
  refine (Kernel.average_mul ?_).symm
  refine (Kernel.box_mul_box (by omega) (by omega)).trans ?_
  rw [show (p + 1) / 2 + (p / 2 + 1) - 1 = p by omega]
  rfl

/-- Pascal's triangle is built by adding neighbours. -/
theorem kernel_pascal (hp : 0 < p) :
    MovingAverage.kernel .PWMA (p + 1) = MovingAverage.kernel .SMA 2 * MovingAverage.kernel .PWMA p := by
  obtain ⟨m, rfl⟩ : ∃ m, p = m + 1 := ⟨p - 1, by omega⟩
  refine (Kernel.average_mul ?_).symm
  have hrow : ∀ m : Nat, Kernel.ofFn (m + 1) (MovingAverage.weight .PWMA (m + 1)) = (1 + Polynomial.X) ^ m := fun m =>
    (Kernel.ofFn_congr fun i _ => rfl).trans (Kernel.ofFn_choose m)
  have htwo : Kernel.ofFn 2 (MovingAverage.weight .SMA 2) = (1 + Polynomial.X) ^ 1 := by
    refine (Kernel.ofFn_congr fun i hi => ?_).trans (Kernel.ofFn_choose 1)
    obtain rfl | rfl : i = 0 ∨ i = 1 := by omega
    · simp [weight]
    · simp [weight]
  rw [hrow, hrow, htwo, ← pow_add, Nat.add_comm 1 m]

/-! ### How far they lag behind -/

/-- The bars by which a straight line comes out late. -/
def lag : MovingAverage → Nat → ℚ
  | .WMA, p => (p - 1) / 3
  | .FWMA, p => (Nat.fib (p + 3) - p - 2) / (Nat.fib (p + 2) - 1)
  | .HMA, p => (2 * half p - p + Nat.sqrt p - 2) / 3
  | _, p => (p - 1) / 2

/-- One more bar in the window. -/
theorem sum_back_succ (u : Nat → ℚ) (p : Nat) :
    ∑ i ∈ Finset.range (p + 1), u (p + 1 - i) = ∑ i ∈ Finset.range p, u (p - i) + u (p + 1) ∧
      ∑ i ∈ Finset.range (p + 1), i * u (p + 1 - i) =
        ∑ i ∈ Finset.range p, i * u (p - i) + ∑ i ∈ Finset.range p, u (p - i) := by
  constructor
  · rw [Finset.sum_range_succ']
    simp
  · rw [Finset.sum_range_succ', ← Finset.sum_add_distrib]
    simp only [Nat.cast_zero, zero_mul, add_zero]
    refine Finset.sum_congr rfl fun i _ => ?_
    rw [show p + 1 - (i + 1) = p - i by omega]
    push_cast
    ring

theorem lag_ones (hp : 0 < p) : Kernel.lag (Kernel.average p fun _ => (1 : ℚ)) = (p - 1) / 2 := by
  have hsum : ∀ n : Nat, ∑ i ∈ Finset.range n, (i : ℚ) = n * (n - 1) / 2 := by
    intro n
    induction n with
    | zero => simp
    | succ n ih =>
      rw [Finset.sum_range_succ, ih]
      push_cast
      ring
  have hne : (p : ℚ) ≠ 0 := by exact_mod_cast hp.ne'
  rw [Kernel.lag_average]
  simp only [mul_one, Finset.sum_const, Finset.card_range, nsmul_eq_mul]
  rw [hsum]
  field_simp

theorem lag_linear (hp : 0 < p) : Kernel.lag (Kernel.average p (linear p)) = (p - 1) / 3 := by
  have hsum : ∀ n : Nat, ∑ i ∈ Finset.range n, i * linear n i = (n - 1) * n * (n + 1) / 6 := by
    intro n
    induction n with
    | zero => simp
    | succ n ih =>
      have hstep := (sum_back_succ (fun j => (j : ℚ)) n).2
      have hlinear := sum_linear n
      simp only [linear] at ih hlinear ⊢
      rw [hstep, ih, hlinear]
      push_cast
      ring
  have hne : (p : ℚ) ≠ 0 := by exact_mod_cast hp.ne'
  have hne' : (p : ℚ) + 1 ≠ 0 := by positivity
  rw [Kernel.lag_average, hsum, sum_linear]
  field_simp
  ring

theorem lag_fib (p : Nat) : Kernel.lag (Kernel.average p (weight .FWMA p)) = lag .FWMA p := by
  have hsums : ∀ n : Nat, ∑ i ∈ Finset.range n, (Nat.fib (n - i) : ℚ) = Nat.fib (n + 2) - 1 ∧
      ∑ i ∈ Finset.range n, i * (Nat.fib (n - i) : ℚ) = Nat.fib (n + 3) - n - 2 := by
    intro n
    induction n with
    | zero =>
      have hthree : Nat.fib 3 = 2 := rfl
      simp [hthree]
    | succ n ih =>
      obtain ⟨hmass, hlag⟩ := sum_back_succ (fun j => (Nat.fib j : ℚ)) n
      have htwo : Nat.fib (n + 1 + 2) = Nat.fib (n + 1) + Nat.fib (n + 2) := Nat.fib_add_two
      have hthree : Nat.fib (n + 1 + 3) = Nat.fib (n + 2) + Nat.fib (n + 3) := Nat.fib_add_two
      have hnext : Nat.fib (n + 3) = Nat.fib (n + 1) + Nat.fib (n + 2) := Nat.fib_add_two
      rw [hmass, hlag, ih.1, ih.2, htwo, hthree, hnext]
      constructor
      · push_cast
        ring
      · push_cast
        ring
  rw [Kernel.lag_average]
  simp only [weight]
  rw [(hsums p).1, (hsums p).2]
  rfl

theorem lag_triangle (hp : 0 < p) : Kernel.lag (Kernel.average p (triangle p)) = (p - 1) / 2 := by
  have hhalves : (((p + 1) / 2 : Nat) : ℚ) + ((p / 2 + 1 : Nat) : ℚ) = p + 1 := by
    exact_mod_cast (show (p + 1) / 2 + (p / 2 + 1) = p + 1 by omega)
  have hsma : ∀ {m : Nat}, 0 < m → Kernel.lag (MovingAverage.kernel .SMA m) = ((m : ℚ) - 1) / 2 := fun hm => lag_ones hm
  rw [kernel_triangle hp, Kernel.lag_mul (eval_kernel .SMA (by omega)) (eval_kernel .SMA (by omega)), hsma (by omega), hsma (by omega)]
  linarith

theorem lag_pascal (hp : 0 < p) : Kernel.lag (MovingAverage.kernel .PWMA p) = (p - 1) / 2 := by
  induction p, hp using Nat.le_induction with
  | base => simp [kernel, Kernel.lag_average]
  | succ m hm ih =>
    have htwo : Kernel.lag (MovingAverage.kernel .SMA 2) = ((2 : Nat) - 1) / 2 := lag_ones (by omega)
    rw [kernel_pascal hm, Kernel.lag_mul (eval_kernel .SMA (by omega)) (eval_kernel .PWMA hm), htwo, ih]
    push_cast
    ring

theorem lag_kernel (k : MovingAverage) (hp : 0 < p) : Kernel.lag (k.kernel p) = k.lag p := by
  cases k with
  | SMA | Average => exact lag_ones hp
  | WMA => exact lag_linear hp
  | TRIMA | SWMA => exact lag_triangle hp
  | FWMA => exact lag_fib p
  | PWMA => exact lag_pascal hp
  | HMA =>
    rw [kernel, Kernel.lag_mul (eval_linear (sqrt_pos hp)) (eval_hullDiff hp), lag_linear (sqrt_pos hp)]
    have hlag : Kernel.lag (Polynomial.C 2 * Kernel.average (half p) (linear (half p)) - Kernel.average p (linear p)) =
        2 * Kernel.lag (Kernel.average (half p) (linear (half p))) - Kernel.lag (Kernel.average p (linear p)) := by
      rw [Kernel.lag, Polynomial.derivative_sub, Polynomial.eval_sub, Polynomial.derivative_C_mul, Polynomial.eval_C_mul]
      rfl
    rw [hlag, lag_linear (half_pos p), lag_linear hp, lag]
    ring

/-! ### Over numbers -/

/-- The series behind the numbers. -/
def series (qs : List ℚ) (z : ℤ) : ℚ := qs.getD z.toNat 0

theorem sinceLine_one (f : ℤ → ℚ) (n : Nat) : sinceLine 1 f n = (List.range n).map fun t : Nat => .num (f t) :=
  List.map_congr_left fun t _ => since_num (by omega)

theorem nums_eq (qs : List ℚ) : qs.map OrNan.num = sinceLine 1 (series qs) qs.length := by
  rw [sinceLine_one]
  refine List.ext_getElem (by simp) fun t ht ht' => ?_
  have ht : t < qs.length := by simpa using ht
  simp [series, ht]

theorem affine_eq (a b : ℚ) (qs : List ℚ) :
    (qs.map (a * · + b)).map OrNan.num = sinceLine 1 (fun z => a * series qs z + b) qs.length := by
  rw [sinceLine_one]
  refine List.ext_getElem (by simp) fun t ht ht' => ?_
  have ht : t < qs.length := by simpa using ht
  simp [series, ht]

theorem map_since (a b : ℚ) (r : Nat) (f : ℤ → ℚ) (n : Nat) :
    (sinceLine r f n).map (fun x => .num a * x + .num b) = sinceLine r (fun z => a * f z + b) n := by
  rw [sinceLine, List.map_map]
  refine List.map_congr_left fun t _ => ?_
  simp only [Function.comp_apply, since]
  split_ifs
  · rfl
  · rw [OrNan.num_mul, OrNan.num_add]

/-- Other units. -/
theorem lineOf_affine (k : MovingAverage) (hp : 0 < p) (a b : ℚ) (qs : List ℚ) :
    k.lineOf p ((qs.map (a * · + b)).map OrNan.num) =
      (k.lineOf p (qs.map OrNan.num)).map (·.map fun x => .num a * x + .num b) := by
  rw [affine_eq, nums_eq, lineOf_since k one_pos hp, lineOf_since k one_pos hp, Option.map_some, map_since]
  congr 2
  funext z
  exact Kernel.apply_affine (eval_kernel k hp) a b (series qs) z

/-- A straight line. -/
theorem lineOf_straight (k : MovingAverage) (hp : 0 < p) (a b : ℚ) (n : Nat) :
    k.lineOf p ((List.range n).map fun t : Nat => OrNan.num (a * t + b)) =
      some ((List.range n).map fun t : Nat => if t + 1 < k.minimumPeriod p then OrNan.nan else .num (a * (t - k.lag p) + b)) := by
  have hline : ((List.range n).map fun t : Nat => OrNan.num (a * t + b)) = sinceLine 1 (fun z => a * (z : ℚ) + b) n := by
    rw [sinceLine_one]
    simp
  rw [hline, lineOf_since k one_pos hp, Nat.add_sub_cancel_left, sinceLine]
  congr 1
  refine List.map_congr_left fun t _ => ?_
  rw [since, Kernel.apply_affine (eval_kernel k hp), Kernel.apply_line (eval_kernel k hp), lag_kernel k hp]
  push_cast
  rfl

/-- The window of a bar. -/
theorem lineOf_between (hk : k ≠ .HMA) (hp : 0 < p) {qs : List ℚ} {l : List OrNan} {t : Nat} {x lo hi : ℚ}
    (hl : k.lineOf p (qs.map OrNan.num) = some l) (hx : l[t]? = some (.num x))
    (hwindow : ∀ q ∈ (qs.drop (t + 1 - p)).take p, lo ≤ q ∧ q ≤ hi) : lo ≤ x ∧ x ≤ hi := by
  rw [nums_eq, lineOf_since k one_pos hp, Nat.add_sub_cancel_left] at hl
  obtain rfl := Option.some.inj hl
  have ht : t < qs.length := by simpa using (List.getElem?_eq_some_iff.1 hx).1
  have hvalue : since (k.minimumPeriod p) (Kernel.apply (k.kernel p) (series qs)) t = .num x := by
    rw [sinceLine, List.getElem?_map, List.getElem?_range ht] at hx
    exact Option.some.inj hx
  have hready : k.minimumPeriod p = p := by
    cases k with
    | HMA => exact absurd rfl hk
    | _ => rfl
  rw [hready, since] at hvalue
  split_ifs at hvalue with hshort
  obtain rfl := OrNan.num_injective hvalue
  rw [kernel_eq hk]
  refine Kernel.apply_mem (n := p) (fun i hi => ?_) (fun i => ?_) (Kernel.eval_average (k.sum_weight_ne hp)) (fun i hi => ?_)
  · rw [Kernel.coeff_average, if_neg (Nat.not_lt.2 hi)]
  · rw [Kernel.coeff_average]
    split_ifs
    · exact mul_nonneg (inv_nonneg.2 (Finset.sum_nonneg fun i _ => k.weight_nonneg p i)) (k.weight_nonneg p i)
    · exact le_rfl
  · refine hwindow _ ?_
    have hplace : ((t : ℤ) - i).toNat = t - i := by omega
    rw [series, hplace, List.getD_eq_getElem _ _ (by omega)]
    refine List.mem_iff_getElem?.2 ⟨p - 1 - i, ?_⟩
    rw [List.getElem?_take_of_lt (by omega), List.getElem?_drop, show t + 1 - p + (p - 1 - i) = t - i by omega,
      List.getElem?_eq_getElem (by omega)]

theorem line_weightedAverage (hr : 0 < r) (hp : 0 < p) (f : ℤ → ℚ) (n : Nat) :
    (overSource WeightedAverage.next (.init p (1 / WMA.denominator p) []) (sinceLine r f n)).map (fun x => x.2.line) =
      MovingAverage.lineOf .WMA p (sinceLine r f n) := by
  rw [lineOf_since .WMA hr hp]
  refine line_since (fun w : WeightedAverage OrNan => w.period = p ∧ w.coef = 1 / WMA.denominator p ∧
    w.weights = (List.range p).map fun i => .num ((i + 1 : Nat) : ℚ)) ⟨if_neg hp.ne', rfl, ?_⟩ rfl (fun t source w hs hw => ?_) n
  · unfold WeightedAverage.init
    simp [hp.ne']
  · obtain ⟨rfl, hcoef, hweights⟩ := hw
    exact ⟨_, WeightedAverage.next_since hweights hcoef hs hr hp, ⟨rfl, hcoef, hweights⟩, rfl⟩

/-- The declared bar. -/
theorem lineOf_ready (k : MovingAverage) (hp : 0 < p) (qs : List ℚ) :
    ∃ l, k.lineOf p (qs.map OrNan.num) = some l ∧ l.length = qs.length ∧
      ∀ t < qs.length, ∃ x, l[t]? = some x ∧ (OrNan.IsNum x ↔ k.minimumPeriod p ≤ t + 1) := by
  rw [nums_eq, lineOf_since k one_pos hp, Nat.add_sub_cancel_left]
  refine ⟨_, rfl, length_sinceLine .., fun t ht => ⟨since (k.minimumPeriod p) (Kernel.apply (k.kernel p) (series qs)) t, ?_, ?_⟩⟩
  · rw [sinceLine, List.getElem?_map, List.getElem?_range ht]
    rfl
  · unfold since
    split_ifs with h
    · exact iff_of_false OrNan.not_isNum_nan (by omega)
    · exact iff_of_true (OrNan.isNum_num _) (by omega)

end MovingAverage

end Indicators
open Indicators

/-- Over any series of numbers, and with any periods, the moving averages are ready on the bar they declare; the
triangular one is a simple average of a simple average, and the symmetric one the same; Pascal's is built up by averages
of two; `WMA`, `WeightedAverage` and `decay_linear` agree; the order in which two averages are applied does not matter;
other units give the same averages in these units; a straight line comes out `lag` bars late; and all but Hull's stay
within their window. -/
theorem moving_averages (p : Nat) (hp : 0 < p) (qs : List ℚ) :
    (∀ k : MovingAverage, ∃ l, k.lineOf p (qs.map OrNan.num) = some l ∧ l.length = qs.length ∧
      ∀ t < qs.length, ∃ x, l[t]? = some x ∧ (OrNan.IsNum x ↔ k.minimumPeriod p ≤ t + 1)) ∧
    (MovingAverage.lineOf .Average p (qs.map OrNan.num) = MovingAverage.lineOf .SMA p (qs.map OrNan.num) ∧
      MovingAverage.lineOf .SWMA p (qs.map OrNan.num) = MovingAverage.lineOf .TRIMA p (qs.map OrNan.num) ∧
      MovingAverage.lineOf .TRIMA p (qs.map OrNan.num) =
        (MovingAverage.lineOf .SMA (p / 2 + 1) (qs.map OrNan.num)).bind (MovingAverage.lineOf .SMA ((p + 1) / 2)) ∧
      MovingAverage.lineOf .PWMA (p + 1) (qs.map OrNan.num) =
        (MovingAverage.lineOf .PWMA p (qs.map OrNan.num)).bind (MovingAverage.lineOf .SMA 2)) ∧
    ((overSource WeightedAverage.next (.init p (1 / WMA.denominator p) []) (qs.map OrNan.num)).map (fun x => x.2.line) =
        MovingAverage.lineOf .WMA p (qs.map OrNan.num) ∧
      ∀ l, MovingAverage.lineOf .WMA p (qs.map OrNan.num) = some l → ∀ t < qs.length, ∀ source,
        Sourced ((qs.take (t + 1)).map OrNan.num) source → decayLinear source t p = l[t]?) ∧
    (∀ (k k' : MovingAverage) (p' : Nat), 0 < p' →
      (k.lineOf p (qs.map OrNan.num)).bind (k'.lineOf p') = (k'.lineOf p' (qs.map OrNan.num)).bind (k.lineOf p)) ∧
    (∀ (k : MovingAverage) (a b : ℚ), k.lineOf p ((qs.map (a * · + b)).map OrNan.num) =
      (k.lineOf p (qs.map OrNan.num)).map (·.map fun x => .num a * x + .num b)) ∧
    (∀ (k : MovingAverage) (a b : ℚ) (n : Nat), k.lineOf p ((List.range n).map fun t : Nat => OrNan.num (a * t + b)) =
      some ((List.range n).map fun t : Nat => if t + 1 < k.minimumPeriod p then OrNan.nan else .num (a * (t - k.lag p) + b))) ∧
    ∀ (k : MovingAverage) (l : List OrNan) (t : Nat) (x lo hi : ℚ), k ≠ .HMA → k.lineOf p (qs.map OrNan.num) = some l →
      l[t]? = some (.num x) → (∀ q ∈ (qs.drop (t + 1 - p)).take p, lo ≤ q ∧ q ≤ hi) → lo ≤ x ∧ x ≤ hi := by
  have hnums := MovingAverage.nums_eq qs
  refine ⟨fun k => k.lineOf_ready hp qs, ⟨?_, ?_, ?_, ?_⟩, ⟨?_, ?_⟩, ?_, fun k a b => k.lineOf_affine hp a b qs,
    fun k a b n => k.lineOf_straight hp a b n, fun k l t x lo hi hk => MovingAverage.lineOf_between hk hp⟩
  · rw [hnums, MovingAverage.lineOf_since _ one_pos hp, MovingAverage.lineOf_since _ one_pos hp]
    rfl
  · rw [hnums, MovingAverage.lineOf_since _ one_pos hp, MovingAverage.lineOf_since _ one_pos hp]
    rfl
  · rw [hnums, MovingAverage.lineOf_lineOf _ _ one_pos (by omega) (by omega), ← MovingAverage.kernel_triangle hp,
      MovingAverage.lineOf_since _ one_pos hp]
    congr 2
    simp only [MovingAverage.minimumPeriod]
    omega
  · rw [hnums, MovingAverage.lineOf_lineOf _ _ one_pos hp (by omega), ← MovingAverage.kernel_pascal hp,
      MovingAverage.lineOf_since _ one_pos (by omega)]
    congr 2
  · rw [hnums]
    exact MovingAverage.line_weightedAverage one_pos hp _ _
  · intro l hl t ht source hsource
    have htaken : (qs.take (t + 1)).map OrNan.num = Windows.sinceLine 1 (MovingAverage.series qs) (t + 1) := by
      rw [List.map_take, hnums, Windows.sinceLine, Windows.sinceLine, ← List.map_take, List.take_range, Nat.min_eq_left ht]
    rw [hnums, MovingAverage.lineOf_since _ one_pos hp] at hl
    obtain rfl := Option.some.inj hl
    rw [Windows.decayLinear_since (htaken ▸ hsource) one_pos hp, Windows.sinceLine, List.getElem?_map, List.getElem?_range ht]
    rfl
  · intro k k' p' hp'
    rw [hnums, MovingAverage.lineOf_lineOf k k' one_pos hp hp', MovingAverage.lineOf_lineOf k' k one_pos hp' hp, mul_comm,
      Nat.add_right_comm]

/-- Four bars of a price that doubles. -/
theorem moving_averages_doubling :
    (MovingAverage.lineOf .TRIMA 4 ([1, 2, 4, 8].map OrNan.num)) =
        (MovingAverage.lineOf .SMA 3 ([1, 2, 4, 8].map OrNan.num)).bind (MovingAverage.lineOf .SMA 2) ∧
      (MovingAverage.lineOf .HMA 4 ([1, 2, 4, 8].map OrNan.num)).bind (MovingAverage.lineOf .WMA 2) =
        (MovingAverage.lineOf .WMA 2 ([1, 2, 4, 8].map OrNan.num)).bind (MovingAverage.lineOf .HMA 4) ∧
      ∃ l, MovingAverage.lineOf .FWMA 4 ([1, 2, 4, 8].map OrNan.num) = some l ∧ l.length = 4 := by
  obtain ⟨hready, ⟨-, -, htriangle, -⟩, -, horder, -⟩ := moving_averages 4 (by simp) [1, 2, 4, 8]
  obtain ⟨l, hl, hlength, -⟩ := hready .FWMA
  exact ⟨htriangle, horder .HMA .WMA 2 (by simp), l, hl, hlength⟩

end StratForge
