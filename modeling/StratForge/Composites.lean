import StratForge.NestedEma
import StratForge.Strength

/-!
# Indicators over lines of other indicators (`indicators/momentum.hpp`, `kst.hpp`, `oscillator_extra.hpp`, `weightedaverage.hpp`, `stc.hpp`, `hma.hpp`, `zlema.hpp`, `dpo.hpp`)

A stage whose source starts late starts as much later as its window is long (`Feeds`, and what each stage puts out of it).
-/

namespace StratForge
namespace Indicators
open Floating (nan isNaN)
open Access (readBack)

section
variable {α : Type} [Arith α] [Floating α]

/-- The last value of a line of its own, with the cursor that `forward` leaves. -/
def SMA.nextOver (line : List α) (s : StratForge.SMA α) : StratForge.SMA α := s.next line (line.length - 1)

structure ROC (α : Type) where
  period : Nat
  line : List α := []

def ROC.next (source : Line α) (r : ROC α) : Option (ROC α) :=
  if source.idx < r.period then some { r with line := r.line ++ [nan] }
  else do
    let previous ← readBack source.data source.idx r.period
    let current ← source.data[source.idx]?
    return { r with line := r.line ++ [(current - previous) / previous] }

structure ROC100 (α : Type) where
  roc : ROC α
  line : List α := []

def ROC100.next (source : Line α) (r : ROC100 α) : Option (ROC100 α) := do
  let roc ← r.roc.next source
  let value ← roc.line.getLast?
  return { roc, line := r.line ++ [if isNaN value then value else value * 100.0] }

/-! ### KST -/

structure KnowSureThing (α : Type) where
  roc1 : ROC100 α
  roc2 : ROC100 α
  roc3 : ROC100 α
  roc4 : ROC100 α
  rcma1 : StratForge.SMA α
  rcma2 : StratForge.SMA α
  rcma3 : StratForge.SMA α
  rcma4 : StratForge.SMA α
  signalSma : StratForge.SMA α
  kstPeriod : Nat
  rsignal : Nat
  line : List α := []
  signal : List α := []

def smaOf (period : Nat) : StratForge.SMA α := { period := if period = 0 then 1 else period }

namespace KnowSureThing

def init (rp1 rp2 rp3 rp4 rma1 rma2 rma3 rma4 rsignal : Nat) : KnowSureThing α :=
  { roc1 := { roc := { period := rp1 } }, roc2 := { roc := { period := rp2 } }, roc3 := { roc := { period := rp3 } }
    roc4 := { roc := { period := rp4 } }, rcma1 := smaOf rma1, rcma2 := smaOf rma2, rcma3 := smaOf rma3, rcma4 := smaOf rma4
    signalSma := smaOf rsignal
    kstPeriod := max (max (max (rp1 + rma1) (rp2 + rma2)) (rp3 + rma3)) (rp4 + rma4) - 1
    rsignal := if rsignal = 0 then 1 else rsignal }

/-- The average of the signal is advanced only on a bar of a number, over the whole line. -/
def nextLine (v1 v2 v3 v4 : α) (k : KnowSureThing α) : Option (KnowSureThing α) :=
  if isNaN v1 || isNaN v2 || isNaN v3 || isNaN v4 then some { k with line := k.line ++ [nan], signal := k.signal ++ [nan] }
  else do
    let line := k.line ++ [v1 + 2.0 * v2 + 3.0 * v3 + 4.0 * v4]
    let signalSma := SMA.nextOver line k.signalSma
    return { k with line, signalSma, signal := k.signal ++ [← signalSma.line.getLast?] }

def next (source : Line α) (k : KnowSureThing α) : Option (KnowSureThing α) := do
  let roc1 ← k.roc1.next source
  let roc2 ← k.roc2.next source
  let roc3 ← k.roc3.next source
  let roc4 ← k.roc4.next source
  let rcma1 := SMA.nextOver roc1.line k.rcma1
  let rcma2 := SMA.nextOver roc2.line k.rcma2
  let rcma3 := SMA.nextOver roc3.line k.rcma3
  let rcma4 := SMA.nextOver roc4.line k.rcma4
  let v1 ← rcma1.line.getLast?
  let v2 ← rcma2.line.getLast?
  let v3 ← rcma3.line.getLast?
  let v4 ← rcma4.line.getLast?
  { k with roc1, roc2, roc3, roc4, rcma1, rcma2, rcma3, rcma4 }.nextLine v1 v2 v3 v4

def minimumPeriod (k : KnowSureThing α) : Nat := k.kstPeriod + k.rsignal - 1

end KnowSureThing

/-! ### Coppock -/

structure WeightedAverage (α : Type) where
  period : Nat
  coef : α
  weights : List α
  line : List α := []

namespace WeightedAverage

def init (period : Nat) (coef : α) (weights : List α) : WeightedAverage α :=
  let period := if period = 0 then 1 else period
  let weights := if weights.isEmpty then (List.range period).map fun i => Arith.ofCount (i + 1) else weights
  { period, coef, weights := weights ++ .replicate (period - weights.length) (weights.getLastD 1) }

def next (source : Line α) (w : WeightedAverage α) : Option (WeightedAverage α) :=
  if source.idx + 1 < w.period then some { w with line := w.line ++ [nan] }
  else do
    let terms ← (List.range w.period).mapM fun i => do
      return (← source.data[source.idx + 1 - w.period + i]?) * (← w.weights[i]?)
    return { w with line := w.line ++ [w.coef * Simd.reduceSum terms] }

end WeightedAverage

structure CoppockCurve (α : Type) where
  roc1 : ROC α
  roc2 : ROC α
  sumLine : Line α := {}
  wma : WeightedAverage α
  line : List α := []

namespace CoppockCurve

def init (period1 period2 wmaPeriod : Nat) : CoppockCurve α :=
  { roc1 := { period := period1 }, roc2 := { period := period2 }, wma := .init wmaPeriod 1 [] }

def next (source : Line α) (c : CoppockCurve α) : Option (CoppockCurve α) := do
  let roc1 ← c.roc1.next source
  let roc2 ← c.roc2.next source
  let v1 ← roc1.line.getLast?
  let v2 ← roc2.line.getLast?
  let sumLine := c.sumLine.forward (if isNaN v1 || isNaN v2 then nan else (v1 + v2) * 100.0)
  let wma ← c.wma.next sumLine
  return { roc1, roc2, sumLine, wma, line := c.line ++ [← wma.line.getLast?] }

def minimumPeriod (c : CoppockCurve α) : Nat := c.wma.period

end CoppockCurve

/-! ### STC -/

structure STC (α : Type) where
  period : Nat
  fast : Nat
  slow : Nat
  factor : α
  fastEma : α
  slowEma : α
  pf : α
  pff : α
  fastInit : Bool := false
  slowInit : Bool := false
  macd : List α := []
  pfHist : List α := []
  line : List α := []

namespace STC

def init (period fast slow : Nat) (factor : α) : STC α :=
  { period := if period = 0 then 1 else period, fast := if fast = 0 then 1 else fast, slow := if slow = 0 then 1 else slow
    factor, fastEma := 0, slowEma := 0, pf := 50.0, pff := 50.0 }

/-- The place of a value among the extremes of a window that it is in. -/
def stoch (v : α) (first : α) (rest : List α) : α :=
  let hh := rest.foldl Arith.max first
  let ll := rest.foldl Arith.min first
  if hh == ll then 50.0 else 100.0 * (v - ll) / (hh - ll)

/-- With the first place pushed on its history, that of the places among themselves. -/
def nextPff (s : STC α) : Option (STC α) :=
  let pfHist := s.pfHist ++ [s.pf]
  let s := { s with pfHist := if s.period < pfHist.length then pfHist.drop 1 else pfHist }
  if s.pfHist.length < s.period then some { s with line := s.line ++ [nan] }
  else do
    let first ← s.pfHist[0]?
    let pff := s.pff + s.factor * (stoch s.pf first (s.pfHist.drop 1) - s.pff)
    return { s with pff, line := s.line ++ [Arith.clamp pff 0 100.0] }

/-- With the difference of the averages on its line. -/
def nextPf (m : α) (s : STC α) : Option (STC α) :=
  let s := { s with macd := s.macd ++ [m] }
  if s.macd.length < s.period then some { s with line := s.line ++ [nan] }
  else do
    let older ← ((List.range (s.period - 1)).map (· + 1)).mapM (readBack s.macd (s.macd.length - 1))
    if older.any isNaN then return { s with line := s.line ++ [nan] }
    { s with pf := s.pf + s.factor * (stoch m m older - s.pf) }.nextPff

def nextSlow (source : Line α) (s : STC α) : Option (STC α) :=
  if source.idx + 1 < s.slow then some { s with macd := s.macd ++ [nan], line := s.line ++ [nan] }
  else do
    let slowEma ← MACD.average source s.slow s.slowInit s.slowEma
    let s := { s with slowEma, slowInit := true }
    s.nextPf (s.fastEma - slowEma)

def next (source : Line α) (s : STC α) : Option (STC α) :=
  if source.idx + 1 < s.fast then some { s with macd := s.macd ++ [nan], line := s.line ++ [nan] }
  else do
    let fastEma ← MACD.average source s.fast s.fastInit s.fastEma
    { s with fastEma, fastInit := true }.nextSlow source

def minimumPeriod (s : STC α) : Nat := s.slow + s.period

end STC

/-! ### HMA, ZLEMA, DPO -/

structure HMA (α : Type) where
  period : Nat
  sqrtPeriod : Nat
  diff : Line α := {}
  wmaFull : WMA α
  wmaHalf : WMA α
  wmaFinal : WMA α
  line : List α := []

namespace HMA

def init (period : Nat) : HMA α :=
  let half := period / 2
  { period, sqrtPeriod := Nat.sqrt period, wmaFull := { period }, wmaHalf := { period := if half = 0 then 1 else half }
    wmaFinal := { period := if Nat.sqrt period = 0 then 1 else Nat.sqrt period } }

def next (source : Line α) (h : HMA α) : Option (HMA α) := do
  let wmaFull ← h.wmaFull.next source
  let wmaHalf ← h.wmaHalf.next source
  let full ← wmaFull.line.getLast?
  let half ← wmaHalf.line.getLast?
  if isNaN full || isNaN half then
    let diff := h.diff.forward nan
    let wmaFinal ← h.wmaFinal.next diff
    return { h with wmaFull, wmaHalf, diff, wmaFinal, line := h.line ++ [nan] }
  else
    let diff := h.diff.forward (2.0 * half - full)
    let wmaFinal ← h.wmaFinal.next diff
    return { h with wmaFull, wmaHalf, diff, wmaFinal, line := h.line ++ [← wmaFinal.line.getLast?] }

def minimumPeriod (h : HMA α) : Nat := h.period + h.sqrtPeriod - 1

end HMA

structure ZeroLagExponentialMovingAverage (α : Type) where
  period : Nat
  lag : Nat
  adjusted : Line α := {}
  ema : EMA α
  line : List α := []

namespace ZeroLagExponentialMovingAverage

def init (period : Nat) : ZeroLagExponentialMovingAverage α :=
  { period, lag := (if 0 < period then period - 1 else 0) / 2, ema := .init period }

def next (source : Line α) (z : ZeroLagExponentialMovingAverage α) : Option (ZeroLagExponentialMovingAverage α) :=
  if source.idx < z.lag then some { z with line := z.line ++ [nan] }
  else do
    let current ← source.data[source.idx]?
    let before ← readBack source.data source.idx z.lag
    let adjusted := z.adjusted.forward (2.0 * current - before)
    let ema ← z.ema.next adjusted
    return { z with adjusted, ema, line := z.line ++ [← ema.line.getLast?] }

def minimumPeriod (z : ZeroLagExponentialMovingAverage α) : Nat := z.period + z.lag

end ZeroLagExponentialMovingAverage

structure DetrendedPriceOscillator (α : Type) where
  period : Nat
  offset : Nat
  average : StratForge.SMA α
  line : List α := []

namespace DetrendedPriceOscillator

def init (period : Nat) : DetrendedPriceOscillator α :=
  { period, offset := (if 0 < period then period - 1 else 0) / 2, average := smaOf period }

def next (source : Line α) (d : DetrendedPriceOscillator α) : Option (DetrendedPriceOscillator α) := do
  let average := d.average.next source.data source.idx
  let d := { d with average }
  if source.idx < d.offset then return { d with line := d.line ++ [nan] }
  let shiftedAverage ← readBack average.line source.idx d.offset
  if isNaN shiftedAverage then return { d with line := d.line ++ [nan] }
  return { d with line := d.line ++ [(← source.data[source.idx]?) - shiftedAverage] }

def minimumPeriod (d : DetrendedPriceOscillator α) : Nat := d.period + d.offset

end DetrendedPriceOscillator

def T3MovingAverage.minimumPeriod (t : T3MovingAverage α) : Nat := 6 * t.period - 5

end

/-! ### Stages -/

section
open OrNan (IsNum)
open Readiness (StartsAt)

variable {ready t period count : Nat} {l : List OrNan} {x : OrNan} {source : Line OrNan} {qs : List ℚ} {q : ℚ}

/-- A line with the cursor on the last of its `t + 1` values, which are numbers from bar `ready` on. -/
structure Feeds (ready t : Nat) (source : Line OrNan) : Prop where
  cursor : source.idx = t
  values : Late ready (t + 1) source.data

theorem Feeds.forward (h : Late ready t source.data) (hready : 0 < ready) (hx : IsNum x ↔ ready ≤ t + 1) :
    Feeds ready t (source.forward x) := ⟨h.length, h.snoc hready hx⟩

theorem Sourced.feeds (hs : Sourced ((qs ++ [q]).map OrNan.num) source) : Feeds 1 qs.length source where
  cursor := by rw [hs.cursor]; simp
  values := by
    rw [hs.data]
    refine ⟨by simp, .of_all fun x hx => ?_⟩
    obtain ⟨y, -, rfl⟩ := List.mem_map.1 hx
    exact OrNan.isNum_num y

theorem Feeds.numeric (h : Feeds 1 t source) : Numeric t source where
  cursor := h.cursor
  within := by rw [h.values.length]; omega
  nums := h.values.starts.all

/-- The last values are all numbers when the oldest of them is. -/
theorem Late.suffix (h : Late ready (t + 1) l) (hready : 0 < ready) (hpos : 0 < period) (hle : period ≤ t + 1) :
    (∀ x ∈ l.drop (t + 1 - period), IsNum x) ↔ ready + period ≤ t + 2 := by
  rw [h.starts.drop (by rw [h.length]; omega)]
  omega

theorem sma_adds {s : StratForge.SMA OrNan} (h : Late ready (t + 1) l) (hready : 0 < ready) (hpos : 0 < s.period) :
    ∃ x, s.next l t = { s with line := s.line ++ [x] } ∧ (IsNum x ↔ ready + s.period ≤ t + 2) := by
  unfold StratForge.SMA.next
  split_ifs with hlt
  · exact ⟨nan, rfl, iff_of_false OrNan.not_isNum_nan (by omega)⟩
  · refine ⟨_, rfl, ?_⟩
    have hwindow : window l t s.period = l.drop (t + 1 - s.period) := by
      rw [window, List.take_of_length_le]
      rw [List.length_drop, h.length]
      omega
    rw [OrNan.isNum_div_ofCount hpos, OrNan.isNum_reduceSum, hwindow, h.suffix hready hpos (by omega)]

theorem weightedSum_isNum {values : List OrNan} : IsNum (WMA.weightedSum values period) ↔ ∀ x ∈ values, IsNum x := by
  have hsum : WMA.weightedSum values period = Simd.reduceSum (values.zipIdx.map fun x => x.1 * Arith.ofCount (period - x.2)) := by
    rw [WMA.weightedSum, Simd.reduceSum, List.foldl_map]
  rw [hsum, OrNan.isNum_reduceSum, List.forall_mem_map]
  constructor
  · intro h x hx
    obtain ⟨i, hi⟩ := List.mem_iff_getElem?.1 hx
    exact (OrNan.isNum_mul.1 (h (x, i) (List.mem_zipIdx_iff_getElem?.2 hi))).1
  · intro h x hx
    exact OrNan.isNum_mul.2 ⟨h _ (List.fst_mem_of_mem_zipIdx hx), OrNan.isNum_num _⟩

theorem wma_adds {w : WMA OrNan} (h : Feeds ready t source) (hready : 0 < ready) (hpos : 0 < w.period) :
    ∃ x, w.next source = some { w with line := w.line ++ [x] } ∧ (IsNum x ↔ ready + w.period ≤ t + 2) := by
  have hlen := h.values.length
  unfold WMA.next
  rw [h.cursor]
  split_ifs with hlt
  · exact ⟨nan, rfl, iff_of_false OrNan.not_isNum_nan (by omega)⟩
  · have hwindow : (source.data.drop (t + 1 - w.period)).take w.period = source.data.drop (t + 1 - w.period) := by
      rw [List.take_of_length_le]
      rw [List.length_drop, hlen]
      omega
    rw [Access.mapM_readBack_eq (by omega) (by omega), hwindow]
    refine ⟨_, rfl, ?_⟩
    rw [WMA.denominator_div hpos, weightedSum_isNum, ← h.values.suffix hready hpos (by omega)]
    simp

/-- Weights for the whole window, numbers all. -/
structure WeightedAverage.Weighted (w : WeightedAverage OrNan) : Prop where
  pos : 0 < w.period
  coef : IsNum w.coef
  enough : w.period ≤ w.weights.length
  nums : ∀ x ∈ w.weights, IsNum x

theorem WeightedAverage.init_weighted (hpos : 0 < period) : (init period (1 : OrNan) []).Weighted := by
  unfold init
  simp only [if_neg hpos.ne', List.isEmpty_nil, if_true, List.length_map, List.length_range, Nat.sub_self, List.replicate_zero,
    List.append_nil]
  refine ⟨hpos, OrNan.isNum_num 1, by simp, fun x hx => ?_⟩
  obtain ⟨i, -, rfl⟩ := List.mem_map.1 hx
  exact OrNan.isNum_num _

theorem WeightedAverage.Weighted.adds {w : WeightedAverage OrNan} (hw : w.Weighted) (h : Feeds ready t source) (hready : 0 < ready) :
    ∃ x, w.next source = some { w with line := w.line ++ [x] } ∧ (IsNum x ↔ ready + w.period ≤ t + 2) := by
  have hlen := h.values.length
  have hpos := hw.pos
  unfold WeightedAverage.next
  rw [h.cursor]
  split_ifs with hlt
  · exact ⟨nan, rfl, iff_of_false OrNan.not_isNum_nan (by omega)⟩
  · have hterms : ∀ i ∈ List.range w.period, ∃ x, (do
        return (← source.data[t + 1 - w.period + i]?) * (← w.weights[i]?) : Option OrNan) = some x ∧
        (IsNum x ↔ ready ≤ t + 1 - w.period + i + 1) := by
      intro i hi
      have hi := List.mem_range.1 hi
      obtain ⟨x, hx, hnum⟩ := h.values.read (i := t + 1 - w.period + i) (by omega)
      have hweight := List.getElem?_eq_getElem (show i < w.weights.length from hi.trans_le hw.enough)
      refine ⟨_, by rw [hx, hweight]; rfl, ?_⟩
      rw [OrNan.isNum_mul, hnum]
      exact and_iff_left (hw.nums _ (List.getElem_mem _))
    obtain ⟨terms, hread, hall⟩ := Access.mapM_iff hterms
    rw [hread]
    refine ⟨_, rfl, ?_⟩
    rw [OrNan.isNum_mul, OrNan.isNum_reduceSum, and_iff_right hw.coef, hall]
    -- the oldest value of the window decides
    constructor
    · intro h
      have := h 0 (List.mem_range.2 hpos)
      omega
    · intro hle i hi
      omega

end

end Indicators
end StratForge
