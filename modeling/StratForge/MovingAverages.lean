import StratForge.Fold
import StratForge.Indicators
import StratForge.Readiness

/-!
# Moving averages (`indicators/ema.hpp`, `wma.hpp`, `dema.hpp`, `tema.hpp`, `kama.hpp`, `macdext.hpp`)

With the access-checked `next` of `Indicators`, and when their outputs are numbers: in exact arithmetic a value is a
number or it is not, and what is computed of numbers is one unless it divides by zero.
-/

namespace StratForge
open Floating (nan isNaN)
open Access (readBack)

/-! ### Numbers -/

namespace OrNan

def IsNum (x : OrNan) : Prop := x ≠ .nan

variable {x y : OrNan}

@[simp] theorem isNum_num (q : ℚ) : IsNum (num q) := fun h => nomatch h

@[simp] theorem not_isNum_nan : ¬ IsNum nan := fun h => h rfl

theorem isNum_iff : IsNum x ↔ ∃ q, x = num q := by
  cases x with
  | num q => exact iff_of_true (isNum_num q) ⟨q, rfl⟩
  | nan => exact iff_of_false not_isNum_nan fun ⟨_, h⟩ => nomatch h

theorem isNaN_iff : isNaN x = true ↔ ¬ IsNum x := by
  show decide (x = .nan) = true ↔ _
  simp [IsNum]

@[simp] theorem isNum_zero : IsNum 0 := isNum_num 0

@[simp] theorem isNum_one : IsNum 1 := isNum_num 1

@[simp] theorem isNum_ofScientific (m : Nat) (s : Bool) (e : Nat) : IsNum (OfScientific.ofScientific m s e) := isNum_num _

@[simp] theorem isNum_ofCount (n : Nat) : IsNum (Arith.ofCount n) := isNum_num _

@[simp] theorem isNum_add : IsNum (x + y) ↔ IsNum x ∧ IsNum y := by
  cases x <;> cases y <;> simp [IsNum, HAdd.hAdd, Add.add, lift]

@[simp] theorem isNum_sub : IsNum (x - y) ↔ IsNum x ∧ IsNum y := by
  cases x <;> cases y <;> simp [IsNum, HSub.hSub, Sub.sub, lift]

@[simp] theorem isNum_mul : IsNum (x * y) ↔ IsNum x ∧ IsNum y := by
  cases x <;> cases y <;> simp [IsNum, HMul.hMul, Mul.mul, lift]

@[simp] theorem isNum_abs : IsNum (Arith.abs x) ↔ IsNum x := by
  cases x <;> simp [IsNum, Arith.abs]

theorem isNum_div_num {q : ℚ} (hq : q ≠ 0) : IsNum (x / num q) ↔ IsNum x := by
  cases x <;> simp [IsNum, HDiv.hDiv, Div.div, lift, hq]

/-- Division by a count, or by a literal. -/
theorem isNum_div_ofScientific {m e : Nat} (hm : 0 < m) (s : Bool) :
    IsNum (x / OfScientific.ofScientific m s e) ↔ IsNum x := by
  refine isNum_div_num ?_
  show (Rat.ofScientific m s e) ≠ 0
  cases s <;> simp [Rat.ofScientific_def, hm.ne']

theorem isNum_div_ofCount {n : Nat} (hn : 0 < n) : IsNum (x / Arith.ofCount n) ↔ IsNum x := isNum_div_ofScientific hn false

@[simp] theorem isNum_half : IsNum (x / 2.0) ↔ IsNum x := isNum_div_ofScientific (Nat.succ_pos 19) true

@[simp] theorem isNum_quarter : IsNum (x / 4.0) ↔ IsNum x := isNum_div_ofScientific (Nat.succ_pos 39) true

/-- Division by what has been compared with zero. -/
theorem isNum_div_of_beq (hx : IsNum x) (hy : IsNum y) (h : (y == 0) = false) : IsNum (x / y) := by
  obtain ⟨q, rfl⟩ := isNum_iff.1 hy
  refine (isNum_div_num fun hq => ?_).2 hx
  subst hq
  exact absurd h (by decide)

theorem isNum_max (hx : IsNum x) (hy : IsNum y) : IsNum (Arith.max x y) := by
  unfold Arith.max
  split_ifs <;> assumption

theorem isNum_min (hx : IsNum x) (hy : IsNum y) : IsNum (Arith.min x y) := by
  unfold Arith.min
  split_ifs <;> assumption

theorem isNum_reduceSum {xs : List OrNan} : IsNum (Simd.reduceSum xs) ↔ ∀ x ∈ xs, IsNum x := by
  have hstrict : Readiness.Strict IsNum (· + ·) := fun a b => isNum_add
  rw [Simd.reduceSum, hstrict.foldl]
  simp

end OrNan

namespace Indicators
variable {α : Type} [Arith α] [Floating α]

/-! ### Averages of a source -/

structure EMA (α : Type) where
  period : Nat
  line : List α := []
  prevEma : α
  initialized : Bool := false

namespace EMA

def init (period : Nat) : EMA α := { period := if period = 0 then 1 else period, prevEma := 0 }

/-- The average is that of `MACD`. -/
def next (source : Line α) (e : EMA α) : Option (EMA α) :=
  if source.idx + 1 < e.period then some { e with line := e.line ++ [nan] }
  else do
    let ema ← MACD.average source e.period e.initialized e.prevEma
    return { e with line := e.line ++ [ema], prevEma := ema, initialized := true }

end EMA

structure WMA (α : Type) where
  period : Nat
  line : List α := []

namespace WMA

def denominator (period : Nat) : α := Arith.ofCount (period * (period + 1)) / 2.0

/-- The newest value weighs most. -/
def weightedSum (values : List α) (period : Nat) : α :=
  values.zipIdx.foldl (fun sum x => sum + x.1 * Arith.ofCount (period - x.2)) 0

def next (source : Line α) (w : WMA α) : Option (WMA α) :=
  if source.idx + 1 < w.period then some { w with line := w.line ++ [nan] }
  else do
    let values ← (List.range w.period).mapM (readBack source.data source.idx)
    return { w with line := w.line ++ [weightedSum values w.period / denominator w.period] }

end WMA

/-- An average of averages: seeded from the last of them, and advanced with the newest. -/
def smoothed (values : List α) (current : α) (period : Nat) (initialized : Bool) (prev : α) : Option α :=
  if !initialized then averageBack values (values.length - 1) period
  else some (MACD.advanceEma current prev (MACD.multiplier period))

structure DoubleExponentialMovingAverage (α : Type) where
  period : Nat
  line : List α := []
  ema1 : List α := []
  ema1Prev : α
  ema2Prev : α
  ema1Initialized : Bool := false
  ema2Initialized : Bool := false

namespace DoubleExponentialMovingAverage

def init (period : Nat) : DoubleExponentialMovingAverage α := { period, ema1Prev := 0, ema2Prev := 0 }

def nextEma1 (source : Line α) (d : DoubleExponentialMovingAverage α) : Option (DoubleExponentialMovingAverage α) := do
  let ema1Prev ← MACD.average source d.period d.ema1Initialized d.ema1Prev
  return { d with ema1 := d.ema1 ++ [ema1Prev], ema1Prev, ema1Initialized := true }

def nextEma2 (d : DoubleExponentialMovingAverage α) : Option (DoubleExponentialMovingAverage α) := do
  let ema2Prev ← smoothed d.ema1 d.ema1Prev d.period d.ema2Initialized d.ema2Prev
  return { d with ema2Prev, ema2Initialized := true, line := d.line ++ [2.0 * d.ema1Prev - ema2Prev] }

def next (source : Line α) (d : DoubleExponentialMovingAverage α) : Option (DoubleExponentialMovingAverage α) :=
  if source.idx + 1 < d.period then some { d with line := d.line ++ [nan], ema1 := d.ema1 ++ [nan] }
  else do
    let d ← d.nextEma1 source
    if d.ema1.length < d.period ∨ ¬ 2 * d.period - 1 ≤ d.ema1.length then some { d with line := d.line ++ [nan] }
    else d.nextEma2

end DoubleExponentialMovingAverage

structure TripleExponentialMovingAverage (α : Type) where
  period : Nat
  line : List α := []
  ema1 : List α := []
  ema2 : List α := []
  ema1Prev : α
  ema2Prev : α
  ema3Prev : α
  ema1Initialized : Bool := false
  ema2Initialized : Bool := false
  ema3Initialized : Bool := false

namespace TripleExponentialMovingAverage

def init (period : Nat) : TripleExponentialMovingAverage α := { period, ema1Prev := 0, ema2Prev := 0, ema3Prev := 0 }

def nextEma1 (source : Line α) (t : TripleExponentialMovingAverage α) : Option (TripleExponentialMovingAverage α) := do
  let ema1Prev ← MACD.average source t.period t.ema1Initialized t.ema1Prev
  return { t with ema1 := t.ema1 ++ [ema1Prev], ema1Prev, ema1Initialized := true }

def nextEma2 (t : TripleExponentialMovingAverage α) : Option (TripleExponentialMovingAverage α) := do
  let ema2Prev ← smoothed t.ema1 t.ema1Prev t.period t.ema2Initialized t.ema2Prev
  return { t with ema2 := t.ema2 ++ [ema2Prev], ema2Prev, ema2Initialized := true }

def nextEma3 (t : TripleExponentialMovingAverage α) : Option (TripleExponentialMovingAverage α) := do
  let ema3Prev ← smoothed t.ema2 t.ema2Prev t.period t.ema3Initialized t.ema3Prev
  return { t with ema3Prev, ema3Initialized := true,
                  line := t.line ++ [3.0 * t.ema1Prev - 3.0 * t.ema2Prev + ema3Prev] }

def next (source : Line α) (t : TripleExponentialMovingAverage α) : Option (TripleExponentialMovingAverage α) :=
  if source.idx + 1 < t.period then
    some { t with line := t.line ++ [nan], ema1 := t.ema1 ++ [nan], ema2 := t.ema2 ++ [nan] }
  else do
    let t ← t.nextEma1 source
    if ¬ 2 * t.period - 1 ≤ t.ema1.length then some { t with ema2 := t.ema2 ++ [nan], line := t.line ++ [nan] }
    else
      let t ← t.nextEma2
      if ¬ 3 * t.period - 2 ≤ t.ema2.length then some { t with line := t.line ++ [nan] } else t.nextEma3

end TripleExponentialMovingAverage

structure AdaptiveMovingAverage (α : Type) where
  period : Nat
  fast : α
  slow : α
  line : List α := []
  prevKama : α
  initialized : Bool := false

namespace AdaptiveMovingAverage

def init (period fast slow : Nat) : AdaptiveMovingAverage α :=
  { period, fast := 2.0 / (Arith.ofCount fast + 1), slow := 2.0 / (Arith.ofCount slow + 1), prevKama := 0 }

/-- How far the price has come, of how far it has gone. -/
def efficiencyRatio (direction volatility : α) : α := if volatility == 0 then 0 else direction / volatility

def advance (current direction volatility : α) (k : AdaptiveMovingAverage α) : α :=
  let smoothing := efficiencyRatio direction volatility * (k.fast - k.slow) + k.slow
  let smoothingConstant := smoothing * smoothing
  k.prevKama * (1 - smoothingConstant) + current * smoothingConstant

def kama (source : Line α) (k : AdaptiveMovingAverage α) : Option α :=
  if !k.initialized then averageBack source.data source.idx k.period
  else do
    let current ← source.data[source.idx]?
    let before ← readBack source.data source.idx k.period
    let newer ← (List.range k.period).mapM (readBack source.data source.idx)
    let older ← (List.range k.period).mapM fun i => readBack source.data source.idx (i + 1)
    let volatility := Simd.reduceSum (List.zipWith (fun x y => Arith.abs (x - y)) newer older)
    return k.advance current (Arith.abs (current - before)) volatility

def next (source : Line α) (k : AdaptiveMovingAverage α) : Option (AdaptiveMovingAverage α) :=
  if source.idx < k.period then some { k with line := k.line ++ [nan] }
  else do
    let prevKama ← k.kama source
    return { k with line := k.line ++ [prevKama], prevKama, initialized := true }

end AdaptiveMovingAverage

/-! ### MACDExt -/

inductive MaType
  | SMA | EMA | WMA | DEMA | TEMA
deriving DecidableEq

/-- What a `std::unique_ptr<IndicatorBase>` of `make_ma` points to. -/
inductive Ma (α : Type)
  | sma (s : StratForge.SMA α)
  | ema (e : EMA α)
  | wma (w : WMA α)
  | dema (d : DoubleExponentialMovingAverage α)
  | tema (t : TripleExponentialMovingAverage α)

namespace Ma

/-- `make_ma`. -/
def make (period : Nat) : MaType → Ma α
  | .SMA => sma { period := if period = 0 then 1 else period }
  | .EMA => ema (.init period)
  | .WMA => wma { period }
  | .DEMA => dema (.init period)
  | .TEMA => tema (.init period)

def next (source : Line α) : Ma α → Option (Ma α)
  | sma s => some (sma (s.next source.data source.idx))
  | ema e => (e.next source).map ema
  | wma w => (w.next source).map wma
  | dema d => (d.next source).map dema
  | tema t => (t.next source).map tema

def line : Ma α → List α
  | sma s => s.line
  | ema e => e.line
  | wma w => w.line
  | dema d => d.line
  | tema t => t.line

def minimumPeriod : Ma α → Nat
  | sma s => s.period
  | ema e => e.period
  | wma w => w.period
  | dema d => 2 * d.period - 1
  | tema t => 3 * t.period - 2

end Ma

structure MACDExt (α : Type) where
  fastPeriod : Nat
  slowPeriod : Nat
  signalPeriod : Nat
  fast : Ma α
  slow : Ma α
  signalMaType : MaType
  signalInd : Option (Ma α) := none
  /-- The source of the signal. -/
  macdLine : Line α := {}
  line : List α := []
  signal : List α := []
  histogram : List α := []

namespace MACDExt

def init (fastPeriod : Nat) (fastMa : MaType) (slowPeriod : Nat) (slowMa : MaType) (signalPeriod : Nat) (signalMa : MaType) :
    MACDExt α :=
  { fastPeriod, slowPeriod, signalPeriod, fast := .make fastPeriod fastMa, slow := .make slowPeriod slowMa,
    signalMaType := signalMa }

/-- The signal is advanced over what the line holds already. -/
def replay (macdLine : Line α) (ind : Ma α) : Option (Line α × Ma α) := do
  let st ← (List.range (macdLine.size - 1)).foldlM (fun st _ => do return (st.1.advance, ← st.2.next st.1))
    (macdLine.home, ind)
  return (st.1, ← st.2.next st.1)

def advanceSignal (m : MACDExt α) : Option (Line α × Ma α) :=
  match m.signalInd with
  | none => replay m.macdLine (.make m.signalPeriod m.signalMaType)
  | some ind => (ind.next m.macdLine).map fun ind => (m.macdLine, ind)

def nextSignal (macdVal : α) (m : MACDExt α) : Option (MACDExt α) := do
  let (macdLine, ind) ← m.advanceSignal
  let sig ← ind.line.getLast?
  return { m with macdLine, signalInd := some ind, signal := m.signal ++ [sig],
                  histogram := m.histogram ++ [if isNaN sig then nan else macdVal - sig] }

def next (source : Line α) (m : MACDExt α) : Option (MACDExt α) := do
  let fast ← m.fast.next source
  let slow ← m.slow.next source
  let fastVal ← fast.line.getLast?
  let slowVal ← slow.line.getLast?
  let m := { m with fast, slow }
  if isNaN fastVal || isNaN slowVal then
    return { m with line := m.line ++ [nan], signal := m.signal ++ [nan], histogram := m.histogram ++ [nan] }
  else
    let macdVal := fastVal - slowVal
    { m with line := m.line ++ [macdVal], macdLine := m.macdLine.forward macdVal }.nextSignal macdVal

end MACDExt

/-! ### When they are numbers -/

section Ready
open OrNan (IsNum)
open Readiness (StartsAt)

/-- A source of numbers with the cursor at `t`. -/
structure Numeric (t : Nat) (source : Line OrNan) : Prop where
  cursor : source.idx = t
  within : t < source.data.length
  nums : ∀ x ∈ source.data, IsNum x

/-- An output line after `t` calls, a number from bar `ready` on. -/
structure Late (ready t : Nat) (line : List OrNan) : Prop where
  length : line.length = t
  starts : StartsAt IsNum (ready - 1) line

variable {source : Line OrNan} {t period ready idx count k : Nat} {l out : List OrNan} {x prev : OrNan}

theorem Numeric.startsAt (h : Numeric t source) : StartsAt IsNum 0 source.data := .of_all h.nums

theorem Numeric.read (h : Numeric t source) : ∃ q, source.data[source.idx]? = some (.num q) := by
  have hget := List.getElem?_eq_getElem h.within
  obtain ⟨q, hq⟩ := OrNan.isNum_iff.1 (h.nums _ (List.mem_of_getElem? hget))
  exact ⟨q, by rw [h.cursor, hget, hq]⟩

theorem Numeric.readBack {i : Nat} (h : Numeric t source) (hi : i ≤ t) :
    ∃ q, readBack source.data source.idx i = some (.num q) := by
  have hlt : t - i < source.data.length := (Nat.sub_le t i).trans_lt h.within
  have hget := List.getElem?_eq_getElem hlt
  obtain ⟨q, hq⟩ := OrNan.isNum_iff.1 (h.nums _ (List.mem_of_getElem? hget))
  exact ⟨q, by rw [h.cursor, Access.readBack, if_pos hi, hget, hq]⟩

theorem Late.nil : Late ready 0 [] := ⟨rfl, .nil⟩

theorem Late.snoc (h : Late ready t out) (hready : 0 < ready) (hx : IsNum x ↔ ready ≤ t + 1) :
    Late ready (t + 1) (out ++ [x]) := by
  refine ⟨by rw [List.length_append, h.length, List.length_singleton], h.starts.snoc ?_⟩
  rw [hx, h.length]
  omega

theorem Late.snoc_nan (h : Late ready t out) (hready : t + 1 < ready) : Late ready (t + 1) (out ++ [nan]) :=
  h.snoc (by omega) (iff_of_false OrNan.not_isNum_nan (by omega))

theorem Late.snoc_num (h : Late ready t out) (hpos : 0 < ready) (hready : ready ≤ t + 1) (hx : IsNum x) :
    Late ready (t + 1) (out ++ [x]) := h.snoc hpos (iff_of_true hx hready)

/-- The value put out last. -/
theorem Late.last (h : Late ready (t + 1) out) : ∃ x, out.getLast? = some x ∧ (IsNum x ↔ ready ≤ t + 1) := by
  cases hlast : out.getLast? with
  | none =>
    have hlen := h.length
    rw [List.getLast?_eq_none_iff.1 hlast] at hlen
    cases hlen
  | some x =>
    refine ⟨x, rfl, ?_⟩
    rw [h.starts.last hlast, h.length]
    omega

theorem Late.read {i : Nat} (h : Late ready t l) (hi : i < t) : ∃ x, l[i]? = some x ∧ (IsNum x ↔ ready ≤ i + 1) := by
  have hget := List.getElem?_eq_getElem (l := l) (i := i) (by rw [h.length]; exact hi)
  exact ⟨_, hget, (h.starts i _ hget).trans (by omega)⟩

/-- The values that a loop reads. -/
theorem mapM_readBack (hidx : idx < l.length) (hcount : count ≤ idx + 1) :
    (List.range count).mapM (Access.readBack l idx) = some ((List.range count).map fun i => l[idx - i]?.getD 0) := by
  refine Access.mapM_eq_some fun i hi => ?_
  rw [Access.readBack, if_pos (by have := List.mem_range.1 hi; omega),
    List.getElem?_eq_getElem (show idx - i < l.length by omega)]
  rfl

theorem Numeric.window (h : Numeric t source) (hcount : count ≤ t + 1) :
    ∃ values, (List.range count).mapM (Access.readBack source.data source.idx) = some values ∧ ∀ x ∈ values, IsNum x := by
  refine Access.mapM_all fun i hi => ?_
  obtain ⟨q, hq⟩ := h.readBack (i := i) (by have := List.mem_range.1 hi; omega)
  exact ⟨.num q, hq, OrNan.isNum_num q⟩

/-- The average of a window is a number when the oldest value in it is. -/
theorem averageBack_late (h : StartsAt IsNum k l) (hidx : idx < l.length) (hpos : 0 < count) (hcount : count ≤ idx + 1) :
    ∃ v, averageBack l idx count = some v ∧ (IsNum v ↔ k + count ≤ idx + 1) := by
  refine ⟨Simd.reduceSum ((List.range count).map fun i => l[idx - i]?.getD 0) / Arith.ofCount count, ?_, ?_⟩
  · unfold averageBack sumBack
    rw [mapM_readBack hidx hcount]
    rfl
  · rw [OrNan.isNum_div_ofCount hpos, OrNan.isNum_reduceSum, ← h.window hidx hpos hcount]
    constructor
    · intro hall i hi x hx
      refine hall x (List.mem_map.2 ⟨i, List.mem_range.2 hi, ?_⟩)
      rw [Access.readBack, if_pos (by omega)] at hx
      rw [hx]
      rfl
    · intro hall x hx
      obtain ⟨i, hi, rfl⟩ := List.mem_map.1 hx
      have hi := List.mem_range.1 hi
      have hget := List.getElem?_eq_getElem (show idx - i < l.length by omega)
      rw [hget, Option.getD_some]
      exact hall i hi _ (by rw [Access.readBack, if_pos (by omega), hget])

theorem advanceEma_num {current multiplier : OrNan} (hc : IsNum current) (hp : IsNum prev) (hm : IsNum multiplier) :
    IsNum (MACD.advanceEma current prev multiplier) := by
  simp [MACD.advanceEma, hc, hp, hm]

theorem multiplier_num (period : Nat) : IsNum (MACD.multiplier period) := by
  have hsum : (Arith.ofCount period + 1 : OrNan) = .num (period + 1) := by
    show OrNan.num (Rat.ofScientific period false 0 + 1) = _
    simp [Rat.ofScientific_def]
  rw [MACD.multiplier, hsum, OrNan.isNum_div_num (by positivity)]
  exact OrNan.isNum_ofScientific _ _ _

/-- The running average of a source. -/
theorem average_num (h : Numeric t source) (hpos : 0 < period) (hle : period ≤ t + 1) (hprev : IsNum prev)
    (initialized : Bool) : ∃ v, MACD.average source period initialized prev = some v ∧ IsNum v := by
  unfold MACD.average
  cases initialized with
  | false =>
    obtain ⟨v, hv, hnum⟩ := averageBack_late h.startsAt (h.cursor ▸ h.within) hpos (h.cursor ▸ hle)
    exact ⟨v, hv, hnum.2 (by rw [h.cursor]; omega)⟩
  | true =>
    obtain ⟨q, hq⟩ := h.read
    refine ⟨_, by simp only [hq]; rfl, advanceEma_num (OrNan.isNum_num q) hprev (multiplier_num period)⟩

/-- The running average of averages. -/
theorem smoothed_num (h : Late ready t l) (hready : 0 < ready) (hpos : 0 < period) (hle : ready + period ≤ t + 1)
    {current : OrNan} (hc : IsNum current) (hprev : IsNum prev) (initialized : Bool) :
    ∃ v, smoothed l current period initialized prev = some v ∧ IsNum v := by
  unfold smoothed
  cases initialized with
  | false =>
    obtain ⟨v, hv, hnum⟩ := averageBack_late h.starts
      (show l.length - 1 < l.length by rw [h.length]; omega) hpos (by rw [h.length]; omega)
    exact ⟨v, hv, hnum.2 (by rw [h.length]; omega)⟩
  | true => exact ⟨_, rfl, advanceEma_num hc hprev (multiplier_num period)⟩

/-! Each of the averages after `t` bars of numbers, and one bar more. -/

/-- A simple average. -/
structure SmaAfter (t : Nat) (s : StratForge.SMA OrNan) : Prop where
  pos : 0 < s.period
  line : Late s.period t s.line

theorem SmaAfter.next {s : StratForge.SMA OrNan} (h : SmaAfter t s) (hs : Numeric t source) :
    SmaAfter (t + 1) (s.next source.data source.idx) ∧ (s.next source.data source.idx).period = s.period := by
  unfold StratForge.SMA.next
  rw [hs.cursor]
  split_ifs with hlt
  · exact ⟨⟨h.pos, h.line.snoc_nan hlt⟩, rfl⟩
  · refine ⟨⟨h.pos, h.line.snoc_num h.pos (by omega) ?_⟩, rfl⟩
    rw [OrNan.isNum_div_ofCount h.pos, OrNan.isNum_reduceSum]
    exact fun x hx => hs.nums x (List.mem_of_mem_drop (List.mem_of_mem_take hx))

structure EMA.After (t : Nat) (e : EMA OrNan) : Prop where
  pos : 0 < e.period
  line : Late e.period t e.line
  prev : IsNum e.prevEma

theorem EMA.After.next {e : EMA OrNan} (h : e.After t) (hs : Numeric t source) :
    ∃ e', e.next source = some e' ∧ e'.After (t + 1) ∧ e'.period = e.period := by
  unfold EMA.next
  rw [hs.cursor]
  split_ifs with hlt
  · exact ⟨_, rfl, ⟨h.pos, h.line.snoc_nan hlt, h.prev⟩, rfl⟩
  · obtain ⟨v, hv, hnum⟩ := average_num hs h.pos (by omega) h.prev e.initialized
    rw [hv]
    exact ⟨_, rfl, ⟨h.pos, h.line.snoc_num h.pos (by omega) hnum, hnum⟩, rfl⟩

structure WMA.After (t : Nat) (w : WMA OrNan) : Prop where
  pos : 0 < w.period
  line : Late w.period t w.line

theorem WMA.weightedSum_num {values : List OrNan} (h : ∀ x ∈ values, IsNum x) (period : Nat) :
    IsNum (WMA.weightedSum values period) := by
  refine Fold.foldl_ind (fun sum : OrNan => IsNum sum) _ _ OrNan.isNum_zero fun sum x hx hsum => ?_
  simp [hsum, h _ (List.fst_mem_of_mem_zipIdx hx)]

theorem WMA.denominator_div {period : Nat} (hpos : 0 < period) : IsNum (x / WMA.denominator period) ↔ IsNum x := by
  have hden : (WMA.denominator period : OrNan) = if Rat.ofScientific 20 true 1 = 0 then .nan
    else .num (Rat.ofScientific (period * (period + 1)) false 0 / Rat.ofScientific 20 true 1) := rfl
  have htwo : Rat.ofScientific 20 true 1 ≠ 0 := by
    rw [Rat.ofScientific_def]
    norm_num
  have hcount : Rat.ofScientific (period * (period + 1)) false 0 ≠ 0 := by
    simp [Rat.ofScientific_def, hpos.ne', Nat.cast_add_one_ne_zero]
  rw [hden, if_neg htwo, OrNan.isNum_div_num (div_ne_zero hcount htwo)]

theorem WMA.After.next {w : WMA OrNan} (h : w.After t) (hs : Numeric t source) :
    ∃ w', w.next source = some w' ∧ w'.After (t + 1) ∧ w'.period = w.period := by
  unfold WMA.next
  rw [hs.cursor]
  split_ifs with hlt
  · exact ⟨_, rfl, ⟨h.pos, h.line.snoc_nan hlt⟩, rfl⟩
  · obtain ⟨values, hv, hnums⟩ := hs.window (show w.period ≤ t + 1 by omega)
    rw [hs.cursor] at hv
    rw [hv]
    refine ⟨_, rfl, ⟨h.pos, h.line.snoc_num h.pos (by omega) ?_⟩, rfl⟩
    exact (WMA.denominator_div h.pos).2 (WMA.weightedSum_num hnums _)

namespace DoubleExponentialMovingAverage
variable {d d' : DoubleExponentialMovingAverage OrNan}

/-- After `t` bars, of which the first average has had `t'` already. -/
structure Between (t t' : Nat) (d : DoubleExponentialMovingAverage OrNan) : Prop where
  pos : 0 < d.period
  line : Late (2 * d.period - 1) t d.line
  ema1 : Late d.period t' d.ema1
  ema1Prev : IsNum d.ema1Prev
  ema2Prev : IsNum d.ema2Prev

def After (t : Nat) : DoubleExponentialMovingAverage OrNan → Prop := Between t t

theorem Between.nextEma1 (h : d.Between t t) (hs : Numeric t source) (hle : d.period ≤ t + 1) :
    ∃ d', d.nextEma1 source = some d' ∧ d'.Between t (t + 1) ∧ d'.period = d.period := by
  obtain ⟨v, hv, hnum⟩ := average_num hs h.pos hle h.ema1Prev d.ema1Initialized
  unfold DoubleExponentialMovingAverage.nextEma1
  rw [hv]
  exact ⟨_, rfl, ⟨h.pos, h.line, h.ema1.snoc_num h.pos hle hnum, hnum, h.ema2Prev⟩, rfl⟩

theorem Between.nextEma2 (h : d.Between t (t + 1)) (hle : 2 * d.period - 1 ≤ t + 1) :
    ∃ d', d.nextEma2 = some d' ∧ d'.After (t + 1) ∧ d'.period = d.period := by
  have hpos := h.pos
  obtain ⟨v, hv, hnum⟩ := smoothed_num h.ema1 h.pos h.pos (by omega) h.ema1Prev h.ema2Prev d.ema2Initialized
  unfold DoubleExponentialMovingAverage.nextEma2
  rw [hv]
  exact ⟨_, rfl, ⟨h.pos, h.line.snoc_num (by omega) hle (by simp [h.ema1Prev, hnum]), h.ema1, h.ema1Prev, hnum⟩, rfl⟩

theorem After.next (h : d.After t) (hs : Numeric t source) :
    ∃ d', d.next source = some d' ∧ d'.After (t + 1) ∧ d'.period = d.period := by
  have hpos : 0 < d.period := h.pos
  unfold DoubleExponentialMovingAverage.next
  split_ifs with hlt
  · rw [hs.cursor] at hlt
    exact ⟨_, rfl, ⟨h.pos, h.line.snoc_nan (by omega), h.ema1.snoc_nan hlt, h.ema1Prev, h.ema2Prev⟩, rfl⟩
  · rw [hs.cursor] at hlt
    obtain ⟨d₁, h₁, hbetween, hperiod⟩ := Between.nextEma1 h hs (by omega)
    rw [h₁, Option.bind_eq_bind, Option.bind_some, hbetween.ema1.length]
    split_ifs with hready
    · exact ⟨_, rfl, ⟨hbetween.pos, hbetween.line.snoc_nan (by omega), hbetween.ema1, hbetween.ema1Prev,
        hbetween.ema2Prev⟩, hperiod⟩
    · obtain ⟨d₂, h₂, hafter, hperiod₂⟩ := hbetween.nextEma2 (by omega)
      exact ⟨d₂, h₂, hafter, hperiod₂.trans hperiod⟩

end DoubleExponentialMovingAverage

namespace TripleExponentialMovingAverage
variable {d d' : TripleExponentialMovingAverage OrNan}

/-- After `t` bars, of which the first two averages have had `t₁` and `t₂` already. -/
structure Between (t t₁ t₂ : Nat) (d : TripleExponentialMovingAverage OrNan) : Prop where
  pos : 0 < d.period
  line : Late (3 * d.period - 2) t d.line
  ema1 : Late d.period t₁ d.ema1
  ema2 : Late (2 * d.period - 1) t₂ d.ema2
  ema1Prev : IsNum d.ema1Prev
  ema2Prev : IsNum d.ema2Prev
  ema3Prev : IsNum d.ema3Prev

def After (t : Nat) : TripleExponentialMovingAverage OrNan → Prop := Between t t t

theorem Between.nextEma1 (h : d.Between t t t) (hs : Numeric t source) (hle : d.period ≤ t + 1) :
    ∃ d', d.nextEma1 source = some d' ∧ d'.Between t (t + 1) t ∧ d'.period = d.period := by
  obtain ⟨v, hv, hnum⟩ := average_num hs h.pos hle h.ema1Prev d.ema1Initialized
  unfold TripleExponentialMovingAverage.nextEma1
  rw [hv]
  exact ⟨_, rfl, ⟨h.pos, h.line, h.ema1.snoc_num h.pos hle hnum, h.ema2, hnum, h.ema2Prev, h.ema3Prev⟩, rfl⟩

theorem Between.nextEma2 (h : d.Between t (t + 1) t) (hle : 2 * d.period - 1 ≤ t + 1) :
    ∃ d', d.nextEma2 = some d' ∧ d'.Between t (t + 1) (t + 1) ∧ d'.period = d.period := by
  have hpos := h.pos
  obtain ⟨v, hv, hnum⟩ := smoothed_num h.ema1 h.pos h.pos (by omega) h.ema1Prev h.ema2Prev d.ema2Initialized
  unfold TripleExponentialMovingAverage.nextEma2
  rw [hv]
  exact ⟨_, rfl, ⟨h.pos, h.line, h.ema1, h.ema2.snoc_num (by omega) hle hnum, h.ema1Prev, hnum, h.ema3Prev⟩, rfl⟩

theorem Between.nextEma3 (h : d.Between t (t + 1) (t + 1)) (hle : 3 * d.period - 2 ≤ t + 1) :
    ∃ d', d.nextEma3 = some d' ∧ d'.After (t + 1) ∧ d'.period = d.period := by
  have hpos := h.pos
  obtain ⟨v, hv, hnum⟩ := smoothed_num h.ema2 (by omega) h.pos (by omega) h.ema2Prev h.ema3Prev d.ema3Initialized
  unfold TripleExponentialMovingAverage.nextEma3
  rw [hv]
  refine ⟨_, rfl, ⟨h.pos, h.line.snoc_num (by omega) hle ?_, h.ema1, h.ema2, h.ema1Prev, h.ema2Prev, hnum⟩, rfl⟩
  simp [h.ema1Prev, h.ema2Prev, hnum]

theorem After.next (h : d.After t) (hs : Numeric t source) :
    ∃ d', d.next source = some d' ∧ d'.After (t + 1) ∧ d'.period = d.period := by
  have hpos : 0 < d.period := h.pos
  unfold TripleExponentialMovingAverage.next
  split_ifs with hlt
  · rw [hs.cursor] at hlt
    exact ⟨_, rfl, ⟨h.pos, h.line.snoc_nan (by omega), h.ema1.snoc_nan hlt, h.ema2.snoc_nan (by omega), h.ema1Prev,
      h.ema2Prev, h.ema3Prev⟩, rfl⟩
  · rw [hs.cursor] at hlt
    obtain ⟨d₁, h₁, hb₁, hperiod₁⟩ := Between.nextEma1 h hs (by omega)
    rw [h₁, Option.bind_eq_bind, Option.bind_some, hb₁.ema1.length]
    split_ifs with hready₂
    · obtain ⟨d₂, h₂, hb₂, hperiod₂⟩ := hb₁.nextEma2 (by omega)
      rw [h₂, Option.bind_some, hb₂.ema2.length]
      split_ifs with hready₃
      · obtain ⟨d₃, h₃, hafter, hperiod₃⟩ := hb₂.nextEma3 (by omega)
        exact ⟨d₃, h₃, hafter, hperiod₃.trans (hperiod₂.trans hperiod₁)⟩
      · exact ⟨_, rfl, ⟨hb₂.pos, hb₂.line.snoc_nan (by omega), hb₂.ema1, hb₂.ema2, hb₂.ema1Prev, hb₂.ema2Prev,
          hb₂.ema3Prev⟩, hperiod₂.trans hperiod₁⟩
    · exact ⟨_, rfl, ⟨hb₁.pos, hb₁.line.snoc_nan (by omega), hb₁.ema1, hb₁.ema2.snoc_nan (by omega), hb₁.ema1Prev,
        hb₁.ema2Prev, hb₁.ema3Prev⟩, hperiod₁⟩

end TripleExponentialMovingAverage

namespace AdaptiveMovingAverage
variable {k : AdaptiveMovingAverage OrNan}

structure After (t : Nat) (k : AdaptiveMovingAverage OrNan) : Prop where
  pos : 0 < k.period
  fast : IsNum k.fast
  slow : IsNum k.slow
  line : Late (k.period + 1) t k.line
  prev : IsNum k.prevKama

theorem init_after (hpos : 0 < period) (fast slow : Nat) : (init period fast slow : AdaptiveMovingAverage OrNan).After 0 :=
  ⟨hpos, multiplier_num fast, multiplier_num slow, .nil, OrNan.isNum_zero⟩

theorem efficiencyRatio_num {direction volatility : OrNan} (hd : IsNum direction) (hv : IsNum volatility) :
    IsNum (efficiencyRatio direction volatility) := by
  unfold efficiencyRatio
  cases hzero : volatility == 0 with
  | true => exact OrNan.isNum_zero
  | false => exact OrNan.isNum_div_of_beq hd hv hzero

theorem After.kama (h : k.After t) (hs : Numeric t source) (hle : k.period ≤ t) :
    ∃ v, k.kama source = some v ∧ IsNum v := by
  unfold AdaptiveMovingAverage.kama
  cases k.initialized with
  | false =>
    obtain ⟨v, hv, hnum⟩ := averageBack_late hs.startsAt (hs.cursor ▸ hs.within) h.pos (by rw [hs.cursor]; omega)
    exact ⟨v, hv, hnum.2 (by rw [hs.cursor]; omega)⟩
  | true =>
    obtain ⟨current, hcurrent⟩ := hs.read
    obtain ⟨before, hbefore⟩ := hs.readBack hle
    obtain ⟨newer, hnewer, hnewers⟩ := hs.window (show k.period ≤ t + 1 by omega)
    obtain ⟨older, holder, holders⟩ : ∃ older, (List.range k.period).mapM
        (fun i => Access.readBack source.data source.idx (i + 1)) = some older ∧ ∀ x ∈ older, IsNum x := by
      refine Access.mapM_all fun i hi => ?_
      obtain ⟨q, hq⟩ := hs.readBack (i := i + 1) (by have := List.mem_range.1 hi; omega)
      exact ⟨.num q, hq, OrNan.isNum_num q⟩
    simp only [hcurrent, hbefore, hnewer, holder]
    refine ⟨_, rfl, ?_⟩
    have hvolatility : IsNum (Simd.reduceSum (List.zipWith (fun x y => Arith.abs (x - y)) newer older)) := by
      rw [← List.map_uncurry_zip_eq_zipWith, OrNan.isNum_reduceSum]
      rintro _ hx
      obtain ⟨⟨x, y⟩, hxy, rfl⟩ := List.mem_map.1 hx
      obtain ⟨hx, hy⟩ := List.of_mem_zip hxy
      simp [hnewers x hx, holders y hy]
    have hratio := efficiencyRatio_num (show IsNum (Arith.abs (.num current - .num before)) by simp) hvolatility
    simp [advance, h.prev, h.fast, h.slow, hratio]

theorem After.next (h : k.After t) (hs : Numeric t source) :
    ∃ k', k.next source = some k' ∧ k'.After (t + 1) ∧ k'.period = k.period := by
  unfold AdaptiveMovingAverage.next
  split_ifs with hlt
  · rw [hs.cursor] at hlt
    exact ⟨_, rfl, ⟨h.pos, h.fast, h.slow, h.line.snoc_nan (by omega), h.prev⟩, rfl⟩
  · rw [hs.cursor] at hlt
    obtain ⟨v, hv, hnum⟩ := h.kama hs (by omega)
    rw [hv]
    exact ⟨_, rfl, ⟨h.pos, h.fast, h.slow, h.line.snoc_num (by omega) (by omega) hnum, hnum⟩, rfl⟩

end AdaptiveMovingAverage

/-! ### MACD and MACDExt -/

namespace Ma
variable {m : Ma OrNan}

/-- An average after `t` bars. -/
def After (t : Nat) : Ma OrNan → Prop
  | sma s => SmaAfter t s
  | ema e => e.After t
  | wma w => w.After t
  | dema d => d.After t
  | tema d => d.After t

theorem After.line (h : m.After t) : Late m.minimumPeriod t m.line := by
  cases m with
  | sma s => exact SmaAfter.line h
  | ema e => exact EMA.After.line h
  | wma w => exact WMA.After.line h
  | dema d => exact DoubleExponentialMovingAverage.Between.line h
  | tema d => exact TripleExponentialMovingAverage.Between.line h

theorem After.pos (h : m.After t) : 0 < m.minimumPeriod := by
  cases m with
  | sma s => exact SmaAfter.pos h
  | ema e => exact EMA.After.pos h
  | wma w => exact WMA.After.pos h
  | dema d =>
    have hpos : 0 < d.period := DoubleExponentialMovingAverage.Between.pos h
    show 0 < 2 * d.period - 1
    omega
  | tema d =>
    have hpos : 0 < d.period := TripleExponentialMovingAverage.Between.pos h
    show 0 < 3 * d.period - 2
    omega

theorem After.next (h : m.After t) (hs : Numeric t source) :
    ∃ m', m.next source = some m' ∧ m'.After (t + 1) ∧ m'.minimumPeriod = m.minimumPeriod := by
  cases m with
  | sma s =>
    obtain ⟨hafter, hperiod⟩ := SmaAfter.next h hs
    exact ⟨_, rfl, hafter, hperiod⟩
  | ema e =>
    obtain ⟨e', he, hafter, hperiod⟩ := EMA.After.next h hs
    exact ⟨ema e', congrArg (Option.map ema) he, hafter, hperiod⟩
  | wma w =>
    obtain ⟨w', hw, hafter, hperiod⟩ := WMA.After.next h hs
    exact ⟨wma w', congrArg (Option.map wma) hw, hafter, hperiod⟩
  | dema d =>
    obtain ⟨d', hd, hafter, hperiod⟩ := DoubleExponentialMovingAverage.After.next h hs
    exact ⟨dema d', congrArg (Option.map dema) hd, hafter, congrArg (2 * · - 1) hperiod⟩
  | tema d =>
    obtain ⟨d', hd, hafter, hperiod⟩ := TripleExponentialMovingAverage.After.next h hs
    exact ⟨tema d', congrArg (Option.map tema) hd, hafter, congrArg (3 * · - 2) hperiod⟩

theorem make_after (hpos : 0 < period) (type : MaType) : (make period type : Ma OrNan).After 0 := by
  cases type with
  | SMA => exact ⟨by show 0 < if period = 0 then 1 else period; rw [if_neg hpos.ne']; exact hpos, .nil⟩
  | EMA =>
    refine ⟨?_, .nil, OrNan.isNum_zero⟩
    show 0 < if period = 0 then 1 else period
    rw [if_neg hpos.ne']
    exact hpos
  | WMA => exact ⟨hpos, .nil⟩
  | DEMA => exact ⟨hpos, .nil, .nil, OrNan.isNum_zero, OrNan.isNum_zero⟩
  | TEMA => exact ⟨hpos, .nil, .nil, .nil, OrNan.isNum_zero, OrNan.isNum_zero, OrNan.isNum_zero⟩

end Ma

namespace MACD
variable {m : MACD OrNan} {slow signal : Nat}

/-- After `t` bars. -/
structure AfterBars (slow signal t : Nat) (m : MACD OrNan) : Prop where
  slowPeriod : m.slowPeriod = slow
  signalPeriod : m.signalPeriod = signal
  fastPos : 0 < m.fastPeriod
  slowPos : 0 < slow
  signalPos : 0 < signal
  line : Late slow t m.line
  signalLine : Late (slow + signal - 1) t m.signal
  histogram : Late (slow + signal - 1) t m.histogram
  count : m.macdValidCount = t + 1 - slow
  fastPrev : IsNum m.fastPrevEma
  slowPrev : IsNum m.slowPrevEma
  signalPrev : IsNum m.signalPrevEma

theorem init_after {fast : Nat} (hf : 0 < fast) (hs : 0 < slow) (hg : 0 < signal) :
    (init fast slow signal : MACD OrNan).AfterBars slow signal 0 :=
  ⟨rfl, rfl, hf, hs, hg, .nil, .nil, .nil, by show 0 = 0 + 1 - slow; omega, OrNan.isNum_zero, OrNan.isNum_zero, OrNan.isNum_zero⟩

theorem AfterBars.nextFast (h : m.AfterBars slow signal t) (hs : Numeric t source) :
    ∃ m', m.nextFast source = some m' ∧ m'.AfterBars slow signal t := by
  unfold MACD.nextFast
  split_ifs with hlt
  · exact ⟨_, rfl, { h with }⟩
  · rw [hs.cursor] at hlt
    obtain ⟨v, hv, hnum⟩ := average_num hs h.fastPos (by omega) h.fastPrev m.fastInitialized
    rw [hv]
    exact ⟨_, rfl, { h with fastPrev := hnum }⟩

theorem AfterBars.nextSlow (h : m.AfterBars slow signal t) (hs : Numeric t source) (hle : slow ≤ t + 1) :
    ∃ m', m.nextSlow source = some m' ∧ m'.AfterBars slow signal t := by
  obtain ⟨v, hv, hnum⟩ := average_num hs (h.slowPeriod ▸ h.slowPos) (h.slowPeriod ▸ hle) h.slowPrev m.slowInitialized
  unfold MACD.nextSlow
  rw [hv]
  exact ⟨_, rfl, { h with slowPrev := hnum }⟩

/-- The signal is seeded from a line of which the last values are numbers. -/
theorem nextSignal_num (m : MACD OrNan) {macdValue : OrNan} (hs : Numeric t source) (hline : Late slow (t + 1) m.line)
    (hslow : 0 < slow) (hpos : 0 < m.signalPeriod) (hle : slow + m.signalPeriod ≤ t + 2) (hvalue : IsNum macdValue)
    (hprev : IsNum m.signalPrevEma) : ∃ v, IsNum v ∧ m.nextSignal source macdValue =
      some { m with signalPrevEma := v, signalInitialized := true, signal := m.signal ++ [v],
                    histogram := m.histogram ++ [macdValue - v] } := by
  obtain ⟨v, hv, hnum⟩ : ∃ v, m.signalAverage source macdValue = some v ∧ IsNum v := by
    unfold MACD.signalAverage
    rw [hs.cursor]
    cases m.signalInitialized with
    | false =>
      obtain ⟨v, hv, hnum⟩ := averageBack_late hline.starts
        (show t < m.line.length by rw [hline.length]; omega) hpos (by omega)
      exact ⟨v, hv, hnum.2 (by omega)⟩
    | true => exact ⟨_, rfl, advanceEma_num hvalue hprev (multiplier_num _)⟩
  unfold MACD.nextSignal
  rw [hv]
  exact ⟨v, hnum, rfl⟩

theorem AfterBars.nextLine (h : m.AfterBars slow signal t) (hs : Numeric t source) (hle : slow ≤ t + 1) :
    ∃ m', m.nextLine source = some m' ∧ m'.AfterBars slow signal (t + 1) := by
  have hslow := h.slowPos
  have hsignal := h.signalPos
  have hvalue : IsNum (m.fastPrevEma - m.slowPrevEma) := by simp [h.fastPrev, h.slowPrev]
  have hline := h.line.snoc_num hslow hle hvalue
  have hcount : m.macdValidCount + 1 = t + 1 + 1 - slow := by rw [h.count]; omega
  unfold MACD.nextLine
  dsimp only
  split_ifs with hlt
  · rw [h.signalPeriod, hcount] at hlt
    exact ⟨_, rfl, { h with
      line := hline
      count := hcount
      signalLine := h.signalLine.snoc_nan (by omega)
      histogram := h.histogram.snoc_nan (by omega) }⟩
  · rw [h.signalPeriod, hcount] at hlt
    let m₁ : MACD OrNan :=
      { m with line := m.line ++ [m.fastPrevEma - m.slowPrevEma], macdValidCount := m.macdValidCount + 1 }
    have hpos : 0 < m₁.signalPeriod := by
      show 0 < m.signalPeriod
      rw [h.signalPeriod]
      exact hsignal
    have hwindow : slow + m₁.signalPeriod ≤ t + 2 := by
      show slow + m.signalPeriod ≤ t + 2
      rw [h.signalPeriod]
      omega
    obtain ⟨v, hnum, hv⟩ := nextSignal_num m₁ hs hline hslow hpos hwindow hvalue h.signalPrev
    rw [hv]
    exact ⟨_, rfl, { h with
      line := hline
      count := hcount
      signalLine := h.signalLine.snoc_num (by omega) (by omega) hnum
      histogram := h.histogram.snoc_num (by omega) (by omega) (by simp [h.fastPrev, h.slowPrev, hnum])
      signalPrev := hnum }⟩

theorem AfterBars.next (h : m.AfterBars slow signal t) (hs : Numeric t source) :
    ∃ m', m.next source = some m' ∧ m'.AfterBars slow signal (t + 1) := by
  obtain ⟨m₁, h₁, hfast⟩ := h.nextFast hs
  have hslow := h.slowPos
  have hsignal := h.signalPos
  unfold MACD.next
  rw [h₁, Option.bind_eq_bind, Option.bind_some]
  split_ifs with hlt <;> rw [hfast.slowPeriod, hs.cursor] at hlt
  · exact ⟨_, rfl, { hfast with
      line := hfast.line.snoc_nan hlt
      signalLine := hfast.signalLine.snoc_nan (by omega)
      histogram := hfast.histogram.snoc_nan (by omega)
      count := by rw [hfast.count]; omega }⟩
  · obtain ⟨m₂, h₂, hafter⟩ := hfast.nextSlow hs (by omega)
    rw [h₂]
    exact hafter.nextLine hs (by omega)

end MACD

namespace MACDExt
variable {m : MACDExt OrNan} {macd lag : Nat}

/-- The average behind the signal, after `n` values of the line: it is made with the first of them. -/
def SignalAfter (lag n : Nat) : Option (Ma OrNan) → Prop
  | none => n = 0
  | some ind => 0 < n ∧ ind.After n ∧ ind.minimumPeriod = lag

/-- After `t` bars. The line is ready on the bar `macd`, and the average of the signal on bar `lag` of the line. -/
structure After (macd lag t : Nat) (m : MACDExt OrNan) : Prop where
  fast : m.fast.After t
  slow : m.slow.After t
  ready : max m.fast.minimumPeriod m.slow.minimumPeriod = macd
  signalPos : 0 < m.signalPeriod
  signalReady : (Ma.make m.signalPeriod m.signalMaType : Ma OrNan).minimumPeriod = lag
  macdLine : m.macdLine.data.length = t + 1 - macd
  macdNums : ∀ x ∈ m.macdLine.data, IsNum x
  signalInd : SignalAfter lag m.macdLine.data.length m.signalInd
  line : Late macd t m.line
  signal : Late (macd + lag - 1) t m.signal
  histogram : Late (macd + lag - 1) t m.histogram

theorem init_after {fastPeriod slowPeriod signalPeriod : Nat} (hf : 0 < fastPeriod) (hs : 0 < slowPeriod) (hg : 0 < signalPeriod)
    (fastMa slowMa signalMa : MaType) :
    (init fastPeriod fastMa slowPeriod slowMa signalPeriod signalMa : MACDExt OrNan).After
      (max (Ma.make fastPeriod fastMa : Ma OrNan).minimumPeriod (Ma.make slowPeriod slowMa : Ma OrNan).minimumPeriod)
      (Ma.make signalPeriod signalMa : Ma OrNan).minimumPeriod 0 := by
  have hpos := (Ma.make_after hf fastMa).pos
  refine ⟨Ma.make_after hf fastMa, Ma.make_after hs slowMa, rfl, hg, rfl, ?_, fun _ hx => absurd hx List.not_mem_nil,
    rfl, .nil, .nil, .nil⟩
  show 0 = 0 + 1 - max _ _
  omega

theorem After.macdPos (h : m.After macd lag t) : 0 < macd := by
  have := h.fast.pos
  have := h.ready
  omega

theorem After.lagPos (h : m.After macd lag t) : 0 < lag := h.signalReady ▸ (Ma.make_after h.signalPos _).pos

/-- The line with one value more is a source for the average of the signal. -/
theorem After.advanceSignal {value : OrNan} {m' : MACDExt OrNan} (h : m.After macd lag t) (hvalue : IsNum value)
    (hline : m'.macdLine = m.macdLine.forward value) (hind : m'.signalInd = m.signalInd)
    (hperiod : m'.signalPeriod = m.signalPeriod) (htype : m'.signalMaType = m.signalMaType) :
    ∃ l ind, m'.advanceSignal = some (l, ind) ∧ l.data = m.macdLine.data ++ [value] ∧
      ind.After (m.macdLine.data.length + 1) ∧ ind.minimumPeriod = lag := by
  have hnums : ∀ x ∈ (m.macdLine.forward value).data, IsNum x := by
    rintro x hx
    rcases List.mem_append.1 hx with hx | hx
    exacts [h.macdNums x hx, List.mem_singleton.1 hx ▸ hvalue]
  have hlen : (m.macdLine.forward value).data.length = m.macdLine.data.length + 1 := by
    show (m.macdLine.data ++ [value]).length = _
    rw [List.length_append, List.length_singleton]
  have hafter := h.signalInd
  unfold MACDExt.advanceSignal
  rw [hline, hind, hperiod, htype]
  cases hsome : m.signalInd with
  | none =>
    rw [hsome] at hafter
    have hzero : m.macdLine.data.length = 0 := hafter
    -- the first value: nothing is replayed before it
    have hsource : Numeric 0 (m.macdLine.forward value).home := ⟨rfl, by rw [Line.data_home, hlen]; omega, hnums⟩
    obtain ⟨ind, hnext, hafter, hready⟩ := (Ma.make_after h.signalPos m.signalMaType).next hsource
    refine ⟨(m.macdLine.forward value).home, ind, ?_, rfl, by rw [hzero]; exact hafter, hready.trans h.signalReady⟩
    dsimp only
    unfold replay
    rw [Line.size, hlen, hzero]
    simp [hnext]
  | some ind =>
    rw [hsome] at hafter
    obtain ⟨-, hafter, hready⟩ := hafter
    have hsource : Numeric m.macdLine.data.length (m.macdLine.forward value) := ⟨rfl, by rw [hlen]; omega, hnums⟩
    obtain ⟨ind', hnext, hafter', hready'⟩ := hafter.next hsource
    exact ⟨m.macdLine.forward value, ind', by dsimp only; rw [hnext]; rfl, rfl, hafter', hready'.trans hready⟩

theorem After.next (h : m.After macd lag t) (hs : Numeric t source) :
    ∃ m', m.next source = some m' ∧ m'.After macd lag (t + 1) := by
  obtain ⟨fast, hfast, hfastAfter, hfastReady⟩ := h.fast.next hs
  obtain ⟨slow, hslow, hslowAfter, hslowReady⟩ := h.slow.next hs
  have hready : max fast.minimumPeriod slow.minimumPeriod = macd := by rw [hfastReady, hslowReady, h.ready]
  have hmacd := h.macdPos
  have hlag := h.lagPos
  obtain ⟨fastVal, hfastVal, hfastNum⟩ := hfastAfter.line.last
  obtain ⟨slowVal, hslowVal, hslowNum⟩ := hslowAfter.line.last
  unfold MACDExt.next
  simp only [hfast, hslow, hfastVal, hslowVal, Option.bind_eq_bind, Option.bind_some]
  by_cases hnum : macd ≤ t + 1
  · have hf : IsNum fastVal := hfastNum.2 (by omega)
    have hsl : IsNum slowVal := hslowNum.2 (by omega)
    have hvalue : IsNum (fastVal - slowVal) := by simp [hf, hsl]
    have hnan : (isNaN fastVal || isNaN slowVal) = false := by
      rw [Bool.or_eq_false_iff]
      exact ⟨Bool.eq_false_iff.2 fun hn => OrNan.isNaN_iff.1 hn hf, Bool.eq_false_iff.2 fun hn => OrNan.isNaN_iff.1 hn hsl⟩
    rw [if_neg (by rw [hnan]; exact Bool.false_ne_true)]
    let m₁ : MACDExt OrNan := { m with
      fast, slow, line := m.line ++ [fastVal - slowVal], macdLine := m.macdLine.forward (fastVal - slowVal) }
    obtain ⟨l, ind, hadvance, hdata, hafter, hindReady⟩ := h.advanceSignal hvalue
      (show m₁.macdLine = m.macdLine.forward (fastVal - slowVal) from rfl) rfl rfl rfl
    obtain ⟨sig, hsig, hsigNum⟩ := hafter.line.last
    have hlen : l.data.length = t + 1 + 1 - macd := by
      rw [hdata, List.length_append, h.macdLine, List.length_singleton]
      omega
    have hnumSig : IsNum sig ↔ macd + lag - 1 ≤ t + 1 := by
      rw [hsigNum, hindReady, h.macdLine]
      omega
    have hhist : IsNum (if isNaN sig then nan else fastVal - slowVal - sig) ↔ macd + lag - 1 ≤ t + 1 := by
      rw [← hnumSig]
      by_cases hn : IsNum sig
      · rw [if_neg fun hn' => OrNan.isNaN_iff.1 hn' hn]
        exact iff_of_true (OrNan.isNum_sub.2 ⟨hvalue, hn⟩) hn
      · rw [if_pos (OrNan.isNaN_iff.2 hn)]
        exact iff_of_false OrNan.not_isNum_nan hn
    let m₂ : MACDExt OrNan := { m₁ with
      macdLine := l, signalInd := some ind, signal := m.signal ++ [sig]
      histogram := m.histogram ++ [if isNaN sig then nan else fastVal - slowVal - sig] }
    refine ⟨m₂, ?_, ?_⟩
    · show m₁.nextSignal (fastVal - slowVal) = _
      unfold nextSignal
      rw [hadvance]
      simp [hsig, m₁, m₂]
    · refine ⟨hfastAfter, hslowAfter, hready, h.signalPos, h.signalReady, hlen, ?_, ?_,
        h.line.snoc_num hmacd hnum hvalue, h.signal.snoc (by omega) hnumSig, h.histogram.snoc (by omega) hhist⟩
      · show ∀ x ∈ l.data, IsNum x
        rw [hdata]
        rintro x hx
        rcases List.mem_append.1 hx with hx | hx
        exacts [h.macdNums x hx, List.mem_singleton.1 hx ▸ hvalue]
      · have hpos : l.data.length = m.macdLine.data.length + 1 := by rw [hdata, List.length_append, List.length_singleton]
        exact ⟨by show 0 < l.data.length; omega, by show ind.After l.data.length; rw [hpos]; exact hafter, hindReady⟩
  · have hnan : (isNaN fastVal || isNaN slowVal) = true := by
      rw [Bool.or_eq_true, OrNan.isNaN_iff, OrNan.isNaN_iff, hfastNum, hslowNum]
      omega
    rw [if_pos hnan]
    refine ⟨_, rfl, hfastAfter, hslowAfter, hready, h.signalPos, h.signalReady, ?_, h.macdNums, h.signalInd,
      h.line.snoc_nan (by omega), h.signal.snoc_nan (by omega), h.histogram.snoc_nan (by omega)⟩
    show m.macdLine.data.length = _
    rw [h.macdLine]
    omega

end MACDExt

end Ready

end Indicators

end StratForge
