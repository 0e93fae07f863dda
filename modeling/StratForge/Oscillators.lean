import StratForge.MovingAverages

/-!
# Oscillators (`indicators/directionalmovement.hpp`, `stochastic.hpp`)

With the access-checked `next` of `Indicators`, and when their outputs and those of `HeikinAshi`, `ParabolicSAR`,
`Ichimoku` and `ATR` are numbers.
-/

namespace StratForge
open Floating (nan isNaN)
open Access (readBack write)

namespace Indicators
variable {α : Type} [Arith α] [Floating α]

/-! ### DirectionalMovement -/

/-- `line` is that of the ADX. The lines that nothing reads are left out. -/
structure DirectionalMovement (α : Type) where
  period : Nat
  line : List α := []
  plusDi : List α := []
  minusDi : List α := []
  dx : List α := []
  adxr : List α := []
  trSum : α
  plusDmSum : α
  minusDmSum : α
  dxSum : α
  prevAtr : α
  prevPlusDm : α
  prevMinusDm : α
  prevAdx : α
  seedCount : Nat := 0
  dxCount : Nat := 0
  atrInitialized : Bool := false
  adxInitialized : Bool := false

namespace DirectionalMovement

def init (period : Nat) : DirectionalMovement α :=
  { period, trSum := 0, plusDmSum := 0, minusDmSum := 0, dxSum := 0, prevAtr := 0, prevPlusDm := 0, prevMinusDm := 0,
    prevAdx := 0 }

/-- The true range and the movements of a bar. -/
structure Moves (α : Type) where
  tr : α
  plusDm : α
  minusDm : α

def moves (high low close : Line α) : Option (Moves α) := do
  let idx := close.idx
  let hi ← high.data[idx]?
  let hi' ← readBack high.data idx 1
  let lo ← low.data[idx]?
  let lo' ← readBack low.data idx 1
  let c' ← readBack close.data idx 1
  let upmove := hi - hi'
  let downmove := lo' - lo
  return { tr := Arith.max (Arith.max (hi - lo) (Arith.abs (hi - c'))) (Arith.abs (lo - c'))
           plusDm := if downmove < upmove ∧ 0 < upmove then upmove else 0
           minusDm := if upmove < downmove ∧ 0 < downmove then downmove else 0 }

/-- A directional indicator, of the smoothed movement. -/
def di (dm atr : α) : α := if atr == 0 then 0 else 100.0 * (dm / atr)

def dxOf (plusDi minusDi : α) : α :=
  let denominator := plusDi + minusDi
  if denominator == 0 then 0 else 100.0 * (Arith.abs (plusDi - minusDi) / denominator)

/-- No output on this bar. -/
def blank (d : DirectionalMovement α) : DirectionalMovement α :=
  { d with line := d.line ++ [nan], plusDi := d.plusDi ++ [nan], minusDi := d.minusDi ++ [nan], dx := d.dx ++ [nan],
           adxr := d.adxr ++ [nan] }

/-- Until the average of the DX is seeded. -/
def countDx (dx : α) (d : DirectionalMovement α) : DirectionalMovement α :=
  let d := { d with dxSum := d.dxSum + dx, dxCount := d.dxCount + 1, adxr := d.adxr ++ [nan] }
  if d.dxCount = d.period then
    let prevAdx := d.dxSum / Arith.ofCount d.period
    { d with prevAdx, line := d.line ++ [prevAdx], adxInitialized := true }
  else { d with line := d.line ++ [nan] }

/-- The average of the ADX and of the one `period` bars before. -/
def adxrOf (adx : List α) (period : Nat) (prevAdx : α) : Option α :=
  if adx.length ≤ period then some nan
  else do
    let before ← adx[adx.length - 1 - period]?
    return if isNaN before then nan else (prevAdx + before) / 2.0

def advanceAdx (dx : α) (d : DirectionalMovement α) : Option (DirectionalMovement α) := do
  let periodD := Arith.ofCount d.period
  let prevAdx := (d.prevAdx * (periodD - 1) + dx) / periodD
  let line := d.line ++ [prevAdx]
  return { d with prevAdx, line, adxr := d.adxr ++ [← adxrOf line d.period prevAdx] }

/-- What the smoothed movements say, with the DX. -/
def indicate (d : DirectionalMovement α) : α × DirectionalMovement α :=
  let plusDi := di d.prevPlusDm d.prevAtr
  let minusDi := di d.prevMinusDm d.prevAtr
  let dx := dxOf plusDi minusDi
  (dx, { d with plusDi := d.plusDi ++ [plusDi], minusDi := d.minusDi ++ [minusDi], dx := d.dx ++ [dx] })

/-- Until the smoothed movements are seeded. -/
def seed (m : Moves α) (d : DirectionalMovement α) : DirectionalMovement α :=
  let d := { d with trSum := d.trSum + m.tr, plusDmSum := d.plusDmSum + m.plusDm, minusDmSum := d.minusDmSum + m.minusDm,
                    seedCount := d.seedCount + 1 }
  if d.seedCount = d.period then
    let periodD := Arith.ofCount d.period
    let d := { d with prevAtr := d.trSum / periodD, prevPlusDm := d.plusDmSum / periodD,
                      prevMinusDm := d.minusDmSum / periodD, atrInitialized := true }
    d.indicate.2.countDx d.indicate.1
  else d.blank

def advance (m : Moves α) (d : DirectionalMovement α) : Option (DirectionalMovement α) :=
  let periodD := Arith.ofCount d.period
  let d := { d with prevAtr := (d.prevAtr * (periodD - 1) + m.tr) / periodD,
                    prevPlusDm := (d.prevPlusDm * (periodD - 1) + m.plusDm) / periodD,
                    prevMinusDm := (d.prevMinusDm * (periodD - 1) + m.minusDm) / periodD }
  if !d.adxInitialized then some (d.indicate.2.countDx d.indicate.1) else d.indicate.2.advanceAdx d.indicate.1

def next (high low close : Line α) (d : DirectionalMovement α) : Option (DirectionalMovement α) :=
  if close.idx = 0 then some d.blank
  else do
    let m ← moves high low close
    if !d.atrInitialized then some (d.seed m) else d.advance m

end DirectionalMovement

/-! ### Stochastics -/

/-- The position of the close between the extremes of the last `period` bars, as Stochastic and StochasticFull begin. -/
def rawK (high low close : Line α) (period : Nat) : Option α := do
  let idx := close.idx
  let hi ← high.data[idx]?
  let lo ← low.data[idx]?
  let older := (List.range (period - 1)).map (· + 1)
  let highest := (← older.mapM (readBack high.data idx)).foldl Arith.max hi
  let lowest := (← older.mapM (readBack low.data idx)).foldl Arith.min lo
  let c ← close.data[idx]?
  let denominator := highest - lowest
  return if denominator == 0 then 0 else 100.0 * ((c - lowest) / denominator)

/-- `average_tail`. -/
def averageTail (line : List α) (count : Nat) : Option α := averageBack line (line.length - 1) count

/-- `line` is the slow %K. -/
structure Stochastic (α : Type) where
  period : Nat
  periodDfast : Nat
  periodDslow : Nat
  line : List α := []
  rawK : List α := []
  fastD : List α := []
  percD : List α := []

namespace Stochastic

/-- The %D, of a fast %D that has been put out. -/
def nextPercD (s : Stochastic α) : Option (Stochastic α) :=
  if s.fastD.length < s.periodDslow then some { s with percD := s.percD ++ [nan] }
  else do
    let percD ← averageTail s.fastD s.periodDslow
    return { s with percD := s.percD ++ [percD] }

def next (high low close : Line α) (s : Stochastic α) : Option (Stochastic α) :=
  if close.idx + 1 < s.period then
    some { s with rawK := s.rawK ++ [nan], fastD := s.fastD ++ [nan], line := s.line ++ [nan], percD := s.percD ++ [nan] }
  else do
    let k ← Indicators.rawK high low close s.period
    let s := { s with rawK := s.rawK ++ [k] }
    if s.rawK.length < s.periodDfast then
      return { s with fastD := s.fastD ++ [nan], line := s.line ++ [nan], percD := s.percD ++ [nan] }
    else
      let fastD ← averageTail s.rawK s.periodDfast
      { s with fastD := s.fastD ++ [fastD], line := s.line ++ [fastD] }.nextPercD

end Stochastic

/-- `line` is the fast %K. -/
structure StochasticFull (α : Type) where
  period : Nat
  periodDfast : Nat
  periodDslow : Nat
  line : List α := []
  percD : List α := []
  percDslow : List α := []

namespace StochasticFull

def nextSlow (s : StochasticFull α) : Option (StochasticFull α) :=
  if s.percD.length < s.periodDslow then some { s with percDslow := s.percDslow ++ [nan] }
  else do
    let percDslow ← averageTail s.percD s.periodDslow
    return { s with percDslow := s.percDslow ++ [percDslow] }

def next (high low close : Line α) (s : StochasticFull α) : Option (StochasticFull α) :=
  if close.idx + 1 < s.period then
    some { s with line := s.line ++ [nan], percD := s.percD ++ [nan], percDslow := s.percDslow ++ [nan] }
  else do
    let k ← Indicators.rawK high low close s.period
    let s := { s with line := s.line ++ [k] }
    if s.line.length < s.periodDfast then
      return { s with percD := s.percD ++ [nan], percDslow := s.percDslow ++ [nan] }
    else
      let percD ← averageTail s.line s.periodDfast
      { s with percD := s.percD ++ [percD] }.nextSlow

end StochasticFull

structure StochasticFast (α : Type) where
  full : StochasticFull α
  line : List α := []
  percD : List α := []

namespace StochasticFast

def init (period periodDfast : Nat) : StochasticFast α := { full := { period, periodDfast, periodDslow := 1 } }

def next (high low close : Line α) (s : StochasticFast α) : Option (StochasticFast α) := do
  let full ← s.full.next high low close
  return { full, line := s.line ++ [← full.line.getLast?], percD := s.percD ++ [← full.percD.getLast?] }

end StochasticFast

/-! ### When they are numbers -/

section Ready
open OrNan (IsNum)
open Readiness (StartsAt ClosedUnder Delays)

variable {high low close : Line OrNan} {t period ready idx count k : Nat} {l out : List OrNan} {x : OrNan}

/-- The lines of a feed of numbers, on its bar `t`. -/
structure Numerics (t : Nat) (high low close : Line OrNan) : Prop where
  high : Numeric t high
  low : Numeric t low
  close : Numeric t close

theorem max_closed : ClosedUnder IsNum (Arith.max : OrNan → OrNan → OrNan) := fun _ _ => OrNan.isNum_max

theorem min_closed : ClosedUnder IsNum (Arith.min : OrNan → OrNan → OrNan) := fun _ _ => OrNan.isNum_min

theorem Numeric.get {source : Line OrNan} (h : Numeric t source) {i : Nat} (hi : i ≤ t) :
    ∃ x, source.data[i]? = some x ∧ IsNum x := by
  have hget := List.getElem?_eq_getElem (hi.trans_lt h.within)
  exact ⟨_, hget, h.nums _ (List.mem_of_getElem? hget)⟩

/-- The values before the last one, of a window of numbers. -/
theorem Numeric.older {source : Line OrNan} (h : Numeric t source) (hle : period ≤ t + 1) :
    ∃ values, ((List.range (period - 1)).map (· + 1)).mapM (Access.readBack source.data source.idx) = some values ∧
      ∀ x ∈ values, IsNum x := by
  refine Access.mapM_all fun i hi => ?_
  obtain ⟨j, hj, rfl⟩ := List.mem_map.1 hi
  obtain ⟨q, hq⟩ := h.readBack (i := j + 1) (by have := List.mem_range.1 hj; omega)
  exact ⟨.num q, hq, OrNan.isNum_num q⟩

/-- A quotient that is zero where it would divide by zero. -/
theorem guarded_num {y : OrNan} (hx : IsNum x) (hy : IsNum y) : IsNum (if y == 0 then 0 else 100.0 * (x / y)) := by
  cases hzero : y == 0 with
  | true => exact OrNan.isNum_zero
  | false => exact OrNan.isNum_mul.2 ⟨OrNan.isNum_ofScientific _ _ _, OrNan.isNum_div_of_beq hx hy hzero⟩

/-! #### Stochastics -/

theorem rawK_num (h : Numerics t high low close) (hle : period ≤ t + 1) :
    ∃ v, rawK high low close period = some v ∧ IsNum v := by
  obtain ⟨hi, hhi⟩ := h.high.read
  obtain ⟨lo, hlo⟩ := h.low.read
  obtain ⟨c, hc⟩ := h.close.read
  obtain ⟨highs, hhighs, hhighNums⟩ := h.high.older hle
  obtain ⟨lows, hlows, hlowNums⟩ := h.low.older hle
  rw [h.high.cursor] at hhi hhighs
  rw [h.low.cursor] at hlo hlows
  rw [h.close.cursor] at hc
  have hhighest := max_closed.foldl (OrNan.isNum_num hi) hhighNums
  have hlowest := min_closed.foldl (OrNan.isNum_num lo) hlowNums
  unfold rawK
  simp only [h.close.cursor, hhi, hlo, hhighs, hlows, hc, Option.bind_eq_bind, Option.bind_some]
  exact ⟨_, rfl, guarded_num (by simp [hlowest]) (by simp [hhighest, hlowest])⟩

theorem averageTail_late (h : Late ready (t + 1) l) (hready : 0 < ready) (hpos : 0 < count) (hle : count ≤ t + 1) :
    ∃ v, averageTail l count = some v ∧ (IsNum v ↔ ready + count ≤ t + 2) := by
  obtain ⟨v, hv, hnum⟩ := averageBack_late h.starts
    (show l.length - 1 < l.length by rw [h.length]; omega) hpos (by rw [h.length]; omega)
  refine ⟨v, hv, hnum.trans ?_⟩
  rw [h.length]
  omega

/-- A line that averages the last values of another one, and waits for as many as that, of which some may be no
numbers yet. -/
theorem Late.tail (hout : Late (ready + count - 1) t out) (h : Late ready (t + 1) l) (hready : 0 < ready) (hpos : 0 < count) :
    (l.length < count → Late (ready + count - 1) (t + 1) (out ++ [nan])) ∧
    (¬ l.length < count → ∃ v, averageTail l count = some v ∧ (IsNum v ↔ ready + count - 1 ≤ t + 1) ∧
      Late (ready + count - 1) (t + 1) (out ++ [v])) := by
  rw [h.length]
  refine ⟨fun hlt => hout.snoc_nan (by omega), fun hge => ?_⟩
  obtain ⟨v, hv, hnum⟩ := averageTail_late h hready hpos (by omega)
  have hnum : IsNum v ↔ ready + count - 1 ≤ t + 1 := hnum.trans (by omega)
  exact ⟨v, hv, hnum, hout.snoc (by omega) hnum⟩

namespace Stochastic
variable {s : Stochastic OrNan}

/-- After `t` bars, of which the %D has had `t'`. -/
structure Between (period dfast dslow t t' : Nat) (s : Stochastic OrNan) : Prop where
  periodEq : s.period = period
  dfastEq : s.periodDfast = dfast
  dslowEq : s.periodDslow = dslow
  rawK : Late period t s.rawK
  fastD : Late (period + dfast - 1) t s.fastD
  line : Late (period + dfast - 1) t s.line
  percD : Late (period + dfast - 1 + dslow - 1) t' s.percD

variable {dfast dslow : Nat}

theorem Between.nextPercD (h : s.Between period dfast dslow (t + 1) t) (hp : 0 < period) (hf : 0 < dfast) (hs : 0 < dslow) :
    ∃ s', s.nextPercD = some s' ∧ s'.Between period dfast dslow (t + 1) (t + 1) := by
  obtain ⟨hnan, hnum⟩ := h.percD.tail h.fastD (by omega) hs
  unfold Stochastic.nextPercD
  split_ifs with hlt
  · exact ⟨_, rfl, { h with percD := hnan (h.dslowEq ▸ hlt) }⟩
  · obtain ⟨v, hv, -, hlate⟩ := hnum (h.dslowEq ▸ hlt)
    rw [← h.dslowEq] at hv
    rw [hv]
    exact ⟨_, rfl, { h with percD := hlate }⟩

theorem Between.next (h : s.Between period dfast dslow t t) (hp : 0 < period) (hf : 0 < dfast) (hs : 0 < dslow)
    (hbars : Numerics t high low close) :
    ∃ s', s.next high low close = some s' ∧ s'.Between period dfast dslow (t + 1) (t + 1) := by
  unfold Stochastic.next
  split_ifs with hlt <;> rw [hbars.close.cursor, h.periodEq] at hlt
  · exact ⟨_, rfl, { h with
      rawK := h.rawK.snoc_nan hlt
      fastD := h.fastD.snoc_nan (by omega)
      line := h.line.snoc_nan (by omega)
      percD := h.percD.snoc_nan (by omega) }⟩
  · obtain ⟨v, hv, hv'⟩ := rawK_num hbars (show s.period ≤ t + 1 by rw [h.periodEq]; omega)
    rw [hv, Option.bind_eq_bind, Option.bind_some]
    have hrawK := h.rawK.snoc_num hp (by omega) hv'
    obtain ⟨hnan, hnum⟩ := h.fastD.tail hrawK hp hf
    dsimp only
    split_ifs with hlt'
    · rw [h.dfastEq] at hlt'
      refine ⟨_, rfl, { h with
        rawK := hrawK
        fastD := hnan hlt'
        line := h.line.snoc_nan ?_
        percD := h.percD.snoc_nan ?_ }⟩ <;> rw [hrawK.length] at hlt' <;> omega
    · rw [h.dfastEq] at hlt'
      obtain ⟨w, hw, hw', hlate⟩ := hnum hlt'
      rw [← h.dfastEq] at hw
      rw [hw, Option.bind_some]
      exact Between.nextPercD { h with rawK := hrawK, fastD := hlate, line := h.line.snoc (by omega) hw' } hp hf hs

end Stochastic

namespace StochasticFull
variable {s : StochasticFull OrNan}

/-- After `t` bars, of which the slow %D has had `t'`. -/
structure Between (period dfast dslow t t' : Nat) (s : StochasticFull OrNan) : Prop where
  periodEq : s.period = period
  dfastEq : s.periodDfast = dfast
  dslowEq : s.periodDslow = dslow
  line : Late period t s.line
  percD : Late (period + dfast - 1) t s.percD
  percDslow : Late (period + dfast - 1 + dslow - 1) t' s.percDslow

variable {dfast dslow : Nat}

theorem Between.nextSlow (h : s.Between period dfast dslow (t + 1) t) (hp : 0 < period) (hf : 0 < dfast) (hs : 0 < dslow) :
    ∃ s', s.nextSlow = some s' ∧ s'.Between period dfast dslow (t + 1) (t + 1) := by
  obtain ⟨hnan, hnum⟩ := h.percDslow.tail h.percD (by omega) hs
  unfold StochasticFull.nextSlow
  split_ifs with hlt
  · exact ⟨_, rfl, { h with percDslow := hnan (h.dslowEq ▸ hlt) }⟩
  · obtain ⟨v, hv, -, hlate⟩ := hnum (h.dslowEq ▸ hlt)
    rw [← h.dslowEq] at hv
    rw [hv]
    exact ⟨_, rfl, { h with percDslow := hlate }⟩

theorem Between.next (h : s.Between period dfast dslow t t) (hp : 0 < period) (hf : 0 < dfast) (hs : 0 < dslow)
    (hbars : Numerics t high low close) :
    ∃ s', s.next high low close = some s' ∧ s'.Between period dfast dslow (t + 1) (t + 1) := by
  unfold StochasticFull.next
  split_ifs with hlt <;> rw [hbars.close.cursor, h.periodEq] at hlt
  · exact ⟨_, rfl, { h with
      line := h.line.snoc_nan hlt
      percD := h.percD.snoc_nan (by omega)
      percDslow := h.percDslow.snoc_nan (by omega) }⟩
  · obtain ⟨v, hv, hv'⟩ := rawK_num hbars (show s.period ≤ t + 1 by rw [h.periodEq]; omega)
    rw [hv, Option.bind_eq_bind, Option.bind_some]
    have hline := h.line.snoc_num hp (by omega) hv'
    obtain ⟨hnan, hnum⟩ := h.percD.tail hline hp hf
    dsimp only
    split_ifs with hlt' <;> rw [h.dfastEq] at hlt'
    · refine ⟨_, rfl, { h with line := hline, percD := hnan hlt', percDslow := h.percDslow.snoc_nan ?_ }⟩
      rw [hline.length] at hlt'
      omega
    · obtain ⟨w, hw, -, hlate⟩ := hnum hlt'
      rw [← h.dfastEq] at hw
      rw [hw, Option.bind_some]
      exact Between.nextSlow { h with line := hline, percD := hlate } hp hf hs

end StochasticFull

namespace StochasticFast
variable {s : StochasticFast OrNan} {dfast : Nat}

structure After (period dfast t : Nat) (s : StochasticFast OrNan) : Prop where
  full : s.full.Between period dfast 1 t t
  line : Late period t s.line
  percD : Late (period + dfast - 1) t s.percD

theorem After.next (h : s.After period dfast t) (hp : 0 < period) (hf : 0 < dfast) (hbars : Numerics t high low close) :
    ∃ s', s.next high low close = some s' ∧ s'.After period dfast (t + 1) := by
  obtain ⟨full, hfull, hbetween⟩ := h.full.next hp hf Nat.one_pos hbars
  obtain ⟨k, hk, hkNum⟩ := hbetween.line.last
  obtain ⟨d, hd, hdNum⟩ := hbetween.percD.last
  unfold StochasticFast.next
  simp only [hfull, hk, hd, Option.bind_eq_bind, Option.bind_some]
  exact ⟨_, rfl, hbetween, h.line.snoc hp hkNum, h.percD.snoc (by omega) hdNum⟩

end StochasticFast

/-! #### ATR -/

/-- After `t` bars. -/
structure AtrAfter (t : Nat) (a : StratForge.ATR OrNan) : Prop where
  pos : 0 < a.period
  line : Late (a.period + 1) t a.line
  trSum : IsNum a.trSum
  prevAtr : IsNum a.prevAtr
  initialized : a.initialized = true ↔ a.period + 1 ≤ t
  trCount : a.initialized = false → a.trCount = t - 1

theorem valueAt_num {source : Line OrNan} (h : Numeric t source) {i : Nat} (hi : i ≤ t) : IsNum (valueAt source.data i) := by
  obtain ⟨x, hx, hnum⟩ := h.get hi
  rw [valueAt, hx]
  exact hnum

theorem AtrAfter.next {a : StratForge.ATR OrNan} (h : AtrAfter t a) (hbars : Numerics t high low close) :
    AtrAfter (t + 1) (a.next high.data low.data close.data close.idx) ∧
      (a.next high.data low.data close.data close.idx).period = a.period := by
  have hpos := h.pos
  have hhi := valueAt_num hbars.high (le_refl t)
  have hlo := valueAt_num hbars.low (le_refl t)
  have hc := valueAt_num hbars.close (Nat.sub_le t 1)
  unfold StratForge.ATR.next
  rw [hbars.close.cursor]
  by_cases hzero : t = 0
  · subst hzero
    rw [if_pos rfl]
    refine ⟨⟨h.pos, h.line.snoc_nan (by show 0 + 1 < a.period + 1; omega), h.trSum, h.prevAtr, ?_, fun hi => h.trCount hi⟩, rfl⟩
    exact h.initialized.trans ⟨fun hle => absurd hle (by omega), fun hle => absurd hle (by show ¬ a.period + 1 ≤ 0 + 1; omega)⟩
  · rw [if_neg hzero]
    dsimp only
    generalize htr : Arith.max (Arith.max (valueAt high.data t - valueAt low.data t) _) _ = trueRange
    have htrueRange : IsNum trueRange := by
      rw [← htr]
      exact OrNan.isNum_max (OrNan.isNum_max (by simp [hhi, hlo]) (by simp [hhi, hc])) (by simp [hlo, hc])
    cases hinit : a.initialized with
    | false =>
      have hcount := h.trCount hinit
      have hle : ¬ a.period + 1 ≤ t := fun hle => Bool.eq_false_iff.1 hinit (h.initialized.2 hle)
      simp only [Bool.not_false, if_true]
      split_ifs with hlt
      · rw [hcount] at hlt
        refine ⟨⟨h.pos, h.line.snoc_nan (by show t + 1 < a.period + 1; omega), by simp [h.trSum, htrueRange], h.prevAtr, ?_,
          fun _ => by show a.trCount + 1 = t + 1 - 1; omega⟩, rfl⟩
        exact iff_of_false Bool.false_ne_true (by show ¬ a.period + 1 ≤ t + 1; omega)
      · rw [hcount] at hlt
        have hprev : IsNum ((a.trSum + trueRange) / Arith.ofCount a.period) := by
          rw [OrNan.isNum_div_ofCount h.pos]
          simp [h.trSum, htrueRange]
        exact ⟨⟨h.pos, h.line.snoc_num (Nat.succ_pos _) (by show a.period + 1 ≤ t + 1; omega) hprev,
          by simp [h.trSum, htrueRange], hprev, iff_of_true rfl (by show a.period + 1 ≤ t + 1; omega), nofun⟩, rfl⟩
    | true =>
      have hle := h.initialized.1 hinit
      have hprev : IsNum ((a.prevAtr * (Arith.ofCount a.period - 1) + trueRange) / Arith.ofCount a.period) := by
        rw [OrNan.isNum_div_ofCount h.pos]
        simp [h.prevAtr, htrueRange]
      rw [Bool.not_true, if_neg Bool.false_ne_true]
      exact ⟨⟨h.pos, h.line.snoc_num (Nat.succ_pos _) (by show a.period + 1 ≤ t + 1; omega) hprev, h.trSum, hprev,
        iff_of_true rfl (by show a.period + 1 ≤ t + 1; omega), nofun⟩, rfl⟩

/-! #### HeikinAshi -/

namespace HeikinAshi
variable {h : HeikinAshi OrNan} {«open» : Line OrNan}

/-- After `t` bars. -/
structure AfterBars (t : Nat) (h : HeikinAshi OrNan) : Prop where
  line : Late 1 t h.line
  haOpen : Late 1 t h.haOpen
  haHigh : Late 2 t h.haHigh
  haLow : Late 2 t h.haLow

theorem nextOpen_num {haOpen haClose : List OrNan} (hopen : Late 1 t haOpen) (hclose : Late 1 (t + 1) haClose) (hpos : 0 < t) :
    ∃ v, nextOpen haOpen haClose t = some v ∧ IsNum v := by
  obtain ⟨o, ho, hoNum⟩ := hopen.read (show t - 1 < t by omega)
  obtain ⟨c, hc, hcNum⟩ := hclose.read (show t - 1 < t + 1 by omega)
  refine ⟨(o + c) / 2.0, ?_, ?_⟩
  · rw [nextOpen, ho, hc]
    rfl
  · have := hoNum.2 (by omega)
    have := hcNum.2 (by omega)
    simp [*]

theorem AfterBars.candle {o hi lo c : OrNan} (hafter : h.AfterBars t) (ho : IsNum o) (hhi : IsNum hi) (hlo : IsNum lo)
    (hc : IsNum c) : ∃ h', h.candle t o hi lo c = some h' ∧ h'.AfterBars (t + 1) := by
  have hclose : IsNum ((o + hi + lo + c) / 4.0) := by simp [ho, hhi, hlo, hc]
  have hline := hafter.line.snoc_num Nat.one_pos (by omega) hclose
  unfold HeikinAshi.candle
  dsimp only
  split_ifs with hzero
  · have hopen : IsNum ((o + c) / 2.0) := by simp [ho, hc]
    exact ⟨_, rfl, hline, hafter.haOpen.snoc_num Nat.one_pos (by omega) hopen, hafter.haHigh.snoc_nan (by omega),
      hafter.haLow.snoc_nan (by omega)⟩
  · obtain ⟨v, hv, hvNum⟩ := nextOpen_num hafter.haOpen hline (by omega)
    have hopen := hafter.haOpen.snoc_num Nat.one_pos (by omega) hvNum
    obtain ⟨current, hcurrent, hcurrentNum⟩ := hopen.read (show t < t + 1 by omega)
    have hcurrentNum := hcurrentNum.2 (by omega)
    simp only [hv, hcurrent, Option.bind_eq_bind, Option.bind_some]
    exact ⟨_, rfl, hline, hopen,
      hafter.haHigh.snoc_num Nat.two_pos (by omega) (OrNan.isNum_max (OrNan.isNum_max hhi hcurrentNum) hclose),
      hafter.haLow.snoc_num Nat.two_pos (by omega) (OrNan.isNum_min (OrNan.isNum_min hlo hcurrentNum) hclose)⟩

theorem AfterBars.next (hafter : h.AfterBars t) (hopen : Numeric t «open») (hbars : Numerics t high low close) :
    ∃ h', h.next «open» high low close = some h' ∧ h'.AfterBars (t + 1) := by
  obtain ⟨o, ho⟩ := hopen.read
  obtain ⟨hi, hhi⟩ := hbars.high.read
  obtain ⟨lo, hlo⟩ := hbars.low.read
  obtain ⟨c, hc⟩ := hbars.close.read
  rw [hopen.cursor] at ho
  rw [hbars.high.cursor] at hhi
  rw [hbars.low.cursor] at hlo
  rw [hbars.close.cursor] at hc
  unfold HeikinAshi.next
  simp only [hbars.close.cursor, ho, hhi, hlo, hc, Option.bind_eq_bind, Option.bind_some]
  exact hafter.candle (by simp) (by simp) (by simp) (by simp)

end HeikinAshi

/-! #### ParabolicSAR -/

namespace ParabolicSAR
variable {p : ParabolicSAR OrNan} {s : Status OrNan} {afStep afMax hi lo edge : OrNan}

structure Status.Nums (s : Status OrNan) : Prop where
  sar : IsNum s.sar
  af : IsNum s.af
  ep : IsNum s.ep

theorem Status.Nums.turned (h : s.Nums) (hstep : IsNum afStep) (hhi : IsNum hi) (hlo : IsNum lo) :
    (s.turned afStep hi lo).Nums := by
  unfold Status.turned
  split_ifs
  · exact ⟨h.ep, hstep, hhi⟩
  · exact ⟨h.ep, hstep, hlo⟩
  · exact h

theorem Status.Nums.extended (h : s.Nums) (hstep : IsNum afStep) (hmax : IsNum afMax) (hhi : IsNum hi) (hlo : IsNum lo) :
    (s.extended afStep afMax hi lo).Nums := by
  have haf : IsNum (Arith.min (s.af + afStep) afMax) := OrNan.isNum_min (by simp [h.af, hstep]) hmax
  unfold Status.extended
  split_ifs
  · exact ⟨h.sar, haf, hhi⟩
  · exact h
  · exact ⟨h.sar, haf, hlo⟩
  · exact h

theorem Status.Nums.moved (h : s.Nums) (hhi : IsNum hi) (hlo : IsNum lo) (hedge : IsNum edge) : (s.moved hi lo edge).Nums := by
  have hsar : IsNum (s.sar + s.af * (s.ep - s.sar)) := by simp [h.sar, h.af, h.ep]
  unfold Status.moved
  dsimp only
  split_ifs
  · exact ⟨OrNan.isNum_min hlo hedge, h.af, h.ep⟩
  · exact ⟨hsar, h.af, h.ep⟩
  · exact ⟨OrNan.isNum_max hhi hedge, h.af, h.ep⟩
  · exact ⟨hsar, h.af, h.ep⟩

/-- The two entries before bar `t`, of which it reads the one that the bar before has written. -/
structure Entries (t : Nat) (status : List (Status OrNan)) : Prop where
  length : status.length = 2
  read : ∀ s, status[t % 2]? = some s → s.Nums

theorem Entries.write {status : List (Status OrNan)} (h : Entries t status) (hs : s.Nums) :
    ∃ status', write status (if t % 2 = 0 then 1 else 0) s = some status' ∧ Entries (t + 1) status' := by
  have hturn : (if t % 2 = 0 then 1 else 0) = (t + 1) % 2 := by split_ifs <;> omega
  have hlt : (t + 1) % 2 < status.length := by
    rw [h.length]
    omega
  rw [hturn, Access.write, if_pos hlt]
  refine ⟨_, rfl, List.length_set.trans h.length, fun s' hs' => ?_⟩
  rw [List.getElem?_set_self hlt] at hs'
  cases hs'
  exact hs

/-- After `t` bars. -/
structure AfterBars (t : Nat) (p : ParabolicSAR OrNan) : Prop where
  afStep : IsNum p.afStep
  afMax : IsNum p.afMax
  line : Late (max 2 p.period) t p.line
  first : t ≤ 1 → p.status = []
  entries : 2 ≤ t → Entries t p.status

theorem seed_entries (hbars : Numerics t high low close) (hone : 1 ≤ t) (hstep : IsNum p.afStep) :
    ∃ status, p.seed high low close = some status ∧ Entries 1 status := by
  obtain ⟨hi, hhi, hhiNum⟩ := hbars.high.get (show 0 ≤ t by omega)
  obtain ⟨lo, hlo, hloNum⟩ := hbars.low.get (show 0 ≤ t by omega)
  obtain ⟨c1, hc1, -⟩ := hbars.close.get hone
  obtain ⟨c0, hc0, -⟩ := hbars.close.get (show 0 ≤ t by omega)
  have hsar : IsNum ((hi + lo) / 2.0) := by simp [hhiNum, hloNum]
  unfold ParabolicSAR.seed
  simp only [hhi, hlo, hc1, hc0, Option.bind_eq_bind, Option.bind_some]
  refine ⟨_, rfl, rfl, fun s hs => ?_⟩
  cases hs
  split_ifs
  · exact ⟨hsar, hstep, hloNum⟩
  · exact ⟨hsar, hstep, hhiNum⟩

theorem AfterBars.found (h : p.AfterBars t) (hbars : Numerics t high low close) (hone : 1 ≤ t) :
    ∃ status, p.found high low close = some status ∧ Entries t status := by
  unfold ParabolicSAR.found
  rw [hbars.close.cursor]
  split_ifs with hcond
  · obtain rfl : t = 1 := by omega
    exact seed_entries hbars hone h.afStep
  · refine ⟨_, rfl, h.entries ?_⟩
    by_contra hlt
    obtain rfl : t = 1 := by omega
    exact hcond ⟨rfl, by rw [h.first (le_refl 1)]; rfl⟩

theorem AfterBars.track (h : p.AfterBars t) (hbars : Numerics t high low close) (hone : 1 ≤ t) :
    ∃ p', p.track high low close = some p' ∧ p'.AfterBars (t + 1) ∧ p'.period = p.period := by
  obtain ⟨status, hstatus, hentries⟩ := h.found hbars hone
  have hlt : t % 2 < status.length := by
    rw [hentries.length]
    omega
  have hprev := List.getElem?_eq_getElem hlt
  have hnums := hentries.read _ hprev
  obtain ⟨hi, hhi, hhiNum⟩ := hbars.high.get (le_refl t)
  obtain ⟨lo, hlo, hloNum⟩ := hbars.low.get (le_refl t)
  have hturned := hnums.turned h.afStep hhiNum hloNum
  have hextended := hturned.extended h.afStep h.afMax hhiNum hloNum
  have hedge : ∀ b : Bool, ∃ edge, (if b then low else high).data[t - 1]? = some edge ∧ IsNum edge := by
    rintro (_ | _)
    · exact hbars.high.get (show t - 1 ≤ t by omega)
    · exact hbars.low.get (show t - 1 ≤ t by omega)
  obtain ⟨edge, hedge, hedgeNum⟩ := hedge ((status[t % 2].turned p.afStep hi lo).extended p.afStep p.afMax hi lo).tr
  obtain ⟨status', hstatus', hentries'⟩ := hentries.write (hextended.moved hhiNum hloNum hedgeNum)
  unfold ParabolicSAR.track
  simp only [hbars.close.cursor, show t + 1 - 1 = t by omega, show t + 1 - 2 = t - 1 by omega, hstatus, hprev, hhi, hlo, hedge,
    hstatus', Option.bind_eq_bind, Option.bind_some]
  refine ⟨_, rfl, ⟨h.afStep, h.afMax, ?_, fun hle => by omega, fun _ => hentries'⟩, rfl⟩
  split_ifs with hlt
  · exact h.line.snoc_nan (by omega)
  · exact h.line.snoc_num (by omega) (by omega) hturned.sar

theorem AfterBars.next (h : p.AfterBars t) (hbars : Numerics t high low close) :
    ∃ p', p.next high low close = some p' ∧ p'.AfterBars (t + 1) ∧ p'.period = p.period := by
  unfold ParabolicSAR.next
  rw [hbars.close.cursor]
  split_ifs with hfirst
  · obtain rfl : t = 0 := by omega
    exact ⟨_, rfl, ⟨h.afStep, h.afMax, h.line.snoc_nan (by show 0 + 1 < max 2 p.period; omega), fun _ => rfl,
      fun hle => by omega⟩, rfl⟩
  · exact h.track hbars (by omega)

end ParabolicSAR

/-! #### Ichimoku -/

namespace Ichimoku
variable {m : Ichimoku OrNan} {tenkan kijun senkou lead chikou : Nat}

theorem midpointFrom_late (hbars : Numerics t high low close) (period : Nat) :
    ∃ v, midpointFrom high low t period = some v ∧ (IsNum v ↔ period ≤ t + 1) := by
  unfold midpointFrom
  split_ifs with hle
  · obtain ⟨hi, hhi, hhiNum⟩ := hbars.high.get (le_refl t)
    obtain ⟨lo, hlo, hloNum⟩ := hbars.low.get (le_refl t)
    obtain ⟨highs, hhighs, hhighNums⟩ := hbars.high.older hle
    obtain ⟨lows, hlows, hlowNums⟩ := hbars.low.older hle
    rw [hbars.high.cursor] at hhighs
    rw [hbars.low.cursor] at hlows
    have hhighest := max_closed.foldl hhiNum hhighNums
    have hlowest := min_closed.foldl hloNum hlowNums
    refine ⟨(highs.foldl Arith.max hi + lows.foldl Arith.min lo) / 2.0, ?_, iff_of_true (by simp [hhighest, hlowest]) hle⟩
    simp only [midpoint, hhi, hlo, hhighs, hlows, Option.bind_eq_bind, Option.bind_some]
    rfl
  · exact ⟨nan, rfl, iff_of_false OrNan.not_isNum_nan hle⟩

/-- A ring buffer gives out what it was given `lead` bars before. -/
theorem exchange_late {buf : List OrNan} {v : OrNan} (h : Delays IsNum k lead t buf) (hlead : 0 < lead)
    (hv : IsNum v ↔ k ≤ t) :
    ∃ x buf', exchange buf (t % lead) v = some (x, buf') ∧ (IsNum x ↔ k + lead ≤ t) ∧ Delays IsNum k lead (t + 1) buf' := by
  obtain ⟨x, hx, hxNum⟩ := h.given hlead
  have hlt : t % lead < buf.length := by
    rw [h.length]
    exact Nat.mod_lt t hlead
  refine ⟨x, buf.set (t % lead) v, ?_, hxNum, h.exchange hlead hv⟩
  simp only [exchange, hx, Access.write, if_pos hlt, Option.bind_eq_bind, Option.bind_some]
  rfl

/-- After `t` bars. What the chikou span puts out is never a number on its own bar. -/
structure AfterBars (tenkan kijun senkou lead chikou t : Nat) (m : Ichimoku OrNan) : Prop where
  tenkanEq : m.tenkan = tenkan
  kijunEq : m.kijun = kijun
  senkouEq : m.senkou = senkou
  leadEq : m.senkouLead = lead
  chikouEq : m.chikou = chikou
  barCount : m.barCount = t
  saCursor : m.saCursor = t % lead
  sbCursor : m.sbCursor = t % lead
  saBuf : Delays IsNum (max tenkan kijun - 1) lead t m.senkouABuf
  sbBuf : Delays IsNum (senkou - 1) lead t m.senkouBBuf
  line : Late tenkan t m.line
  kijunSen : Late kijun t m.kijunSen
  senkouSpanA : Late (max tenkan kijun + lead) t m.senkouSpanA
  senkouSpanB : Late (senkou + lead) t m.senkouSpanB
  chikouLength : m.chikouSpan.length = t
  chikouLast : ∀ x, m.chikouSpan.getLast? = some x → ¬ IsNum x

theorem init_after (htenkan : 0 < tenkan) (hkijun : 0 < kijun) (hsenkou : 0 < senkou) :
    (init tenkan kijun senkou lead chikou).AfterBars tenkan kijun senkou lead chikou 0 where
  tenkanEq := if_neg htenkan.ne'
  kijunEq := if_neg hkijun.ne'
  senkouEq := if_neg hsenkou.ne'
  leadEq := rfl
  chikouEq := rfl
  barCount := rfl
  saCursor := (Nat.zero_mod lead).symm
  sbCursor := (Nat.zero_mod lead).symm
  saBuf := .start OrNan.not_isNum_nan
  sbBuf := .start OrNan.not_isNum_nan
  line := .nil
  kijunSen := .nil
  senkouSpanA := .nil
  senkouSpanB := .nil
  chikouLength := rfl
  chikouLast := nofun

theorem AfterBars.chikouGives (h : m.AfterBars tenkan kijun senkou lead chikou (t + 1)) :
    ∃ x, m.chikouSpan.getLast? = some x ∧ ¬ IsNum x := by
  cases hlast : m.chikouSpan.getLast? with
  | none =>
    have hlength := h.chikouLength
    rw [List.getLast?_eq_none_iff.1 hlast] at hlength
    cases hlength
  | some x => exact ⟨x, rfl, h.chikouLast x hlast⟩

theorem AfterBars.shiftBack (h : m.AfterBars tenkan kijun senkou lead chikou t) (hbars : Numerics t high low close)
    (hchikou : 0 < chikou) :
    ∃ span, m.shiftBack close t = some span ∧ span.length = t + 1 ∧ span.getLast? = some nan := by
  unfold Ichimoku.shiftBack
  rw [h.chikouEq]
  split_ifs with hlt
  · exact ⟨_, rfl, by rw [List.length_append, h.chikouLength, List.length_singleton], List.getLast?_concat⟩
  · obtain ⟨c, hc, -⟩ := hbars.close.get (le_refl t)
    have hwithin : t - chikou < m.chikouSpan.length := by
      rw [h.chikouLength]
      omega
    simp only [hc, Access.write, if_pos hwithin, Option.bind_eq_bind, Option.bind_some]
    exact ⟨_, rfl, by rw [List.length_append, List.length_set, h.chikouLength, List.length_singleton], List.getLast?_concat⟩

theorem AfterBars.next (h : m.AfterBars tenkan kijun senkou lead chikou t) (hbars : Numerics t high low close)
    (htenkan : 0 < tenkan) (hkijun : 0 < kijun) (hsenkou : 0 < senkou) (hlead : 0 < lead) (hchikou : 0 < chikou) :
    ∃ m', m.next high low close = some m' ∧ m'.AfterBars tenkan kijun senkou lead chikou (t + 1) := by
  obtain ⟨tenkanValue, htv, htvNum⟩ := midpointFrom_late hbars tenkan
  obtain ⟨kijunValue, hkv, hkvNum⟩ := midpointFrom_late hbars kijun
  obtain ⟨sbPending, hsb, hsbNum⟩ := midpointFrom_late hbars senkou
  have hpending : IsNum (if !isNaN tenkanValue && !isNaN kijunValue then (tenkanValue + kijunValue) / 2.0 else nan) ↔
      max tenkan kijun - 1 ≤ t := by
    rw [show max tenkan kijun - 1 ≤ t ↔ tenkan ≤ t + 1 ∧ kijun ≤ t + 1 by omega, ← htvNum, ← hkvNum]
    split_ifs with hboth
    · simp
    · refine iff_of_false OrNan.not_isNum_nan fun hnums => hboth ?_
      simp [Bool.eq_false_iff, OrNan.isNaN_iff, hnums]
  obtain ⟨sa, saBuf, hsa, hsaNum, hsaBuf⟩ := exchange_late h.saBuf hlead hpending
  obtain ⟨sb, sbBuf, hsbOut, hsbOutNum, hsbBuf⟩ := exchange_late h.sbBuf hlead (hsbNum.trans (by omega))
  obtain ⟨span, hspan, hspanLength, hspanLast⟩ := h.shiftBack hbars hchikou
  have hsize : m.senkouLeadBufSize = lead := by
    rw [senkouLeadBufSize, h.leadEq, if_neg hlead.ne']
  have hcursor : (t % lead + 1) % lead = (t + 1) % lead := Nat.mod_add_mod t lead 1
  unfold Ichimoku.next
  simp only [h.barCount, h.tenkanEq, h.kijunEq, h.senkouEq, h.saCursor, h.sbCursor, htv, hkv, hsb, hsa, hsbOut, hspan, hsize,
    hcursor, Option.bind_eq_bind, Option.bind_some]
  exact ⟨_, rfl, { h with
    tenkanEq := rfl
    kijunEq := rfl
    senkouEq := rfl
    barCount := rfl
    saCursor := rfl
    sbCursor := rfl
    saBuf := hsaBuf
    sbBuf := hsbBuf
    line := h.line.snoc htenkan htvNum
    kijunSen := h.kijunSen.snoc hkijun hkvNum
    senkouSpanA := h.senkouSpanA.snoc (by omega) (hsaNum.trans (by omega))
    senkouSpanB := h.senkouSpanB.snoc (by omega) (hsbOutNum.trans (by omega))
    chikouLength := hspanLength
    chikouLast := fun x hx => Option.some.inj (hspanLast.symm.trans hx) ▸ OrNan.not_isNum_nan }⟩

end Ichimoku

/-! #### DirectionalMovement -/

namespace DirectionalMovement
variable {d : DirectionalMovement OrNan} {m : Moves OrNan} {dx : OrNan}

structure Moves.Nums (m : Moves OrNan) : Prop where
  tr : IsNum m.tr
  plusDm : IsNum m.plusDm
  minusDm : IsNum m.minusDm

theorem moves_num (hbars : Numerics t high low close) (hpos : 0 < t) : ∃ m, moves high low close = some m ∧ m.Nums := by
  obtain ⟨hi, hhi⟩ := hbars.high.read
  obtain ⟨hi', hhi'⟩ := hbars.high.readBack (show 1 ≤ t from hpos)
  obtain ⟨lo, hlo⟩ := hbars.low.read
  obtain ⟨lo', hlo'⟩ := hbars.low.readBack (show 1 ≤ t from hpos)
  obtain ⟨c', hc'⟩ := hbars.close.readBack (show 1 ≤ t from hpos)
  rw [hbars.high.cursor] at hhi hhi'
  rw [hbars.low.cursor] at hlo hlo'
  rw [hbars.close.cursor] at hc'
  unfold moves
  simp only [hbars.close.cursor, hhi, hhi', hlo, hlo', hc', Option.bind_eq_bind, Option.bind_some]
  refine ⟨_, rfl, OrNan.isNum_max (OrNan.isNum_max (by simp) (by simp)) (by simp), ?_, ?_⟩
  · dsimp only
    split_ifs <;> simp
  · dsimp only
    split_ifs <;> simp

theorem di_num {dm atr : OrNan} (hdm : IsNum dm) (hatr : IsNum atr) : IsNum (di dm atr) := guarded_num hdm hatr

theorem dxOf_num {plusDi minusDi : OrNan} (hplus : IsNum plusDi) (hminus : IsNum minusDi) : IsNum (dxOf plusDi minusDi) :=
  guarded_num (by simp [hplus, hminus]) (by simp [hplus, hminus])

/-- The running sums and averages. -/
structure Nums (d : DirectionalMovement OrNan) : Prop where
  trSum : IsNum d.trSum
  plusDmSum : IsNum d.plusDmSum
  minusDmSum : IsNum d.minusDmSum
  dxSum : IsNum d.dxSum
  prevAtr : IsNum d.prevAtr
  prevPlusDm : IsNum d.prevPlusDm
  prevMinusDm : IsNum d.prevMinusDm
  prevAdx : IsNum d.prevAdx

/-- The directional indicators have had `t` bars, and their averages `t'`. -/
structure Between (period t t' : Nat) (d : DirectionalMovement OrNan) : Prop where
  periodEq : d.period = period
  nums : d.Nums
  plusDi : Late (period + 1) t d.plusDi
  minusDi : Late (period + 1) t d.minusDi
  dx : Late (period + 1) t d.dx
  line : Late (2 * period) t' d.line
  adxr : Late (3 * period) t' d.adxr
  dxCount : d.adxInitialized = false → d.dxCount = t' - period
  adx : d.adxInitialized = true ↔ 2 * period ≤ t'

/-- After `t` bars. -/
structure After (period t : Nat) (d : DirectionalMovement OrNan) : Prop where
  between : d.Between period t t
  seedCount : d.atrInitialized = false → d.seedCount = t - 1
  atr : d.atrInitialized = true ↔ period + 1 ≤ t

theorem init_after (hpos : 0 < period) : (init period).After period 0 where
  between := ⟨rfl, ⟨by simp [init], by simp [init], by simp [init], by simp [init], by simp [init], by simp [init],
    by simp [init], by simp [init]⟩, .nil, .nil, .nil, .nil, .nil, fun _ => (Nat.zero_sub period).symm,
    iff_of_false Bool.false_ne_true (by omega)⟩
  seedCount := fun _ => rfl
  atr := iff_of_false Bool.false_ne_true (by omega)

theorem Between.blank (h : d.Between period t t) (hpos : 0 < period) (hlt : t < period) :
    d.blank.Between period (t + 1) (t + 1) where
  periodEq := h.periodEq
  nums := ⟨h.nums.1, h.nums.2, h.nums.3, h.nums.4, h.nums.5, h.nums.6, h.nums.7, h.nums.8⟩
  plusDi := h.plusDi.snoc_nan (by omega)
  minusDi := h.minusDi.snoc_nan (by omega)
  dx := h.dx.snoc_nan (by omega)
  line := h.line.snoc_nan (by omega)
  adxr := h.adxr.snoc_nan (by omega)
  dxCount := fun hadx => (h.dxCount hadx).trans (by omega)
  adx := h.adx.trans (by omega)

theorem Between.indicate (h : d.Between period t t) (hle : period ≤ t) :
    d.indicate.2.Between period (t + 1) t ∧ IsNum d.indicate.1 := by
  have hplus := di_num h.nums.prevPlusDm h.nums.prevAtr
  have hminus := di_num h.nums.prevMinusDm h.nums.prevAtr
  have hdx := dxOf_num hplus hminus
  exact ⟨{ h with
    nums := ⟨h.nums.1, h.nums.2, h.nums.3, h.nums.4, h.nums.5, h.nums.6, h.nums.7, h.nums.8⟩
    plusDi := h.plusDi.snoc_num (Nat.succ_pos _) (by omega) hplus
    minusDi := h.minusDi.snoc_num (Nat.succ_pos _) (by omega) hminus
    dx := h.dx.snoc_num (Nat.succ_pos _) (by omega) hdx }, hdx⟩

theorem Between.countDx (h : d.Between period (t + 1) t) (hpos : 0 < period) (hle : period ≤ t) (hdx : IsNum dx)
    (hadx : d.adxInitialized = false) : (d.countDx dx).Between period (t + 1) (t + 1) := by
  have hcount := h.dxCount hadx
  have hlt : ¬ 2 * period ≤ t := fun hge => Bool.eq_false_iff.1 hadx (h.adx.2 hge)
  have hsum : IsNum (d.dxSum + dx) := by simp [h.nums.dxSum, hdx]
  have hadxr := h.adxr.snoc_nan (show t + 1 < 3 * period by omega)
  unfold DirectionalMovement.countDx
  dsimp only
  split_ifs with hfull <;> rw [hcount, h.periodEq] at hfull
  · have hprev : IsNum ((d.dxSum + dx) / Arith.ofCount d.period) := by
      rw [OrNan.isNum_div_ofCount (h.periodEq ▸ hpos)]
      exact hsum
    exact { h with
      nums := { h.nums with dxSum := hsum, prevAdx := hprev }
      line := h.line.snoc_num (by omega) (by omega) hprev
      adxr := hadxr
      dxCount := nofun
      adx := iff_of_true rfl (by omega) }
  · exact { h with
      nums := { h.nums with dxSum := hsum }
      line := h.line.snoc_nan (by omega)
      adxr := hadxr
      dxCount := fun _ => by show d.dxCount + 1 = t + 1 - period; omega
      adx := iff_of_false (Bool.eq_false_iff.1 hadx) (by omega) }

theorem adxrOf_late {line : List OrNan} {prevAdx : OrNan} (h : Late (2 * period) (t + 1) line) (hle : period ≤ t)
    (hprev : IsNum prevAdx) : ∃ v, adxrOf line period prevAdx = some v ∧ (IsNum v ↔ 3 * period ≤ t + 1) := by
  obtain ⟨before, hbefore, hbeforeNum⟩ := h.read (show t - period < t + 1 by omega)
  unfold adxrOf
  rw [h.length, if_neg (by omega), show t + 1 - 1 - period = t - period by omega, hbefore]
  refine ⟨_, rfl, ?_⟩
  rw [show 3 * period ≤ t + 1 ↔ 2 * period ≤ t - period + 1 by omega, ← hbeforeNum]
  split_ifs with hnan
  · exact iff_of_false OrNan.not_isNum_nan (OrNan.isNaN_iff.1 hnan)
  · simp [hprev]

theorem Between.advanceAdx (h : d.Between period (t + 1) t) (hpos : 0 < period) (hdx : IsNum dx)
    (hadx : d.adxInitialized = true) :
    ∃ d', d.advanceAdx dx = some d' ∧ d'.Between period (t + 1) (t + 1) ∧ d'.atrInitialized = d.atrInitialized := by
  have hge := h.adx.1 hadx
  have hprev : IsNum ((d.prevAdx * (Arith.ofCount d.period - 1) + dx) / Arith.ofCount d.period) := by
    rw [OrNan.isNum_div_ofCount (h.periodEq ▸ hpos)]
    simp [h.nums.prevAdx, hdx]
  have hline := h.line.snoc_num (by omega) (by omega) hprev
  obtain ⟨v, hv, hvNum⟩ := adxrOf_late hline (by omega) hprev
  rw [← h.periodEq] at hv
  unfold DirectionalMovement.advanceAdx
  simp only [hv, Option.bind_eq_bind, Option.bind_some]
  exact ⟨_, rfl, { h with
    nums := { h.nums with prevAdx := hprev }
    line := hline
    adxr := h.adxr.snoc (by omega) hvNum
    dxCount := fun hfalse => absurd (hfalse.symm.trans hadx) Bool.false_ne_true
    adx := iff_of_true hadx (by omega) }, rfl⟩

theorem countDx_atr (d : DirectionalMovement OrNan) (dx : OrNan) : (d.countDx dx).atrInitialized = d.atrInitialized := by
  unfold countDx
  dsimp only
  split_ifs <;> rfl

theorem After.seed (h : d.After period t) (hpos : 0 < period) (ht : 0 < t) (hm : m.Nums) (hatr : d.atrInitialized = false) :
    (d.seed m).After period (t + 1) := by
  have hcount := h.seedCount hatr
  have hlt : ¬ period + 1 ≤ t := fun hge => Bool.eq_false_iff.1 hatr (h.atr.2 hge)
  have hnums := h.between.nums
  have htr : IsNum (d.trSum + m.tr) := by simp [hnums.trSum, hm.tr]
  have hplus : IsNum (d.plusDmSum + m.plusDm) := by simp [hnums.plusDmSum, hm.plusDm]
  have hminus : IsNum (d.minusDmSum + m.minusDm) := by simp [hnums.minusDmSum, hm.minusDm]
  have hdiv : ∀ x : OrNan, IsNum x → IsNum (x / Arith.ofCount d.period) := fun x hx =>
    (OrNan.isNum_div_ofCount (h.between.periodEq ▸ hpos)).2 hx
  unfold DirectionalMovement.seed
  dsimp only
  split_ifs with hfull <;> rw [hcount, h.between.periodEq] at hfull
  · let d₁ : DirectionalMovement OrNan := { d with
      trSum := d.trSum + m.tr, plusDmSum := d.plusDmSum + m.plusDm, minusDmSum := d.minusDmSum + m.minusDm
      seedCount := d.seedCount + 1, prevAtr := (d.trSum + m.tr) / Arith.ofCount d.period
      prevPlusDm := (d.plusDmSum + m.plusDm) / Arith.ofCount d.period
      prevMinusDm := (d.minusDmSum + m.minusDm) / Arith.ofCount d.period, atrInitialized := true }
    have hd₁ : d₁.Between period t t := { h.between with
      nums := { hnums with
        trSum := htr, plusDmSum := hplus, minusDmSum := hminus
        prevAtr := hdiv _ htr, prevPlusDm := hdiv _ hplus, prevMinusDm := hdiv _ hminus } }
    have hadx : d₁.adxInitialized = false :=
      Bool.eq_false_iff.2 fun htrue => absurd (h.between.adx.1 htrue) (by omega)
    obtain ⟨hbetween, hdx⟩ := hd₁.indicate (by omega)
    have hinit : (d₁.indicate.2.countDx d₁.indicate.1).atrInitialized = true := countDx_atr _ _
    exact ⟨hbetween.countDx hpos (by omega) hdx hadx,
      fun hfalse => absurd (hfalse.symm.trans hinit) Bool.false_ne_true, iff_of_true hinit (by omega)⟩
  · let d₁ : DirectionalMovement OrNan := { d with
      trSum := d.trSum + m.tr, plusDmSum := d.plusDmSum + m.plusDm, minusDmSum := d.minusDmSum + m.minusDm
      seedCount := d.seedCount + 1 }
    have hd₁ : d₁.Between period t t := { h.between with
      nums := { hnums with trSum := htr, plusDmSum := hplus, minusDmSum := hminus } }
    exact ⟨hd₁.blank hpos (by omega), fun _ => by show d.seedCount + 1 = t + 1 - 1; omega,
      iff_of_false (Bool.eq_false_iff.1 hatr) (by omega)⟩

theorem After.advance (h : d.After period t) (hpos : 0 < period) (hm : m.Nums) (hatr : d.atrInitialized = true) :
    ∃ d', d.advance m = some d' ∧ d'.After period (t + 1) := by
  have hge := h.atr.1 hatr
  have hnums := h.between.nums
  have havg : ∀ x y : OrNan, IsNum x → IsNum y →
      IsNum ((x * (Arith.ofCount d.period - 1) + y) / Arith.ofCount d.period) := fun x y hx hy => by
    rw [OrNan.isNum_div_ofCount (h.between.periodEq ▸ hpos)]
    simp [hx, hy]
  let d₁ : DirectionalMovement OrNan := { d with
    prevAtr := (d.prevAtr * (Arith.ofCount d.period - 1) + m.tr) / Arith.ofCount d.period
    prevPlusDm := (d.prevPlusDm * (Arith.ofCount d.period - 1) + m.plusDm) / Arith.ofCount d.period
    prevMinusDm := (d.prevMinusDm * (Arith.ofCount d.period - 1) + m.minusDm) / Arith.ofCount d.period }
  have hd₁ : d₁.Between period t t := { h.between with
    nums := { hnums with
      prevAtr := havg _ _ hnums.prevAtr hm.tr
      prevPlusDm := havg _ _ hnums.prevPlusDm hm.plusDm
      prevMinusDm := havg _ _ hnums.prevMinusDm hm.minusDm } }
  obtain ⟨hbetween, hdx⟩ := hd₁.indicate (by omega)
  have hafter : ∀ d' : DirectionalMovement OrNan, d'.Between period (t + 1) (t + 1) → d'.atrInitialized = true →
      d'.After period (t + 1) := fun d' hd' hinit =>
    ⟨hd', fun hfalse => absurd (hfalse.symm.trans hinit) Bool.false_ne_true, iff_of_true hinit (by omega)⟩
  unfold DirectionalMovement.advance
  dsimp only
  split_ifs with hadx
  · have hadx : d.adxInitialized = false := by simpa using hadx
    exact ⟨_, rfl, hafter _ (hbetween.countDx hpos (by omega) hdx hadx) ((countDx_atr _ _).trans hatr)⟩
  · have hadx : d.adxInitialized = true := by simpa using hadx
    obtain ⟨d', hd', hbetween', hinit⟩ := hbetween.advanceAdx hpos hdx hadx
    exact ⟨d', hd', hafter d' hbetween' (hinit.trans hatr)⟩

theorem After.next (h : d.After period t) (hpos : 0 < period) (hbars : Numerics t high low close) :
    ∃ d', d.next high low close = some d' ∧ d'.After period (t + 1) := by
  unfold DirectionalMovement.next
  rw [hbars.close.cursor]
  by_cases hzero : t = 0
  · subst hzero
    rw [if_pos rfl]
    exact ⟨_, rfl, h.between.blank hpos hpos, fun hatr => h.seedCount hatr, h.atr.trans (by omega)⟩
  · obtain ⟨m, hm, hmNums⟩ := moves_num hbars (Nat.pos_of_ne_zero hzero)
    rw [if_neg hzero, hm, Option.bind_eq_bind, Option.bind_some]
    cases hatr : d.atrInitialized with
    | false => exact ⟨_, rfl, h.seed hpos (Nat.pos_of_ne_zero hzero) hmNums hatr⟩
    | true => exact h.advance hpos hmNums hatr

end DirectionalMovement

end Ready

end Indicators

end StratForge
