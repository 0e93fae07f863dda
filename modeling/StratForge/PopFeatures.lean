import StratForge.Batcher
import StratForge.Contracts
import StratForge.ProcessOrders

/-!
# The features of a candidate (`corrective/pop_feature_builder.hpp`)

The indicators of a feed read it where its cursor stands, so what they are is a function of the positions at which they
have been advanced: `FeedIndicators.fed`. An indicator's output line is the list of what it has put out.

`Floating` is what the indicators use of `double` besides the arithmetic.
-/

namespace StratForge

class Floating (α : Type) [Arith α] where
  nan : α
  isFinite : α → Bool
  isNaN : α → Bool
  sqrt : α → α
  /-- `static_cast<float>`, and back. -/
  toFloat : α → α

/-- A `float` is the `double` of the same value. The root is rounded down to a millionth. -/
instance : Floating OrNan where
  nan := .nan
  isFinite x := x ≠ .nan
  isNaN x := x = .nan
  sqrt
    | .num q => .num (Nat.sqrt (q * 10 ^ 12).floor.toNat / 10 ^ 6)
    | .nan => .nan
  toFloat := id

open Floating (nan isFinite isNaN)

variable {α : Type} [Arith α] [Floating α]

/-! ### Reductions -/

namespace Simd

/-- `reduce_sum`, and the sums that are written out in the indicators. -/
def reduceSum (xs : List α) : α := xs.foldl (· + ·) 0

/-- The population variance. -/
def reduceMeanVariance (xs : List α) : α × α :=
  let mean := reduceSum xs / Arith.ofCount xs.length
  let varianceSum := xs.foldl (fun s x => s + (x - mean) * (x - mean)) 0
  (mean, varianceSum / Arith.ofCount xs.length)

end Simd

/-- The last `period` values of a source up to `idx`. -/
def window (source : List α) (idx period : Nat) : List α := (source.drop (idx + 1 - period)).take period

/-- The value at `idx`; the indicators stay within the source. -/
def valueAt (source : List α) (idx : Nat) : α := source[idx]?.getD 0

/-! ### The indicators -/

/-- With the smoothed average and without `safediv`, over one bar. -/
structure RSI (α : Type) where
  period : Nat
  line : List α := []
  gains : List α := []
  losses : List α := []
  avgGain : α
  avgLoss : α
  initialized : Bool := false

def RSI.init (period : Nat) : RSI α := { period, avgGain := 0, avgLoss := 0 }

def RSI.seedAverage (r : RSI α) (line : List α) : α :=
  Simd.reduceSum (line.drop (line.length - r.period)) / Arith.ofCount r.period

def RSI.next (source : List α) (idx : Nat) (r : RSI α) : RSI α :=
  if idx < 1 then { r with line := r.line ++ [nan] }
  else
    let change := valueAt source idx - valueAt source (idx - 1)
    let gain := Arith.max change 0
    let loss := Arith.max (-change) 0
    let r := { r with gains := r.gains ++ [gain], losses := r.losses ++ [loss] }
    if r.gains.length < r.period then { r with line := r.line ++ [nan] }
    else
      let r :=
        if !r.initialized then
          { r with avgGain := r.seedAverage r.gains, avgLoss := r.seedAverage r.losses, initialized := true }
        else
          let periodD := Arith.ofCount r.period
          { r with avgGain := (r.avgGain * (periodD - 1) + gain) / periodD,
                   avgLoss := (r.avgLoss * (periodD - 1) + loss) / periodD }
      let value := if r.avgLoss == 0 then (if r.avgGain == 0 then nan else 100.0)
        else 100.0 - 100.0 / (1 + r.avgGain / r.avgLoss)
      { r with line := r.line ++ [value] }

structure ATR (α : Type) where
  period : Nat
  line : List α := []
  trSum : α
  trCount : Nat := 0
  prevAtr : α
  initialized : Bool := false

def ATR.init (period : Nat) : ATR α := { period, trSum := 0, prevAtr := 0 }

def ATR.next (high low close : List α) (idx : Nat) (a : ATR α) : ATR α :=
  if idx = 0 then { a with line := a.line ++ [nan] }
  else
    let highLow := valueAt high idx - valueAt low idx
    let highPrevClose := Arith.abs (valueAt high idx - valueAt close (idx - 1))
    let lowPrevClose := Arith.abs (valueAt low idx - valueAt close (idx - 1))
    let trueRange := Arith.max (Arith.max highLow highPrevClose) lowPrevClose
    if !a.initialized then
      let a := { a with trSum := a.trSum + trueRange, trCount := a.trCount + 1 }
      if a.trCount < a.period then { a with line := a.line ++ [nan] }
      else
        let prevAtr := a.trSum / Arith.ofCount a.period
        { a with prevAtr, initialized := true, line := a.line ++ [prevAtr] }
    else
      let periodD := Arith.ofCount a.period
      let prevAtr := (a.prevAtr * (periodD - 1) + trueRange) / periodD
      { a with prevAtr, line := a.line ++ [prevAtr] }

structure SMA (α : Type) where
  period : Nat
  line : List α := []

def SMA.next (source : List α) (idx : Nat) (s : SMA α) : SMA α :=
  if idx + 1 < s.period then { s with line := s.line ++ [nan] }
  else { s with line := s.line ++ [Simd.reduceSum (window source idx s.period) / Arith.ofCount s.period] }

structure StdDev (α : Type) where
  period : Nat
  line : List α := []

def StdDev.next (source : List α) (idx : Nat) (s : StdDev α) : StdDev α :=
  if idx + 1 < s.period then { s with line := s.line ++ [nan] }
  else { s with line := s.line ++ [Floating.sqrt (Simd.reduceMeanVariance (window source idx s.period)).2] }

/-- The bands of `BollingerBands` and the `%B` line; the lines of the bands are those of the inner indicator. -/
structure BollingerBandsPct (α : Type) where
  period : Nat
  devfactor : α
  mid : List α := []
  top : List α := []
  bottom : List α := []
  pctb : List α := []

def BollingerBandsPct.next (source : List α) (idx : Nat) (b : BollingerBandsPct α) : BollingerBandsPct α :=
  let (mid, top, bot) : α × α × α :=
    if idx + 1 < b.period then (nan, nan, nan)
    else
      let (mean, variance) := Simd.reduceMeanVariance (window source idx b.period)
      let stddev := Floating.sqrt variance
      (mean, mean + b.devfactor * stddev, mean - b.devfactor * stddev)
  let pctb := if isNaN mid || isNaN top || isNaN bot then nan else (valueAt source idx - bot) / (top - bot)
  { b with mid := b.mid ++ [mid], top := b.top ++ [top], bottom := b.bottom ++ [bot], pctb := b.pctb ++ [pctb] }

structure MACD (α : Type) where
  fastPeriod : Nat
  slowPeriod : Nat
  signalPeriod : Nat
  line : List α := []
  histogram : List α := []
  fastPrevEma : α
  slowPrevEma : α
  signalPrevEma : α
  macdValidCount : Nat := 0
  fastInitialized : Bool := false
  slowInitialized : Bool := false
  signalInitialized : Bool := false

namespace MACD

def init (fastPeriod slowPeriod signalPeriod : Nat) : MACD α :=
  { fastPeriod, slowPeriod, signalPeriod, fastPrevEma := 0, slowPrevEma := 0, signalPrevEma := 0 }

def multiplier (period : Nat) : α := 2.0 / (Arith.ofCount period + 1)

/-- The newest value first. -/
def seedSma (source : List α) (idx period : Nat) : α :=
  Simd.reduceSum ((List.range period).map fun i => valueAt source (idx - i)) / Arith.ofCount period

def advanceEma (current prev multiplier : α) : α := (current - prev) * multiplier + prev

/-- The signal line is seeded from the output line at the positions of the source. -/
def next (source : List α) (idx : Nat) (m : MACD α) : MACD α :=
  let m :=
    if idx + 1 < m.fastPeriod then m
    else if !m.fastInitialized then { m with fastPrevEma := seedSma source idx m.fastPeriod, fastInitialized := true }
    else { m with fastPrevEma := advanceEma (valueAt source idx) m.fastPrevEma (multiplier m.fastPeriod) }
  if idx + 1 < m.slowPeriod then { m with line := m.line ++ [nan], histogram := m.histogram ++ [nan] }
  else
    let m :=
      if !m.slowInitialized then { m with slowPrevEma := seedSma source idx m.slowPeriod, slowInitialized := true }
      else { m with slowPrevEma := advanceEma (valueAt source idx) m.slowPrevEma (multiplier m.slowPeriod) }
    let macdValue := m.fastPrevEma - m.slowPrevEma
    let m := { m with line := m.line ++ [macdValue], macdValidCount := m.macdValidCount + 1 }
    if m.macdValidCount < m.signalPeriod then { m with histogram := m.histogram ++ [nan] }
    else
      let m :=
        if !m.signalInitialized then
          { m with signalPrevEma := seedSma m.line idx m.signalPeriod, signalInitialized := true }
        else { m with signalPrevEma := advanceEma macdValue m.signalPrevEma (multiplier m.signalPeriod) }
      { m with histogram := m.histogram ++ [macdValue - m.signalPrevEma] }

end MACD

/-! ### The indicators of a feed -/

structure FeedIndicators (α : Type) where
  rsi : RSI α
  atr : ATR α
  bbPct : BollingerBandsPct α
  macd : MACD α
  volSma : SMA α
  closeSma : SMA α
  closeStddev : StdDev α

namespace FeedIndicators

def init : FeedIndicators α :=
  { rsi := .init 14, atr := .init 14, bbPct := { period := 20, devfactor := 2.0 }, macd := .init 12 26 9,
    volSma := { period := 20 }, closeSma := { period := 20 }, closeStddev := { period := 20 } }

/-- Every indicator is advanced at a position of the feed's bars. -/
def advanceAt (rows : List (Row α)) (idx : Nat) (fi : FeedIndicators α) : FeedIndicators α :=
  let close := rows.map Row.close
  { rsi := fi.rsi.next close idx
    atr := fi.atr.next (rows.map Row.high) (rows.map Row.low) close idx
    bbPct := fi.bbPct.next close idx
    macd := fi.macd.next close idx
    volSma := fi.volSma.next (rows.map Row.volume) idx
    closeSma := fi.closeSma.next close idx
    closeStddev := fi.closeStddev.next close idx }

def advance (feed : DataFeed α) (fi : FeedIndicators α) : FeedIndicators α := fi.advanceAt feed.lines.data feed.index

/-- The indicators after the bars at these positions. -/
def fed (rows : List (Row α)) (positions : List Nat) : FeedIndicators α :=
  positions.foldl (fun fi idx => fi.advanceAt rows idx) init

def lastVal (line : List α) : α :=
  match line.getLast? with
  | none => 0
  | some v => if isFinite v then v else 0

def rsiVal (fi : FeedIndicators α) : α := lastVal fi.rsi.line
def atrVal (fi : FeedIndicators α) : α := lastVal fi.atr.line
def bbPctbVal (fi : FeedIndicators α) : α := lastVal fi.bbPct.pctb
def macdHistoVal (fi : FeedIndicators α) : α := lastVal fi.macd.histogram

/-- The volume is that of the feed's last bar. -/
def volumeRatio (feed : DataFeed α) (fi : FeedIndicators α) : α :=
  let vol := feed.volume.data.getLast?.getD 0
  let avg := lastVal fi.volSma.line
  if isFinite avg && decide (0 < avg) then vol / avg else 0

def volatilityZ (feed : DataFeed α) (fi : FeedIndicators α) : α :=
  let c := feed.close.data.getLast?.getD 0
  let sma := lastVal fi.closeSma.line
  let sd := lastVal fi.closeStddev.line
  if !isFinite sma || !isFinite sd || decide (sd < 1e-15) then 0 else (c - sma) / sd

end FeedIndicators

/-! ### The builder -/

structure PopFeatureBuilder (α : Type) where
  feedIndicators : List (FeedIndicators α)
  initialized : Bool
  barsSinceLastTrade : Nat
  equityPeak : α

namespace PopFeatureBuilder

/-- Before `init`. -/
def blank : PopFeatureBuilder α := { feedIndicators := [], initialized := false, barsSinceLastTrade := 0, equityPeak := 0 }

/-- One set of indicators for each of `n` feeds. -/
def init (n : Nat) : PopFeatureBuilder α :=
  { feedIndicators := .replicate n .init, initialized := true, barsSinceLastTrade := 0, equityPeak := 0 }

/-- Every feed's indicators are advanced where the feed stands. -/
def advance (feeds : List (DataFeed α)) (p : PopFeatureBuilder α) : PopFeatureBuilder α :=
  { p with feedIndicators := List.zipWith FeedIndicators.advance feeds p.feedIndicators,
           barsSinceLastTrade := p.barsSinceLastTrade + 1 }

def recordTrade (p : PopFeatureBuilder α) : PopFeatureBuilder α := { p with barsSinceLastTrade := 0 }

def updateEquityPeak (portfolioValue : α) (p : PopFeatureBuilder α) : PopFeatureBuilder α :=
  if p.equityPeak < portfolioValue then { p with equityPeak := portfolioValue } else p

def safeFloat (v : α) : α := if isFinite v then Floating.toFloat v else 0

def computeDrawdownPct (p : PopFeatureBuilder α) (pv : α) : α :=
  if p.equityPeak ≤ 0 then 0 else (p.equityPeak - pv) / p.equityPeak * 100.0

/-- The vector of a feed, from its indicators and its bar. -/
def build {W : Type} (p : PopFeatureBuilder α) (side : OrderSide) (proposedSize : α) (dataIndex : Nat)
    (feeds : List (DataFeed α)) (broker : BackBroker α W) : Except Error (Vector α kPopFeatureCountV1) :=
  match p.initialized, feeds[dataIndex]?, p.feedIndicators[dataIndex]? with
  | true, some feed, some fi => do
    let close ← feed.close.at' 0
    let initial := broker.initialCash
    let pv ← broker.portfolioValue feeds
    let unrealized := pv - broker.cash broker.baseCcy
    let openCount := broker.openTrades.countP (·.1.isOpen)
    pure #v[safeFloat (if 0 < initial then proposedSize / initial else 0), safeFloat close, 0,
      safeFloat (if 0 < close then fi.atrVal / close else 0), safeFloat (fi.volatilityZ feed), safeFloat fi.rsiVal,
      safeFloat fi.bbPctbVal, safeFloat fi.macdHistoVal, safeFloat (fi.volumeRatio feed),
      safeFloat (if 0 < initial then unrealized / initial else 0), Floating.toFloat (Arith.ofCount openCount),
      Floating.toFloat (Arith.ofCount p.barsSinceLastTrade), safeFloat (p.computeDrawdownPct pv),
      if side = .Buy then 1 else -1]
  | _, _, _ => pure (Vector.replicate _ 0)

end PopFeatureBuilder

end StratForge
