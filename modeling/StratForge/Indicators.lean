import StratForge.PopFeatures
import StratForge.Access

/-!
# Indicators, access by access (`indicators/*.hpp`)

The indicators index vectors without a check, so `next` is none where the code reads or writes outside of a vector. A
source is a `Line` that somebody else moves; an output line is the list of what has been put out.
-/

namespace StratForge
open Floating (nan isNaN)
open Access (readBack write)

namespace Indicators
variable {α : Type}

variable [Arith α]

/-- The sum of the last `count` values, the newest first. -/
def sumBack (v : List α) (idx count : Nat) : Option α := do
  let values ← (List.range count).mapM (readBack v idx)
  return Simd.reduceSum values

def averageBack (v : List α) (idx count : Nat) : Option α := do
  let sum ← sumBack v idx count
  return sum / Arith.ofCount count

theorem sumBack_eq {v : List α} {idx count : Nat} (hidx : idx < v.length) (hcount : count ≤ idx + 1) :
    sumBack v idx count = some (Simd.reduceSum ((v.drop (idx + 1 - count)).take count).reverse) := by
  rw [sumBack, Access.mapM_readBack_eq hidx hcount]
  rfl

theorem averageBack_eq {v : List α} {idx count : Nat} (hidx : idx < v.length) (hcount : count ≤ idx + 1) :
    averageBack v idx count =
      some (Simd.reduceSum ((v.drop (idx + 1 - count)).take count).reverse / Arith.ofCount count) := by
  rw [averageBack, sumBack_eq hidx hcount]
  rfl

variable [Floating α]

/-! ### MACD -/

structure MACD (α : Type) where
  fastPeriod : Nat
  slowPeriod : Nat
  signalPeriod : Nat
  line : List α := []
  signal : List α := []
  histogram : List α := []
  fastEma : List α := []
  slowEma : List α := []
  fastPrevEma : α
  slowPrevEma : α
  signalPrevEma : α
  macdValidCount : Nat := 0
  fastInitialized : Bool := false
  slowInitialized : Bool := false
  signalInitialized : Bool := false

namespace MACD

def init (fastPeriod slowPeriod signalPeriod : Nat) : MACD α :=
  { fastPeriod, slowPeriod, signalPeriod, fastPrevEma := 0, slowPrevEma := 0, signalPrevEma := 0 }

def multiplier (period : Nat) : α := 2.0 / (Arith.ofCount period + 1)

def advanceEma (current prev multiplier : α) : α := (current - prev) * multiplier + prev

/-- An average is seeded on its first bar, and advanced on the others. -/
def average (source : Line α) (period : Nat) (initialized : Bool) (prev : α) : Option α :=
  if !initialized then averageBack source.data source.idx period
  else do
    let current ← source.data[source.idx]?
    return advanceEma current prev (multiplier period)

def nextFast (source : Line α) (m : MACD α) : Option (MACD α) :=
  if source.idx + 1 < m.fastPeriod then some { m with fastEma := m.fastEma ++ [nan] }
  else do
    let ema ← average source m.fastPeriod m.fastInitialized m.fastPrevEma
    return { m with fastPrevEma := ema, fastInitialized := true, fastEma := m.fastEma ++ [ema] }

def nextSlow (source : Line α) (m : MACD α) : Option (MACD α) := do
  let ema ← average source m.slowPeriod m.slowInitialized m.slowPrevEma
  return { m with slowPrevEma := ema, slowInitialized := true, slowEma := m.slowEma ++ [ema] }

/-- The signal is seeded from the output line at the positions of the source. -/
def signalAverage (source : Line α) (macdValue : α) (m : MACD α) : Option α :=
  if !m.signalInitialized then averageBack m.line source.idx m.signalPeriod
  else some (advanceEma macdValue m.signalPrevEma (multiplier m.signalPeriod))

def nextSignal (source : Line α) (macdValue : α) (m : MACD α) : Option (MACD α) := do
  let ema ← m.signalAverage source macdValue
  return { m with signalPrevEma := ema, signalInitialized := true, signal := m.signal ++ [ema],
                  histogram := m.histogram ++ [macdValue - ema] }

def nextLine (source : Line α) (m : MACD α) : Option (MACD α) :=
  let macdValue := m.fastPrevEma - m.slowPrevEma
  let m := { m with line := m.line ++ [macdValue], macdValidCount := m.macdValidCount + 1 }
  if m.macdValidCount < m.signalPeriod then some { m with signal := m.signal ++ [nan], histogram := m.histogram ++ [nan] }
  else m.nextSignal source macdValue

def next (source : Line α) (m : MACD α) : Option (MACD α) := do
  let m ← m.nextFast source
  if source.idx + 1 < m.slowPeriod then
    return { m with slowEma := m.slowEma ++ [nan], line := m.line ++ [nan], signal := m.signal ++ [nan],
                    histogram := m.histogram ++ [nan] }
  else
    let m ← m.nextSlow source
    m.nextLine source

end MACD

/-! ### HeikinAshi -/

/-- The output line is that of the closes. -/
structure HeikinAshi (α : Type) where
  line : List α := []
  haOpen : List α := []
  haHigh : List α := []
  haLow : List α := []

namespace HeikinAshi

/-- The open of a candle is halfway between those of the candle before. -/
def nextOpen (haOpen haClose : List α) (idx : Nat) : Option α := do
  let prevOpen ← haOpen[idx - 1]?
  let prevClose ← haClose[idx - 1]?
  return (prevOpen + prevClose) / 2.0

/-- The candle of a bar. -/
def candle (idx : Nat) (o hi lo c : α) (h : HeikinAshi α) : Option (HeikinAshi α) :=
  let haClose := (o + hi + lo + c) / 4.0
  let h := { h with line := h.line ++ [haClose] }
  if idx = 0 then
    some { h with haOpen := h.haOpen ++ [(o + c) / 2.0], haHigh := h.haHigh ++ [nan], haLow := h.haLow ++ [nan] }
  else do
    let haOpen := h.haOpen ++ [← nextOpen h.haOpen h.line idx]
    let current ← haOpen[idx]?
    return { h with haOpen, haHigh := h.haHigh ++ [Arith.max (Arith.max hi current) haClose],
                    haLow := h.haLow ++ [Arith.min (Arith.min lo current) haClose] }

def next («open» high low close : Line α) (h : HeikinAshi α) : Option (HeikinAshi α) := do
  let idx := close.idx
  let o ← open.data[idx]?
  let hi ← high.data[idx]?
  let lo ← low.data[idx]?
  let c ← close.data[idx]?
  h.candle idx o hi lo c

end HeikinAshi

/-! ### ParabolicSAR -/

namespace ParabolicSAR

/-- An entry of `status_`. -/
structure Status (α : Type) where
  sar : α
  tr : Bool
  af : α
  ep : α

namespace Status

/-- Turned around where the price has reached the SAR. -/
def turned (afStep hi lo : α) (prev : Status α) : Status α :=
  if (prev.tr && decide (lo ≤ prev.sar)) || (!prev.tr && decide (prev.sar ≤ hi)) then
    { tr := !prev.tr, sar := prev.ep, ep := if !prev.tr then hi else lo, af := afStep }
  else prev

/-- A new extreme point accelerates. -/
def extended (afStep afMax hi lo : α) (s : Status α) : Status α :=
  if s.tr then
    if s.ep < hi then { s with ep := hi, af := Arith.min (s.af + afStep) afMax } else s
  else
    if lo < s.ep then { s with ep := lo, af := Arith.min (s.af + afStep) afMax } else s

/-- The SAR of the next bar, kept off the lows or the highs of this bar and of the one before, `edge`. -/
def moved (hi lo edge : α) (s : Status α) : Status α :=
  let sar := s.sar + s.af * (s.ep - s.sar)
  if s.tr then { s with sar := if lo < sar ∨ edge < sar then Arith.min lo edge else sar }
  else { s with sar := if sar < hi ∨ sar < edge then Arith.max hi edge else sar }

end Status
end ParabolicSAR

open ParabolicSAR (Status) in
structure ParabolicSAR (α : Type) where
  period : Nat
  afStep : α
  afMax : α
  line : List α := []
  status : List (Status α) := []

namespace ParabolicSAR

/-- `status_.resize(2)`, with the first bar in the entry that the second one reads. -/
def seed (high low close : Line α) (p : ParabolicSAR α) : Option (List (Status α)) := do
  let hi ← high.data[0]?
  let lo ← low.data[0]?
  let c1 ← close.data[1]?
  let c0 ← close.data[0]?
  let blank : Status α := { sar := 0, tr := false, af := 0, ep := 0 }
  let sar := (hi + lo) / 2.0
  let prev : Status α :=
    if c0 ≤ c1 then { sar, tr := false, af := p.afStep, ep := lo } else { sar, tr := true, af := p.afStep, ep := hi }
  return [blank, prev]

/-- The entries that a bar finds. -/
def found (high low close : Line α) (p : ParabolicSAR α) : Option (List (Status α)) :=
  if close.idx + 1 = 2 ∧ p.status.isEmpty then p.seed high low close else some p.status

/-- A bar after the first one: the entry that it reads gives the output, and it writes the other one. -/
def track (high low close : Line α) (p : ParabolicSAR α) : Option (ParabolicSAR α) := do
  let len := close.idx + 1
  let status ← p.found high low close
  let plenidx := (len - 1) % 2
  let prev ← status[plenidx]?
  let hi ← high.data[len - 1]?
  let lo ← low.data[len - 1]?
  let turned := prev.turned p.afStep hi lo
  let extended := turned.extended p.afStep p.afMax hi lo
  let edge ← (if extended.tr then low else high).data[len - 2]?
  let status ← write status (if plenidx = 0 then 1 else 0) (extended.moved hi lo edge)
  return { p with status, line := p.line ++ [if len < p.period then nan else turned.sar] }

def next (high low close : Line α) (p : ParabolicSAR α) : Option (ParabolicSAR α) :=
  if close.idx + 1 = 1 then some { p with status := [], line := p.line ++ [nan] } else p.track high low close

end ParabolicSAR

/-! ### Ichimoku -/

structure Ichimoku (α : Type) where
  tenkan : Nat
  kijun : Nat
  senkou : Nat
  senkouLead : Nat
  chikou : Nat
  barCount : Nat := 0
  senkouABuf : List α
  senkouBBuf : List α
  saCursor : Nat := 0
  sbCursor : Nat := 0
  line : List α := []
  kijunSen : List α := []
  senkouSpanA : List α := []
  senkouSpanB : List α := []
  chikouSpan : List α := []

namespace Ichimoku

def init (tenkan kijun senkou senkouLead chikou : Nat) : Ichimoku α :=
  { tenkan := if tenkan = 0 then 1 else tenkan
    kijun := if kijun = 0 then 1 else kijun
    senkou := if senkou = 0 then 1 else senkou
    senkouLead, chikou, senkouABuf := .replicate senkouLead nan, senkouBBuf := .replicate senkouLead nan }

def senkouLeadBufSize (k : Ichimoku α) : Nat := if k.senkouLead = 0 then 1 else k.senkouLead

/-- Halfway between the extremes of the bars up to `idx`, the newest first. -/
def midpoint (high low : List α) (idx period : Nat) : Option α := do
  let highest ← high[idx]?
  let lowest ← low[idx]?
  let older := (List.range (period - 1)).map (· + 1)
  let highs ← older.mapM (readBack high idx)
  let lows ← older.mapM (readBack low idx)
  return (highs.foldl Arith.max highest + lows.foldl Arith.min lowest) / 2.0

/-- The midpoint once there are enough bars. -/
def midpointFrom (high low : Line α) (idx period : Nat) : Option α :=
  if period ≤ idx + 1 then midpoint high.data low.data idx period else some nan

/-- The oldest pending value of a ring buffer, and the buffer with the new one in its place. -/
def exchange (buf : List α) (cursor : Nat) (pending : α) : Option (α × List α) := do
  let oldest ← buf[cursor]?
  return (oldest, ← write buf cursor pending)

/-- The close belongs `chikou` bars back; the bar itself waits for its own. -/
def shiftBack (close : Line α) (idx : Nat) (k : Ichimoku α) : Option (List α) :=
  if idx < k.chikou then some (k.chikouSpan ++ [nan])
  else do
    let c ← close.data[idx]?
    let chikouSpan ← write k.chikouSpan (idx - k.chikou) c
    return chikouSpan ++ [nan]

/-- Its own count of the calls is what it indexes the source with. -/
def next (high low close : Line α) (k : Ichimoku α) : Option (Ichimoku α) := do
  let idx := k.barCount
  let tenkanValue ← midpointFrom high low idx k.tenkan
  let kijunValue ← midpointFrom high low idx k.kijun
  let saPending := if !isNaN tenkanValue && !isNaN kijunValue then (tenkanValue + kijunValue) / 2.0 else nan
  let (sa, senkouABuf) ← exchange k.senkouABuf k.saCursor saPending
  let sbPending ← midpointFrom high low idx k.senkou
  let (sb, senkouBBuf) ← exchange k.senkouBBuf k.sbCursor sbPending
  let chikouSpan ← k.shiftBack close idx
  return { k with
    barCount := idx + 1, senkouABuf, senkouBBuf, chikouSpan
    saCursor := (k.saCursor + 1) % k.senkouLeadBufSize
    sbCursor := (k.sbCursor + 1) % k.senkouLeadBufSize
    line := k.line ++ [tenkanValue]
    kijunSen := k.kijunSen ++ [kijunValue]
    senkouSpanA := k.senkouSpanA ++ [sa]
    senkouSpanB := k.senkouSpanB ++ [sb] }

end Ichimoku

end Indicators

end StratForge
