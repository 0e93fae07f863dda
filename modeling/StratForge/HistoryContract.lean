import StratForge.Oscillators

/-!
# The history contract of the indicators (`indicators/indicator.hpp`, `indicators/history_contract.hpp`)

What each class says of the first bar on which an output is ready, and on which bars it is.
-/

namespace StratForge
namespace Indicators
open Floating (nan)

/-! ### The public outputs -/

/-- The names of the outputs. -/
inductive Accessor
  | line
  | haOpen | haHigh | haLow | haClose
  | tenkanSen | kijunSen | senkouSpanA | senkouSpanB | chikouSpan
  | macd | signal | histogram
  | plusDi | minusDi | dx | adx | adxr
  | percK | percD | percDSlow
deriving DecidableEq

inductive Study (α : Type)
  | heikinAshi (h : HeikinAshi α)
  | parabolicSAR (p : ParabolicSAR α)
  | ichimoku (i : Ichimoku α)
  | macd (m : MACD α)
  | macdExt (m : MACDExt α)
  | directionalMovement (d : DirectionalMovement α)
  | stochastic (s : Stochastic α)
  | stochasticFull (s : StochasticFull α)
  | stochasticFast (s : StochasticFast α)
  | adaptiveMovingAverage (k : AdaptiveMovingAverage α)
  | atr (a : StratForge.ATR α)
  | ema (e : EMA α)
  | sma (s : StratForge.SMA α)

/-- The lines of a feed. -/
structure Prices (α : Type) where
  «open» : Line α := {}
  high : Line α := {}
  low : Line α := {}
  close : Line α := {}

namespace Study
variable {α : Type}

/-- The output of a name, for the names that the class has. -/
def accessor : Study α → Accessor → Option (List α)
  | heikinAshi h, .haOpen => some h.haOpen
  | heikinAshi h, .haHigh => some h.haHigh
  | heikinAshi h, .haLow => some h.haLow
  | heikinAshi h, .haClose => some h.line
  | parabolicSAR p, .line => some p.line
  | ichimoku i, .tenkanSen => some i.line
  | ichimoku i, .kijunSen => some i.kijunSen
  | ichimoku i, .senkouSpanA => some i.senkouSpanA
  | ichimoku i, .senkouSpanB => some i.senkouSpanB
  | ichimoku i, .chikouSpan => some i.chikouSpan
  | macd m, .macd => some m.line
  | macd m, .signal => some m.signal
  | macd m, .histogram => some m.histogram
  | macdExt m, .macd => some m.line
  | macdExt m, .signal => some m.signal
  | macdExt m, .histogram => some m.histogram
  | directionalMovement d, .plusDi => some d.plusDi
  | directionalMovement d, .minusDi => some d.minusDi
  | directionalMovement d, .dx => some d.dx
  | directionalMovement d, .adx => some d.line
  | directionalMovement d, .adxr => some d.adxr
  | stochastic s, .percK => some s.line
  | stochastic s, .percD => some s.percD
  | stochasticFull s, .percK => some s.line
  | stochasticFull s, .percD => some s.percD
  | stochasticFull s, .percDSlow => some s.percDslow
  | stochasticFast s, .percK => some s.line
  | stochasticFast s, .percD => some s.percD
  | adaptiveMovingAverage k, .line => some k.line
  | atr a, .line => some a.line
  | ema e, .line => some e.line
  | sma s, .line => some s.line
  | _, _ => none

/-- `minimum_period`. -/
def minimumPeriod : Study α → Nat
  | heikinAshi _ => 1
  | parabolicSAR p => p.period + 1
  | ichimoku i => max (max (max i.tenkan i.kijun) (i.senkou + i.senkouLead)) (i.chikou + 1)
  | macd m => m.slowPeriod + m.signalPeriod - 1
  | macdExt m => max m.fastPeriod m.slowPeriod + m.signalPeriod - 1
  | directionalMovement d => d.period * 3
  | stochastic s => s.period + s.periodDfast + s.periodDslow - 2
  | stochasticFull s => s.period + s.periodDfast + s.periodDslow - 2
  | stochasticFast s => s.full.period + s.full.periodDfast + s.full.periodDslow - 2
  | adaptiveMovingAverage k => k.period + 1
  | atr a => a.period + 1
  | ema e => e.period
  | sma s => s.period

/-- `accessor_minimum_period`; a class without its own has one for all. -/
def accessorMinimumPeriod : Study α → Accessor → Nat
  | ichimoku i, .tenkanSen => i.tenkan
  | ichimoku i, .kijunSen => i.kijun
  | ichimoku i, .senkouSpanA => max i.tenkan i.kijun + i.senkouLead
  | ichimoku i, .senkouSpanB => i.senkou + i.senkouLead
  | ichimoku i, _ => i.chikou + 1
  | macd m, .macd => m.slowPeriod
  | macdExt m, .macd => max m.fastPeriod m.slowPeriod
  | directionalMovement d, .plusDi => d.period + 1
  | directionalMovement d, .minusDi => d.period + 1
  | directionalMovement d, .dx => d.period + 1
  | directionalMovement d, .adx => d.period * 2
  | stochastic s, .percK => s.period + s.periodDfast - 1
  | stochasticFull s, .percK => s.period
  | stochasticFull s, .percD => s.period + s.periodDfast - 1
  | stochasticFast s, .percK => s.full.period
  | stochasticFast s, .percD => s.full.period + s.full.periodDfast - 1
  | study, _ => study.minimumPeriod

variable [Arith α] [Floating α]

def next (prices : Prices α) : Study α → Option (Study α)
  | heikinAshi h => (h.next prices.open prices.high prices.low prices.close).map heikinAshi
  | parabolicSAR p => (p.next prices.high prices.low prices.close).map parabolicSAR
  | ichimoku i => (i.next prices.high prices.low prices.close).map ichimoku
  | macd m => (m.next prices.close).map macd
  | macdExt m => (m.next prices.close).map macdExt
  | directionalMovement d => (d.next prices.high prices.low prices.close).map directionalMovement
  | stochastic s => (s.next prices.high prices.low prices.close).map stochastic
  | stochasticFull s => (s.next prices.high prices.low prices.close).map stochasticFull
  | stochasticFast s => (s.next prices.high prices.low prices.close).map stochasticFast
  | adaptiveMovingAverage k => (k.next prices.close).map adaptiveMovingAverage
  | atr a => some (atr (a.next prices.high.data prices.low.data prices.close.data prices.close.idx))
  | ema e => (e.next prices.close).map ema
  | sma s => some (sma (s.next prices.close.data prices.close.idx))

end Study

/-- A constructor with its arguments. The averages are of the closes. -/
inductive Ctor
  | heikinAshi
  | parabolicSAR (period : Nat) (af afmax : ℚ)
  | ichimoku (tenkan kijun senkou senkouLead chikou : Nat)
  | macd (fastPeriod slowPeriod signalPeriod : Nat)
  | macdExt (fastPeriod : Nat) (fastMa : MaType) (slowPeriod : Nat) (slowMa : MaType) (signalPeriod : Nat) (signalMa : MaType)
  | directionalMovement (period : Nat)
  | stochastic (period periodDfast periodDslow : Nat)
  | stochasticFull (period periodDfast periodDslow : Nat)
  | stochasticFast (period periodDfast : Nat)
  | adaptiveMovingAverage (period fast slow : Nat)
  | atr (period : Nat)
  | ema (period : Nat)
  | sma (period : Nat)

namespace Ctor

def make : Ctor → Study OrNan
  | heikinAshi => .heikinAshi {}
  | parabolicSAR period af afmax => .parabolicSAR { period, afStep := .num af, afMax := .num afmax }
  | ichimoku tenkan kijun senkou senkouLead chikou => .ichimoku (.init tenkan kijun senkou senkouLead chikou)
  | macd fastPeriod slowPeriod signalPeriod => .macd (.init fastPeriod slowPeriod signalPeriod)
  | macdExt fastPeriod fastMa slowPeriod slowMa signalPeriod signalMa =>
    .macdExt (.init fastPeriod fastMa slowPeriod slowMa signalPeriod signalMa)
  | directionalMovement period => .directionalMovement (.init period)
  | stochastic period periodDfast periodDslow => .stochastic { period, periodDfast, periodDslow }
  | stochasticFull period periodDfast periodDslow => .stochasticFull { period, periodDfast, periodDslow }
  | stochasticFast period periodDfast => .stochasticFast (.init period periodDfast)
  | adaptiveMovingAverage period fast slow => .adaptiveMovingAverage (.init period fast slow)
  | atr period => .atr (.init period)
  | ema period => .ema (.init period)
  | sma period => .sma { period := if period = 0 then 1 else period }

/-- Every period is at least one. -/
def Valid : Ctor → Prop
  | heikinAshi => True
  | parabolicSAR period _ _ => 0 < period
  | ichimoku tenkan kijun senkou senkouLead chikou => 0 < tenkan ∧ 0 < kijun ∧ 0 < senkou ∧ 0 < senkouLead ∧ 0 < chikou
  | macd fastPeriod slowPeriod signalPeriod => 0 < fastPeriod ∧ 0 < slowPeriod ∧ 0 < signalPeriod
  | macdExt fastPeriod _ slowPeriod _ signalPeriod _ => 0 < fastPeriod ∧ 0 < slowPeriod ∧ 0 < signalPeriod
  | directionalMovement period => 0 < period
  | stochastic period periodDfast periodDslow => 0 < period ∧ 0 < periodDfast ∧ 0 < periodDslow
  | stochasticFull period periodDfast periodDslow => 0 < period ∧ 0 < periodDfast ∧ 0 < periodDslow
  | stochasticFast period periodDfast => 0 < period ∧ 0 < periodDfast
  | adaptiveMovingAverage period fast slow => 0 < period ∧ 0 < fast ∧ 0 < slow
  | atr period => 0 < period
  | ema period => 0 < period
  | sma period => 0 < period

end Ctor

/-! ### A series of bars -/

def Prices.forward (bar : Row ℚ) (p : Prices OrNan) : Prices OrNan :=
  { «open» := p.open.forward (.num bar.open), high := p.high.forward (.num bar.high)
    low := p.low.forward (.num bar.low), close := p.close.forward (.num bar.close) }

/-- One call a bar, from the first bar on. -/
def driveBar (st : Prices OrNan × Study OrNan) (bar : Row ℚ) : Option (Prices OrNan × Study OrNan) := do
  let prices := st.1.forward bar
  return (prices, ← st.2.next prices)

def drive (c : Ctor) (bars : List (Row ℚ)) : Option (Prices OrNan × Study OrNan) := bars.foldlM driveBar ({}, c.make)

/-- What an output says on the bar `t`, counted from one: the value it has put out last. -/
def outputOn (c : Ctor) (bars : List (Row ℚ)) (a : Accessor) (t : Nat) : Option OrNan := do
  let st ← drive c (bars.take t)
  let values ← st.2.accessor a
  values.getLast?

/-- The output is no number before the bar that the class names, and is one from there on. -/
def ReadyExactly (c : Ctor) (bars : List (Row ℚ)) (a : Accessor) : Prop :=
  ∀ t, 0 < t → t ≤ bars.length → ∃ x, outputOn c bars a t = some x ∧
    (t < c.make.accessorMinimumPeriod a → x = nan) ∧ (c.make.accessorMinimumPeriod a ≤ t → x ≠ nan)

/-! ### When the outputs are numbers -/

open OrNan (IsNum)

section
variable {c : Ctor} {s : Study OrNan} {prices : Prices OrNan} {bars : List (Row ℚ)} {a : Accessor} {t n : Nat}

/-- The bars that an average needs. -/
def maNeeds (period : Nat) (type : MaType) : Nat := (Ma.make period type : Ma OrNan).minimumPeriod

/-- After `t` bars an output says a number. -/
def ReadyBy (t : Nat) : Ctor → Accessor → Prop
  | .heikinAshi, .haHigh => 2 ≤ t
  | .heikinAshi, .haLow => 2 ≤ t
  | .parabolicSAR period _ _, _ => max 2 period ≤ t
  | .ichimoku _ _ _ _ _, .chikouSpan => False
  | .macdExt fastPeriod fastMa slowPeriod slowMa _ _, .macd =>
    max (maNeeds fastPeriod fastMa) (maNeeds slowPeriod slowMa) ≤ t
  | .macdExt fastPeriod fastMa slowPeriod slowMa signalPeriod signalMa, _ =>
    max (maNeeds fastPeriod fastMa) (maNeeds slowPeriod slowMa) + maNeeds signalPeriod signalMa - 1 ≤ t
  | c, a => c.make.accessorMinimumPeriod a ≤ t

/-- The study that a constructor has made, after `t` bars. -/
inductive Study.After (t : Nat) : Ctor → Study OrNan → Prop
  | heikinAshi {h : HeikinAshi OrNan} : h.AfterBars t → After t .heikinAshi (.heikinAshi h)
  | parabolicSAR {period : Nat} {af afmax : ℚ} {p : ParabolicSAR OrNan} :
    p.AfterBars t → p.period = period → After t (.parabolicSAR period af afmax) (.parabolicSAR p)
  | ichimoku {tenkan kijun senkou senkouLead chikou : Nat} {i : Ichimoku OrNan} :
    i.AfterBars tenkan kijun senkou senkouLead chikou t →
    After t (.ichimoku tenkan kijun senkou senkouLead chikou) (.ichimoku i)
  | macd {fast slow signal : Nat} {m : MACD OrNan} : m.AfterBars slow signal t → After t (.macd fast slow signal) (.macd m)
  | macdExt {fast slow signal : Nat} {fastMa slowMa signalMa : MaType} {m : MACDExt OrNan} :
    m.After (max (maNeeds fast fastMa) (maNeeds slow slowMa)) (maNeeds signal signalMa) t →
    After t (.macdExt fast fastMa slow slowMa signal signalMa) (.macdExt m)
  | directionalMovement {period : Nat} {d : DirectionalMovement OrNan} :
    d.After period t → After t (.directionalMovement period) (.directionalMovement d)
  | stochastic {period dfast dslow : Nat} {s : Stochastic OrNan} :
    s.Between period dfast dslow t t → After t (.stochastic period dfast dslow) (.stochastic s)
  | stochasticFull {period dfast dslow : Nat} {s : StochasticFull OrNan} :
    s.Between period dfast dslow t t → After t (.stochasticFull period dfast dslow) (.stochasticFull s)
  | stochasticFast {period dfast : Nat} {s : StochasticFast OrNan} :
    s.After period dfast t → After t (.stochasticFast period dfast) (.stochasticFast s)
  | adaptiveMovingAverage {period fast slow : Nat} {k : AdaptiveMovingAverage OrNan} :
    k.After t → k.period = period → After t (.adaptiveMovingAverage period fast slow) (.adaptiveMovingAverage k)
  | atr {period : Nat} {a : StratForge.ATR OrNan} : AtrAfter t a → a.period = period → After t (.atr period) (.atr a)
  | ema {period : Nat} {e : EMA OrNan} : e.After t → e.period = period → After t (.ema period) (.ema e)
  | sma {period : Nat} {m : StratForge.SMA OrNan} : SmaAfter t m → m.period = period → After t (.sma period) (.sma m)

theorem Ctor.make_after (h : c.Valid) : c.make.After 0 c := by
  have hclamp : ∀ period : Nat, 0 < period → (if period = 0 then 1 else period) = period := fun period hpos => if_neg hpos.ne'
  have hclampPos : ∀ period : Nat, 0 < if period = 0 then 1 else period := fun period => by split_ifs <;> omega
  cases c with
  | heikinAshi => exact .heikinAshi ⟨.nil, .nil, .nil, .nil⟩
  | parabolicSAR period af afmax =>
    exact .parabolicSAR ⟨OrNan.isNum_num af, OrNan.isNum_num afmax, .nil, fun _ => rfl, fun hle => absurd hle (by omega)⟩ rfl
  | ichimoku tenkan kijun senkou senkouLead chikou => exact .ichimoku (Ichimoku.init_after h.1 h.2.1 h.2.2.1)
  | macd fast slow signal =>
    exact .macd (MACD.init_after h.1 h.2.1 h.2.2)
  | macdExt fast fastMa slow slowMa signal signalMa => exact .macdExt (MACDExt.init_after h.1 h.2.1 h.2.2 fastMa slowMa signalMa)
  | directionalMovement period => exact .directionalMovement (DirectionalMovement.init_after h)
  | stochastic period dfast dslow => exact .stochastic ⟨rfl, rfl, rfl, .nil, .nil, .nil, .nil⟩
  | stochasticFull period dfast dslow => exact .stochasticFull ⟨rfl, rfl, rfl, .nil, .nil, .nil⟩
  | stochasticFast period dfast => exact .stochasticFast ⟨⟨rfl, rfl, rfl, .nil, .nil, .nil⟩, .nil, .nil⟩
  | adaptiveMovingAverage period fast slow =>
    exact .adaptiveMovingAverage (AdaptiveMovingAverage.init_after h.1 fast slow) rfl
  | atr period =>
    exact .atr ⟨h, .nil, OrNan.isNum_zero, OrNan.isNum_zero, iff_of_false Bool.false_ne_true (Nat.not_succ_le_zero _),
      fun _ => rfl⟩ rfl
  | ema period =>
    exact .ema ⟨hclampPos period, .nil, OrNan.isNum_zero⟩ (hclamp period h)
  | sma period =>
    exact .sma ⟨hclampPos period, .nil⟩ (hclamp period h)

/-- The lines on bar `t`. -/
structure Prices.On (t : Nat) (p : Prices OrNan) : Prop where
  «open» : Numeric t p.open
  bars : Numerics t p.high p.low p.close

theorem Study.After.next (h : s.After t c) (hc : c.Valid) (hp : prices.On t) :
    ∃ s', s.next prices = some s' ∧ s'.After (t + 1) c := by
  have hclose := hp.bars.close
  cases h with
  | heikinAshi h =>
    obtain ⟨h', hnext, hafter⟩ := h.next hp.open hp.bars
    exact ⟨_, congrArg (Option.map Study.heikinAshi) hnext, .heikinAshi hafter⟩
  | parabolicSAR h hperiod =>
    obtain ⟨p', hnext, hafter, hsame⟩ := h.next hp.bars
    exact ⟨_, congrArg (Option.map Study.parabolicSAR) hnext, .parabolicSAR hafter (hsame.trans hperiod)⟩
  | ichimoku h =>
    obtain ⟨htenkan, hkijun, hsenkou, hlead, hchikou⟩ := hc
    obtain ⟨i', hnext, hafter⟩ := h.next hp.bars htenkan hkijun hsenkou hlead hchikou
    exact ⟨_, congrArg (Option.map Study.ichimoku) hnext, .ichimoku hafter⟩
  | macd h =>
    obtain ⟨m', hnext, hafter⟩ := h.next hclose
    exact ⟨_, congrArg (Option.map Study.macd) hnext, .macd hafter⟩
  | macdExt h =>
    obtain ⟨m', hnext, hafter⟩ := h.next hclose
    exact ⟨_, congrArg (Option.map Study.macdExt) hnext, .macdExt hafter⟩
  | directionalMovement h =>
    obtain ⟨d', hnext, hafter⟩ := h.next hc hp.bars
    exact ⟨_, congrArg (Option.map Study.directionalMovement) hnext, .directionalMovement hafter⟩
  | stochastic h =>
    obtain ⟨s', hnext, hafter⟩ := h.next hc.1 hc.2.1 hc.2.2 hp.bars
    exact ⟨_, congrArg (Option.map Study.stochastic) hnext, .stochastic hafter⟩
  | stochasticFull h =>
    obtain ⟨s', hnext, hafter⟩ := h.next hc.1 hc.2.1 hc.2.2 hp.bars
    exact ⟨_, congrArg (Option.map Study.stochasticFull) hnext, .stochasticFull hafter⟩
  | stochasticFast h =>
    obtain ⟨s', hnext, hafter⟩ := h.next hc.1 hc.2 hp.bars
    exact ⟨_, congrArg (Option.map Study.stochasticFast) hnext, .stochasticFast hafter⟩
  | adaptiveMovingAverage h hperiod =>
    obtain ⟨k', hnext, hafter, hsame⟩ := h.next hclose
    exact ⟨_, congrArg (Option.map Study.adaptiveMovingAverage) hnext, .adaptiveMovingAverage hafter (hsame.trans hperiod)⟩
  | atr h hperiod =>
    obtain ⟨hafter, hsame⟩ := h.next hp.bars
    exact ⟨_, rfl, .atr hafter (hsame.trans hperiod)⟩
  | ema h hperiod =>
    obtain ⟨e', hnext, hafter, hsame⟩ := h.next hclose
    exact ⟨_, congrArg (Option.map Study.ema) hnext, .ema hafter (hsame.trans hperiod)⟩
  | sma h hperiod =>
    obtain ⟨hafter, hsame⟩ := h.next hclose
    exact ⟨_, rfl, .sma hafter (hsame.trans hperiod)⟩

/-- A line after `t` bars of numbers. -/
structure Holds (t : Nat) (l : Line OrNan) : Prop where
  length : l.data.length = t
  nums : ∀ x ∈ l.data, IsNum x

theorem Holds.forward {l : Line OrNan} (h : Holds t l) (q : ℚ) :
    Numeric t (l.forward (.num q)) ∧ Holds (t + 1) (l.forward (.num q)) := by
  have hlength : (l.forward (.num q)).data.length = t + 1 := by
    show (l.data ++ [OrNan.num q]).length = t + 1
    rw [List.length_append, h.length, List.length_singleton]
  have hnums : ∀ x ∈ (l.forward (.num q)).data, IsNum x := by
    intro x hx
    rcases List.mem_append.1 hx with hx | hx
    exacts [h.nums x hx, List.mem_singleton.1 hx ▸ OrNan.isNum_num q]
  exact ⟨⟨h.length, by rw [hlength]; exact Nat.lt_succ_self t, hnums⟩, ⟨hlength, hnums⟩⟩

structure Prices.Hold (t : Nat) (p : Prices OrNan) : Prop where
  «open» : Holds t p.open
  high : Holds t p.high
  low : Holds t p.low
  close : Holds t p.close

theorem Prices.Hold.forward (h : prices.Hold t) (bar : Row ℚ) :
    (prices.forward bar).On t ∧ (prices.forward bar).Hold (t + 1) := by
  obtain ⟨ho, ho'⟩ := h.open.forward bar.open
  obtain ⟨hhi, hhi'⟩ := h.high.forward bar.high
  obtain ⟨hlo, hlo'⟩ := h.low.forward bar.low
  obtain ⟨hc, hc'⟩ := h.close.forward bar.close
  exact ⟨⟨ho, hhi, hlo, hc⟩, ⟨ho', hhi', hlo', hc'⟩⟩

theorem Prices.Hold.nil : ({} : Prices OrNan).Hold 0 := by
  have h : Holds 0 {} := ⟨rfl, nofun⟩
  exact ⟨h, h, h, h⟩

/-- No access leaves the vectors, and the study is what its class becomes after so many bars. -/
theorem drive_after (hc : c.Valid) (bars : List (Row ℚ)) :
    ∃ st, drive c bars = some st ∧ st.1.Hold bars.length ∧ st.2.After bars.length c := by
  induction bars using List.reverseRecOn with
  | nil => exact ⟨_, rfl, .nil, Ctor.make_after hc⟩
  | append_singleton bars bar ih =>
    obtain ⟨st, hst, hhold, hafter⟩ := ih
    obtain ⟨hon, hhold'⟩ := hhold.forward bar
    obtain ⟨s', hnext, hafter'⟩ := hafter.next hc hon
    refine ⟨(st.1.forward bar, s'), ?_, ?_, ?_⟩
    · have hdrive : bars.foldlM driveBar ({}, c.make) = some st := hst
      rw [drive, List.foldlM_append, hdrive]
      simp [driveBar, hnext]
    · rw [List.length_append, List.length_singleton]
      exact hhold'
    · rw [List.length_append, List.length_singleton]
      exact hafter'

/-! #### The outputs -/

/-- The value put out last, for readiness under another expression. -/
theorem Late.gives {ready ready' : Nat} {l : List OrNan} (h : Late ready (t + 1) l) (hready : ready = ready') :
    ∃ x, l.getLast? = some x ∧ (IsNum x ↔ ready' ≤ t + 1) := hready ▸ h.last

/-- Which outputs there are is a matter of the class. -/
theorem Study.After.accessor_isSome (h : s.After t c) (a : Accessor) : (s.accessor a).isSome = (c.make.accessor a).isSome := by
  cases h <;> cases a <;> rfl

theorem Study.After.gives (h : s.After (t + 1) c) (hc : c.Valid) {l : List OrNan} (hl : s.accessor a = some l) :
    ∃ x, l.getLast? = some x ∧ (IsNum x ↔ ReadyBy (t + 1) c a) := by
  cases h with
  | heikinAshi h =>
    cases a <;> cases hl
    exacts [h.haOpen.last, h.haHigh.last, h.haLow.last, h.line.last]
  | parabolicSAR h hperiod =>
    cases a <;> cases hl
    exact h.line.gives (by rw [hperiod])
  | ichimoku h =>
    obtain ⟨htenkan, hkijun, hsenkou, -, -⟩ := hc
    cases a <;> cases hl
    · exact h.line.gives (if_neg htenkan.ne').symm
    · exact h.kijunSen.gives (if_neg hkijun.ne').symm
    · exact h.senkouSpanA.gives (by simp [Ctor.make, Ichimoku.init, Study.accessorMinimumPeriod, htenkan.ne', hkijun.ne'])
    · exact h.senkouSpanB.gives (by simp [Ctor.make, Ichimoku.init, Study.accessorMinimumPeriod, hsenkou.ne'])
    · obtain ⟨x, hx, hnum⟩ := h.chikouGives
      exact ⟨x, hx, iff_of_false hnum id⟩
  | macd h =>
    cases a <;> cases hl
    exacts [h.line.last, h.signalLine.last, h.histogram.last]
  | macdExt h =>
    cases a <;> cases hl
    exacts [h.line.last, h.signal.last, h.histogram.last]
  | directionalMovement h =>
    cases a <;> cases hl
    · exact h.between.plusDi.last
    · exact h.between.minusDi.last
    · exact h.between.dx.last
    · exact h.between.line.gives (Nat.mul_comm 2 _)
    · exact h.between.adxr.gives (Nat.mul_comm 3 _)
  | stochastic h =>
    obtain ⟨hp, hf, hs⟩ := hc
    cases a <;> cases hl
    · exact h.line.last
    · exact h.percD.gives (by simp only [Ctor.make, Study.accessorMinimumPeriod, Study.minimumPeriod]; omega)
  | stochasticFull h =>
    obtain ⟨hp, hf, hs⟩ := hc
    cases a <;> cases hl
    · exact h.line.last
    · exact h.percD.last
    · exact h.percDslow.gives (by simp only [Ctor.make, Study.accessorMinimumPeriod, Study.minimumPeriod]; omega)
  | stochasticFast h =>
    cases a <;> cases hl
    exacts [h.line.last, h.percD.last]
  | adaptiveMovingAverage h hperiod =>
    cases a <;> cases hl
    exact h.line.gives (congrArg (· + 1) hperiod)
  | atr h hperiod =>
    cases a <;> cases hl
    exact h.line.gives (congrArg (· + 1) hperiod)
  | ema h hperiod =>
    cases a <;> cases hl
    exact h.line.gives (hperiod.trans (if_neg (Nat.ne_of_gt hc)).symm)
  | sma h hperiod =>
    cases a <;> cases hl
    exact h.line.gives (hperiod.trans (if_neg (Nat.ne_of_gt hc)).symm)

theorem outputOn_iff (hc : c.Valid) (ha : (c.make.accessor a).isSome) (hpos : 0 < t) (hle : t ≤ bars.length) :
    ∃ x, outputOn c bars a t = some x ∧ (IsNum x ↔ ReadyBy t c a) := by
  obtain ⟨st, hst, -, hafter⟩ := drive_after hc (bars.take t)
  rw [List.length_take, Nat.min_eq_left hle] at hafter
  rw [← hafter.accessor_isSome] at ha
  obtain ⟨l, hl⟩ := Option.isSome_iff_exists.1 ha
  obtain ⟨u, rfl⟩ := Nat.exists_eq_succ_of_ne_zero hpos.ne'
  obtain ⟨x, hx, hnum⟩ := hafter.gives hc hl
  exact ⟨x, by simp [outputOn, hst, hl, hx], hnum⟩

end

/-! ### The contract -/

theorem le_maNeeds (period : Nat) (type : MaType) : period ≤ maNeeds period type := by
  cases type with
  | SMA =>
    show period ≤ if period = 0 then 1 else period
    split_ifs <;> omega
  | EMA =>
    show period ≤ if period = 0 then 1 else period
    split_ifs <;> omega
  | WMA => exact le_refl period
  | DEMA =>
    show period ≤ 2 * period - 1
    omega
  | TEMA =>
    show period ≤ 3 * period - 2
    omega

/-- The series of `n` bars on which an output keeps to what its class says. HeikinAshi has no highs and lows on its first
bar, which it says are ready. ParabolicSAR is ready a bar before it says, on its second bar at the soonest. The chikou
span is filled in later, and on a bar itself never. MACDExt says what simple and exponential averages need, and a double or
triple one needs more. -/
def Keeps (n : Nat) : Ctor → Accessor → Prop
  | .heikinAshi, .haHigh => n = 0
  | .heikinAshi, .haLow => n = 0
  | .parabolicSAR period _ _, _ => period = 1 ∨ n < period
  | .ichimoku _ _ _ _ chikou, .chikouSpan => n ≤ chikou
  | .macdExt fastPeriod fastMa slowPeriod slowMa _ _, .macd =>
    max (maNeeds fastPeriod fastMa) (maNeeds slowPeriod slowMa) = max fastPeriod slowPeriod ∨ n < max fastPeriod slowPeriod
  | .macdExt fastPeriod fastMa slowPeriod slowMa signalPeriod signalMa, _ =>
    (max (maNeeds fastPeriod fastMa) (maNeeds slowPeriod slowMa) = max fastPeriod slowPeriod ∧
      maNeeds signalPeriod signalMa = signalPeriod) ∨ n < max fastPeriod slowPeriod + signalPeriod - 1
  | _, _ => True

section
variable {c : Ctor} {bars : List (Row ℚ)} {a : Accessor} {n r d : Nat}

/-- The two bars are the same, or the series ends before the first of them. -/
theorem agree_iff (hpos : 0 < d) (hle : d ≤ r) : (∀ t, 0 < t → t ≤ n → (r ≤ t ↔ d ≤ t)) ↔ r = d ∨ n < d := by
  constructor
  · intro h
    by_contra hne
    have := (h d hpos (by omega)).2 (le_refl d)
    omega
  · rintro h t - ht
    omega

/-- Where readiness and the contract agree. -/
theorem keeps_iff (hc : c.Valid) (ha : (c.make.accessor a).isSome) :
    (∀ t, 0 < t → t ≤ n → (ReadyBy t c a ↔ c.make.accessorMinimumPeriod a ≤ t)) ↔ Keeps n c a := by
  cases c with
  | heikinAshi =>
    have hlate : (∀ t, 0 < t → t ≤ n → (2 ≤ t ↔ 1 ≤ t)) ↔ n = 0 := (agree_iff Nat.one_pos (by omega)).trans (by omega)
    cases a <;> first | exact hlate | exact iff_of_true (fun _ _ _ => Iff.rfl) trivial
  | parabolicSAR period af afmax =>
    have hpos : 0 < period := hc
    have hsoon : (∀ t, 0 < t → t ≤ n → (max 2 period ≤ t ↔ period + 1 ≤ t)) ↔ period = 1 ∨ n < period := by
      refine Iff.trans ?_ ((agree_iff (n := n) (r := period + 1) (d := max 2 period) (by omega) (by omega)).trans (by omega))
      exact forall₃_congr fun _ _ _ => iff_comm
    cases a <;> exact hsoon
  | ichimoku tenkan kijun senkou senkouLead chikou =>
    have hnever : (∀ t, 0 < t → t ≤ n → (False ↔ chikou + 1 ≤ t)) ↔ n ≤ chikou := by
      constructor
      · intro h
        by_contra hlt
        exact (h (chikou + 1) (by omega) (by omega)).2 (le_refl _)
      · intro h t _ ht
        exact iff_of_false id (by omega)
    cases a <;> first | exact hnever | exact iff_of_true (fun _ _ _ => Iff.rfl) trivial
  | macdExt fast fastMa slow slowMa signal signalMa =>
    obtain ⟨hf, hs, hg⟩ := hc
    have := le_maNeeds fast fastMa
    have := le_maNeeds slow slowMa
    have := le_maNeeds signal signalMa
    have hline := agree_iff (n := n) (d := max fast slow) (r := max (maNeeds fast fastMa) (maNeeds slow slowMa))
      (by omega) (by omega)
    have hsignal := (agree_iff (n := n) (d := max fast slow + signal - 1)
      (r := max (maNeeds fast fastMa) (maNeeds slow slowMa) + maNeeds signal signalMa - 1) (by omega) (by omega)).trans
      (show _ ↔ (max (maNeeds fast fastMa) (maNeeds slow slowMa) = max fast slow ∧ maNeeds signal signalMa = signal) ∨
        n < max fast slow + signal - 1 by omega)
    cases a <;> first | exact hline | exact hsignal
  | _ => exact iff_of_true (fun _ _ _ => Iff.rfl) trivial

/-- An output of a series keeps to the contract exactly where readiness does. -/
theorem readyExactly_iff (hc : c.Valid) (ha : (c.make.accessor a).isSome) :
    ReadyExactly c bars a ↔ Keeps bars.length c a := by
  rw [← keeps_iff hc ha]
  constructor
  · intro h t hpos hle
    obtain ⟨x, hx, hnum⟩ := outputOn_iff hc ha hpos hle
    obtain ⟨x', hx', hbefore, hfrom⟩ := h t hpos hle
    cases hx.symm.trans hx'
    rw [← hnum]
    exact ⟨fun hready => Nat.le_of_not_lt fun hlt => hready (hbefore hlt), hfrom⟩
  · intro h t hpos hle
    obtain ⟨x, hx, hnum⟩ := outputOn_iff hc ha hpos hle
    refine ⟨x, hx, fun hlt => ?_, fun hge => hnum.2 ((h t hpos hle).2 hge)⟩
    by_contra hne
    exact absurd ((h t hpos hle).1 (hnum.1 hne)) (Nat.not_le_of_lt hlt)

end

/-- A bar of a price that stays. -/
def flatBar : Row ℚ := { datetime := 0, «open» := 1, high := 1, low := 1, close := 1, volume := 0, openinterest := 0 }

theorem readyExactly_iff_stochastic : (Ctor.stochastic 2 1 1).Valid ∧ ReadyExactly (.stochastic 2 1 1) [flatBar, flatBar] .percD :=
  have hvalid : (Ctor.stochastic 2 1 1).Valid := ⟨by omega, by omega, by omega⟩
  ⟨hvalid, (readyExactly_iff hvalid rfl).2 trivial⟩

/-- HeikinAshi says that its highs are ready on the first bar. -/
theorem haHigh_not_ready : ¬ ReadyExactly .heikinAshi [flatBar] .haHigh := by
  intro h
  obtain ⟨x, hx, -, hnum⟩ := h 1 Nat.one_pos (le_refl 1)
  have hnan : outputOn .heikinAshi [flatBar] .haHigh 1 = some nan := rfl
  exact hnum (le_refl 1) (Option.some.inj (hx.symm.trans hnan))

end Indicators
end StratForge
