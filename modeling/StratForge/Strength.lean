import Mathlib.Tactic.FieldSimp
import StratForge.Cones
import StratForge.Oscillators
import StratForge.Quotes

/-!
# Oscillators of gains and losses (`indicators/rsi.hpp`, `stochrsi.hpp`, `tsi.hpp`, `volume.hpp`)

Each compares two averages that are taken alike: of gains and losses (RSI), of changes and their sizes (TSI), of the
money that flows in and out (MFI). What relates the two values of every bar relates the averages (`Cones`).
-/

namespace StratForge
namespace Indicators
open Floating (nan isNaN)
open Access (readBack)

section
variable {α : Type} [Arith α] [Floating α]

/-! ### RSI -/

inductive RsiMovAv
  | Smoothed | Simple | Exponential
deriving DecidableEq

structure RSI (α : Type) where
  period : Nat
  movav : RsiMovAv
  safediv : Bool
  safehigh : α
  safelow : α
  lookback : Nat
  line : List α := []
  gains : List α := []
  losses : List α := []
  avgGain : α
  avgLoss : α
  initialized : Bool := false

namespace RSI

def init (period : Nat) (movav : RsiMovAv) (safediv : Bool) (safehigh safelow : α) (lookback : Nat) : RSI α :=
  { period := if period = 0 then 1 else period, movav, safediv, safehigh, safelow
    lookback := if lookback = 0 then 1 else lookback, avgGain := 0, avgLoss := 0 }

/-- With the defaults of the constructor. -/
def ofPeriod (period : Nat) : RSI α := init period .Smoothed false 100.0 50.0 1

def emaAlpha (period : Nat) : α := 2.0 / (1 + Arith.ofCount period)

def seedAverage (period : Nat) (changes : List α) : Option α := do
  let values ← (List.range period).mapM fun i => changes[changes.length - period + i]?
  return Simd.reduceSum values / Arith.ofCount period

/-- The next of an average, by the kind of average. -/
def nextAverage (period : Nat) (movav : RsiMovAv) (initialized : Bool) (changes : List α) (value avg : α) : Option α :=
  if !initialized then seedAverage period changes
  else
    match movav with
    | .Smoothed => some ((avg * (Arith.ofCount period - 1) + value) / Arith.ofCount period)
    | .Exponential => some (avg * (1 - emaAlpha period) + value * emaAlpha period)
    | .Simple => seedAverage period changes

def ofRs (rs : α) : α := 100.0 - 100.0 / (1 + rs)

/-- None is infinity. -/
def rsFromRsi (rsi : α) : Option α := if rsi == 100.0 then none else some (-100.0 / (rsi - 100.0) - 1)

def ofSafe : Option α → α
  | none => 100.0
  | some rs => ofRs rs

/-- What is put out for the averages. -/
def value (r : RSI α) : α :=
  if !r.safediv then
    if r.avgLoss == 0 then (if r.avgGain == 0 then nan else 100.0) else ofRs (r.avgGain / r.avgLoss)
  else if r.avgLoss == 0 then ofSafe (if r.avgGain == 0 then rsFromRsi r.safelow else rsFromRsi r.safehigh)
  else ofRs (r.avgGain / r.avgLoss)

def next (source : Line α) (r : RSI α) : Option (RSI α) :=
  if source.idx < r.lookback then some { r with line := r.line ++ [nan] }
  else do
    let current ← source.data[source.idx]?
    let before ← readBack source.data source.idx r.lookback
    let change := current - before
    let gain := Arith.max change 0
    let loss := Arith.max (-change) 0
    let r := { r with gains := r.gains ++ [gain], losses := r.losses ++ [loss] }
    if r.gains.length < r.period then return { r with line := r.line ++ [nan] }
    let avgGain ← nextAverage r.period r.movav r.initialized r.gains gain r.avgGain
    let avgLoss ← nextAverage r.period r.movav r.initialized r.losses loss r.avgLoss
    let r := { r with avgGain, avgLoss, initialized := true }
    return { r with line := r.line ++ [r.value] }

def minimumPeriod (r : RSI α) : Nat := r.period + r.lookback

end RSI

/-! ### StochRSI -/

/-- `line` is the %K. -/
structure StochRSI (α : Type) where
  rsi : RSI α
  stochPeriod : Nat
  periodD : Nat
  rsiValidCount : Nat := 0
  kValidCount : Nat := 0
  line : List α := []
  percD : List α := []

namespace StochRSI

def init (rsiPeriod stochPeriod periodD : Nat) : StochRSI α := { rsi := .ofPeriod rsiPeriod, stochPeriod, periodD }

/-- The place of the last value between the extremes of the last `stochPeriod`. -/
def kOf (rsi : List α) (rsiVal : α) (stochPeriod : Nat) : Option α := do
  let older ← ((List.range (stochPeriod - 1)).map (· + 1)).mapM (readBack rsi (rsi.length - 1))
  let highest := older.foldl Arith.max rsiVal
  let lowest := older.foldl Arith.min rsiVal
  let range := highest - lowest
  return if range == 0 then 50.0 else ((rsiVal - lowest) / range) * 100.0

def next (source : Line α) (s : StochRSI α) : Option (StochRSI α) := do
  let rsi ← s.rsi.next source
  let rsiVal ← rsi.line.getLast?
  let s := { s with rsi }
  if isNaN rsiVal then return { s with line := s.line ++ [nan], percD := s.percD ++ [nan] }
  let s := { s with rsiValidCount := s.rsiValidCount + 1 }
  if s.rsiValidCount < s.stochPeriod then return { s with line := s.line ++ [nan], percD := s.percD ++ [nan] }
  let k ← kOf rsi.line rsiVal s.stochPeriod
  let s := { s with line := s.line ++ [k], kValidCount := s.kValidCount + 1 }
  if s.kValidCount < s.periodD then return { s with percD := s.percD ++ [nan] }
  let percD ← averageTail s.line s.periodD
  return { s with percD := s.percD ++ [percD] }

def minimumPeriod (s : StochRSI α) : Nat := s.rsi.minimumPeriod + s.stochPeriod + s.periodD - 2

/-- Of `percK`. -/
def percKPeriod (s : StochRSI α) : Nat := s.rsi.minimumPeriod + s.stochPeriod - 1

end StochRSI

/-! ### TSI -/

/-- The state of one of the averages. -/
structure TsiEma (α : Type) where
  initialized : Bool := false
  prev : α

/-- `next_ema`, with what it returns: NaN among the values or as the last of them is NaN. -/
def TsiEma.next (source : List α) (period : Nat) (e : TsiEma α) : Option (α × TsiEma α) :=
  if source.length < period then some (nan, e)
  else if !e.initialized then do
    let values ← (List.range period).mapM (readBack source (source.length - 1))
    if values.any isNaN then return (nan, e)
    let prev := Simd.reduceSum values / Arith.ofCount period
    return (prev, { initialized := true, prev })
  else do
    let current ← source[source.length - 1]?
    if isNaN current then return (nan, e)
    let prev := MACD.advanceEma current e.prev (MACD.multiplier period)
    return (prev, { e with prev })

structure TrueStrengthIndicator (α : Type) where
  period1 : Nat
  period2 : Nat
  pchange : Nat
  line : List α := []
  priceChange : List α := []
  absPriceChange : List α := []
  emaPc1 : List α := []
  emaAbs1 : List α := []
  pc1 : TsiEma α
  abs1 : TsiEma α
  pc2 : TsiEma α
  abs2 : TsiEma α

namespace TrueStrengthIndicator

def init (period1 period2 pchange : Nat) : TrueStrengthIndicator α :=
  { period1 := if period1 = 0 then 1 else period1, period2 := if period2 = 0 then 1 else period2
    pchange := if pchange = 0 then 1 else pchange
    pc1 := { prev := 0 }, abs1 := { prev := 0 }, pc2 := { prev := 0 }, abs2 := { prev := 0 } }

def ratio (sm12 sm22 : α) : α := if isNaN sm12 || isNaN sm22 || sm22 == 0 then nan else 100.0 * (sm12 / sm22)

def next (source : Line α) (t : TrueStrengthIndicator α) : Option (TrueStrengthIndicator α) :=
  if source.idx < t.pchange then
    some { t with
      priceChange := t.priceChange ++ [nan], absPriceChange := t.absPriceChange ++ [nan]
      emaPc1 := t.emaPc1 ++ [nan], emaAbs1 := t.emaAbs1 ++ [nan], line := t.line ++ [nan] }
  else do
    let current ← source.data[source.idx]?
    let before ← readBack source.data source.idx t.pchange
    let pc := current - before
    let priceChange := t.priceChange ++ [pc]
    let absPriceChange := t.absPriceChange ++ [Arith.abs pc]
    let (sm1, pc1) ← t.pc1.next priceChange t.period1
    let (sm2, abs1) ← t.abs1.next absPriceChange t.period1
    let emaPc1 := t.emaPc1 ++ [sm1]
    let emaAbs1 := t.emaAbs1 ++ [sm2]
    let (sm12, pc2) ← t.pc2.next emaPc1 t.period2
    let (sm22, abs2) ← t.abs2.next emaAbs1 t.period2
    return { t with priceChange, absPriceChange, emaPc1, emaAbs1, pc1, abs1, pc2, abs2, line := t.line ++ [ratio sm12 sm22] }

def minimumPeriod (t : TrueStrengthIndicator α) : Nat := t.pchange + t.period1 + t.period2 - 1

end TrueStrengthIndicator

/-! ### MFI -/

structure MoneyFlowIndex (α : Type) where
  period : Nat
  line : List α := []
  positiveFlow : List α := []
  negativeFlow : List α := []

namespace MoneyFlowIndex

def init (period : Nat) : MoneyFlowIndex α := { period := if period = 0 then 1 else period }

def typicalPrice (high low close : Line α) (idx : Nat) : Option α := do
  let hi ← high.data[idx]?
  let lo ← low.data[idx]?
  let c ← close.data[idx]?
  return (hi + lo + c) / 3.0

def ofSums (positiveSum negativeSum : α) : α :=
  if negativeSum == 0 then 100.0 else 100.0 - 100.0 / (1 + positiveSum / negativeSum)

def next (high low close volume : Line α) (m : MoneyFlowIndex α) : Option (MoneyFlowIndex α) :=
  let idx := close.idx
  if idx = 0 then
    some { m with positiveFlow := m.positiveFlow ++ [0], negativeFlow := m.negativeFlow ++ [0], line := m.line ++ [nan] }
  else do
    let typical ← typicalPrice high low close idx
    let previousTypical ← typicalPrice high low close (idx - 1)
    let rawFlow := typical * (← volume.data[idx]?)
    let m := { m with positiveFlow := m.positiveFlow ++ [if previousTypical < typical then rawFlow else 0]
                      negativeFlow := m.negativeFlow ++ [if typical < previousTypical then rawFlow else 0] }
    if idx < m.period then return { m with line := m.line ++ [nan] }
    let positiveSum ← sumBack m.positiveFlow (m.positiveFlow.length - 1) m.period
    let negativeSum ← sumBack m.negativeFlow (m.negativeFlow.length - 1) m.period
    return { m with line := m.line ++ [ofSums positiveSum negativeSum] }

end MoneyFlowIndex

end

/-! ### Pairs of averages -/

section
open OrNan (IsNum Band)
open Cones (Cone)

/-- Both are numbers, so related. -/
def Both (C : ℚ → ℚ → Prop) (x y : OrNan) : Prop := ∃ a b : ℚ, x = .num a ∧ y = .num b ∧ C a b

variable {C : ℚ → ℚ → Prop} {xs ys : List OrNan} {x y x' y' : OrNan} {n : Nat}

/-- A number of the source and an older one, different if none comes twice. -/
theorem Sourced.back {qs : List ℚ} {q : ℚ} {k : Nat} {source : Line OrNan} (hs : Sourced ((qs ++ [q]).map OrNan.num) source)
    (hpos : 0 < k) (hle : k ≤ qs.length) :
    source.data[qs.length]? = some (.num q) ∧
      ∃ b ∈ qs, readBack source.data qs.length k = some (.num b) ∧ ((qs ++ [q]).Nodup → q ≠ b) := by
  have hlt : qs.length - k < qs.length := by omega
  refine ⟨by rw [hs.data]; simp, qs[qs.length - k], List.getElem_mem hlt, ?_, fun hnodup heq => ?_⟩
  · rw [readBack, if_pos hle, hs.data, List.map_append, List.getElem?_append_left (by simpa using hlt)]
    simp [List.getElem?_eq_getElem hlt]
  · exact List.disjoint_of_nodup_append hnodup (List.getElem_mem hlt) (List.mem_singleton.2 heq.symm)

theorem Both.num {a b : ℚ} (h : C a b) : Both C (.num a) (.num b) := ⟨a, b, rfl, rfl, h⟩

theorem forall₂_both (h : List.Forall₂ (Both C) xs ys) :
    ∃ as bs : List ℚ, xs = as.map .num ∧ ys = bs.map .num ∧ List.Forall₂ C as bs := by
  induction h with
  | nil => exact ⟨[], [], rfl, rfl, .nil⟩
  | cons hxy _ ih =>
    obtain ⟨a, b, rfl, rfl, hab⟩ := hxy
    obtain ⟨as, bs, rfl, rfl, hrest⟩ := ih
    exact ⟨a :: as, b :: bs, rfl, rfl, .cons hab hrest⟩

theorem both_mean (hC : Cone C) (h : List.Forall₂ (Both C) xs ys) (hn : 0 < n) (hne : xs ≠ []) :
    Both C (Simd.reduceSum xs / Arith.ofCount n) (Simd.reduceSum ys / Arith.ofCount n) := by
  obtain ⟨as, bs, rfl, rfl, hab⟩ := forall₂_both h
  have hpos : (n : ℚ) ≠ 0 := by exact_mod_cast hn.ne'
  rw [OrNan.reduceSum_num, OrNan.reduceSum_num, OrNan.ofCount_eq, OrNan.num_div hpos, OrNan.num_div hpos]
  exact .num (hC.mean hab hn fun hnil => hne (by rw [hnil]; rfl))

theorem both_smooth (hC : Cone C) (h : Both C x y) (hnew : Both C x' y') (hn : 0 < n) :
    Both C ((x * (Arith.ofCount n - 1) + x') / Arith.ofCount n) ((y * (Arith.ofCount n - 1) + y') / Arith.ofCount n) := by
  obtain ⟨a, b, rfl, rfl, hab⟩ := h
  obtain ⟨a', b', rfl, rfl, hab'⟩ := hnew
  have hpos : (n : ℚ) ≠ 0 := by exact_mod_cast hn.ne'
  simp only [OrNan.ofCount_eq, OrNan.one_eq, OrNan.num_sub, OrNan.num_mul, OrNan.num_add, OrNan.num_div hpos]
  exact .num (hC.smooth hab hab' hn)

theorem both_advance (hC : Cone C) (h : Both C x y) (hnew : Both C x' y') (hn : 0 < n) :
    Both C (MACD.advanceEma x' x (MACD.multiplier n)) (MACD.advanceEma y' y (MACD.multiplier n)) := by
  obtain ⟨a, b, rfl, rfl, hab⟩ := h
  obtain ⟨a', b', rfl, rfl, hab'⟩ := hnew
  rw [multiplier_eq]
  exact .num (hC.approach hab hab' (rate_pos n) (rate_le_one hn))

end

namespace RSI
open OrNan (IsNum Band)
open Cones (Cone)
open Readiness (StartsAt)

variable {C : ℚ → ℚ → Prop} {moves : Prop} {r : RSI OrNan} {gains losses : List OrNan} {gain loss avgGain avgLoss : OrNan} {p : Nat}

theorem seedAverage_eq {changes : List OrNan} (hle : p ≤ changes.length) :
    seedAverage p changes = some (Simd.reduceSum (changes.drop (changes.length - p)) / Arith.ofCount p) := by
  have hread : (List.range p).mapM (fun i => changes[changes.length - p + i]?) = some (changes.drop (changes.length - p)) := by
    rw [Access.mapM_eq_some (g := fun i => (changes.drop (changes.length - p)).getD i 0)]
    · congr 1
      refine List.ext_getElem (by simp; omega) fun i hi hi' => ?_
      rw [List.getElem_map, List.getElem_range, List.getD_eq_getElem?_getD, List.getElem?_eq_getElem hi', Option.getD_some]
    · intro i hi
      have hlt : changes.length - p + i < changes.length := by
        have := List.mem_range.1 hi
        omega
      rw [List.getD_eq_getElem?_getD, List.getElem?_drop, List.getElem?_eq_getElem hlt, Option.getD_some]
  rw [seedAverage, hread]
  rfl

theorem emaAlpha_eq (p : Nat) : (emaAlpha p : OrNan) = .num (rate p) := by
  have hpos : (1 + p : ℚ) ≠ 0 := by positivity
  rw [emaAlpha, OrNan.ofCount_eq, OrNan.one_eq, OrNan.ofScientific_eq, OrNan.num_add, OrNan.num_div hpos, rate, add_comm]
  norm_num

theorem both_seed (hC : Cone C) (h : List.Forall₂ (Both C) gains losses) (hp : 0 < p) (hle : p ≤ gains.length) :
    ∃ g l, seedAverage p gains = some g ∧ seedAverage p losses = some l ∧ Both C g l := by
  have hlen := h.length_eq
  refine ⟨_, _, seedAverage_eq hle, seedAverage_eq (by omega), ?_⟩
  rw [← hlen]
  refine both_mean hC (List.forall₂_drop _ h) hp fun hnil => ?_
  have := congrArg List.length hnil
  simp at this
  omega

theorem both_average (hC : Cone C) (h : List.Forall₂ (Both C) gains losses) (hp : 0 < p) (hle : p ≤ gains.length)
    (hnew : Both C gain loss) (movav : RsiMovAv) {initialized : Bool} (havg : initialized = true → Both C avgGain avgLoss) :
    ∃ g l, nextAverage p movav initialized gains gain avgGain = some g ∧
      nextAverage p movav initialized losses loss avgLoss = some l ∧ Both C g l := by
  unfold nextAverage
  cases initialized with
  | false => exact both_seed hC h hp hle
  | true =>
    cases movav with
    | Smoothed => exact ⟨_, _, rfl, rfl, both_smooth hC (havg rfl) hnew hp⟩
    | Simple => exact both_seed hC h hp hle
    | Exponential =>
      obtain ⟨a, b, rfl, rfl, hab⟩ := havg rfl
      obtain ⟨a', b', rfl, rfl, hab'⟩ := hnew
      refine ⟨_, _, rfl, rfl, ?_⟩
      simp only [emaAlpha_eq, OrNan.one_eq, OrNan.num_sub, OrNan.num_mul, OrNan.num_add]
      have happroach := hC.approach hab hab' (rate_pos p) (rate_le_one hp)
      rw [show (a' - a) * rate p + a = a * (1 - rate p) + a' * rate p by ring,
        show (b' - b) * rate p + b = b * (1 - rate p) + b' * rate p by ring] at happroach
      exact .num happroach

/-- Averages that are not negative, and not both zero where something moves. -/
def Sides (moves : Prop) (gain loss : ℚ) : Prop := 0 ≤ gain ∧ 0 ≤ loss ∧ (moves → 0 < gain + loss)

theorem ofRs_ratio {g l : ℚ} (hg : 0 ≤ g) (hl : 0 < l) : ofRs (OrNan.num g / .num l) = .num (100 * g / (l + g)) := by
  have hsum : l + g ≠ 0 := by positivity
  have hone : 1 + g / l ≠ 0 := by positivity
  rw [ofRs, OrNan.num_div hl.ne', OrNan.one_eq, OrNan.num_add, OrNan.ofScientific_eq, OrNan.num_div hone, OrNan.num_sub]
  congr 1
  norm_num
  field_simp
  ring

theorem ofRs_band {g l : ℚ} (hg : 0 ≤ g) (hl : 0 < l) : Band 0 100 (ofRs (OrNan.num g / .num l)) := by
  rw [ofRs_ratio hg hl, OrNan.band_num]
  have hsum : 0 < l + g := by positivity
  exact ⟨by positivity, (div_le_iff₀ hsum).2 (by linarith)⟩

/-- A safe value is what is put out for its ratio. -/
theorem ofRs_rsFromRsi {s : ℚ} {rs : OrNan} (hrs : rsFromRsi (OrNan.num s) = some rs) : ofRs rs = .num s := by
  unfold rsFromRsi at hrs
  split_ifs at hrs with hs
  obtain rfl := Option.some.inj hrs
  rw [OrNan.ofScientific_eq, OrNan.num_beq, decide_eq_true_eq] at hs
  norm_num at hs
  have hne : s - 100 ≠ 0 := sub_ne_zero.2 hs
  simp only [ofRs, OrNan.ofScientific_eq, OrNan.one_eq, OrNan.num_neg, OrNan.num_sub]
  norm_num
  rw [OrNan.num_div hne, OrNan.num_sub, OrNan.num_add, add_sub_cancel]
  have hdiv : -100 / (s - 100) ≠ 0 := div_ne_zero (by norm_num) hne
  rw [OrNan.num_div hdiv, OrNan.num_sub]
  congr 1
  field_simp
  ring

theorem safe_band {s : ℚ} (h0 : 0 ≤ s) (h100 : s ≤ 100) : ∃ q : ℚ, ofSafe (rsFromRsi (OrNan.num s)) = .num q ∧ 0 ≤ q ∧ q ≤ 100 := by
  cases hrs : rsFromRsi (OrNan.num s) with
  | none => exact ⟨_, rfl, by norm_num, by norm_num⟩
  | some rs => exact ⟨s, ofRs_rsFromRsi hrs, h0, h100⟩

/-- In the band, and a number where something moves. -/
theorem value_band {hi lo : ℚ} (h : Both (Sides moves) r.avgGain r.avgLoss) (hhi : r.safehigh = .num hi) (hhi0 : 0 ≤ hi)
    (hhi1 : hi ≤ 100) (hlo : r.safelow = .num lo) (hlo0 : 0 ≤ lo) (hlo1 : lo ≤ 100) :
    Band 0 100 r.value ∧ (moves → IsNum r.value) := by
  obtain ⟨g, l, hg, hl, hg0, hl0, hpos⟩ := h
  obtain ⟨low, hlow, hlow0, hlow1⟩ := safe_band hlo0 hlo1
  obtain ⟨high, hhigh, hhigh0, hhigh1⟩ := safe_band hhi0 hhi1
  have hhundred : (100.0 : OrNan) = .num 100 := by
    rw [OrNan.ofScientific_eq]
    norm_num
  unfold value
  rw [hg, hl, hhi, hlo, hhundred]
  simp only [OrNan.zero_eq, OrNan.num_beq, decide_eq_true_eq, apply_ite ofSafe, hlow, hhigh]
  by_cases hzero : l = 0
  · subst hzero
    simp only [if_pos]
    split_ifs with hsafe hgain hgain
    · subst hgain
      exact ⟨OrNan.band_nan, fun hm => absurd (hpos hm) (by norm_num)⟩
    · exact ⟨OrNan.band_num.2 (by norm_num), fun _ => OrNan.isNum_num _⟩
    · exact ⟨OrNan.band_num.2 ⟨hlow0, hlow1⟩, fun _ => OrNan.isNum_num _⟩
    · exact ⟨OrNan.band_num.2 ⟨hhigh0, hhigh1⟩, fun _ => OrNan.isNum_num _⟩
  · have hl' : 0 < l := lt_of_le_of_ne hl0 (Ne.symm hzero)
    have hnum : IsNum (ofRs (OrNan.num g / .num l)) := by
      rw [ofRs_ratio hg0 hl']
      exact OrNan.isNum_num _
    rw [if_neg hzero, if_neg hzero, ite_self]
    exact ⟨ofRs_band hg0 hl', fun _ => hnum⟩

/-- After the values: the averages of the gains and losses are sides of each other, and what is put out is in the band. -/
structure After (moves : Prop) (qs : List ℚ) (r : RSI OrNan) : Prop where
  pos : 0 < r.period
  lookback : 0 < r.lookback
  safehigh : ∃ s : ℚ, r.safehigh = .num s ∧ 0 ≤ s ∧ s ≤ 100
  safelow : ∃ s : ℚ, r.safelow = .num s ∧ 0 ≤ s ∧ s ≤ 100
  sides : List.Forall₂ (Both (Sides moves)) r.gains r.losses
  count : r.gains.length = qs.length - r.lookback
  averages : r.initialized = true → Both (Sides moves) r.avgGain r.avgLoss
  length : r.line.length = qs.length
  band : ∀ x ∈ r.line, Band 0 100 x
  ready : moves → StartsAt IsNum (r.period + r.lookback - 1) r.line

theorem init_after {period lookback : Nat} {movav : RsiMovAv} {safediv : Bool} {hi lo : ℚ} (hp : 0 < period) (hl : 0 < lookback)
    (hhi : 0 ≤ hi ∧ hi ≤ 100) (hlo : 0 ≤ lo ∧ lo ≤ 100) :
    After moves [] (init period movav safediv (.num hi) (.num lo) lookback) := by
  unfold init
  rw [if_neg hp.ne', if_neg hl.ne']
  exact ⟨hp, hl, ⟨hi, rfl, hhi⟩, ⟨lo, rfl, hlo⟩, .nil, by simp, nofun, rfl, nofun, fun _ => .nil⟩

/-- The constructor's own safe values are in the band. -/
theorem ofPeriod_after {period : Nat} (hp : 0 < period) : After moves [] (ofPeriod period) := by
  unfold ofPeriod
  rw [OrNan.ofScientific_eq, OrNan.ofScientific_eq]
  exact init_after hp Nat.one_pos (by norm_num) (by norm_num)

/-- The gain and the loss of one change. -/
theorem sides_change {a b : ℚ} (h : moves → a ≠ b) :
    Both (Sides moves) (Arith.max (OrNan.num a - .num b) 0) (Arith.max (-(OrNan.num a - .num b)) 0) := by
  rw [OrNan.num_sub, OrNan.num_neg, OrNan.zero_eq, OrNan.max_num, OrNan.max_num]
  refine .num ⟨le_max_right _ _, le_max_right _ _, fun hm => ?_⟩
  rcases lt_or_gt_of_ne (h hm) with hlt | hgt
  · have := le_max_left (-(a - b)) 0
    have := le_max_right (a - b) 0
    linarith
  · have := le_max_left (a - b) 0
    have := le_max_right (-(a - b)) 0
    linarith

theorem After.next {qs : List ℚ} {q : ℚ} {source : Line OrNan} (h : r.After moves qs)
    (hs : Sourced ((qs ++ [q]).map OrNan.num) source) (hmoves : moves → (qs ++ [q]).Nodup) :
    ∃ r', r.next source = some r' ∧ r'.After moves (qs ++ [q]) ∧ r'.period = r.period ∧ r'.lookback = r.lookback := by
  have hlen : (qs ++ [q]).length = qs.length + 1 := by simp
  have hidx : source.idx = qs.length := by rw [hs.cursor]; simp
  have hpos := h.pos
  have hlookback := h.lookback
  unfold RSI.next
  rw [hidx]
  split_ifs with hearly
  · refine ⟨_, rfl, { h with
      count := by
        rw [h.count, hlen]
        show qs.length - r.lookback = qs.length + 1 - r.lookback
        omega
      length := Driven.length_snoc h.length _ _
      band := OrNan.band_snoc h.band OrNan.band_nan
      ready := fun hm => (h.ready hm).snoc (iff_of_false OrNan.not_isNum_nan (by rw [h.length]; omega)) }, rfl, rfl⟩
  · obtain ⟨hcurrent, b, -, hbefore, hne⟩ := hs.back hlookback (show r.lookback ≤ qs.length by omega)
    have hchange := sides_change fun hm => hne (hmoves hm)
    rw [hcurrent, hbefore]
    simp only [Option.bind_eq_bind, Option.bind_some]
    generalize Arith.max (OrNan.num q - .num b) 0 = gain at hchange ⊢
    generalize Arith.max (-(OrNan.num q - .num b)) 0 = loss at hchange ⊢
    have hsides : List.Forall₂ (Both (Sides moves)) (r.gains ++ [gain]) (r.losses ++ [loss]) :=
      List.rel_append h.sides (.cons hchange .nil)
    have hcount : (r.gains ++ [gain]).length = qs.length + 1 - r.lookback := by
      rw [List.length_append, h.count, List.length_singleton]
      omega
    split_ifs with hfew
    · refine ⟨_, rfl, { h with
        sides := hsides
        count := by rw [hcount, hlen]
        length := Driven.length_snoc h.length _ _
        band := OrNan.band_snoc h.band OrNan.band_nan
        ready := fun hm => (h.ready hm).snoc (iff_of_false OrNan.not_isNum_nan (by rw [h.length]; omega)) }, rfl, rfl⟩
    · obtain ⟨g, l, hg, hl, havg⟩ := both_average (Cones.cone_nonneg moves) hsides hpos (by omega) hchange r.movav h.averages
      obtain ⟨hi, hhi, hhi0, hhi1⟩ := h.safehigh
      obtain ⟨lo, hlo, hlo0, hlo1⟩ := h.safelow
      obtain ⟨hband, hnum⟩ := value_band (r := { r with
        gains := r.gains ++ [gain], losses := r.losses ++ [loss], avgGain := g, avgLoss := l, initialized := true })
        havg hhi hhi0 hhi1 hlo hlo0 hlo1
      rw [hg, Option.bind_some, hl, Option.bind_some]
      refine ⟨_, rfl, { h with
        sides := hsides
        count := by rw [hcount, hlen]
        averages := fun _ => havg
        length := Driven.length_snoc h.length _ _
        band := OrNan.band_snoc h.band hband
        ready := fun hm => (h.ready hm).snoc (iff_of_true (hnum hm) (by rw [h.length]; omega)) }, rfl, rfl⟩

end RSI

/-! ### Places between extremes -/

section
open OrNan (IsNum Band)

variable {lo hi : ℚ} {l : List OrNan} {count : Nat}

/-- The greatest of a number and values, of which the NaN ones do not count. -/
theorem foldl_max_num (xs : List OrNan) (v : ℚ) : ∃ m, xs.foldl Arith.max (.num v) = OrNan.num m ∧ v ≤ m := by
  induction xs generalizing v with
  | nil => exact ⟨v, rfl, le_rfl⟩
  | cons x xs ih =>
    cases x with
    | nan => exact ih v
    | num q =>
      obtain ⟨m, hm, hle⟩ := ih (max v q)
      exact ⟨m, by rw [List.foldl_cons, OrNan.max_num, hm], (le_max_left _ _).trans hle⟩

theorem foldl_min_num (xs : List OrNan) (v : ℚ) : ∃ m, xs.foldl Arith.min (.num v) = OrNan.num m ∧ m ≤ v := by
  induction xs generalizing v with
  | nil => exact ⟨v, rfl, le_rfl⟩
  | cons x xs ih =>
    cases x with
    | nan => exact ih v
    | num q =>
      obtain ⟨m, hm, hle⟩ := ih (min v q)
      exact ⟨m, by rw [List.foldl_cons, OrNan.min_num, hm], hle.trans (min_le_left _ _)⟩

theorem averageTail_band (h : ∀ x ∈ l, Band lo hi x) (hpos : 0 < count) {v : OrNan} (hv : averageTail l count = some v) :
    Band lo hi v := by
  have hsome : ((List.range count).mapM (readBack l (l.length - 1))).isSome := by
    rw [averageTail, averageBack, sumBack] at hv
    cases hread : (List.range count).mapM (readBack l (l.length - 1)) with
    | none =>
      rw [hread] at hv
      cases hv
    | some values => rfl
  obtain ⟨hle, hidx⟩ := (Access.mapM_readBack_isSome hpos).1 hsome
  have hlen : ((l.drop (l.length - 1 + 1 - count)).take count).reverse.length = count := by
    rw [List.length_reverse, List.length_take, List.length_drop]
    omega
  have hband : ∀ x ∈ ((l.drop (l.length - 1 + 1 - count)).take count).reverse, Band lo hi x := fun x hx =>
    h x (List.mem_of_mem_drop (List.mem_of_mem_take (List.mem_reverse.1 hx)))
  have haverage := OrNan.Band.average hband (by rw [hlen]; exact hpos)
  rw [averageTail, averageBack_eq hidx hle] at hv
  rw [hlen] at haverage
  exact Option.some.inj hv ▸ haverage

/-- Where a value is, of the way from the lowest to the highest. -/
theorem place_band {v highest lowest : ℚ} (hhi : v ≤ highest) (hlo : lowest ≤ v) (hne : highest - lowest ≠ 0) :
    0 ≤ (v - lowest) / (highest - lowest) ∧ (v - lowest) / (highest - lowest) ≤ 1 := by
  have hpos : 0 < highest - lowest := lt_of_le_of_ne (by linarith) (Ne.symm hne)
  exact ⟨div_nonneg (by linarith) hpos.le, (div_le_one hpos).2 (by linarith)⟩

end

namespace StochRSI
open OrNan (IsNum Band)
open Readiness (StartsAt)

variable {moves : Prop} {s : StochRSI OrNan} {qs : List ℚ} {q : ℚ} {source : Line OrNan}

theorem kOf_percent {rsi : List OrNan} {v : ℚ} {stochPeriod : Nat} (hpos : 0 < rsi.length) (hle : stochPeriod ≤ rsi.length) :
    ∃ k : ℚ, kOf rsi (.num v) stochPeriod = some (.num k) ∧ 0 ≤ k ∧ k ≤ 100 := by
  have hsome : (((List.range (stochPeriod - 1)).map (· + 1)).mapM (readBack rsi (rsi.length - 1))).isSome := by
    rw [Access.mapM_isSome]
    intro i hi
    obtain ⟨j, hj, rfl⟩ := List.mem_map.1 hi
    have := List.mem_range.1 hj
    exact Access.readBack_isSome.2 (by omega)
  obtain ⟨older, holder⟩ := Option.isSome_iff_exists.1 hsome
  obtain ⟨highest, hhighest, hhi⟩ := foldl_max_num older v
  obtain ⟨lowest, hlowest, hlo⟩ := foldl_min_num older v
  unfold kOf
  rw [holder, Option.bind_eq_bind, Option.bind_some, hhighest, hlowest]
  simp only [OrNan.num_sub, OrNan.zero_eq, OrNan.num_beq, decide_eq_true_eq, OrNan.ofScientific_eq]
  by_cases hne : highest - lowest = 0
  · exact ⟨_, by rw [if_pos hne]; rfl, by norm_num, by norm_num⟩
  · obtain ⟨h0, h1⟩ := place_band hhi hlo hne
    refine ⟨(v - lowest) / (highest - lowest) * 100, ?_, by linarith, by linarith⟩
    rw [if_neg hne, OrNan.num_div hne, OrNan.num_mul]
    norm_num

/-- After the values. Where something moves the counts are those of the bars on which the RSI and the %K are numbers. -/
structure After (moves : Prop) (qs : List ℚ) (s : StochRSI OrNan) : Prop where
  rsi : s.rsi.After moves qs
  stochPos : 0 < s.stochPeriod
  periodPos : 0 < s.periodD
  rsiCount : s.rsiValidCount ≤ qs.length
  kCount : s.kValidCount ≤ qs.length
  length : s.line.length = qs.length
  lengthD : s.percD.length = qs.length
  band : ∀ x ∈ s.line, Band 0 100 x
  bandD : ∀ x ∈ s.percD, Band 0 100 x
  rsiReady : moves → s.rsiValidCount = qs.length + 1 - s.rsi.minimumPeriod
  kReady : moves → s.kValidCount = qs.length + 1 - s.percKPeriod
  ready : moves → StartsAt IsNum (s.percKPeriod - 1) s.line
  readyD : moves → StartsAt IsNum (s.minimumPeriod - 1) s.percD

theorem init_after {rsiPeriod stochPeriod periodD : Nat} (hr : 0 < rsiPeriod) (hs : 0 < stochPeriod) (hd : 0 < periodD) :
    After moves [] (init rsiPeriod stochPeriod periodD) := by
  have hrsi : RSI.After moves [] (RSI.ofPeriod rsiPeriod) := RSI.ofPeriod_after hr
  have hpos := hrsi.pos
  have hlookback := hrsi.lookback
  refine ⟨hrsi, hs, hd, le_rfl, le_rfl, rfl, rfl, nofun, nofun, fun _ => ?_, fun _ => ?_, fun _ => .nil, fun _ => .nil⟩ <;>
    simp only [init, percKPeriod, RSI.minimumPeriod, List.length_nil] <;> omega

/-- One value more on both lines. -/
theorem After.extend {s' : StochRSI OrNan} {k d : OrNan} (h : s.After moves qs) (hrsi : s'.rsi.After moves (qs ++ [q]))
    (hmin : s'.rsi.minimumPeriod = s.rsi.minimumPeriod) (hstoch : s'.stochPeriod = s.stochPeriod) (hperiod : s'.periodD = s.periodD)
    (hline : s'.line = s.line ++ [k]) (hpercD : s'.percD = s.percD ++ [d]) (hcount : s'.rsiValidCount ≤ qs.length + 1)
    (hkCount : s'.kValidCount ≤ qs.length + 1) (hk : Band 0 100 k) (hd : Band 0 100 d)
    (hready : moves → s'.rsiValidCount = qs.length + 2 - s.rsi.minimumPeriod ∧ s'.kValidCount = qs.length + 2 - s.percKPeriod ∧
      (IsNum k ↔ s.percKPeriod ≤ qs.length + 1) ∧ (IsNum d ↔ s.minimumPeriod ≤ qs.length + 1)) :
    s'.After moves (qs ++ [q]) := by
  have hlen : (qs ++ [q]).length = qs.length + 1 := by simp
  have hpercK : s'.percKPeriod = s.percKPeriod := by rw [percKPeriod, percKPeriod, hmin, hstoch]
  have hminimum : s'.minimumPeriod = s.minimumPeriod := by rw [minimumPeriod, minimumPeriod, hmin, hstoch, hperiod]
  have hpos := h.rsi.pos
  have hone : 0 < s.percKPeriod ∧ 0 < s.minimumPeriod := by
    have hstochPos := h.stochPos
    have hperiodPos := h.periodPos
    unfold percKPeriod minimumPeriod RSI.minimumPeriod
    omega
  refine ⟨hrsi, hstoch ▸ h.stochPos, hperiod ▸ h.periodPos, hlen ▸ hcount, hlen ▸ hkCount, ?_, ?_, ?_, ?_, fun hm => ?_,
    fun hm => ?_, fun hm => ?_, fun hm => ?_⟩
  · rw [hline]
    exact Driven.length_snoc h.length _ _
  · rw [hpercD]
    exact Driven.length_snoc h.lengthD _ _
  · rw [hline]
    exact OrNan.band_snoc h.band hk
  · rw [hpercD]
    exact OrNan.band_snoc h.bandD hd
  · rw [(hready hm).1, hmin, hlen]
  · rw [(hready hm).2.1, hpercK, hlen]
  · rw [hline, hpercK]
    refine (h.ready hm).snoc ((hready hm).2.2.1.trans ?_)
    rw [h.length]
    omega
  · rw [hpercD, hminimum]
    refine (h.readyD hm).snoc ((hready hm).2.2.2.trans ?_)
    rw [h.lengthD]
    omega

theorem After.next (h : s.After moves qs) (hs : Sourced ((qs ++ [q]).map OrNan.num) source) (hmoves : moves → (qs ++ [q]).Nodup) :
    ∃ s', s.next source = some s' ∧ s'.After moves (qs ++ [q]) ∧ s'.stochPeriod = s.stochPeriod ∧ s'.periodD = s.periodD ∧
      s'.rsi.minimumPeriod = s.rsi.minimumPeriod := by
  obtain ⟨rsi, hrsi, hafter, hperiod, hlookback⟩ := h.rsi.next hs hmoves
  have hlen : (qs ++ [q]).length = qs.length + 1 := by simp
  have hmin : rsi.minimumPeriod = s.rsi.minimumPeriod := by rw [RSI.minimumPeriod, RSI.minimumPeriod, hperiod, hlookback]
  have hrsiLen : rsi.line.length = qs.length + 1 := by rw [hafter.length, hlen]
  have hstochPos := h.stochPos
  have hperiodPos := h.periodPos
  have hcount := h.rsiCount
  have hkCount := h.kCount
  have hpercK : s.percKPeriod = s.rsi.minimumPeriod + s.stochPeriod - 1 := rfl
  have hminimum : s.minimumPeriod = s.rsi.minimumPeriod + s.stochPeriod + s.periodD - 2 := rfl
  have hrsiPos : 0 < s.rsi.minimumPeriod := by
    have hpos := h.rsi.pos
    unfold RSI.minimumPeriod
    omega
  obtain ⟨x, hx⟩ := Option.isSome_iff_exists.1 (List.getLast?_isSome.2 (List.length_pos_iff.1 (by rw [hrsiLen]; omega)))
  have hnum : moves → (IsNum x ↔ s.rsi.minimumPeriod ≤ qs.length + 1) := by
    intro hm
    rw [(hafter.ready hm).last hx, hrsiLen, show rsi.period + rsi.lookback = s.rsi.minimumPeriod from hmin]
    omega
  unfold StochRSI.next
  rw [hrsi, Option.bind_eq_bind, Option.bind_some, hx, Option.bind_eq_bind, Option.bind_some]
  cases x with
  | nan =>
    refine ⟨_, rfl, h.extend hafter hmin rfl rfl rfl rfl (by dsimp only; omega) (by dsimp only; omega) OrNan.band_nan OrNan.band_nan
      fun hm => ?_, rfl, rfl, hmin⟩
    have hearly : ¬ s.rsi.minimumPeriod ≤ qs.length + 1 := fun hle => absurd ((hnum hm).2 hle) OrNan.not_isNum_nan
    have hzero := h.rsiReady hm
    have hkZero := h.kReady hm
    refine ⟨by dsimp only; omega, by dsimp only; omega, iff_of_false OrNan.not_isNum_nan (by omega),
      iff_of_false OrNan.not_isNum_nan (by omega)⟩
  | num v =>
    have hready : moves → s.rsi.minimumPeriod ≤ qs.length + 1 := fun hm => (hnum hm).1 (OrNan.isNum_num v)
    rw [OrNan.isNaN_num, if_neg Bool.false_ne_true]
    dsimp only
    by_cases hfew : s.rsiValidCount + 1 < s.stochPeriod
    · rw [if_pos hfew]
      refine ⟨_, rfl, h.extend hafter hmin rfl rfl rfl rfl (by dsimp only; omega) (by dsimp only; omega) OrNan.band_nan
        OrNan.band_nan fun hm => ?_, rfl, rfl, hmin⟩
      have hrsiReady := h.rsiReady hm
      have hkReady := h.kReady hm
      have hle := hready hm
      exact ⟨by dsimp only; omega, by dsimp only; omega, iff_of_false OrNan.not_isNum_nan (by omega),
        iff_of_false OrNan.not_isNum_nan (by omega)⟩
    · obtain ⟨k, hk, hk0, hk1⟩ := kOf_percent (v := v) (by rw [hrsiLen]; omega) (show s.stochPeriod ≤ rsi.line.length by omega)
      have hkBand : Band 0 100 (OrNan.num k) := OrNan.band_num.2 ⟨hk0, hk1⟩
      have hline : (s.line ++ [OrNan.num k]).length = qs.length + 1 := by
        rw [List.length_append, h.length, List.length_singleton]
      rw [if_neg hfew, hk, Option.bind_some]
      have hpercKNum : moves → (IsNum (OrNan.num k) ↔ s.percKPeriod ≤ qs.length + 1) := by
        intro hm
        have hrsiReady := h.rsiReady hm
        have hle := hready hm
        exact iff_of_true (OrNan.isNum_num k) (by omega)
      split_ifs with hwait
      · refine ⟨_, rfl, h.extend hafter hmin rfl rfl rfl rfl (by dsimp only; omega) (by dsimp only; omega) hkBand
          OrNan.band_nan fun hm => ?_, rfl, rfl, hmin⟩
        have hrsiReady := h.rsiReady hm
        have hkReady := h.kReady hm
        have hle := hready hm
        exact ⟨by dsimp only; omega, by dsimp only; omega, hpercKNum hm, iff_of_false OrNan.not_isNum_nan (by omega)⟩
      · obtain ⟨d, hd⟩ : ∃ d, averageTail (s.line ++ [OrNan.num k]) s.periodD = some d := ⟨_, averageBack_eq (by omega) (by omega)⟩
        have hdBand := averageTail_band (OrNan.band_snoc h.band hkBand) hperiodPos hd
        rw [hd, Option.bind_some]
        refine ⟨_, rfl, h.extend hafter hmin rfl rfl rfl rfl (by dsimp only; omega) (by dsimp only; omega) hkBand hdBand
          fun hm => ?_, rfl, rfl, hmin⟩
        have hrsiReady := h.rsiReady hm
        have hkReady := h.kReady hm
        have hle := hready hm
        have hlate : Late s.percKPeriod (qs.length + 1) (s.line ++ [OrNan.num k]) := by
          refine ⟨hline, (h.ready hm).snoc ((hpercKNum hm).trans ?_)⟩
          rw [h.length]
          omega
        obtain ⟨w, hw, hwNum⟩ := averageTail_late hlate (by omega) hperiodPos (show s.periodD ≤ qs.length + 1 by omega)
        obtain rfl := Option.some.inj (hw.symm.trans hd)
        exact ⟨by dsimp only; omega, by dsimp only; omega, hpercKNum hm, hwNum.trans (by omega)⟩

end StochRSI

/-! ### Averages of changes and their sizes -/

section
open OrNan (IsNum Band)
open Cones (Cone)
open Readiness (StartsAt)

variable {C : ℚ → ℚ → Prop} {xs ys : List OrNan} {x y : OrNan} {p k : Nat} {e e' : TsiEma OrNan}

/-- Both are NaN, or both are numbers, so related. -/
def BothOrNan (C : ℚ → ℚ → Prop) (x y : OrNan) : Prop := (x = nan ∧ y = nan) ∨ Both C x y

/-- The same ones of both are NaN. -/
theorem any_isNaN (h : List.Forall₂ (BothOrNan C) xs ys) : xs.any isNaN = ys.any isNaN := by
  induction h with
  | nil => rfl
  | cons hxy _ ih =>
    rw [List.any_cons, List.any_cons, ih]
    congr 1
    rcases hxy with ⟨rfl, rfl⟩ | ⟨a, b, rfl, rfl, -⟩
    · rfl
    · rfl

theorem forall₂_both_of_any (h : List.Forall₂ (BothOrNan C) xs ys) (hany : xs.any isNaN = false) : List.Forall₂ (Both C) xs ys := by
  induction h with
  | nil => exact .nil
  | cons hxy _ ih =>
    rw [List.any_cons, Bool.or_eq_false_iff] at hany
    rcases hxy with ⟨rfl, -⟩ | hboth
    · exact absurd hany.1 (by simp)
    · exact .cons hboth (ih hany.2)

/-- Two averages that are taken alike. -/
structure Twins (C : ℚ → ℚ → Prop) (e e' : TsiEma OrNan) : Prop where
  initialized : e.initialized = e'.initialized
  prev : e.initialized = true → Both C e.prev e'.prev

theorem Twins.next (h : Twins C e e') (hC : Cone C) (hxy : List.Forall₂ (BothOrNan C) xs ys) (hp : 0 < p) (hne : xs ≠ []) :
    ∃ x y f f', e.next xs p = some (x, f) ∧ e'.next ys p = some (y, f') ∧ BothOrNan C x y ∧ Twins C f f' := by
  have hlen := hxy.length_eq
  have hpos := List.length_pos_iff.2 hne
  unfold TsiEma.next
  rw [← hlen, ← h.initialized]
  by_cases hfew : xs.length < p
  · rw [if_pos hfew, if_pos hfew]
    exact ⟨_, _, _, _, rfl, rfl, .inl ⟨rfl, rfl⟩, h⟩
  · rw [if_neg hfew, if_neg hfew]
    cases hinit : e.initialized with
    | false =>
      have hwindow : List.Forall₂ (BothOrNan C) ((xs.drop (xs.length - 1 + 1 - p)).take p).reverse
          ((ys.drop (xs.length - 1 + 1 - p)).take p).reverse := List.rel_reverse (List.forall₂_take _ (List.forall₂_drop _ hxy))
      have hany := any_isNaN hwindow
      rw [Access.mapM_readBack_eq (by omega) (by omega), Access.mapM_readBack_eq (by omega) (by omega)]
      simp only [Bool.not_false, if_true, Option.bind_eq_bind, Option.bind_some, ← hany]
      split_ifs with hnan
      · exact ⟨_, _, _, _, rfl, rfl, .inl ⟨rfl, rfl⟩, h⟩
      · have hmean := both_mean hC (forall₂_both_of_any hwindow (Bool.eq_false_iff.2 hnan)) hp fun hnil => by
          have := congrArg List.length hnil
          simp at this
          omega
        exact ⟨_, _, _, _, rfl, rfl, .inr hmean, rfl, fun _ => hmean⟩
    | true =>
      have hget := List.getElem?_eq_getElem (show xs.length - 1 < xs.length by omega)
      have hget' := List.getElem?_eq_getElem (show xs.length - 1 < ys.length by omega)
      have hlast := (List.forall₂_iff_get.1 hxy).2 (xs.length - 1) (by omega) (by omega)
      rw [List.get_eq_getElem, List.get_eq_getElem] at hlast
      simp only [Bool.not_true, Bool.false_eq_true, if_false, hget, hget', Option.bind_eq_bind, Option.bind_some]
      rcases hlast with ⟨hx, hy⟩ | hboth
      · rw [hx, hy]
        exact ⟨_, _, _, _, rfl, rfl, .inl ⟨rfl, rfl⟩, h⟩
      · have hadvance := both_advance hC (h.prev hinit) hboth hp
        obtain ⟨a, b, hx, hy, -⟩ := hboth
        rw [hx, hy] at hadvance ⊢
        exact ⟨_, _, _, _, rfl, rfl, .inr hadvance, rfl, fun _ => hadvance⟩

/-- When the average of a line that starts late is a number. -/
theorem TsiEma.next_ready {f : TsiEma OrNan} (hstarts : StartsAt IsNum k xs) (hp : 0 < p) (hne : xs ≠ [])
    (hprev : e.initialized = true → IsNum e.prev) (hinit : e.initialized = decide (k + p < xs.length))
    (hnext : e.next xs p = some (x, f)) :
    (IsNum x ↔ k + p ≤ xs.length) ∧ f.initialized = decide (k + p ≤ xs.length) := by
  have hpos := List.length_pos_iff.2 hne
  unfold TsiEma.next at hnext
  by_cases hfew : xs.length < p
  · rw [if_pos hfew] at hnext
    obtain ⟨rfl, rfl⟩ := Prod.mk.inj (Option.some.inj hnext)
    rw [hinit, decide_eq_false (by omega), decide_eq_false (by omega)]
    exact ⟨iff_of_false OrNan.not_isNum_nan (by omega), rfl⟩
  · rw [if_neg hfew] at hnext
    cases he : e.initialized with
    | false =>
      have hlt : ¬ k + p < xs.length := of_decide_eq_false (hinit.symm.trans he)
      have hvalues : (xs.drop (xs.length - 1 + 1 - p)).take p = xs.drop (xs.length - p) := by
        rw [show xs.length - 1 + 1 - p = xs.length - p by omega, List.take_of_length_le (by rw [List.length_drop]; omega)]
      have hany : ((xs.drop (xs.length - p)).reverse.any isNaN = true) ↔ ¬ k + p ≤ xs.length := by
        have hall := hstarts.drop (show xs.length - p < xs.length by omega)
        rw [List.any_eq_true]
        constructor
        · rintro ⟨y, hy, hnan⟩ hle
          exact OrNan.isNaN_iff.1 hnan (hall.2 (by omega) y (List.mem_reverse.1 hy))
        · intro hgt
          by_contra hnone
          refine hgt ?_
          have := hall.1 fun y hy => by
            by_contra hnum
            exact hnone ⟨y, List.mem_reverse.2 hy, OrNan.isNaN_iff.2 hnum⟩
          omega
      simp only [he, Bool.not_false, if_true, Access.mapM_readBack_eq (show xs.length - 1 < xs.length by omega)
        (show p ≤ xs.length - 1 + 1 by omega), hvalues, Option.bind_eq_bind, Option.bind_some] at hnext
      by_cases hnan : (xs.drop (xs.length - p)).reverse.any isNaN = true
      · rw [if_pos hnan] at hnext
        obtain ⟨rfl, rfl⟩ := Prod.mk.inj (Option.some.inj hnext)
        rw [he, decide_eq_false (hany.1 hnan)]
        exact ⟨iff_of_false OrNan.not_isNum_nan (hany.1 hnan), rfl⟩
      · rw [if_neg hnan] at hnext
        obtain ⟨rfl, rfl⟩ := Prod.mk.inj (Option.some.inj hnext)
        have hle : k + p ≤ xs.length := by
          by_contra hgt
          exact hnan (hany.2 hgt)
        refine ⟨iff_of_true ?_ hle, (decide_eq_true hle).symm⟩
        rw [OrNan.isNum_div_ofCount hp, OrNan.isNum_reduceSum]
        intro y hy
        exact (hstarts.drop (show xs.length - p < xs.length by omega)).2 (by omega) y (List.mem_reverse.1 hy)
    | true =>
      have hlt : k + p < xs.length := of_decide_eq_true (hinit.symm.trans he)
      have hget := List.getElem?_eq_getElem (show xs.length - 1 < xs.length by omega)
      have hcurrent : IsNum xs[xs.length - 1] := (hstarts _ _ hget).2 (by omega)
      simp only [he, Bool.not_true, Bool.false_eq_true, if_false, hget, Option.bind_eq_bind, Option.bind_some] at hnext
      rw [if_neg (fun hn => OrNan.isNaN_iff.1 hn hcurrent)] at hnext
      obtain ⟨rfl, rfl⟩ := Prod.mk.inj (Option.some.inj hnext)
      refine ⟨iff_of_true (advanceEma_num hcurrent (hprev he) (multiplier_num p)) (by omega), ?_⟩
      rw [decide_eq_true (by omega)]

end

namespace TrueStrengthIndicator
open OrNan (IsNum Band)
open Cones (Cone)
open Readiness (StartsAt)

variable {moves : Prop} {t : TrueStrengthIndicator OrNan} {qs : List ℚ} {q : ℚ} {source : Line OrNan} {x y : OrNan}

/-- The size of a change, or an average of such. -/
def Sized (moves : Prop) (change size : ℚ) : Prop := |change| ≤ size ∧ (moves → 0 < size)

theorem ratio_band (h : BothOrNan (Sized moves) x y) : Band (-100) 100 (ratio x y) ∧ (IsNum (ratio x y) → IsNum x) ∧
    (moves → IsNum x → IsNum (ratio x y)) := by
  unfold ratio
  rcases h with ⟨rfl, rfl⟩ | ⟨a, b, rfl, rfl, habs, hpos⟩
  · simp
  · simp only [OrNan.isNaN_num, Bool.false_or, OrNan.zero_eq, OrNan.num_beq, decide_eq_true_eq]
    by_cases hzero : b = 0
    · rw [if_pos hzero]
      exact ⟨OrNan.band_nan, fun h => absurd h OrNan.not_isNum_nan, fun hm => absurd (hpos hm) (by rw [hzero]; exact lt_irrefl 0)⟩
    · have hb : 0 < b := lt_of_le_of_ne ((abs_nonneg a).trans habs) (Ne.symm hzero)
      obtain ⟨hlo, hhi⟩ := abs_le.1 habs
      have hlo' : -1 ≤ a / b := (le_div_iff₀ hb).2 (by linarith)
      have hhi' : a / b ≤ 1 := (div_le_one hb).2 hhi
      rw [if_neg hzero, OrNan.num_div hzero, OrNan.ofScientific_eq, OrNan.num_mul, OrNan.band_num]
      norm_num
      exact ⟨by linarith, by linarith⟩

/-- After the values: the averages of the changes are sized by those of their sizes. -/
structure After (moves : Prop) (qs : List ℚ) (t : TrueStrengthIndicator OrNan) : Prop where
  pos1 : 0 < t.period1
  pos2 : 0 < t.period2
  posChange : 0 < t.pchange
  changes : List.Forall₂ (BothOrNan (Sized moves)) t.priceChange t.absPriceChange
  changesLength : t.priceChange.length = qs.length
  changesStart : StartsAt IsNum t.pchange t.priceChange
  emas : List.Forall₂ (BothOrNan (Sized moves)) t.emaPc1 t.emaAbs1
  emasLength : t.emaPc1.length = qs.length
  emasStart : StartsAt IsNum (t.pchange + t.period1 - 1) t.emaPc1
  first : Twins (Sized moves) t.pc1 t.abs1
  firstBegun : t.pc1.initialized = decide (t.pchange + t.period1 ≤ qs.length)
  second : Twins (Sized moves) t.pc2 t.abs2
  secondBegun : t.pc2.initialized = decide (t.pchange + t.period1 - 1 + t.period2 ≤ qs.length)
  length : t.line.length = qs.length
  band : ∀ x ∈ t.line, Band (-100) 100 x
  ready : moves → StartsAt IsNum (t.minimumPeriod - 1) t.line

theorem init_after {period1 period2 pchange : Nat} (h1 : 0 < period1) (h2 : 0 < period2) (hc : 0 < pchange) :
    After moves [] (init period1 period2 pchange) := by
  unfold init
  rw [if_neg h1.ne', if_neg h2.ne', if_neg hc.ne']
  exact ⟨h1, h2, hc, .nil, rfl, .nil, .nil, rfl, .nil, ⟨rfl, nofun⟩, by simp; omega, ⟨rfl, nofun⟩, by simp; omega, rfl, nofun,
    fun _ => .nil⟩

theorem After.next (h : t.After moves qs) (hs : Sourced ((qs ++ [q]).map OrNan.num) source) (hmoves : moves → (qs ++ [q]).Nodup) :
    ∃ t', t.next source = some t' ∧ t'.After moves (qs ++ [q]) ∧ t'.minimumPeriod = t.minimumPeriod := by
  have hlen : (qs ++ [q]).length = qs.length + 1 := by simp
  have hidx : source.idx = qs.length := by rw [hs.cursor]; simp
  have hpos1 := h.pos1
  have hpos2 := h.pos2
  have hposChange := h.posChange
  have hminimum : t.minimumPeriod = t.pchange + t.period1 + t.period2 - 1 := rfl
  unfold TrueStrengthIndicator.next
  rw [hidx]
  split_ifs with hearly
  · refine ⟨_, rfl, { h with
      changes := List.rel_append h.changes (.cons (.inl ⟨rfl, rfl⟩) .nil)
      changesLength := Driven.length_snoc h.changesLength _ _
      changesStart := h.changesStart.snoc (iff_of_false OrNan.not_isNum_nan (by rw [h.changesLength]; omega))
      emas := List.rel_append h.emas (.cons (.inl ⟨rfl, rfl⟩) .nil)
      emasLength := Driven.length_snoc h.emasLength _ _
      emasStart := h.emasStart.snoc (iff_of_false OrNan.not_isNum_nan (by rw [h.emasLength]; omega))
      firstBegun := ?_
      secondBegun := ?_
      length := Driven.length_snoc h.length _ _
      band := OrNan.band_snoc h.band OrNan.band_nan
      ready := fun hm => (h.ready hm).snoc (iff_of_false OrNan.not_isNum_nan (by rw [h.length]; omega)) }, rfl⟩
    · exact h.firstBegun.trans (decide_eq_decide.2 (by dsimp only; omega))
    · exact h.secondBegun.trans (decide_eq_decide.2 (by dsimp only; omega))
  · obtain ⟨hcurrent, b, -, hbefore, hne⟩ := hs.back hposChange (show t.pchange ≤ qs.length by omega)
    have hchange : Both (Sized moves) (OrNan.num q - .num b) (Arith.abs (OrNan.num q - .num b)) :=
      .num ⟨le_rfl, fun hm => abs_pos.2 (sub_ne_zero.2 (hne (hmoves hm)))⟩
    have hchanges := List.rel_append h.changes (List.Forall₂.cons (Or.inr hchange) .nil)
    have hchangesLength : (t.priceChange ++ [OrNan.num q - .num b]).length = qs.length + 1 := by
      rw [List.length_append, h.changesLength, List.length_singleton]
    have hchangesStart := h.changesStart.snoc (x := OrNan.num q - .num b) (iff_of_true (by simp) (by rw [h.changesLength]; omega))
    obtain ⟨sm1, sm2, pc1, abs1, hsm1, hsm2, hfirst, hfirst'⟩ := h.first.next (Cones.cone_abs moves) hchanges hpos1 (by simp)
    obtain ⟨hsm1Num, hpc1⟩ := TsiEma.next_ready hchangesStart hpos1 (by simp) (fun he => by
      obtain ⟨a, c, hprev, -⟩ := h.first.prev he
      rw [hprev]
      exact OrNan.isNum_num a) (h.firstBegun.trans (decide_eq_decide.2 (by omega))) hsm1
    have hemas := List.rel_append h.emas (List.Forall₂.cons hfirst .nil)
    have hemasLength : (t.emaPc1 ++ [sm1]).length = qs.length + 1 := by
      rw [List.length_append, h.emasLength, List.length_singleton]
    have hemasStart := h.emasStart.snoc (hsm1Num.trans (by rw [h.emasLength]; omega))
    obtain ⟨sm12, sm22, pc2, abs2, hsm12, hsm22, hsecond, hsecond'⟩ := h.second.next (Cones.cone_abs moves) hemas hpos2 (by simp)
    obtain ⟨hsm12Num, hpc2⟩ := TsiEma.next_ready hemasStart hpos2 (by simp) (fun he => by
      obtain ⟨a, c, hprev, -⟩ := h.second.prev he
      rw [hprev]
      exact OrNan.isNum_num a) (h.secondBegun.trans (decide_eq_decide.2 (by omega))) hsm12
    obtain ⟨hband, hnum, hnum'⟩ := ratio_band hsecond
    rw [hcurrent, hbefore]
    simp only [Option.bind_eq_bind, Option.bind_some, hsm1, hsm2, hsm12, hsm22]
    refine ⟨_, rfl, { h with
      changes := hchanges
      changesLength := hchangesLength.trans hlen.symm
      changesStart := hchangesStart
      emas := hemas
      emasLength := hemasLength.trans hlen.symm
      emasStart := hemasStart
      first := hfirst'
      firstBegun := hpc1.trans (by rw [hchangesLength, hlen])
      second := hsecond'
      secondBegun := hpc2.trans (by rw [hemasLength, hlen])
      length := Driven.length_snoc h.length _ _
      band := OrNan.band_snoc h.band hband
      ready := fun hm => (h.ready hm).snoc ?_ }, rfl⟩
    rw [h.length]
    refine ⟨fun hr => ?_, fun hle => hnum' hm (hsm12Num.2 (by omega))⟩
    have := hsm12Num.1 (hnum hr)
    omega

end TrueStrengthIndicator

namespace MoneyFlowIndex
open OrNan (Band)

variable {m m' : MoneyFlowIndex OrNan} {bars : List (Row ℚ)} {bar : Row ℚ} {q : Quotes OrNan}

/-- After the bars: no flow is negative, and what is put out is in the band. -/
structure After (bars : List (Row ℚ)) (m : MoneyFlowIndex OrNan) : Prop where
  pos : 0 < m.period
  flows : List.Forall₂ (Both (RSI.Sides False)) m.positiveFlow m.negativeFlow
  count : m.positiveFlow.length = bars.length
  length : m.line.length = bars.length
  band : ∀ x ∈ m.line, Band 0 100 x

theorem init_after {period : Nat} (hp : 0 < period) : After [] (init period) := by
  unfold init
  rw [if_neg hp.ne']
  exact ⟨hp, .nil, rfl, rfl, nofun⟩

theorem ofSums_band {p n : ℚ} (hp : 0 ≤ p) (hn : 0 ≤ n) : Band 0 100 (ofSums (OrNan.num p) (.num n)) := by
  unfold ofSums
  simp only [OrNan.zero_eq, OrNan.num_beq, decide_eq_true_eq]
  split_ifs with hzero
  · rw [OrNan.ofScientific_eq, OrNan.band_num]
    norm_num
  · exact RSI.ofRs_band hp (lt_of_le_of_ne hn (Ne.symm hzero))

theorem typicalPrice_read (hq : q.Of bars) {i : Nat} (hi : i < bars.length) :
    typicalPrice q.high q.low q.close i = some (.num ((bars[i].high + bars[i].low + bars[i].close) / 3)) := by
  unfold typicalPrice
  simp only [hq.high.read hi, hq.low.read hi, hq.close.read hi, Option.bind_eq_bind, Option.bind_some, OrNan.num_add,
    OrNan.ofScientific_eq]
  rw [OrNan.num_div (by norm_num)]
  norm_num

/-- The money of a bar flows one way. -/
theorem flows_sides (typical previous : ℚ) {flow : ℚ} (hflow : 0 ≤ flow) :
    Both (RSI.Sides False) (if previous < typical then OrNan.num flow else 0) (if typical < previous then OrNan.num flow else 0) := by
  rw [OrNan.zero_eq]
  split_ifs
  · exact .num ⟨hflow, hflow, nofun⟩
  · exact .num ⟨hflow, le_rfl, nofun⟩
  · exact .num ⟨le_rfl, hflow, nofun⟩
  · exact .num ⟨le_rfl, le_rfl, nofun⟩

theorem sums_nonneg {xs ys : List OrNan} (h : List.Forall₂ (Both (RSI.Sides False)) xs ys) :
    ∃ a b : ℚ, Simd.reduceSum xs = .num a ∧ Simd.reduceSum ys = .num b ∧ 0 ≤ a ∧ 0 ≤ b := by
  obtain ⟨as, bs, rfl, rfl, hab⟩ := forall₂_both h
  refine ⟨as.sum, bs.sum, OrNan.reduceSum_num as, OrNan.reduceSum_num bs, ?_⟩
  clear h
  induction hab with
  | nil => simp
  | cons hone _ ih =>
    obtain ⟨ha, hb⟩ := ih
    rw [List.sum_cons, List.sum_cons]
    exact ⟨add_nonneg hone.1 ha, add_nonneg hone.2.1 hb⟩

theorem After.next (h : m.After bars) (hok : ∀ b ∈ bars ++ [bar], 0 ≤ b.high + b.low + b.close ∧ 0 ≤ b.volume)
    (hq : q.Of (bars ++ [bar])) : ∃ m', m.next q.high q.low q.close q.volume = some m' ∧ m'.After (bars ++ [bar]) := by
  have hlen : (bars ++ [bar]).length = bars.length + 1 := by simp
  have hpos := h.pos
  unfold MoneyFlowIndex.next
  rw [hq.close.idx]
  dsimp only
  by_cases hfirst : bars.length = 0
  · rw [if_pos hfirst]
    exact ⟨_, rfl, hpos, List.rel_append h.flows (.cons (.num ⟨le_rfl, le_rfl, nofun⟩) .nil), Driven.length_snoc h.count _ _,
      Driven.length_snoc h.length _ _, OrNan.band_snoc h.band OrNan.band_nan⟩
  · obtain ⟨hprice, hvolume⟩ := hok bar (List.mem_append_right _ List.mem_cons_self)
    have htypical := typicalPrice_read hq (show bars.length < (bars ++ [bar]).length by omega)
    have hprevious := typicalPrice_read hq (show bars.length - 1 < (bars ++ [bar]).length by omega)
    have hlast : (bars ++ [bar])[bars.length] = bar := List.getElem_concat_length rfl _
    rw [hlast] at htypical
    rw [if_neg hfirst, htypical, hprevious, hq.volume.current]
    simp only [Option.bind_eq_bind, Option.bind_some, OrNan.num_mul, OrNan.num_lt]
    generalize (bars ++ [bar])[bars.length - 1] = before
    have hflow : 0 ≤ (bar.high + bar.low + bar.close) / 3 * bar.volume := mul_nonneg (by linarith) hvolume
    have hflows := List.rel_append h.flows (.cons (flows_sides ((bar.high + bar.low + bar.close) / 3)
      ((before.high + before.low + before.close) / 3) hflow) .nil)
    have hcount : (m.positiveFlow ++ [if (before.high + before.low + before.close) / 3 < (bar.high + bar.low + bar.close) / 3 then
        OrNan.num ((bar.high + bar.low + bar.close) / 3 * bar.volume) else 0]).length = bars.length + 1 := by
      rw [List.length_append, h.count, List.length_singleton]
    have hlength := hflows.length_eq
    rw [hcount] at hlength
    by_cases hfew : bars.length < m.period
    · rw [if_pos hfew]
      exact ⟨_, rfl, hpos, hflows, hcount.trans hlen.symm, Driven.length_snoc h.length _ _, OrNan.band_snoc h.band OrNan.band_nan⟩
    · obtain ⟨p, n, hp, hn, hp0, hn0⟩ := sums_nonneg
        (List.rel_reverse (List.forall₂_take m.period (List.forall₂_drop (bars.length + 1 - 1 + 1 - m.period) hflows)))
      rw [if_neg hfew, hcount, ← hlength, sumBack_eq (by rw [hcount]; omega) (by omega), sumBack_eq (by rw [← hlength]; omega) (by omega)]
      simp only [Option.bind_some]
      refine ⟨_, rfl, hpos, hflows, hcount.trans hlen.symm, Driven.length_snoc h.length _ _, OrNan.band_snoc h.band ?_⟩
      rw [hp, hn]
      exact ofSums_band hp0 hn0

end MoneyFlowIndex

end Indicators

end StratForge
