import Mathlib.Algebra.Order.Floor.Semiring
import Mathlib.Data.Rat.Floor
import Mathlib.Tactic.FieldSimp
import Mathlib.Tactic.LinearCombination
import StratForge.Results

/-!
# The extended metrics (`analytics/extended_metrics.hpp`)

`ExtendedMetricsCalculator.compute` makes fifteen figures of an equity curve and the results of the trades; `report` is
what the results show of them. The expectancy is put together from the win rate, which is over all trades, and from the
averages of the winners and of the losers: it is the mean result unless some trades lose and some break even
(`expectancy_mean_iff`).
-/

namespace StratForge

/-- What the calculator uses of `<cmath>` and `<limits>`; `floor` and `ceil` come with the cast to `std::size_t`. -/
structure Maths (α : Type) where
  pow : α → α → α
  sqrt : α → α
  infinity : α
  floor : α → Nat
  ceil : α → Nat

structure ExtendedMetricsConfig (α : Type) where
  initialCapital : α
  riskFreeRate : α
  tradingDaysPerYear : Nat := 252
  valueAtRiskQuantile : α

structure ExtendedPerformanceMetrics (α : Type) where
  annualizedReturn : α
  cagr : α
  volatility : α
  sortinoRatio : α
  calmarRatio : α
  profitFactor : α
  expectancy : α
  valueAtRisk95 : α
  maxDrawdown : α
  totalTrades : Nat
  winningTrades : Nat
  losingTrades : Nat
  winRate : α
  averageWin : α
  averageLoss : α
deriving DecidableEq, Repr

variable {α : Type} [Arith α]

def ExtendedMetricsConfig.default : ExtendedMetricsConfig α :=
  { initialCapital := 0, riskFreeRate := 0, valueAtRiskQuantile := 0.05 }

def ExtendedPerformanceMetrics.zero : ExtendedPerformanceMetrics α := ⟨0, 0, 0, 0, 0, 0, 0, 0, 0, 0, 0, 0, 0, 0, 0⟩

namespace ExtendedMetricsCalculator

def calculateReturns : List α → List α
  | prevEquity :: currEquity :: rest =>
    if 0 < prevEquity then (currEquity - prevEquity) / prevEquity :: calculateReturns (currEquity :: rest)
    else calculateReturns (currEquity :: rest)
  | _ => []

def mean (values : List α) : α := if values.isEmpty then 0 else values.foldl (· + ·) 0 / Arith.ofCount values.length

def standardDeviation (maths : Maths α) (values : List α) : α :=
  if values.length < 2 then 0
  else
    let avg := mean values
    let squareDiffSum := values.foldl (fun s value => s + (value - avg) * (value - avg)) 0
    maths.sqrt (squareDiffSum / Arith.ofCount values.length)

def calculateAnnualizedReturnPercent (initialCapital finalEquity : α) (bars tradingDaysPerYear : Nat) : α :=
  if initialCapital ≤ 0 then 0
  else
    let totalReturnPercent := (finalEquity - initialCapital) / initialCapital * 100.0
    if bars < 2 ∨ tradingDaysPerYear = 0 then totalReturnPercent
    else
      let yearsElapsed := Arith.ofCount (bars - 1) / Arith.ofCount tradingDaysPerYear
      if 0 < yearsElapsed then totalReturnPercent / yearsElapsed else totalReturnPercent

def calculateCagrPercent (maths : Maths α) (initialCapital finalEquity : α) (bars tradingDaysPerYear : Nat) : α :=
  if initialCapital ≤ 0 ∨ finalEquity ≤ 0 ∨ bars = 0 ∨ tradingDaysPerYear = 0 then 0
  else
    let exponent := Arith.ofCount tradingDaysPerYear / Arith.ofCount bars
    (maths.pow (finalEquity / initialCapital) exponent - 1) * 100.0

/-- One turn of the loop of `calculate_max_drawdown_percent`, over the peak and the drawdown. -/
def drawdownTurn (s : α × α) (equity : α) : α × α :=
  let peak := Arith.max s.1 equity
  (peak, if 0 < peak then Arith.max s.2 ((peak - equity) / peak * 100.0) else s.2)

def calculateMaxDrawdownPercent (equityCurve : List α) : α :=
  match equityCurve with
  | [] => 0
  | front :: _ => (equityCurve.foldl drawdownTurn (front, 0)).2

def calculateVolatilityPercent (maths : Maths α) (returns : List α) (tradingDaysPerYear : Nat) : α :=
  if returns.isEmpty ∨ tradingDaysPerYear = 0 then 0
  else standardDeviation maths returns * maths.sqrt (Arith.ofCount tradingDaysPerYear) * 100.0

def calculateSortinoRatio (maths : Maths α) (returns : List α) (riskFreeRate : α) (tradingDaysPerYear : Nat) : α :=
  if returns.isEmpty ∨ tradingDaysPerYear = 0 then 0
  else
    let annualizedMeanReturn := mean returns * Arith.ofCount tradingDaysPerYear
    let dailyRiskFree := riskFreeRate / Arith.ofCount tradingDaysPerYear
    let downsideReturns := returns.filter (· < dailyRiskFree)
    if downsideReturns.length < 2 then 0
    else
      let downsideDeviation := standardDeviation maths downsideReturns * maths.sqrt (Arith.ofCount tradingDaysPerYear)
      if downsideDeviation ≤ 0 then 0 else (annualizedMeanReturn - riskFreeRate) / downsideDeviation

/-- Where the quantile stands in a list of so many values, and the places around it. -/
def quantilePosition (maths : Maths α) (length : Nat) (quantile : α) : α × Nat × Nat :=
  let position := Arith.clamp quantile 0 1 * Arith.ofCount (length - 1)
  (position, maths.floor position, maths.ceil position)

def calculateValueAtRiskPercent (maths : Maths α) (returns : List α) (quantile : α) : α :=
  if returns.isEmpty then 0
  else
    let sortedReturns := returns.mergeSort (· ≤ ·)
    let (position, lowerIndex, upperIndex) := quantilePosition maths sortedReturns.length quantile
    let lower := sortedReturns.getD lowerIndex 0
    let quantileValue :=
      if upperIndex ≠ lowerIndex then
        let weight := position - Arith.ofCount lowerIndex
        lower + (sortedReturns.getD upperIndex 0 - lower) * weight
      else lower
    Arith.max 0 (-quantileValue * 100.0)

/-- What the loop over the trades counts. -/
structure TradeTotals (α : Type) where
  winningTrades : Nat
  losingTrades : Nat
  totalWins : α
  totalLosses : α

/-- A trade that breaks even is in neither class. -/
def TradeTotals.count (t : TradeTotals α) (pnl : α) : TradeTotals α :=
  if 0 < pnl then { t with winningTrades := t.winningTrades + 1, totalWins := t.totalWins + pnl }
  else if pnl < 0 then { t with losingTrades := t.losingTrades + 1, totalLosses := t.totalLosses + -pnl }
  else t

def tradeTotals (tradePnls : List α) : TradeTotals α := tradePnls.foldl TradeTotals.count ⟨0, 0, 0, 0⟩

def compute (maths : Maths α) (equityCurve tradePnls : List α) (config : ExtendedMetricsConfig α) :
    ExtendedPerformanceMetrics α :=
  match equityCurve with
  | [] => .zero
  | front :: rest =>
    let back := (front :: rest).getLast (List.cons_ne_nil front rest)
    let bars := equityCurve.length
    let initialCapital := if 0 < config.initialCapital then config.initialCapital else front
    let returns := calculateReturns equityCurve
    let cagr := calculateCagrPercent maths initialCapital back bars config.tradingDaysPerYear
    let maxDrawdown := calculateMaxDrawdownPercent equityCurve
    let totalTrades := tradePnls.length
    let t := tradeTotals tradePnls
    let winRate := if 0 < totalTrades then Arith.ofCount t.winningTrades / Arith.ofCount totalTrades * 100.0 else 0
    let averageWin := if 0 < t.winningTrades then t.totalWins / Arith.ofCount t.winningTrades else 0
    let averageLoss := if 0 < t.losingTrades then t.totalLosses / Arith.ofCount t.losingTrades else 0
    let winRateDecimal := winRate / 100.0
    { annualizedReturn := calculateAnnualizedReturnPercent initialCapital back bars config.tradingDaysPerYear
      cagr
      volatility := calculateVolatilityPercent maths returns config.tradingDaysPerYear
      sortinoRatio := calculateSortinoRatio maths returns config.riskFreeRate config.tradingDaysPerYear
      calmarRatio := if 0 < maxDrawdown then cagr / maxDrawdown else 0
      profitFactor :=
        if 0 < t.totalLosses then t.totalWins / t.totalLosses else if 0 < t.totalWins then maths.infinity else 0
      expectancy := winRateDecimal * averageWin - (1 - winRateDecimal) * averageLoss
      valueAtRisk95 := calculateValueAtRiskPercent maths returns config.valueAtRiskQuantile
      maxDrawdown, totalTrades, winningTrades := t.winningTrades, losingTrades := t.losingTrades
      winRate, averageWin, averageLoss }

/-- What `serialize_results` takes of it. -/
def report (maths : Maths α) (equityCurve tradePnls : List α) (initialCash : α) : ExtendedMetrics α :=
  let ext := compute maths equityCurve tradePnls { ExtendedMetricsConfig.default with initialCapital := initialCash }
  { annualizedReturn := ext.annualizedReturn, sortinoRatio := ext.sortinoRatio, calmarRatio := ext.calmarRatio,
    volatility := ext.volatility, valueAtRisk95 := ext.valueAtRisk95, expectancy := ext.expectancy }

/-! ### What the loop counts -/

theorem ofCount_rat (n : Nat) : (Arith.ofCount n : ℚ) = n := by
  show Rat.ofScientific n false 0 = n
  simp [Rat.ofScientific_def]

/-- Winners, losers and trades that break even are all the trades. -/
structure TradeTotals.Of (t : TradeTotals ℚ) (pnls : List ℚ) : Prop where
  won : t.winningTrades = pnls.countP (0 < ·)
  lost : t.losingTrades = pnls.countP (· < 0)
  sum : t.totalWins - t.totalLosses = pnls.sum
  wins : t.winningTrades = 0 → t.totalWins = 0
  losses : 0 ≤ t.totalLosses ∧ (t.totalLosses = 0 ↔ t.losingTrades = 0)

theorem tradeTotals_of (pnls : List ℚ) : (tradeTotals pnls).Of pnls := by
  induction pnls using List.reverseRecOn with
  | nil => exact ⟨rfl, rfl, sub_self 0, fun _ => rfl, le_rfl, fun _ => rfl, fun _ => rfl⟩
  | append_singleton pnls pnl ih =>
    obtain ⟨hwon, hlost, hsum, hwins, hlosses, hzero⟩ := ih
    unfold tradeTotals at hwon hlost hsum hwins hlosses hzero ⊢
    rw [List.foldl_concat]
    generalize pnls.foldl TradeTotals.count ⟨0, 0, 0, 0⟩ = t at *
    unfold TradeTotals.count
    rcases lt_trichotomy pnl 0 with h | rfl | h
    · rw [if_neg h.not_gt, if_pos h]
      refine ⟨?_, ?_, ?_, hwins, ?_, ?_⟩
      · simp [hwon, h.le]
      · simp [hlost, h]
      · simp [← hsum]
        ring
      · show 0 ≤ t.totalLosses + -pnl
        linarith
      · show t.totalLosses + -pnl = 0 ↔ t.losingTrades + 1 = 0
        exact ⟨fun h0 => absurd h0 (by linarith), fun h0 => absurd h0 (Nat.succ_ne_zero _)⟩
    · rw [if_neg (lt_irrefl 0), if_neg (lt_irrefl 0)]
      exact ⟨by simp [hwon], by simp [hlost], by simp [hsum], hwins, hlosses, hzero⟩
    · rw [if_pos h]
      refine ⟨?_, ?_, ?_, fun h0 => absurd h0 (Nat.succ_ne_zero _), hlosses, hzero⟩
      · simp [hwon, h]
      · simp [hlost, h.le]
      · simp [← hsum]
        ring

/-- Every trade is in one class. -/
theorem length_classes (pnls : List ℚ) :
    pnls.length = pnls.countP (0 < ·) + pnls.countP (· < 0) + pnls.countP (· = 0) := by
  induction pnls with
  | nil => rfl
  | cons pnl pnls ih =>
    rcases lt_trichotomy pnl 0 with h | rfl | h
    · simp [ih, h, h.le, h.ne]
      omega
    · simp [ih]
      omega
    · simp [ih, h, h.le, h.ne']
      omega

/-- An average times its count is the total, also where there is nothing to average. -/
theorem average_mul {total : ℚ} {count : Nat} (h : count = 0 → total = 0) :
    (if 0 < count then total / Arith.ofCount count else 0) * (count : ℚ) = total := by
  rcases Nat.eq_zero_or_pos count with rfl | hpos
  · simp [h]
  · have hne : (count : ℚ) ≠ 0 := Nat.cast_ne_zero.2 hpos.ne'
    rw [if_pos hpos, ofCount_rat, div_mul_cancel₀ _ hne]

theorem totalTrades_compute (maths : Maths ℚ) (front : ℚ) (rest pnls : List ℚ) (config : ExtendedMetricsConfig ℚ) :
    (compute maths (front :: rest) pnls config).totalTrades = pnls.length := rfl

/-- What is missing to the sum are the trades that break even, which are taken for losers. -/
theorem expectancy_total (maths : Maths ℚ) (front : ℚ) (rest pnls : List ℚ) (config : ExtendedMetricsConfig ℚ) :
    let m := compute maths (front :: rest) pnls config
    m.expectancy * m.totalTrades = pnls.sum - pnls.countP (· = 0) * m.averageLoss := by
  obtain ⟨hwon, hlost, hsum, hwins, -, hzero⟩ := tradeTotals_of pnls
  have hlen := length_classes pnls
  rw [← hwon, ← hlost] at hlen
  unfold compute
  dsimp only
  generalize tradeTotals pnls = t at *
  have hw := average_mul hwins
  have hl := average_mul hzero.2
  generalize (if 0 < t.winningTrades then t.totalWins / Arith.ofCount t.winningTrades else 0 : ℚ) = averageWin at *
  generalize (if 0 < t.losingTrades then t.totalLosses / Arith.ofCount t.losingTrades else 0 : ℚ) = averageLoss at *
  rcases Nat.eq_zero_or_pos pnls.length with h0 | hpos
  · obtain rfl := List.eq_nil_of_length_eq_zero h0
    simp
  · have hn : (pnls.length : ℚ) ≠ 0 := Nat.cast_ne_zero.2 hpos.ne'
    have hcount : (pnls.length : ℚ) = t.winningTrades + t.losingTrades + pnls.countP (· = 0) := by exact_mod_cast hlen
    have hrate : (t.winningTrades / pnls.length * 100.0 / 100.0 : ℚ) * pnls.length = t.winningTrades := by
      norm_num
      field_simp
    have hfigure : ∀ r : ℚ, r * pnls.length = t.winningTrades →
        (r * averageWin - (1 - r) * averageLoss) * pnls.length = pnls.sum - pnls.countP (· = 0) * averageLoss := by
      intro r hr
      rw [← hsum, ← hw, ← hl]
      linear_combination (averageWin + averageLoss) * hr - averageLoss * hcount
    rw [if_pos hpos, ofCount_rat, ofCount_rat]
    exact hfigure _ hrate

/-- The average loss is nothing only where nothing was lost. -/
theorem averageLoss_eq_zero_iff (maths : Maths ℚ) (front : ℚ) (rest pnls : List ℚ) (config : ExtendedMetricsConfig ℚ) :
    (compute maths (front :: rest) pnls config).averageLoss = 0 ↔ ∀ pnl ∈ pnls, 0 ≤ pnl := by
  obtain ⟨-, hlost, -, -, -, hzero⟩ := tradeTotals_of pnls
  have hnone : (tradeTotals pnls).losingTrades = 0 ↔ ∀ pnl ∈ pnls, 0 ≤ pnl := by
    rw [hlost, List.countP_eq_zero]
    simp
  unfold compute
  dsimp only
  rcases Nat.eq_zero_or_pos (tradeTotals pnls).losingTrades with h0 | hpos
  · rw [h0] at hnone ⊢
    exact ⟨fun _ => hnone.1 rfl, fun _ => rfl⟩
  · have hne : (Nat.cast (tradeTotals pnls).losingTrades : ℚ) ≠ 0 := Nat.cast_ne_zero.2 hpos.ne'
    rw [if_pos hpos, ofCount_rat, div_eq_zero_iff, hzero, hnone]
    simp [hne]

/-- The quantile is read inside the returns. -/
theorem quantilePosition_lt {maths : Maths ℚ} (hfloor : ∀ q, maths.floor q = ⌊q⌋₊) (hceil : ∀ q, maths.ceil q = ⌈q⌉₊)
    {length : Nat} (h : 0 < length) (quantile : ℚ) :
    (quantilePosition maths length quantile).2.1 ≤ (quantilePosition maths length quantile).2.2 ∧
      (quantilePosition maths length quantile).2.2 < length := by
  have hclamp : Arith.clamp quantile 0 1 ≤ 1 := by
    unfold Arith.clamp
    split_ifs with h0 h1
    · exact zero_le_one
    · exact le_rfl
    · exact not_lt.1 h1
  unfold quantilePosition
  dsimp only
  rw [hfloor, hceil, ofCount_rat]
  refine ⟨Nat.floor_le_ceil _, ?_⟩
  have hle : ⌈Arith.clamp quantile 0 1 * ((length - 1 : Nat) : ℚ)⌉₊ ≤ length - 1 :=
    Nat.ceil_le.2 (mul_le_of_le_one_left (Nat.cast_nonneg _) hclamp)
  omega

end ExtendedMetricsCalculator

open ExtendedMetricsCalculator in
/-- The expectancy is the mean result of the trades when none breaks even or none loses. Without an equity curve
nothing is counted. -/
theorem expectancy_mean_iff (maths : Maths ℚ) (equityCurve tradePnls : List ℚ) (config : ExtendedMetricsConfig ℚ) :
    let m := compute maths equityCurve tradePnls config
    m.expectancy * m.totalTrades = tradePnls.sum ↔
      equityCurve ≠ [] ∧ ((∀ pnl ∈ tradePnls, pnl ≠ 0) ∨ ∀ pnl ∈ tradePnls, 0 ≤ pnl) ∨
      equityCurve = [] ∧ tradePnls.sum = 0 := by
  match equityCurve with
  | [] =>
    unfold compute ExtendedPerformanceMetrics.zero
    simp [eq_comm]
  | front :: rest =>
    have hnone : (tradePnls.countP (· = 0) : ℚ) = 0 ↔ ∀ pnl ∈ tradePnls, pnl ≠ 0 := by
      rw [Nat.cast_eq_zero, List.countP_eq_zero]
      simp
    dsimp only
    rw [expectancy_total, sub_eq_self, mul_eq_zero, averageLoss_eq_zero_iff, hnone]
    simp

/-- So it is in the report, when no trade breaks even. -/
theorem expectancy_reported {W : Type} (maths : Maths ℚ) {ctx : SerializationContext ℚ W} {b : BackBroker ℚ W}
    {equity : List ℚ} {analysis : ReportAnalysis ℚ} (hb : ctx.broker = some b) (hequity : ctx.cashValue = some equity)
    (hanalysis : ctx.tradeAnalyzer = some analysis) (hlen : 1 < equity.length)
    (heven : ∀ x ∈ b.closedTrades, x.1.pnlcomm ≠ 0) :
    (ctx.extended (ExtendedMetricsCalculator.report maths)).expectancy * b.closedTrades.length =
      (b.closedTrades.map fun x => x.1.pnlcomm).sum := by
  unfold SerializationContext.extended
  rw [hequity, hanalysis, hb]
  dsimp only
  rw [if_pos hlen]
  match equity, hlen with
  | front :: rest, _ =>
    have htotal := ExtendedMetricsCalculator.expectancy_total maths front rest (b.closedTrades.map fun x => x.1.pnlcomm)
      { ExtendedMetricsConfig.default with initialCapital := ctx.initialCash }
    have hnone : (b.closedTrades.map fun x => x.1.pnlcomm).countP (· = 0) = 0 := by
      rw [List.countP_eq_zero]
      intro pnl hpnl
      obtain ⟨x, hx, rfl⟩ := List.mem_map.1 hpnl
      simpa using heven x hx
    dsimp only at htotal
    rw [hnone, Nat.cast_zero, zero_mul, sub_zero, ExtendedMetricsCalculator.totalTrades_compute, List.length_map] at htotal
    exact htotal

open ExtendedMetricsCalculator in
/-- A winner, a loser and a trade that breaks even. -/
theorem not_expectancy_mean : ¬ ∀ (maths : Maths ℚ) (equityCurve tradePnls : List ℚ) (config : ExtendedMetricsConfig ℚ),
    let m := compute maths equityCurve tradePnls config
    m.expectancy * m.totalTrades = tradePnls.sum := by
  intro h
  have := h ⟨fun x _ => x, id, 0, fun _ => 0, fun _ => 0⟩ [100, 101] [1, 0, -1] .default
  revert this
  decide +kernel

end StratForge
