import Mathlib.Analysis.SpecialFunctions.Pow.Real
import StratForge.Fold
import StratForge.Performance

/-!
# The ratios (`analyzers/sharpe_ratio.hpp`, `analyzers/returns.hpp`)

Two analyzers make again of a run what the extended metrics make of its equity curve. Over the reals they agree: the Sharpe
ratio times the volatility is the yearly excess return, and the normalized return is the compound growth rate
(`ratios_agree`).
-/

namespace StratForge

/-- What `Returns` uses of `<cmath>`. The logarithm of zero is `-infinity`, which is `⊥` here. -/
structure LogMaths (α : Type) where
  log : α → WithBot α
  expm1 : α → α

variable {α W : Type} [Arith α]

/-! ### The Sharpe ratio -/

structure SharpeRatio (α : Type) where
  riskFreeRate : α
  tradingDays : Int
  prevValue : α
  sharperatio : α
  returns : List α
  initialized : Bool

namespace SharpeRatio

def start (riskFreeRate : α) (tradingDays : Int) : SharpeRatio α := ⟨riskFreeRate, tradingDays, 0, 0, [], false⟩

/-- The value the next return is against. -/
def prev (initialCash : α) (s : SharpeRatio α) : α := if s.initialized then s.prevValue else initialCash

/-- `next`, once the value of the portfolio is known. -/
def observe (initialCash : α) (s : SharpeRatio α) (value : α) : SharpeRatio α :=
  let prevValue := s.prev initialCash
  { s with
    returns := if 0 < prevValue then s.returns ++ [(value - prevValue) / prevValue] else s.returns
    prevValue := value
    initialized := true }

def next (s : SharpeRatio α) (b : BackBroker α W) (feeds : List (DataFeed α)) : Except Error (SharpeRatio α) :=
  (b.portfolioValue feeds).map (s.observe b.initialCash)

def factor (s : SharpeRatio α) : α :=
  if s.tradingDays < 0 then -Arith.ofCount s.tradingDays.natAbs else Arith.ofCount s.tradingDays.natAbs

def periodRf (maths : Maths α) (s : SharpeRatio α) : α := maths.pow (1 + s.riskFreeRate) (1 / s.factor) - 1

def stop (maths : Maths α) (s : SharpeRatio α) : SharpeRatio α :=
  if s.returns.length < 2 then { s with sharperatio := 0 }
  else
    let excessReturns := s.returns.map (· - s.periodRf maths)
    let mean := excessReturns.foldl (· + ·) 0 / Arith.ofCount excessReturns.length
    let sqSum := excessReturns.foldl (fun sqSum ret => sqSum + (ret - mean) * (ret - mean)) 0
    let stddev := maths.sqrt (sqSum / Arith.ofCount excessReturns.length)
    if stddev < 1e-10 then { s with sharperatio := 0 }
    else { s with sharperatio := mean / stddev * maths.sqrt s.factor }

/-- A run over the values of the portfolio, bar by bar. -/
def run (maths : Maths α) (riskFreeRate : α) (tradingDays : Int) (initialCash : α) (values : List α) : SharpeRatio α :=
  (values.foldl (observe initialCash) (start riskFreeRate tradingDays)).stop maths

end SharpeRatio

/-! ### The returns -/

structure ReturnsAnalysis (α : Type) where
  rtot : WithBot α
  ravg : WithBot α
  rnorm : WithBot α
  rnorm100 : WithBot α

structure Returns (α : Type) where
  annualizationFactor : α
  analysis : ReturnsAnalysis α
  valueStart : α
  valueEnd : α
  periodCount : Nat
  initialized : Bool

namespace Returns

def start (annualizationFactor : α) : Returns α :=
  ⟨annualizationFactor, ⟨(0 : α), (0 : α), (0 : α), (0 : α)⟩, 0, 0, 0, false⟩

/-- `next`, once the value of the portfolio is known. -/
def observe (s : Returns α) (value : α) : Returns α :=
  { s with
    valueStart := if s.initialized then s.valueStart else value
    initialized := true
    valueEnd := value
    periodCount := s.periodCount + 1 }

def next (s : Returns α) (b : BackBroker α W) (feeds : List (DataFeed α)) : Except Error (Returns α) :=
  (b.portfolioValue feeds).map s.observe

/-- What is computed from `-infinity` stays it. -/
def stop (maths : LogMaths α) (s : Returns α) : Returns α :=
  if s.initialized = false ∨ s.periodCount = 0 then s
  else
    let rtot :=
      if s.valueStart == 0 then ⊥
      else
        let ratio := s.valueEnd / s.valueStart
        if ratio < 0 then ⊥ else maths.log ratio
    let ravg := rtot.map (· / Arith.ofCount s.periodCount)
    let rnorm := ravg.map fun ravg => maths.expm1 (ravg * s.annualizationFactor)
    { s with analysis := { rtot, ravg, rnorm, rnorm100 := rnorm.map (· * 100.0) } }

def run (maths : LogMaths α) (annualizationFactor : α) (values : List α) : Returns α :=
  (values.foldl observe (start annualizationFactor)).stop maths

end Returns

/-! ### What the loops keep -/

namespace SharpeRatio

theorem foldl_observe (initialCash : α) (values : List α) (s : SharpeRatio α) :
    (values.foldl (observe initialCash) s).returns =
      s.returns ++ ExtendedMetricsCalculator.calculateReturns (s.prev initialCash :: values) := by
  induction values generalizing s with
  | nil => simp [ExtendedMetricsCalculator.calculateReturns]
  | cons value values ih =>
    rw [List.foldl_cons, ih]
    show (if 0 < s.prev initialCash then s.returns ++ [(value - s.prev initialCash) / s.prev initialCash] else s.returns) ++
      ExtendedMetricsCalculator.calculateReturns (value :: values) = _
    rw [ExtendedMetricsCalculator.calculateReturns]
    split_ifs
    · simp
    · rfl

theorem foldl_observe_config (initialCash : α) (values : List α) (s : SharpeRatio α) :
    (values.foldl (observe initialCash) s).riskFreeRate = s.riskFreeRate ∧
      (values.foldl (observe initialCash) s).tradingDays = s.tradingDays :=
  Fold.foldl_ind (fun t : SharpeRatio α => t.riskFreeRate = s.riskFreeRate ∧ t.tradingDays = s.tradingDays)
    values s ⟨rfl, rfl⟩ fun _ _ _ h => h

theorem stop_returns (maths : Maths α) (s : SharpeRatio α) : (s.stop maths).returns = s.returns := by
  unfold stop
  dsimp only
  split_ifs <;> rfl

end SharpeRatio

namespace Returns

omit [Arith α] in
theorem foldl_observe (values : List α) (s : Returns α) (hs : s.initialized = true) :
    values.foldl observe s =
      { s with valueEnd := values.getLastD s.valueEnd, periodCount := s.periodCount + values.length } := by
  induction values generalizing s with
  | nil => rfl
  | cons value values ih =>
    rw [List.foldl_cons, ih _ rfl]
    unfold observe
    rw [hs, List.getLastD_cons, List.length_cons, Nat.add_comm values.length, Nat.add_assoc]
    rfl

theorem foldl_start (annualizationFactor first : α) (rest : List α) :
    (first :: rest).foldl observe (start annualizationFactor) =
      { start annualizationFactor with
        valueStart := first, initialized := true, valueEnd := rest.getLastD first, periodCount := rest.length + 1 } := by
  rw [List.foldl_cons, foldl_observe rest _ rfl, Nat.add_comm]
  rfl

end Returns

/-! ### Over the reals -/

noncomputable instance : Arith ℝ where
  abs x := |x|
  decLt := inferInstance
  decLe := inferInstance

/-- The functions of `<cmath>`, and whatever is taken for infinity. -/
noncomputable def realMaths (infinity : ℝ) : Maths ℝ where
  pow := fun x y => x ^ y
  sqrt := Real.sqrt
  infinity
  floor := fun x => ⌊x⌋₊
  ceil := fun x => ⌈x⌉₊

noncomputable def realLogMaths : LogMaths ℝ where
  log := fun x => if x = 0 then ⊥ else Real.log x
  expm1 := fun x => Real.exp x - 1

theorem ofCount_real (n : Nat) : (Arith.ofCount n : ℝ) = n := by
  show ((Rat.ofScientific n false 0 : ℚ) : ℝ) = n
  simp [Rat.ofScientific_def]

/-! ### The two Sharpe ratios -/

namespace ExtendedMetricsCalculator

theorem mean_real (values : List ℝ) : mean values = values.sum / values.length := by
  unfold mean
  rw [ofCount_real, ← List.sum_eq_foldl]
  cases values with
  | nil => simp
  | cons => rfl

/-- Sums of squares, as both loops add them up. -/
theorem foldl_squares (values : List ℝ) (avg : ℝ) :
    values.foldl (fun s value => s + (value - avg) * (value - avg)) 0 =
      (values.map fun value => (value - avg) * (value - avg)).sum := by
  rw [List.sum_eq_foldl, List.foldl_map]

theorem sum_sub_const (values : List ℝ) (c : ℝ) : (values.map (· - c)).sum = values.sum - values.length * c := by
  induction values with
  | nil => simp
  | cons value values ih =>
    rw [List.map_cons, List.sum_cons, ih, List.sum_cons, List.length_cons]
    push_cast
    ring

theorem mean_sub_const {values : List ℝ} (h : values ≠ []) (c : ℝ) : mean (values.map (· - c)) = mean values - c := by
  have hlen : (values.length : ℝ) ≠ 0 := by simpa using h
  rw [mean_real, mean_real, sum_sub_const, List.length_map]
  field_simp

theorem standardDeviation_real (infinity : ℝ) {values : List ℝ} (h : 2 ≤ values.length) :
    standardDeviation (realMaths infinity) values =
      Real.sqrt ((values.map fun value => (value - mean values) * (value - mean values)).sum / values.length) := by
  unfold standardDeviation
  rw [if_neg (not_lt.2 h), ofCount_real]
  dsimp only
  rw [foldl_squares]
  rfl

end ExtendedMetricsCalculator

open ExtendedMetricsCalculator

namespace SharpeRatio

theorem run_returns (maths : Maths α) (riskFreeRate : α) (tradingDays : Int) (initialCash : α) (values : List α) :
    (run maths riskFreeRate tradingDays initialCash values).returns = calculateReturns (initialCash :: values) := by
  unfold run
  rw [stop_returns, foldl_observe]
  rfl

/-- The deviation of the excess returns is that of the returns. -/
theorem stop_real (infinity : ℝ) (s : SharpeRatio ℝ) :
    (s.stop (realMaths infinity)).sharperatio =
      if s.returns.length < 2 ∨ standardDeviation (realMaths infinity) s.returns < 1e-10 then 0
      else (mean s.returns - s.periodRf (realMaths infinity)) / standardDeviation (realMaths infinity) s.returns *
        Real.sqrt s.factor := by
  unfold stop
  rcases Nat.lt_or_ge s.returns.length 2 with hlen | hlen
  · simp [hlen]
  · have hne : s.returns ≠ [] := fun h => by simp [h] at hlen
    have hmean : (s.returns.map (· - s.periodRf (realMaths infinity))).foldl (· + ·) 0 /
        Arith.ofCount (s.returns.map (· - s.periodRf (realMaths infinity))).length =
        mean s.returns - s.periodRf (realMaths infinity) := by
      rw [← mean_sub_const hne, mean_real, ofCount_real, ← List.sum_eq_foldl]
    have hdev : (realMaths infinity).sqrt ((s.returns.map (· - s.periodRf (realMaths infinity))).foldl
          (fun sqSum ret => sqSum + (ret - (mean s.returns - s.periodRf (realMaths infinity))) *
            (ret - (mean s.returns - s.periodRf (realMaths infinity)))) 0 /
        Arith.ofCount (s.returns.map (· - s.periodRf (realMaths infinity))).length) =
        standardDeviation (realMaths infinity) s.returns := by
      rw [standardDeviation_real infinity hlen, foldl_squares, ofCount_real, List.length_map, List.map_map]
      simp only [Function.comp_def, sub_sub_sub_cancel_right]
      rfl
    rw [if_neg hlen.not_gt]
    dsimp only
    rw [hmean, hdev]
    rcases lt_or_ge (standardDeviation (realMaths infinity) s.returns) 1e-10 with hlow | hlow
    · rw [if_pos hlow, if_pos (.inr hlow)]
    · rw [if_neg hlow.not_gt, if_neg (not_or.2 ⟨hlen.not_gt, hlow.not_gt⟩)]
      rfl

/-- The volatility is in percent, and the ratio is per deviation. -/
theorem sharperatio_mul_volatility (infinity riskFreeRate initialCash : ℝ) {tradingDays : Nat} (h : 0 < tradingDays)
    (values : List ℝ) :
    let maths := realMaths infinity
    let s := run maths riskFreeRate tradingDays initialCash values
    let returns := calculateReturns (initialCash :: values)
    s.sharperatio * calculateVolatilityPercent maths returns tradingDays =
      if returns.length < 2 ∨ standardDeviation maths returns < 1e-10 then 0
      else (mean returns - ((1 + riskFreeRate) ^ (1 / (tradingDays : ℝ)) - 1)) * tradingDays * 100 := by
  intro maths s returns
  have hreturns : (values.foldl (observe initialCash) (start riskFreeRate tradingDays)).returns = returns :=
    foldl_observe initialCash values (start riskFreeRate tradingDays)
  obtain ⟨hrate, hdays⟩ := foldl_observe_config initialCash values (start riskFreeRate tradingDays)
  have hfactor : (values.foldl (observe initialCash) (start riskFreeRate tradingDays)).factor = tradingDays := by
    unfold factor
    rw [hdays]
    show (if (tradingDays : Int) < 0 then _ else Arith.ofCount (tradingDays : Int).natAbs) = _
    rw [if_neg (Int.natCast_nonneg tradingDays).not_gt, Int.natAbs_natCast, ofCount_real]
  have hstop := stop_real infinity (values.foldl (observe initialCash) (start riskFreeRate tradingDays))
  rw [hreturns] at hstop
  show (stop maths _).sharperatio * _ = _
  rw [hstop]
  split_ifs with hdegenerate
  · exact zero_mul _
  · rw [not_or, not_lt, not_lt] at hdegenerate
    have hpos : 0 < standardDeviation maths returns := lt_of_lt_of_le (by norm_num) hdegenerate.2
    have hne : returns ≠ [] := fun hnil => by simp [hnil] at hdegenerate
    have hroot : Real.sqrt (tradingDays : ℝ) * Real.sqrt tradingDays = tradingDays := Real.mul_self_sqrt (Nat.cast_nonneg _)
    unfold calculateVolatilityPercent periodRf
    rw [if_neg (by simp [hne, h.ne']), hfactor, hrate, ofCount_real]
    show (mean returns - ((1 + riskFreeRate) ^ (1 / (tradingDays : ℝ)) - 1)) / standardDeviation maths returns *
      Real.sqrt tradingDays * (standardDeviation maths returns * Real.sqrt tradingDays * 100.0) = _
    generalize standardDeviation maths returns = d at hpos
    norm_num
    field_simp
    linear_combination (mean returns - ((1 + riskFreeRate) ^ (1 / (tradingDays : ℝ)) - 1)) * hroot

end SharpeRatio

/-! ### The two growth rates -/

namespace Returns

/-- The logarithms of the growth add up. -/
theorem sum_log_returns (first : ℝ) (rest : List ℝ) (h : ∀ v ∈ first :: rest, 0 < v) :
    ((calculateReturns (first :: rest)).map fun r => Real.log (1 + r)).sum =
      Real.log (rest.getLastD first) - Real.log first := by
  induction rest generalizing first with
  | nil => simp [calculateReturns]
  | cons value rest ih =>
    have hfirst := h first (List.mem_cons_self ..)
    have hvalue := h value (List.mem_cons_of_mem _ (List.mem_cons_self ..))
    have hstep : 1 + (value - first) / first = value / first := by
      field_simp
      ring
    rw [calculateReturns, if_pos hfirst, List.map_cons, List.sum_cons, hstep, Real.log_div hvalue.ne' hfirst.ne',
      ih value fun v hv => h v (List.mem_cons_of_mem _ hv), List.getLastD_cons]
    ring

/-- What `stop` makes of a run that started above zero. -/
theorem run_analysis (annualizationFactor : ℝ) {first : ℝ} (hfirst : 0 < first) (rest : List ℝ) :
    let last := rest.getLastD first
    let a := (run realLogMaths annualizationFactor (first :: rest)).analysis
    a.rtot = (if 0 < last then ((Real.log (last / first) : ℝ) : WithBot ℝ) else ⊥) ∧
      a.rnorm100 = if 0 < last then
        (((Real.exp (Real.log (last / first) / (rest.length + 1 : Nat) * annualizationFactor) - 1) * 100 : ℝ) : WithBot ℝ)
        else ⊥ := by
  intro last a
  have hlog : (if (first == 0) = true then (⊥ : WithBot ℝ)
      else if last / first < 0 then ⊥ else realLogMaths.log (last / first)) =
      if 0 < last then ((Real.log (last / first) : ℝ) : WithBot ℝ) else ⊥ := by
    rw [if_neg (by simpa using hfirst.ne')]
    rcases lt_trichotomy last 0 with hlast | hlast | hlast
    · rw [if_pos (div_neg_of_neg_of_pos hlast hfirst), if_neg hlast.not_gt]
    · rw [hlast]
      simp [realLogMaths]
    · have hratio := div_pos hlast hfirst
      rw [if_neg hratio.not_gt, if_pos hlast]
      exact if_neg hratio.ne'
  have hrun : a = (stop realLogMaths ((first :: rest).foldl observe (start annualizationFactor))).analysis := rfl
  rw [foldl_start] at hrun
  unfold stop at hrun
  rw [if_neg (by simp)] at hrun
  dsimp only at hrun
  rw [hrun]
  constructor
  · exact hlog
  · show (((if (first == 0) = true then (⊥ : WithBot ℝ) else _).map _).map _).map _ = _
    rw [hlog]
    split_ifs
    · rw [WithBot.map_coe, WithBot.map_coe, WithBot.map_coe, ofCount_real]
      show (((Real.exp _ - 1) * 100.0 : ℝ) : WithBot ℝ) = _
      norm_num
      rfl
    · rfl

/-- Growth at a power is growth of the logarithm. -/
theorem rnorm100_eq_cagr (infinity : ℝ) {first : ℝ} (hfirst : 0 < first) (rest tradePnls : List ℝ)
    (config : ExtendedMetricsConfig ℝ) (hdays : 0 < config.tradingDaysPerYear)
    (hcapital : config.initialCapital ≤ 0 ∨ config.initialCapital = first) :
    (run realLogMaths config.tradingDaysPerYear (first :: rest)).analysis.rnorm100 =
      if 0 < rest.getLastD first then ((compute (realMaths infinity) (first :: rest) tradePnls config).cagr : WithBot ℝ)
      else ⊥ := by
  obtain ⟨-, hrnorm⟩ := run_analysis config.tradingDaysPerYear hfirst rest
  rw [hrnorm]
  split_ifs with hlast
  · have hstart : (if 0 < config.initialCapital then config.initialCapital else first) = first := by
      rcases hcapital with hcapital | hcapital
      · exact if_neg hcapital.not_gt
      · rw [hcapital, ite_self]
    unfold compute
    dsimp only
    rw [hstart, List.getLast_eq_getLastD]
    unfold calculateCagrPercent
    have hdefined : ¬(first ≤ 0 ∨ rest.getLastD first ≤ 0 ∨ (first :: rest).length = 0 ∨
        config.tradingDaysPerYear = 0) := by
      rintro (h | h | h | h)
      · exact hfirst.not_ge h
      · exact hlast.not_ge h
      · exact Nat.succ_ne_zero _ h
      · exact hdays.ne' h
    rw [if_neg hdefined, ofCount_real, ofCount_real]
    show _ = ((((rest.getLastD first / first) ^ ((config.tradingDaysPerYear : ℝ) / (rest.length + 1 : Nat)) - 1) * 100.0 : ℝ) :
      WithBot ℝ)
    rw [Real.rpow_def_of_pos (div_pos hlast hfirst), div_mul_eq_mul_div, mul_div_assoc]
    norm_num
  · rfl

end Returns

/-- The ratio and the growth of a run, against the figures of its equity curve. The ratio also counts the first bar, as a
return on the initial cash. -/
theorem ratios_agree (infinity riskFreeRate initialCash : ℝ) {first : ℝ} (hfirst : 0 < first) (rest tradePnls : List ℝ)
    (config : ExtendedMetricsConfig ℝ) (hdays : 0 < config.tradingDaysPerYear)
    (hcapital : config.initialCapital ≤ 0 ∨ config.initialCapital = first) :
    let maths := realMaths infinity
    let values := first :: rest
    let returns := calculateReturns (initialCash :: values)
    let sharpe := SharpeRatio.run maths riskFreeRate config.tradingDaysPerYear initialCash values
    let growth := (Returns.run realLogMaths config.tradingDaysPerYear values).analysis
    sharpe.returns = returns ∧
      sharpe.sharperatio * (compute maths (initialCash :: values) tradePnls config).volatility =
        (if standardDeviation maths returns < 1e-10 then 0
          else (mean returns - ((1 + riskFreeRate) ^ (1 / (config.tradingDaysPerYear : ℝ)) - 1)) *
            config.tradingDaysPerYear * 100) ∧
      growth.rnorm100 =
        (if 0 < rest.getLastD first then ((compute maths values tradePnls config).cagr : WithBot ℝ) else ⊥) ∧
      ((∀ v ∈ values, 0 < v) →
        growth.rtot = (((calculateReturns values).map fun r => Real.log (1 + r)).sum : ℝ)) := by
  intro maths values returns sharpe growth
  refine ⟨SharpeRatio.run_returns _ _ _ _ _, ?_,
    Returns.rnorm100_eq_cagr infinity hfirst rest tradePnls config hdays hcapital, ?_⟩
  · refine (SharpeRatio.sharperatio_mul_volatility infinity riskFreeRate initialCash hdays values).trans ?_
    have hshort : returns.length < 2 → standardDeviation maths returns < 1e-10 := by
      intro hlen
      unfold standardDeviation
      rw [if_pos hlen]
      norm_num
    exact if_congr ⟨fun h => h.elim hshort id, .inr⟩ rfl rfl
  · intro hpos
    have hlast := hpos _ (List.getLast_mem (List.cons_ne_nil first rest))
    rw [List.getLast_eq_getLastD] at hlast
    obtain ⟨hrtot, -⟩ := Returns.run_analysis config.tradingDaysPerYear hfirst rest
    rw [if_pos hlast, Real.log_div hlast.ne' hfirst.ne'] at hrtot
    rw [Returns.sum_log_returns first rest hpos]
    exact hrtot

/-- Two bars, flat and up by a tenth. -/
theorem ratios_agree_up :
    (SharpeRatio.run (realMaths 0) 0 252 100 [100, 110]).returns = [0, 1 / 10] ∧
      (Returns.run realLogMaths 252 [100, 110]).analysis.rtot = (Real.log (11 / 10) : ℝ) := by
  have hagree := @ratios_agree 0 0 100 100 (by norm_num) [110] [] .default (by decide) (.inl le_rfl)
  obtain ⟨hreturns, -, -, hlog⟩ := hagree
  refine ⟨hreturns.trans ?_, (hlog ?_).trans ?_⟩
  · norm_num [calculateReturns]
  · simp
  · norm_num [calculateReturns]

end StratForge
