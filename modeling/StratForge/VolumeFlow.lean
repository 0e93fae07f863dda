import StratForge.Quotes
import StratForge.PopFeatures
import StratForge.LookBack
import Mathlib.Algebra.BigOperators.Ring.List
import Mathlib.Tactic.Linarith

/-!
# Where the volume went

`AccumulationDistribution`, `ChaikinMoneyFlow` and `VolumeWeightedAveragePrice` weigh the volume of a bar with where it
closed, or its price with the volume. After a series of bars each is a quotient of totals (`total`), which split at any bar.
-/

namespace StratForge
namespace Indicators
open OrNan (IsNum)
open Floating (nan)

section
variable {α : Type} [Arith α] [Floating α]

/-- 1 on a close at the high, -1 on one at the low. -/
def moneyFlowMultiplier (high low close : α) : α :=
  let range := high - low
  if range == 0.0 then 0.0 else (close - low - (high - close)) / range

/-- The money flow of a bar, and its volume. -/
def Quotes.flowAt (q : Quotes α) (pos : Nat) : Option (α × α) := do
  let high ← q.high.data[pos]?
  let low ← q.low.data[pos]?
  let close ← q.close.data[pos]?
  let volume ← q.volume.data[pos]?
  return (moneyFlowMultiplier high low close * volume, volume)

structure AccumulationDistribution (α : Type) where
  line : List α := []

def AccumulationDistribution.next (q : Quotes α) (a : AccumulationDistribution α) : Option (AccumulationDistribution α) := do
  let idx := q.close.idx
  let mfv := (← q.flowAt idx).1
  if idx = 0 then return { line := a.line ++ [mfv] }
  return { line := a.line ++ [(← a.line[idx - 1]?) + mfv] }

structure VolumeWeightedAveragePrice (α : Type) where
  cumulativePriceVolume : α
  cumulativeVolume : α
  line : List α := []

namespace VolumeWeightedAveragePrice

def init : VolumeWeightedAveragePrice α := { cumulativePriceVolume := 0.0, cumulativeVolume := 0.0 }

def next (q : Quotes α) (v : VolumeWeightedAveragePrice α) : Option (VolumeWeightedAveragePrice α) := do
  let idx := q.close.idx
  let typicalPrice := ((← q.high.data[idx]?) + (← q.low.data[idx]?) + (← q.close.data[idx]?)) / 3.0
  let volume ← q.volume.data[idx]?
  let cumulativePriceVolume := v.cumulativePriceVolume + typicalPrice * volume
  let cumulativeVolume := v.cumulativeVolume + volume
  let value := if cumulativeVolume == 0.0 then nan else cumulativePriceVolume / cumulativeVolume
  return { cumulativePriceVolume, cumulativeVolume, line := v.line ++ [value] }

end VolumeWeightedAveragePrice

structure ChaikinMoneyFlow (α : Type) where
  period : Nat
  line : List α := []

namespace ChaikinMoneyFlow

def init (period : Nat) : ChaikinMoneyFlow α := { period := if period = 0 then 1 else period }

def next (q : Quotes α) (c : ChaikinMoneyFlow α) : Option (ChaikinMoneyFlow α) :=
  let idx := q.close.idx
  if idx + 1 < c.period then some { c with line := c.line ++ [nan] }
  else do
    let flows ← (List.range c.period).mapM fun i => q.flowAt (idx - i)
    let flowSum := Simd.reduceSum (flows.map (·.1))
    let volumeSum := Simd.reduceSum (flows.map (·.2))
    return { c with line := c.line ++ [if volumeSum == 0.0 then 0.0 else flowSum / volumeSum] }

end ChaikinMoneyFlow

end

/-! ### Totals -/

variable {bars : List (Row ℚ)} {bar : Row ℚ} {q : Quotes OrNan} {g w : Row ℚ → ℚ}

/-- The sum over the bars. -/
def total (g : Row ℚ → ℚ) (bars : List (Row ℚ)) : ℚ := (bars.map g).sum

@[simp] theorem total_nil (g : Row ℚ → ℚ) : total g [] = 0 := rfl

@[simp] theorem total_append (g : Row ℚ → ℚ) (xs ys : List (Row ℚ)) : total g (xs ++ ys) = total g xs + total g ys := by
  simp [total]

@[simp] theorem total_singleton (g : Row ℚ → ℚ) (bar : Row ℚ) : total g [bar] = g bar := by simp [total]

theorem total_split (g : Row ℚ → ℚ) (n : Nat) (bars : List (Row ℚ)) :
    total g (bars.drop n) = total g bars - total g (bars.take n) := by
  conv_rhs => rw [← List.take_append_drop n bars, total_append]
  simp

theorem total_le (h : ∀ bar ∈ bars, g bar ≤ w bar) : total g bars ≤ total w bars := List.sum_le_sum h

theorem abs_total_le (h : ∀ bar ∈ bars, |g bar| ≤ w bar) : |total g bars| ≤ total w bars := by
  rw [abs_le]
  constructor
  · have hneg : total (fun bar => -w bar) bars ≤ total g bars := total_le fun bar hbar => (abs_le.1 (h bar hbar)).1
    have hsum : total (fun bar => -w bar) bars = -total w bars := by
      clear h hneg
      induction bars with
      | nil => simp
      | cons bar bars ih =>
        simp only [total, List.map_cons, List.sum_cons] at ih ⊢
        rw [ih]
        ring
    rwa [hsum] at hneg
  · exact total_le fun bar hbar => (abs_le.1 (h bar hbar)).2

theorem total_nonneg (h : ∀ bar ∈ bars, 0 ≤ g bar) : 0 ≤ total g bars := by
  refine List.sum_nonneg fun x hx => ?_
  obtain ⟨bar, hbar, rfl⟩ := List.mem_map.1 hx
  exact h bar hbar

theorem total_eq_zero (h : ∀ bar ∈ bars, 0 ≤ g bar) : total g bars = 0 ↔ ∀ bar ∈ bars, g bar = 0 := by
  induction bars with
  | nil => simp
  | cons bar bars ih =>
    have hbar := h bar (List.mem_cons_self ..)
    have hrest := fun b hb => h b (List.mem_cons_of_mem _ hb)
    have hsum : total g (bar :: bars) = g bar + total g bars := by simp [total]
    rw [hsum, add_eq_zero_iff_of_nonneg hbar (total_nonneg hrest), ih hrest, List.forall_mem_cons]

/-- The last bars, the newest first. -/
theorem sum_newest (g : Row ℚ → ℚ) {p : Nat} (hp : p ≤ bars.length) :
    ∑ i ∈ Finset.range p, (bars[bars.length - 1 - i]?).elim 0 g = total g (bars.drop (bars.length - p)) := by
  induction p with
  | zero => simp
  | succ p ih =>
    have hplace : bars.length - 1 - p = bars.length - (p + 1) := by omega
    have hlt : bars.length - (p + 1) < bars.length := by omega
    rw [Finset.sum_range_succ, ih (by omega), List.drop_eq_getElem_cons hlt, hplace, List.getElem?_eq_getElem hlt,
      show bars.length - (p + 1) + 1 = bars.length - p by omega]
    simp [total, add_comm]

/-! ### Flows -/

/-- The money flow of a bar. -/
def moneyFlow (bar : Row ℚ) : ℚ := moneyFlowMultiplier bar.high bar.low bar.close * bar.volume

def priceVolume (bar : Row ℚ) : ℚ := (bar.high + bar.low + bar.close) / 3 * bar.volume

theorem zero_lit : (0.0 : ℚ) = 0 := by norm_num

theorem moneyFlowMultiplier_eq (high low close : ℚ) : moneyFlowMultiplier high low close =
    if high - low = 0 then 0 else (close - low - (high - close)) / (high - low) := by
  simp only [moneyFlowMultiplier, zero_lit, beq_iff_eq]

theorem moneyFlowMultiplier_num (high low close : ℚ) :
    moneyFlowMultiplier (OrNan.num high) (.num low) (.num close) = .num (moneyFlowMultiplier high low close) := by
  rw [moneyFlowMultiplier_eq]
  simp only [moneyFlowMultiplier, OrNan.num_sub, OrNan.ofScientific_eq, zero_lit, OrNan.num_beq, decide_eq_true_eq]
  split_ifs with h
  · rfl
  · rw [OrNan.num_div h]

/-- A bar that closes within its range. -/
theorem abs_moneyFlow_le (h : bar.Closes) (hvolume : 0 ≤ bar.volume) : |moneyFlow bar| ≤ bar.volume := by
  have hmultiplier : |moneyFlowMultiplier bar.high bar.low bar.close| ≤ 1 := by
    obtain ⟨hlow, hhigh⟩ := h
    rw [moneyFlowMultiplier_eq]
    split_ifs with hrange
    · simp
    · have hpos : 0 < bar.high - bar.low := lt_of_le_of_ne (by linarith) (Ne.symm hrange)
      rw [abs_div, abs_of_pos hpos, div_le_one hpos, abs_le]
      constructor
      · linarith
      · linarith
  rw [moneyFlow, abs_mul, abs_of_nonneg hvolume]
  exact mul_le_of_le_one_left hvolume hmultiplier

theorem flowAt_eq (hq : q.Of bars) {i : Nat} (hi : i < bars.length) :
    q.flowAt i = some (.num (moneyFlow bars[i]), .num bars[i].volume) := by
  unfold Quotes.flowAt
  rw [hq.high.read hi, hq.low.read hi, hq.close.read hi, hq.volume.read hi]
  simp only [Option.bind_eq_bind, Option.bind_some, moneyFlowMultiplier_num, OrNan.num_mul]
  rfl

/-! ### After a series of bars -/

theorem AccumulationDistribution.driven_line (bars : List (Row ℚ)) :
    ∃ q a, driven AccumulationDistribution.next {} bars = some (q, a) ∧
      a.line = Driven.outputs (fun bars => OrNan.num (total moneyFlow bars)) bars := by
  refine driven_ind (fun bars (a : AccumulationDistribution OrNan) =>
    a.line = Driven.outputs (fun bars => OrNan.num (total moneyFlow bars)) bars) rfl (fun bars bar q a _ hq ha => ?_)
    (fun _ _ => trivial : ∀ b ∈ bars, True)
  have hflow := flowAt_eq hq (i := bars.length) (by simp)
  rw [List.getElem_concat_length rfl] at hflow
  unfold AccumulationDistribution.next
  rw [hq.close.idx]
  dsimp only
  rw [hflow]
  simp only [Option.bind_eq_bind, Option.bind_some]
  split_ifs with hfirst
  · obtain rfl := List.length_eq_zero_iff.1 hfirst
    exact ⟨_, rfl, Driven.outputs_snoc ha (by simp)⟩
  · have hprevious : a.line[bars.length - 1]? = some (.num (total moneyFlow bars)) := by
      rw [ha, Driven.getElem?_outputs (by omega), List.take_of_length_le (by omega)]
    rw [hprevious]
    exact ⟨_, rfl, Driven.outputs_snoc ha (by simp)⟩

/-- The average price of what has been traded. -/
def averagePrice (bars : List (Row ℚ)) : OrNan :=
  if total Row.volume bars = 0 then .nan else .num (total priceVolume bars / total Row.volume bars)

structure VolumeWeightedAveragePrice.After (bars : List (Row ℚ)) (v : VolumeWeightedAveragePrice OrNan) : Prop where
  priceVolume : v.cumulativePriceVolume = .num (total priceVolume bars)
  volume : v.cumulativeVolume = .num (total Row.volume bars)
  line : v.line = Driven.outputs averagePrice bars

theorem VolumeWeightedAveragePrice.driven_line (bars : List (Row ℚ)) :
    ∃ q v, driven VolumeWeightedAveragePrice.next .init bars = some (q, v) ∧ VolumeWeightedAveragePrice.After bars v := by
  have hthree : (3.0 : ℚ) = 3 := by norm_num
  refine driven_ind VolumeWeightedAveragePrice.After ⟨?_, ?_, rfl⟩ (fun bars bar q v _ hq hv => ?_)
    (fun _ _ => trivial : ∀ b ∈ bars, True)
  · rw [VolumeWeightedAveragePrice.init, OrNan.ofScientific_eq, zero_lit, total_nil]
  · rw [VolumeWeightedAveragePrice.init, OrNan.ofScientific_eq, zero_lit, total_nil]
  unfold VolumeWeightedAveragePrice.next
  rw [hq.close.idx]
  dsimp only
  rw [hq.high.current, hq.low.current, hq.close.current, hq.volume.current, hv.priceVolume, hv.volume]
  simp only [Option.bind_eq_bind, Option.bind_some, OrNan.num_add, OrNan.ofScientific_eq, hthree, zero_lit,
    OrNan.num_div three_ne_zero, OrNan.num_mul, OrNan.num_beq, decide_eq_true_eq]
  refine ⟨_, rfl, ⟨by simp [priceVolume], by simp, Driven.outputs_snoc hv.line ?_⟩⟩
  rw [averagePrice, total_append, total_append, total_singleton, total_singleton]
  split_ifs with hnone
  · rfl
  · rw [OrNan.num_div hnone]
    rfl

/-- The flow of the last bars for their volume. -/
def flowRatio (p : Nat) (bars : List (Row ℚ)) : OrNan :=
  if bars.length < p then .nan
  else .num (total moneyFlow (bars.drop (bars.length - p)) / total Row.volume (bars.drop (bars.length - p)))

theorem ChaikinMoneyFlow.driven_line {p : Nat} (hp : 0 < p) (bars : List (Row ℚ)) :
    ∃ q c, driven ChaikinMoneyFlow.next (.init p) bars = some (q, c) ∧ c.period = p ∧
      c.line = Driven.outputs (flowRatio p) bars := by
  refine driven_ind (fun bars (c : ChaikinMoneyFlow OrNan) => c.period = p ∧ c.line = Driven.outputs (flowRatio p) bars)
    ⟨if_neg hp.ne', rfl⟩ (fun bars bar q c _ hq hc => ?_) (fun _ _ => trivial : ∀ b ∈ bars, True)
  obtain ⟨rfl, hline⟩ := hc
  unfold ChaikinMoneyFlow.next
  rw [hq.close.idx]
  dsimp only
  split_ifs with hshort
  · refine ⟨_, rfl, rfl, Driven.outputs_snoc hline ?_⟩
    rw [flowRatio, if_pos (by simpa using hshort)]
    rfl
  · have hflows : ((List.range c.period).mapM fun i => q.flowAt (bars.length - i)) = some ((List.range c.period).map fun i =>
        (OrNan.num (((bars ++ [bar])[(bars ++ [bar]).length - 1 - i]?).elim 0 moneyFlow),
          OrNan.num (((bars ++ [bar])[(bars ++ [bar]).length - 1 - i]?).elim 0 Row.volume))) := by
      refine Access.mapM_eq_some fun i hi => ?_
      have hlt : bars.length - i < (bars ++ [bar]).length := by rw [List.length_append, List.length_singleton]; omega
      rw [flowAt_eq hq hlt, List.length_append, List.length_singleton, Nat.add_sub_cancel, List.getElem?_eq_getElem hlt]
      rfl
    have hlong : c.period ≤ (bars ++ [bar]).length := by rw [List.length_append, List.length_singleton]; omega
    rw [hflows]
    simp only [Option.bind_eq_bind, Option.bind_some, List.map_map, Function.comp_def, OrNan.reduceSum_range, sum_newest _ hlong]
    refine ⟨_, rfl, rfl, Driven.outputs_snoc hline ?_⟩
    simp only [OrNan.ofScientific_eq, zero_lit, OrNan.num_beq, decide_eq_true_eq]
    rw [flowRatio, if_neg (Nat.not_lt.2 hlong)]
    split_ifs with hnone
    · rw [hnone, div_zero]
    · rw [OrNan.num_div hnone]

/-! ### What they say -/

/-- Some bar has been traded. -/
theorem isNum_averagePrice (h : ∀ bar ∈ bars, 0 ≤ bar.volume) : IsNum (averagePrice bars) ↔ ∃ bar ∈ bars, 0 < bar.volume := by
  have hzero := total_eq_zero h
  unfold averagePrice
  split_ifs with hnone
  · refine iff_of_false OrNan.not_isNum_nan ?_
    rintro ⟨bar, hbar, hpos⟩
    exact hpos.ne' (hzero.1 hnone bar hbar)
  · refine iff_of_true (OrNan.isNum_num _) ?_
    by_contra hnever
    push Not at hnever
    exact hnone (hzero.2 fun bar hbar => le_antisymm (hnever bar hbar) (h bar hbar))

/-- The average price is no better than the best and no worse than the worst. -/
theorem averagePrice_between {lo hi x : ℚ} (hbars : ∀ bar ∈ bars, bar.Closes ∧ 0 ≤ bar.volume)
    (hrange : ∀ bar ∈ bars, lo ≤ bar.low ∧ bar.high ≤ hi) (hx : averagePrice bars = .num x) : lo ≤ x ∧ x ≤ hi := by
  have hscale : ∀ a : ℚ, total (fun bar => a * bar.volume) bars = a * total Row.volume bars := fun a => List.sum_map_mul_left ..
  have htypical : ∀ bar ∈ bars, lo * bar.volume ≤ priceVolume bar ∧ priceVolume bar ≤ hi * bar.volume := by
    intro bar hbar
    obtain ⟨⟨hlow, hhigh⟩, hvolume⟩ := hbars bar hbar
    obtain ⟨hlo, hhi⟩ := hrange bar hbar
    exact ⟨mul_le_mul_of_nonneg_right (by linarith) hvolume, mul_le_mul_of_nonneg_right (by linarith) hvolume⟩
  unfold averagePrice at hx
  split_ifs at hx with hnone
  obtain rfl := OrNan.num_injective hx
  have hpos : 0 < total Row.volume bars := lt_of_le_of_ne (total_nonneg fun bar hbar => (hbars bar hbar).2) (Ne.symm hnone)
  rw [le_div_iff₀ hpos, div_le_iff₀ hpos, ← hscale, ← hscale]
  exact ⟨total_le fun bar hbar => (htypical bar hbar).1, total_le fun bar hbar => (htypical bar hbar).2⟩

theorem abs_ratio_le (hbars : ∀ bar ∈ bars, bar.Closes ∧ 0 ≤ bar.volume) :
    |total moneyFlow bars / total Row.volume bars| ≤ 1 := by
  have hnonneg : 0 ≤ total Row.volume bars := total_nonneg fun bar hbar => (hbars bar hbar).2
  rw [abs_div, abs_of_nonneg hnonneg]
  exact div_le_one_of_le₀ (abs_total_le fun bar hbar => abs_moneyFlow_le (hbars bar hbar).1 (hbars bar hbar).2) hnonneg

end Indicators
open Indicators

/-- Over any bars that close within their range, the accumulation/distribution line moves by at most the volume of a bar.
Chaikin's money flow is what it has moved over the last `p` bars for their volume, ready on the `p`-th bar and between -1
and 1. The volume weighted price is a number from the first bar on that has traded, and stays within the prices so far. -/
theorem volume_flow (p : Nat) (hp : 0 < p) (bars : List (Row ℚ)) (hbars : ∀ bar ∈ bars, bar.Closes ∧ 0 ≤ bar.volume) :
    ∃ q q' q'' a c v, driven AccumulationDistribution.next {} bars = some (q, a) ∧
      driven ChaikinMoneyFlow.next (.init p) bars = some (q', c) ∧
      driven VolumeWeightedAveragePrice.next .init bars = some (q'', v) ∧
      a.line.length = bars.length ∧ c.line.length = bars.length ∧ v.line.length = bars.length ∧
      ∃ flow volume : Nat → ℚ, flow 0 = 0 ∧ volume 0 = 0 ∧ ∀ t bar, bars[t]? = some bar →
        volume (t + 1) = volume t + bar.volume ∧
        (a.line[t]? = some (.num (flow (t + 1))) ∧ |flow (t + 1) - flow t| ≤ bar.volume) ∧
        (t + 1 < p → c.line[t]? = some .nan) ∧
        (p ≤ t + 1 → ∃ x, c.line[t]? = some (.num x) ∧ |x| ≤ 1 ∧
          x = (flow (t + 1) - flow (t + 1 - p)) / (volume (t + 1) - volume (t + 1 - p))) ∧
        ∃ y, v.line[t]? = some y ∧ (OrNan.IsNum y ↔ ∃ b ∈ bars.take (t + 1), 0 < b.volume) ∧
          ∀ x lo hi, y = .num x → (∀ b ∈ bars.take (t + 1), lo ≤ b.low ∧ b.high ≤ hi) → lo ≤ x ∧ x ≤ hi := by
  obtain ⟨q, a, hdist, haline⟩ := AccumulationDistribution.driven_line bars
  obtain ⟨q', c, hflow, -, hcline⟩ := ChaikinMoneyFlow.driven_line hp bars
  obtain ⟨q'', v, hprice, hafter⟩ := VolumeWeightedAveragePrice.driven_line bars
  refine ⟨q, q', q'', a, c, v, hdist, hflow, hprice, by simp [haline], by simp [hcline], by simp [hafter.line],
    fun t => total moneyFlow (bars.take t), fun t => total Row.volume (bars.take t), by simp, by simp, fun t bar hbar => ?_⟩
  obtain ⟨ht, rfl⟩ := List.getElem?_eq_some_iff.1 hbar
  have hnext : bars.take (t + 1) = bars.take t ++ [bars[t]] := List.take_succ_eq_append_getElem ht
  have hsofar : ∀ b ∈ bars.take (t + 1), b.Closes ∧ 0 ≤ b.volume := fun b hb => hbars b (List.mem_of_mem_take hb)
  have hlength : (bars.take (t + 1)).length = t + 1 := by rw [List.length_take]; omega
  have hratio : c.line[t]? = some (flowRatio p (bars.take (t + 1))) := by rw [hcline, Driven.getElem?_outputs ht]
  dsimp only
  refine ⟨by rw [hnext, total_append, total_singleton], ⟨by rw [haline, Driven.getElem?_outputs ht], ?_⟩, fun hshort => ?_,
    fun hlong => ⟨_, ?_, ?_, rfl⟩, averagePrice (bars.take (t + 1)), by rw [hafter.line, Driven.getElem?_outputs ht], ?_, ?_⟩
  · rw [hnext, total_append, total_singleton, add_sub_cancel_left]
    exact abs_moneyFlow_le (hbars _ (List.getElem_mem ht)).1 (hbars _ (List.getElem_mem ht)).2
  · rw [hratio, flowRatio, if_pos (by omega)]
  · rw [hratio, flowRatio, if_neg (by omega), hlength, total_split, total_split, List.take_take, Nat.min_eq_left (by omega)]
  · have hwindow : ∀ b ∈ (bars.take (t + 1)).drop (t + 1 - p), b.Closes ∧ 0 ≤ b.volume := fun b hb =>
      hsofar b (List.mem_of_mem_drop hb)
    have hbound := abs_ratio_le hwindow
    rwa [total_split, total_split, List.take_take, Nat.min_eq_left (by omega)] at hbound
  · exact isNum_averagePrice fun b hb => (hsofar b hb).2
  · exact fun x lo hi hx hrange => averagePrice_between hsofar hrange hx

/-- A close at the low, then one at the high. -/
theorem volume_flow_turn : ∃ q c, driven ChaikinMoneyFlow.next (.init 2)
    [{ datetime := 0, «open» := 3, high := 4, low := 2, close := 2, volume := 5, openinterest := 0 },
      { datetime := 1, «open» := 2, high := 4, low := 2, close := 4, volume := 7, openinterest := 0 }] = some (q, c) ∧
    c.line.length = 2 ∧ c.line[0]? = some .nan ∧ ∃ x, c.line[1]? = some (.num x) ∧ |x| ≤ 1 := by
  obtain ⟨_, q', _, _, c, _, -, hflow, -, -, hlength, -, flow, volume, -, -, h⟩ := volume_flow 2 (by simp)
    [{ datetime := 0, «open» := 3, high := 4, low := 2, close := 2, volume := 5, openinterest := 0 },
      { datetime := 1, «open» := 2, high := 4, low := 2, close := 4, volume := 7, openinterest := 0 }]
    (by
      intro bar hbar
      simp only [List.mem_cons, List.not_mem_nil, or_false] at hbar
      rcases hbar with rfl | rfl
      · exact ⟨⟨by norm_num, by norm_num⟩, by norm_num⟩
      · exact ⟨⟨by norm_num, by norm_num⟩, by norm_num⟩)
  obtain ⟨-, -, hshort, -, -⟩ := h 0 _ rfl
  obtain ⟨-, -, -, hready, -⟩ := h 1 _ rfl
  obtain ⟨x, hx, hbound, -⟩ := hready le_rfl
  exact ⟨q', c, hflow, hlength, hshort (by simp), x, hx, hbound⟩

end StratForge
