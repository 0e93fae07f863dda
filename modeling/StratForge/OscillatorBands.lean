import StratForge.Strength

/-!
# The bands of the oscillators

In exact arithmetic, over sources of numbers and over bars with `low <= close <= high`: what is put out and is no NaN is
in the band of the oscillator.
-/

namespace StratForge
namespace Indicators
open OrNan (Band)

variable {bars : List (Row ℚ)} {bar : Row ℚ} {q : Quotes OrNan} {high low close : Line OrNan} {dfast dslow period : Nat} {v : OrNan}

/-- The close is among the extremes of its own bar, so of any window that ends with it. -/
theorem rawK_band (hq : q.Of (bars ++ [bar])) (hcloses : bar.Closes) (hv : rawK q.high q.low q.close period = some v) :
    Band 0 100 v := by
  unfold rawK at hv
  simp only [hq.close.idx, hq.high.current, hq.low.current, hq.close.current, Option.bind_eq_bind, Option.bind_some,
    Option.bind_eq_some_iff] at hv
  obtain ⟨highs, -, lows, -, hv⟩ := hv
  obtain ⟨highest, hhighest, hhigh⟩ := foldl_max_num highs bar.high
  obtain ⟨lowest, hlowest, hlow⟩ := foldl_min_num lows bar.low
  rw [hhighest, hlowest] at hv
  obtain rfl := Option.some.inj hv
  simp only [OrNan.num_sub, OrNan.zero_eq, OrNan.num_beq, decide_eq_true_eq]
  by_cases hne : highest - lowest = 0
  · rw [if_pos hne, OrNan.band_num]
    norm_num
  · obtain ⟨h0, h1⟩ := place_band (hcloses.high.trans hhigh) (hlow.trans hcloses.low) hne
    rw [if_neg hne, OrNan.num_div hne, OrNan.ofScientific_eq, OrNan.num_mul, OrNan.band_num]
    norm_num
    exact ⟨h0, h1⟩

namespace Stochastic
variable {s s' : Stochastic OrNan}

/-- What the lines hold is in the band. -/
structure InBand (s : Stochastic OrNan) : Prop where
  rawK : ∀ x ∈ s.rawK, Band 0 100 x
  fastD : ∀ x ∈ s.fastD, Band 0 100 x
  line : ∀ x ∈ s.line, Band 0 100 x
  percD : ∀ x ∈ s.percD, Band 0 100 x

theorem nextPercD_inBand (hs : s.nextPercD = some s') (hpos : 0 < s.periodDslow) (h : s.InBand) : s'.InBand := by
  unfold Stochastic.nextPercD at hs
  split_ifs at hs with hlt
  · obtain rfl := Option.some.inj hs
    exact { h with percD := OrNan.band_snoc h.percD OrNan.band_nan }
  · rw [Option.bind_eq_bind, Option.bind_eq_some_iff] at hs
    obtain ⟨d, hd, hs⟩ := hs
    obtain rfl := Option.some.inj hs
    exact { h with percD := OrNan.band_snoc h.percD (averageTail_band h.fastD hpos hd) }

theorem InBand.next (h : s.InBand) (hf : 0 < s.periodDfast) (hd : 0 < s.periodDslow)
    (hk : ∀ v, Indicators.rawK high low close s.period = some v → Band 0 100 v) (hs : s.next high low close = some s') : s'.InBand := by
  unfold Stochastic.next at hs
  split_ifs at hs with hearly
  · obtain rfl := Option.some.inj hs
    exact ⟨OrNan.band_snoc h.rawK OrNan.band_nan, OrNan.band_snoc h.fastD OrNan.band_nan, OrNan.band_snoc h.line OrNan.band_nan,
      OrNan.band_snoc h.percD OrNan.band_nan⟩
  · rw [Option.bind_eq_bind, Option.bind_eq_some_iff] at hs
    obtain ⟨v, hv, hs⟩ := hs
    have hrawK := OrNan.band_snoc h.rawK (hk v hv)
    dsimp only at hs
    split_ifs at hs with hfew
    · obtain rfl := Option.some.inj hs
      exact ⟨hrawK, OrNan.band_snoc h.fastD OrNan.band_nan, OrNan.band_snoc h.line OrNan.band_nan,
        OrNan.band_snoc h.percD OrNan.band_nan⟩
    · rw [Option.bind_eq_some_iff] at hs
      obtain ⟨d, hfast, hs⟩ := hs
      have hband := averageTail_band hrawK hf hfast
      exact nextPercD_inBand hs hd ⟨hrawK, OrNan.band_snoc h.fastD hband, OrNan.band_snoc h.line hband, h.percD⟩

/-- Ready when it is said, and in the band. -/
theorem banded (hp : 0 < period) (hf : 0 < dfast) (hd : 0 < dslow) (hbars : ∀ b ∈ bars, b.Closes) :
    ∃ q s, driven (fun q s => Stochastic.next q.high q.low q.close s) { period, periodDfast := dfast, periodDslow := dslow } bars =
      some (q, s) ∧ s.InBand := by
  have hbetween : Between period dfast dslow 0 0 { period, periodDfast := dfast, periodDslow := dslow } :=
    ⟨rfl, rfl, rfl, .nil, .nil, .nil, .nil⟩
  have hband : InBand { period, periodDfast := dfast, periodDslow := dslow } := ⟨nofun, nofun, nofun, nofun⟩
  obtain ⟨q, s, hrun, -, hband⟩ := driven_ind (fun bars s => Between period dfast dslow bars.length bars.length s ∧ s.InBand)
    ⟨hbetween, hband⟩ (fun bars bar q s (hok : ∀ b ∈ bars ++ [bar], b.Closes) hq ⟨hbetween, hband⟩ => by
      obtain ⟨s', hs', hbetween'⟩ := hbetween.next hp hf hd hq.numericsLast
      rw [List.length_append, List.length_singleton]
      exact ⟨s', hs', hbetween', hband.next (hbetween.dfastEq ▸ hf) (hbetween.dslowEq ▸ hd)
        (fun v => rawK_band hq (hok bar (by simp))) hs'⟩) hbars
  exact ⟨q, s, hrun, hband⟩

end Stochastic

namespace StochasticFull
variable {s s' : StochasticFull OrNan}

structure InBand (s : StochasticFull OrNan) : Prop where
  line : ∀ x ∈ s.line, Band 0 100 x
  percD : ∀ x ∈ s.percD, Band 0 100 x
  percDslow : ∀ x ∈ s.percDslow, Band 0 100 x

theorem nextSlow_inBand (hs : s.nextSlow = some s') (hpos : 0 < s.periodDslow) (h : s.InBand) : s'.InBand := by
  unfold StochasticFull.nextSlow at hs
  split_ifs at hs with hlt
  · obtain rfl := Option.some.inj hs
    exact { h with percDslow := OrNan.band_snoc h.percDslow OrNan.band_nan }
  · rw [Option.bind_eq_bind, Option.bind_eq_some_iff] at hs
    obtain ⟨d, hd, hs⟩ := hs
    obtain rfl := Option.some.inj hs
    exact { h with percDslow := OrNan.band_snoc h.percDslow (averageTail_band h.percD hpos hd) }

theorem InBand.next (h : s.InBand) (hf : 0 < s.periodDfast) (hd : 0 < s.periodDslow)
    (hk : ∀ v, Indicators.rawK high low close s.period = some v → Band 0 100 v) (hs : s.next high low close = some s') : s'.InBand := by
  unfold StochasticFull.next at hs
  split_ifs at hs with hearly
  · obtain rfl := Option.some.inj hs
    exact ⟨OrNan.band_snoc h.line OrNan.band_nan, OrNan.band_snoc h.percD OrNan.band_nan, OrNan.band_snoc h.percDslow OrNan.band_nan⟩
  · rw [Option.bind_eq_bind, Option.bind_eq_some_iff] at hs
    obtain ⟨v, hv, hs⟩ := hs
    have hline := OrNan.band_snoc h.line (hk v hv)
    dsimp only at hs
    split_ifs at hs with hfew
    · obtain rfl := Option.some.inj hs
      exact ⟨hline, OrNan.band_snoc h.percD OrNan.band_nan, OrNan.band_snoc h.percDslow OrNan.band_nan⟩
    · rw [Option.bind_eq_some_iff] at hs
      obtain ⟨d, hfast, hs⟩ := hs
      exact nextSlow_inBand hs hd ⟨hline, OrNan.band_snoc h.percD (averageTail_band hline hf hfast), h.percDslow⟩

theorem banded (hp : 0 < period) (hf : 0 < dfast) (hd : 0 < dslow) (hbars : ∀ b ∈ bars, b.Closes) :
    ∃ q s, driven (fun q s => StochasticFull.next q.high q.low q.close s) { period, periodDfast := dfast, periodDslow := dslow } bars =
      some (q, s) ∧ s.InBand := by
  have hbetween : Between period dfast dslow 0 0 { period, periodDfast := dfast, periodDslow := dslow } :=
    ⟨rfl, rfl, rfl, .nil, .nil, .nil⟩
  have hband : InBand { period, periodDfast := dfast, periodDslow := dslow } := ⟨nofun, nofun, nofun⟩
  obtain ⟨q, s, hrun, -, hband⟩ := driven_ind (fun bars s => Between period dfast dslow bars.length bars.length s ∧ s.InBand)
    ⟨hbetween, hband⟩ (fun bars bar q s (hok : ∀ b ∈ bars ++ [bar], b.Closes) hq ⟨hbetween, hband⟩ => by
      obtain ⟨s', hs', hbetween'⟩ := hbetween.next hp hf hd hq.numericsLast
      rw [List.length_append, List.length_singleton]
      exact ⟨s', hs', hbetween', hband.next (hbetween.dfastEq ▸ hf) (hbetween.dslowEq ▸ hd)
        (fun v => rawK_band hq (hok bar (by simp))) hs'⟩) hbars
  exact ⟨q, s, hrun, hband⟩

end StochasticFull

theorem RSI.banded {lookback : Nat} {movav : RsiMovAv} {safediv : Bool} {hi lo : ℚ} (hp : 0 < period) (hl : 0 < lookback)
    (hhi : 0 ≤ hi ∧ hi ≤ 100) (hlo : 0 ≤ lo ∧ lo ≤ 100) (qs : List ℚ) :
    ∃ l r, overSource RSI.next (init period movav safediv (.num hi) (.num lo) lookback) (qs.map .num) = some (l, r) ∧
      ∀ x ∈ r.line, Band 0 100 x := by
  obtain ⟨l, r, hrun, hafter⟩ := overSource_nums (fun qs r => RSI.After False qs r) (init_after hp hl hhi hlo)
    (fun qs q l r hs h => by
      obtain ⟨r', hr', hafter, -⟩ := h.next hs nofun
      exact ⟨r', hr', hafter⟩) qs
  exact ⟨l, r, hrun, hafter.band⟩

theorem StochRSI.banded {stochPeriod periodD : Nat} (hp : 0 < period) (hs : 0 < stochPeriod) (hd : 0 < periodD) (qs : List ℚ) :
    ∃ l s, overSource StochRSI.next (init period stochPeriod periodD) (qs.map .num) = some (l, s) ∧
      (∀ x ∈ s.line, Band 0 100 x) ∧ ∀ x ∈ s.percD, Band 0 100 x := by
  obtain ⟨l, s, hrun, hafter⟩ := overSource_nums (fun qs s => StochRSI.After False qs s) (init_after hp hs hd)
    (fun qs q l s hs h => by
      obtain ⟨s', hs', hafter, -⟩ := h.next hs nofun
      exact ⟨s', hs', hafter⟩) qs
  exact ⟨l, s, hrun, hafter.band, hafter.bandD⟩

theorem TrueStrengthIndicator.banded {period1 period2 pchange : Nat} (h1 : 0 < period1) (h2 : 0 < period2) (hc : 0 < pchange)
    (qs : List ℚ) :
    ∃ l t, overSource TrueStrengthIndicator.next (init period1 period2 pchange) (qs.map .num) = some (l, t) ∧
      ∀ x ∈ t.line, Band (-100) 100 x := by
  obtain ⟨l, t, hrun, hafter⟩ := overSource_nums (fun qs t => TrueStrengthIndicator.After False qs t) (init_after h1 h2 hc)
    (fun qs q l t hs h => by
      obtain ⟨t', ht', hafter, -⟩ := h.next hs nofun
      exact ⟨t', ht', hafter⟩) qs
  exact ⟨l, t, hrun, hafter.band⟩

theorem MoneyFlowIndex.banded (hp : 0 < period) (hbars : ∀ b ∈ bars, 0 ≤ b.high + b.low + b.close ∧ 0 ≤ b.volume) :
    ∃ q m, driven (fun q m => MoneyFlowIndex.next q.high q.low q.close q.volume m) (init period) bars = some (q, m) ∧
      ∀ x ∈ m.line, Band 0 100 x := by
  obtain ⟨q, m, hrun, hafter⟩ := driven_ind MoneyFlowIndex.After (init_after hp) (fun bars bar q m hok hq h => h.next hok hq) hbars
  exact ⟨q, m, hrun, hafter.band⟩

/-- Of all parameters of at least one. Those of one source are given any series of numbers, the others bars of positive
prices and of a volume that is not negative. -/
theorem oscillator_bands {a b c : Nat} (ha : 0 < a) (hb : 0 < b) (hc : 0 < c) (qs : List ℚ) {bars : List (Row ℚ)}
    (hbars : ∀ bar ∈ bars, bar.Closes ∧ 0 < bar.low ∧ 0 ≤ bar.volume) :
    (∀ movav safediv (safehigh safelow : ℚ), 0 ≤ safehigh ∧ safehigh ≤ 100 → 0 ≤ safelow ∧ safelow ≤ 100 →
      ∃ l r, overSource RSI.next (.init a movav safediv (.num safehigh) (.num safelow) b) (qs.map .num) = some (l, r) ∧
        ∀ x ∈ r.line, Band 0 100 x) ∧
    (∃ q s, driven (fun q s => Stochastic.next q.high q.low q.close s) { period := a, periodDfast := b, periodDslow := c } bars =
      some (q, s) ∧ (∀ x ∈ s.line, Band 0 100 x) ∧ ∀ x ∈ s.percD, Band 0 100 x) ∧
    (∃ q s, driven (fun q s => StochasticFull.next q.high q.low q.close s) { period := a, periodDfast := b, periodDslow := c } bars =
      some (q, s) ∧ (∀ x ∈ s.line, Band 0 100 x) ∧ (∀ x ∈ s.percD, Band 0 100 x) ∧ ∀ x ∈ s.percDslow, Band 0 100 x) ∧
    (∃ l s, overSource StochRSI.next (.init a b c) (qs.map .num) = some (l, s) ∧
      (∀ x ∈ s.line, Band 0 100 x) ∧ ∀ x ∈ s.percD, Band 0 100 x) ∧
    (∃ q m, driven (fun q m => MoneyFlowIndex.next q.high q.low q.close q.volume m) (.init a) bars = some (q, m) ∧
      ∀ x ∈ m.line, Band 0 100 x) ∧
    ∃ l t, overSource TrueStrengthIndicator.next (.init a b c) (qs.map .num) = some (l, t) ∧ ∀ x ∈ t.line, Band (-100) 100 x := by
  have hcloses : ∀ bar ∈ bars, bar.Closes := fun bar hbar => (hbars bar hbar).1
  have hmoney : ∀ bar ∈ bars, 0 ≤ bar.high + bar.low + bar.close ∧ 0 ≤ bar.volume := by
    intro bar hbar
    obtain ⟨⟨hlow, hhigh⟩, hpos, hvolume⟩ := hbars bar hbar
    exact ⟨by linarith, hvolume⟩
  refine ⟨fun movav safediv hi lo hhi hlo => RSI.banded ha hb hhi hlo qs, ?_, ?_, StochRSI.banded ha hb hc qs,
    MoneyFlowIndex.banded ha hmoney, TrueStrengthIndicator.banded ha hb hc qs⟩
  · obtain ⟨q, s, hrun, hband⟩ := Stochastic.banded ha hb hc hcloses
    exact ⟨q, s, hrun, hband.line, hband.percD⟩
  · obtain ⟨q, s, hrun, hband⟩ := StochasticFull.banded ha hb hc hcloses
    exact ⟨q, s, hrun, hband.line, hband.percD, hband.percDslow⟩

theorem oscillator_bands_flat :
    (∃ l r, overSource RSI.next (.init 1 .Exponential true (.num 100) (.num 50) 1) ([1, 2].map OrNan.num) = some (l, r) ∧
      ∀ x ∈ r.line, Band 0 100 x) ∧
    ∃ q m, driven (fun q m => MoneyFlowIndex.next q.high q.low q.close q.volume m) (.init 1) [flatBar] = some (q, m) ∧
      ∀ x ∈ m.line, Band 0 100 x := by
  have hflat : ∀ bar ∈ [flatBar], bar.Closes ∧ 0 < bar.low ∧ 0 ≤ bar.volume := by simp [flatBar, Row.closes_iff]
  obtain ⟨hrsi, -, -, -, hmfi, -⟩ := oscillator_bands Nat.one_pos Nat.one_pos Nat.one_pos [1, 2] hflat
  exact ⟨hrsi .Exponential true 100 50 (by norm_num) (by norm_num), hmfi⟩

end Indicators
end StratForge
