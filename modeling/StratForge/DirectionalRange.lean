import StratForge.Quotes

/-!
# The range of the directional indicators (`indicators/directionalmovement.hpp`)

On every bar the movements are dominated by the true range. Seeds and averages are sums with weights that are not
negative, so they keep that (`Dominated`), and the indicators are quotients of it.
-/

namespace StratForge
namespace Indicators
open Floating (nan isNaN)
open OrNan (Band band_snoc)

namespace DirectionalMovement

/-! ### Movements under a range -/

/-- Neither movement is negative, and together they are within the range. -/
def Dominated (tr plusDm minusDm : OrNan) : Prop :=
  ∃ r p m : ℚ, tr = .num r ∧ plusDm = .num p ∧ minusDm = .num m ∧ 0 ≤ p ∧ 0 ≤ m ∧ p + m ≤ r

namespace Dominated
variable {tr plusDm minusDm tr' plusDm' minusDm' : OrNan} {n : Nat}

theorem zero : Dominated 0 0 0 := ⟨0, 0, 0, rfl, rfl, rfl, by simp⟩

theorem add (h : Dominated tr plusDm minusDm) (h' : Dominated tr' plusDm' minusDm') :
    Dominated (tr + tr') (plusDm + plusDm') (minusDm + minusDm') := by
  obtain ⟨r, p, m, rfl, rfl, rfl, hp, hm, hle⟩ := h
  obtain ⟨r', p', m', rfl, rfl, rfl, hp', hm', hle'⟩ := h'
  exact ⟨r + r', p + p', m + m', rfl, rfl, rfl, by linarith, by linarith, by linarith⟩

theorem scale {c : ℚ} (h : Dominated tr plusDm minusDm) (hc : 0 ≤ c) :
    Dominated (tr * .num c) (plusDm * .num c) (minusDm * .num c) := by
  obtain ⟨r, p, m, rfl, rfl, rfl, hp, hm, hle⟩ := h
  refine ⟨r * c, p * c, m * c, rfl, rfl, rfl, mul_nonneg hp hc, mul_nonneg hm hc, ?_⟩
  rw [← add_mul]
  exact mul_le_mul_of_nonneg_right hle hc

theorem average (h : Dominated tr plusDm minusDm) (hn : 0 < n) :
    Dominated (tr / Arith.ofCount n) (plusDm / Arith.ofCount n) (minusDm / Arith.ofCount n) := by
  obtain ⟨r, p, m, rfl, rfl, rfl, hp, hm, hle⟩ := h
  have hn : (0 : ℚ) < n := by exact_mod_cast hn
  simp only [OrNan.ofCount_eq, OrNan.num_div hn.ne']
  refine ⟨r / n, p / n, m / n, rfl, rfl, rfl, div_nonneg hp hn.le, div_nonneg hm hn.le, ?_⟩
  rw [← add_div]
  exact div_le_div_of_nonneg_right hle hn.le

/-- One step of the smoothing. -/
theorem smooth (h : Dominated tr plusDm minusDm) (h' : Dominated tr' plusDm' minusDm') (hn : 0 < n) :
    Dominated ((tr * (Arith.ofCount n - 1) + tr') / Arith.ofCount n)
      ((plusDm * (Arith.ofCount n - 1) + plusDm') / Arith.ofCount n)
      ((minusDm * (Arith.ofCount n - 1) + minusDm') / Arith.ofCount n) := by
  have hweight : (Arith.ofCount n - 1 : OrNan) = .num (n - 1) := by simp [OrNan.one_eq]
  have hnonneg : (0 : ℚ) ≤ n - 1 := by
    have hone : (1 : ℚ) ≤ n := by exact_mod_cast hn
    linarith
  rw [hweight]
  exact ((h.scale hnonneg).add h').average hn

end Dominated

/-- Of two bars in order, the one movement that counts is within the gap from the close before. -/
theorem moves_dominated {bars : List (Row ℚ)} {bar before : Row ℚ} {q : Quotes OrNan} {m : Moves OrNan} (hbar : bar.Closes)
    (hclosed : before.Closes) (hq : q.Of (bars ++ [bar])) (hbefore : bars.getLast? = some before)
    (hm : moves q.high q.low q.close = some m) : Dominated m.tr m.plusDm m.minusDm := by
  simp only [moves, hq.close.idx, hq.high.current, hq.low.current, hq.high.previous hbefore, hq.low.previous hbefore,
    hq.close.previous hbefore, Option.bind_eq_bind, Option.bind_some, Option.some.injEq, Option.pure_def] at hm
  subst hm
  have hup : bar.high - before.close ≤ |bar.high - before.close| := le_abs_self _
  have hdown : before.close - bar.low ≤ |bar.low - before.close| := by
    rw [abs_sub_comm]
    exact le_abs_self _
  have hspan : 0 ≤ bar.high - bar.low := sub_nonneg.2 (hbar.low.trans hbar.high)
  simp only [OrNan.num_sub, OrNan.abs_num, OrNan.max_num, OrNan.num_lt, OrNan.zero_eq]
  have hlow := hclosed.low
  have hhigh := hclosed.high
  refine ⟨_, if before.low - bar.low < bar.high - before.high ∧ 0 < bar.high - before.high then bar.high - before.high else 0,
    if bar.high - before.high < before.low - bar.low ∧ 0 < before.low - bar.low then before.low - bar.low else 0, rfl,
    (apply_ite OrNan.num _ _ _).symm, (apply_ite OrNan.num _ _ _).symm, ?_, ?_, ?_⟩
  · split_ifs with h
    · exact h.2.le
    · exact le_rfl
  · split_ifs with h
    · exact h.2.le
    · exact le_rfl
  · rw [le_max_iff, le_max_iff]
    split_ifs with h h' h'
    · exact absurd (h.1.trans h'.1) (lt_irrefl _)
    · exact Or.inl (Or.inr (by linarith))
    · exact Or.inr (by linarith)
    · exact Or.inl (Or.inl (by linarith))

/-! ### The indicators of dominated movements -/

/-- Each in its range, and the two together. -/
structure Paired (plusDi minusDi : OrNan) : Prop where
  plus : Band 0 100 plusDi
  minus : Band 0 100 minusDi
  sum : ∀ p m : ℚ, plusDi = .num p → minusDi = .num m → p + m ≤ 100

variable {d d' : DirectionalMovement OrNan} {m : Moves OrNan} {dx : OrNan}

/-- A number between 0 and 100. -/
def Percent (x : OrNan) : Prop := ∃ q : ℚ, x = .num q ∧ 0 ≤ q ∧ q ≤ 100

theorem Percent.band {x : OrNan} (h : Percent x) : Band 0 100 x := by
  obtain ⟨q, rfl, hq⟩ := h
  exact OrNan.band_num.2 hq

theorem Dominated.di {atr plusDm minusDm : OrNan} (h : Dominated atr plusDm minusDm) :
    ∃ p m : ℚ, di plusDm atr = .num p ∧ di minusDm atr = .num m ∧ 0 ≤ p ∧ 0 ≤ m ∧ p + m ≤ 100 := by
  obtain ⟨r, p, m, rfl, rfl, rfl, hp, hm, hle⟩ := h
  unfold DirectionalMovement.di
  by_cases hr : r = 0
  · exact ⟨0, 0, if_pos (by simp [hr, OrNan.zero_eq]), if_pos (by simp [hr, OrNan.zero_eq]), by norm_num⟩
  · have hrpos : 0 < r := lt_of_le_of_ne (by linarith) (Ne.symm hr)
    have hbeq : ¬ (OrNan.num r == 0) = true := by simp [OrNan.zero_eq, hr]
    simp only [if_neg hbeq, OrNan.num_div hr, OrNan.ofScientific_eq, OrNan.num_mul]
    refine ⟨_, _, rfl, rfl, mul_nonneg (by norm_num) (div_nonneg hp hrpos.le),
      mul_nonneg (by norm_num) (div_nonneg hm hrpos.le), ?_⟩
    rw [← mul_add, ← add_div]
    have hone : (p + m) / r ≤ 1 := (div_le_one hrpos).2 hle
    linarith

theorem dxOf_percent {p m : ℚ} (hp : 0 ≤ p) (hm : 0 ≤ m) : Percent (dxOf (.num p) (.num m)) := by
  unfold dxOf
  simp only [OrNan.num_add, OrNan.zero_eq, OrNan.num_beq, decide_eq_true_eq]
  split_ifs with hzero
  · exact ⟨0, rfl, by norm_num⟩
  · have hpos : 0 < p + m := lt_of_le_of_ne (by linarith) (Ne.symm hzero)
    have habs : |p - m| ≤ p + m := abs_le.2 ⟨by linarith, by linarith⟩
    have hone : |p - m| / (p + m) ≤ 1 := (div_le_one hpos).2 habs
    have hnonneg : 0 ≤ |p - m| / (p + m) := div_nonneg (abs_nonneg _) hpos.le
    simp only [OrNan.num_sub, OrNan.abs_num, OrNan.num_div hzero, OrNan.ofScientific_eq, OrNan.num_mul]
    exact ⟨_, rfl, by linarith, by linarith⟩

/-- The sums and averages are those of dominated movements and of percentages, and so are the outputs. -/
structure Bounds (d : DirectionalMovement OrNan) : Prop where
  sums : Dominated d.trSum d.plusDmSum d.minusDmSum
  smoothed : Dominated d.prevAtr d.prevPlusDm d.prevMinusDm
  dxSum : ∃ q : ℚ, d.dxSum = .num q ∧ 0 ≤ q ∧ q ≤ 100 * d.dxCount
  prevAdx : Percent d.prevAdx
  di : List.Forall₂ Paired d.plusDi d.minusDi
  dx : ∀ x ∈ d.dx, Band 0 100 x
  line : ∀ x ∈ d.line, Band 0 100 x
  adxr : ∀ x ∈ d.adxr, Band 0 100 x

namespace Bounds

theorem init (period : Nat) : (init period).Bounds where
  sums := .zero
  smoothed := .zero
  dxSum := ⟨0, rfl, le_rfl, by norm_num⟩
  prevAdx := ⟨0, rfl, by norm_num⟩
  di := .nil
  dx := nofun
  line := nofun
  adxr := nofun

theorem blank (h : d.Bounds) : d.blank.Bounds :=
  { h with
    di := List.rel_append h.di (.cons ⟨nofun, nofun, nofun⟩ .nil)
    dx := band_snoc h.dx OrNan.band_nan
    line := band_snoc h.line OrNan.band_nan
    adxr := band_snoc h.adxr OrNan.band_nan }

theorem indicate (h : d.Bounds) : d.indicate.2.Bounds ∧ Percent d.indicate.1 := by
  obtain ⟨p, m, hplus, hminus, hp, hm, hle⟩ := h.smoothed.di
  have hdx : Percent (dxOf (DirectionalMovement.di d.prevPlusDm d.prevAtr) (DirectionalMovement.di d.prevMinusDm d.prevAtr)) := by
    rw [hplus, hminus]
    exact dxOf_percent hp hm
  have hpaired : Paired (DirectionalMovement.di d.prevPlusDm d.prevAtr) (DirectionalMovement.di d.prevMinusDm d.prevAtr) := by
    rw [hplus, hminus]
    refine ⟨OrNan.band_num.2 ⟨hp, by linarith⟩, OrNan.band_num.2 ⟨hm, by linarith⟩, ?_⟩
    rintro p' m' ⟨⟩ ⟨⟩
    exact hle
  exact ⟨{ h with di := List.rel_append h.di (.cons hpaired .nil), dx := band_snoc h.dx hdx.band }, hdx⟩

theorem countDx (h : d.Bounds) (hdx : Percent dx) : (d.countDx dx).Bounds := by
  obtain ⟨s, hs, hnonneg, hle⟩ := h.dxSum
  obtain ⟨q, rfl, hq⟩ := hdx
  have hsum : ∃ r : ℚ, d.dxSum + .num q = .num r ∧ 0 ≤ r ∧ r ≤ 100 * ((d.dxCount + 1 : Nat) : ℚ) := by
    refine ⟨s + q, by rw [hs, OrNan.num_add], by linarith, ?_⟩
    push_cast
    linarith
  unfold DirectionalMovement.countDx
  dsimp only
  split_ifs with hfull
  · obtain ⟨r, hr, hr0, hr1⟩ := hsum
    have hpos : (0 : ℚ) < d.period := by
      have hpos : 0 < d.period := hfull ▸ Nat.succ_pos _
      exact_mod_cast hpos
    have havg : Percent ((d.dxSum + .num q) / Arith.ofCount d.period) := by
      rw [hr, OrNan.ofCount_eq, OrNan.num_div hpos.ne']
      refine ⟨_, rfl, div_nonneg hr0 hpos.le, (div_le_iff₀ hpos).2 ?_⟩
      rwa [← hfull]
    exact { h with
      dxSum := ⟨r, hr, hr0, hr1⟩
      prevAdx := havg
      line := band_snoc h.line havg.band
      adxr := band_snoc h.adxr OrNan.band_nan }
  · exact { h with
      dxSum := hsum
      line := band_snoc h.line OrNan.band_nan
      adxr := band_snoc h.adxr OrNan.band_nan }

theorem adxrOf {line : List OrNan} {prevAdx v : OrNan} {period : Nat} (h : ∀ x ∈ line, Band 0 100 x) (hprev : Percent prevAdx)
    (hv : adxrOf line period prevAdx = some v) : Band 0 100 v := by
  unfold DirectionalMovement.adxrOf at hv
  split_ifs at hv with hshort
  · obtain rfl := Option.some.inj hv
    exact OrNan.band_nan
  · simp only [Option.bind_eq_bind, Option.bind_eq_some_iff, Option.pure_def, Option.some.injEq] at hv
    obtain ⟨before, hbefore, rfl⟩ := hv
    obtain ⟨q, rfl, hq⟩ := hprev
    have hband := h before (List.mem_of_getElem? hbefore)
    cases before with
    | nan => simp
    | num b =>
      rw [OrNan.band_num] at hband
      simp only [OrNan.isNaN_num, Bool.false_eq_true, if_false, OrNan.num_add, OrNan.ofScientific_eq]
      rw [OrNan.num_div (by norm_num), OrNan.band_num]
      constructor
      · norm_num
        linarith
      · norm_num
        linarith

theorem advanceAdx (h : d.Bounds) (hperiod : 0 < d.period) (hdx : Percent dx) (hd' : d.advanceAdx dx = some d') : d'.Bounds := by
  have hpos : (0 : ℚ) < d.period := by exact_mod_cast hperiod
  have hone : (1 : ℚ) ≤ d.period := by exact_mod_cast hperiod
  obtain ⟨a, ha, ha0, ha1⟩ := h.prevAdx
  obtain ⟨q, rfl, hq⟩ := hdx
  have hprev : Percent ((d.prevAdx * (Arith.ofCount d.period - 1) + .num q) / Arith.ofCount d.period) := by
    rw [ha, OrNan.ofCount_eq, OrNan.one_eq, OrNan.num_sub, OrNan.num_mul, OrNan.num_add, OrNan.num_div hpos.ne']
    have hweight : 0 ≤ a * ((d.period : ℚ) - 1) := mul_nonneg ha0 (by linarith)
    have hless : a * ((d.period : ℚ) - 1) ≤ 100 * ((d.period : ℚ) - 1) := mul_le_mul_of_nonneg_right ha1 (by linarith)
    exact ⟨_, rfl, div_nonneg (by linarith) hpos.le, (div_le_iff₀ hpos).2 (by linarith)⟩
  have hline := band_snoc h.line hprev.band
  simp only [DirectionalMovement.advanceAdx, Option.bind_eq_bind, Option.bind_eq_some_iff, Option.pure_def,
    Option.some.injEq] at hd'
  obtain ⟨v, hv, rfl⟩ := hd'
  exact { h with prevAdx := hprev, line := hline, adxr := band_snoc h.adxr (adxrOf hline hprev hv) }

theorem seed (h : d.Bounds) (hperiod : 0 < d.period) (hm : Dominated m.tr m.plusDm m.minusDm) : (d.seed m).Bounds := by
  have hsums := h.sums.add hm
  unfold DirectionalMovement.seed
  dsimp only
  split_ifs with hfull
  · have hseeded : Bounds { d with
        trSum := d.trSum + m.tr, plusDmSum := d.plusDmSum + m.plusDm, minusDmSum := d.minusDmSum + m.minusDm
        seedCount := d.seedCount + 1, prevAtr := (d.trSum + m.tr) / Arith.ofCount d.period
        prevPlusDm := (d.plusDmSum + m.plusDm) / Arith.ofCount d.period
        prevMinusDm := (d.minusDmSum + m.minusDm) / Arith.ofCount d.period, atrInitialized := true } :=
      { h with sums := hsums, smoothed := hsums.average hperiod }
    obtain ⟨hbounds, hdx⟩ := hseeded.indicate
    exact hbounds.countDx hdx
  · have hsummed : Bounds { d with
        trSum := d.trSum + m.tr, plusDmSum := d.plusDmSum + m.plusDm, minusDmSum := d.minusDmSum + m.minusDm
        seedCount := d.seedCount + 1 } := { h with sums := hsums }
    exact hsummed.blank

theorem advance (h : d.Bounds) (hperiod : 0 < d.period) (hm : Dominated m.tr m.plusDm m.minusDm)
    (hd' : d.advance m = some d') : d'.Bounds := by
  have hsmoothed : Bounds { d with
      prevAtr := (d.prevAtr * (Arith.ofCount d.period - 1) + m.tr) / Arith.ofCount d.period
      prevPlusDm := (d.prevPlusDm * (Arith.ofCount d.period - 1) + m.plusDm) / Arith.ofCount d.period
      prevMinusDm := (d.prevMinusDm * (Arith.ofCount d.period - 1) + m.minusDm) / Arith.ofCount d.period } :=
    { h with smoothed := h.smoothed.smooth hm hperiod }
  obtain ⟨hbounds, hdx⟩ := hsmoothed.indicate
  unfold DirectionalMovement.advance at hd'
  dsimp only at hd'
  split_ifs at hd' with hadx
  · obtain rfl := Option.some.inj hd'
    exact hbounds.countDx hdx
  · exact hbounds.advanceAdx hperiod hdx hd'

end Bounds

/-- One bar. -/
theorem Bounds.next {bars : List (Row ℚ)} {bar : Row ℚ} {q : Quotes OrNan} (h : d.Bounds) (hperiod : 0 < d.period)
    (hok : ∀ b ∈ bars ++ [bar], b.Closes) (hq : q.Of (bars ++ [bar])) (hd' : d.next q.high q.low q.close = some d') :
    d'.Bounds := by
  unfold DirectionalMovement.next at hd'
  rw [hq.close.idx] at hd'
  by_cases hfirst : bars.length = 0
  · rw [if_pos hfirst] at hd'
    obtain rfl := Option.some.inj hd'
    exact h.blank
  · rw [if_neg hfirst] at hd'
    obtain ⟨before, hbefore⟩ := Option.isSome_iff_exists.1
      (List.getLast?_isSome.2 fun hnil => hfirst (List.length_eq_zero_iff.2 hnil))
    simp only [Option.bind_eq_bind, Option.bind_eq_some_iff] at hd'
    obtain ⟨m, hm, hd'⟩ := hd'
    have hdom := moves_dominated (hok bar (by simp))
      (hok before (List.mem_append_left _ (List.mem_of_getLast? hbefore))) hq hbefore hm
    split_ifs at hd' with hatr
    · obtain rfl := Option.some.inj hd'
      exact h.seed hperiod hdom
    · exact h.advance hperiod hdom hd'

/-- The outputs of every bar stay in their ranges. -/
theorem directional_range (period : Nat) (hperiod : 0 < period) (bars : List (Row ℚ)) (hbars : ∀ b ∈ bars, b.Closes) :
    ∃ q d, driven (fun q d => next q.high q.low q.close d) (init period) bars = some (q, d) ∧
      (d.plusDi.length = bars.length ∧ d.minusDi.length = bars.length ∧ d.dx.length = bars.length ∧
        d.line.length = bars.length ∧ d.adxr.length = bars.length) ∧
      List.Forall₂ Paired d.plusDi d.minusDi ∧ (∀ x ∈ d.dx, Band 0 100 x) ∧ (∀ x ∈ d.line, Band 0 100 x) ∧
      ∀ x ∈ d.adxr, Band 0 100 x := by
  have hrun : ∃ q d, driven (fun q d => next q.high q.low q.close d) (init period) bars = some (q, d) ∧
      d.After period bars.length ∧ d.Bounds := by
    refine driven_ind (fun bars d => After period bars.length d ∧ Bounds d) ⟨init_after hperiod, .init period⟩ ?_ hbars
    rintro bars bar q d hok hq ⟨hafter, hbounds⟩
    obtain ⟨d', hd', hafter'⟩ := hafter.next hperiod hq.numericsLast
    refine ⟨d', hd', by simpa using hafter', hbounds.next ?_ hok hq hd'⟩
    rwa [hafter.between.periodEq]
  obtain ⟨q, d, hdriven, hafter, hbounds⟩ := hrun
  have hlines := hafter.between
  exact ⟨q, d, hdriven, ⟨hlines.plusDi.length, hlines.minusDi.length, hlines.dx.length, hlines.line.length,
    hlines.adxr.length⟩, hbounds.di, hbounds.dx, hbounds.line, hbounds.adxr⟩

theorem directional_range_flat : ∃ q d, driven (fun q d => next q.high q.low q.close d) (init 1) [flatBar, flatBar] = some (q, d) ∧
    (∀ x ∈ d.line, Band 0 100 x) := by
  obtain ⟨q, d, hrun, -, -, -, hline, -⟩ :=
    directional_range 1 Nat.one_pos [flatBar, flatBar] (by simp [flatBar, Row.closes_iff])
  exact ⟨q, d, hrun, hline⟩

end DirectionalMovement

end Indicators

end StratForge
