import StratForge.Quotes

/-!
# The SuperTrend (`indicators/trend.hpp`)

Each band is held until the basic band comes closer or the close before has passed it. A bar whose basic band jumps
over the held band on the other side, which the close before has not passed, leaves the bands in the wrong order
(`ratchets_ordered_iff`); the output is on the right side of the price wherever they are in order.
-/

namespace StratForge
namespace Indicators
open Floating (nan isNaN)
open Access (readBack)

structure SuperTrend (α : Type) where
  atr : StratForge.ATR α
  multiplier : α
  line : List α := []
  upperBand : List α := []
  lowerBand : List α := []

namespace SuperTrend
variable {α : Type} [Arith α] [Floating α]

def init (period : Nat) (multiplier : α) : SuperTrend α := { atr := .init period, multiplier }

/-- The final upper band, after one of the bar before. -/
def finalUpper (basicUpper prevUpper prevClose : α) : α :=
  if !(decide (basicUpper < prevUpper) || decide (prevUpper < prevClose)) then prevUpper else basicUpper

def finalLower (basicLower prevLower prevClose : α) : α :=
  if !(decide (prevLower < basicLower) || decide (prevClose < prevLower)) then prevLower else basicLower

/-- The bands of a bar. -/
def bands (basicUpper basicLower : α) (close : Line α) (s : SuperTrend α) : Option (α × α) :=
  match s.upperBand.getLast? with
  | none => some (basicUpper, basicLower)
  | some prevUpper =>
    if isNaN prevUpper then some (basicUpper, basicLower)
    else do
      let prevLower ← s.lowerBand.getLast?
      let prevClose ← readBack close.data close.idx 1
      return (finalUpper basicUpper prevUpper prevClose, finalLower basicLower prevLower prevClose)

/-- The band that the close is on the right side of, with the upper one tried first after itself. -/
def choose (c upper lower : α) (s : SuperTrend α) : Option α :=
  match s.line.getLast? with
  | none => some (if c ≤ upper then upper else lower)
  | some prevSupertrend =>
    if isNaN prevSupertrend then some (if c ≤ upper then upper else lower)
    else do
      let prevUpper ← s.upperBand.getLast?
      return if prevSupertrend == prevUpper then if c ≤ upper then upper else lower
        else if lower ≤ c then lower else upper

def next (high low close : Line α) (s : SuperTrend α) : Option (SuperTrend α) := do
  let atr := s.atr.next high.data low.data close.data close.idx
  let value ← atr.line.getLast?
  if isNaN value then
    return { s with atr, upperBand := s.upperBand ++ [nan], lowerBand := s.lowerBand ++ [nan], line := s.line ++ [nan] }
  let hi ← high.data[close.idx]?
  let lo ← low.data[close.idx]?
  let c ← close.data[close.idx]?
  let hl2 := (hi + lo) / 2.0
  let (upper, lower) ← s.bands (hl2 + s.multiplier * value) (hl2 - s.multiplier * value) close
  let chosen ← s.choose c upper lower
  return { s with atr, upperBand := s.upperBand ++ [upper], lowerBand := s.lowerBand ++ [lower], line := s.line ++ [chosen] }

end SuperTrend

namespace SuperTrend

/-! ### The bands -/

/-- The basic band jumps over the held band on its other side, which the close before has not passed. -/
def Jumps (basicUpper basicLower upper lower prevClose : ℚ) : Prop :=
  prevClose ≤ upper ∧ upper < basicLower ∨ lower ≤ prevClose ∧ basicUpper < lower

/-- Bands in order stay so exactly if there is no jump. -/
theorem ratchets_ordered_iff {basicUpper basicLower upper lower prevClose : ℚ} (hbasic : basicLower ≤ basicUpper)
    (h : lower ≤ upper) : finalLower basicLower lower prevClose ≤ finalUpper basicUpper upper prevClose ↔
      ¬ Jumps basicUpper basicLower upper lower prevClose := by
  simp only [finalLower, finalUpper, Jumps, Bool.not_eq_true', Bool.or_eq_false_iff, decide_eq_false_iff_not, not_lt]
  split_ifs with hlower hupper hupper
  · refine iff_of_true h ?_
    rintro (⟨-, hjump⟩ | ⟨-, hjump⟩)
    · linarith
    · linarith
  · -- the upper band is the basic one
    constructor
    · rintro hle (⟨-, hjump⟩ | ⟨-, hjump⟩)
      · linarith
      · linarith
    · intro hno
      by_contra hlt
      exact hno (.inr ⟨hlower.2, not_le.1 hlt⟩)
  · constructor
    · rintro hle (⟨-, hjump⟩ | ⟨-, hjump⟩)
      · linarith
      · linarith
    · intro hno
      by_contra hlt
      exact hno (.inl ⟨hupper.2, not_le.1 hlt⟩)
  · refine iff_of_true hbasic ?_
    rintro (⟨hclose, hjump⟩ | ⟨hclose, hjump⟩)
    · exact hupper ⟨by linarith, hclose⟩
    · exact hlower ⟨by linarith, hclose⟩

variable {bars : List (Row ℚ)} {bar before : Row ℚ} {q : Quotes OrNan} {a : StratForge.ATR OrNan} {s s' : SuperTrend OrNan}
  {period : Nat} {m : ℚ}

theorem finalUpper_num (b p c : ℚ) : finalUpper (OrNan.num b) (.num p) (.num c) = .num (finalUpper b p c) := by
  unfold finalUpper
  rw [apply_ite OrNan.num]
  simp

theorem finalLower_num (b p c : ℚ) : finalLower (OrNan.num b) (.num p) (.num c) = .num (finalLower b p c) := by
  unfold finalLower
  rw [apply_ite OrNan.num]
  simp

/-! ### The range under the bands -/

/-- The sum and the average of true ranges. -/
structure Spans (a : StratForge.ATR OrNan) : Prop where
  pos : 0 < a.period
  trSum : ∃ x : ℚ, a.trSum = .num x ∧ 0 ≤ x
  prevAtr : ∃ x : ℚ, a.prevAtr = .num x ∧ 0 ≤ x

/-- A bar more gives no negative range. -/
theorem Spans.next (h : Spans a) (hq : q.Of (bars ++ [bar])) :
    Spans (a.next q.high.data q.low.data q.close.data q.close.idx) ∧
      ∃ x, (a.next q.high.data q.low.data q.close.data q.close.idx).line = a.line ++ [x] ∧ ∀ v : ℚ, x = .num v → 0 ≤ v := by
  have hpos : (0 : ℚ) < a.period := by exact_mod_cast h.pos
  have hone : (1 : ℚ) ≤ a.period := by exact_mod_cast h.pos
  obtain ⟨sum, hsum, hsum0⟩ := h.trSum
  obtain ⟨prev, hprev, hprev0⟩ := h.prevAtr
  unfold StratForge.ATR.next
  rw [hq.close.idx]
  by_cases hfirst : bars.length = 0
  · rw [if_pos hfirst]
    exact ⟨⟨h.pos, h.trSum, h.prevAtr⟩, nan, rfl, nofun⟩
  · obtain ⟨before, hbefore⟩ := Option.isSome_iff_exists.1
      (List.getLast?_isSome.2 fun hnil => hfirst (List.length_eq_zero_iff.2 hnil))
    rw [if_neg hfirst]
    simp only [valueAt, hq.high.current, hq.low.current, hq.close.lastBefore hbefore, Option.getD_some, OrNan.num_sub,
      OrNan.abs_num, OrNan.max_num]
    have hrange : 0 ≤ max (max (bar.high - bar.low) |bar.high - before.close|) |bar.low - before.close| :=
      le_max_of_le_right (abs_nonneg _)
    generalize max (max (bar.high - bar.low) |bar.high - before.close|) |bar.low - before.close| = range at hrange
    have hsum' : ∃ x : ℚ, a.trSum + .num range = .num x ∧ 0 ≤ x := ⟨sum + range, by rw [hsum, OrNan.num_add], by linarith⟩
    split_ifs with hinit hcount
    · exact ⟨⟨h.pos, hsum', h.prevAtr⟩, nan, rfl, nofun⟩
    · obtain ⟨x, hx, hx0⟩ := hsum'
      have havg : (a.trSum + .num range) / Arith.ofCount a.period = .num (x / a.period) := by
        rw [hx, OrNan.ofCount_eq, OrNan.num_div hpos.ne']
      refine ⟨⟨h.pos, ⟨x, hx, hx0⟩, ⟨_, havg, div_nonneg hx0 hpos.le⟩⟩, _, rfl, fun v hv => ?_⟩
      rw [havg] at hv
      obtain rfl := OrNan.num_injective hv
      exact div_nonneg hx0 hpos.le
    · have havg : (a.prevAtr * (Arith.ofCount a.period - 1) + .num range) / Arith.ofCount a.period =
          .num ((prev * (a.period - 1) + range) / a.period) := by
        rw [hprev, OrNan.ofCount_eq, OrNan.one_eq, OrNan.num_sub, OrNan.num_mul, OrNan.num_add, OrNan.num_div hpos.ne']
      have hnonneg : 0 ≤ (prev * (a.period - 1) + range) / a.period :=
        div_nonneg (add_nonneg (mul_nonneg hprev0 (by linarith)) hrange) hpos.le
      refine ⟨⟨h.pos, h.trSum, ⟨_, havg, hnonneg⟩⟩, _, rfl, fun v hv => ?_⟩
      rw [havg] at hv
      obtain rfl := OrNan.num_injective hv
      exact hnonneg

/-! ### Over a series of bars -/

/-- The basic bands of a bar, upper and lower, over an average range. -/
def basicUpper (m range : ℚ) (bar : Row ℚ) : ℚ := (bar.high + bar.low) / 2 + m * range

def basicLower (m range : ℚ) (bar : Row ℚ) : ℚ := (bar.high + bar.low) / 2 - m * range

/-- No output yet, or the output and the bands of a bar. -/
def Held (s : SuperTrend OrNan) : Prop :=
  (s.line.getLast? = none ∧ s.upperBand.getLast? = none ∧ s.lowerBand.getLast? = none) ∨
    (s.line.getLast? = some .nan ∧ s.upperBand.getLast? = some .nan ∧ s.lowerBand.getLast? = some .nan) ∨
    ∃ x u l : ℚ, s.line.getLast? = some (.num x) ∧ s.upperBand.getLast? = some (.num u) ∧ s.lowerBand.getLast? = some (.num l)

structure Reached (period : Nat) (m : ℚ) (bars : List (Row ℚ)) (s : SuperTrend OrNan) : Prop where
  multiplier : s.multiplier = .num m
  spans : Spans s.atr
  held : s.Held
  start : bars = [] → s.upperBand.getLast? = none

/-- The bands, once there are any, are in order. -/
def Ordered (s : SuperTrend OrNan) : Prop :=
  ∀ u l : ℚ, s.upperBand.getLast? = some (.num u) → s.lowerBand.getLast? = some (.num l) → l ≤ u

/-- What a bar puts out: nothing, or one of its two bands, on the right side of the close where they are in order. -/
def Shown (bar : Row ℚ) (s s' : SuperTrend OrNan) : Prop :=
  ∃ x u l, s'.line = s.line ++ [x] ∧ s'.upperBand = s.upperBand ++ [u] ∧ s'.lowerBand = s.lowerBand ++ [l] ∧
    ((x = .nan ∧ u = .nan ∧ l = .nan) ∨
      ∃ x' u' l' : ℚ, x = .num x' ∧ u = .num u' ∧ l = .num l' ∧ (x' = u' ∨ x' = l') ∧
        (l' ≤ u' → x' = u' ∧ bar.close ≤ x' ∨ x' = l' ∧ x' ≤ bar.close))

/-- The bar jumps over one of the bands that the bars have left. -/
def JumpsOn (m : ℚ) (bars : List (Row ℚ)) (bar : Row ℚ) (s s' : SuperTrend OrNan) : Prop :=
  ∃ before upper lower range, bars.getLast? = some before ∧ s.upperBand.getLast? = some (.num upper) ∧
    s.lowerBand.getLast? = some (.num lower) ∧ s'.atr.line.getLast? = some (.num range) ∧
    Jumps (basicUpper m range bar) (basicLower m range bar) upper lower before.close

/-- The choice between numbers. -/
theorem choose_num {c u l : ℚ} (h : s.Held) : ∃ x : ℚ, s.choose (.num c) (.num u) (.num l) = some (.num x) ∧
    (x = u ∨ x = l) ∧ (l ≤ u → x = u ∧ c ≤ x ∨ x = l ∧ x ≤ c) := by
  have hfirst : ∃ x : ℚ, (if OrNan.num c ≤ .num u then OrNan.num u else .num l) = .num x ∧
      (x = u ∨ x = l) ∧ (l ≤ u → x = u ∧ c ≤ x ∨ x = l ∧ x ≤ c) := by
    simp only [OrNan.num_le]
    split_ifs with hle
    · exact ⟨u, rfl, .inl rfl, fun _ => .inl ⟨rfl, hle⟩⟩
    · exact ⟨l, rfl, .inr rfl, fun hlu => .inr ⟨rfl, by linarith⟩⟩
  unfold choose
  rcases h with ⟨hline, -, -⟩ | ⟨hline, -, -⟩ | ⟨x, v, w, hline, hupper, -⟩
  · rw [hline]
    obtain ⟨x, hx, hband⟩ := hfirst
    exact ⟨x, congrArg some hx, hband⟩
  · rw [hline]
    obtain ⟨x, hx, hband⟩ := hfirst
    exact ⟨x, congrArg some hx, hband⟩
  · rw [hline, hupper]
    simp only [OrNan.isNaN_num, Bool.false_eq_true, if_false, Option.bind_eq_bind, Option.bind_some, Option.pure_def]
    by_cases hsame : (OrNan.num x == OrNan.num v) = true
    · rw [if_pos hsame]
      obtain ⟨x, hx, hband⟩ := hfirst
      exact ⟨x, congrArg some hx, hband⟩
    · rw [if_neg hsame]
      simp only [OrNan.num_le]
      split_ifs with hle
      · exact ⟨l, rfl, .inr rfl, fun _ => .inr ⟨rfl, hle⟩⟩
      · exact ⟨u, rfl, .inl rfl, fun hlu => .inl ⟨rfl, by linarith⟩⟩

/-- The bands of a bar, after bands in order. -/
theorem bands_num {range : ℚ} (h : Reached period m bars s) (hq : q.Of (bars ++ [bar]))
    (hbasic : basicLower m range bar ≤ basicUpper m range bar)
    (hs' : s'.atr.line.getLast? = some (.num range)) : ∃ u l : ℚ,
      s.bands (.num (basicUpper m range bar)) (.num (basicLower m range bar)) q.close = some (.num u, .num l) ∧
        (s.Ordered → (l ≤ u ↔ ¬ JumpsOn m bars bar s s')) := by
  unfold bands
  rcases h.held with ⟨-, hupper, hlower⟩ | ⟨-, hupper, hlower⟩ | ⟨x, u, l, -, hupper, hlower⟩
  · rw [hupper]
    refine ⟨_, _, rfl, fun _ => iff_of_true hbasic ?_⟩
    rintro ⟨before, upper, lower, range, -, hu, -⟩
    exact nomatch hupper.symm.trans hu
  · rw [hupper]
    refine ⟨_, _, rfl, fun _ => iff_of_true hbasic ?_⟩
    rintro ⟨before, upper, lower, range, -, hu, -⟩
    exact nomatch hupper.symm.trans hu
  · have hne : bars ≠ [] := fun hnil => by
      have hnone := h.start hnil
      rw [hupper] at hnone
      exact nomatch hnone
    obtain ⟨before, hbefore⟩ := Option.isSome_iff_exists.1 (List.getLast?_isSome.2 hne)
    rw [hupper]
    simp only [hlower, OrNan.isNaN_num, Bool.false_eq_true, if_false, hq.close.idx, hq.close.previous hbefore,
      Option.bind_eq_bind, Option.bind_some, Option.pure_def, finalUpper_num, finalLower_num]
    refine ⟨_, _, rfl, fun hordered => (ratchets_ordered_iff hbasic (hordered u l hupper hlower)).trans (not_congr ?_)⟩
    constructor
    · exact fun hjump => ⟨before, u, l, range, hbefore, hupper, hlower, hs', hjump⟩
    · rintro ⟨before', u', l', range', hbefore', hu, hl, hr, hjump⟩
      obtain rfl := Option.some.inj (hbefore.symm.trans hbefore')
      obtain rfl := OrNan.num_injective (Option.some.inj (hupper.symm.trans hu))
      obtain rfl := OrNan.num_injective (Option.some.inj (hlower.symm.trans hl))
      obtain rfl := OrNan.num_injective (Option.some.inj (hs'.symm.trans hr))
      exact hjump

/-- One bar more. -/
theorem Reached.next (h : Reached period m bars s) (hm : 0 ≤ m) (hq : q.Of (bars ++ [bar])) :
    ∃ s', s.next q.high q.low q.close = some s' ∧ Reached period m (bars ++ [bar]) s' ∧ Shown bar s s' ∧
      (s.Ordered → (s'.Ordered ↔ ¬ JumpsOn m bars bar s s')) := by
  obtain ⟨hspans, value, hline, hnonneg⟩ := h.spans.next hq
  have hlast : (s.atr.next q.high.data q.low.data q.close.data q.close.idx).line.getLast? = some value := by
    rw [hline, List.getLast?_concat]
  unfold SuperTrend.next
  simp only [hlast, Option.bind_eq_bind, Option.bind_some, Option.pure_def]
  cases value with
  | nan =>
    refine ⟨_, if_pos rfl, ⟨h.multiplier, hspans, .inr (.inl ?_), fun hnil => absurd hnil (by simp)⟩,
      ⟨nan, nan, nan, rfl, rfl, rfl, .inl ⟨rfl, rfl, rfl⟩⟩, fun _ => iff_of_true ?_ ?_⟩
    · simp
    · intro u l hu
      simp at hu
    · rintro ⟨before, upper, lower, range, -, -, -, hr, -⟩
      exact nomatch hlast.symm.trans hr
  | num range =>
    have hrange := hnonneg range rfl
    have hbasic : basicLower m range bar ≤ basicUpper m range bar := by
      unfold basicLower basicUpper
      have := mul_nonneg hm hrange
      linarith
    obtain ⟨u, l, hbands, hjumps⟩ := @bands_num bars bar q s
      { s with atr := s.atr.next q.high.data q.low.data q.close.data q.close.idx } period m range h hq hbasic hlast
    obtain ⟨x, hchoose, heither, hside⟩ := @choose_num s bar.close u l h.held
    have hhl2 : (OrNan.num bar.high + .num bar.low) / 2.0 = .num ((bar.high + bar.low) / 2) := by
      rw [OrNan.num_add, OrNan.ofScientific_eq, OrNan.num_div (by norm_num)]
      norm_num
    have hu : OrNan.num ((bar.high + bar.low) / 2) + s.multiplier * .num range = .num (basicUpper m range bar) := by
      rw [h.multiplier, OrNan.num_mul, OrNan.num_add, basicUpper]
    have hl : OrNan.num ((bar.high + bar.low) / 2) - s.multiplier * .num range = .num (basicLower m range bar) := by
      rw [h.multiplier, OrNan.num_mul, OrNan.num_sub, basicLower]
    simp only [OrNan.isNaN_num, Bool.false_eq_true, if_false, hq.high.current, hq.low.current, hq.close.current,
      hq.close.idx, Option.bind_some, hhl2, hu, hl, hbands, hchoose]
    refine ⟨_, rfl, ⟨h.multiplier, by simpa [hq.close.idx] using hspans, .inr (.inr ⟨x, u, l, ?_⟩),
      fun hnil => absurd hnil (by simp)⟩, ⟨.num x, .num u, .num l, rfl, rfl, rfl, .inr ⟨x, u, l, rfl, rfl, rfl, heither,
      hside⟩⟩, fun hordered => ?_⟩
    · simp
    · have horder : Ordered { s with
          atr := s.atr.next q.high.data q.low.data q.close.data bars.length, upperBand := s.upperBand ++ [.num u]
          lowerBand := s.lowerBand ++ [.num l], line := s.line ++ [.num x] } ↔ l ≤ u := by
        simp only [Ordered, List.getLast?_concat, Option.some.injEq, OrNan.num.injEq]
        exact ⟨fun hall => hall u l rfl rfl, fun hle u' l' hu' hl' => hu' ▸ hl' ▸ hle⟩
      rw [horder]
      have hsame := hjumps hordered
      rw [hq.close.idx] at hsame
      exact hsame

theorem driven_reached (hperiod : 0 < period) (hm : 0 ≤ m) (bars : List (Row ℚ)) :
    ∃ q s, driven (fun q s => next q.high q.low q.close s) (init period (.num m)) bars = some (q, s) ∧
      Reached period m bars s := by
  have hinit : Reached period m [] (init period (.num m)) :=
    ⟨rfl, ⟨hperiod, ⟨0, rfl, le_rfl⟩, ⟨0, rfl, le_rfl⟩⟩, .inl ⟨rfl, rfl, rfl⟩, fun _ => rfl⟩
  refine @driven_ind _ _ _ (fun _ => True) _ hinit ?_ _ (fun _ _ => trivial)
  intro bars bar q s _ hq hreached
  obtain ⟨s', hnext, hreached', -, -⟩ := hreached.next hm hq
  exact ⟨s', hnext, hreached'⟩

/-- No bar of the series jumps. -/
def JumpFree (period : Nat) (m : ℚ) (bars : List (Row ℚ)) : Prop :=
  ∀ older bar q s q' s', older ++ [bar] <+: bars →
    driven (fun q s => next q.high q.low q.close s) (init period (.num m)) older = some (q, s) →
    driven (fun q s => next q.high q.low q.close s) (init period (.num m)) (older ++ [bar]) = some (q', s') →
    ¬ JumpsOn m older bar s s'

/-- By induction on the bars: in a series without jumps the bands keep their order. -/
theorem ordered_of_jumpFree (hperiod : 0 < period) (hm : 0 ≤ m) (h : JumpFree period m bars)
    (hrun : driven (fun q s => next q.high q.low q.close s) (init period (.num m)) bars = some (q, s)) : s.Ordered := by
  induction bars using List.reverseRecOn generalizing q s with
  | nil =>
    obtain ⟨rfl, rfl⟩ := Prod.mk.inj (Option.some.inj hrun)
    exact fun u l hu => nomatch hu
  | append_singleton bars bar ih =>
    obtain ⟨q', s', hbefore, hreached⟩ := driven_reached hperiod hm bars
    obtain ⟨s'', hnext, -, -, hjumps⟩ := hreached.next hm ((driven_of hbefore).forward bar)
    have hrun' := driven_concat hbefore hnext
    obtain rfl := (Prod.mk.inj (Option.some.inj (hrun.symm.trans hrun'))).2
    have hordered : s'.Ordered := ih (fun older b q s q' s' hpre => h older b q s q' s' (hpre.trans (List.prefix_append ..))) hbefore
    exact (hjumps hordered).2 (h bars bar q' s' _ _ (List.prefix_refl _) hbefore hrun')

/-- The output is one of the bands, on the right side of the price where they are in order, and what keeps them so. -/
theorem supertrend_sides (period : Nat) (m : ℚ) (hperiod : 0 < period) (hm : 0 ≤ m) (bars : List (Row ℚ)) (bar : Row ℚ) :
    ∃ q s q' s', driven (fun q s => next q.high q.low q.close s) (init period (.num m)) bars = some (q, s) ∧
      driven (fun q s => next q.high q.low q.close s) (init period (.num m)) (bars ++ [bar]) = some (q', s') ∧
      Shown bar s s' ∧ (s.Ordered → (s'.Ordered ↔ ¬ JumpsOn m bars bar s s')) ∧
      (JumpFree period m (bars ++ [bar]) → s'.Ordered) := by
  obtain ⟨q, s, hrun, hreached⟩ := driven_reached hperiod hm bars
  obtain ⟨s', hnext, -, hshown, hjumps⟩ := hreached.next hm ((driven_of hrun).forward bar)
  have hrun' := driven_concat hrun hnext
  exact ⟨q, s, _, s', hrun, hrun', hshown, hjumps, fun hfree => ordered_of_jumpFree hperiod hm hfree hrun'⟩

theorem supertrend_sides_flat : ∃ q s q' s',
    driven (fun q s => next q.high q.low q.close s) (init 1 (.num 3)) [flatBar] = some (q, s) ∧
      driven (fun q s => next q.high q.low q.close s) (init 1 (.num 3)) [flatBar, flatBar] = some (q', s') ∧
      Shown flatBar s s' := by
  obtain ⟨q, s, q', s', hrun, hrun', hshown, -, -⟩ := supertrend_sides 1 3 Nat.one_pos (by norm_num) [flatBar] flatBar
  exact ⟨q, s, q', s', hrun, hrun', hshown⟩

/-- A series that stays, and a bar that opens far above it. -/
def gapBars : List (Row ℚ) :=
  [flatBar, flatBar, { flatBar with «open» := 15, high := 15, low := 5, close := 5 }]

theorem gapBars_bands : (driven (fun q s => next q.high q.low q.close s) (init 1 (.num (1 / 7))) gapBars).map
    (fun st => (st.2.line, st.2.upperBand, st.2.lowerBand)) =
      some ([.nan, .num 1, .num 8], [.nan, .num 1, .num 1], [.nan, .num 1, .num 8]) := by
  decide +kernel

/-- The bands cross, and the close is below the lower band that is put out. -/
theorem bands_cross : ¬ ∀ (period : Nat) (m : ℚ) (bars : List (Row ℚ)) (bar : Row ℚ) (q : Quotes OrNan)
    (s : SuperTrend OrNan) (x u l : ℚ), 0 < period → 0 ≤ m → (∀ b ∈ bars, b.Closes) → bars.getLast? = some bar →
    driven (fun q s => next q.high q.low q.close s) (init period (.num m)) bars = some (q, s) →
    s.line.getLast? = some (.num x) → s.upperBand.getLast? = some (.num u) → s.lowerBand.getLast? = some (.num l) →
    l ≤ u ∧ (x = u ∨ x = l) ∧ (x = u → bar.close ≤ x) ∧ (x = l → x ≤ bar.close) := by
  intro h
  obtain ⟨st, hrun, hst⟩ := Option.map_eq_some_iff.1 gapBars_bands
  simp only [Prod.mk.injEq] at hst
  obtain ⟨hline, hupper, hlower⟩ := hst
  have hlaw := h 1 (1 / 7) gapBars { flatBar with «open» := 15, high := 15, low := 5, close := 5 } st.1 st.2 8 1 8 Nat.one_pos
    (by norm_num) (by simp [gapBars, flatBar, Row.closes_iff]; norm_num) rfl hrun (by rw [hline]; rfl) (by rw [hupper]; rfl)
    (by rw [hlower]; rfl)
  exact absurd hlaw.1 (by norm_num)

end SuperTrend

end Indicators

end StratForge
