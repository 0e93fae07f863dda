import Mathlib.Tactic.NormNum
import StratForge.PiecewiseLinear
import StratForge.Preflight

/-!
# Calibration and sizing (`corrective/pop_calibrator.hpp`, `corrective/pop_sizing_policy.hpp`)

The calibrator turns the score of a model into a probability, by interpolation between breakpoints or by a sigmoid; the
policy turns the probability into the size of the order. `search` finds the breakpoints around the score: it always
ends, and reads no breakpoint that is not there (`search_spec`). What it finds is the interpolant of the breakpoints
(`applyIsotonic_interpolant`), so that a better score never makes the order smaller (`gating_monotone`).

`exp` and `pow` are parameters, and `none` is a search that has not ended or a read outside the list.
-/

namespace StratForge

/-! ### The calibrator -/

structure PopCalibrator (α : Type) where
  method : CalibrationMethod
  breakpoints : List (CalibrationBreakpoint α)
  plattA : α
  plattB : α

namespace PopCalibrator
variable {α : Type} [Arith α]

def fromIsotonic (breakpoints : List (CalibrationBreakpoint α)) : PopCalibrator α := ⟨.kIsotonic, breakpoints, 0, 0⟩

def fromPlatt (a b : α) : PopCalibrator α := ⟨.kPlatt, [], a, b⟩

/-- The loop of `apply_isotonic_`, which may take `fuel` more turns. -/
def search (bps : List (CalibrationBreakpoint α)) (raw : α) : Nat → Nat → Nat → Option (Nat × Nat)
  | 0, _, _ => none
  | fuel + 1, lo, hi =>
    if lo < hi - 1 then
      let mid := (lo + hi) / 2
      match bps[mid]? with
      | none => none
      | some b => if b.x ≤ raw then search bps raw fuel mid hi else search bps raw fuel lo mid
    else some (lo, hi)

/-- Between two breakpoints. -/
def interpolate (b₀ b₁ : CalibrationBreakpoint α) (raw : α) : α :=
  if b₁.x == b₀.x then b₀.y
  else
    let t := (raw - b₀.x) / (b₁.x - b₀.x)
    b₀.y + t * (b₁.y - b₀.y)

def applyIsotonic (bps : List (CalibrationBreakpoint α)) (raw : α) : Option α :=
  match bps with
  | [] => some raw
  | [b] => some b.y
  | front :: b :: rest =>
    let back := (b :: rest).getLast (List.cons_ne_nil b rest)
    if raw ≤ front.x then some front.y
    else if back.x ≤ raw then some back.y
    else do
      let (lo, hi) ← search bps raw bps.length 0 (bps.length - 1)
      return interpolate (← bps[lo]?) (← bps[hi]?) raw

def applyPlatt (exp : α → α) (a b raw : α) : α :=
  let fApB := raw * a + b
  if 0 ≤ fApB then
    let e := exp (-fApB)
    e / (1 + e)
  else 1 / (1 + exp fApB)

def calibrate (exp : α → α) (cal : PopCalibrator α) (raw : α) : Option α :=
  match cal.method with
  | .kIsotonic => applyIsotonic cal.breakpoints raw
  | .kPlatt => some (applyPlatt exp cal.plattA cal.plattB raw)

end PopCalibrator

/-! ### The policy -/

structure SizingDecision (α : Type) where
  verdict : GateVerdict
  finalSize : α
deriving DecidableEq, Repr

structure PopSizingPolicy (α : Type) where
  mode : SizingPolicy
  threshold : α
  exponent : α

namespace PopSizingPolicy
variable {α : Type} [Arith α]

def init (mode : SizingPolicy) (threshold exponent : α) : PopSizingPolicy α :=
  ⟨mode, threshold, Arith.clamp exponent 0.1 5.0⟩

variable (pow : α → α → α) (p : PopSizingPolicy α)

def applyGate (prob proposed : α) : SizingDecision α :=
  if prob < p.threshold then ⟨.kReject, 0⟩ else ⟨.kPass, proposed⟩

def applySizing (prob proposed : α) : SizingDecision α :=
  let scale := pow (Arith.clamp prob 0 1) p.exponent
  let sized := proposed * scale
  ⟨.kPass, Arith.min sized proposed⟩

def applyHybrid (prob proposed : α) : SizingDecision α :=
  if prob < p.threshold then ⟨.kReject, 0⟩ else p.applySizing pow prob proposed

def apply (calibratedProbability proposedSize : α) : SizingDecision α :=
  match p.mode with
  | .kGate => p.applyGate calibratedProbability proposedSize
  | .kSizing => p.applySizing pow calibratedProbability proposedSize
  | .kHybrid => p.applyHybrid pow calibratedProbability proposedSize

end PopSizingPolicy

/-! ### What the search finds -/

open PiecewiseLinear

namespace PopCalibrator
variable {bps : List (CalibrationBreakpoint ℚ)} {raw : ℚ}

/-- The knots of the breakpoints. -/
def knotX (bps : List (CalibrationBreakpoint ℚ)) (i : Nat) : ℚ := (bps[i]?.map CalibrationBreakpoint.x).getD 0

def knotY (bps : List (CalibrationBreakpoint ℚ)) (i : Nat) : ℚ := (bps[i]?.map CalibrationBreakpoint.y).getD 0

theorem knotX_eq {i : Nat} {b : CalibrationBreakpoint ℚ} (h : bps[i]? = some b) : knotX bps i = b.x := by
  unfold knotX
  rw [h]
  rfl

theorem knotY_eq {i : Nat} {b : CalibrationBreakpoint ℚ} (h : bps[i]? = some b) : knotY bps i = b.y := by
  unfold knotY
  rw [h]
  rfl

/-- The search keeps the score between its two ends, and ends when they are neighbours. -/
theorem search_spec : ∀ fuel lo hi, lo < hi → hi < bps.length → hi - lo ≤ fuel → knotX bps lo ≤ raw → raw < knotX bps hi →
    ∃ k, search bps raw fuel lo hi = some (k, k + 1) ∧ k + 1 < bps.length ∧ knotX bps k ≤ raw ∧ raw < knotX bps (k + 1)
  | 0, lo, hi, hlt, _, hfuel, _, _ => by omega
  | fuel + 1, lo, hi, hlt, hlen, hfuel, hl, hr => by
    unfold search
    by_cases hgap : lo < hi - 1
    · have hmid : lo < (lo + hi) / 2 ∧ (lo + hi) / 2 < hi := by omega
      obtain ⟨b, hb⟩ : ∃ b, bps[(lo + hi) / 2]? = some b := ⟨_, List.getElem?_eq_getElem (hmid.2.trans hlen)⟩
      have hx := knotX_eq hb
      rw [if_pos hgap]
      dsimp only
      rw [hb]
      dsimp only
      by_cases hle : b.x ≤ raw
      · rw [if_pos hle]
        exact search_spec fuel _ hi hmid.2 hlen (by omega) (hx ▸ hle) hr
      · rw [if_neg hle]
        exact search_spec fuel lo _ hmid.1 (hmid.2.trans hlen) (by omega) hl (hx ▸ not_le.1 hle)
    · obtain rfl : hi = lo + 1 := by omega
      rw [if_neg hgap]
      exact ⟨lo, rfl, hlen, hl, hr⟩

theorem interpolate_eq {b₀ b₁ : CalibrationBreakpoint ℚ} (h : b₀.x < b₁.x) (raw : ℚ) :
    interpolate b₀ b₁ raw = line b₀.x b₀.y b₁.x b₁.y raw := by
  unfold interpolate line
  have hne : (b₁.x == b₀.x) = false := beq_false_of_ne h.ne'
  rw [hne]
  rfl

/-- What the calibrator answers is on the polygon through the breakpoints. -/
theorem applyIsotonic_interpolant (hne : bps ≠ []) (raw : ℚ) :
    ∃ v, applyIsotonic bps raw = some v ∧ Interpolant (knotX bps) (knotY bps) (bps.length - 1) raw v := by
  match bps, hne with
  | [b], _ =>
    refine ⟨b.y, rfl, ?_⟩
    rcases le_or_gt raw b.x with h | h
    · exact .before h
    · exact .after h h.le
  | front :: b :: rest, _ =>
    have hlast : (front :: b :: rest)[rest.length + 1]? = some ((b :: rest).getLast (List.cons_ne_nil b rest)) := by
      rw [List.getElem?_cons_succ, List.getLast_eq_getElem]
      exact List.getElem?_eq_getElem _
    have hlen : (front :: b :: rest).length - 1 = rest.length + 1 := rfl
    unfold applyIsotonic
    dsimp only
    by_cases hfront : raw ≤ front.x
    · rw [if_pos hfront]
      exact ⟨front.y, rfl, .before hfront⟩
    · rw [if_neg hfront]
      have h0 : front.x < raw := not_le.1 hfront
      by_cases hback : ((b :: rest).getLast (List.cons_ne_nil b rest)).x ≤ raw
      · rw [if_pos hback]
        refine ⟨_, rfl, ?_⟩
        rw [← knotY_eq hlast]
        exact .after h0 (knotX_eq hlast ▸ hback)
      · rw [if_neg hback]
        have hend : raw < knotX (front :: b :: rest) (rest.length + 1) := knotX_eq hlast ▸ not_le.1 hback
        obtain ⟨k, hfound, hk, hl, hr⟩ := search_spec (front :: b :: rest).length 0 (rest.length + 1)
          (Nat.succ_pos _) (Nat.lt_succ_self _) (Nat.le_succ _) h0.le hend
        have hb₀ := List.getElem?_eq_getElem (Nat.lt_of_succ_lt hk)
        have hb₁ := List.getElem?_eq_getElem hk
        rw [knotX_eq hb₀] at hl
        rw [knotX_eq hb₁] at hr
        refine ⟨interpolate (front :: b :: rest)[k] (front :: b :: rest)[k + 1] raw, ?_, ?_⟩
        · rw [hlen, hfound]
          show (do return interpolate (← (front :: b :: rest)[k]?) (← (front :: b :: rest)[k + 1]?) raw : Option ℚ) = _
          rw [hb₀, hb₁]
          rfl
        · rw [interpolate_eq (hl.trans_lt hr), ← knotX_eq hb₀, ← knotX_eq hb₁, ← knotY_eq hb₀, ← knotY_eq hb₁]
          exact .between h0 k (Nat.lt_of_succ_lt_succ hk) (knotX_eq hb₀ ▸ hl) (knotX_eq hb₁ ▸ hr)

/-- A function of the score: every score has its answer. -/
theorem exists_answer (hne : bps ≠ []) : ∃ f : ℚ → ℚ, ∀ raw, applyIsotonic bps raw = some (f raw) ∧
    Interpolant (knotX bps) (knotY bps) (bps.length - 1) raw (f raw) :=
  ⟨fun raw => (applyIsotonic_interpolant hne raw).choose, fun raw => (applyIsotonic_interpolant hne raw).choose_spec⟩

theorem rising_knots {f : CalibrationBreakpoint ℚ → ℚ} (h : (bps.map f).Pairwise (· ≤ ·)) :
    Rising (fun i => (bps[i]?.map f).getD 0) (bps.length - 1) := by
  intro i j hij hj
  rcases Nat.lt_or_eq_of_le hij with hlt | rfl
  · by_cases hlen : j < bps.length
    · have hle := List.pairwise_iff_getElem.1 h i j (by simp; omega) (by simpa using hlen) hlt
      simpa [List.getElem?_eq_getElem hlen, List.getElem?_eq_getElem (hlt.trans hlen)] using hle
    · omega
  · exact le_rfl

end PopCalibrator

/-! ### The size -/

namespace PopSizingPolicy

/-- `std::pow` for a fixed exponent: it stays between 0 and 1 there, and does not fall. -/
structure PowerLaw (pow : ℚ → ℚ) : Prop where
  unit : ∀ p, 0 ≤ p → p ≤ 1 → 0 ≤ pow p ∧ pow p ≤ 1
  mono : ∀ p q, 0 ≤ p → p ≤ q → q ≤ 1 → pow p ≤ pow q

theorem clamp_unit (p : ℚ) : 0 ≤ Arith.clamp p 0 1 ∧ Arith.clamp p 0 1 ≤ (1 : ℚ) := by
  unfold Arith.clamp
  split_ifs with h0 h1
  · exact ⟨le_rfl, zero_le_one⟩
  · exact ⟨zero_le_one, le_rfl⟩
  · exact ⟨not_lt.1 h0, not_lt.1 h1⟩

theorem clamp_mono {p q : ℚ} (h : p ≤ q) : Arith.clamp p 0 1 ≤ Arith.clamp q 0 1 := by
  have hq := clamp_unit q
  unfold Arith.clamp at hq ⊢
  split_ifs at hq ⊢ <;> linarith

variable {pow : ℚ → ℚ → ℚ} {p : PopSizingPolicy ℚ} {proposed : ℚ}

theorem finalSize_sizing (hpow : PowerLaw (pow · p.exponent)) (hprop : 0 ≤ proposed) (prob : ℚ) :
    (p.applySizing pow prob proposed).finalSize = proposed * pow (Arith.clamp prob 0 1) p.exponent := by
  obtain ⟨h0, h1⟩ := clamp_unit prob
  unfold applySizing
  dsimp only
  rw [Arith.min_rat]
  exact min_eq_left (mul_le_of_le_one_right hprop (hpow.unit _ h0 h1).2)

/-- The size lies between nothing and what was proposed. -/
theorem finalSize_bounded (hpow : PowerLaw (pow · p.exponent)) (hprop : 0 ≤ proposed) (prob : ℚ) :
    0 ≤ (p.apply pow prob proposed).finalSize ∧ (p.apply pow prob proposed).finalSize ≤ proposed := by
  have hsizing : 0 ≤ (p.applySizing pow prob proposed).finalSize ∧ (p.applySizing pow prob proposed).finalSize ≤ proposed := by
    obtain ⟨h0, h1⟩ := clamp_unit prob
    obtain ⟨hp0, hp1⟩ := hpow.unit _ h0 h1
    rw [finalSize_sizing hpow hprop]
    exact ⟨mul_nonneg hprop hp0, mul_le_of_le_one_right hprop hp1⟩
  unfold apply applyGate applyHybrid
  cases p.mode with
  | kGate =>
    dsimp only
    split_ifs
    · exact ⟨le_rfl, hprop⟩
    · exact ⟨hprop, le_rfl⟩
  | kSizing => exact hsizing
  | kHybrid =>
    dsimp only
    split_ifs
    · exact ⟨le_rfl, hprop⟩
    · exact hsizing

/-- A higher probability makes no smaller size. -/
theorem finalSize_mono (hpow : PowerLaw (pow · p.exponent)) (hprop : 0 ≤ proposed) {prob prob' : ℚ} (h : prob ≤ prob') :
    (p.apply pow prob proposed).finalSize ≤ (p.apply pow prob' proposed).finalSize := by
  have hbound := finalSize_bounded hpow hprop prob'
  have hsizing : (p.applySizing pow prob proposed).finalSize ≤ (p.applySizing pow prob' proposed).finalSize := by
    rw [finalSize_sizing hpow hprop, finalSize_sizing hpow hprop]
    exact mul_le_mul_of_nonneg_left (hpow.mono _ _ (clamp_unit prob).1 (clamp_mono h) (clamp_unit prob').2) hprop
  unfold apply applyGate applyHybrid at hbound ⊢
  cases hmode : p.mode with
  | kGate =>
    dsimp only
    split_ifs with hlow hlow'
    · exact le_rfl
    · exact hprop
    · exact absurd (h.trans_lt ‹_›) hlow
    · exact le_rfl
  | kSizing => exact hsizing
  | kHybrid =>
    rw [hmode] at hbound
    dsimp only at hbound ⊢
    by_cases hlow : prob < p.threshold
    · rw [if_pos hlow]
      exact hbound.1
    · rw [if_neg hlow, if_neg fun hlow' => hlow (h.trans_lt hlow')]
      exact hsizing

end PopSizingPolicy

/-- With breakpoints that do not fall the answer of the calibrator lies between the first and the last of them, meets
each that stands alone and does not fall with the score; and under every policy neither does the size of the order,
which lies between nothing and what was proposed. -/
theorem gating_monotone (exp : ℚ → ℚ) (pow : ℚ → ℚ → ℚ) {bps : List (CalibrationBreakpoint ℚ)} (hne : bps ≠ [])
    (hx : (bps.map CalibrationBreakpoint.x).Pairwise (· ≤ ·)) (hy : (bps.map CalibrationBreakpoint.y).Pairwise (· ≤ ·)) :
    ∃ f : ℚ → ℚ, (∀ raw, (PopCalibrator.fromIsotonic bps).calibrate exp raw = some (f raw)) ∧ Monotone f ∧
      (∀ raw, (bps.head hne).y ≤ f raw ∧ f raw ≤ (bps.getLast hne).y) ∧
      (∀ (k : Nat) (b : CalibrationBreakpoint ℚ), bps[k]? = some b →
        (∀ (j : Nat) (b' : CalibrationBreakpoint ℚ), bps[j]? = some b' → b'.x = b.x → j = k) → f b.x = b.y) ∧
      ∀ mode threshold exponent proposed, let p := PopSizingPolicy.init mode threshold exponent
        PopSizingPolicy.PowerLaw (pow · p.exponent) → 0 ≤ proposed →
        Monotone (fun raw => (p.apply pow (f raw) proposed).finalSize) ∧
        ∀ raw, 0 ≤ (p.apply pow (f raw) proposed).finalSize ∧ (p.apply pow (f raw) proposed).finalSize ≤ proposed := by
  obtain ⟨f, hf⟩ := PopCalibrator.exists_answer hne
  have hrx : Rising (PopCalibrator.knotX bps) (bps.length - 1) := PopCalibrator.rising_knots hx
  have hry : Rising (PopCalibrator.knotY bps) (bps.length - 1) := PopCalibrator.rising_knots hy
  have hpos : 0 < bps.length := List.length_pos_of_ne_nil hne
  have hmono : Monotone f := fun raw raw' h => (hf raw).2.mono hrx hry (hf raw').2 h
  refine ⟨f, fun raw => (hf raw).1, hmono, fun raw => ?_, ?_, ?_⟩
  · have hbound := (hf raw).2.bounded hry
    have hhead : bps[0]? = some (bps.head hne) := by
      rw [List.head_eq_getElem]
      exact List.getElem?_eq_getElem hpos
    have hlast : bps[bps.length - 1]? = some (bps.getLast hne) := by
      rw [List.getLast_eq_getElem]
      exact List.getElem?_eq_getElem _
    rw [PopCalibrator.knotY_eq hhead, PopCalibrator.knotY_eq hlast] at hbound
    exact hbound
  · intro k b hb halone
    have hk : k < bps.length := (List.getElem?_eq_some_iff.1 hb).1
    have hmeet := (hf b.x).2
    rw [← PopCalibrator.knotX_eq hb] at hmeet ⊢
    rw [← PopCalibrator.knotY_eq hb]
    refine hmeet.of_alone hrx (Nat.le_sub_one_of_lt hk) fun j hj hxj => ?_
    have hb' : bps[j]? = some bps[j] := List.getElem?_eq_getElem (by omega)
    rw [PopCalibrator.knotX_eq hb', PopCalibrator.knotX_eq hb] at hxj
    exact halone j _ hb' hxj
  · intro mode threshold exponent proposed p hpow hprop
    exact ⟨fun raw raw' h => PopSizingPolicy.finalSize_mono hpow hprop (hmono h),
      fun raw => PopSizingPolicy.finalSize_bounded hpow hprop (f raw)⟩

/-- A gate, three breakpoints at two places, and a power that is the identity. -/
theorem gating_monotone_jump :
    let bps : List (CalibrationBreakpoint ℚ) := [⟨0, 0⟩, ⟨1/2, 1/4⟩, ⟨1/2, 3/4⟩, ⟨1, 1⟩]
    PopCalibrator.applyIsotonic bps (1/4) = some (1/8) ∧ PopCalibrator.applyIsotonic bps (1/2) = some (3/4) ∧
    ∃ f : ℚ → ℚ, (∀ raw, (PopCalibrator.fromIsotonic bps).calibrate id raw = some (f raw)) ∧
      Monotone fun raw => ((PopSizingPolicy.init .kHybrid (1/2) 1).apply (fun p _ => p) (f raw) 10).finalSize := by
  refine ⟨by decide +kernel, by decide +kernel, ?_⟩
  obtain ⟨f, hf, -, -, -, hsize⟩ := @gating_monotone id (fun p _ => p) [⟨0, 0⟩, ⟨1/2, 1/4⟩, ⟨1/2, 3/4⟩, ⟨1, 1⟩]
    (by decide) (by decide +kernel) (by decide +kernel)
  exact ⟨f, hf, (hsize .kHybrid (1/2) 1 10 ⟨fun p h0 h1 => ⟨h0, h1⟩, fun p q _ h _ => h⟩ (by norm_num)).1⟩

end StratForge
