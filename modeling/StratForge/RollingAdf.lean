import Mathlib.Data.Rat.BigOperators
import StratForge.Arith
import StratForge.GaussJordan
import StratForge.Fold

/-!
# The rolling ADF scores (`stats/rolling_per_bar.hpp`, `stats/adf.hpp`)

In exact arithmetic. The loop keeps the inverse of the window's X'X by two rank-one updates, and inverts X'X anew where
an update fails and after 512 steps. What an inversion that fails leaves is the inverse of another matrix, and the updates
after it keep what it has missed (`lostAt`): a window is scored from its own inverse exactly if nothing is lost
(`own_iff`).

Rows are as long as there are regressors, a constant, the level and `p` differences.
-/

namespace StratForge
namespace RollingAdf
open Matrix

/-- What is taken from the math library, and the map to p-values. -/
structure Maps where
  sqrt : ℚ → ℚ
  log : ℚ → ℚ
  log10 : ℚ → ℚ
  pvalue : ℚ → Nat → ℚ

/-- `subspan`. -/
def subspan (v : List ℚ) (start count : Nat) : List ℚ := (v.drop start).take count

def diffs (series : List ℚ) : List ℚ := (List.range (series.length - 1)).map fun t => series.getD (t + 1) 0 - series.getD t 0

abbrev Row (p : Nat) := Fin (p + 2) → ℚ

abbrev Square (p : Nat) := Matrix (Fin (p + 2)) (Fin (p + 2)) ℚ

def buildRow (p : Nat) (window dy : List ℚ) (obs : Nat) : Row p := fun c =>
  if c.val = 0 then 1 else if c.val = 1 then window.getD (p + obs) 0 else dy.getD (p + obs - (c.val - 1)) 0

def threshold : ℚ := 1e-14

/-! ### `adf_test` -/

/-- A regression that went through: the coefficient of the level, its standard error if it is a number. -/
structure Ols where
  gamma : ℚ
  se : Option ℚ
  rss : ℚ
  n : Nat
  k : Nat

def ols (maps : Maps) (p n : Nat) (row : Nat → Row p) (y : Nat → ℚ) : Option Ols :=
  if n ≤ p + 2 then none
  else do
    let inverse ← GaussJordan.invert threshold (∑ r ∈ Finset.range n, vecMulVec (row r) (row r))
    let beta := inverse *ᵥ ∑ r ∈ Finset.range n, y r • row r
    let rss := ∑ r ∈ Finset.range n, (y r - row r ⬝ᵥ beta) ^ 2
    let v := rss / (n - (p + 2) : Nat) * inverse 1 1
    return { gamma := beta 1, se := if 0 < v then some (maps.sqrt v) else none, rss, n, k := p + 2 }

def runRegression (maps : Maps) (series : List ℚ) (p : Nat) : Option Ols :=
  if series.length < p + 3 then none
  else ols maps p (series.length - 1 - p) (buildRow p series (diffs series)) fun r => (diffs series).getD (p + r) 0

/-- `ceil(12 (nobs / 100)^(1/4))`. -/
def schwertMaxLag (nobs : Nat) : Nat :=
  if nobs < 4 then 0 else ((List.range (nobs + 13)).find? fun m => 20736 * nobs ≤ 100 * m ^ 4).getD 0

/-- The best lag count so far, with its AIC and its regression. -/
def betterLag (maps : Maps) (series : List ℚ) (best : Option (ℚ × Nat × Ols)) (p : Nat) : Option (ℚ × Nat × Ols) :=
  match runRegression maps series p with
  | none => best
  | some reg =>
    if reg.rss ≤ 0 then best
    else
      let aic := reg.n * maps.log (reg.rss / reg.n) + 2 * reg.k
      match best with
      | some b => if aic < b.1 then some (aic, p, reg) else best
      | none => some (aic, p, reg)

def bestLag (maps : Maps) (series : List ℚ) : Option (ℚ × Nat × Ols) :=
  (List.range (schwertMaxLag series.length + 1)).foldl (betterLag maps series) none

/-- The lag count and the p-value, if it is a number. -/
def adfTest (maps : Maps) (series : List ℚ) : Nat × Option ℚ :=
  if series.length < 4 then (0, none)
  else
    match bestLag maps series with
    | none => (0, none)
    | some (_, p, reg) => (p, reg.se.bind fun se => if 0 < se then some (maps.pvalue (reg.gamma / se) reg.n) else none)

/-! ### `rolling_adf_scores` -/

def score (maps : Maps) (pval : ℚ) : Option ℚ := if 0 < pval then some (-maps.log10 (max pval 1e-8)) else none

/-- What the loop keeps. -/
structure Rolling (p : Nat) where
  xtxInv : Square p
  xty : Row p
  sumYY : ℚ
  stepsSinceBootstrap : Nat

section
variable (series : List ℚ) (lookback p : Nat)

def nEff : Nat := lookback - 1 - p

def window (winStart : Nat) : List ℚ := subspan series winStart lookback

def dyWin (winStart : Nat) : List ℚ := subspan (diffs series) winStart (lookback - 1)

def rowAt (winStart obs : Nat) : Row p := buildRow p (window series lookback winStart) (dyWin series lookback winStart) obs

def yAt (winStart obs : Nat) : ℚ := (dyWin series lookback winStart).getD (p + obs) 0

def xtx (winStart : Nat) : Square p :=
  ∑ r ∈ Finset.range (nEff lookback p), vecMulVec (rowAt series lookback p winStart r) (rowAt series lookback p winStart r)

def xty (winStart : Nat) : Row p :=
  ∑ r ∈ Finset.range (nEff lookback p), yAt series lookback p winStart r • rowAt series lookback p winStart r

def sumYY (winStart : Nat) : ℚ := ∑ r ∈ Finset.range (nEff lookback p), yAt series lookback p winStart r * yAt series lookback p winStart r

/-- X'y and y'y are replaced in any case, the inverse if there is one. -/
def bootstrap (winStart : Nat) (s : Rolling p) : Rolling p :=
  { s with xtxInv := (GaussJordan.invert threshold (xtx series lookback p winStart)).getD s.xtxInv,
           xty := xty series lookback p winStart, sumYY := sumYY series lookback p winStart, stepsSinceBootstrap := 0 }

/-- The degrees of freedom wrap around. -/
def emitScore (maps : Maps) (s : Rolling p) : Option ℚ :=
  let beta := s.xtxInv *ᵥ s.xty
  let rss := s.sumYY - beta ⬝ᵥ s.xty
  if ¬ 0 < rss then none
  else
    let sigma2 := rss / ((nEff lookback p + 2 ^ 64 - (p + 2)) % 2 ^ 64 : Nat)
    let varGamma := sigma2 * s.xtxInv 1 1
    if ¬ 0 < varGamma then none
    else score maps (maps.pvalue (beta 1 / maps.sqrt varGamma) (nEff lookback p))

def rowOld (winStart : Nat) : Row p := rowAt series lookback p (winStart - 1) 0

def rowNew (winStart : Nat) : Row p := rowAt series lookback p winStart (nEff lookback p - 1)

/-- The rows that leave and enter go into X'y and y'y. -/
def shift (winStart : Nat) (s : Rolling p) : Rolling p :=
  let yOld := yAt series lookback p (winStart - 1) 0
  let yNew := yAt series lookback p winStart (nEff lookback p - 1)
  { s with xty := s.xty + (yNew • rowNew series lookback p winStart - yOld • rowOld series lookback p winStart),
           sumYY := s.sumYY + (yNew * yNew - yOld * yOld), stepsSinceBootstrap := s.stepsSinceBootstrap + 1 }

/-- A turn of the loop: the window starts at `winStart` now. -/
def slide (winStart : Nat) (s : Rolling p) : Rolling p :=
  if 512 ≤ s.stepsSinceBootstrap + 1 then bootstrap series lookback p winStart s
  else
    let s := shift series lookback p winStart s
    match RankOne.update threshold s.xtxInv (rowOld series lookback p winStart) (-1) with
    | none => bootstrap series lookback p winStart s
    | some removed =>
      match RankOne.update threshold removed (rowNew series lookback p winStart) 1 with
      | none => bootstrap series lookback p winStart { s with xtxInv := removed }
      | some added => { s with xtxInv := added }

/-- What the score of a window is emitted from. -/
def stateAt : Nat → Rolling p
  | 0 => bootstrap series lookback p 0 { xtxInv := 0, xty := 0, sumYY := 0, stepsSinceBootstrap := 0 }
  | w + 1 => slide series lookback p (w + 1) (stateAt w)

end

/-- The lag count, chosen on the first window. -/
def lags (maps : Maps) (series : List ℚ) (lookback : Nat) : Nat := (adfTest maps (series.take lookback)).1

/-- One score for each bar of the series. -/
def rollingAdfScores (maps : Maps) (series : List ℚ) (lookback : Nat) : List ℚ :=
  let p := lags maps series lookback
  if series.length < lookback ∨ lookback < 4 ∨ lookback < p + 3 then .replicate series.length 0
  else
    (List.range series.length).map fun bar =>
      if bar + 1 < lookback then 0
      else
        let w := bar + 1 - lookback
        if (GaussJordan.invert threshold (xtx series lookback p 0)).isSome then
          (emitScore lookback p maps (stateAt series lookback p w)).getD 0
        else ((adfTest maps (window series lookback w)).2.bind (score maps)).getD 0

/-! ### Windows slide -/

theorem getD_subspan {v : List ℚ} {start count i : Nat} (hi : i < count) :
    (subspan v start count).getD i 0 = v.getD (start + i) 0 := by
  rw [List.getD_eq_getElem?_getD, List.getD_eq_getElem?_getD, subspan, List.getElem?_take_of_lt hi, List.getElem?_drop]

theorem sum_slide {M : Type*} [AddCommGroup M] (f : Nat → M) (w n : Nat) :
    ∑ r ∈ Finset.range n, f (w + 1 + r) = ∑ r ∈ Finset.range n, f (w + r) + (f (w + n) - f w) := by
  have hlast := Finset.sum_range_succ (fun r => f (w + r)) n
  have hfirst := Finset.sum_range_succ' (fun r => f (w + r)) n
  rw [hlast] at hfirst
  rw [add_zero] at hfirst
  rw [← add_sub_assoc, hfirst, add_sub_cancel_right]
  exact Finset.sum_congr rfl fun r _ => congrArg f (by omega)

section
variable {series : List ℚ} {lookback p w : Nat}

theorem rowAt_eq {obs : Nat} (h : obs < nEff lookback p) :
    rowAt series lookback p w obs = buildRow p series (diffs series) (w + obs) := by
  unfold nEff at h
  funext c
  unfold rowAt buildRow window dyWin
  split_ifs with h0 h1
  · rfl
  · rw [getD_subspan (by omega)]
    congr 1
    omega
  · have := c.isLt
    rw [getD_subspan (by omega)]
    congr 1
    omega

theorem yAt_eq {obs : Nat} (h : obs < nEff lookback p) :
    yAt series lookback p w obs = (diffs series).getD (p + (w + obs)) 0 := by
  unfold nEff at h
  unfold yAt dyWin
  rw [getD_subspan (by omega)]
  congr 1
  omega

/-- A sum over the rows of a window, and over those of the next one. -/
theorem sum_window {M : Type*} [AddCommGroup M] (f : Row p → ℚ → M) (hn : 0 < nEff lookback p) :
    ∑ r ∈ Finset.range (nEff lookback p), f (rowAt series lookback p (w + 1) r) (yAt series lookback p (w + 1) r) =
      ∑ r ∈ Finset.range (nEff lookback p), f (rowAt series lookback p w r) (yAt series lookback p w r) +
        (f (rowNew series lookback p (w + 1)) (yAt series lookback p (w + 1) (nEff lookback p - 1)) -
          f (rowOld series lookback p (w + 1)) (yAt series lookback p w 0)) := by
  let g : Nat → M := fun t => f (buildRow p series (diffs series) t) ((diffs series).getD (p + t) 0)
  have hg : ∀ w, ∀ r < nEff lookback p, f (rowAt series lookback p w r) (yAt series lookback p w r) = g (w + r) :=
    fun w r hr => by rw [rowAt_eq hr, yAt_eq hr]
  rw [Finset.sum_congr rfl fun r hr => hg (w + 1) r (Finset.mem_range.1 hr),
    Finset.sum_congr rfl fun r hr => hg w r (Finset.mem_range.1 hr), sum_slide, rowNew, rowOld,
    hg (w + 1) _ (by omega), show w + 1 - 1 = w from rfl, hg w 0 hn]
  congr 3
  omega

theorem xtx_succ (hn : 0 < nEff lookback p) : xtx series lookback p (w + 1) = xtx series lookback p w +
    (vecMulVec (rowNew series lookback p (w + 1)) (rowNew series lookback p (w + 1)) -
      vecMulVec (rowOld series lookback p (w + 1)) (rowOld series lookback p (w + 1))) :=
  sum_window (fun row _ => vecMulVec row row) hn

theorem xty_succ (hn : 0 < nEff lookback p) : xty series lookback p (w + 1) = xty series lookback p w +
    (yAt series lookback p (w + 1) (nEff lookback p - 1) • rowNew series lookback p (w + 1) -
      yAt series lookback p w 0 • rowOld series lookback p (w + 1)) :=
  sum_window (fun row y => y • row) hn

theorem sumYY_succ (hn : 0 < nEff lookback p) : sumYY series lookback p (w + 1) = sumYY series lookback p w +
    (yAt series lookback p (w + 1) (nEff lookback p - 1) * yAt series lookback p (w + 1) (nEff lookback p - 1) -
      yAt series lookback p w 0 * yAt series lookback p w 0) :=
  sum_window (fun _ y => y * y) hn

theorem xtx_transpose : (xtx series lookback p w)ᵀ = xtx series lookback p w := by
  unfold xtx
  rw [transpose_sum]
  exact Finset.sum_congr rfl fun r _ => transpose_vecMulVec _ _

end

/-! ### What the stored inverse is the inverse of -/

section
variable (series : List ℚ) (lookback p : Nat)

/-- Whether elimination finds its pivots. -/
def Inverts (winStart : Nat) : Prop := (GaussJordan.invert threshold (xtx series lookback p winStart)).isSome

instance (winStart : Nat) : Decidable (Inverts series lookback p winStart) := inferInstanceAs (Decidable (_ = true))

/-- What an inversion leaves out: nothing if it goes through. -/
def leftOut (winStart : Nat) (rows : Square p) : Square p := if Inverts series lookback p winStart then 0 else rows

/-- The stored inverse is that of X'X with this added: a turn that fails keeps the old row or misses the new one. -/
def lostAfter (winStart : Nat) (s : Rolling p) (lost : Square p) : Square p :=
  let old := vecMulVec (rowOld series lookback p winStart) (rowOld series lookback p winStart)
  let new := vecMulVec (rowNew series lookback p winStart) (rowNew series lookback p winStart)
  if 512 ≤ s.stepsSinceBootstrap + 1 then leftOut series lookback p winStart (lost + old - new)
  else
    match RankOne.update threshold s.xtxInv (rowOld series lookback p winStart) (-1) with
    | none => leftOut series lookback p winStart (lost + old - new)
    | some removed =>
      match RankOne.update threshold removed (rowNew series lookback p winStart) 1 with
      | none => leftOut series lookback p winStart (lost - new)
      | some _ => lost

def lostAt : Nat → Square p
  | 0 => 0
  | w + 1 => lostAfter series lookback p (w + 1) (stateAt series lookback p w) (lostAt w)

structure Keeps (winStart : Nat) (lost : Square p) (s : Rolling p) : Prop where
  symm : s.xtxInvᵀ = s.xtxInv
  inverse : (xtx series lookback p winStart + lost) * s.xtxInv = 1
  xty : s.xty = xty series lookback p winStart
  sumYY : s.sumYY = sumYY series lookback p winStart

/-- Scored from the window's own inverse, X'y and y'y. -/
structure Own (winStart : Nat) (s : Rolling p) : Prop where
  xtxInv : s.xtxInv = (xtx series lookback p winStart)⁻¹
  xty : s.xty = xty series lookback p winStart
  sumYY : s.sumYY = sumYY series lookback p winStart

end

section
variable {series : List ℚ} {lookback p w : Nat} {s : Rolling p} {lost : Square p}

theorem threshold_pos : 0 < threshold := by norm_num [threshold]

theorem bootstrap_keeps {rows : Square p} (hsymm : s.xtxInvᵀ = s.xtxInv)
    (hinverse : ¬ Inverts series lookback p w → (xtx series lookback p w + rows) * s.xtxInv = 1) :
    Keeps series lookback p w (leftOut series lookback p w rows) (bootstrap series lookback p w s) := by
  unfold leftOut
  split_ifs with h
  · obtain ⟨B, hB⟩ := Option.isSome_iff_exists.1 h
    have hleft := GaussJordan.mul_invert threshold_pos hB
    have hright := mul_eq_one_comm.1 hleft
    have hinv : (bootstrap series lookback p w s).xtxInv = B := by
      show Option.getD _ _ = _
      rw [hB, Option.getD_some]
    refine ⟨?_, ?_, rfl, rfl⟩
    · rw [hinv]
      have htranspose := congrArg transpose hright
      rw [transpose_mul, xtx_transpose, transpose_one] at htranspose
      calc Bᵀ = Bᵀ * (xtx series lookback p w * B) := by rw [hright, Matrix.mul_one]
        _ = B := by rw [← Matrix.mul_assoc, htranspose, Matrix.one_mul]
    · rw [hinv, add_zero, hright]
  · have hnone : GaussJordan.invert threshold (xtx series lookback p w) = none := by simpa [Inverts] using h
    have hinv : (bootstrap series lookback p w s).xtxInv = s.xtxInv := by
      show Option.getD _ _ = _
      rw [hnone, Option.getD_none]
    exact ⟨by rw [hinv, hsymm], by rw [hinv, hinverse h], rfl, rfl⟩

theorem Keeps.slide (hn : 0 < nEff lookback p) (h : Keeps series lookback p w lost s) :
    Keeps series lookback p (w + 1) (lostAfter series lookback p (w + 1) s lost) (slide series lookback p (w + 1) s) := by
  have hxtx := @xtx_succ series lookback p w hn
  have hkept : (xtx series lookback p (w + 1) + (lost + vecMulVec (rowOld series lookback p (w + 1)) (rowOld series lookback p (w + 1)) -
      vecMulVec (rowNew series lookback p (w + 1)) (rowNew series lookback p (w + 1)))) * s.xtxInv = 1 := by
    rw [hxtx]
    convert h.inverse using 2
    abel
  unfold RollingAdf.slide lostAfter
  dsimp only
  split_ifs with hrefresh
  · exact bootstrap_keeps h.symm fun _ => hkept
  · rw [show (shift series lookback p (w + 1) s).xtxInv = s.xtxInv from rfl]
    cases hold : RankOne.update threshold s.xtxInv (rowOld series lookback p (w + 1)) (-1) with
    | none => exact bootstrap_keeps h.symm fun _ => hkept
    | some removed =>
      obtain ⟨hremoved, hsymm⟩ := RankOne.update_mul threshold_pos h.symm h.inverse hold
      dsimp only
      cases hnew : RankOne.update threshold removed (rowNew series lookback p (w + 1)) 1 with
      | none =>
        refine bootstrap_keeps hsymm fun _ => ?_
        rw [hxtx]
        convert hremoved using 2
        rw [RankOne.add, neg_one_smul]
        abel
      | some added =>
        obtain ⟨hadded, hsymm⟩ := RankOne.update_mul threshold_pos hsymm hremoved hnew
        refine ⟨hsymm, ?_, ?_, ?_⟩
        · rw [hxtx]
          convert hadded using 2
          rw [RankOne.add, RankOne.add, neg_one_smul, one_smul]
          abel
        · rw [xty_succ hn, ← h.xty]
          rfl
        · rw [sumYY_succ hn, ← h.sumYY]
          rfl

theorem Inverts.isUnit (h : Inverts series lookback p w) : IsUnit (xtx series lookback p w) := by
  obtain ⟨B, hB⟩ := Option.isSome_iff_exists.1 h
  exact IsUnit.of_mul_eq_one B (mul_eq_one_comm.1 (GaussJordan.mul_invert threshold_pos hB))

theorem bootstrap_own (h : Inverts series lookback p w) : Own series lookback p w (bootstrap series lookback p w s) := by
  obtain ⟨B, hB⟩ := Option.isSome_iff_exists.1 h
  refine ⟨?_, rfl, rfl⟩
  show Option.getD _ _ = _
  rw [hB, Option.getD_some, inv_eq_left_inv (GaussJordan.mul_invert threshold_pos hB)]

/-- What every turn keeps. -/
theorem keeps_stateAt (hn : 0 < nEff lookback p) (hfirst : Inverts series lookback p 0) :
    ∀ w, Keeps series lookback p w (lostAt series lookback p w) (stateAt series lookback p w)
  | 0 => by
    have hkeeps := @bootstrap_keeps series lookback p 0 { xtxInv := 0, xty := 0, sumYY := 0, stepsSinceBootstrap := 0 } 0
      transpose_zero (fun h => absurd hfirst h)
    rwa [leftOut, if_pos hfirst] at hkeeps
  | w + 1 => (keeps_stateAt hn hfirst w).slide hn

theorem Keeps.own_iff (h : Keeps series lookback p w lost s) (hunit : IsUnit (xtx series lookback p w)) :
    Own series lookback p w s ↔ lost = 0 := by
  rw [isUnit_iff_isUnit_det] at hunit
  constructor
  · intro hown
    have hzero : lost * s.xtxInv = 0 := by
      have := h.inverse
      rwa [Matrix.add_mul, hown.xtxInv, mul_nonsing_inv _ hunit, ← hown.xtxInv, add_eq_left] at this
    calc lost = lost * (s.xtxInv * (xtx series lookback p w + lost)) := by rw [mul_eq_one_comm.1 h.inverse, Matrix.mul_one]
      _ = 0 := by rw [← Matrix.mul_assoc, hzero, Matrix.zero_mul]
  · rintro rfl
    refine ⟨?_, h.xty, h.sumYY⟩
    have hinverse := h.inverse
    rw [add_zero] at hinverse
    exact (inv_eq_right_inv hinverse).symm

/-- Nothing is lost while every window can be inverted. -/
theorem lostAt_eq_zero : ∀ {w}, (∀ w' ≤ w, Inverts series lookback p w') → lostAt series lookback p w = 0
  | 0, _ => rfl
  | w + 1, h => by
    have hlost := lostAt_eq_zero fun w' hw' => h w' (Nat.le_succ_of_le hw')
    unfold lostAt lostAfter leftOut
    dsimp only
    rw [if_pos (h (w + 1) le_rfl), if_pos (h (w + 1) le_rfl), hlost]
    split_ifs
    · rfl
    · cases RankOne.update threshold (stateAt series lookback p w).xtxInv (rowOld series lookback p (w + 1)) (-1) with
      | none => rfl
      | some removed =>
        dsimp only
        cases RankOne.update threshold removed (rowNew series lookback p (w + 1)) 1 <;> rfl

end

/-! ### The scores -/

section
variable {maps : Maps} {series : List ℚ} {lookback : Nat}

theorem runRegression_lt {p : Nat} {reg} (h : runRegression maps series p = some reg) : 2 * p + 3 < series.length := by
  unfold runRegression ols at h
  split_ifs at h
  omega

theorem betterLag_cases (best : Option (ℚ × Nat × Ols)) (p : Nat) :
    betterLag maps series best p = best ∨
      ∃ aic reg, betterLag maps series best p = some (aic, p, reg) ∧ runRegression maps series p = some reg := by
  unfold betterLag
  cases hreg : runRegression maps series p with
  | none => exact .inl rfl
  | some reg =>
    dsimp only
    split_ifs
    · exact .inl rfl
    · cases best with
      | none => exact .inr ⟨_, reg, rfl, rfl⟩
      | some b =>
        dsimp only
        split_ifs
        · exact .inr ⟨_, reg, rfl, rfl⟩
        · exact .inl rfl

/-- There are more observations than regressors. -/
theorem bestLag_lt {best} (h : bestLag maps series = some best) : 2 * best.2.1 + 3 < series.length :=
  Fold.foldl_ind (fun best : Option (ℚ × Nat × Ols) => ∀ b, best = some b → 2 * b.2.1 + 3 < series.length) _ none
    (fun _ h => (nomatch h)) (fun best p _ hbest b hb => by
      rcases betterLag_cases best p with heq | ⟨aic, reg, heq, hreg⟩
      · exact hbest b (heq ▸ hb)
      · obtain rfl := Option.some.inj (heq.symm.trans hb)
        exact runRegression_lt hreg) best h

theorem adfTest_lag (h : 4 ≤ series.length) : (adfTest maps series).1 + 3 ≤ series.length := by
  unfold adfTest
  rw [if_neg (not_lt.2 h)]
  cases hbest : bestLag maps series with
  | none => exact show 0 + 3 ≤ _ by omega
  | some best =>
    have := bestLag_lt hbest
    show best.2.1 + 3 ≤ _
    omega

variable (maps series lookback) in
/-- The score of a window is emitted from its own inverse, X'y and y'y, with the lag count of the first window. -/
structure ScoredFromOwn (winStart : Nat) : Prop where
  own : Own series lookback (lags maps series lookback) winStart
    (stateAt series lookback (lags maps series lookback) winStart)
  emitted : (rollingAdfScores maps series lookback)[winStart + lookback - 1]? =
    some ((emitScore lookback (lags maps series lookback) maps
      (stateAt series lookback (lags maps series lookback) winStart)).getD 0)

/-- Every window with an invertible X'X is scored from its own inverse exactly if elimination goes through on the first
window, and nothing is lost at such a window. -/
theorem scored_from_own_iff (maps : Maps) {series : List ℚ} {lookback : Nat} (hlook : 4 ≤ lookback)
    (hlen : lookback ≤ series.length) (hfirst : IsUnit (xtx series lookback (lags maps series lookback) 0)) :
    (∀ w, w + lookback ≤ series.length → IsUnit (xtx series lookback (lags maps series lookback) w) →
      ScoredFromOwn maps series lookback w) ↔
    Inverts series lookback (lags maps series lookback) 0 ∧
      ∀ w, w + lookback ≤ series.length → IsUnit (xtx series lookback (lags maps series lookback) w) →
        lostAt series lookback (lags maps series lookback) w = 0 := by
  have hlag : lags maps series lookback + 3 ≤ lookback := by
    have htake : (series.take lookback).length = lookback := by rw [List.length_take, min_eq_left hlen]
    have hlag : lags maps series lookback + 3 ≤ (series.take lookback).length := adfTest_lag (by omega)
    rwa [htake] at hlag
  have hemitted : Inverts series lookback (lags maps series lookback) 0 → ∀ w, w + lookback ≤ series.length →
      (rollingAdfScores maps series lookback)[w + lookback - 1]? =
        some ((emitScore lookback (lags maps series lookback) maps
          (stateAt series lookback (lags maps series lookback) w)).getD 0) := by
    intro hinv w hw
    have hbar : w + lookback - 1 < series.length := by omega
    unfold rollingAdfScores
    dsimp only
    rw [if_neg (by omega), List.getElem?_map, List.getElem?_range hbar, Option.map_some, if_neg (by omega),
      if_pos (show Option.isSome _ = true from hinv), show w + lookback - 1 + 1 - lookback = w by omega]
  generalize hp : lags maps series lookback = p at *
  have hn : 0 < nEff lookback p := by unfold nEff; omega
  constructor
  · intro h
    have hinv : Inverts series lookback p 0 := by
      by_contra hnot
      have hown := (h 0 (by omega) hfirst).own.xtxInv
      rw [hp] at hown
      have hnone : GaussJordan.invert threshold (xtx series lookback p 0) = none := by simpa [Inverts] using hnot
      have hzero : (stateAt series lookback p 0).xtxInv = 0 := by
        show Option.getD _ _ = _
        rw [hnone, Option.getD_none]
      have hone := mul_nonsing_inv _ ((isUnit_iff_isUnit_det _).1 hfirst)
      rw [← hown, hzero, Matrix.mul_zero] at hone
      exact zero_ne_one (congrFun (congrFun hone 0) 0)
    refine ⟨hinv, fun w hw hunit => ?_⟩
    have hown := (h w hw hunit).own
    rw [hp] at hown
    exact ((keeps_stateAt hn hinv w).own_iff hunit).1 hown
  · rintro ⟨hinv, hlost⟩ w hw hunit
    refine ⟨?_, ?_⟩
    · rw [hp]
      exact ((keeps_stateAt hn hinv w).own_iff hunit).2 (hlost w hw hunit)
    · rw [hp]
      exact hemitted hinv w hw

end

/-! ### Prices that stand still -/

/-- Every p-value is a tenth. -/
def tenth : Maps := { sqrt := id, log := fun _ => 0, log10 := fun _ => -1, pvalue := fun _ _ => 1 / 10 }

def moving : List ℚ := [0, 1, 3, 2, 5]

/-- Three bars in the middle have one price. -/
def still : List ℚ := [0, 1, 2, 2, 2, 0, 2]

/-- While the price moves, every window has its own inverse. -/
theorem scored_while_moving : ScoredFromOwn tenth moving 4 0 ∧ ScoredFromOwn tenth moving 4 1 := by
  have hlag : lags tenth moving 4 = 0 := by decide +kernel
  have hinverts : ∀ w ≤ 1, Inverts moving 4 (lags tenth moving 4) w := by
    rw [hlag]
    decide +kernel
  have hscored := (scored_from_own_iff tenth (by decide) (by decide) (hinverts 0 (by decide)).isUnit).2
    ⟨hinverts 0 (by decide), fun w hw _ => lostAt_eq_zero fun w' hw' =>
      hinverts w' (by have : w + 4 ≤ 5 := hw; omega)⟩
  exact ⟨hscored 0 (by decide) (hinverts 0 (by decide)).isUnit, hscored 1 (by decide) (hinverts 1 (by decide)).isUnit⟩

/-- The window after the still ones can be inverted again. Its own score is one, and it is not scored. -/
theorem still_unscored :
    IsUnit (xtx still 4 (lags tenth still 4) 0) ∧ IsUnit (xtx still 4 (lags tenth still 4) 3) ∧
      (∃ s, Own still 4 (lags tenth still 4) 3 s ∧
        emitScore 4 (lags tenth still 4) tenth s = some 1) ∧
      (rollingAdfScores tenth still 4)[6]? = some 0 := by
  have hlag : lags tenth still 4 = 0 := by decide +kernel
  have hfirst : Inverts still 4 0 0 := by decide +kernel
  have hlater : Inverts still 4 0 3 := by decide +kernel
  rw [hlag]
  exact ⟨hfirst.isUnit, hlater.isUnit, ⟨_, bootstrap_own (s := ⟨0, 0, 0, 0⟩) hlater, by decide +kernel⟩, by decide +kernel⟩

end RollingAdf
end StratForge
