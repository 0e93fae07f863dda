import StratForge.Access
import StratForge.AdfPValue
import StratForge.PopFeatures
import StratForge.ShermanMorrison

/-!
# The accesses of the rolling ADF scores (`stats/rolling_per_bar.hpp`, `stats/adf.hpp`)

For any arithmetic. The windows, the difference series and the scores are read and written without a check, and the unsigned
differences are taken without one: an access outside, or a difference that wraps around, is none here, and so is then the
call. There is none (`scores_in_range`): the regression that `adf_test` accepts on the first window has more observations than
regressors, and if it accepts none the lag count is 0.

Matrices and rows are as large as there are regressors, a constant, the level and `p` differences.
-/

namespace StratForge
namespace RollingPerBar
open Access (minus subspan)
open Floating (nan isFinite)

/-- What is taken from the math library. `ceil` rounds up to an `int`. -/
structure Maps (α : Type) where
  log : α → α
  log10 : α → α
  pow : α → α → α
  ceil : α → Int
  infinity : α

variable {α : Type} [Arith α] [Floating α]

/-! ### Inversion -/

section
variable {k : Nat}

/-- The columns of the two halves of an augmented matrix. -/
def left (j : Fin k) : Fin (2 * k) := ⟨j.val, by omega⟩

def right (j : Fin k) : Fin (2 * k) := ⟨k + j.val, by omega⟩

def augment (xtx : RowMajor α k k) : RowMajor α k (2 * k) :=
  (List.finRange k).foldl (fun A i =>
    ((List.finRange k).foldl (fun A j => A.setEntry i (left j) (xtx.entry i j)) A).setEntry i (right i) 1) (.replicate _ 0)

/-- The row from `i` down with the largest entry of column `i`, and the size of that entry. -/
def pivot (A : RowMajor α k (2 * k)) (i : Fin k) : Fin k × α :=
  ((List.finRange k).filter (i < ·)).foldl (fun best r =>
    let v := Arith.abs (A.entry r (left i))
    if best.2 < v then (r, v) else best) (i, Arith.abs (A.entry i (left i)))

def swapRows (A : RowMajor α k (2 * k)) (i piv : Fin k) : RowMajor α k (2 * k) :=
  (List.finRange (2 * k)).foldl (fun A c => (A.setEntry i c (A.entry piv c)).setEntry piv c (A.entry i c)) A

def eliminate (A : RowMajor α k (2 * k)) (i : Fin k) : Option (RowMajor α k (2 * k)) :=
  let (piv, pivAbs) := pivot A i
  if pivAbs < 1e-14 then none
  else
    let A := if piv ≠ i then swapRows A i piv else A
    let invPiv := 1 / A.entry i (left i)
    let A := RowMajor.sweepRow (fun _ x => x * invPiv) A i
    some ((List.finRange k).foldl (fun A r =>
      if r = i then A
      else
        let f := A.entry r (left i)
        if f == 0 then A else RowMajor.sweepRow (fun c x => x - f * A.entry i c) A r) A)

/-- Gauss-Jordan with partial pivoting; the right half of the result is the inverse. -/
def gaussJordan (xtx : RowMajor α k k) : Option (RowMajor α k (2 * k)) := (List.finRange k).foldlM eliminate (augment xtx)

end

/-! ### `adf_test` -/

structure OlsResult (α : Type) where
  beta : List α := []
  se : List α := []
  rss : α
  n : Nat
  k : Nat
  ok : Bool

/-- The regression of `y` on the rows of `X`. -/
def ols {k : Nat} (X : List (Vector α k)) (y : List α) (n : Nat) : OlsResult α :=
  let out : OlsResult α := { rss := nan, n, k, ok := false }
  if n ≤ k ∨ k = 0 then out
  else
    let product (i j : Fin k) : α := X.foldl (fun s x => s + x.get i * x.get j) 0
    let xtx : RowMajor α k k := RowMajor.sweep (fun i j _ => if i ≤ j then product i j else product j i) (.replicate _ 0)
    let xty : Vector α k := .ofFn fun i => (X.zip y).foldl (fun s (x, yr) => s + x.get i * yr) 0
    match gaussJordan xtx with
    | none => out
    | some A =>
      let beta : Vector α k := .ofFn fun i => accumulate fun j => A.entry i (right j) * xty.get j
      let rss := (X.zip y).foldl (fun rss (x, yr) =>
        let e := yr - accumulate fun j => x.get j * beta.get j
        rss + e * e) 0
      let sigma2 := rss / Arith.ofCount (n - k)
      let se : Vector α k := .ofFn fun j =>
        let v := sigma2 * A.entry j (right j)
        if 0 < v then Floating.sqrt v else nan
      { out with beta := beta.toList, se := se.toList, rss, ok := true }

def diffs (series : List α) : Option (List α) :=
  (List.range (series.length - 1)).mapM fun t => do return (← series[t + 1]?) - (← series[t]?)

/-- `static_cast<int>`. -/
def toInt32 (n : Nat) : Int := (n : Int).bmod (2 ^ 32)

/-- The row of a regression on the whole series. -/
def regressors (series dy : List α) (p r : Nat) : Option (Vector α (p + 2)) :=
  Vector.ofFnM fun c => if c.val = 0 then some 1 else if c.val = 1 then series[p + r]? else dy[p - (c.val - 1) + r]?

/-- Where there are too few observations, only `ok` and `rss` are set. -/
def runRegression (series : List α) (p : Nat) : Option (OlsResult α) :=
  if toInt32 series.length < p + 3 then some { rss := nan, n := 0, k := 0, ok := false }
  else do
    let n ← minus (series.length - 1) p
    let dy ← diffs series
    let y ← (List.range n).mapM fun r => dy[p + r]?
    let X ← (List.range n).mapM fun r => regressors series dy p r
    return ols X y n

def schwertMaxLag (maps : Maps α) (nobs : Nat) : Int :=
  if nobs < 4 then 0 else maps.ceil (12.0 * maps.pow (Arith.ofCount nobs / 100.0) 0.25)

/-- The best lag count so far and its regression, after one more lag count. -/
def betterLag (maps : Maps α) (series : List α) (best : α × Option (Nat × OlsResult α)) (p : Nat) :
    Option (α × Option (Nat × OlsResult α)) := do
  let reg ← runRegression series p
  if !reg.ok || decide (reg.rss ≤ 0) then return best
  let aic := Arith.ofCount reg.n * maps.log (reg.rss / Arith.ofCount reg.n) + 2.0 * Arith.ofCount reg.k
  return if aic < best.1 then (aic, some (p, reg)) else best

def bestLag (maps : Maps α) (series : List α) (maxLags : Int) : Option (Option (Nat × OlsResult α)) :=
  if maxLags ≤ 0 then do
    let best ← (List.range (schwertMaxLag maps series.length + 1).toNat).foldlM (betterLag maps series) (maps.infinity, none)
    return best.2
  else do
    let reg ← runRegression series maxLags.toNat
    return if reg.ok then some (maxLags.toNat, reg) else none

structure AdfResult (α : Type) where
  statistic : α
  pValue : α
  lags : Int

def adfTest (maps : Maps α) (series : List α) (maxLags : Int) : Option (AdfResult α) :=
  if series.length < 4 then some ⟨nan, nan, maxLags⟩
  else do
    match ← bestLag maps series maxLags with
    | none => return ⟨nan, nan, maxLags⟩
    | some (p, reg) =>
      let gamma ← reg.beta[1]?
      let se ← reg.se[1]?
      if !decide (0 < se) then return ⟨nan, nan, p⟩
      let tstat := gamma / se
      return ⟨tstat, Adf.tstatToPvalue tstat reg.n, p⟩

/-! ### `rolling_adf_scores` -/

def buildRow (window dy : List α) (p obs : Nat) : Option (Vector α (p + 2)) :=
  Vector.ofFnM fun c => if c.val = 0 then some 1 else if c.val = 1 then window[p + obs]? else Access.readBack dy (p + obs) (c.val - 1)

/-- What the loop keeps. -/
structure Rolling (α : Type) (p : Nat) where
  xtxInv : RowMajor α (p + 2) (p + 2)
  xty : Vector α (p + 2)
  sumYY : α
  perBarScores : List α
  stepsSinceBootstrap : Nat

def score (maps : Maps α) (pval : α) : α := -maps.log10 (Arith.max pval 1e-8)

section
variable (maps : Maps α) (series dyFull : List α) (lookback p nEff : Nat)

/-- X'X, X'y and y'y, with one more observation. -/
def observe (window dyWin : List α) (sums : RowMajor α (p + 2) (p + 2) × Vector α (p + 2) × α) (r : Nat) :
    Option (RowMajor α (p + 2) (p + 2) × Vector α (p + 2) × α) := do
  let row ← buildRow window dyWin p r
  let y ← dyWin[p + r]?
  let (xtx, xty, sumYY) := sums
  return (xtx.sweep fun i j x => x + row.get i * row.get j, .ofFn fun i => xty.get i + row.get i * y, sumYY + y * y)

/-- Whether X'X has been inverted; X'y and y'y are replaced in any case. -/
def bootstrap (winStart : Nat) (s : Rolling α p) : Option (Bool × Rolling α p) := do
  let window ← subspan series winStart lookback
  let dyWin ← subspan dyFull winStart (← minus lookback 1)
  let (xtx, xty, sumYY) ← (List.range nEff).foldlM (observe p window dyWin) (.replicate _ 0, .replicate _ 0, 0)
  let s := { s with xty, sumYY }
  match gaussJordan xtx with
  | none => return (false, s)
  | some A => return (true, { s with xtxInv := s.xtxInv.sweep fun i j _ => A.entry i (right j) })

/-- `n_eff - k`, which must not be 0: it divides. -/
def freedom (nEff k : Nat) : Option Nat := (minus nEff k).filter (0 < ·)

/-- The column of the lagged level. -/
def level (p : Nat) : Fin (p + 2) := ⟨1, Nat.one_lt_succ_succ p⟩

def emitScore (barIdx : Nat) (s : Rolling α p) : Option (Rolling α p) := do
  let beta : Vector α (p + 2) := .ofFn fun i => accumulate fun j => s.xtxInv.entry i j * s.xty.get j
  let gamma := beta.get (level p)
  let betaXty := accumulate fun j => beta.get j * s.xty.get j
  let rss := s.sumYY - betaXty
  if !decide (0 < rss) then return s
  let sigma2 := rss / Arith.ofCount (← freedom nEff (p + 2))
  let varGamma := sigma2 * s.xtxInv.entry (level p) (level p)
  if !decide (0 < varGamma) then return s
  let pval := Adf.tstatToPvalue (gamma / Floating.sqrt varGamma) nEff
  if isFinite pval && decide (0 < pval) then
    return { s with perBarScores := ← Access.write s.perBarScores barIdx (score maps pval) }
  return s

/-- The batch test of a window that ends at bar `i`. -/
def batchScore (scores : List α) (i : Nat) : Option (List α) := do
  let window ← subspan series (← minus i lookback) lookback
  let adf ← adfTest maps window 0
  if isFinite adf.pValue && decide (0 < adf.pValue) then Access.write scores (← minus i 1) (score maps adf.pValue)
  else return scores

/-- The row that leaves the window and its difference, and those that enter. -/
def exchanged (winStart : Nat) : Option ((Vector α (p + 2) × α) × (Vector α (p + 2) × α)) := do
  let window ← subspan series winStart lookback
  let dyWin ← subspan dyFull winStart (← minus lookback 1)
  let prevStart ← minus winStart 1
  let prevWindow ← subspan series prevStart lookback
  let prevDy ← subspan dyFull prevStart (← minus lookback 1)
  let rowOld ← buildRow prevWindow prevDy p 0
  let yOld ← prevDy[p]?
  let row ← buildRow window dyWin p (← minus nEff 1)
  let yNew ← dyWin[← minus (p + nEff) 1]?
  return ((rowOld, yOld), (row, yNew))

/-- The sums and the inverse after that, and whether both updates of the inverse went through. -/
def replaceRow (s : Rolling α p) (old new : Vector α (p + 2) × α) : Bool × Rolling α p :=
  let (rowOld, yOld) := old
  let (row, yNew) := new
  let s := { s with xty := .ofFn fun j => s.xty.get j + (row.get j * yNew - rowOld.get j * yOld),
                    sumYY := s.sumYY + (yNew * yNew - yOld * yOld) }
  let (removed, xtxInv) := shermanMorrisonUpdate s.xtxInv rowOld (-1)
  let (ok, xtxInv) := if removed then shermanMorrisonUpdate xtxInv row 1 else (false, xtxInv)
  (ok, { s with xtxInv })

def bootstrapAndEmit (winStart barIdx : Nat) (s : Rolling α p) : Option (Rolling α p) := do
  let (_, s) ← bootstrap series dyFull lookback p nEff winStart s
  emitScore maps p nEff barIdx { s with stepsSinceBootstrap := 0 }

/-- A turn of the loop: the window starts at `winStart` now. -/
def slide (s : Rolling α p) (winStart : Nat) : Option (Rolling α p) := do
  let barIdx ← minus (winStart + lookback) 1
  let s := { s with stepsSinceBootstrap := s.stepsSinceBootstrap + 1 }
  if 512 ≤ s.stepsSinceBootstrap then bootstrapAndEmit maps series dyFull lookback p nEff winStart barIdx s
  else
    let (old, new) ← exchanged series dyFull lookback p nEff winStart
    let (ok, s) := replaceRow p s old new
    if ok then emitScore maps p nEff barIdx s
    else bootstrapAndEmit maps series dyFull lookback p nEff winStart barIdx s

end

/-- The lag count of the first window. -/
def lags (maps : Maps α) (series : List α) (lookback : Nat) : Option Nat := do
  let firstWindow ← subspan series 0 lookback
  return (← adfTest maps firstWindow 0).lags.toNat

/-- One score for each bar of the series. -/
def rollingAdfScores (maps : Maps α) (series : List α) (lookback : Nat) : Option (List α) :=
  let n := series.length
  let scores : List α := .replicate n 0
  if n < lookback ∨ lookback < 4 then some scores
  else do
    let p ← lags maps series lookback
    if lookback < p + 3 then return scores
    let nEff ← minus (← minus lookback 1) p
    let dyFull ← diffs series
    let (ok, s) ← bootstrap series dyFull lookback p nEff 0
      { xtxInv := .replicate _ 0, xty := .replicate _ 0, sumYY := 0, perBarScores := scores, stepsSinceBootstrap := 0 }
    if !ok then (List.range' lookback (n + 1 - lookback)).foldlM (batchScore maps series lookback) s.perBarScores
    else
      let s ← emitScore maps p nEff (← minus lookback 1) s
      let s ← (List.range' 1 (n - lookback)).foldlM (slide maps series dyFull lookback p nEff) s
      return s.perBarScores

/-! ### Regressions -/

theorem toInt32_le (n : Nat) : toInt32 n ≤ n := by
  unfold toInt32 Int.bmod
  dsimp only
  split_ifs <;> omega

omit [Floating α] in
theorem exists_diffs (series : List α) : ∃ dy, diffs series = some dy ∧ dy.length = series.length - 1 := by
  have hread : ∀ t < series.length, series[t]? = some (series.getD t 0) := fun t ht => by
    rw [List.getD_eq_getElem?_getD, List.getElem?_eq_getElem ht, Option.getD_some]
  refine ⟨(List.range (series.length - 1)).map fun t => series.getD (t + 1) 0 - series.getD t 0, ?_, by simp⟩
  refine Access.mapM_eq_some fun t ht => ?_
  have ht := List.mem_range.1 ht
  rw [hread (t + 1) (by omega), hread t (by omega)]
  rfl

theorem ols_ok {k n : Nat} {X : List (Vector α k)} {y : List α} (h : (ols X y n).ok = true) :
    k < n ∧ (ols X y n).beta.length = k ∧ (ols X y n).se.length = k := by
  unfold ols at h ⊢
  dsimp only at h ⊢
  split_ifs at h ⊢ with hsmall
  split at h
  · cases h
  · exact ⟨by omega, by simp, by simp⟩

/-- A regression that goes through has more observations than regressors, and a coefficient of the level. -/
structure Admissible (series : List α) (p : Nat) (reg : OlsResult α) : Prop where
  freedom : 2 * p + 3 < series.length
  beta : 1 < reg.beta.length
  se : 1 < reg.se.length

theorem exists_runRegression (series : List α) (p : Nat) :
    ∃ reg, runRegression series p = some reg ∧ (reg.ok = true → Admissible series p reg) := by
  unfold runRegression
  split_ifs with hfew
  · exact ⟨_, rfl, fun h => nomatch h⟩
  have hlong : p + 3 ≤ series.length := by
    have := toInt32_le series.length
    omega
  obtain ⟨dy, hdy, hlen⟩ := exists_diffs series
  have hy : ((List.range (series.length - 1 - p)).mapM fun r => dy[p + r]?).isSome := Access.mapM_isSome.2 fun r hr => by
    have := List.mem_range.1 hr
    rw [Access.read_isSome]
    omega
  have hX : ((List.range (series.length - 1 - p)).mapM fun r => regressors series dy p r).isSome := Access.mapM_isSome.2 fun r hr => by
    have := List.mem_range.1 hr
    refine Option.isSome_iff_exists.2 (Access.exists_ofFnM fun c => ?_)
    split_ifs
    · rfl
    · rw [Access.read_isSome]
      omega
    · rw [Access.read_isSome]
      omega
  obtain ⟨y, hy⟩ := Option.isSome_iff_exists.1 hy
  obtain ⟨X, hX⟩ := Option.isSome_iff_exists.1 hX
  refine ⟨ols X y (series.length - 1 - p), ?_, fun hok => ?_⟩
  · rw [Access.minus_eq (by omega), hdy]
    simp only [Option.bind_eq_bind, Option.bind_some, hy, hX]
    rfl
  · obtain ⟨hlt, hbeta, hse⟩ := ols_ok hok
    exact ⟨by omega, by omega, by omega⟩

/-! ### The lag count -/

theorem exists_betterLag (maps : Maps α) (series : List α) (p : Nat) (best : α × Option (Nat × OlsResult α))
    (h : ∀ b, best.2 = some b → Admissible series b.1 b.2) :
    ∃ best', betterLag maps series best p = some best' ∧ ∀ b, best'.2 = some b → Admissible series b.1 b.2 := by
  obtain ⟨reg, hreg, hok⟩ := exists_runRegression series p
  unfold betterLag
  rw [hreg]
  simp only [Option.bind_eq_bind, Option.bind_some]
  split_ifs with hskip hbetter
  · exact ⟨best, rfl, h⟩
  · refine ⟨_, rfl, fun b hb => ?_⟩
    obtain rfl := Option.some.inj hb
    exact hok (by simp at hskip; exact hskip.1)
  · exact ⟨best, rfl, h⟩

theorem exists_bestLag (maps : Maps α) (series : List α) (maxLags : Int) :
    ∃ best, bestLag maps series maxLags = some best ∧ ∀ b, best = some b → Admissible series b.1 b.2 := by
  unfold bestLag
  split_ifs with hsearch
  · obtain ⟨best, hbest, hall⟩ := Access.foldlM_keeps
      (fun p (_ : p ∈ List.range (schwertMaxLag maps series.length + 1).toNat) best h => exists_betterLag maps series p best h)
      (s := (maps.infinity, none)) (fun _ h => nomatch h)
    refine ⟨best.2, ?_, hall⟩
    rw [hbest]
    rfl
  · obtain ⟨reg, hreg, hok⟩ := exists_runRegression series maxLags.toNat
    refine ⟨if reg.ok then some (maxLags.toNat, reg) else none, ?_, fun b hb => ?_⟩
    · rw [hreg]
      rfl
    · split_ifs at hb with h
      obtain rfl := Option.some.inj hb
      exact hok h

/-- The lag count of a test is the one asked for, or that of a regression with degrees of freedom left. -/
theorem exists_adfTest (maps : Maps α) (series : List α) (maxLags : Int) :
    ∃ r, adfTest maps series maxLags = some r ∧ (r.lags = maxLags ∨ ∃ p : Nat, r.lags = p ∧ 2 * p + 3 < series.length) := by
  unfold adfTest
  split_ifs with hshort
  · exact ⟨_, rfl, .inl rfl⟩
  obtain ⟨best, hbest, hall⟩ := exists_bestLag maps series maxLags
  rw [hbest]
  cases best with
  | none => exact ⟨_, rfl, .inl rfl⟩
  | some b =>
    obtain ⟨p, reg⟩ := b
    have hadm := hall _ rfl
    simp only [Option.bind_eq_bind, Option.bind_some, List.getElem?_eq_getElem hadm.beta, List.getElem?_eq_getElem hadm.se]
    split_ifs
    · exact ⟨_, rfl, .inr ⟨p, rfl, hadm.freedom⟩⟩
    · exact ⟨_, rfl, .inr ⟨p, rfl, hadm.freedom⟩⟩

/-! ### The loop -/

/-- What the loop works on: the difference series, and windows with degrees of freedom left. -/
structure Fits (series dyFull : List α) (lookback p nEff : Nat) : Prop where
  dy : dyFull.length = series.length - 1
  long : 1 ≤ lookback
  rows : p + nEff = lookback - 1
  freedom : p + 2 < nEff

section
variable {maps : Maps α} {series dyFull : List α} {lookback p nEff winStart : Nat} {s : Rolling α p}

omit [Floating α] in
theorem exists_buildRow {window dy : List α} {obs : Nat} (hwindow : p + obs < window.length) (hdy : window.length ≤ dy.length + 1) :
    ∃ row, buildRow window dy p obs = some row := by
  refine Access.exists_ofFnM fun c => ?_
  have hc := c.isLt
  split_ifs
  · rfl
  · rw [Access.read_isSome]
    exact hwindow
  · rw [Access.readBack_isSome]
    omega

variable (hfits : Fits series dyFull lookback p nEff)
include hfits

omit [Arith α] [Floating α] in
/-- The window and its differences. -/
theorem Fits.windows (hw : winStart + lookback ≤ series.length) : ∃ window dyWin, subspan series winStart lookback = some window ∧
    subspan dyFull winStart (lookback - 1) = some dyWin ∧ window.length = lookback ∧ dyWin.length = lookback - 1 := by
  have hlong := hfits.long
  have hdy := hfits.dy
  obtain ⟨window, hwindow, hlen⟩ := Access.exists_subspan hw
  obtain ⟨dyWin, hdyWin, hlen'⟩ := Access.exists_subspan (show winStart + (lookback - 1) ≤ dyFull.length by omega)
  exact ⟨window, dyWin, hwindow, hdyWin, hlen, hlen'⟩

omit [Floating α] in
theorem Fits.bootstrap (hw : winStart + lookback ≤ series.length) (s : Rolling α p) :
    ∃ ok s', RollingPerBar.bootstrap series dyFull lookback p nEff winStart s = some (ok, s') ∧ s'.perBarScores = s.perBarScores := by
  obtain ⟨window, dyWin, hwindow, hdyWin, hlen, hlen'⟩ := hfits.windows hw
  have hrows := hfits.rows
  have hobserve : ∀ r ∈ List.range nEff, ∀ sums, True → ∃ sums', observe p window dyWin sums r = some sums' ∧ True := by
    intro r hr sums _
    have hr := List.mem_range.1 hr
    obtain ⟨row, hrow⟩ := exists_buildRow (show p + r < window.length by omega) (show _ ≤ dyWin.length + 1 by omega)
    unfold observe
    rw [hrow, List.getElem?_eq_getElem (show p + r < dyWin.length by omega)]
    exact ⟨_, rfl, trivial⟩
  obtain ⟨⟨xtx, xty, sumYY⟩, hsums, -⟩ := Access.foldlM_keeps hobserve (s := (.replicate _ 0, .replicate _ 0, 0)) trivial
  unfold RollingPerBar.bootstrap
  rw [hwindow, Access.minus_eq hfits.long]
  simp only [Option.bind_eq_bind, Option.bind_some, hdyWin, hsums]
  cases gaussJordan xtx with
  | none => exact ⟨false, _, rfl, rfl⟩
  | some A => exact ⟨true, _, rfl, rfl⟩

omit hfits [Arith α] [Floating α] in
theorem freedom_eq {n k : Nat} (h : k < n) : freedom n k = some (n - k) := by
  rw [freedom, Access.minus_eq h.le]
  exact Option.filter_some_pos (decide_eq_true (by omega))

theorem Fits.emitScore {barIdx : Nat} (hbar : barIdx < s.perBarScores.length) :
    ∃ s', RollingPerBar.emitScore maps p nEff barIdx s = some s' ∧ s'.perBarScores.length = s.perBarScores.length := by
  unfold RollingPerBar.emitScore
  simp only [freedom_eq hfits.freedom, Option.bind_eq_bind, Option.bind_some]
  split_ifs with hrss hvar hpval
  · exact ⟨s, rfl, rfl⟩
  · exact ⟨s, rfl, rfl⟩
  · obtain ⟨scores, hscores, hlen⟩ := Access.exists_write hbar
    rw [hscores]
    exact ⟨_, rfl, hlen⟩
  · exact ⟨s, rfl, rfl⟩

omit [Floating α] in
theorem Fits.exchanged (hpos : 1 ≤ winStart) (hw : winStart + lookback ≤ series.length) :
    ∃ old new, RollingPerBar.exchanged series dyFull lookback p nEff winStart = some (old, new) := by
  have hrows := hfits.rows
  have hfreedom := hfits.freedom
  obtain ⟨window, dyWin, hwindow, hdyWin, hlen, hlen'⟩ := hfits.windows hw
  obtain ⟨prevWindow, prevDy, hprevWindow, hprevDy, hprev, hprev'⟩ := hfits.windows (show winStart - 1 + lookback ≤ _ by omega)
  obtain ⟨rowOld, hrowOld⟩ := exists_buildRow (show p + 0 < prevWindow.length by omega) (show _ ≤ prevDy.length + 1 by omega)
  obtain ⟨row, hrow⟩ := exists_buildRow (show p + (nEff - 1) < window.length by omega) (show _ ≤ dyWin.length + 1 by omega)
  obtain ⟨yOld, hyOld⟩ := Option.isSome_iff_exists.1 (Access.read_isSome.2 (show p < prevDy.length by omega))
  obtain ⟨yNew, hyNew⟩ := Option.isSome_iff_exists.1 (Access.read_isSome.2 (show p + nEff - 1 < dyWin.length by omega))
  refine ⟨(rowOld, yOld), (row, yNew), ?_⟩
  unfold RollingPerBar.exchanged
  simp only [hwindow, Access.minus_eq hfits.long, hdyWin, Access.minus_eq hpos, hprevWindow, hprevDy, hrowOld, hyOld,
    Access.minus_eq (show 1 ≤ nEff by omega), hrow, Access.minus_eq (show 1 ≤ p + nEff by omega), hyNew,
    Option.bind_eq_bind, Option.bind_some]
  rfl

/-- The bar of a window that starts at `winStart` gets its score from a regression on the whole window. -/
theorem Fits.bootstrapAndEmit (hw : winStart + lookback ≤ series.length) (hscores : s.perBarScores.length = series.length) :
    ∃ s', RollingPerBar.bootstrapAndEmit maps series dyFull lookback p nEff winStart (winStart + lookback - 1) s = some s' ∧
      s'.perBarScores.length = series.length := by
  have hlong := hfits.long
  obtain ⟨ok, s₁, hs₁, hsame⟩ := hfits.bootstrap hw s
  have hlen : ({ s₁ with stepsSinceBootstrap := 0 } : Rolling α p).perBarScores.length = series.length := by
    rw [← hscores, ← hsame]
  obtain ⟨s₂, hs₂, hlen₂⟩ := hfits.emitScore (show winStart + lookback - 1 < _ by rw [hlen]; omega)
  refine ⟨s₂, ?_, hlen₂.trans hlen⟩
  unfold RollingPerBar.bootstrapAndEmit
  rw [hs₁]
  exact hs₂

/-- A turn of the loop stays inside, and there are as many scores as before. -/
theorem Fits.slide (hpos : 1 ≤ winStart) (hw : winStart + lookback ≤ series.length) (hscores : s.perBarScores.length = series.length) :
    ∃ s', RollingPerBar.slide maps series dyFull lookback p nEff s winStart = some s' ∧ s'.perBarScores.length = series.length := by
  have hlong := hfits.long
  obtain ⟨old, new, hexchanged⟩ := hfits.exchanged hpos hw
  unfold RollingPerBar.slide
  rw [Access.minus_eq (show 1 ≤ winStart + lookback by omega), hexchanged]
  simp only [Option.bind_eq_bind, Option.bind_some]
  have hkept : (replaceRow p { s with stepsSinceBootstrap := s.stepsSinceBootstrap + 1 } old new).2.perBarScores.length =
      series.length := hscores
  split_ifs with hrefresh hok
  · exact hfits.bootstrapAndEmit hw hscores
  · obtain ⟨s', hs', hlen⟩ := hfits.emitScore (show winStart + lookback - 1 < _ by rw [hkept]; omega)
    exact ⟨s', hs', hlen.trans hkept⟩
  · exact hfits.bootstrapAndEmit hw hkept

theorem Fits.slides (maps : Maps α) (hscores : s.perBarScores.length = series.length) :
    ∃ s', (List.range' 1 (series.length - lookback)).foldlM (RollingPerBar.slide maps series dyFull lookback p nEff) s = some s' ∧
      s'.perBarScores.length = series.length :=
  Access.foldlM_keeps (P := fun s : Rolling α p => s.perBarScores.length = series.length)
    (fun _ hw _ hscores => by
      have hw := List.mem_range'_1.1 hw
      exact hfits.slide hw.1 (by omega) hscores) hscores

end

section
variable {maps : Maps α} {series : List α} {lookback : Nat}

theorem exists_batchScore {scores : List α} {i : Nat} (hpos : 1 ≤ i) (hlo : lookback ≤ i) (hi : i ≤ series.length)
    (hscores : scores.length = series.length) :
    ∃ scores', batchScore maps series lookback scores i = some scores' ∧ scores'.length = series.length := by
  obtain ⟨window, hwindow, -⟩ := Access.exists_subspan (show i - lookback + lookback ≤ series.length by omega)
  obtain ⟨adf, hadf, -⟩ := exists_adfTest maps window 0
  unfold batchScore
  simp only [Access.minus_eq hlo, hwindow, hadf, Access.minus_eq hpos, Option.bind_eq_bind, Option.bind_some]
  split_ifs
  · obtain ⟨scores', hscores', hlen⟩ := Access.exists_write (show i - 1 < scores.length by omega)
    exact ⟨scores', hscores', hlen.trans hscores⟩
  · exact ⟨scores, rfl, hscores⟩

/-- Whatever the search finds on the first window, or if it finds nothing, there are degrees of freedom left. -/
theorem exists_lags (hlong : 4 ≤ lookback) (hle : lookback ≤ series.length) :
    ∃ p, lags maps series lookback = some p ∧ 2 * p + 3 < lookback := by
  obtain ⟨window, hwindow, hlen⟩ := Access.exists_subspan (show 0 + lookback ≤ series.length by omega)
  obtain ⟨adf, hadf, hlags⟩ := exists_adfTest maps window 0
  refine ⟨adf.lags.toNat, ?_, ?_⟩
  · unfold lags
    rw [hwindow]
    simp only [hadf, Option.bind_eq_bind, Option.bind_some]
    rfl
  · obtain hnone | ⟨p, hp, hfreedom⟩ := hlags
    · omega
    · omega

end

/-- Every access is inside and no unsigned difference wraps around; and when a score is emitted, there are more
observations than regressors, whatever lag count the first window has given. -/
theorem scores_in_range (maps : Maps α) (series : List α) (lookback : Nat) :
    (∃ scores, rollingAdfScores maps series lookback = some scores ∧ scores.length = series.length) ∧
    (series.length < lookback ∨ lookback < 4 ∨
      ∃ p, lags maps series lookback = some p ∧ p + 2 < lookback - 1 - p) := by
  unfold rollingAdfScores
  dsimp only
  split_ifs with hshort
  · exact ⟨⟨_, rfl, by simp⟩, by omega⟩
  obtain ⟨p, hp, hfreedom⟩ : ∃ p, lags maps series lookback = some p ∧ 2 * p + 3 < lookback :=
    exists_lags (by omega) (by omega)
  refine ⟨?_, .inr (.inr ⟨p, hp, by omega⟩)⟩
  obtain ⟨dyFull, hdy, hlen⟩ := exists_diffs series
  have hfits : Fits series dyFull lookback p (lookback - 1 - p) := ⟨hlen, by omega, by omega, by omega⟩
  obtain ⟨ok, s, hs, hkept⟩ := hfits.bootstrap (show 0 + lookback ≤ series.length by omega)
    { xtxInv := .replicate _ 0, xty := .replicate _ 0, sumYY := 0, perBarScores := .replicate series.length 0,
      stepsSinceBootstrap := 0 }
  have hscores : s.perBarScores.length = series.length := by
    rw [hkept]
    exact List.length_replicate
  simp only [hp, Option.bind_eq_bind, Option.bind_some, if_neg (show ¬ lookback < p + 3 by omega),
    Access.minus_eq (show 1 ≤ lookback by omega), Access.minus_eq (show p ≤ lookback - 1 by omega), hdy, hs]
  cases ok with
  | false =>
    -- the batch test of each window
    refine Access.foldlM_keeps (fun i hi scores hscores => ?_) hscores
    have hi := List.mem_range'_1.1 hi
    exact exists_batchScore (by omega) hi.1 (by omega) hscores
  | true =>
    obtain ⟨s₁, hs₁, hlen₁⟩ : ∃ s₁, emitScore maps p (lookback - 1 - p) (lookback - 1) s = some s₁ ∧
        s₁.perBarScores.length = s.perBarScores.length := hfits.emitScore (by omega)
    obtain ⟨s₂, hs₂, hlen₂⟩ := hfits.slides maps (hlen₁.trans hscores)
    refine ⟨s₂.perBarScores, ?_, hlen₂⟩
    rw [hs₁]
    simp only [Option.bind_some, hs₂]
    rfl

end RollingPerBar
end StratForge
