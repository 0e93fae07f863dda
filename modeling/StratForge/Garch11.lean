import Mathlib.Algebra.BigOperators.Group.List.Basic
import Mathlib.Algebra.Order.Field.Basic
import Mathlib.Analysis.SpecialFunctions.Log.Basic
import Mathlib.Analysis.SpecialFunctions.Sqrt
import Mathlib.Data.List.FinRange
import Mathlib.Tactic.FieldSimp
import Mathlib.Tactic.Linarith
import Mathlib.Tactic.NormNum.OfScientific
import Mathlib.Tactic.Positivity
import Mathlib.Tactic.Ring
import StratForge.DirectSearch

/-!
# The GARCH(1,1) fit (`stats/garch11.hpp`, `rolling_garch_scores`)

`nelder_mead` writes its vertices and their values separately; whatever the objective, the values stay the objective at
the vertices and the lowest of them never rises. A fit that is reported is therefore admissible and at least as likely as
where it began.
-/

namespace StratForge
namespace Garch

/-- What the fit calls of `<cmath>`. -/
structure Maths (K : Type) where
  exp : K → K
  log : K → K
  sqrt : K → K
  isFinite : K → Bool

abbrev Vec3 (K : Type) : Type := Vector K 3

def kMaxIter : Nat := 10000

section
variable {K : Type} [Zero K] [One K] [Add K] [Sub K] [Mul K] [Div K] [Neg K] [LT K] [LE K] [DecidableLT K] [DecidableLE K] [NatCast K]
  [OfScientific K]

def kTolParam : K := 1e-10

def kPenalty : K := 1e10

def kLn2Pi : K := 1.8378770664093454835606594728112352

/-! ### The objective -/

def logistic (m : Maths K) (x : K) : K :=
  if 0 ≤ x then
    let e := m.exp (-x)
    1 / (1 + e)
  else
    let e := m.exp x
    e / (1 + e)

def logit (m : Maths K) (p : K) : K := m.log (p / (1 - p))

/-- The loop of `neg_log_lik`; none is its early return. -/
def negLogLikLoop (m : Maths K) (omega alpha beta : K) : List K → K → K → Option K
  | [], nll, _ => some nll
  | r :: rs, nll, sigma2 =>
    if ¬ 0 < sigma2 then none
    else
      negLogLikLoop m omega alpha beta rs (nll + 0.5 * (kLn2Pi + m.log sigma2 + r * r / sigma2))
        (omega + alpha * (r * r) + beta * sigma2)

def negLogLik (m : Maths K) (r : List K) (u : Vec3 K) : K :=
  let omega := m.exp u[0]
  let alpha := logistic m u[1]
  let beta := logistic m u[2]
  if ¬ 0 < omega ∨ ¬ m.isFinite omega ∨ ¬ m.isFinite alpha ∨ ¬ m.isFinite beta then kPenalty
  else if 0.9999 ≤ alpha + beta then kPenalty
  else
    let denom := 1 - alpha - beta
    if ¬ 1e-12 < denom then kPenalty
    else
      let sigma2 := omega / denom
      if ¬ 0 < sigma2 then kPenalty
      else
        match negLogLikLoop m omega alpha beta r 0 sigma2 with
        | none => kPenalty
        | some nll => if ¬ m.isFinite nll then kPenalty else nll

/-! ### Nelder-Mead -/

def add (a b : Vec3 K) : Vec3 K := #v[a[0] + b[0], a[1] + b[1], a[2] + b[2]]

def sub (a b : Vec3 K) : Vec3 K := #v[a[0] - b[0], a[1] - b[1], a[2] - b[2]]

def scale (a : Vec3 K) (s : K) : Vec3 K := #v[a[0] * s, a[1] * s, a[2] * s]

structure Simplex (K B : Type) where
  simplex : Vector (Vec3 K) 4
  nll : Vector B 4

/-- `std::sort` of the indices `0, 1, 2, 3` by a comparison. -/
abbrev IndexSort : Type := (Fin 4 → Fin 4 → Bool) → Vector (Fin 4) 4

variable {B : Type} [LT B] [LE B] [DecidableLT B] [DecidableLE B]

def startSimplex (f : Vec3 K → B) (x0 : Vec3 K) (initialStep : K) : Simplex K B :=
  let simplex := #v[x0, x0.set 0 (x0[0] + initialStep), x0.set 1 (x0[1] + initialStep), x0.set 2 (x0[2] + initialStep)]
  { simplex, nll := simplex.map f }

def sortSimplex (sort : IndexSort) (s : Simplex K B) : Simplex K B :=
  let idx := sort fun a b => decide (s.nll.get a < s.nll.get b)
  { simplex := idx.map s.simplex.get, nll := idx.map s.nll.get }

/-- The widest extent of the vertices in one coordinate. -/
def spanMax (s : Simplex K B) : K :=
  (List.finRange 3).foldl (fun spanMax d =>
    let (lo, hi) := ([1, 2, 3] : List (Fin 4)).foldl (fun (lo, hi) i =>
      let v := (s.simplex.get i).get d
      (if v < lo then v else lo, if hi < v then v else hi)) ((s.simplex.get 0).get d, (s.simplex.get 0).get d)
    if spanMax < hi - lo then hi - lo else spanMax) 0

/-- `simplex[i] = x` and `nll[i] = fx`. -/
def Simplex.put (s : Simplex K B) (i : Fin 4) (x : Vec3 K) (fx : B) : Simplex K B :=
  { simplex := s.simplex.set i x, nll := s.nll.set i fx }

/-- One vertex goes half the way to the best one. -/
def shrink (f : Vec3 K → B) (s : Simplex K B) (i : Fin 4) : Simplex K B :=
  let x := add (s.simplex.get 0) (scale (sub (s.simplex.get i) (s.simplex.get 0)) 0.5)
  s.put i x (f x)

/-- What one iteration does to the sorted vertices. -/
def move (f : Vec3 K → B) (s : Simplex K B) : Simplex K B :=
  let sum := add (add (add (Vector.replicate 3 (0 : K)) (s.simplex.get 0)) (s.simplex.get 1)) (s.simplex.get 2)
  let centroid := scale sum (1.0 / 3.0)
  let worst := s.simplex.get 3
  -- reflection
  let xr := add centroid (scale (sub centroid worst) 1.0)
  let fr := f xr
  if fr < s.nll.get 2 ∧ s.nll.get 0 ≤ fr then s.put 3 xr fr
  else if fr < s.nll.get 0 then
    -- expansion
    let xe := add centroid (scale (sub xr centroid) 2.0)
    let fe := f xe
    if fe < fr then s.put 3 xe fe
    else s.put 3 xr fr
  else
    -- contraction
    let xc := add centroid (scale (sub worst centroid) 0.5)
    let fc := f xc
    if fc < s.nll.get 3 then s.put 3 xc fc
    else
      -- shrink toward the best vertex
      List.foldl (shrink f) s [1, 2, 3]

/-- One iteration, where the loop goes on with the sorted vertices if it is done. -/
def iteration (sort : IndexSort) (f : Vec3 K → B) (s : Simplex K B) : Simplex K B :=
  let s := sortSimplex sort s
  if spanMax s < kTolParam then s else move f s

/-- The loop, with the iterations that are left. -/
def iterations (sort : IndexSort) (f : Vec3 K → B) : Nat → Simplex K B → Simplex K B
  | 0, s => s
  | left + 1, s =>
    let s := sortSimplex sort s
    if spanMax s < kTolParam then s else iterations sort f left (move f s)

/-- The best vertex and its value. -/
def nelderMead (sort : IndexSort) (f : Vec3 K → B) (x0 : Vec3 K) (initialStep : K) : Vec3 K × B :=
  let s := sortSimplex sort (iterations sort f kMaxIter (startSimplex f x0 initialStep))
  (s.simplex.get 0, s.nll.get 0)

/-! ### The fit -/

structure Garch11Fit (K : Type) where
  omega : K
  alpha : K
  beta : K
  logLik : K

def sampleVariance (returns : List K) : K :=
  let n := (returns.length : K)
  let mean := returns.foldl (· + ·) 0 / n
  let varSum := returns.foldl (fun varSum v =>
    let d := v - mean
    varSum + d * d) 0
  varSum / n

def startPoint (m : Maths K) (var : K) : Vec3 K := #v[m.log (0.05 * var), logit m 0.05, logit m 0.90]

/-- None is the result that is NaN. -/
def garch11Fit (m : Maths K) (sort : IndexSort) (returns : List K) : Option (Garch11Fit K) :=
  if returns.length < 10 then none
  else
    let var := sampleVariance returns
    if ¬ 0 < var then none
    else
      let (best, bestNll) := nelderMead sort (negLogLik m returns) (startPoint m var) 0.5
      if ¬ m.isFinite bestNll ∨ kPenalty ≤ bestNll then none
      else some { omega := m.exp best[0], alpha := logistic m best[1], beta := logistic m best[2], logLik := -bestNll }

/-- `result.per_bar_scores` after `rolling_garch_scores`. -/
def rollingGarchScores (m : Maths K) (sort : IndexSort) (returns : List K) : List K :=
  let zeros := List.replicate returns.length 0
  if returns.length < 10 then zeros
  else
    match garch11Fit m sort returns with
    | none => zeros
    | some fit =>
      if ¬ m.isFinite fit.logLik then zeros
      else
        let denom := 1 - fit.alpha - fit.beta
        if ¬ 1e-12 < denom then zeros
        else
          (returns.foldl (fun (scores, sigma2) r =>
            (scores ++ [if 0 < sigma2 then m.sqrt sigma2 else 0], fit.omega + fit.alpha * (r * r) + fit.beta * sigma2))
            ([], fit.omega / denom)).1

end

/-! ### The best vertex never gets worse -/

section
variable {K B : Type} {sort : IndexSort} {f : Vec3 K → B} {s : Simplex K B}

/-- What `std::sort` needs of a comparison. -/
structure StrictWeak (less : Fin 4 → Fin 4 → Bool) : Prop where
  irrefl : ∀ a, less a a = false
  trans : ∀ a b c, less a b = true → less b c = true → less a c = true
  neg_trans : ∀ a b c, less a b = false → less b c = false → less a c = false

/-- What `std::sort` leaves: all of the indices, none less than one before it. -/
def Sorts (sort : IndexSort) : Prop :=
  ∀ less, StrictWeak less → (sort less).get.Surjective ∧ ∀ i j, i ≤ j → less ((sort less).get j) ((sort less).get i) = false

def Simplex.Cached (f : Vec3 K → B) (s : Simplex K B) : Prop := DirectSearch.Cached f s.simplex.get s.nll.get

theorem get_eq {X : Type} {n : Nat} (v : Vector X n) (i : Fin n) : v.get i = v[i.val] := rfl

theorem put_simplex_get (s : Simplex K B) (i j : Fin 4) (x : Vec3 K) (fx : B) :
    (s.put i x fx).simplex.get j = if i = j then x else s.simplex.get j := by
  simp only [Simplex.put, get_eq, Vector.getElem_set, Fin.ext_iff]

theorem put_nll_get (s : Simplex K B) (i j : Fin 4) (x : Vec3 K) (fx : B) :
    (s.put i x fx).nll.get j = if i = j then fx else s.nll.get j := by
  simp only [Simplex.put, get_eq, Vector.getElem_set, Fin.ext_iff]

theorem Simplex.Cached.put (h : s.Cached f) (i : Fin 4) (x : Vec3 K) : (s.put i x (f x)).Cached f := by
  intro j
  rw [put_simplex_get, put_nll_get]
  split_ifs
  · rfl
  · exact h j

theorem start_cached [Add K] (f : Vec3 K → B) (x0 : Vec3 K) (initialStep : K) : (startSimplex f x0 initialStep).Cached f := by
  intro i
  simp only [startSimplex, get_eq, Vector.getElem_map]

variable [LinearOrder B]

def Simplex.lowest (s : Simplex K B) : B := DirectSearch.lowest s.nll.get

section
variable [Zero K] [Add K] [Sub K] [Mul K] [Div K] [OfScientific K]

/-- Every move puts vertices with their values, and leaves the first one alone. -/
theorem move_ind (P : Simplex K B → Prop) (hput : ∀ s i x, i ≠ 0 → P s → P (s.put i x (f x))) (h : P s) : P (move f s) := by
  unfold move
  dsimp only
  split_ifs
  · exact hput s 3 _ (by decide) h
  · exact hput s 3 _ (by decide) h
  · exact hput s 3 _ (by decide) h
  · exact hput s 3 _ (by decide) h
  · exact hput _ 3 _ (by decide) (hput _ 2 _ (by decide) (hput s 1 _ (by decide) h))

theorem move_cached (h : s.Cached f) : (move f s).Cached f :=
  move_ind (Simplex.Cached f) (fun _ i x _ hs => hs.put i x) h

theorem move_first (f : Vec3 K → B) (s : Simplex K B) : (move f s).nll.get 0 = s.nll.get 0 := by
  refine move_ind (fun s' => s'.nll.get 0 = s.nll.get 0) (fun s' i x hi hs => ?_) rfl
  rw [put_nll_get, if_neg hi, hs]

end

theorem nll_strictWeak (nll : Fin 4 → B) : StrictWeak fun a b => decide (nll a < nll b) where
  irrefl := fun a => by simp
  trans := fun a b c => by
    simp only [decide_eq_true_eq]
    exact lt_trans
  neg_trans := fun a b c => by
    simp only [decide_eq_false_iff_not, not_lt]
    exact fun hba hcb => hcb.trans hba

theorem sort_get (sort : IndexSort) (s : Simplex K B) : ∃ order : Fin 4 → Fin 4,
    order = (sort fun a b => decide (s.nll.get a < s.nll.get b)).get ∧
    (sortSimplex sort s).simplex.get = s.simplex.get ∘ order ∧ (sortSimplex sort s).nll.get = s.nll.get ∘ order := by
  refine ⟨_, rfl, funext fun i => ?_, funext fun i => ?_⟩
  · simp only [sortSimplex, get_eq, Vector.getElem_map, Function.comp_apply]
  · simp only [sortSimplex, get_eq, Vector.getElem_map, Function.comp_apply]

theorem sort_cached (sort : IndexSort) (h : s.Cached f) : (sortSimplex sort s).Cached f := by
  obtain ⟨order, -, hsimplex, hnll⟩ := sort_get sort s
  unfold Simplex.Cached
  rw [hsimplex, hnll]
  exact DirectSearch.Cached.comp h order

theorem sort_lowest (hsort : Sorts sort) (s : Simplex K B) : (sortSimplex sort s).lowest = s.lowest := by
  obtain ⟨order, rfl, -, hnll⟩ := sort_get sort s
  unfold Simplex.lowest
  rw [hnll]
  exact DirectSearch.lowest_comp (hsort _ (nll_strictWeak s.nll.get)).1 _

/-- The first vertex is the best once they are sorted. -/
theorem sort_first (hsort : Sorts sort) (s : Simplex K B) (i : Fin 4) : (sortSimplex sort s).nll.get 0 ≤ (sortSimplex sort s).nll.get i := by
  obtain ⟨order, rfl, -, hnll⟩ := sort_get sort s
  have hle := (hsort _ (nll_strictWeak s.nll.get)).2 0 i (Fin.zero_le i)
  rw [decide_eq_false_iff_not, not_lt] at hle
  rw [hnll]
  exact hle

variable [Zero K] [Add K] [Sub K] [Mul K] [Div K] [OfScientific K] [LT K] [DecidableLT K]

theorem iteration_cached (h : s.Cached f) : (iteration sort f s).Cached f := by
  unfold iteration
  dsimp only
  split_ifs
  · exact sort_cached sort h
  · exact move_cached (sort_cached sort h)

theorem iteration_lowest (hsort : Sorts sort) (f : Vec3 K → B) (s : Simplex K B) : (iteration sort f s).lowest ≤ s.lowest := by
  rw [← sort_lowest hsort s]
  unfold iteration
  dsimp only
  split_ifs
  · exact le_rfl
  · exact DirectSearch.lowest_le_of_kept (sort_first hsort s) (move_first f _)

theorem iterate_cached (h : s.Cached f) (n : Nat) : ((iteration sort f)^[n] s).Cached f := by
  induction n with
  | zero => exact h
  | succ n ih =>
    rw [Function.iterate_succ_apply']
    exact iteration_cached ih

theorem iterate_lowest (hsort : Sorts sort) (f : Vec3 K → B) (s : Simplex K B) (n : Nat) :
    ((iteration sort f)^[n + 1] s).lowest ≤ ((iteration sort f)^[n] s).lowest := by
  rw [Function.iterate_succ_apply']
  exact iteration_lowest hsort f _

theorem iterate_lowest_start (hsort : Sorts sort) (f : Vec3 K → B) (s : Simplex K B) (n : Nat) :
    ((iteration sort f)^[n] s).lowest ≤ s.lowest := by
  induction n with
  | zero => exact le_rfl
  | succ n ih => exact (iterate_lowest hsort f s n).trans ih

/-- The loop stops after some of its iterations. -/
theorem iterations_eq (sort : IndexSort) (f : Vec3 K → B) (left : Nat) (s : Simplex K B) :
    ∃ n ≤ left, iterations sort f left s = (iteration sort f)^[n] s := by
  induction left generalizing s with
  | zero => exact ⟨0, le_rfl, rfl⟩
  | succ left ih =>
    rw [iterations]
    by_cases hspan : spanMax (sortSimplex sort s) < kTolParam
    · refine ⟨1, by omega, ?_⟩
      rw [if_pos hspan, Function.iterate_one, iteration]
      exact (if_pos hspan).symm
    · obtain ⟨n, hn, hrun⟩ := ih (move f (sortSimplex sort s))
      refine ⟨n + 1, by omega, ?_⟩
      have hiteration : iteration sort f s = move f (sortSimplex sort s) := if_neg hspan
      rw [if_neg hspan, Function.iterate_succ_apply, hiteration, hrun]

/-- What is returned is the objective at the best vertex, and no worse than at any of the four at the start. -/
theorem nelderMead_best (hsort : Sorts sort) (f : Vec3 K → B) (x0 : Vec3 K) (initialStep : K) :
    (nelderMead sort f x0 initialStep).2 = f (nelderMead sort f x0 initialStep).1 ∧
    ∀ i, (nelderMead sort f x0 initialStep).2 ≤ f ((startSimplex f x0 initialStep).simplex.get i) := by
  obtain ⟨n, -, hrun⟩ := iterations_eq sort f kMaxIter (startSimplex f x0 initialStep)
  unfold nelderMead
  dsimp only
  rw [hrun]
  have hstart := start_cached f x0 initialStep
  have hcached : ((iteration sort f)^[n] (startSimplex f x0 initialStep)).Cached f := iterate_cached hstart n
  refine ⟨sort_cached sort hcached 0, fun i => ?_⟩
  rw [← hstart i, ← DirectSearch.lowest_eq (sort_first hsort _)]
  calc (sortSimplex sort ((iteration sort f)^[n] (startSimplex f x0 initialStep))).lowest
      = ((iteration sort f)^[n] (startSimplex f x0 initialStep)).lowest := sort_lowest hsort _
    _ ≤ (startSimplex f x0 initialStep).lowest := iterate_lowest_start hsort f _ n
    _ ≤ (startSimplex f x0 initialStep).nll.get i := DirectSearch.lowest_le _ i

end

/-! ### What is reported -/

section
variable {K : Type} [Field K] [LinearOrder K]

/-- The conditional variances of the bars, from that of the first. -/
def variances (omega alpha beta : K) : List K → K → List K
  | [], _ => []
  | r :: rs, sigma2 => sigma2 :: variances omega alpha beta rs (omega + alpha * (r * r) + beta * sigma2)

/-- The log-likelihood of the returns, each normal with its conditional variance. -/
def logLikelihood (m : Maths K) (returns : List K) (omega alpha beta : K) : K :=
  -(List.zipWith (fun r sigma2 => 0.5 * (kLn2Pi + m.log sigma2 + r * r / sigma2)) returns
    (variances omega alpha beta returns (omega / (1 - alpha - beta)))).sum

structure Maths.Positive (m : Maths K) : Prop where
  exp : ∀ x, 0 < m.exp x
  sqrt : ∀ x, 0 < x → 0 < m.sqrt x

/-- Exact arithmetic: the logarithm is the inverse, and every number is finite. -/
structure Maths.Exact (m : Maths K) : Prop where
  exp_log : ∀ x, 0 < x → m.exp (m.log x) = x
  exp_neg : ∀ x, m.exp (-x) = (m.exp x)⁻¹
  finite : ∀ x, m.isFinite x = true

variable [IsStrictOrderedRing K] {m : Maths K} {omega alpha beta sigma2 : K} {r returns : List K} {sort : IndexSort}

theorem next_pos (homega : 0 < omega) (halpha : 0 < alpha) (hbeta : 0 < beta) (hsigma : 0 < sigma2) (x : K) :
    0 < omega + alpha * (x * x) + beta * sigma2 := by
  have hsquare : 0 ≤ alpha * (x * x) := mul_nonneg halpha.le (mul_self_nonneg x)
  have hlast : 0 < beta * sigma2 := mul_pos hbeta hsigma
  linarith

theorem logistic_pos (hm : m.Positive) (x : K) : 0 < logistic m x := by
  unfold logistic
  dsimp only
  have hneg := hm.exp (-x)
  have hexp := hm.exp x
  split_ifs <;> positivity

theorem logistic_logit (hexact : m.Exact) {p : K} (h0 : 0 < p) (h1 : p < 1) : logistic m (logit m p) = p := by
  have hrest : 0 < 1 - p := sub_pos.2 h1
  have hexp : m.exp (logit m p) = p / (1 - p) := hexact.exp_log _ (div_pos h0 hrest)
  unfold logistic
  dsimp only
  rw [hexact.exp_neg, hexp]
  have hne := h0.ne'
  have hrest' := hrest.ne'
  split_ifs
  · field_simp
    ring
  · field_simp
    ring

theorem negLogLikLoop_eq (m : Maths K) (homega : 0 < omega) (halpha : 0 < alpha) (hbeta : 0 < beta) (rs : List K) (nll : K)
    (hsigma : 0 < sigma2) : negLogLikLoop m omega alpha beta rs nll sigma2 =
      some (nll + (List.zipWith (fun r sigma2 => 0.5 * (kLn2Pi + m.log sigma2 + r * r / sigma2)) rs
        (variances omega alpha beta rs sigma2)).sum) := by
  induction rs generalizing nll sigma2 with
  | nil => simp [negLogLikLoop, variances]
  | cons r rs ih =>
    rw [negLogLikLoop, if_neg (not_not.2 hsigma), ih _ (next_pos homega halpha hbeta hsigma r), variances, List.zipWith_cons_cons,
      List.sum_cons, add_assoc]

theorem variances_pos (homega : 0 < omega) (halpha : 0 < alpha) (hbeta : 0 < beta) (rs : List K) (hsigma : 0 < sigma2) :
    ∀ v ∈ variances omega alpha beta rs sigma2, 0 < v := by
  induction rs generalizing sigma2 with
  | nil => simp [variances]
  | cons r rs ih =>
    intro v hv
    rcases List.mem_cons.1 hv with rfl | hv
    · exact hsigma
    · exact ih (next_pos homega halpha hbeta hsigma r) v hv

omit [LinearOrder K] [IsStrictOrderedRing K] in
theorem length_variances (rs : List K) (sigma2 : K) : (variances omega alpha beta rs sigma2).length = rs.length := by
  induction rs generalizing sigma2 with
  | nil => rfl
  | cons r rs ih => rw [variances, List.length_cons, List.length_cons, ih]

theorem denom_gt (h : alpha + beta < 0.9999) : 1e-12 < 1 - alpha - beta := by
  have hgap : (1e-12 : K) < 1 - 0.9999 := by norm_num
  linarith

/-- Where the objective is not the penalty the point is admissible, and it is the log-likelihood there. -/
theorem negLogLik_eq (hm : m.Positive) (u : Vec3 K) (h : negLogLik m r u < kPenalty) :
    logistic m u[1] + logistic m u[2] < 0.9999 ∧
      negLogLik m r u = -logLikelihood m r (m.exp u[0]) (logistic m u[1]) (logistic m u[2]) := by
  have homega := hm.exp u[0]
  have halpha := logistic_pos hm u[1]
  have hbeta := logistic_pos hm u[2]
  unfold negLogLik at h ⊢
  dsimp only at h ⊢
  generalize m.exp u[0] = omega, logistic m u[1] = alpha, logistic m u[2] = beta at h homega halpha hbeta ⊢
  by_cases hfinite : ¬ 0 < omega ∨ ¬ m.isFinite omega ∨ ¬ m.isFinite alpha ∨ ¬ m.isFinite beta
  · rw [if_pos hfinite] at h
    exact absurd h (lt_irrefl _)
  by_cases hstat : 0.9999 ≤ alpha + beta
  · rw [if_neg hfinite, if_pos hstat] at h
    exact absurd h (lt_irrefl _)
  have hlt := not_le.1 hstat
  have hdenom := denom_gt hlt
  have hsigma : 0 < omega / (1 - alpha - beta) := div_pos homega (lt_trans (by norm_num) hdenom)
  refine ⟨hlt, ?_⟩
  rw [if_neg hfinite, if_neg hstat, if_neg (not_not.2 hdenom), if_neg (not_not.2 hsigma),
    negLogLikLoop_eq m homega halpha hbeta r 0 hsigma] at h ⊢
  dsimp only at h ⊢
  split_ifs at h ⊢ with hnll
  · rw [logLikelihood, neg_neg, zero_add]
  · exact absurd h (lt_irrefl _)

/-- In exact arithmetic there is no other way to the penalty. -/
theorem negLogLik_exact (hm : m.Positive) (hexact : m.Exact) (u : Vec3 K) (h : logistic m u[1] + logistic m u[2] < 0.9999) :
    negLogLik m r u = -logLikelihood m r (m.exp u[0]) (logistic m u[1]) (logistic m u[2]) := by
  have homega := hm.exp u[0]
  have halpha := logistic_pos hm u[1]
  have hbeta := logistic_pos hm u[2]
  unfold negLogLik
  dsimp only
  generalize m.exp u[0] = omega, logistic m u[1] = alpha, logistic m u[2] = beta at h homega halpha hbeta ⊢
  have hdenom := denom_gt h
  have hsigma : 0 < omega / (1 - alpha - beta) := div_pos homega (lt_trans (by norm_num) hdenom)
  rw [if_neg (by simp [homega, hexact.finite]), if_neg (not_le.2 h), if_neg (not_not.2 hdenom), if_neg (not_not.2 hsigma),
    negLogLikLoop_eq m homega halpha hbeta r 0 hsigma]
  dsimp only
  rw [if_neg (by simp [hexact.finite]), logLikelihood, neg_neg, zero_add]

/-! ### The fit -/

/-- A reported fit: an admissible point with its log-likelihood, at least that of where the search began. -/
structure Admissible (m : Maths K) (returns : List K) (fit : Garch11Fit K) : Prop where
  omega_pos : 0 < fit.omega
  alpha_pos : 0 < fit.alpha
  beta_pos : 0 < fit.beta
  stationary : fit.alpha + fit.beta < 0.9999
  logLik : fit.logLik = logLikelihood m returns fit.omega fit.alpha fit.beta
  start : -negLogLik m returns (startPoint m (sampleVariance returns)) ≤ fit.logLik
  start_exact : m.Exact → logLikelihood m returns (0.05 * sampleVariance returns) 0.05 0.90 ≤ fit.logLik

theorem start_eq (hm : m.Positive) (hexact : m.Exact) (returns : List K) {var : K} (hvar : 0 < var) :
    negLogLik m returns (startPoint m var) = -logLikelihood m returns (0.05 * var) 0.05 0.90 := by
  have homega : m.exp (startPoint m var)[0] = 0.05 * var := hexact.exp_log _ (mul_pos (by norm_num) hvar)
  have halpha : logistic m (startPoint m var)[1] = 0.05 := logistic_logit hexact (by norm_num) (by norm_num)
  have hbeta : logistic m (startPoint m var)[2] = 0.90 := logistic_logit hexact (by norm_num) (by norm_num)
  rw [negLogLik_exact hm hexact _ (by rw [halpha, hbeta]; norm_num), homega, halpha, hbeta]

theorem garch11Fit_admissible (hm : m.Positive) (hsort : Sorts sort) {fit : Garch11Fit K} (h : garch11Fit m sort returns = some fit) :
    Admissible m returns fit := by
  unfold garch11Fit at h
  dsimp only at h
  obtain ⟨hbest, hstart⟩ := nelderMead_best hsort (negLogLik m returns) (startPoint m (sampleVariance returns)) 0.5
  have hfirst := hstart 0
  generalize nelderMead sort (negLogLik m returns) (startPoint m (sampleVariance returns)) 0.5 = result at h hbest hfirst
  split_ifs at h with hlen hvar hpenalty
  obtain rfl := Option.some.inj h
  have hlt : negLogLik m returns result.1 < kPenalty := by
    rw [← hbest]
    exact not_le.1 fun hle => hpenalty (.inr hle)
  obtain ⟨hstat, hlik⟩ := negLogLik_eq hm result.1 hlt
  have hge : -negLogLik m returns (startPoint m (sampleVariance returns)) ≤ -result.2 := neg_le_neg hfirst
  refine ⟨hm.exp _, logistic_pos hm _, logistic_pos hm _, hstat, ?_, hge, fun hexact => ?_⟩
  · dsimp only
    rw [hbest, hlik, neg_neg]
  · rw [start_eq hm hexact returns hvar, neg_neg] at hge
    exact hge

omit [LinearOrder K] [IsStrictOrderedRing K] in
theorem scores_eq [LT K] [DecidableLT K] (m : Maths K) (omega alpha beta : K) (rs scores : List K) (sigma2 : K) :
    (rs.foldl (fun (scores, sigma2) r =>
      (scores ++ [if 0 < sigma2 then m.sqrt sigma2 else 0], omega + alpha * (r * r) + beta * sigma2)) (scores, sigma2)).1 =
      scores ++ (variances omega alpha beta rs sigma2).map fun v => if 0 < v then m.sqrt v else 0 := by
  induction rs generalizing scores sigma2 with
  | nil => simp [variances]
  | cons r rs ih =>
    rw [List.foldl_cons, ih, variances, List.map_cons, List.append_assoc]
    rfl

/-- A reported fit gives every bar a positive volatility. -/
theorem scores_pos (hm : m.Positive) (hsort : Sorts sort) {fit : Garch11Fit K} (h : garch11Fit m sort returns = some fit)
    (hfinite : m.isFinite fit.logLik = true) :
    (rollingGarchScores m sort returns).length = returns.length ∧ ∀ score ∈ rollingGarchScores m sort returns, 0 < score := by
  have hfit := garch11Fit_admissible hm hsort h
  have hdenom := denom_gt hfit.stationary
  have hsigma : 0 < fit.omega / (1 - fit.alpha - fit.beta) := div_pos hfit.omega_pos (lt_trans (by norm_num) hdenom)
  have hlen : ¬ returns.length < 10 := fun hlt => by
    rw [garch11Fit, if_pos hlt] at h
    cases h
  unfold rollingGarchScores
  dsimp only
  rw [if_neg hlen, h]
  dsimp only
  rw [if_neg (not_not.2 hfinite), if_neg (not_not.2 hdenom), scores_eq, List.nil_append]
  refine ⟨by rw [List.length_map, length_variances], fun score hscore => ?_⟩
  obtain ⟨v, hv, rfl⟩ := List.mem_map.1 hscore
  have hpos := variances_pos hfit.omega_pos hfit.alpha_pos hfit.beta_pos returns hsigma v hv
  rw [if_pos hpos]
  exact hm.sqrt v hpos

/-- The values of a search stay the objective at its vertices and the lowest never rises, so a reported fit is admissible,
no worse than its start, and gives every bar a positive volatility. -/
theorem garch_never_worse (hm : m.Positive) (hsort : Sorts sort) :
    (∀ (B : Type) [LinearOrder B] (f : Vec3 K → B) (x0 : Vec3 K) (initialStep : K),
      (∀ n, ((iteration sort f)^[n] (startSimplex f x0 initialStep)).Cached f ∧
        ((iteration sort f)^[n + 1] (startSimplex f x0 initialStep)).lowest ≤
          ((iteration sort f)^[n] (startSimplex f x0 initialStep)).lowest) ∧
      (nelderMead sort f x0 initialStep).2 = f (nelderMead sort f x0 initialStep).1 ∧
      ∀ i, (nelderMead sort f x0 initialStep).2 ≤ f ((startSimplex f x0 initialStep).simplex.get i)) ∧
    ∀ returns fit, garch11Fit m sort returns = some fit → m.isFinite fit.logLik = true →
      Admissible m returns fit ∧ (rollingGarchScores m sort returns).length = returns.length ∧
      ∀ score ∈ rollingGarchScores m sort returns, 0 < score := by
  refine ⟨fun B _ f x0 initialStep => ⟨fun n => ?_, nelderMead_best hsort f x0 initialStep⟩, fun returns fit h hfinite => ?_⟩
  · exact ⟨iterate_cached (start_cached f x0 initialStep) n, iterate_lowest hsort f _ n⟩
  · exact ⟨garch11Fit_admissible hm hsort h, scores_pos hm hsort h hfinite⟩

end

/-! ### The reals -/

noncomputable def realMaths : Maths ℝ where
  exp := Real.exp
  log := Real.log
  sqrt := Real.sqrt
  isFinite := fun _ => true

theorem realMaths_positive : realMaths.Positive := ⟨Real.exp_pos, fun _ => Real.sqrt_pos.2⟩

theorem realMaths_exact : realMaths.Exact := ⟨fun _ => Real.exp_log, Real.exp_neg, fun _ => rfl⟩

/-- A stable sort. -/
def mergeIndices : IndexSort := fun less =>
  ⟨((List.finRange 4).mergeSort fun a b => !less b a).toArray, by rw [List.size_toArray, List.length_mergeSort, List.length_finRange]⟩

theorem mergeIndices_sorts : Sorts mergeIndices := by
  intro less hless
  have hlen : ((List.finRange 4).mergeSort fun a b => !less b a).length = 4 := by rw [List.length_mergeSort, List.length_finRange]
  have hget : ∀ i : Fin 4, (mergeIndices less).get i = ((List.finRange 4).mergeSort fun a b => !less b a).get (i.cast hlen.symm) :=
    fun _ => rfl
  refine ⟨fun a => ?_, fun i j hij => ?_⟩
  · have hmem : a ∈ (List.finRange 4).mergeSort fun a b => !less b a := List.mem_mergeSort.2 (List.mem_finRange a)
    obtain ⟨k, heq⟩ := List.get_of_mem hmem
    exact ⟨k.cast hlen, (hget _).trans heq⟩
  · rcases hij.eq_or_lt with rfl | hlt
    · exact hless.irrefl _
    have hsorted : ((List.finRange 4).mergeSort fun a b => !less b a).Pairwise fun a b => (!less b a) = true := by
      refine List.pairwise_mergeSort (fun a b c hab hbc => ?_) (fun a b => ?_) _
      · rw [Bool.not_eq_true'] at hab hbc ⊢
        exact hless.neg_trans c b a hbc hab
      · rw [Bool.or_eq_true, Bool.not_eq_true', Bool.not_eq_true']
        by_contra hboth
        rw [not_or, Bool.not_eq_false, Bool.not_eq_false] at hboth
        have hself := hless.trans a b a hboth.2 hboth.1
        rw [hless.irrefl] at hself
        cases hself
    have hpair := List.pairwise_iff_get.1 hsorted (i.cast hlen.symm) (j.cast hlen.symm) hlt
    rw [hget, hget]
    simpa using hpair

/-- Returns of one size have that size as their deviation. -/
def alternating : List ℝ := [1, -1, 1, -1, 1, -1, 1, -1, 1, -1]

theorem alternating_variance : sampleVariance alternating = 1 := by
  norm_num [sampleVariance, alternating]

theorem alternating_start : negLogLik realMaths alternating (startPoint realMaths 1) < kPenalty := by
  rw [start_eq realMaths_positive realMaths_exact alternating one_pos]
  norm_num [logLikelihood, alternating, variances, kLn2Pi, kPenalty, realMaths]

theorem garch_never_worse_alternating : ∃ fit, garch11Fit realMaths mergeIndices alternating = some fit ∧
    Admissible realMaths alternating fit ∧ (rollingGarchScores realMaths mergeIndices alternating).length = 10 ∧
    ∀ score ∈ rollingGarchScores realMaths mergeIndices alternating, 0 < score := by
  obtain ⟨hsearch, hfit⟩ := garch_never_worse realMaths_positive mergeIndices_sorts
  have hbest := (hsearch ℝ (negLogLik realMaths alternating) (startPoint realMaths 1) 0.5).2.2 0
  have hlt := lt_of_le_of_lt hbest alternating_start
  obtain ⟨fit, h⟩ : ∃ fit, garch11Fit realMaths mergeIndices alternating = some fit := by
    unfold garch11Fit
    dsimp only
    rw [if_neg (by simp [alternating]), alternating_variance, if_neg (by norm_num), if_neg]
    · exact ⟨_, rfl⟩
    · rintro (hfinite | hle)
      · exact hfinite rfl
      · exact absurd hlt (not_lt.2 hle)
  exact ⟨fit, h, hfit alternating fit h rfl⟩

end Garch
end StratForge
