import Mathlib.Algebra.BigOperators.Field
import Mathlib.Algebra.BigOperators.Fin
import Mathlib.Algebra.Order.BigOperators.Ring.Finset
import Mathlib.Algebra.Order.Field.Basic
import Mathlib.Analysis.SpecialFunctions.Log.Basic
import Mathlib.Analysis.SpecialFunctions.Sqrt
import Mathlib.Tactic.FieldSimp
import Mathlib.Tactic.NormNum.OfScientific
import Mathlib.Tactic.Ring
import StratForge.Trellis

/-!
# The two-state hidden Markov model (`stats/hmm2.hpp`)

The fit works with logarithms of weights. Read exactly (`LogWeight`), `log_sum_exp` adds the weights, and one E-step is
forward-backward on the trellis of its parameters (`Exact`), whatever the positive weights. The M-step keeps them
positive, so this goes for every E-step of the fit.
-/

namespace StratForge
namespace Hmm2

/-- What the code does with a `double` that is the logarithm of one. -/
class LogDomain (L : Type) (K : outParam Type) extends Add L, Sub L, Zero L, BEq L where
  negInf : L
  max : L → L → L
  log : K → L
  exp : L → K

open LogDomain (negInf log exp)

def logSumExp {K L : Type} [LogDomain L K] [Add K] (a b : L) : L :=
  if a == negInf then b
  else if b == negInf then a
  else
    let m := LogDomain.max a b
    m + log (exp (a - m) + exp (b - m))

structure Params (K : Type) where
  pi0 : K
  pi1 : K
  A00 : K
  A01 : K
  A10 : K
  A11 : K
  mu0 : K
  mu1 : K
  sigma0 : K
  sigma1 : K

/-! ### E-step

Both states at once; `b t` is the logarithm of the emission weights of bar `t`. -/

section
variable {K L : Type} [LogDomain L K] [Add K] (p : Params K) (b : Nat → L × L)

def logAlpha : Nat → L × L
  | 0 => (log p.pi0 + (b 0).1, log p.pi1 + (b 0).2)
  | t + 1 =>
    let (alpha0, alpha1) := logAlpha t
    let (b0, b1) := b (t + 1)
    (logSumExp (alpha0 + log p.A00) (alpha1 + log p.A10) + b0, logSumExp (alpha0 + log p.A01) (alpha1 + log p.A11) + b1)

def logLikelihood (T : Nat) : L := logSumExp (logAlpha p b (T - 1)).1 (logAlpha p b (T - 1)).2

/-- `log_beta` at `t`, with the bars that are left after it. -/
def logBetaLeft (t : Nat) : Nat → L × L
  | 0 => (0, 0)
  | left + 1 =>
    let (beta0, beta1) := logBetaLeft (t + 1) left
    let (b0, b1) := b (t + 1)
    (logSumExp (log p.A00 + b0 + beta0) (log p.A01 + b1 + beta1), logSumExp (log p.A10 + b0 + beta0) (log p.A11 + b1 + beta1))

def logBeta (T t : Nat) : L × L := logBetaLeft p b t (T - 1 - t)

def logGamma (T t : Nat) : L × L :=
  let num0 := (logAlpha p b t).1 + (logBeta p b T t).1
  let num1 := (logAlpha p b t).2 + (logBeta p b T t).2
  let denom := logSumExp num0 num1
  (num0 - denom, num1 - denom)

/-- `log_xi00`, `log_xi01` and `log_xi10`, `log_xi11`. -/
def logXi (T t : Nat) : (L × L) × (L × L) :=
  let (alpha0, alpha1) := logAlpha p b t
  let (b0, b1) := b (t + 1)
  let (beta0, beta1) := logBeta p b T (t + 1)
  let e00 := alpha0 + log p.A00 + b0 + beta0
  let e01 := alpha0 + log p.A01 + b1 + beta1
  let e10 := alpha1 + log p.A10 + b0 + beta0
  let e11 := alpha1 + log p.A11 + b1 + beta1
  let denom := logSumExp (logSumExp e00 e01) (logSumExp e10 e11)
  ((e00 - denom, e01 - denom), (e10 - denom, e11 - denom))

/-! ### M-step -/

def logSums (values : Nat → L) (n : Nat) : L := (List.range n).foldl (fun sum t => logSumExp sum (values t)) negInf

/-- The rows of the transition matrix, not yet normalised. -/
def transitions (T : Nat) : (K × K) × (K × K) :=
  let sumG0 := logSums (fun t => (logGamma p b T t).1) (T - 1)
  let sumG1 := logSums (fun t => (logGamma p b T t).2) (T - 1)
  ((exp (logSums (fun t => (logXi p b T t).1.1) (T - 1) - sumG0), exp (logSums (fun t => (logXi p b T t).1.2) (T - 1) - sumG0)),
   (exp (logSums (fun t => (logXi p b T t).2.1) (T - 1) - sumG1), exp (logSums (fun t => (logXi p b T t).2.2) (T - 1) - sumG1)))

end

section
variable {K L : Type} [LogDomain L K] [Zero K] [Add K] [Sub K] [Mul K] [Div K] [LT K] [DecidableLT K] [OfScientific K]

def renormalize (row : K × K) : K × K :=
  let s := row.1 + row.2
  if 0 < s then (row.1 / s, row.2 / s) else row

/-- What the fit calls: `std::sqrt`, the logarithm of the normal density, and its convergence check, of the last
log-likelihood and this one. -/
structure Calls (K L : Type) where
  sqrt : K → K
  logGaussianPdf : K → K → K → L
  converged : L → L → Bool

variable (calls : Calls K L) (series : List K) (globalSd : K)

def emissions (p : Params K) (t : Nat) : L × L :=
  let y := series.getD t 0
  (calls.logGaussianPdf y p.mu0 p.sigma0, calls.logGaussianPdf y p.mu1 p.sigma1)

/-- The mean and the deviation of one state. -/
def emissionParams (gamma : Nat → L) (mu sigma : K) : K × K :=
  let T := series.length
  let denomMu := exp (logSums gamma T)
  let numMu := (List.range T).foldl (fun num t => num + exp (gamma t) * series.getD t 0) 0
  let mu := if 0 < denomMu then numMu / denomMu else mu
  let numV := (List.range T).foldl (fun num t =>
    let d := series.getD t 0 - mu
    num + exp (gamma t) * d * d) 0
  let sigma :=
    if 0 < denomMu then
      let v := numV / denomMu
      if 1e-12 < v then calls.sqrt v else globalSd * 1e-3
    else sigma
  (mu, sigma)

def mStep (p : Params K) : Params K :=
  let T := series.length
  let b := emissions calls series p
  let (row0, row1) := transitions p b T
  let (A00, A01) := renormalize row0
  let (A10, A11) := renormalize row1
  let (mu0, sigma0) := emissionParams calls series globalSd (fun t => (logGamma p b T t).1) p.mu0 p.sigma0
  let (mu1, sigma1) := emissionParams calls series globalSd (fun t => (logGamma p b T t).2) p.mu1 p.sigma1
  { pi0 := exp (logGamma p b T 0).1, pi1 := exp (logGamma p b T 0).2, A00, A01, A10, A11, mu0, mu1, sigma0, sigma1 }

/-- What an E-step leaves for the result. -/
structure Posteriors (L : Type) where
  logGamma0 : Nat → L
  logLik : L

def eStep (p : Params K) : Posteriors L where
  logGamma0 := fun t => (logGamma p (emissions calls series p) series.length t).1
  logLik := logLikelihood p (emissions calls series p) series.length

/-- The iterations that are left. -/
def em : Nat → Params K → L → Posteriors L → Posteriors L
  | 0, _, _, last => last
  | iters + 1, p, prevLogLik, _ =>
    let now := eStep calls series p
    if calls.converged prevLogLik now.logLik then now else em iters (mStep calls series globalSd p) now.logLik now

structure HmmResult (K L : Type) where
  pState0 : List K
  /-- None is NaN. -/
  logLik : Option L

/-- The guard against a partition without variance. -/
def guardSigma (sigma : K) : K := if ¬ 1e-9 < sigma then globalSd else sigma

variable [LE K] [DecidableLE K] [NatCast K]

/-- The mean of some values and their deviation from it. -/
def meanDeviation (values : List K) : K × K :=
  let n := (values.length : K)
  let mu := values.foldl (· + ·) 0 / n
  let v := values.foldl (fun v y =>
    let d := y - mu
    v + d * d) 0
  (mu, calls.sqrt (v / n))

/-- The parameters the fit begins with, and the deviation of the series. -/
def initialization : Option (Params K × K) :=
  let T := series.length
  if T < 10 then none
  else
    let sortedY := series.mergeSort fun x y => decide (x ≤ y)
    let median := sortedY.getD (T / 2) 0
    let lo := series.filter fun v => decide (v < median)
    let hi := series.filter fun v => !decide (v < median)
    if lo.length = 0 ∨ hi.length = 0 then none
    else
      let (mu0, sigma0) := meanDeviation calls lo
      let (mu1, sigma1) := meanDeviation calls hi
      let globalSd := (meanDeviation calls series).2
      if ¬ 0 < globalSd then none
      else
        let sigma0 := guardSigma globalSd sigma0
        let sigma1 := guardSigma globalSd sigma1
        some ({ pi0 := 0.5, pi1 := 0.5, A00 := 0.95, A01 := 0.05, A10 := 0.05, A11 := 0.95, mu0, mu1, sigma0, sigma1 }, globalSd)

def hmm2Gaussian (maxIter : Nat) : HmmResult K L :=
  match initialization calls series with
  | none => { pState0 := [], logLik := none }
  | some (p, globalSd) =>
    let last := em calls series globalSd maxIter p negInf { logGamma0 := fun _ => 0, logLik := negInf }
    { pState0 := (List.range series.length).map fun t => exp (last.logGamma0 t), logLik := some last.logLik }

end

/-! ### Weights -/

/-- A logarithm, by what it is the logarithm of. -/
structure LogWeight (K : Type) where
  weight : K

namespace LogWeight
variable {K : Type} [Field K] [LinearOrder K]

instance : LogDomain (LogWeight K) K where
  add a b := ⟨a.weight * b.weight⟩
  sub a b := ⟨a.weight / b.weight⟩
  zero := ⟨1⟩
  beq a b := decide (a.weight = b.weight)
  negInf := ⟨0⟩
  max a b := if a.weight < b.weight then b else a
  log x := ⟨x⟩
  exp a := a.weight

@[simp] theorem weight_add (a b : LogWeight K) : (a + b).weight = a.weight * b.weight := rfl

@[simp] theorem weight_sub (a b : LogWeight K) : (a - b).weight = a.weight / b.weight := rfl

@[simp] theorem weight_zero : (0 : LogWeight K).weight = 1 := rfl

@[simp] theorem weight_negInf : (negInf : LogWeight K).weight = 0 := rfl

@[simp] theorem weight_log (x : K) : (log x : LogWeight K).weight = x := rfl

@[simp] theorem exp_eq (a : LogWeight K) : exp a = a.weight := rfl

theorem beq_negInf (a : LogWeight K) : (a == negInf) = true ↔ a.weight = 0 := decide_eq_true_iff

@[simp] theorem weight_logSumExp (a b : LogWeight K) : (logSumExp a b).weight = a.weight + b.weight := by
  unfold logSumExp
  by_cases ha : a.weight = 0
  · rw [if_pos ((beq_negInf a).2 ha), ha, zero_add]
  rw [if_neg fun h => ha ((beq_negInf a).1 h)]
  by_cases hb : b.weight = 0
  · rw [if_pos ((beq_negInf b).2 hb), hb, add_zero]
  rw [if_neg fun h => hb ((beq_negInf b).1 h)]
  have hm : (LogDomain.max a b).weight ≠ 0 := by
    show (if a.weight < b.weight then b else a).weight ≠ 0
    split_ifs
    · exact hb
    · exact ha
  simp only [weight_add, weight_log, exp_eq, weight_sub]
  field_simp

theorem weight_logSums (values : Nat → LogWeight K) (n : Nat) :
    (logSums values n).weight = ∑ t ∈ Finset.range n, (values t).weight := by
  induction n with
  | zero => rfl
  | succ n ih =>
    rw [Finset.sum_range_succ, ← ih, logSums, List.range_succ, List.foldl_append]
    exact weight_logSumExp _ _

end LogWeight

/-! ### An E-step is exact -/

section
variable {K : Type} [Field K] [LinearOrder K]

def trellis (p : Params K) (b : Nat → LogWeight K × LogWeight K) : Trellis (Fin 2) K where
  first := ![p.pi0, p.pi1]
  move := ![![p.A00, p.A01], ![p.A10, p.A11]]
  emit := fun t => ![(b t).1.weight, (b t).2.weight]

variable (p : Params K) (b : Nat → LogWeight K × LogWeight K)

theorem weight_logAlpha (t : Nat) :
    (logAlpha p b t).1.weight = (trellis p b).ending t 0 ∧ (logAlpha p b t).2.weight = (trellis p b).ending t 1 := by
  induction t with
  | zero => constructor <;> rw [Trellis.ending_zero] <;> rfl
  | succ t ih =>
    obtain ⟨h0, h1⟩ := ih
    constructor
    all_goals
      rw [Trellis.ending_succ, Fin.sum_univ_two, ← h0, ← h1, logAlpha]
      dsimp only
      rw [LogWeight.weight_add, LogWeight.weight_logSumExp, LogWeight.weight_add, LogWeight.weight_add]
      rfl

theorem weight_logBetaLeft (t left : Nat) :
    (logBetaLeft p b t left).1.weight = ((trellis p b).after t 0).all left ∧
      (logBetaLeft p b t left).2.weight = ((trellis p b).after t 1).all left := by
  induction left generalizing t with
  | zero => constructor <;> rw [Trellis.all_zero] <;> rfl
  | succ left ih =>
    obtain ⟨h0, h1⟩ := ih (t + 1)
    constructor
    all_goals
      rw [Trellis.all_after_succ, Fin.sum_univ_two, ← h0, ← h1, logBetaLeft]
      dsimp only
      rw [LogWeight.weight_logSumExp, LogWeight.weight_add, LogWeight.weight_add, LogWeight.weight_add, LogWeight.weight_add]
      rfl

/-- Forward times backward at a bar, by the state of the paths there. -/
theorem weight_alpha_beta (m t : Nat) :
    (logAlpha p b t).1.weight * (logBeta p b (m + t + 1) t).1.weight = (trellis p b).through m t 0 ∧
      (logAlpha p b t).2.weight * (logBeta p b (m + t + 1) t).2.weight = (trellis p b).through m t 1 := by
  obtain ⟨halpha0, halpha1⟩ := weight_logAlpha p b t
  obtain ⟨hbeta0, hbeta1⟩ := weight_logBetaLeft p b t (m + t + 1 - 1 - t)
  have hleft : m + t + 1 - 1 - t = m := by omega
  rw [Trellis.through_eq, Trellis.through_eq, halpha0, halpha1, logBeta, hbeta0, hbeta1, hleft]
  exact ⟨rfl, rfl⟩

theorem sum_alpha_beta (m t : Nat) :
    (logAlpha p b t).1.weight * (logBeta p b (m + t + 1) t).1.weight +
      (logAlpha p b t).2.weight * (logBeta p b (m + t + 1) t).2.weight = (trellis p b).all (m + t + 1) := by
  obtain ⟨h0, h1⟩ := weight_alpha_beta p b m t
  rw [h0, h1, ← Trellis.sum_through, Fin.sum_univ_two]

theorem weight_logLikelihood {T : Nat} (hT : 0 < T) : (logLikelihood p b T).weight = (trellis p b).all T := by
  obtain ⟨T, rfl⟩ := Nat.exists_eq_add_of_lt hT
  obtain ⟨h0, h1⟩ := weight_logAlpha p b T
  rw [Nat.zero_add, logLikelihood, LogWeight.weight_logSumExp, Nat.add_sub_cancel, h0, h1, ← Trellis.sum_ending, Fin.sum_univ_two]

theorem weight_logGamma (m t : Nat) :
    (logGamma p b (m + t + 1) t).1.weight = (trellis p b).through m t 0 / (trellis p b).all (m + t + 1) ∧
      (logGamma p b (m + t + 1) t).2.weight = (trellis p b).through m t 1 / (trellis p b).all (m + t + 1) := by
  obtain ⟨h0, h1⟩ := weight_alpha_beta p b m t
  rw [← sum_alpha_beta p b m t, ← h0, ← h1, logGamma]
  simp only [LogWeight.weight_sub, LogWeight.weight_logSumExp, LogWeight.weight_add, and_self]

/-- The two pairs of a state share its posterior. -/
theorem weight_logXi (m t : Nat) :
    (logXi p b (m + 1 + t + 1) t).1.1.weight + (logXi p b (m + 1 + t + 1) t).1.2.weight =
        (logGamma p b (m + 1 + t + 1) t).1.weight ∧
      (logXi p b (m + 1 + t + 1) t).2.1.weight + (logXi p b (m + 1 + t + 1) t).2.2.weight =
        (logGamma p b (m + 1 + t + 1) t).2.weight := by
  have hbeta : logBeta p b (m + 1 + t + 1) t = logBetaLeft p b t (m + 1) := by
    rw [logBeta]
    congr 1
    omega
  have hnext : logBeta p b (m + 1 + t + 1) (t + 1) = logBetaLeft p b (t + 1) m := by
    rw [logBeta]
    congr 1
    omega
  constructor
  all_goals
    simp only [logXi, logGamma, hbeta, hnext, logBetaLeft, LogWeight.weight_sub, LogWeight.weight_logSumExp, LogWeight.weight_add,
      LogWeight.weight_log]
    ring

/-- The E-step of `T` bars is forward-backward: what the arrays hold, by the paths through the trellis. -/
structure Exact (T : Nat) : Prop where
  alpha : ∀ t < T, (logAlpha p b t).1.weight = (trellis p b).ending t 0 ∧ (logAlpha p b t).2.weight = (trellis p b).ending t 1
  beta : ∀ t < T, (logBeta p b T t).1.weight = ((trellis p b).after t 0).all (T - 1 - t) ∧
    (logBeta p b T t).2.weight = ((trellis p b).after t 1).all (T - 1 - t)
  product : ∀ t < T, (logAlpha p b t).1.weight * (logBeta p b T t).1.weight +
    (logAlpha p b t).2.weight * (logBeta p b T t).2.weight = (trellis p b).all T
  likelihood : (logLikelihood p b T).weight = (trellis p b).all T
  posterior : ∀ t, ∀ h : t < T,
    (logGamma p b T t).1.weight = (trellis p b).total T (fun path => path ⟨t, h⟩ = 0) / (trellis p b).all T
  gamma : ∀ t < T, (logGamma p b T t).1.weight + (logGamma p b T t).2.weight = 1
  xi : ∀ t < T - 1, (logXi p b T t).1.1.weight + (logXi p b T t).1.2.weight = (logGamma p b T t).1.weight ∧
    (logXi p b T t).2.1.weight + (logXi p b T t).2.2.weight = (logGamma p b T t).2.weight
  rows : (transitions p b T).1.1 + (transitions p b T).1.2 = 1 ∧ (transitions p b T).2.1 + (transitions p b T).2.2 = 1

variable {p b} {T : Nat}

theorem logXi_sum {t : Nat} (h : t < T - 1) :
    (logXi p b T t).1.1.weight + (logXi p b T t).1.2.weight = (logGamma p b T t).1.weight ∧
      (logXi p b T t).2.1.weight + (logXi p b T t).2.2.weight = (logGamma p b T t).2.weight := by
  obtain ⟨m, rfl⟩ : ∃ m, T = m + 1 + t + 1 := ⟨T - t - 2, by omega⟩
  exact weight_logXi p b m t

variable [IsStrictOrderedRing K]

theorem logGamma_pos (h : (trellis p b).Positive T) {t : Nat} (ht : t < T) :
    0 < (logGamma p b T t).1.weight ∧ 0 < (logGamma p b T t).2.weight := by
  obtain ⟨m, rfl⟩ : ∃ m, T = m + t + 1 := ⟨T - t - 1, by omega⟩
  obtain ⟨h0, h1⟩ := weight_logGamma p b m t
  rw [h0, h1]
  exact ⟨div_pos (h.through_pos 0) h.all_pos, div_pos (h.through_pos 1) h.all_pos⟩

theorem logXi_pos (h : (trellis p b).Positive T) {t : Nat} (ht : t < T - 1) :
    (0 < (logXi p b T t).1.1.weight ∧ 0 < (logXi p b T t).1.2.weight) ∧
      (0 < (logXi p b T t).2.1.weight ∧ 0 < (logXi p b T t).2.2.weight) := by
  have halpha : 0 < (logAlpha p b t).1.weight ∧ 0 < (logAlpha p b t).2.weight := by
    obtain ⟨h0, h1⟩ := weight_logAlpha p b t
    rw [h0, h1]
    exact ⟨(h.mono (by omega)).ending_pos 0, (h.mono (by omega)).ending_pos 1⟩
  have hbeta : 0 < (logBeta p b T (t + 1)).1.weight ∧ 0 < (logBeta p b T (t + 1)).2.weight := by
    obtain ⟨h0, h1⟩ := weight_logBetaLeft p b (t + 1) (T - 1 - (t + 1))
    rw [logBeta, h0, h1]
    exact ⟨((h.mono (by omega)).after 0).all_pos, ((h.mono (by omega)).after 1).all_pos⟩
  obtain ⟨halpha0, halpha1⟩ := halpha
  obtain ⟨hbeta0, hbeta1⟩ := hbeta
  have hA00 : 0 < p.A00 := h.move 0 0
  have hA01 : 0 < p.A01 := h.move 0 1
  have hA10 : 0 < p.A10 := h.move 1 0
  have hA11 : 0 < p.A11 := h.move 1 1
  have hb0 : 0 < (b (t + 1)).1.weight := h.emit (t + 1) (by omega) 0
  have hb1 : 0 < (b (t + 1)).2.weight := h.emit (t + 1) (by omega) 1
  simp only [logXi, LogWeight.weight_sub, LogWeight.weight_logSumExp, LogWeight.weight_add, LogWeight.weight_log]
  refine ⟨⟨?_, ?_⟩, ?_, ?_⟩ <;> positivity

/-- A row of the transition matrix sums to one. -/
theorem row_sum {xi0 xi1 gamma : Nat → LogWeight K} {n : Nat} (hn : 0 < n) (hsum : ∀ t < n, (xi0 t).weight + (xi1 t).weight = (gamma t).weight)
    (hpos : ∀ t < n, 0 < (gamma t).weight) :
    exp (logSums xi0 n - logSums gamma n) + exp (logSums xi1 n - logSums gamma n) = 1 := by
  simp only [LogWeight.exp_eq, LogWeight.weight_sub, LogWeight.weight_logSums]
  have hgamma : 0 < ∑ t ∈ Finset.range n, (gamma t).weight :=
    Finset.sum_pos (fun t ht => hpos t (Finset.mem_range.1 ht)) ⟨0, Finset.mem_range.2 hn⟩
  rw [← add_div, ← Finset.sum_add_distrib, Finset.sum_congr rfl fun t ht => hsum t (Finset.mem_range.1 ht), div_self hgamma.ne']

theorem eStep_exact (h : (trellis p b).Positive T) (hT : 2 ≤ T) : Exact p b T where
  alpha := fun t _ => weight_logAlpha p b t
  beta := fun t _ => weight_logBetaLeft p b t (T - 1 - t)
  product := fun t ht => by
    obtain ⟨m, rfl⟩ : ∃ m, T = m + t + 1 := ⟨T - t - 1, by omega⟩
    exact sum_alpha_beta p b m t
  likelihood := weight_logLikelihood p b (by omega)
  posterior := fun t ht => by
    obtain ⟨m, rfl⟩ : ∃ m, T = m + t + 1 := ⟨T - t - 1, by omega⟩
    exact (weight_logGamma p b m t).1
  gamma := fun t ht => by
    obtain ⟨m, rfl⟩ : ∃ m, T = m + t + 1 := ⟨T - t - 1, by omega⟩
    obtain ⟨h0, h1⟩ := weight_logGamma p b m t
    have hsum := (trellis p b).sum_through m t
    rw [Fin.sum_univ_two] at hsum
    rw [h0, h1, ← add_div, hsum, div_self h.all_pos.ne']
  xi := fun t ht => logXi_sum ht
  rows := ⟨row_sum (by omega) (fun t ht => (logXi_sum ht).1) fun t ht => (logGamma_pos h (by omega)).1,
    row_sum (by omega) (fun t ht => (logXi_sum ht).2) fun t ht => (logGamma_pos h (by omega)).2⟩

end

/-! ### Every E-step of the fit -/

section
variable {K : Type} [Field K] [LinearOrder K]

/-- Positive weights. -/
structure Params.Positive (p : Params K) : Prop where
  pi0 : 0 < p.pi0
  pi1 : 0 < p.pi1
  A00 : 0 < p.A00
  A01 : 0 < p.A01
  A10 : 0 < p.A10
  A11 : 0 < p.A11
  sigma0 : 0 < p.sigma0
  sigma1 : 0 < p.sigma1

/-- The square root and the density of a positive deviation are positive. -/
structure Calls.Positive (calls : Calls K (LogWeight K)) : Prop where
  sqrt : ∀ x, 0 < x → 0 < calls.sqrt x
  pdf : ∀ y mu sigma, 0 < sigma → 0 < (calls.logGaussianPdf y mu sigma).weight

variable {p : Params K} {b : Nat → LogWeight K × LogWeight K} {calls : Calls K (LogWeight K)} {series : List K} {globalSd : K} {T : Nat}

theorem Params.Positive.trellis (h : p.Positive) (hb : ∀ t < T, 0 < (b t).1.weight ∧ 0 < (b t).2.weight) : (trellis p b).Positive T where
  first := Fin.forall_fin_two.2 ⟨h.pi0, h.pi1⟩
  move := Fin.forall_fin_two.2 ⟨Fin.forall_fin_two.2 ⟨h.A00, h.A01⟩, Fin.forall_fin_two.2 ⟨h.A10, h.A11⟩⟩
  emit := fun t ht => Fin.forall_fin_two.2 (hb t ht)

theorem Calls.Positive.emissions (hcalls : calls.Positive) (h : p.Positive) (t : Nat) :
    0 < (emissions calls series p t).1.weight ∧ 0 < (emissions calls series p t).2.weight :=
  ⟨hcalls.pdf _ _ _ h.sigma0, hcalls.pdf _ _ _ h.sigma1⟩

variable [IsStrictOrderedRing K]

theorem renormalize_pos {x y : K} (hx : 0 < x) (hy : 0 < y) : 0 < (renormalize (x, y)).1 ∧ 0 < (renormalize (x, y)).2 := by
  have hsum : 0 < x + y := add_pos hx hy
  rw [renormalize, if_pos hsum]
  exact ⟨div_pos hx hsum, div_pos hy hsum⟩

theorem emissionParams_pos (hcalls : calls.Positive) (hsd : 0 < globalSd) (gamma : Nat → LogWeight K) (mu : K) {sigma : K} (h : 0 < sigma) :
    0 < (emissionParams calls series globalSd gamma mu sigma).2 := by
  unfold emissionParams
  dsimp only
  split_ifs with hdenom hv
  · exact hcalls.sqrt _ (lt_trans (by norm_num) hv)
  · exact mul_pos hsd (by norm_num)
  · exact h

theorem exp_logSums_pos {values gamma : Nat → LogWeight K} {n : Nat} (hn : 0 < n) (hvalues : ∀ t < n, 0 < (values t).weight)
    (hgamma : ∀ t < n, 0 < (gamma t).weight) : 0 < exp (logSums values n - logSums gamma n) := by
  simp only [LogWeight.exp_eq, LogWeight.weight_sub, LogWeight.weight_logSums]
  exact div_pos (Finset.sum_pos (fun t ht => hvalues t (Finset.mem_range.1 ht)) ⟨0, Finset.mem_range.2 hn⟩)
    (Finset.sum_pos (fun t ht => hgamma t (Finset.mem_range.1 ht)) ⟨0, Finset.mem_range.2 hn⟩)

theorem mStep_positive (hcalls : calls.Positive) (hsd : 0 < globalSd) (hT : 2 ≤ series.length) (h : p.Positive) :
    (mStep calls series globalSd p).Positive := by
  have htrellis : (Hmm2.trellis p (emissions calls series p)).Positive series.length := h.trellis fun t _ => hcalls.emissions h t
  have hgamma := fun t (ht : t < series.length - 1) => logGamma_pos htrellis (t := t) (by omega)
  have hxi := fun t (ht : t < series.length - 1) => logXi_pos htrellis ht
  have hfirst := logGamma_pos htrellis (t := 0) (by omega)
  have hn : 0 < series.length - 1 := by omega
  have hrow0 := renormalize_pos (exp_logSums_pos hn (fun t ht => (hxi t ht).1.1) fun t ht => (hgamma t ht).1)
    (exp_logSums_pos hn (fun t ht => (hxi t ht).1.2) fun t ht => (hgamma t ht).1)
  have hrow1 := renormalize_pos (exp_logSums_pos hn (fun t ht => (hxi t ht).2.1) fun t ht => (hgamma t ht).2)
    (exp_logSums_pos hn (fun t ht => (hxi t ht).2.2) fun t ht => (hgamma t ht).2)
  exact {
    pi0 := hfirst.1
    pi1 := hfirst.2
    A00 := hrow0.1
    A01 := hrow0.2
    A10 := hrow1.1
    A11 := hrow1.2
    sigma0 := emissionParams_pos hcalls hsd _ _ h.sigma0
    sigma1 := emissionParams_pos hcalls hsd _ _ h.sigma1 }

/-- The parameters stay positive, so every E-step is exact. -/
theorem iterate_positive (hcalls : calls.Positive) (hsd : 0 < globalSd) (hT : 2 ≤ series.length) (h : p.Positive) (n : Nat) :
    ((mStep calls series globalSd)^[n] p).Positive := by
  induction n with
  | zero => exact h
  | succ n ih =>
    rw [Function.iterate_succ_apply']
    exact mStep_positive hcalls hsd hT ih

omit [IsStrictOrderedRing K] in
/-- What the loop leaves is one of its E-steps. -/
theorem em_eq (calls : Calls K (LogWeight K)) (series : List K) (globalSd : K) (iters : Nat) (p : Params K) (prev : LogWeight K) (last : Posteriors (LogWeight K)) :
    ∃ n ≤ iters, em calls series globalSd (iters + 1) p prev last = eStep calls series ((mStep calls series globalSd)^[n] p) := by
  induction iters generalizing p prev last with
  | zero =>
    refine ⟨0, le_rfl, ?_⟩
    rw [em]
    split_ifs <;> rfl
  | succ iters ih =>
    rw [em]
    by_cases hconv : calls.converged prev (eStep calls series p).logLik = true
    · rw [if_pos hconv]
      exact ⟨0, Nat.zero_le _, rfl⟩
    · rw [if_neg hconv]
      obtain ⟨n, hn, hem⟩ := ih (mStep calls series globalSd p) (eStep calls series p).logLik (eStep calls series p)
      refine ⟨n + 1, by omega, ?_⟩
      rw [Function.iterate_succ_apply]
      exact hem

theorem guardSigma_pos (hsd : 0 < globalSd) (sigma : K) : 0 < guardSigma globalSd sigma := by
  unfold guardSigma
  split_ifs with hlt
  · exact lt_trans (by norm_num) hlt
  · exact hsd

theorem initialization_positive (h : initialization calls series = some (p, globalSd)) : p.Positive ∧ 0 < globalSd := by
  simp only [initialization] at h
  split_ifs at h with hT hsplit hsd
  obtain ⟨rfl, rfl⟩ := Prod.mk.inj (Option.some.inj h)
  refine ⟨⟨?_, ?_, ?_, ?_, ?_, ?_, guardSigma_pos hsd _, guardSigma_pos hsd _⟩, hsd⟩ <;> norm_num

/-- Forward-backward is exact, whatever the positive weights, and so it is at every E-step of the fit; the result is what
one of them says of the paths. -/
theorem forward_backward_exact (hcalls : calls.Positive) (hT : 10 ≤ series.length) :
    (∀ (p : Params K) (b : Nat → LogWeight K × LogWeight K), p.Positive →
      (∀ t < series.length, 0 < (b t).1.weight ∧ 0 < (b t).2.weight) → Exact p b series.length) ∧
    ∀ p globalSd, initialization calls series = some (p, globalSd) →
      (∀ n, Exact ((mStep calls series globalSd)^[n] p) (emissions calls series ((mStep calls series globalSd)^[n] p))
        series.length) ∧
      ∀ iters, ∃ n ≤ iters, ∃ c, c = trellis ((mStep calls series globalSd)^[n] p)
          (emissions calls series ((mStep calls series globalSd)^[n] p)) ∧
        hmm2Gaussian calls series (iters + 1) =
          { pState0 := List.ofFn fun t : Fin series.length => c.total series.length (fun path => path t = 0) / c.all series.length
            logLik := some ⟨c.all series.length⟩ } := by
  have hexact : ∀ (p : Params K) (b : Nat → LogWeight K × LogWeight K), p.Positive →
      (∀ t < series.length, 0 < (b t).1.weight ∧ 0 < (b t).2.weight) → Exact p b series.length :=
    fun p b hp hb => eStep_exact (hp.trellis hb) (by omega)
  refine ⟨hexact, fun p globalSd hinit => ?_⟩
  obtain ⟨hp, hsd⟩ := initialization_positive hinit
  have hsteps : ∀ n, Exact ((mStep calls series globalSd)^[n] p) (emissions calls series ((mStep calls series globalSd)^[n] p))
      series.length := fun n => by
    have hpos : ((mStep calls series globalSd)^[n] p).Positive := iterate_positive hcalls hsd (by omega) hp n
    exact hexact _ _ hpos fun t _ => hcalls.emissions hpos t
  refine ⟨hsteps, fun iters => ?_⟩
  obtain ⟨n, hn, hem⟩ := em_eq calls series globalSd iters p negInf { logGamma0 := fun _ => 0, logLik := negInf }
  have h := hsteps n
  refine ⟨n, hn, _, rfl, ?_⟩
  rw [hmm2Gaussian, hinit]
  dsimp only
  rw [hem]
  refine congrArg₂ HmmResult.mk ?_ (congrArg (fun w => some (LogWeight.mk w)) h.likelihood)
  refine List.ext_getElem (by simp) fun t ht _ => ?_
  rw [List.length_map, List.length_range] at ht
  rw [List.getElem_map, List.getElem_range, List.getElem_ofFn]
  exact h.posterior t ht

end

/-- The calls over the reals: the density with its constant, and a check that is never met before the second iteration. -/
noncomputable def realCalls : Calls ℝ (LogWeight ℝ) where
  sqrt := Real.sqrt
  logGaussianPdf := fun y mu sigma =>
    if ¬ 0 < sigma then negInf
    else
      let d := y - mu
      ⟨Real.exp (-0.5 * (1.8378770664093454835606594728112352 + 2.0 * Real.log sigma + d * d / (sigma * sigma)))⟩
  converged := fun prev now =>
    decide (prev.weight ≠ 0 ∧ Real.log now.weight - Real.log prev.weight < 1e-6 ∧ -1e-3 < Real.log now.weight - Real.log prev.weight)

theorem realCalls_positive : realCalls.Positive where
  sqrt := fun _ => Real.sqrt_pos.2
  pdf := fun y mu sigma hsigma => by
    rw [realCalls]
    dsimp only
    rw [if_neg (not_not.2 hsigma)]
    exact Real.exp_pos _

theorem forward_backward_exact_ten :
    Exact { pi0 := 0.5, pi1 := 0.5, A00 := 0.95, A01 := 0.05, A10 := 0.05, A11 := 0.95, mu0 := 0, mu1 := 1, sigma0 := 1, sigma1 := (1 : ℝ) }
      (fun t => (⟨if t < 5 then 2 else 1⟩, ⟨1⟩)) 10 := by
  obtain ⟨hexact, -⟩ := @forward_backward_exact ℝ _ _ realCalls [0, 1, 0, 1, 0, 2, 3, 2, 3, 2] _ realCalls_positive (by decide)
  refine hexact _ _ ⟨?_, ?_, ?_, ?_, ?_, ?_, ?_, ?_⟩ fun t _ => ⟨?_, one_pos⟩
  all_goals try norm_num
  split_ifs <;> norm_num

end Hmm2
end StratForge
