import StratForge.Hmm2
import StratForge.Reestimation

/-!
# The fit of the hidden Markov model does not lower the likelihood (`stats/hmm2.hpp`)

The M-step is a reestimation of the trellis of its E-step (`mStep_reestimated`): the prior, the transitions and, as long
as neither state collapses, the normal densities. So each iteration finds a likelihood at least as great as the one
before, and the fit ends with one at least as great as that of its start (`likelihood_rises`).
-/

namespace StratForge
namespace Hmm2

open LogDomain (negInf log exp)

/-! ### What the E-step says of the paths -/

section
variable {K : Type} [Field K] [LinearOrder K] (p : Params K) (b : Nat → LogWeight K × LogWeight K)

/-- `log_gamma0` and `log_gamma1`. -/
def gammaOf (T : Nat) (s : Fin 2) (t : Nat) : LogWeight K := ![(logGamma p b T t).1, (logGamma p b T t).2] s

/-- `log_xi00` to `log_xi11`. -/
def xiOf (T : Nat) (s s' : Fin 2) (t : Nat) : LogWeight K :=
  ![![(logXi p b T t).1.1, (logXi p b T t).1.2], ![(logXi p b T t).2.1, (logXi p b T t).2.2]] s s'

variable {T : Nat}

theorem weight_gammaOf {t : Nat} (h : t < T) (s : Fin 2) :
    (gammaOf p b T s t).weight = (trellis p b).total T (fun path => path ⟨t, h⟩ = s) / (trellis p b).all T := by
  obtain ⟨m, rfl⟩ : ∃ m, T = m + t + 1 := ⟨T - t - 1, by omega⟩
  obtain ⟨h0, h1⟩ := weight_logGamma p b m t
  revert s
  exact Fin.forall_fin_two.2 ⟨h0, h1⟩

/-- The pairs of states, by how much of the total makes the move. -/
theorem weight_xiOf {t : Nat} (h : t + 1 < T) (s s' : Fin 2) :
    (xiOf p b T s s' t).weight =
      (trellis p b).total T (fun path => path ⟨t, by omega⟩ = s ∧ path ⟨t + 1, h⟩ = s') / (trellis p b).all T := by
  obtain ⟨m, rfl⟩ : ∃ m, T = m + 1 + t + 1 := ⟨T - t - 2, by omega⟩
  have hnext : logBeta p b (m + 1 + t + 1) (t + 1) = logBetaLeft p b (t + 1) m := by
    rw [logBeta]
    congr 1
    omega
  have hpairs : ∑ s : Fin 2, ∑ s' : Fin 2, (trellis p b).ending t s *
      ((trellis p b).move s s' * (trellis p b).emit (t + 1) s' * ((trellis p b).after (t + 1) s').all m) =
      (trellis p b).all (m + 1 + t + 1) := by
    rw [← Trellis.sum_through]
    refine Finset.sum_congr rfl fun s _ => ?_
    rw [Trellis.through_eq, Trellis.all_after_succ, Finset.mul_sum]
  have halpha : ∀ s, (trellis p b).ending t s = ![(logAlpha p b t).1.weight, (logAlpha p b t).2.weight] s :=
    Fin.forall_fin_two.2 ⟨(weight_logAlpha p b t).1.symm, (weight_logAlpha p b t).2.symm⟩
  have hbeta : ∀ s, ((trellis p b).after (t + 1) s).all m =
      ![(logBetaLeft p b (t + 1) m).1.weight, (logBetaLeft p b (t + 1) m).2.weight] s :=
    Fin.forall_fin_two.2 ⟨(weight_logBetaLeft p b (t + 1) m).1.symm, (weight_logBetaLeft p b (t + 1) m).2.symm⟩
  have hmove : ∀ s s', (trellis p b).move s s' = ![![p.A00, p.A01], ![p.A10, p.A11]] s s' := fun _ _ => rfl
  have hemit : ∀ s, (trellis p b).emit (t + 1) s = ![(b (t + 1)).1.weight, (b (t + 1)).2.weight] s := fun _ => rfl
  rw [Trellis.total_passes, ← hpairs]
  simp only [xiOf, halpha, hbeta, hmove, hemit, logXi, hnext, Fin.sum_univ_two]
  fin_cases s <;> fin_cases s' <;> simp [mul_assoc, add_assoc]

theorem sum_xiOf {t : Nat} (h : t < T - 1) (s : Fin 2) :
    (xiOf p b T s 0 t).weight + (xiOf p b T s 1 t).weight = (gammaOf p b T s t).weight := by
  obtain ⟨h0, h1⟩ := logXi_sum (p := p) (b := b) h
  revert s
  exact Fin.forall_fin_two.2 ⟨h0, h1⟩

variable [IsStrictOrderedRing K]

theorem gammaOf_pos (h : (trellis p b).Positive T) {t : Nat} (ht : t < T) (s : Fin 2) : 0 < (gammaOf p b T s t).weight := by
  obtain ⟨h0, h1⟩ := logGamma_pos h ht
  revert s
  exact Fin.forall_fin_two.2 ⟨h0, h1⟩

theorem xiOf_pos (h : (trellis p b).Positive T) {t : Nat} (ht : t < T - 1) (s s' : Fin 2) : 0 < (xiOf p b T s s' t).weight := by
  obtain ⟨⟨h00, h01⟩, h10, h11⟩ := logXi_pos h ht
  revert s s'
  exact Fin.forall_fin_two.2 ⟨Fin.forall_fin_two.2 ⟨h00, h01⟩, Fin.forall_fin_two.2 ⟨h10, h11⟩⟩

omit [IsStrictOrderedRing K] in
/-- What is divided by `s` does not matter to a row. -/
theorem renormalize_div {x y s : K} (hs : s ≠ 0) (hsum : 0 < x / s + y / s) :
    renormalize (x / s, y / s) = (x / (x + y), y / (x + y)) := by
  rw [renormalize, if_pos hsum, ← add_div, div_div_div_cancel_right₀ hs, div_div_div_cancel_right₀ hs]

end

/-! ### The M-step over the reals -/

section
variable (series : List ℝ) (globalSd : ℝ) (p : Params ℝ)

/-- The logarithms of the densities of the E-step. -/
noncomputable abbrev densities : Nat → LogWeight ℝ × LogWeight ℝ := emissions realCalls series p

/-- The variance that the M-step finds for a state, before its guard. -/
noncomputable def emissionVariance (gamma : Nat → LogWeight ℝ) (mu sigma : ℝ) : ℝ :=
  let mu := (emissionParams realCalls series globalSd gamma mu sigma).1
  (List.range series.length).foldl (fun num t =>
    let d := series.getD t 0 - mu
    num + exp (gamma t) * d * d) 0 / exp (logSums gamma series.length)

/-- The guard of the M-step replaces a deviation: the variance of a state has vanished. -/
def Collapses : Prop :=
  emissionVariance series globalSd (fun t => (logGamma p (densities series p) series.length t).1) p.mu0 p.sigma0 ≤ 1e-12 ∨
  emissionVariance series globalSd (fun t => (logGamma p (densities series p) series.length t).2) p.mu1 p.sigma1 ≤ 1e-12

end

section
variable {series : List ℝ} {globalSd : ℝ} {p : Params ℝ}

theorem foldl_range (f : Nat → ℝ) (n : Nat) : (List.range n).foldl (fun num t => num + f t) 0 = ∑ t ∈ Finset.range n, f t := by
  induction n with
  | zero => rfl
  | succ n ih =>
    rw [List.range_succ, List.foldl_append, ih, Finset.sum_range_succ]
    rfl

theorem log_density (y mu : ℝ) {sigma : ℝ} (h : 0 < sigma) : Real.log (realCalls.logGaussianPdf y mu sigma).weight =
    -0.5 * (1.8378770664093454835606594728112352 + (Real.log (sigma ^ 2) + (y - mu) ^ 2 / sigma ^ 2)) := by
  rw [realCalls]
  dsimp only
  have htwo : (2.0 : ℝ) = 2 := by norm_num
  rw [if_neg (not_not.2 h), Real.log_exp, Real.log_pow, htwo, Nat.cast_ofNat]
  ring

/-! ### The densities of one state -/

section
variable {gamma : Nat → LogWeight ℝ} (hw : 0 < ∑ t ∈ Finset.range series.length, (gamma t).weight)
include hw

theorem emissionParams_mean (mu sigma : ℝ) : (emissionParams realCalls series globalSd gamma mu sigma).1 =
    (∑ t ∈ Finset.range series.length, (gamma t).weight * series.getD t 0) / ∑ t ∈ Finset.range series.length, (gamma t).weight := by
  unfold emissionParams
  dsimp only
  rw [LogWeight.exp_eq, LogWeight.weight_logSums, if_pos hw]
  exact congrArg (· / _) (foldl_range _ _)

theorem emissionParams_sigma {mu sigma : ℝ} (hv : 1e-12 < emissionVariance series globalSd gamma mu sigma) :
    (emissionParams realCalls series globalSd gamma mu sigma).2 = √(emissionVariance series globalSd gamma mu sigma) := by
  have hw' : 0 < exp (logSums gamma series.length) := by
    rw [LogWeight.exp_eq, LogWeight.weight_logSums]
    exact hw
  exact (if_pos hw').trans (if_pos hv)

omit hw in
theorem emissionVariance_eq (mu sigma : ℝ) : emissionVariance series globalSd gamma mu sigma =
    (∑ t ∈ Finset.range series.length, (gamma t).weight *
      (series.getD t 0 - (emissionParams realCalls series globalSd gamma mu sigma).1) ^ 2) /
      ∑ t ∈ Finset.range series.length, (gamma t).weight := by
  unfold emissionVariance
  dsimp only
  rw [foldl_range, LogWeight.exp_eq, LogWeight.weight_logSums]
  congr 1
  refine Finset.sum_congr rfl fun t _ => ?_
  rw [LogWeight.exp_eq]
  ring

/-- The density that the M-step gives a state fits what is seen there at least as well as the one before. -/
theorem density_gain (mu : ℝ) {sigma : ℝ} (h : 0 < sigma) (hv : 1e-12 < emissionVariance series globalSd gamma mu sigma) :
    ∑ t ∈ Finset.range series.length, (gamma t).weight * Real.log (realCalls.logGaussianPdf (series.getD t 0) mu sigma).weight ≤
      ∑ t ∈ Finset.range series.length, (gamma t).weight * Real.log (realCalls.logGaussianPdf (series.getD t 0)
        (emissionParams realCalls series globalSd gamma mu sigma).1 (emissionParams realCalls series globalSd gamma mu sigma).2).weight := by
  have hpos : 0 < emissionVariance series globalSd gamma mu sigma := lt_trans (by norm_num) hv
  have hbest := normal_best (Finset.range series.length) (fun t => series.getD t 0) hw (emissionParams_mean hw mu sigma)
    (emissionVariance_eq mu sigma) hpos mu h
  have hsquare : (emissionParams realCalls series globalSd gamma mu sigma).2 ^ 2 =
      emissionVariance series globalSd gamma mu sigma := by
    rw [emissionParams_sigma hw hv, Real.sq_sqrt hpos.le]
  have hnew : 0 < (emissionParams realCalls series globalSd gamma mu sigma).2 := by
    rw [emissionParams_sigma hw hv]
    exact Real.sqrt_pos.2 hpos
  have hmean : ∀ f : Nat → ℝ, ∑ t ∈ Finset.range series.length, (gamma t).weight *
      (-0.5 * (1.8378770664093454835606594728112352 + f t)) =
      -0.5 * (1.8378770664093454835606594728112352 * (∑ t ∈ Finset.range series.length, (gamma t).weight) +
        ∑ t ∈ Finset.range series.length, (gamma t).weight * f t) := by
    intro f
    rw [Finset.mul_sum, ← Finset.sum_add_distrib, Finset.mul_sum]
    exact Finset.sum_congr rfl fun t _ => by ring
  simp only [log_density _ _ h, log_density _ _ hnew, hsquare, hmean]
  linarith

end

/-! ### The M-step reestimates -/

/-- How often a move is made, in the mean. -/
noncomputable def moved (series : List ℝ) (p : Params ℝ) (s s' : Fin 2) : ℝ :=
  ∑ t ∈ Finset.range (series.length - 1), (xiOf p (densities series p) series.length s s' t).weight

section
variable (hT : 2 ≤ series.length) (hpos : (trellis p (densities series p)).Positive series.length)
include hT hpos

theorem moved_pos (s s' : Fin 2) : 0 < moved series p s s' :=
  Finset.sum_pos (fun _ ht => xiOf_pos _ _ hpos (Finset.mem_range.1 ht) s s') ⟨0, Finset.mem_range.2 (by omega)⟩

theorem renormalize_row (s : Fin 2) : renormalize (![(transitions p (densities series p) series.length).1,
    (transitions p (densities series p) series.length).2] s) =
    (moved series p s 0 / (moved series p s 0 + moved series p s 1), moved series p s 1 / (moved series p s 0 + moved series p s 1)) := by
  have hgamma : 0 < ∑ t ∈ Finset.range (series.length - 1), (gammaOf p (densities series p) series.length s t).weight :=
    Finset.sum_pos (fun t ht => gammaOf_pos _ _ hpos (by have := Finset.mem_range.1 ht; omega) s)
      ⟨0, Finset.mem_range.2 (by omega)⟩
  refine Eq.trans (congrArg renormalize ?_) (renormalize_div hgamma.ne'
    (add_pos (div_pos (moved_pos hT hpos s 0) hgamma) (div_pos (moved_pos hT hpos s 1) hgamma)))
  clear hgamma
  revert s
  refine Fin.forall_fin_two.2 ⟨?_, ?_⟩
  all_goals
    simp only [transitions, LogWeight.exp_eq, LogWeight.weight_sub, LogWeight.weight_logSums]
    rfl

/-- The rows of the M-step. -/
theorem move_mStep (b' : Nat → LogWeight ℝ × LogWeight ℝ) (s s' : Fin 2) :
    (trellis (mStep realCalls series globalSd p) b').move s s' = moved series p s s' / ∑ s'', moved series p s s'' := by
  have hrow := renormalize_row hT hpos
  rw [Fin.sum_univ_two]
  revert s s'
  exact Fin.forall_fin_two.2 ⟨Fin.forall_fin_two.2 ⟨congrArg Prod.fst (hrow 0), congrArg Prod.snd (hrow 0)⟩,
    Fin.forall_fin_two.2 ⟨congrArg Prod.fst (hrow 1), congrArg Prod.snd (hrow 1)⟩⟩

omit hT in
theorem moves_eq {n : Nat} (hn : series.length = n + 1) (s s' : Fin 2) :
    (trellis p (densities series p)).moves n s s' = (trellis p (densities series p)).all (n + 1) * moved series p s s' := by
  have hall : (trellis p (densities series p)).all series.length ≠ 0 := hpos.all_pos.ne'
  rw [Trellis.moves, moved, hn, Nat.add_sub_cancel, Finset.sum_range, Finset.mul_sum]
  refine Finset.sum_congr rfl fun t _ => ?_
  rw [hn] at hall
  rw [weight_xiOf _ _ (by omega), mul_div_cancel₀ _ hall]
  exact Trellis.total_congr fun path => Prod.ext_iff

end

variable (hp : p.Positive)
include hp

theorem gammaOf_sum_pos (hT : 0 < series.length) (s : Fin 2) :
    0 < ∑ t ∈ Finset.range series.length, (gammaOf p (densities series p) series.length s t).weight :=
  Finset.sum_pos (fun _ ht => gammaOf_pos _ _ (hp.trellis fun t _ => realCalls_positive.emissions hp t) (Finset.mem_range.1 ht) s)
    ⟨0, Finset.mem_range.2 hT⟩

theorem emit_gain (hT : 0 < series.length) (hv : ¬ Collapses series globalSd p) (s : Fin 2) :
    ∑ t ∈ Finset.range series.length, (gammaOf p (densities series p) series.length s t).weight *
        Real.log ((trellis p (densities series p)).emit t s) ≤
      ∑ t ∈ Finset.range series.length, (gammaOf p (densities series p) series.length s t).weight *
        Real.log ((trellis (mStep realCalls series globalSd p) (densities series (mStep realCalls series globalSd p))).emit t s) := by
  have hw := gammaOf_sum_pos hp hT
  obtain ⟨hv0, hv1⟩ := not_or.1 hv
  revert s
  exact Fin.forall_fin_two.2
    ⟨density_gain (hw 0) p.mu0 hp.sigma0 (not_le.1 hv0), density_gain (hw 1) p.mu1 hp.sigma1 (not_le.1 hv1)⟩

theorem mStep_reestimated {n : Nat} (hn : series.length = n + 1) (hn0 : 0 < n) (hv : ¬ Collapses series globalSd p) :
    Trellis.Reestimated (trellis p (densities series p))
      (trellis (mStep realCalls series globalSd p) (densities series (mStep realCalls series globalSd p))) n := by
  have hT : 2 ≤ series.length := by omega
  have hpos : (trellis p (densities series p)).Positive series.length := hp.trellis fun t _ => realCalls_positive.emissions hp t
  have hall : 0 < (trellis p (densities series p)).all (n + 1) := by
    rw [← hn]
    exact hpos.all_pos
  -- what the posteriors are of the total over the paths
  have hvisit : ∀ (t : Fin (n + 1)) s, (trellis p (densities series p)).total (n + 1) (fun path => path t = s) =
      (trellis p (densities series p)).all (n + 1) * (gammaOf p (densities series p) (n + 1) s t).weight := by
    intro t s
    rw [weight_gammaOf _ _ t.isLt, mul_div_cancel₀ _ hall.ne']
  refine ⟨fun s => ?_, fun s s' => ?_, fun s => ?_⟩
  · rw [Trellis.sum_total, hvisit, mul_div_cancel_left₀ _ hall.ne', Fin.val_zero, ← hn]
    revert s
    exact Fin.forall_fin_two.2 ⟨rfl, rfl⟩
  · simp only [moves_eq hpos hn]
    rw [← Finset.mul_sum, mul_div_mul_left _ _ hall.ne']
    exact move_mStep hT hpos _ s s'
  · have hgain := emit_gain hp (by omega) hv s
    rw [hn, Finset.sum_range, Finset.sum_range] at hgain
    simp only [hvisit, mul_assoc]
    rw [← Finset.mul_sum, ← Finset.mul_sum]
    exact mul_le_mul_of_nonneg_left hgain hall.le

/-- The prior and the rows of an M-step are probabilities. -/
theorem mStep_stochastic (hT : 2 ≤ series.length) (b' : Nat → LogWeight ℝ × LogWeight ℝ) :
    (trellis (mStep realCalls series globalSd p) b').Stochastic where
  first := by
    have hpos := hp.trellis (b := densities series p) (T := series.length) fun t _ => realCalls_positive.emissions hp t
    have hsum := (eStep_exact hpos hT).gamma 0 (by omega)
    rw [Fin.sum_univ_two]
    exact hsum
  move s := by
    have hpos := hp.trellis (b := densities series p) (T := series.length) fun t _ => realCalls_positive.emissions hp t
    simp only [move_mStep hT hpos]
    rw [← Finset.sum_div, div_self (Finset.sum_pos (fun s' _ => moved_pos hT hpos s s') Finset.univ_nonempty).ne']

/-- One iteration. -/
theorem likelihood_le_mStep (hT : 2 ≤ series.length) (hc : (trellis p (densities series p)).Stochastic)
    (hsd : 0 < globalSd) (hv : ¬ Collapses series globalSd p) :
    (eStep realCalls series p).logLik.weight ≤ (eStep realCalls series (mStep realCalls series globalSd p)).logLik.weight := by
  obtain ⟨n, hn⟩ : ∃ n, series.length = n + 1 := ⟨series.length - 1, by omega⟩
  have hp' := mStep_positive realCalls_positive hsd hT hp
  have hpos := hp.trellis (b := densities series p) (T := series.length) fun t _ => realCalls_positive.emissions hp t
  have hpos' := hp'.trellis (b := densities series (mStep realCalls series globalSd p)) (T := series.length) fun t _ =>
    realCalls_positive.emissions hp' t
  have hle := (mStep_reestimated hp hn (by omega) hv).all_le (by omega) hc (hn ▸ hpos) (hn ▸ hpos')
  rw [← hn] at hle
  exact (weight_logLikelihood _ _ (by omega)).trans_le (hle.trans_eq (weight_logLikelihood _ _ (by omega)).symm)

end

/-! ### The fit -/

section
variable {series : List ℝ} {globalSd : ℝ} {p : Params ℝ}

theorem initialization_length (h : initialization realCalls series = some (p, globalSd)) : 10 ≤ series.length := by
  unfold initialization at h
  dsimp only at h
  by_contra hT
  rw [if_pos (by omega)] at h
  cases h

theorem initialization_stochastic (h : initialization realCalls series = some (p, globalSd))
    (b : Nat → LogWeight ℝ × LogWeight ℝ) : (trellis p b).Stochastic := by
  simp only [initialization] at h
  split_ifs at h with hT hsplit hsd
  obtain ⟨rfl, rfl⟩ := Prod.mk.inj (Option.some.inj h)
  refine ⟨?_, Fin.forall_fin_two.2 ⟨?_, ?_⟩⟩ <;> rw [Fin.sum_univ_two] <;> simp only [trellis] <;> norm_num

/-- Each iteration of the fit replaces the deviation of a collapsed state or finds a likelihood at least as great as the one
before; and a fit that replaces none ends with one at least as great as that of its start. -/
theorem likelihood_rises (h : initialization realCalls series = some (p, globalSd)) :
    (∀ k, Collapses series globalSd ((mStep realCalls series globalSd)^[k] p) ∨
      (eStep realCalls series ((mStep realCalls series globalSd)^[k] p)).logLik.weight ≤
        (eStep realCalls series ((mStep realCalls series globalSd)^[k + 1] p)).logLik.weight) ∧
    ∀ iters, (∃ k < iters, Collapses series globalSd ((mStep realCalls series globalSd)^[k] p)) ∨
      ∃ w, (hmm2Gaussian realCalls series (iters + 1)).logLik = some w ∧
        (eStep realCalls series p).logLik.weight ≤ w.weight := by
  have hT := initialization_length h
  obtain ⟨hp, hsd⟩ := initialization_positive h
  have hrise : ∀ k, Collapses series globalSd ((mStep realCalls series globalSd)^[k] p) ∨
      (eStep realCalls series ((mStep realCalls series globalSd)^[k] p)).logLik.weight ≤
        (eStep realCalls series ((mStep realCalls series globalSd)^[k + 1] p)).logLik.weight := by
    intro k
    refine or_iff_not_imp_left.2 fun hv => ?_
    have hpk : ((mStep realCalls series globalSd)^[k] p).Positive := iterate_positive realCalls_positive hsd (by omega) hp k
    have hck : (trellis ((mStep realCalls series globalSd)^[k] p)
        (densities series ((mStep realCalls series globalSd)^[k] p))).Stochastic := by
      cases k with
      | zero => exact initialization_stochastic h _
      | succ k =>
        rw [Function.iterate_succ_apply']
        exact mStep_stochastic (iterate_positive realCalls_positive hsd (by omega) hp k) (by omega) _
    rw [Function.iterate_succ_apply']
    exact likelihood_le_mStep hpk (by omega) hck hsd hv
  refine ⟨hrise, fun iters => or_iff_not_imp_left.2 fun hnone => ?_⟩
  have hmono : ∀ k ≤ iters, (eStep realCalls series p).logLik.weight ≤
      (eStep realCalls series ((mStep realCalls series globalSd)^[k] p)).logLik.weight := by
    intro k hk
    induction k with
    | zero => exact le_rfl
    | succ k ih =>
      exact (ih (by omega)).trans ((hrise k).resolve_left fun hv => hnone ⟨k, by omega, hv⟩)
  obtain ⟨n, hn, hem⟩ := em_eq realCalls series globalSd iters p negInf { logGamma0 := fun _ => 0, logLik := negInf }
  refine ⟨_, ?_, hmono n hn⟩
  rw [hmm2Gaussian, h]
  exact congrArg (fun last : Posteriors (LogWeight ℝ) => some last.logLik) hem

end

/-- Five zeros and five ones. -/
def step : List ℝ := [0, 0, 0, 0, 0, 1, 1, 1, 1, 1]

theorem initialization_step : ∃ p globalSd, initialization realCalls step = some (p, globalSd) := by
  have hsorted : step.mergeSort (fun x y => decide (x ≤ y)) = step :=
    List.mergeSort_of_pairwise (by simp [step])
  have hlo : step.filter (fun v => decide (v < 1)) = [0, 0, 0, 0, 0] := by simp [step]
  have hhi : step.filter (fun v => !decide (v < 1)) = [1, 1, 1, 1, 1] := by simp [step]
  have hsd : 0 < (meanDeviation realCalls step).2 := by
    refine Real.sqrt_pos.2 ?_
    norm_num [step]
  unfold initialization
  dsimp only
  rw [if_neg (by simp [step]), hsorted, show step.getD (step.length / 2) 0 = 1 from rfl, hlo, hhi, if_neg (by simp), if_neg (not_not.2 hsd)]
  exact ⟨_, _, rfl⟩

theorem likelihood_rises_step : ∃ p globalSd, initialization realCalls step = some (p, globalSd) ∧
    (∀ k, Collapses step globalSd ((mStep realCalls step globalSd)^[k] p) ∨
      (eStep realCalls step ((mStep realCalls step globalSd)^[k] p)).logLik.weight ≤
        (eStep realCalls step ((mStep realCalls step globalSd)^[k + 1] p)).logLik.weight) ∧
    ∀ iters, (∃ k < iters, Collapses step globalSd ((mStep realCalls step globalSd)^[k] p)) ∨
      ∃ w, (hmm2Gaussian realCalls step (iters + 1)).logLik = some w ∧
        (eStep realCalls step p).logLik.weight ≤ w.weight := by
  obtain ⟨p, globalSd, h⟩ := initialization_step
  exact ⟨p, globalSd, h, likelihood_rises h⟩

end Hmm2
end StratForge
