import Mathlib.Algebra.BigOperators.Field
import Mathlib.Analysis.SpecialFunctions.Log.Basic
import Mathlib.Tactic.FieldSimp
import Mathlib.Tactic.Linarith
import StratForge.Trellis

/-!
# Reestimating a trellis

The weights of a trellis are reestimated from the paths through it: a start by how much of the total starts there, a
move by how much makes it, and what is paid at a state so that the mean logarithm over the paths that are there does not
fall. Then the total over all paths does not fall either (`Reestimated.all_le`), because the mean logarithm of the ratio
of two weights is at most the ratio of their totals less one. The normal density with the weighted mean and deviation of
what is seen is such a choice (`normal_best`).
-/

/-! ### Two inequalities -/

/-- Of all weights that add up to one the shares of `q` have the greatest mean logarithm. -/
theorem sum_mul_log_le_shares {ι : Type*} [Fintype ι] {q p : ι → ℝ} (hq : ∀ i, 0 < q i) (hp : ∀ i, 0 < p i)
    (hsum : ∑ i, p i = 1) : ∑ i, q i * Real.log (p i) ≤ ∑ i, q i * Real.log (q i / ∑ j, q j) := by
  rcases isEmpty_or_nonempty ι with hempty | hne
  · simp
  have htotal : 0 < ∑ j, q j := Finset.sum_pos (fun i _ => hq i) Finset.univ_nonempty
  have hterm : ∀ i, q i * Real.log (p i) - q i * Real.log (q i / ∑ j, q j) ≤ p i * (∑ j, q j) - q i := by
    intro i
    have hlog := Real.log_le_sub_one_of_pos (div_pos (hp i) (div_pos (hq i) htotal))
    rw [Real.log_div (hp i).ne' (div_pos (hq i) htotal).ne'] at hlog
    calc q i * Real.log (p i) - q i * Real.log (q i / ∑ j, q j)
        = q i * (Real.log (p i) - Real.log (q i / ∑ j, q j)) := by ring
      _ ≤ q i * (p i / (q i / ∑ j, q j) - 1) := mul_le_mul_of_nonneg_left hlog (hq i).le
      _ = p i * (∑ j, q j) - q i := by
          have hqi := (hq i).ne'
          field_simp
  have hall := Finset.sum_le_sum fun i (_ : i ∈ Finset.univ) => hterm i
  rw [Finset.sum_sub_distrib, Finset.sum_sub_distrib, ← Finset.sum_mul, hsum, one_mul, sub_self] at hall
  linarith

/-- Of all normal densities the one with the weighted mean and deviation fits weighted values best. -/
theorem normal_best {ι : Type*} (t : Finset ι) {w : ι → ℝ} (y : ι → ℝ) (hw : 0 < ∑ i ∈ t, w i) {mean v : ℝ}
    (hmean : mean = (∑ i ∈ t, w i * y i) / ∑ i ∈ t, w i) (hv : v = (∑ i ∈ t, w i * (y i - mean) ^ 2) / ∑ i ∈ t, w i)
    (hpos : 0 < v) (mu : ℝ) {sigma : ℝ} (hsigma : 0 < sigma) :
    ∑ i ∈ t, w i * (Real.log v + (y i - mean) ^ 2 / v) ≤
      ∑ i ∈ t, w i * (Real.log (sigma ^ 2) + (y i - mu) ^ 2 / sigma ^ 2) := by
  have hn := hw.ne'
  have hcenter : ∑ i ∈ t, w i * (y i - mean) = 0 := by
    have hsplit : ∑ i ∈ t, w i * (y i - mean) = ∑ i ∈ t, w i * y i - (∑ i ∈ t, w i) * mean := by
      rw [Finset.sum_mul, ← Finset.sum_sub_distrib]
      exact Finset.sum_congr rfl fun i _ => by ring
    rw [hsplit, hmean]
    field_simp
    ring
  have hsquare : ∑ i ∈ t, w i * (y i - mean) ^ 2 = v * ∑ i ∈ t, w i := by
    rw [hv]
    field_simp
  -- about any other centre the squares are larger
  have hother : ∑ i ∈ t, w i * (y i - mu) ^ 2 = v * (∑ i ∈ t, w i) + (mean - mu) ^ 2 * ∑ i ∈ t, w i := by
    have hexpand : ∑ i ∈ t, w i * (y i - mu) ^ 2 = ∑ i ∈ t, w i * (y i - mean) ^ 2 +
        2 * (mean - mu) * (∑ i ∈ t, w i * (y i - mean)) + (mean - mu) ^ 2 * ∑ i ∈ t, w i := by
      rw [Finset.mul_sum, Finset.mul_sum, ← Finset.sum_add_distrib, ← Finset.sum_add_distrib]
      exact Finset.sum_congr rfl fun i _ => by ring
    rw [hexpand, hcenter, hsquare]
    ring
  have hleft : ∑ i ∈ t, w i * (Real.log v + (y i - mean) ^ 2 / v) = (∑ i ∈ t, w i) * (Real.log v + 1) := by
    calc ∑ i ∈ t, w i * (Real.log v + (y i - mean) ^ 2 / v)
        = (∑ i ∈ t, w i) * Real.log v + (∑ i ∈ t, w i * (y i - mean) ^ 2) / v := by
          rw [Finset.sum_mul, Finset.sum_div, ← Finset.sum_add_distrib]
          exact Finset.sum_congr rfl fun i _ => by ring
      _ = (∑ i ∈ t, w i) * (Real.log v + 1) := by
          rw [hsquare]
          field_simp
  have hright : ∑ i ∈ t, w i * (Real.log (sigma ^ 2) + (y i - mu) ^ 2 / sigma ^ 2) =
      (∑ i ∈ t, w i) * (Real.log (sigma ^ 2) + (v + (mean - mu) ^ 2) / sigma ^ 2) := by
    calc ∑ i ∈ t, w i * (Real.log (sigma ^ 2) + (y i - mu) ^ 2 / sigma ^ 2)
        = (∑ i ∈ t, w i) * Real.log (sigma ^ 2) + (∑ i ∈ t, w i * (y i - mu) ^ 2) / sigma ^ 2 := by
          rw [Finset.sum_mul, Finset.sum_div, ← Finset.sum_add_distrib]
          exact Finset.sum_congr rfl fun i _ => by ring
      _ = (∑ i ∈ t, w i) * (Real.log (sigma ^ 2) + (v + (mean - mu) ^ 2) / sigma ^ 2) := by
          rw [hother]
          ring
  have hsq : 0 < sigma ^ 2 := by positivity
  have hratio := Real.log_le_sub_one_of_pos (div_pos hpos hsq)
  rw [Real.log_div hpos.ne' hsq.ne'] at hratio
  have hmore : v / sigma ^ 2 ≤ (v + (mean - mu) ^ 2) / sigma ^ 2 := by
    gcongr
    linarith [sq_nonneg (mean - mu)]
  rw [hleft, hright]
  exact mul_le_mul_of_nonneg_left (by linarith) hw.le

/-! ### Means over the paths -/

universe u
namespace Trellis
variable {S : Type u} [Fintype S]

/-- What is a function of what a path does, by what it does. -/
theorem sum_weight_mul {K : Type*} [CommSemiring K] {R : Type*} [Fintype R] [DecidableEq R] (c : Trellis S K) {n : Nat}
    (g : (Fin n → S) → R) (f : R → K) :
    ∑ path, c.weight (List.ofFn path) * f (g path) = ∑ r, c.total n (fun path => g path = r) * f r := by
  rw [← Finset.sum_fiberwise Finset.univ g]
  refine Finset.sum_congr rfl fun r _ => ?_
  rw [total, Finset.sum_mul]
  refine Finset.sum_congr rfl fun path hpath => ?_
  rw [(Finset.mem_filter.1 hpath).2]

/-- A path does one thing. -/
theorem sum_total {K : Type*} [CommSemiring K] {R : Type*} [Fintype R] [DecidableEq R] (c : Trellis S K) {n : Nat}
    (g : (Fin n → S) → R) : ∑ r, c.total n (fun path => g path = r) = c.all n := by
  unfold all total
  rw [Finset.sum_fiberwise (s := Finset.univ) g, Finset.filter_true]

omit [Fintype S] in
/-- The logarithm of a weight, by what is paid. -/
theorem log_weight {c : Trellis S ℝ} {n : Nat} (h : c.Positive (n + 1)) (path : Fin (n + 1) → S) :
    Real.log (c.weight (List.ofFn path)) = Real.log (c.first (path 0)) + ∑ t : Fin (n + 1), Real.log (c.emit t (path t)) +
      ∑ t : Fin n, Real.log (c.move (path t.castSucc) (path t.succ)) := by
  induction n generalizing c with
  | zero =>
    have hone : c.weight (List.ofFn path) = c.first (path 0) * c.emit 0 (path 0) := mul_one _
    rw [hone, Real.log_mul (h.first _).ne' (h.emit 0 (by omega) _).ne']
    simp
  | succ n ih =>
    have hafter : (c.after 0 (path 0)).Positive (n + 1) := (h.mono (by omega)).after _
    have hcons : c.weight (List.ofFn path) = c.first (path 0) * c.emit 0 (path 0) *
        (c.after 0 (path 0)).weight (List.ofFn fun t => path t.succ) := by
      rw [List.ofFn_succ]
      rfl
    have hrest := ih hafter fun t => path t.succ
    have hpos : 0 < (c.after 0 (path 0)).weight (List.ofFn fun t : Fin (n + 1) => path t.succ) :=
      Positive.weight_pos (by rw [List.length_ofFn]; exact hafter)
    have hemit : ∀ t : Fin (n + 1), (c.after 0 (path 0)).emit t = c.emit (t.succ : Fin (n + 2)) := by
      intro t
      show c.emit (0 + 1 + t) = _
      congr 1
      rw [Fin.val_succ]
      omega
    have hemits : ∑ t : Fin (n + 1), Real.log ((c.after 0 (path 0)).emit t (path t.succ)) =
        ∑ t : Fin (n + 1), Real.log (c.emit (t.succ : Fin (n + 2)) (path t.succ)) :=
      Finset.sum_congr rfl fun t _ => by rw [hemit]
    have hmoves : ∑ t : Fin n, Real.log ((c.after 0 (path 0)).move (path t.castSucc.succ) (path t.succ.succ)) =
        ∑ t : Fin n, Real.log (c.move (path t.succ.castSucc) (path t.succ.succ)) := rfl
    have hstart : Real.log ((c.after 0 (path 0)).first (path (Fin.succ 0))) =
        Real.log (c.move (path (Fin.castSucc 0)) (path (Fin.succ 0))) := rfl
    rw [hcons, Real.log_mul (mul_pos (h.first _) (h.emit 0 (by omega) _)).ne' hpos.ne',
      Real.log_mul (h.first _).ne' (h.emit 0 (by omega) _).ne', hrest, hemits, hmoves, hstart,
      Fin.sum_univ_succ fun t : Fin (n + 2) => Real.log (c.emit t (path t)),
      Fin.sum_univ_succ fun t : Fin (n + 1) => Real.log (c.move (path t.castSucc) (path t.succ)), Fin.val_zero]
    ring

variable [DecidableEq S]

/-- Forward times backward over a move. -/
theorem total_passes {K : Type*} [CommSemiring K] (c : Trellis S K) (m t : Nat) (s s' : S) :
    c.total (m + 1 + t + 1) (fun path => path ⟨t, by omega⟩ = s ∧ path ⟨t + 1, by omega⟩ = s') =
      c.ending t s * (c.move s s' * c.emit (t + 1) s' * (c.after (t + 1) s').all m) := by
  induction t generalizing c with
  | zero =>
    have hrest := (c.after 0 s).through_zero m s'
    rw [after_after] at hrest
    rw [ending_zero, total_succ, Finset.sum_eq_single s]
    · refine congrArg _ (Eq.trans (total_congr fun path => ?_) hrest)
      exact ⟨And.right, fun h => ⟨rfl, h⟩⟩
    · intro s0 _ hne
      refine mul_eq_zero_of_right _ ?_
      rw [total, Finset.sum_filter]
      exact Finset.sum_eq_zero fun path _ => if_neg fun h => hne h.1
    · exact fun h => absurd (Finset.mem_univ s) h
  | succ t ih =>
    rw [ending_succ_first, Finset.sum_mul]
    refine (total_succ c (m + 1 + t + 1) _).trans (Finset.sum_congr rfl fun s0 _ => ?_)
    have hafter : (c.after 0 s0).after (t + 1) s' = c.after (t + 1 + 1) s' := by
      rw [after_after]
      congr 1
      omega
    have hemit : (c.after 0 s0).emit (t + 1) = c.emit (t + 1 + 1) := by
      show (fun k => c.emit (0 + 1 + k)) (t + 1) = _
      dsimp only
      congr 1
      omega
    have hrest := ih (c.after 0 s0)
    rw [hafter, hemit] at hrest
    exact (congrArg (c.first s0 * c.emit 0 s0 * ·) hrest).trans (mul_assoc _ _ _).symm

/-- The total that makes a move, at any time. -/
def moves (c : Trellis S ℝ) (n : Nat) (s s' : S) : ℝ :=
  ∑ t : Fin n, c.total (n + 1) fun path => (path t.castSucc, path t.succ) = (s, s')

/-- The mean logarithm of the weights of `c'` over the paths of `c`, in its parts. -/
theorem sum_log_weight (c : Trellis S ℝ) {c' : Trellis S ℝ} {n : Nat} (h' : c'.Positive (n + 1)) :
    ∑ path : Fin (n + 1) → S, c.weight (List.ofFn path) * Real.log (c'.weight (List.ofFn path)) =
      ∑ s, c.total (n + 1) (fun path => path 0 = s) * Real.log (c'.first s) +
      ∑ s, ∑ t : Fin (n + 1), c.total (n + 1) (fun path => path t = s) * Real.log (c'.emit t s) +
      ∑ s, ∑ s', c.moves n s s' * Real.log (c'.move s s') := by
  have hfirst : ∑ path : Fin (n + 1) → S, c.weight (List.ofFn path) * Real.log (c'.first (path 0)) =
      ∑ s, c.total (n + 1) (fun path => path 0 = s) * Real.log (c'.first s) :=
    c.sum_weight_mul (fun path : Fin (n + 1) → S => path 0) fun s => Real.log (c'.first s)
  have hemit : ∑ path : Fin (n + 1) → S, ∑ t : Fin (n + 1), c.weight (List.ofFn path) * Real.log (c'.emit t (path t)) =
      ∑ s, ∑ t : Fin (n + 1), c.total (n + 1) (fun path => path t = s) * Real.log (c'.emit t s) := by
    rw [Finset.sum_comm, Finset.sum_comm (s := Finset.univ (α := S))]
    exact Finset.sum_congr rfl fun t _ =>
      c.sum_weight_mul (fun path : Fin (n + 1) → S => path t) fun s => Real.log (c'.emit t s)
  have hmove : ∑ path : Fin (n + 1) → S, ∑ t : Fin n,
      c.weight (List.ofFn path) * Real.log (c'.move (path t.castSucc) (path t.succ)) =
      ∑ s, ∑ s', c.moves n s s' * Real.log (c'.move s s') := by
    rw [Finset.sum_comm, ← Fintype.sum_prod_type' fun s s' => c.moves n s s' * Real.log (c'.move s s')]
    simp only [moves, Finset.sum_mul]
    rw [Finset.sum_comm (s := Finset.univ (α := S × S))]
    exact Finset.sum_congr rfl fun t _ =>
      c.sum_weight_mul (fun path : Fin (n + 1) → S => (path t.castSucc, path t.succ)) fun x => Real.log (c'.move x.1 x.2)
  rw [← hfirst, ← hemit, ← hmove, ← Finset.sum_add_distrib, ← Finset.sum_add_distrib]
  refine Finset.sum_congr rfl fun path _ => ?_
  rw [log_weight h', mul_add, mul_add, Finset.mul_sum, Finset.mul_sum]

/-! ### Reestimation -/

/-- Probabilities. -/
structure Stochastic (c : Trellis S ℝ) : Prop where
  first : ∑ s, c.first s = 1
  move : ∀ s, ∑ s', c.move s s' = 1

/-- The weights of `c'` are those of `c`, reestimated from the paths over `n + 1` times. -/
structure Reestimated (c c' : Trellis S ℝ) (n : Nat) : Prop where
  first : ∀ s, c'.first s = c.total (n + 1) (fun path => path 0 = s) / ∑ s', c.total (n + 1) fun path => path 0 = s'
  move : ∀ s s', c'.move s s' = c.moves n s s' / ∑ s'', c.moves n s s''
  emit : ∀ s, ∑ t : Fin (n + 1), c.total (n + 1) (fun path => path t = s) * Real.log (c.emit t s) ≤
    ∑ t : Fin (n + 1), c.total (n + 1) (fun path => path t = s) * Real.log (c'.emit t s)

omit [DecidableEq S] in
theorem Positive.total_pos {c : Trellis S ℝ} {n : Nat} (h : c.Positive n) {E : (Fin n → S) → Prop} [DecidablePred E]
    (path : Fin n → S) (hpath : E path) : 0 < c.total n E := by
  unfold total
  refine Finset.sum_pos (fun path _ => ?_) ⟨path, by simpa using hpath⟩
  exact Positive.weight_pos (by rw [List.length_ofFn]; exact h)

theorem Positive.moves_pos {c : Trellis S ℝ} {n : Nat} (h : c.Positive (n + 1)) (hn : 0 < n) (s s' : S) :
    0 < c.moves n s s' := by
  refine Finset.sum_pos (fun t _ => ?_) ⟨⟨0, hn⟩, Finset.mem_univ _⟩
  -- the path that moves once, then
  refine h.total_pos (fun k => if k ≤ t.castSucc then s else s') ?_
  exact Prod.ext (if_pos le_rfl) (if_neg (by simp))

/-- The total over all paths does not fall. -/
theorem Reestimated.all_le [Nonempty S] {c c' : Trellis S ℝ} {n : Nat} (hr : Reestimated c c' n) (hn : 0 < n)
    (hc : c.Stochastic) (h : c.Positive (n + 1)) (h' : c'.Positive (n + 1)) : c.all (n + 1) ≤ c'.all (n + 1) := by
  have hweight : ∀ {d : Trellis S ℝ}, d.Positive (n + 1) → ∀ path : Fin (n + 1) → S, 0 < d.weight (List.ofFn path) :=
    fun hd path => Positive.weight_pos (by rw [List.length_ofFn]; exact hd)
  have hall : ∀ d : Trellis S ℝ, d.all (n + 1) = ∑ path : Fin (n + 1) → S, d.weight (List.ofFn path) := fun d => by
    rw [all, total, Finset.filter_true]
  -- each part of the mean logarithm has grown
  have hgain : ∑ path : Fin (n + 1) → S, c.weight (List.ofFn path) * Real.log (c.weight (List.ofFn path)) ≤
      ∑ path : Fin (n + 1) → S, c.weight (List.ofFn path) * Real.log (c'.weight (List.ofFn path)) := by
    rw [sum_log_weight c h, sum_log_weight c h']
    refine add_le_add (add_le_add ?_ (Finset.sum_le_sum fun s _ => hr.emit s)) (Finset.sum_le_sum fun s _ => ?_)
    · simp only [hr.first]
      exact sum_mul_log_le_shares (fun s => h.total_pos (fun _ => s) rfl) h.first hc.first
    · simp only [hr.move]
      exact sum_mul_log_le_shares (h.moves_pos hn s) (h.move s) (hc.move s)
  -- and it is at most what the totals differ by
  have hterm : ∀ path : Fin (n + 1) → S, c.weight (List.ofFn path) * Real.log (c'.weight (List.ofFn path)) -
      c.weight (List.ofFn path) * Real.log (c.weight (List.ofFn path)) ≤
      c'.weight (List.ofFn path) - c.weight (List.ofFn path) := by
    intro path
    have hpos := hweight h path
    have hpos' := hweight h' path
    have hlog := mul_le_mul_of_nonneg_left (Real.log_le_sub_one_of_pos (div_pos hpos' hpos)) hpos.le
    rw [Real.log_div hpos'.ne' hpos.ne'] at hlog
    calc _ = c.weight (List.ofFn path) * (Real.log (c'.weight (List.ofFn path)) - Real.log (c.weight (List.ofFn path))) := by ring
      _ ≤ _ := hlog
      _ = _ := by
        have hne := hpos.ne'
        field_simp
  have hsum := Finset.sum_le_sum fun path (_ : path ∈ Finset.univ) => hterm path
  rw [Finset.sum_sub_distrib, Finset.sum_sub_distrib, ← hall, ← hall] at hsum
  linarith

end Trellis
