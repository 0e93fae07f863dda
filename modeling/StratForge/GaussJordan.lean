import Mathlib.LinearAlgebra.Matrix.NonsingularInverse
import Mathlib.Algebra.Order.Field.Basic
import Mathlib.Data.List.FinRange

/-!
# Inverses by elimination, and by rank-one updates

`GaussJordan.invert` eliminates with partial pivoting, and gives up where every candidate for a pivot is below a
threshold. What it returns is an inverse (`mul_invert`).

`RankOne.update` goes from the inverse of a symmetric `A` to that of `A + σ v vᵀ`, and gives up where the denominator is
below a threshold. What it returns is the inverse again, and symmetric (`update_mul`).
-/

open Matrix

namespace GaussJordan

variable {K : Type*} [Field K] {k : Nat}

/-! ### Row operations -/

def swapRows (i j : Fin k) (A : Matrix (Fin k) (Fin k) K) : Matrix (Fin k) (Fin k) K := fun r => A (Equiv.swap i j r)

def scaleRow (i : Fin k) (c : K) (A : Matrix (Fin k) (Fin k) K) : Matrix (Fin k) (Fin k) K :=
  fun r => if r = i then fun x => A r x * c else A r

/-- From every row but `i` its multiple of row `i` is taken. -/
def clearRows (i : Fin k) (f : Fin k → K) (A : Matrix (Fin k) (Fin k) K) : Matrix (Fin k) (Fin k) K :=
  fun r => if r = i then A r else fun x => A r x - f r * A i x

/-- A row operation is one on the left factor of a product. -/
theorem swapRows_mul (i j : Fin k) (R A : Matrix (Fin k) (Fin k) K) : swapRows i j R * A = swapRows i j (R * A) := rfl

theorem scaleRow_mul (i : Fin k) (c : K) (R A : Matrix (Fin k) (Fin k) K) : scaleRow i c R * A = scaleRow i c (R * A) := by
  ext r x
  by_cases hr : r = i
  · simp only [scaleRow, mul_apply, if_pos hr, Finset.sum_mul]
    exact Finset.sum_congr rfl fun y _ => by ring
  · simp only [scaleRow, mul_apply, if_neg hr]

theorem clearRows_mul (i : Fin k) (f : Fin k → K) (R A : Matrix (Fin k) (Fin k) K) :
    clearRows i f R * A = clearRows i f (R * A) := by
  ext r x
  by_cases hr : r = i
  · simp only [clearRows, mul_apply, if_pos hr]
  · simp only [clearRows, mul_apply, if_neg hr, Finset.mul_sum, ← Finset.sum_sub_distrib]
    exact Finset.sum_congr rfl fun y _ => by ring

variable [LinearOrder K]

/-! ### Elimination -/

/-- The row from `i` down with the largest entry of column `i`, the first of them. -/
def pivotRow (A : Matrix (Fin k) (Fin k) K) (i : Fin k) : Fin k :=
  ((List.finRange k).filter (i < ·)).foldl (fun piv r => if |A piv i| < |A r i| then r else piv) i

/-- Column `i` of the left matrix becomes a unit vector. -/
def eliminate (threshold : K) (M : Matrix (Fin k) (Fin k) K × Matrix (Fin k) (Fin k) K) (i : Fin k) :
    Option (Matrix (Fin k) (Fin k) K × Matrix (Fin k) (Fin k) K) :=
  let piv := pivotRow M.1 i
  if |M.1 piv i| < threshold then none
  else
    let op (f : Fin k → K) (c : K) (A : Matrix (Fin k) (Fin k) K) := clearRows i f (scaleRow i c (swapRows i piv A))
    let swapped := swapRows i piv M.1
    some (op (swapped · i) (1 / swapped i i) M.1, op (swapped · i) (1 / swapped i i) M.2)

def invert (threshold : K) (A : Matrix (Fin k) (Fin k) K) : Option (Matrix (Fin k) (Fin k) K) :=
  ((List.finRange k).foldlM (eliminate threshold) (A, 1)).map Prod.snd

theorem le_pivotRow (A : Matrix (Fin k) (Fin k) K) (i : Fin k) : i ≤ pivotRow A i := by
  have key : ∀ (rows : List (Fin k)) (piv : Fin k), i ≤ piv → (∀ r ∈ rows, i < r) →
      i ≤ rows.foldl (fun piv r => if |A piv i| < |A r i| then r else piv) piv := by
    intro rows
    induction rows with
    | nil => exact fun piv hpiv _ => hpiv
    | cons r rows ih =>
      intro piv hpiv hrows
      refine ih _ ?_ fun r' hr' => hrows r' (List.mem_cons_of_mem _ hr')
      dsimp only
      split_ifs
      · exact (hrows r (List.mem_cons_self ..)).le
      · exact hpiv
  exact key _ i le_rfl fun r hr => of_decide_eq_true (List.mem_filter.1 hr).2

/-- After column `n`: the columns before are unit vectors, and the right matrix has turned `A` into the left one. -/
structure Reduced (A : Matrix (Fin k) (Fin k) K) (n : Nat) (M : Matrix (Fin k) (Fin k) K × Matrix (Fin k) (Fin k) K) :
    Prop where
  left : M.1 = M.2 * A
  unit : ∀ r j : Fin k, j.val < n → M.1 r j = (1 : Matrix (Fin k) (Fin k) K) r j

variable [IsStrictOrderedRing K] {threshold : K} {A : Matrix (Fin k) (Fin k) K}
  {M M' : Matrix (Fin k) (Fin k) K × Matrix (Fin k) (Fin k) K}

omit [LinearOrder K] [IsStrictOrderedRing K] in
/-- The columns before `i` do not see the swap. -/
theorem Reduced.swapRows {i piv : Fin k} (h : Reduced A i M) (hle : i ≤ piv) (r : Fin k) {j : Fin k} (hj : j < i) :
    GaussJordan.swapRows i piv M.1 r j = (1 : Matrix (Fin k) (Fin k) K) r j := by
  have hfix : Equiv.swap i piv j = j := Equiv.swap_apply_of_ne_of_ne hj.ne (hj.trans_le hle).ne
  show M.1 (Equiv.swap i piv r) j = _
  rw [h.unit _ j hj, one_apply, one_apply]
  simp only [Equiv.swap_apply_eq_iff, hfix]

omit [LinearOrder K] [IsStrictOrderedRing K] in
/-- A unit column stays one, and column `i` becomes one. -/
theorem clearRows_scaleRow {S : Matrix (Fin k) (Fin k) K} {i : Fin k} (hdiag : S i i ≠ 0)
    (hunit : ∀ r j : Fin k, j < i → S r j = (1 : Matrix (Fin k) (Fin k) K) r j) (r j : Fin k) (hj : j ≤ i) :
    clearRows i (S · i) (scaleRow i (1 / S i i) S) r j = (1 : Matrix (Fin k) (Fin k) K) r j := by
  rcases hj.lt_or_eq with hlt | rfl
  · have hrow : S i j = 0 := by rw [hunit i j hlt, one_apply_ne hlt.ne']
    by_cases hr : r = i
    · simp only [clearRows, scaleRow, if_pos hr]
      rw [hr, hrow, zero_mul, one_apply_ne hlt.ne']
    · simp only [clearRows, scaleRow, if_neg hr, if_true]
      rw [hrow, zero_mul, mul_zero, sub_zero, hunit r j hlt]
  · by_cases hr : r = j
    · simp only [clearRows, scaleRow, if_pos hr]
      rw [hr, mul_one_div_cancel hdiag, one_apply_eq]
    · simp only [clearRows, scaleRow, if_neg hr, if_true]
      rw [mul_one_div_cancel hdiag, mul_one, sub_self, one_apply_ne hr]

theorem Reduced.eliminate {i : Fin k} (h : Reduced A i M) (hpos : 0 < threshold)
    (he : GaussJordan.eliminate threshold M i = some M') : Reduced A (i + 1) M' := by
  unfold GaussJordan.eliminate at he
  dsimp only at he
  split_ifs at he with hsmall
  have hpivot : M.1 (pivotRow M.1 i) i ≠ 0 := fun hzero => hsmall (by rwa [hzero, abs_zero])
  have hdiag : GaussJordan.swapRows i (pivotRow M.1 i) M.1 i i ≠ 0 := by
    show M.1 (Equiv.swap i (pivotRow M.1 i) i) i ≠ 0
    rwa [Equiv.swap_apply_left]
  rw [← Option.some.inj he]
  refine ⟨?_, fun r j hj => ?_⟩
  · dsimp only
    rw [clearRows_mul, scaleRow_mul, swapRows_mul, ← h.left]
  · exact clearRows_scaleRow hdiag (fun r j => h.swapRows (le_pivotRow M.1 i) r) r j (Nat.lt_succ_iff.1 hj)

theorem Reduced.all (hpos : 0 < threshold) {n : Nat} (hn : n ≤ k) :
    ∀ {M M'}, Reduced A (k - n) M →
      ((List.finRange k).drop (k - n)).foldlM (GaussJordan.eliminate threshold) M = some M' → Reduced A k M' := by
  induction n with
  | zero =>
    intro M M' h hfold
    rw [Nat.sub_zero, List.drop_of_length_le (by rw [List.length_finRange])] at hfold
    cases hfold
    exact h
  | succ n ih =>
    intro M M' h hfold
    have hlt : k - (n + 1) < (List.finRange k).length := by rw [List.length_finRange]; omega
    rw [List.drop_eq_getElem_cons hlt, List.foldlM_cons, List.getElem_finRange] at hfold
    obtain ⟨M₁, h₁, hfold⟩ := Option.bind_eq_some_iff.1 hfold
    have hnext : k - (n + 1) + 1 = k - n := by omega
    have hreduced := Reduced.eliminate (i := ⟨k - (n + 1), by omega⟩) h hpos h₁
    rw [hnext] at hfold
    exact ih (by omega) (hnext ▸ hreduced) hfold

/-- What elimination returns is an inverse. -/
theorem mul_invert {B : Matrix (Fin k) (Fin k) K} (hpos : 0 < threshold) (h : invert threshold A = some B) : B * A = 1 := by
  obtain ⟨M, hM, rfl⟩ := Option.map_eq_some_iff.1 h
  have h0 : Reduced A (k - k) (A, 1) := ⟨(Matrix.one_mul A).symm, fun r j hj => by omega⟩
  have hreduced := Reduced.all hpos le_rfl h0 (by rwa [Nat.sub_self, List.drop_zero])
  rw [← hreduced.left]
  ext r j
  exact hreduced.unit r j j.isLt

end GaussJordan

namespace RankOne
variable {K : Type*} [Field K] {k : Nat}

/-- `A + σ v vᵀ`. -/
def add (A : Matrix (Fin k) (Fin k) K) (σ : K) (v : Fin k → K) : Matrix (Fin k) (Fin k) K := A + σ • vecMulVec v v

variable [LinearOrder K]

def update (threshold : K) (B : Matrix (Fin k) (Fin k) K) (v : Fin k → K) (σ : K) : Option (Matrix (Fin k) (Fin k) K) :=
  let u := B *ᵥ v
  let denom := 1 + σ * (v ⬝ᵥ u)
  if |denom| < threshold then none
  else some (B - (σ / denom) • vecMulVec u u)

variable [IsStrictOrderedRing K] {threshold σ : K} {A B B' : Matrix (Fin k) (Fin k) K} {v : Fin k → K}

theorem update_mul (hpos : 0 < threshold) (hB : Bᵀ = B) (hinv : A * B = 1) (h : update threshold B v σ = some B') :
    add A σ v * B' = 1 ∧ B'ᵀ = B' := by
  unfold update at h
  dsimp only at h
  split_ifs at h with hsmall
  have hdenom : 1 + σ * (v ⬝ᵥ B *ᵥ v) ≠ 0 := fun hzero => hsmall (by rwa [hzero, abs_zero])
  rw [← Option.some.inj h]
  constructor
  · have hu : A *ᵥ (B *ᵥ v) = v := by rw [mulVec_mulVec, hinv, one_mulVec]
    have hv : v ᵥ* B = B *ᵥ v := by rw [← mulVec_transpose, hB]
    have hone : σ - σ / (1 + σ * (v ⬝ᵥ B *ᵥ v)) - σ * (σ / (1 + σ * (v ⬝ᵥ B *ᵥ v))) * (v ⬝ᵥ B *ᵥ v) = 0 := by
      field_simp
      ring
    calc add A σ v * (B - (σ / (1 + σ * (v ⬝ᵥ B *ᵥ v))) • vecMulVec (B *ᵥ v) (B *ᵥ v))
        = 1 + (σ - σ / (1 + σ * (v ⬝ᵥ B *ᵥ v)) - σ * (σ / (1 + σ * (v ⬝ᵥ B *ᵥ v))) * (v ⬝ᵥ B *ᵥ v)) •
            vecMulVec v (B *ᵥ v) := by
          rw [add, Matrix.add_mul, Matrix.mul_sub, Matrix.mul_sub, hinv, Matrix.mul_smul, mul_vecMulVec, hu, smul_mul,
            vecMulVec_mul, hv, Matrix.mul_smul, smul_mul, vecMulVec_mul_vecMulVec]
          ext i j
          simp only [Matrix.sub_apply, Matrix.add_apply, Matrix.smul_apply, Pi.smul_apply, smul_eq_mul, vecMulVec_apply]
          ring
      _ = 1 := by rw [hone, zero_smul, add_zero]
  · rw [transpose_sub, hB, transpose_smul, transpose_vecMulVec]

end RankOne
