import Mathlib.Data.Rat.BigOperators
import StratForge.Arith
import StratForge.GaussJordan
import StratForge.RowMajor

/-!
# The Sherman-Morrison step (`stats/rolling_per_bar.hpp`)

The loops over the row-major inverse come to the rank-one update of a matrix (`update_eq`). They take `u uᵀ` for
`u (vᵀ A⁻¹)`, which is the same as long as the inverse is symmetric, and it stays so (`sherman_morrison_exact`).
-/

open Matrix

namespace StratForge
namespace RollingPerBar

section
variable {α : Type} [Arith α] {k : Nat}

/-- A sum that a loop accumulates. -/
def accumulate (f : Fin k → α) : α := (List.finRange k).foldl (fun s j => s + f j) 0

/-- Whether the inverse has been updated, and what is stored then. -/
def shermanMorrisonUpdate (aInv : RowMajor α k k) (v : Vector α k) (sigma : α) : Bool × RowMajor α k k :=
  let u : Vector α k := .ofFn fun i => accumulate fun j => aInv.entry i j * v.get j
  let vtu := accumulate fun j => v.get j * u.get j
  let denom := 1 + sigma * vtu
  if Arith.abs denom < 1e-14 then (false, aInv)
  else
    let factor := sigma / denom
    (true, aInv.sweep fun i j x => x - factor * u.get i * u.get j)

/-- An update that fails leaves the inverse as it is. -/
theorem update_failed {aInv : RowMajor α k k} {v : Vector α k} {sigma : α}
    (h : (shermanMorrisonUpdate aInv v sigma).1 = false) : (shermanMorrisonUpdate aInv v sigma).2 = aInv := by
  unfold shermanMorrisonUpdate at h ⊢
  dsimp only at h ⊢
  split at h
  · next hsmall => rw [if_pos hsmall]
  · cases h

end

variable {k : Nat}

theorem accumulate_rat (f : Fin k → ℚ) : accumulate f = ∑ j, f j := by
  have key : ∀ (js : List (Fin k)) (s : ℚ), js.foldl (fun s j => s + f j) s = s + (js.map f).sum := by
    intro js
    induction js with
    | nil => exact fun s => (add_zero s).symm
    | cons j js ih =>
      intro s
      rw [List.foldl_cons, ih, List.map_cons, List.sum_cons, add_assoc]
  rw [accumulate, key, zero_add, Fin.sum_univ_def]

/-- What the loops compute, in terms of the matrix that is stored. -/
theorem shermanMorrisonUpdate_eq (aInv : RowMajor ℚ k k) (v : Vector ℚ k) (sigma : ℚ) :
    shermanMorrisonUpdate aInv v sigma =
      let u := RowMajor.toMatrix aInv *ᵥ v.get
      let denom := 1 + sigma * (v.get ⬝ᵥ u)
      if |denom| < 1e-14 then (false, aInv) else (true, aInv.sweep fun i j x => x - sigma / denom * u i * u j) := by
  have hu : ∀ i, (Vector.ofFn fun i => accumulate fun j => aInv.entry i j * v.get j).get i =
      (RowMajor.toMatrix aInv *ᵥ v.get) i := fun i => by
    have hget : (Vector.ofFn fun i => accumulate fun j => aInv.entry i j * v.get j).get i =
        accumulate fun j => aInv.entry i j * v.get j := Vector.getElem_ofFn ..
    rw [hget, accumulate_rat]
    rfl
  have hvtu : (accumulate fun j => v.get j * (RowMajor.toMatrix aInv *ᵥ v.get) j) = v.get ⬝ᵥ RowMajor.toMatrix aInv *ᵥ v.get :=
    accumulate_rat _
  unfold shermanMorrisonUpdate
  simp only [hu, hvtu, Arith.abs_rat]

/-- They are the rank-one update of that matrix. -/
theorem update_eq (aInv : RowMajor ℚ k k) (v : Vector ℚ k) (sigma : ℚ) :
    RankOne.update 1e-14 (RowMajor.toMatrix aInv) v.get sigma =
      if (shermanMorrisonUpdate aInv v sigma).1 then some (RowMajor.toMatrix (shermanMorrisonUpdate aInv v sigma).2) else none := by
  rw [shermanMorrisonUpdate_eq]
  unfold RankOne.update
  dsimp only
  by_cases hsmall : |1 + sigma * (v.get ⬝ᵥ RowMajor.toMatrix aInv *ᵥ v.get)| < 1e-14
  · rw [if_pos hsmall, if_pos hsmall]
    rfl
  · rw [if_neg hsmall, if_neg hsmall, if_pos rfl]
    refine congrArg some ?_
    ext i j
    rw [RowMajor.toMatrix_apply, RowMajor.entry_sweep, mul_assoc]
    rfl

/-- In exact arithmetic: from the inverse of a symmetric matrix the step goes to the inverse of the matrix with `σ v vᵀ`
added, which is symmetric again; or it fails, and what is stored stays. -/
theorem sherman_morrison_exact {A : Matrix (Fin k) (Fin k) ℚ} (hA : Aᵀ = A) (hunit : IsUnit A) {aInv : RowMajor ℚ k k}
    (hinv : RowMajor.toMatrix aInv = A⁻¹) (v : Vector ℚ k) (sigma : ℚ) :
    ((shermanMorrisonUpdate aInv v sigma).1 = true →
      IsUnit (RankOne.add A sigma v.get) ∧
      RowMajor.toMatrix (shermanMorrisonUpdate aInv v sigma).2 = (RankOne.add A sigma v.get)⁻¹ ∧
      (RowMajor.toMatrix (shermanMorrisonUpdate aInv v sigma).2)ᵀ = RowMajor.toMatrix (shermanMorrisonUpdate aInv v sigma).2) ∧
    ((shermanMorrisonUpdate aInv v sigma).1 = false → (shermanMorrisonUpdate aInv v sigma).2 = aInv) := by
  refine ⟨fun hok => ?_, update_failed⟩
  have hright : A * RowMajor.toMatrix aInv = 1 := by rw [hinv, mul_nonsing_inv _ ((isUnit_iff_isUnit_det A).1 hunit)]
  have hsymm : (RowMajor.toMatrix aInv)ᵀ = RowMajor.toMatrix aInv := by rw [hinv, transpose_nonsing_inv, hA]
  have hupdate := update_eq aInv v sigma
  rw [hok, if_pos rfl] at hupdate
  obtain ⟨hproduct, hsymm'⟩ := RankOne.update_mul (by norm_num) hsymm hright hupdate
  exact ⟨IsUnit.of_mul_eq_one _ hproduct, (inv_eq_right_inv hproduct).symm, hsymm'⟩

/-- With one vector the step goes through, with minus the other it fails. -/
theorem sherman_morrison_exact_two :
    let A : Matrix (Fin 2) (Fin 2) ℚ := !![2, 1; 1, 1]
    let aInv : RowMajor ℚ 2 2 := #v[1, -1, -1, 2]
    (RowMajor.toMatrix (shermanMorrisonUpdate aInv #v[1, 0] 1).2 = (RankOne.add A 1 #v[1, 0].get)⁻¹ ∧
      (shermanMorrisonUpdate aInv #v[1, 0] 1).2 = #v[1 / 2, -1 / 2, -1 / 2, 3 / 2]) ∧
      (shermanMorrisonUpdate aInv #v[1, 0] (-1)).2 = aInv := by
  intro A aInv
  have hA : Aᵀ = A := by decide +kernel
  have hright : A * RowMajor.toMatrix aInv = 1 := by decide +kernel
  have hunit : IsUnit A := IsUnit.of_mul_eq_one _ hright
  have hinv : RowMajor.toMatrix aInv = A⁻¹ := (inv_eq_right_inv hright).symm
  have hstep := sherman_morrison_exact hA hunit hinv #v[1, 0]
  exact ⟨⟨((hstep 1).1 (by decide +kernel)).2.1, by decide +kernel⟩, (hstep (-1)).2 (by decide +kernel)⟩

end RollingPerBar
end StratForge
