import Mathlib.Data.Finset.Lattice.Fold
import Mathlib.Data.Fintype.Basic
import Mathlib.Logic.Function.Iterate

/-!
# Direct search

A search that keeps finitely many points with the value of an objective at each of them, and replaces some of them at
every step. As long as a point of lowest value is kept, the lowest value never rises.
-/

namespace DirectSearch
universe u v w

variable {I : Type u} {X : Type v} {B : Type w}

/-- What is kept for each point is the objective there. -/
def Cached (f : X → B) (point : I → X) (value : I → B) : Prop := ∀ i, value i = f (point i)

theorem Cached.comp {J : Type u} {f : X → B} {point : I → X} {value : I → B} (h : Cached f point value) (order : J → I) :
    Cached f (point ∘ order) (value ∘ order) := fun j => h (order j)

variable [LinearOrder B] [Fintype I] [Nonempty I] {value value' : I → B}

def lowest (value : I → B) : B := Finset.univ.inf' Finset.univ_nonempty value

theorem lowest_le (value : I → B) (i : I) : lowest value ≤ value i := Finset.inf'_le _ (Finset.mem_univ i)

theorem le_lowest {b : B} (h : ∀ i, b ≤ value i) : b ≤ lowest value := Finset.le_inf' _ _ fun i _ => h i

theorem lowest_eq {best : I} (h : ∀ i, value best ≤ value i) : lowest value = value best :=
  le_antisymm (lowest_le value best) (le_lowest h)

/-- A lowest point is kept. -/
theorem lowest_le_of_kept {best : I} (h : ∀ i, value best ≤ value i) (hkept : value' best = value best) :
    lowest value' ≤ lowest value := by
  rw [lowest_eq h, ← hkept]
  exact lowest_le value' best

/-- The points are put in another order. -/
theorem lowest_comp {order : I → I} (h : order.Surjective) (value : I → B) : lowest (value ∘ order) = lowest value := by
  apply le_antisymm
  · refine le_lowest fun i => ?_
    obtain ⟨j, rfl⟩ := h i
    exact lowest_le (value ∘ order) j
  · exact le_lowest fun j => lowest_le value (order j)

end DirectSearch
