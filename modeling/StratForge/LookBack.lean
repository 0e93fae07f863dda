import Mathlib.Algebra.BigOperators.Group.Finset.Basic
import Mathlib.Data.List.GetD
import StratForge.Quotes

/-!
# The last values of a source of numbers

What the loops over a window read, and their sums, as functions of the place.
-/

namespace StratForge
open Access (readBack)

theorem OrNan.reduceSum_range (f : Nat → ℚ) (n : Nat) :
    Simd.reduceSum ((List.range n).map fun i => num (f i)) = num (∑ i ∈ Finset.range n, f i) := by
  rw [show ((List.range n).map fun i => num (f i)) = ((List.range n).map f).map num by simp, reduceSum_num]
  rfl

namespace Indicators
variable {qs : List ℚ} {q : ℚ} {idx i count : Nat} {source : Line OrNan}

/-- The value `i` places before `idx`. -/
def ago (qs : List ℚ) (idx i : Nat) : ℚ := qs.getD (idx - i) 0

theorem read_nums (hi : i < qs.length) : (qs.map OrNan.num)[i]? = some (.num (qs.getD i 0)) := by
  rw [List.getElem?_map, List.getElem?_eq_getElem hi, List.getD_eq_getElem _ _ hi]
  rfl

theorem readBack_nums (hi : i ≤ idx) (hidx : idx < qs.length) : readBack (qs.map OrNan.num) idx i = some (.num (ago qs idx i)) := by
  rw [readBack, if_pos hi, read_nums (by omega), ago]

section
variable (hs : Sourced ((qs ++ [q]).map OrNan.num) source)
include hs

theorem Sourced.idxNums : source.idx = qs.length := by simp [hs.cursor]

theorem Sourced.agoNums (hi : i ≤ qs.length) : readBack source.data source.idx i = some (.num (ago (qs ++ [q]) qs.length i)) := by
  rw [hs.idxNums, hs.data]
  exact readBack_nums hi (by simp)

theorem Sourced.currentNums : source.data[source.idx]? = some (.num q) := by
  rw [hs.idxNums, hs.data, read_nums (by simp)]
  simp

end

@[simp] theorem ago_current : ago (qs ++ [q]) qs.length 0 = q := by simp [ago]

end Indicators

end StratForge
