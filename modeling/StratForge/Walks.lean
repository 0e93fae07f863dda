import Mathlib.Algebra.BigOperators.Fin
import Mathlib.Algebra.Order.BigOperators.Group.List
import Mathlib.Algebra.Order.Chebyshev
import Mathlib.Tactic.FieldSimp
import Mathlib.Tactic.Linarith
import Mathlib.Tactic.Ring
import StratForge.Extremes

/-!
# Walks

The partial sums of a list of steps, from zero on, and the range between the highest and the lowest of them. No step is
longer than the range (`abs_le_range`), and a walk that comes back to where it started has gone its range twice
(`two_range_le`). So the range is at least the root mean square of the steps, and at most half of it for each step
(`meanSquare_le`, `range_sq_le`).
-/

namespace Walk
open Extremes
universe u

section
variable {K : Type u} [Field K]

/-- Where the walk has been. -/
def positions (ds : List K) : List K := (List.range (ds.length + 1)).map fun k => (ds.take k).sum

@[simp] theorem positions_nil : positions ([] : List K) = [0] := rfl

theorem positions_concat (ds : List K) (d : K) : positions (ds ++ [d]) = positions ds ++ [(ds ++ [d]).sum] := by
  unfold positions
  rw [List.length_append, List.length_singleton, List.range_succ, List.map_append]
  congr 1
  · refine List.map_congr_left fun k hk => ?_
    rw [List.take_append_of_le_length (Nat.lt_succ_iff.1 (List.mem_range.1 hk))]
  · rw [List.map_singleton, List.take_of_length_le (by simp)]

theorem mem_positions {ds : List K} {x : K} : x ∈ positions ds ↔ ∃ k ≤ ds.length, (ds.take k).sum = x := by
  unfold positions
  simp only [List.mem_map, List.mem_range, Nat.lt_succ_iff]

end

variable {K : Type u} [Field K] [LinearOrder K]

/-- How far it is from the lowest position to the highest. -/
structure Spans (ds : List K) (lo hi : K) : Prop where
  hi : Extreme true hi (positions ds)
  lo : Extreme false lo (positions ds)

namespace Spans
variable {ds : List K} {lo hi : K}

theorem nil : Spans ([] : List K) 0 0 := ⟨.singleton .., .singleton ..⟩

theorem concat (h : Spans ds lo hi) (d : K) : Spans (ds ++ [d])
    (if (ds ++ [d]).sum < lo then (ds ++ [d]).sum else lo) (if hi < (ds ++ [d]).sum then (ds ++ [d]).sum else hi) := by
  constructor
  · rw [positions_concat]
    exact h.hi.snoc _
  · rw [positions_concat]
    have hlo := h.lo.snoc (ds ++ [d]).sum
    simp only [beyond_down] at hlo
    exact hlo

theorem unique (h : Spans ds lo hi) {lo' hi' : K} (h' : Spans ds lo' hi') : lo = lo' ∧ hi = hi' :=
  ⟨h.lo.unique h'.lo, h.hi.unique h'.hi⟩

theorem le_hi (h : Spans ds lo hi) {x : K} (hx : x ∈ positions ds) : x ≤ hi := not_lt.1 (h.hi.last x hx)

theorem lo_le (h : Spans ds lo hi) {x : K} (hx : x ∈ positions ds) : lo ≤ x := not_lt.1 (beyond_down.not.1 (h.lo.last x hx))

end Spans

variable [IsStrictOrderedRing K] {ds : List K} {lo hi : K}

/-- No step leaves the range. -/
theorem abs_le_range (h : Spans ds lo hi) {d : K} (hd : d ∈ ds) : |d| ≤ hi - lo := by
  obtain ⟨k, hk, rfl⟩ := List.getElem_of_mem hd
  have hstep : (ds.take (k + 1)).sum = (ds.take k).sum + ds[k] := by
    rw [List.take_succ_eq_append_getElem hk, List.sum_append, List.sum_singleton]
  have hbefore : (ds.take k).sum ∈ positions ds := mem_positions.2 ⟨k, hk.le, rfl⟩
  have hafter : (ds.take (k + 1)).sum ∈ positions ds := mem_positions.2 ⟨k + 1, hk, rfl⟩
  have h1 := h.le_hi hbefore
  have h2 := h.lo_le hbefore
  have h3 := h.le_hi hafter
  have h4 := h.lo_le hafter
  rw [abs_le]
  constructor <;> linarith

theorem abs_sum_le (l : List K) : |l.sum| ≤ (l.map (|·|)).sum := by
  induction l with
  | nil => simp
  | cons x l ih =>
    rw [List.sum_cons, List.map_cons, List.sum_cons]
    exact (abs_add_le _ _).trans (by linarith)

/-- Between two positions of a closed walk there are two ways. -/
theorem two_mul_sub_le (hclosed : ds.sum = 0) {i j : Nat} (hij : i ≤ j) :
    2 * |(ds.take j).sum - (ds.take i).sum| ≤ (ds.map (|·|)).sum := by
  have hsplit : ds = ds.take i ++ (ds.take j).drop i ++ ds.drop j := by
    rw [show ds.take i = (ds.take j).take i by rw [List.take_take, min_eq_left hij], List.take_append_drop, List.take_append_drop]
  have hway : (ds.take j).sum = (ds.take i).sum + ((ds.take j).drop i).sum := by
    rw [← List.sum_append, show ds.take i = (ds.take j).take i by rw [List.take_take, min_eq_left hij], List.take_append_drop]
  have hback : ((ds.take j).drop i).sum = -((ds.take i).sum + (ds.drop j).sum) := by
    have hsum := congrArg List.sum hsplit
    rw [List.sum_append, List.sum_append, hclosed] at hsum
    linarith
  have hlength := congrArg (fun l : List K => (l.map (|·|)).sum) hsplit
  simp only [List.map_append, List.sum_append] at hlength
  have h1 := abs_sum_le (ds.take i)
  have h2 := abs_sum_le ((ds.take j).drop i)
  have h3 := abs_sum_le (ds.drop j)
  have h4 : |((ds.take j).drop i).sum| ≤ |(ds.take i).sum| + |(ds.drop j).sum| := by
    rw [hback, abs_neg]
    exact abs_add_le _ _
  rw [hway, add_sub_cancel_left, hlength]
  linarith

/-- A closed walk goes its range up and down. -/
theorem two_range_le (h : Spans ds lo hi) (hclosed : ds.sum = 0) : 2 * (hi - lo) ≤ (ds.map (|·|)).sum := by
  obtain ⟨i, hi', rfl⟩ := mem_positions.1 h.lo.mem
  obtain ⟨j, hj, rfl⟩ := mem_positions.1 h.hi.mem
  rcases le_total i j with hij | hji
  · exact (mul_le_mul_of_nonneg_left (le_abs_self _) two_pos.le).trans (two_mul_sub_le hclosed hij)
  · refine (mul_le_mul_of_nonneg_left ?_ two_pos.le).trans (two_mul_sub_le hclosed hji)
    rw [abs_sub_comm]
    exact le_abs_self _

/-- The sum of the squares. -/
def squares (ds : List K) : K := (ds.map fun d => d * d).sum

omit [LinearOrder K] [IsStrictOrderedRing K] in
theorem squares_concat (ds : List K) (d : K) : squares (ds ++ [d]) = squares ds + d * d := by
  simp [squares]

theorem squares_nonneg (ds : List K) : 0 ≤ squares ds :=
  List.sum_nonneg fun _ hx => by
    obtain ⟨d, -, rfl⟩ := List.mem_map.1 hx
    exact mul_self_nonneg d

theorem squares_pos {d : K} (hd : d ∈ ds) (hne : d ≠ 0) : 0 < squares ds := by
  have hle : d * d ≤ squares ds := List.single_le_sum (fun _ hx => by
    obtain ⟨d, -, rfl⟩ := List.mem_map.1 hx
    exact mul_self_nonneg d) _ (List.mem_map_of_mem hd)
  exact lt_of_lt_of_le (mul_self_pos.2 hne) hle

/-- The steps are on average no longer than the range. -/
theorem squares_le (h : Spans ds lo hi) : squares ds ≤ ds.length * (hi - lo) ^ 2 := by
  unfold squares
  refine (List.sum_le_card_nsmul _ ((hi - lo) ^ 2) fun x hx => ?_).trans_eq ?_
  · obtain ⟨d, hd, rfl⟩ := List.mem_map.1 hx
    rw [← sq, ← sq_abs]
    exact pow_le_pow_left₀ (abs_nonneg d) (abs_le_range h hd) 2
  · rw [List.length_map, nsmul_eq_mul]

theorem sum_abs_sq_le (ds : List K) : (ds.map (|·|)).sum ^ 2 ≤ ds.length * squares ds := by
  have hsq : squares ds = ∑ i : Fin ds.length, |ds[i]| ^ 2 := by
    simp_rw [sq_abs, sq]
    exact (Fin.sum_univ_fun_getElem ds fun d => d * d).symm
  rw [← Fin.sum_univ_fun_getElem ds (|·|), hsq]
  simpa using sq_sum_le_card_mul_sum_sq (s := Finset.univ) (f := fun i : Fin ds.length => |ds[i]|)

/-- A closed walk of so many steps stays within half of them, each as long as the root mean square. -/
theorem range_sq_le (h : Spans ds lo hi) (hclosed : ds.sum = 0) : (2 * (hi - lo)) ^ 2 ≤ ds.length * squares ds := by
  have hnonneg : 0 ≤ 2 * (hi - lo) := by
    have hstart : (0 : K) ∈ positions ds := mem_positions.2 ⟨0, Nat.zero_le _, rfl⟩
    have := h.le_hi hstart
    have := h.lo_le hstart
    linarith
  exact (pow_le_pow_left₀ hnonneg (two_range_le h hclosed) 2).trans (sum_abs_sq_le ds)

/-! ### Other units -/

theorem extreme_scale_pos {up : Bool} {e a : K} {xs : List K} (ha : 0 < a) (h : Extreme up e xs) :
    Extreme up (a * e) (xs.map (a * ·)) := by
  refine ⟨List.mem_map_of_mem h.mem, fun y hy => ?_⟩
  obtain ⟨x, hx, rfl⟩ := List.mem_map.1 hy
  have hlast := h.last x hx
  cases up with
  | true => simpa [mul_lt_mul_iff_right₀ ha] using hlast
  | false => simpa [mul_lt_mul_iff_right₀ ha] using hlast

theorem extreme_scale_neg {up : Bool} {e a : K} {xs : List K} (ha : a < 0) (h : Extreme up e xs) :
    Extreme (!up) (a * e) (xs.map (a * ·)) := by
  refine ⟨List.mem_map_of_mem h.mem, fun y hy => ?_⟩
  obtain ⟨x, hx, rfl⟩ := List.mem_map.1 hy
  have hlast := h.last x hx
  cases up with
  | true => simpa [mul_lt_mul_left_of_neg ha] using hlast
  | false => simpa [mul_lt_mul_left_of_neg ha] using hlast

omit [LinearOrder K] [IsStrictOrderedRing K] in
theorem positions_scale (a : K) (ds : List K) : positions (ds.map (a * ·)) = (positions ds).map (a * ·) := by
  unfold positions
  rw [List.map_map, List.length_map]
  refine List.map_congr_left fun k _ => ?_
  rw [← List.map_take, List.sum_map_mul_left, List.map_id']
  rfl

omit [LinearOrder K] [IsStrictOrderedRing K] in
theorem squares_scale (a : K) (ds : List K) : squares (ds.map (a * ·)) = a * a * squares ds := by
  unfold squares
  rw [List.map_map, ← List.sum_map_mul_left]
  congr 1
  refine List.map_congr_left fun d _ => ?_
  show a * d * (a * d) = a * a * (d * d)
  ring

/-- In other units the range is as many of them, whichever way is up. -/
theorem Spans.scale (h : Spans ds lo hi) {a : K} (ha : a ≠ 0) :
    ∃ lo' hi', Spans (ds.map (a * ·)) lo' hi' ∧ hi' - lo' = |a| * (hi - lo) := by
  rcases lt_or_gt_of_ne ha with hneg | hpos
  · refine ⟨a * hi, a * lo, ⟨?_, ?_⟩, ?_⟩
    · rw [positions_scale]
      exact extreme_scale_neg hneg h.lo
    · rw [positions_scale]
      exact extreme_scale_neg hneg h.hi
    · rw [abs_of_neg hneg]
      ring
  · refine ⟨a * lo, a * hi, ⟨?_, ?_⟩, ?_⟩
    · rw [positions_scale]
      exact extreme_scale_pos hpos h.hi
    · rw [positions_scale]
      exact extreme_scale_pos hpos h.lo
    · rw [abs_of_pos hpos]
      ring

end Walk
