import StratForge.Exact
import StratForge.OrderStatistics
import StratForge.Performance
import StratForge.Quotes

/-!
# Quantiles of a window (`indicators/quantile.hpp`, `indicators/median.hpp`, `analytics/extended_metrics.hpp`)

The quantile of the rolling indicator, the one inside the value at risk and, halfway, the median: three computations of
the value of the sorted window at one position.
-/

namespace StratForge
namespace Indicators
open Floating (nan)
open OrderStatistics (interpolate Selects)

section
variable {α : Type} [Arith α] [Floating α]

/-- What the loop copies into `buf_`: the last `period` values, the oldest first. -/
def trailing (source : Line α) (period : Nat) : Option (List α) :=
  (List.range period).mapM fun i => source.data[source.idx + 1 - period + i]?

structure Quantile (α : Type) where
  period : Nat
  q : α
  line : List α := []

namespace Quantile

def init (period : Nat) (q : α) : Quantile α := { period := if period = 0 then 1 else period, q }

/-- The cast to `std::size_t` rounds down. -/
def next (maths : Maths α) (source : Line α) (s : Quantile α) : Option (Quantile α) :=
  if source.idx + 1 < s.period then some { s with line := s.line ++ [nan] }
  else do
    let buf := (← trailing source s.period).mergeSort (· ≤ ·)
    let pos := s.q * Arith.ofCount (s.period - 1)
    let lower := maths.floor pos
    let upper := if lower + 1 < s.period then lower + 1 else lower
    let frac := pos - Arith.ofCount lower
    let below ← buf[lower]?
    let above ← buf[upper]?
    return { s with line := s.line ++ [below * (1 - frac) + above * frac] }

end Quantile

/-- `*std::max_element`. -/
def maxElement : List α → Option α
  | [] => none
  | x :: xs => some (xs.foldl Arith.max x)

structure Median (α : Type) where
  period : Nat
  line : List α := []

namespace Median

def init (period : Nat) : Median α := { period := if period = 0 then 1 else period }

/-- `nthElement buf mid` is what `std::nth_element` leaves. -/
def next (nthElement : List α → Nat → List α) (source : Line α) (s : Median α) : Option (Median α) :=
  if source.idx + 1 < s.period then some { s with line := s.line ++ [nan] }
  else do
    let mid := s.period / 2
    let buf := nthElement (← trailing source s.period) mid
    let upper ← buf[mid]?
    if s.period % 2 = 1 then return { s with line := s.line ++ [upper] }
    else
      let lower ← maxElement (buf.take mid)
      return { s with line := s.line ++ [(lower + upper) / 2.0] }

end Median

end

/-! ### One quantile -/

/-- The value at position `q * (n - 1)` of the sorted window. -/
def quantileOf (window : List ℚ) (q : ℚ) : ℚ :=
  interpolate (window.mergeSort (· ≤ ·)) (q * ((window.length - 1 : Nat) : ℚ))

/-- The last values of the source are those of the window. -/
structure Ends (window : List ℚ) (source : Line OrNan) : Prop where
  enough : window.length ≤ source.idx + 1
  values : ∀ i x, window[i]? = some x → source.data[source.idx + 1 - window.length + i]? = some (.num x)

/-- `std::nth_element` on numbers. -/
def NthElement (nthElement : List OrNan → Nat → List OrNan) : Prop :=
  ∀ (window : List ℚ) k, k < window.length → ∃ ys, nthElement (window.map .num) k = ys.map .num ∧ Selects window k ys

variable {maths : Maths OrNan} {window : List ℚ} {q : ℚ} {source : Line OrNan}

theorem Ends.trailing (h : Ends window source) : trailing source window.length = some (window.map .num) := by
  have hmap : window.map OrNan.num = (List.range window.length).map fun i => OrNan.num (window.getD i 0) := by
    refine List.ext_getElem (by simp) fun i hi hi' => ?_
    have hi : i < window.length := by simpa using hi
    simp [hi]
  unfold Indicators.trailing
  rw [hmap]
  refine Access.mapM_eq_some fun i hi => ?_
  have hi := List.mem_range.1 hi
  rw [h.values i _ (List.getElem?_eq_getElem hi), List.getD_eq_getElem _ _ hi]

theorem mergeSort_num (window : List ℚ) :
    (window.map OrNan.num).mergeSort (· ≤ ·) = (window.mergeSort (· ≤ ·)).map .num :=
  (List.map_mergeSort fun a _ b _ => by simp).symm

/-- Where the quantile stands in the sorted window. -/
structure Standing (window : List ℚ) (q : ℚ) : Prop where
  sorted : (window.mergeSort (· ≤ ·)).SortedLE
  nonempty : window.mergeSort (· ≤ ·) ≠ []
  nonneg : 0 ≤ q * ((window.length - 1 : Nat) : ℚ)
  last : q * ((window.length - 1 : Nat) : ℚ) ≤ (((window.mergeSort (· ≤ ·)).length - 1 : Nat) : ℚ)

theorem standing (hne : window ≠ []) (h0 : 0 ≤ q) (h1 : q ≤ 1) : Standing window q where
  sorted := List.sortedLE_mergeSort
  nonempty := by
    rw [← List.length_pos_iff, List.length_mergeSort]
    exact List.length_pos_iff.2 hne
  nonneg := by positivity
  last := by
    rw [List.length_mergeSort]
    exact mul_le_of_le_one_left (by positivity) h1

/-- The rolling quantile. -/
theorem quantile_next (hfloor : ∀ x : ℚ, maths.floor (.num x) = ⌊x⌋₊) (hne : window ≠ []) (h0 : 0 ≤ q) (h1 : q ≤ 1)
    (hends : Ends window source) {s : Quantile OrNan} (hperiod : s.period = window.length) (hq : s.q = .num q) :
    s.next maths source = some { s with line := s.line ++ [.num (quantileOf window q)] } := by
  obtain ⟨hsorted, hnonempty, hnonneg, hlast⟩ := standing hne h0 h1
  have hlt := OrderStatistics.floor_lt hnonempty hlast
  have hupper : (if ⌊q * ((window.length - 1 : Nat) : ℚ)⌋₊ + 1 < window.length then ⌊q * ((window.length - 1 : Nat) : ℚ)⌋₊ + 1
      else ⌊q * ((window.length - 1 : Nat) : ℚ)⌋₊) =
        min (⌊q * ((window.length - 1 : Nat) : ℚ)⌋₊ + 1) ((window.mergeSort (· ≤ ·)).length - 1) := by
    rw [List.length_mergeSort] at hlt ⊢
    split_ifs <;> omega
  have hread : ∀ i, i < (window.mergeSort (· ≤ ·)).length →
      ((window.mergeSort (· ≤ ·)).map OrNan.num)[i]? = some (.num ((window.mergeSort (· ≤ ·)).getD i 0)) := by
    intro i hi
    rw [List.getElem?_map, List.getElem?_eq_getElem hi, List.getD_eq_getElem _ _ hi]
    rfl
  have hmin : min (⌊q * ((window.length - 1 : Nat) : ℚ)⌋₊ + 1) ((window.mergeSort (· ≤ ·)).length - 1) <
      (window.mergeSort (· ≤ ·)).length := by
    have := List.length_pos_iff.2 hnonempty
    omega
  unfold Quantile.next
  rw [hperiod, if_neg (by have := hends.enough; omega)]
  simp only [hends.trailing, mergeSort_num, hq, OrNan.ofCount_eq, OrNan.num_mul, hfloor, hupper, hread _ hlt, hread _ hmin,
    OrNan.num_sub, OrNan.one_eq, OrNan.num_add, Option.bind_eq_bind, Option.bind_some, Option.pure_def]
  rfl

theorem quantilePosition_num (hfloor : ∀ x : ℚ, maths.floor (.num x) = ⌊x⌋₊) (hceil : ∀ x : ℚ, maths.ceil (.num x) = ⌈x⌉₊)
    (length : Nat) (h0 : 0 ≤ q) (h1 : q ≤ 1) : ExtendedMetricsCalculator.quantilePosition maths length (.num q) =
      (.num (q * ((length - 1 : Nat) : ℚ)), ⌊q * ((length - 1 : Nat) : ℚ)⌋₊, ⌈q * ((length - 1 : Nat) : ℚ)⌉₊) := by
  have hclamp : Arith.clamp (OrNan.num q) 0 1 = .num q := by
    simp [Arith.clamp, OrNan.zero_eq, OrNan.one_eq, not_lt.2 h0, not_lt.2 h1]
  simp only [ExtendedMetricsCalculator.quantilePosition, hclamp, OrNan.ofCount_eq, OrNan.num_mul, hfloor, hceil]

/-- The value at risk. -/
theorem valueAtRisk_eq (hfloor : ∀ x : ℚ, maths.floor (.num x) = ⌊x⌋₊) (hceil : ∀ x : ℚ, maths.ceil (.num x) = ⌈x⌉₊)
    (hne : window ≠ []) (h0 : 0 ≤ q) (h1 : q ≤ 1) :
    ExtendedMetricsCalculator.calculateValueAtRiskPercent maths (window.map .num) (.num q) =
      .num (max 0 (-quantileOf window q * 100)) := by
  obtain ⟨hsorted, hnonempty, hnonneg, hlast⟩ := standing hne h0 h1
  have hlen : ((window.mergeSort (· ≤ ·)).map OrNan.num).length = window.length := by simp
  have hread : ∀ i, ((window.mergeSort (· ≤ ·)).map OrNan.num).getD i 0 = .num ((window.mergeSort (· ≤ ·)).getD i 0) := fun i => by
    rw [List.getD_eq_getElem?_getD, List.getD_eq_getElem?_getD, List.getElem?_map]
    cases (window.mergeSort (· ≤ ·))[i]? <;> rfl
  unfold ExtendedMetricsCalculator.calculateValueAtRiskPercent
  rw [if_neg (by simpa using hne), mergeSort_num]
  simp only [hlen, quantilePosition_num hfloor hceil window.length h0 h1, OrNan.ofCount_eq, OrNan.num_mul, hread,
    OrNan.num_sub, OrNan.num_add, quantileOf]
  rw [OrderStatistics.interpolate_ceil hnonempty hnonneg hlast]
  generalize (window.mergeSort (· ≤ ·)) = sorted
  have hquantile : ∀ a b w : ℚ, ∀ c : Prop, [Decidable c] →
      (if c then OrNan.num (a + (b - a) * w) else .num a) = .num (if c then a + (b - a) * w else a) :=
    fun a b w c _ => (apply_ite OrNan.num c _ _).symm
  rw [hquantile, OrNan.num_neg, OrNan.ofScientific_eq, OrNan.num_mul, OrNan.zero_eq, OrNan.max_num]
  norm_num

theorem maxElement_num {xs : List ℚ} (hne : xs ≠ []) :
    ∃ m, maxElement (xs.map OrNan.num) = some (.num m) ∧ m ∈ xs ∧ ∀ y ∈ xs, y ≤ m := by
  cases xs with
  | nil => exact absurd rfl hne
  | cons x xs =>
    have hfold : ∀ (xs : List ℚ) x, (xs.map OrNan.num).foldl Arith.max (.num x) = .num (xs.foldl max x) := by
      intro xs
      induction xs with
      | nil => exact fun _ => rfl
      | cons y ys ih =>
        intro x
        rw [List.map_cons, List.foldl_cons, OrNan.max_num, ih, List.foldl_cons]
    have hmost : ∀ (xs : List ℚ) x, xs.foldl max x ∈ x :: xs ∧ ∀ y ∈ x :: xs, y ≤ xs.foldl max x := by
      intro xs
      induction xs with
      | nil => simp
      | cons y ys ih =>
        intro x
        obtain ⟨hmem, hle⟩ := ih (max x y)
        rw [List.foldl_cons]
        refine ⟨?_, fun z hz => ?_⟩
        · rcases List.mem_cons.1 hmem with heq | hmem
          · rw [heq]
            rcases max_choice x y with hx | hy
            · simp [hx]
            · simp [hy]
          · simp [hmem]
        · have hmax := hle (max x y) (by simp)
          simp only [List.mem_cons] at hz
          rcases hz with rfl | rfl | hz
          · exact (le_max_left _ _).trans hmax
          · exact (le_max_right _ _).trans hmax
          · exact hle z (by simp [hz])
    exact ⟨xs.foldl max x, congrArg some (hfold xs x), hmost xs x⟩

/-- Halfway: the middle value, or between the two in the middle. -/
theorem quantileOf_half (hne : window ≠ []) : quantileOf window (1 / 2) =
    if window.length % 2 = 1 then (window.mergeSort (· ≤ ·)).getD (window.length / 2) 0
    else ((window.mergeSort (· ≤ ·)).getD (window.length / 2 - 1) 0 + (window.mergeSort (· ≤ ·)).getD (window.length / 2) 0) / 2 := by
  have hpos := List.length_pos_iff.2 hne
  unfold quantileOf interpolate
  rw [List.length_mergeSort]
  split_ifs with hodd
  · have hmiddle : (1 / 2 : ℚ) * ((window.length - 1 : Nat) : ℚ) = ((window.length / 2 : Nat) : ℚ) := by
      have htwice : window.length - 1 = 2 * (window.length / 2) := by omega
      rw [htwice]
      push_cast
      ring
    rw [hmiddle, Nat.floor_natCast]
    ring
  · have hmiddle : (1 / 2 : ℚ) * ((window.length - 1 : Nat) : ℚ) = ((window.length / 2 - 1 : Nat) : ℚ) + 1 / 2 := by
      have htwice : window.length - 1 = 2 * (window.length / 2 - 1) + 1 := by omega
      rw [htwice]
      push_cast
      ring
    have hfloor : ⌊((window.length / 2 - 1 : Nat) : ℚ) + 1 / 2⌋₊ = window.length / 2 - 1 := by
      rw [Nat.floor_eq_iff (by positivity)]
      constructor
      · linarith
      · linarith
    rw [hmiddle, hfloor, show min (window.length / 2 - 1 + 1) (window.length - 1) = window.length / 2 by omega]
    ring

/-- The rolling median. -/
theorem median_next {nthElement : List OrNan → Nat → List OrNan} (hnth : NthElement nthElement) (hne : window ≠ [])
    (hends : Ends window source) {s : Median OrNan} (hperiod : s.period = window.length) :
    s.next nthElement source = some { s with line := s.line ++ [.num (quantileOf window (1 / 2))] } := by
  have hpos := List.length_pos_iff.2 hne
  have hmid : window.length / 2 < window.length := by omega
  obtain ⟨ys, hys, hselects⟩ := hnth window (window.length / 2) hmid
  have hlen : ys.length = window.length := hselects.perm.length_eq
  have hget := List.getElem?_eq_getElem (l := ys) (i := window.length / 2) (by omega)
  obtain ⟨hplace, hbefore⟩ := hselects.sorted hget List.sortedLE_mergeSort (List.mergeSort_perm window (· ≤ ·))
  have hupper : (window.mergeSort (· ≤ ·)).getD (window.length / 2) 0 = ys[window.length / 2] := by
    rw [List.getD_eq_getElem?_getD, hplace]
    rfl
  unfold Median.next
  rw [hperiod, if_neg (by have := hends.enough; omega)]
  simp only [hends.trailing, hys, List.getElem?_map, hget, Option.map_some, Option.bind_eq_bind, Option.bind_some,
    Option.pure_def, ← List.map_take, quantileOf_half hne, hupper]
  split_ifs with hodd
  · rfl
  · have htake : ys.take (window.length / 2) ≠ [] := by
      rw [← List.length_pos_iff, List.length_take]
      omega
    obtain ⟨m, hm, hmem, hmost⟩ := maxElement_num htake
    have hlower := OrderStatistics.greatest_before (List.sortedLE_mergeSort (l := window)) (by omega)
      (by rw [List.length_mergeSort]; omega) hbefore hmem hmost
    have hlower : (window.mergeSort (· ≤ ·)).getD (window.length / 2 - 1) 0 = m := by
      rw [List.getD_eq_getElem?_getD, hlower]
      rfl
    rw [hm, Option.bind_some, hlower, OrNan.num_add, OrNan.ofScientific_eq, OrNan.num_div (by norm_num)]
    norm_num

/-- The three agree, in range and rising with the quantile. -/
theorem quantiles_agree (maths : Maths OrNan) (nthElement : List OrNan → Nat → List OrNan)
    (hfloor : ∀ x : ℚ, maths.floor (.num x) = ⌊x⌋₊) (hceil : ∀ x : ℚ, maths.ceil (.num x) = ⌈x⌉₊)
    (hnth : NthElement nthElement) (window : List ℚ) (hne : window ≠ []) (q : ℚ) (h0 : 0 ≤ q) (h1 : q ≤ 1) :
    (∀ (source : Line OrNan) (s : Quantile OrNan), Ends window source → s.period = window.length → s.q = .num q →
      s.next maths source = some { s with line := s.line ++ [.num (quantileOf window q)] }) ∧
    ((ExtendedMetricsCalculator.quantilePosition maths window.length (.num q)).2.1 < window.length ∧
      (ExtendedMetricsCalculator.quantilePosition maths window.length (.num q)).2.2 < window.length ∧
      ExtendedMetricsCalculator.calculateValueAtRiskPercent maths (window.map .num) (.num q) =
        .num (max 0 (-quantileOf window q * 100))) ∧
    (∃ lo ∈ window, ∃ hi ∈ window, (∀ x ∈ window, lo ≤ x ∧ x ≤ hi) ∧ lo ≤ quantileOf window q ∧ quantileOf window q ≤ hi) ∧
    (∀ q', q ≤ q' → q' ≤ 1 → quantileOf window q ≤ quantileOf window q' ∧
      max 0 (-quantileOf window q' * 100) ≤ max 0 (-quantileOf window q * 100)) ∧
    (∀ (source : Line OrNan) (s : Median OrNan), Ends window source → s.period = window.length →
      s.next nthElement source = some { s with line := s.line ++ [.num (quantileOf window (1 / 2))] }) := by
  have hpos := List.length_pos_iff.2 hne
  obtain ⟨hsorted, hnonempty, hnonneg, hlast⟩ := standing hne h0 h1
  have hmono : ∀ q', q ≤ q' → q' ≤ 1 → quantileOf window q ≤ quantileOf window q' := fun q' hle hone =>
    OrderStatistics.interpolate_mono hsorted hnonempty hnonneg (mul_le_mul_of_nonneg_right hle (by positivity))
      (standing hne (h0.trans hle) hone).last
  refine ⟨fun source s hends hperiod hq => quantile_next hfloor hne h0 h1 hends hperiod hq,
    ⟨?_, ?_, valueAtRisk_eq hfloor hceil hne h0 h1⟩, ?_, fun q' hle hone => ⟨hmono q' hle hone, ?_⟩,
    fun source s hends hperiod => median_next hnth hne hends hperiod⟩
  · rw [quantilePosition_num hfloor hceil _ h0 h1]
    have hlt := OrderStatistics.floor_lt hnonempty hlast
    rwa [List.length_mergeSort] at hlt
  · rw [quantilePosition_num hfloor hceil _ h0 h1]
    have hle := Nat.ceil_le.2 hlast
    rw [List.length_mergeSort] at hle
    exact hle.trans_lt (by omega)
  · obtain ⟨lo, hlo, hi, hhi, hall, hrange⟩ :=
      OrderStatistics.interpolate_range hsorted hnonneg (OrderStatistics.floor_lt hnonempty hlast)
    rw [List.mem_mergeSort] at hlo hhi
    exact ⟨lo, hlo, hi, hhi, fun x hx => hall x (List.mem_mergeSort.2 hx), hrange⟩
  · exact max_le_max le_rfl (by have := hmono q' hle hone; linarith)

/-- Rounding as it is done, and a selection that sorts. -/
def roundingMaths : Maths OrNan where
  pow x _ := x
  sqrt := id
  infinity := 0
  floor
    | .num x => ⌊x⌋₊
    | .nan => 0
  ceil
    | .num x => ⌈x⌉₊
    | .nan => 0

theorem nthElement_mergeSort : NthElement fun xs _ => xs.mergeSort (· ≤ ·) := by
  intro window k _
  have hsorted : (window.mergeSort (· ≤ ·)).SortedLE := List.sortedLE_mergeSort
  refine ⟨window.mergeSort (· ≤ ·), mergeSort_num window, List.mergeSort_perm _ _, ?_, ?_⟩
  · intro i y hi hy z hz
    obtain ⟨hi', rfl⟩ := List.getElem?_eq_some_iff.1 hy
    obtain ⟨hk', rfl⟩ := List.getElem?_eq_some_iff.1 hz
    exact hsorted.getElem_le_getElem_of_le hi.le
  · intro i y hi hy z hz
    obtain ⟨hi', rfl⟩ := List.getElem?_eq_some_iff.1 hy
    obtain ⟨hk', rfl⟩ := List.getElem?_eq_some_iff.1 hz
    exact hsorted.getElem_le_getElem_of_le hi.le

theorem quantiles_agree_three : ExtendedMetricsCalculator.calculateValueAtRiskPercent roundingMaths
      (([3, 1, 2] : List ℚ).map .num) (.num (1 / 4)) = .num (max 0 (-quantileOf [3, 1, 2] (1 / 4) * 100)) ∧
    quantileOf [3, 1, 2] (1 / 4) ≤ quantileOf [3, 1, 2] (1 / 2) := by
  obtain ⟨-, ⟨-, -, hrisk⟩, -, hmono, -⟩ := quantiles_agree roundingMaths (fun xs _ => xs.mergeSort (· ≤ ·)) (fun _ => rfl)
    (fun _ => rfl) nthElement_mergeSort [3, 1, 2] (by simp) (1 / 4) (by norm_num) (by norm_num)
  exact ⟨hrisk, (hmono (1 / 2) (by norm_num) (by norm_num)).1⟩

end Indicators

end StratForge
