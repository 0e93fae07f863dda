import Mathlib.Algebra.Order.Floor.Semifield
import Mathlib.Data.List.GetD
import Mathlib.Data.List.Sort
import Mathlib.Tactic.Linarith
import Mathlib.Tactic.Ring

/-! # Values of a sorted list, and between two of them

The value at a position of a sorted list that need not be whole is interpolated between its neighbours (`interpolate`).
It rises with the position. What a selection leaves at its place is the value that the sorted list has there
(`Selects.sorted`). -/

namespace OrderStatistics
universe u

section
variable {K : Type u} [Field K] [LinearOrder K] [IsStrictOrderedRing K] [FloorSemiring K] {s : List K} {x y : K}

/-- The value at a position, and from the last place on the last value. -/
def interpolate (s : List K) (x : K) : K :=
  s.getD ⌊x⌋₊ 0 * (1 - (x - ⌊x⌋₊)) + s.getD (min (⌊x⌋₊ + 1) (s.length - 1)) 0 * (x - ⌊x⌋₊)

omit [IsStrictOrderedRing K] [FloorSemiring K] in
theorem getD_le_getD (hs : s.SortedLE) {i j : Nat} (hij : i ≤ j) (hj : j < s.length) : s.getD i 0 ≤ s.getD j 0 := by
  rw [List.getD_eq_getElem _ _ (by omega), List.getD_eq_getElem _ _ hj]
  exact hs.getElem_le_getElem_of_le hij

/-- The value is between its neighbours. -/
theorem interpolate_between (hs : s.SortedLE) (hx : 0 ≤ x) (hlast : ⌊x⌋₊ < s.length) :
    s.getD ⌊x⌋₊ 0 ≤ interpolate s x ∧ interpolate s x ≤ s.getD (min (⌊x⌋₊ + 1) (s.length - 1)) 0 := by
  have hstep := getD_le_getD hs (show ⌊x⌋₊ ≤ min (⌊x⌋₊ + 1) (s.length - 1) by omega) (by omega)
  have hlow : 0 ≤ x - ⌊x⌋₊ := sub_nonneg.2 (Nat.floor_le hx)
  have hhigh : x - ⌊x⌋₊ ≤ 1 := by linarith [(Nat.lt_floor_add_one x).le]
  unfold interpolate
  generalize s.getD ⌊x⌋₊ 0 = a at hstep
  generalize s.getD (min (⌊x⌋₊ + 1) (s.length - 1)) 0 = b at hstep
  generalize x - (⌊x⌋₊ : K) = w at hlow hhigh
  constructor
  · nlinarith
  · nlinarith

theorem floor_lt (hne : s ≠ []) (hx : x ≤ ((s.length - 1 : Nat) : K)) : ⌊x⌋₊ < s.length := by
  have hpos := List.length_pos_iff.2 hne
  have hle := Nat.floor_le_of_le hx
  omega

theorem interpolate_mono (hs : s.SortedLE) (hne : s ≠ []) (hx : 0 ≤ x) (hxy : x ≤ y) (hy : y ≤ ((s.length - 1 : Nat) : K)) :
    interpolate s x ≤ interpolate s y := by
  have hy0 := hx.trans hxy
  have hylast := floor_lt hne hy
  have hxlast := floor_lt hne (hxy.trans hy)
  rcases Nat.eq_or_lt_of_le (Nat.floor_mono hxy) with hsame | hless
  · -- between the same two neighbours
    have hstep := getD_le_getD hs (show ⌊y⌋₊ ≤ min (⌊y⌋₊ + 1) (s.length - 1) by omega) (by omega)
    unfold interpolate
    rw [hsame]
    generalize s.getD ⌊y⌋₊ 0 = a at hstep
    generalize s.getD (min (⌊y⌋₊ + 1) (s.length - 1)) 0 = b at hstep
    generalize (⌊y⌋₊ : K) = k
    nlinarith
  · calc interpolate s x ≤ s.getD (min (⌊x⌋₊ + 1) (s.length - 1)) 0 := (interpolate_between hs hx hxlast).2
      _ ≤ s.getD ⌊y⌋₊ 0 := getD_le_getD hs (by omega) hylast
      _ ≤ interpolate s y := (interpolate_between hs hy0 hylast).1

/-- And between the least and the greatest value. -/
theorem interpolate_range (hs : s.SortedLE) (hx : 0 ≤ x) (hlast : ⌊x⌋₊ < s.length) : ∃ lo ∈ s, ∃ hi ∈ s,
    (∀ y ∈ s, lo ≤ y ∧ y ≤ hi) ∧ lo ≤ interpolate s x ∧ interpolate s x ≤ hi := by
  obtain ⟨hlow, hhigh⟩ := interpolate_between hs hx hlast
  have hmem : ∀ i, i < s.length → s.getD i 0 ∈ s := fun i hi => by
    rw [List.getD_eq_getElem _ _ hi]
    exact List.getElem_mem hi
  refine ⟨s.getD 0 0, hmem 0 (by omega), s.getD (s.length - 1) 0, hmem _ (by omega), fun y hy => ?_,
    (getD_le_getD hs (Nat.zero_le _) hlast).trans hlow, hhigh.trans (getD_le_getD hs (Nat.min_le_right _ _) (by omega))⟩
  obtain ⟨i, hi, rfl⟩ := List.mem_iff_getElem.1 hy
  rw [← List.getD_eq_getElem _ 0 hi]
  exact ⟨getD_le_getD hs (Nat.zero_le i) hi, getD_le_getD hs (by omega) (by omega)⟩

/-- Below the last place the neighbours may be found by rounding down and up. -/
theorem interpolate_ceil (hne : s ≠ []) (hx : 0 ≤ x) (hlast : x ≤ ((s.length - 1 : Nat) : K)) :
    interpolate s x = if ⌈x⌉₊ ≠ ⌊x⌋₊ then s.getD ⌊x⌋₊ 0 + (s.getD ⌈x⌉₊ 0 - s.getD ⌊x⌋₊ 0) * (x - ⌊x⌋₊)
      else s.getD ⌊x⌋₊ 0 := by
  have hpos := List.length_pos_iff.2 hne
  have hceil : ⌈x⌉₊ ≤ s.length - 1 := Nat.ceil_le.2 hlast
  unfold interpolate
  split_ifs with hup
  · have hnext : ⌈x⌉₊ = ⌊x⌋₊ + 1 := by
      have hle := Nat.floor_le_ceil x
      have hmost := Nat.ceil_le_floor_add_one x
      omega
    rw [← hnext, Nat.min_eq_left hceil]
    ring
  · have hwhole : x = ⌊x⌋₊ := le_antisymm (by
      have hle := Nat.le_ceil x
      rwa [show ⌈x⌉₊ = ⌊x⌋₊ from not_not.1 hup] at hle) (Nat.floor_le hx)
    have hzero : x - ⌊x⌋₊ = 0 := by rw [← hwhole, sub_self]
    rw [hzero]
    ring

end

/-! ### Selection -/

section
variable {A : Type u} [LinearOrder A] {xs ys : List A} {k : Nat}

/-- `ys` has the same values, with none before place `k` greater than the one at `k` and none after it less. -/
structure Selects (xs : List A) (k : Nat) (ys : List A) : Prop where
  perm : ys.Perm xs
  before : ∀ i y, i < k → ys[i]? = some y → ∀ z, ys[k]? = some z → y ≤ z
  after : ∀ i y, k < i → ys[i]? = some y → ∀ z, ys[k]? = some z → z ≤ y

/-- Sorted on either side of its place, a selection is the sorted list. -/
theorem Selects.sorted (h : Selects xs k ys) {z : A} (hz : ys[k]? = some z) {ss : List A} (hss : ss.SortedLE)
    (hperm : ss.Perm xs) : ss[k]? = some z ∧ (ss.take k).Perm (ys.take k) := by
  have hk := (List.getElem?_eq_some_iff.1 hz).1
  have hsplit : ys = ys.take k ++ z :: ys.drop (k + 1) := by
    rw [← (List.getElem?_eq_some_iff.1 hz).2, ← List.drop_eq_getElem_cons hk, List.take_append_drop]
  have hlow : ∀ y ∈ (ys.take k).mergeSort (· ≤ ·), y ≤ z := by
    intro y hy
    rw [List.mem_mergeSort] at hy
    obtain ⟨i, hi, rfl⟩ := List.mem_iff_getElem.1 hy
    have hi : i < k := by rw [List.length_take] at hi; omega
    rw [List.getElem_take]
    exact h.before i _ hi (List.getElem?_eq_getElem (by omega)) z hz
  have hhigh : ∀ y ∈ (ys.drop (k + 1)).mergeSort (· ≤ ·), z ≤ y := by
    intro y hy
    rw [List.mem_mergeSort] at hy
    obtain ⟨i, hi, rfl⟩ := List.mem_iff_getElem.1 hy
    rw [List.length_drop] at hi
    rw [List.getElem_drop]
    exact h.after (k + 1 + i) _ (by omega) (List.getElem?_eq_getElem (by omega)) z hz
  have hsort : ss = (ys.take k).mergeSort (· ≤ ·) ++ z :: (ys.drop (k + 1)).mergeSort (· ≤ ·) := by
    refine List.Perm.eq_of_sortedLE hss ?_ ?_
    · rw [List.sortedLE_iff_pairwise, List.pairwise_append, List.pairwise_cons]
      refine ⟨List.pairwise_mergeSort' _ _, ⟨hhigh, List.pairwise_mergeSort' _ _⟩, fun a ha b hb => ?_⟩
      rcases List.mem_cons.1 hb with rfl | hb
      · exact hlow a ha
      · exact (hlow a ha).trans (hhigh b hb)
    · have hparts : (ys.take k ++ z :: ys.drop (k + 1)).Perm
          ((ys.take k).mergeSort (· ≤ ·) ++ z :: (ys.drop (k + 1)).mergeSort (· ≤ ·)) :=
        (List.mergeSort_perm _ _).symm.append ((List.mergeSort_perm _ _).symm.cons z)
      exact hperm.trans (h.perm.symm.trans ((List.Perm.of_eq hsplit).trans hparts))
  have hlen : ((ys.take k).mergeSort (· ≤ ·)).length = k := by
    rw [List.length_mergeSort, List.length_take]
    omega
  rw [hsort]
  constructor
  · rw [List.getElem?_append_right hlen.le, hlen, Nat.sub_self]
    rfl
  · rw [List.take_append_of_le_length hlen.ge, List.take_of_length_le hlen.le]
    exact List.mergeSort_perm _ _

/-- The greatest of the values before the place is the one before it in the sorted list. -/
theorem greatest_before {ss : List A} (hss : ss.SortedLE) (hk : 0 < k) (hlen : k ≤ ss.length) {a : List A}
    (ha : (ss.take k).Perm a) {m : A} (hm : m ∈ a) (hmax : ∀ y ∈ a, y ≤ m) : ss[k - 1]? = some m := by
  have hlt : k - 1 < ss.length := by omega
  rw [List.getElem?_eq_getElem hlt]
  have hlast : ss[k - 1] ∈ a := by
    refine ha.mem_iff.1 (List.mem_iff_getElem.2 ⟨k - 1, by rw [List.length_take]; omega, ?_⟩)
    rw [List.getElem_take]
  obtain ⟨i, hi, hget⟩ := List.mem_iff_getElem.1 (ha.mem_iff.2 hm)
  rw [List.length_take] at hi
  rw [List.getElem_take] at hget
  have hle : ss[i] ≤ ss[k - 1] := hss.getElem_le_getElem_of_le (by omega)
  rw [hget] at hle
  exact congrArg some (le_antisymm (hmax _ hlast) hle)

end

end OrderStatistics
