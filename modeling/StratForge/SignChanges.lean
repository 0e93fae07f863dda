import Mathlib.Data.List.GetD
import Mathlib.Data.Sign.Basic

/-! # Changes of sign

Of a series the last value other than zero is remembered. A value on the other side of zero than what is remembered is
a crossing (`crossedAt`). However many zeros lie in between, crossings upwards and downwards alternate. -/

namespace SignChanges
universe u

variable {K : Type u} [LinearOrder K] [Zero K] {ds : List K} {m d : K} {i j : Nat}

/-- The last value other than zero, or zero. -/
def memory (ds : List K) : K := ds.foldl (fun m d => if d = 0 then m else d) 0

@[simp] theorem memory_nil : memory ([] : List K) = 0 := rfl

theorem memory_concat (ds : List K) (d : K) : memory (ds ++ [d]) = if d = 0 then memory ds else d := by
  rw [memory, List.foldl_append]
  rfl

/-- Where `d` goes from the side of `m`. -/
def crossing (m d : K) : SignType := if m < 0 ∧ 0 < d then 1 else if 0 < m ∧ d < 0 then -1 else 0

theorem crossing_eq_one : crossing m d = 1 ↔ m < 0 ∧ 0 < d := by
  unfold crossing
  split_ifs with hup hdown
  · exact iff_of_true rfl hup
  · exact iff_of_false (by simp) hup
  · exact iff_of_false (by simp) hup

theorem crossing_eq_neg_one : crossing m d = -1 ↔ 0 < m ∧ d < 0 := by
  unfold crossing
  split_ifs with hup hdown
  · exact iff_of_false (by simp) fun h => hup.1.not_gt h.1
  · exact iff_of_true rfl hdown
  · exact iff_of_false (by simp) hdown

theorem crossing_cases (h : crossing m d ≠ 0) : (m < 0 ∧ 0 < d) ∨ 0 < m ∧ d < 0 := by
  rcases SignType.trichotomy (crossing m d) with hneg | hzero | hpos
  · exact .inr (crossing_eq_neg_one.1 hneg)
  · exact absurd hzero h
  · exact .inl (crossing_eq_one.1 hpos)

/-- It is to the side of `d`. -/
theorem sign_right (h : crossing m d ≠ 0) : SignType.sign d = crossing m d := by
  rcases crossing_cases h with hup | hdown
  · rw [crossing_eq_one.2 hup, sign_pos hup.2]
  · rw [crossing_eq_neg_one.2 hdown, sign_neg hdown.2]

/-- It is from the side of `m`. -/
theorem sign_left (h : crossing m d ≠ 0) : SignType.sign m = -crossing m d := by
  rcases crossing_cases h with hup | hdown
  · rw [crossing_eq_one.2 hup, sign_neg hup.1]
  · rw [crossing_eq_neg_one.2 hdown, sign_pos hdown.1, neg_neg]

/-- What does not cross stays on the side that is remembered. -/
theorem sign_stays (hm : m ≠ 0) (h : crossing m d = 0) : SignType.sign (if d = 0 then m else d) = SignType.sign m := by
  split_ifs with hd
  · rfl
  rcases lt_or_gt_of_ne hm with hneg | hpos
  · have hnot : ¬ 0 < d := fun hlt => absurd (h.symm.trans (crossing_eq_one.2 ⟨hneg, hlt⟩)) (by simp)
    rw [sign_neg hneg, sign_neg (lt_of_le_of_ne (not_lt.1 hnot) hd)]
  · have hnot : ¬ d < 0 := fun hlt => absurd (h.symm.trans (crossing_eq_neg_one.2 ⟨hpos, hlt⟩)) (by simp)
    rw [sign_pos hpos, sign_pos (lt_of_le_of_ne (not_lt.1 hnot) (Ne.symm hd))]

/-- The crossing at place `j` of the series. -/
def crossedAt (ds : List K) (j : Nat) : SignType := crossing (memory (ds.take j)) (ds.getD j 0)

theorem memory_take_succ (hj : j < ds.length) :
    memory (ds.take (j + 1)) = if ds.getD j 0 = 0 then memory (ds.take j) else ds.getD j 0 := by
  rw [List.take_succ_eq_append_getElem hj, memory_concat, List.getD_eq_getElem _ _ hj]

theorem crossedAt_last (ds : List K) (d : K) : crossedAt (ds ++ [d]) ds.length = crossing (memory ds) d := by
  rw [crossedAt, List.take_left]
  simp

theorem crossedAt_append (d : K) (hj : j < ds.length) : crossedAt (ds ++ [d]) j = crossedAt ds j := by
  rw [crossedAt, crossedAt, List.take_append_of_le_length hj.le, List.getD_append _ _ _ _ hj]

/-- Two crossings with none between them are opposite. -/
theorem alternate (hij : i < j) (hj : j < ds.length) (hi0 : crossedAt ds i ≠ 0) (hj0 : crossedAt ds j ≠ 0)
    (hbetween : ∀ l, i < l → l < j → crossedAt ds l = 0) : crossedAt ds j = -crossedAt ds i := by
  have hside : ∀ l, i + 1 ≤ l → l ≤ j → SignType.sign (memory (ds.take l)) = crossedAt ds i := by
    intro l hl
    induction l, hl using Nat.le_induction with
    | base =>
      intro _
      have hsign := sign_right hi0
      have hd : ds.getD i 0 ≠ 0 := fun hzero => hi0 (by rw [← crossedAt] at hsign; rw [← hsign, hzero, sign_zero])
      rw [memory_take_succ (by omega), if_neg hd]
      exact hsign
    | succ l hl ih =>
      intro hle
      have hbefore := ih (by omega)
      have hm : memory (ds.take l) ≠ 0 := fun hzero => hi0 (by rw [← hbefore, hzero, sign_zero])
      rw [memory_take_succ (by omega), sign_stays hm (hbetween l (by omega) (by omega)), hbefore]
  have hlast := sign_left hj0
  rw [hside j (by omega) le_rfl] at hlast
  rw [hlast, neg_neg]
  rfl

end SignChanges
