import Mathlib.Algebra.BigOperators.Group.List.Basic
import Mathlib.Algebra.Field.Basic
import Mathlib.Data.List.Induction

/-! # Exponential averages of a series

The average of a series begins with the mean of its first `p` values and moves by a fixed part of the way to each
further one (`ema`). A value more at the end of the series is a value more at the end of the averages (`ema_concat`), so
an average of averages (`nested`) can be kept up value by value. -/

namespace Smoothing
universe u

variable {K : Type u} [Field K] {m prev x last : K} {p : Nat} {xs : List K}

def advance (m prev x : K) : K := (x - prev) * m + prev

/-- The averages after `prev`. -/
def advances (m prev : K) : List K → List K
  | [] => []
  | x :: xs => advance m prev x :: advances m (advance m prev x) xs

def mean (xs : List K) : K := xs.sum / xs.length

def ema (m : K) (p : Nat) (xs : List K) : List K :=
  if xs.length < p then [] else mean (xs.take p) :: advances m (mean (xs.take p)) (xs.drop p)

@[simp] theorem length_advances (m prev : K) (xs : List K) : (advances m prev xs).length = xs.length := by
  induction xs generalizing prev with
  | nil => rfl
  | cons x xs ih => simp [advances, ih]

theorem length_ema (m : K) (p : Nat) (xs : List K) : (ema m p xs).length = xs.length + 1 - p := by
  unfold ema
  split_ifs with h
  · rw [List.length_nil]
    omega
  · rw [List.length_cons, length_advances, List.length_drop]
    omega

theorem advances_concat (h : (prev :: advances m prev xs).getLast? = some last) :
    advances m prev (xs ++ [x]) = advances m prev xs ++ [advance m last x] := by
  induction xs generalizing prev with
  | nil =>
    obtain rfl : prev = last := by simpa [advances] using h
    rfl
  | cons y ys ih =>
    rw [advances, List.getLast?_cons_cons] at h
    rw [List.cons_append, advances, advances, ih h, List.cons_append]

theorem ema_of_lt (h : xs.length < p) : ema m p xs = [] := if_pos h

/-- The first average. -/
theorem ema_seed (h : xs.length = p) : ema m p xs = [mean xs] := by
  rw [ema, if_neg h.ge.not_gt, List.take_of_length_le h.le, List.drop_of_length_le h.le, advances]

theorem ema_concat (h : p ≤ xs.length) (hlast : (ema m p xs).getLast? = some last) :
    ema m p (xs ++ [x]) = ema m p xs ++ [advance m last x] := by
  have hlt : ¬ xs.length < p := h.not_gt
  have hlt' : ¬ (xs ++ [x]).length < p := by
    rw [List.length_append, List.length_singleton]
    omega
  rw [ema, if_neg hlt] at hlast
  rw [ema, if_neg hlt', ema, if_neg hlt, List.take_append_of_le_length h, List.drop_append_of_le_length h,
    advances_concat hlast, List.cons_append]

/-- A value more is an average more, if there is any. -/
theorem ema_concat_last (m x : K) (xs : List K) :
    ema m p (xs ++ [x]) = ema m p xs ++ (ema m p (xs ++ [x])).getLast?.toList := by
  rcases Nat.lt_or_ge xs.length p with hlt | hle
  · rw [ema_of_lt hlt, List.nil_append]
    rcases Nat.lt_or_ge (xs ++ [x]).length p with hlt' | hle'
    · rw [ema_of_lt hlt']
      rfl
    · have hlen : (xs ++ [x]).length = p := by
        rw [List.length_append, List.length_singleton] at hle' ⊢
        omega
      rw [ema_seed hlen]
      rfl
  · have hne : ema m p xs ≠ [] := by
      rw [← List.length_pos_iff, length_ema]
      omega
    rw [ema_concat hle (List.getLast?_eq_some_getLast hne)]
    simp

/-! ### Averages of averages -/

/-- The values, their averages, the averages of these and so on. -/
def nested (m : K) (p : Nat) (xs : List K) : Nat → List K
  | 0 => xs
  | k + 1 => ema m p (nested m p xs k)

theorem length_nested (hp : 0 < p) (m : K) (xs : List K) (k : Nat) :
    (nested m p xs k).length = xs.length - k * (p - 1) := by
  induction k with
  | zero => simp [nested]
  | succ k ih =>
    rw [nested, length_ema, ih, Nat.succ_mul]
    omega

/-- A value more is at most one more on every level, and one as soon as there are any. -/
theorem nested_concat (hp : 0 < p) (m x : K) (xs : List K) (k : Nat) :
    nested m p (xs ++ [x]) k = nested m p xs k ++ (nested m p (xs ++ [x]) k).getLast?.toList := by
  induction k with
  | zero => simp [nested]
  | succ k ih =>
    rw [nested, nested]
    cases hlast : (nested m p (xs ++ [x]) k).getLast? with
    | none =>
      rw [hlast] at ih
      have hnil : nested m p (xs ++ [x]) k = [] := List.getLast?_eq_none_iff.1 hlast
      have hnil' : nested m p xs k = [] := (List.append_eq_nil_iff.1 (ih.symm.trans hnil)).1
      rw [hnil, hnil', ema_of_lt hp]
      rfl
    | some y =>
      rw [hlast, Option.toList_some] at ih
      rw [ih]
      exact ema_concat_last m y _

end Smoothing
