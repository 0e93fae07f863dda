import Mathlib.Data.List.Basic
import Mathlib.Order.Basic

/-!
# Brackets counted in a list

`closing` is the loop that looks for the bracket that closes an open one by counting. It stops at the first closing
bracket before which the brackets balance (`closing_eq_some_iff`).
-/

namespace Nesting
variable {σ : Type} [DecidableEq σ] {o c : σ} {d : Nat} {t u xs : List σ}

/-- The number of open brackets after the list, from `d` open ones; none if one closes that is not open. -/
def level (o c : σ) : Nat → List σ → Option Nat
  | d, [] => some d
  | d, x :: xs =>
    if x = o then level o c (d + 1) xs
    else if x = c then
      if d = 0 then none else level o c (d - 1) xs
    else level o c d xs

/-- Every bracket is closed, and none before it is opened. -/
def Balanced (o c : σ) (t : List σ) : Prop := level o c 0 t = some 0

instance : Decidable (Balanced o c t) := inferInstanceAs (Decidable (_ = _))

/-- The list up to the bracket that closes the last of `d` open ones, and what follows it. -/
def closing (o c : σ) : Nat → List σ → Option (List σ × List σ)
  | _, [] => none
  | d, x :: xs =>
    if x = o then (closing o c (d + 1) xs).map fun p => (x :: p.1, p.2)
    else if x = c then
      if d ≤ 1 then some ([], xs) else (closing o c (d - 1) xs).map fun p => (x :: p.1, p.2)
    else (closing o c d xs).map fun p => (x :: p.1, p.2)

theorem closing_append (h : level o c d t = some 0) (hoc : o ≠ c) : closing o c (d + 1) (t ++ c :: u) = some (t, u) := by
  induction t generalizing d with
  | nil =>
    cases h
    rw [List.nil_append, closing, if_neg (Ne.symm hoc), if_pos rfl, if_pos (by omega)]
  | cons x t ih =>
    rw [level] at h
    rw [List.cons_append, closing]
    split at h
    · rename_i ho
      rw [if_pos ho, ih h]
      rfl
    · rename_i ho
      rw [if_neg ho]
      split at h
      · rename_i hc
        rw [if_pos hc]
        split at h
        · cases h
        · obtain ⟨d, rfl⟩ := Nat.exists_eq_succ_of_ne_zero ‹d ≠ 0›
          rw [Nat.succ_sub_one] at h
          rw [if_neg (by omega), Nat.succ_sub_one, ih h]
          rfl
      · rename_i hc
        rw [if_neg hc, ih h]
        rfl

theorem level_of_closing (h : closing o c (d + 1) xs = some (t, u)) : xs = t ++ c :: u ∧ level o c d t = some 0 := by
  induction xs generalizing d t with
  | nil => cases h
  | cons x xs ih =>
    rw [closing] at h
    split at h
    · rename_i ho
      obtain ⟨⟨t', u'⟩, hp, heq⟩ := Option.map_eq_some_iff.1 h
      cases heq
      obtain ⟨hxs, hlevel⟩ := ih hp
      exact ⟨congrArg (x :: ·) hxs, by rw [level, if_pos ho, hlevel]⟩
    · rename_i ho
      split at h
      · rename_i hc
        split at h
        · rename_i hd
          cases h
          obtain rfl : d = 0 := by omega
          exact ⟨congrArg (· :: _) hc, rfl⟩
        · rename_i hd
          obtain ⟨d, rfl⟩ := Nat.exists_eq_succ_of_ne_zero (show d ≠ 0 by omega)
          obtain ⟨⟨t', u'⟩, hp, heq⟩ := Option.map_eq_some_iff.1 h
          cases heq
          obtain ⟨hxs, hlevel⟩ := ih hp
          exact ⟨congrArg (x :: ·) hxs, by rw [level, if_neg ho, if_pos hc, if_neg (Nat.succ_ne_zero d)]; exact hlevel⟩
      · rename_i hc
        obtain ⟨⟨t', u'⟩, hp, heq⟩ := Option.map_eq_some_iff.1 h
        cases heq
        obtain ⟨hxs, hlevel⟩ := ih hp
        exact ⟨congrArg (x :: ·) hxs, by rw [level, if_neg ho, if_neg hc, hlevel]⟩

theorem closing_eq_some_iff (hoc : o ≠ c) : closing o c 1 xs = some (t, u) ↔ xs = t ++ c :: u ∧ Balanced o c t := by
  refine ⟨level_of_closing, ?_⟩
  rintro ⟨rfl, h⟩
  exact closing_append h hoc

end Nesting
