import Mathlib.Data.List.Forall2
import Mathlib.Data.List.Lex
import Mathlib.Algebra.BigOperators.Group.List.Basic

/-! # Tuples of positions

The positions into several lists at once, given by the lengths of the lists, in lexicographic order: the last position
varies fastest. -/

namespace Tuples

def tuples : List Nat → List (List Nat)
  | [] => [[]]
  | n :: ns => (List.range n).flatMap fun i => (tuples ns).map (i :: ·)

@[simp] theorem tuples_nil : tuples [] = [[]] := rfl

theorem length_tuples (ns : List Nat) : (tuples ns).length = ns.prod := by
  induction ns with
  | nil => rfl
  | cons n ns ih => simp [tuples, List.length_flatMap, ih]

theorem mem_tuples {t ns : List Nat} : t ∈ tuples ns ↔ List.Forall₂ (· < ·) t ns := by
  induction ns generalizing t with
  | nil => simp
  | cons n ns ih =>
    simp only [tuples, List.mem_flatMap, List.mem_range, List.mem_map, List.forall₂_cons_right_iff]
    constructor
    · rintro ⟨i, hi, u, hu, rfl⟩
      exact ⟨i, u, hi, ih.mp hu, rfl⟩
    · rintro ⟨i, u, hi, hu, rfl⟩
      exact ⟨i, hi, u, ih.mpr hu, rfl⟩

theorem pairwise_tuples (ns : List Nat) : (tuples ns).Pairwise (List.Lex (· < ·)) := by
  induction ns with
  | nil => simp
  | cons n ns ih =>
    rw [tuples, List.pairwise_flatMap]
    constructor
    · intro i _
      rw [List.pairwise_map]
      exact ih.imp List.Lex.cons
    · refine List.pairwise_lt_range.imp fun {i j} hij t ht u hu => ?_
      obtain ⟨t, -, rfl⟩ := List.mem_map.mp ht
      obtain ⟨u, -, rfl⟩ := List.mem_map.mp hu
      exact List.Lex.rel hij

/-- One more list at the end extends every tuple by every position. -/
theorem tuples_concat (ns : List Nat) (n : Nat) :
    tuples (ns ++ [n]) = (tuples ns).flatMap fun t => (List.range n).map fun i => t ++ [i] := by
  induction ns with
  | nil => simp [tuples, List.map_eq_flatMap]
  | cons m ns ih => simp [tuples, ih, List.flatMap_assoc, List.map_flatMap, List.flatMap_map, Function.comp_def]

end Tuples
