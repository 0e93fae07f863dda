import Mathlib.Algebra.BigOperators.Ring.Finset
import Mathlib.Algebra.Order.BigOperators.Group.Finset
import Mathlib.Algebra.Order.Ring.Defs
import Mathlib.Algebra.BigOperators.Fin
import Mathlib.Data.Fintype.BigOperators
import Mathlib.Data.Fintype.Pi

/-!
# Weighted paths through a trellis

At every time a path is in one of finitely many states. Its weight is the product of what it pays to start, to move and
to be where it is; the total over a set of paths is the sum of their weights. The totals of the paths that end in a
state, and of what may follow it, obey the two recursions of forward-backward, and their product is the total of the
paths through the state.
-/

universe u v

/-- What a path pays to start in a state, to move from one to another, and to be in a state at a time. -/
structure Trellis (S : Type u) (K : Type v) where
  first : S → K
  move : S → S → K
  emit : Nat → S → K

namespace Trellis
variable {S : Type u} {K : Type v}

/-- What may follow state `s` at time `t`. -/
def after (c : Trellis S K) (t : Nat) (s : S) : Trellis S K where
  first := c.move s
  move := c.move
  emit := fun k => c.emit (t + 1 + k)

theorem after_after (c : Trellis S K) (t k : Nat) (s s' : S) : (c.after t s).after k s' = c.after (t + 1 + k) s' := by
  simp only [after, mk.injEq, true_and]
  funext l
  congr 1
  omega

variable [CommSemiring K]

def weight (c : Trellis S K) : List S → K
  | [] => 1
  | s :: path => c.first s * c.emit 0 s * weight (c.after 0 s) path

variable [Fintype S]

/-- All paths over `n` times for which `E` holds. -/
def total (c : Trellis S K) (n : Nat) (E : (Fin n → S) → Prop) [DecidablePred E] : K :=
  ∑ path with E path, c.weight (List.ofFn path)

theorem total_congr {c : Trellis S K} {n : Nat} {E E' : (Fin n → S) → Prop} [DecidablePred E] [DecidablePred E']
    (h : ∀ path, E path ↔ E' path) : c.total n E = c.total n E' := by
  unfold total
  rw [Finset.filter_congr fun path _ => h path]

/-- By the first state. -/
theorem total_succ (c : Trellis S K) (n : Nat) (E : (Fin (n + 1) → S) → Prop) [DecidablePred E] :
    c.total (n + 1) E = ∑ s, c.first s * c.emit 0 s * (c.after 0 s).total n fun path => E (Fin.cons s path) := by
  have hsplit : c.total (n + 1) E =
      ∑ x : S × (Fin n → S), if E (Fin.cons x.1 x.2) then c.weight (x.1 :: List.ofFn x.2) else 0 := by
    rw [total, Finset.sum_filter]
    refine (Fintype.sum_equiv (Fin.consEquiv fun _ => S) _ _ fun x => ?_).symm
    simp [Fin.consEquiv, List.ofFn_succ]
  rw [hsplit, Fintype.sum_prod_type]
  refine Finset.sum_congr rfl fun s _ => ?_
  rw [total, Finset.sum_filter, Finset.mul_sum]
  refine Finset.sum_congr rfl fun path _ => ?_
  split_ifs
  · rfl
  · rw [mul_zero]

/-- All paths over `n` times. -/
abbrev all (c : Trellis S K) (n : Nat) : K := c.total n fun _ => True

theorem all_zero (c : Trellis S K) : c.all 0 = 1 := by
  simp [all, total, weight]

/-- The totals of what follows, one time back. -/
theorem all_after_succ (c : Trellis S K) (t m : Nat) (s : S) :
    (c.after t s).all (m + 1) = ∑ s', c.move s s' * c.emit (t + 1) s' * (c.after (t + 1) s').all m := by
  rw [all, total_succ]
  refine Finset.sum_congr rfl fun s' _ => ?_
  rw [after_after]
  rfl

variable [DecidableEq S]

/-- The paths of times `0..t` that end in `s`. -/
def ending (c : Trellis S K) (t : Nat) (s : S) : K := c.total (t + 1) fun path => path (Fin.last t) = s

/-- The paths of times `0..t + m` that are in `s` at time `t`. -/
def through (c : Trellis S K) (m t : Nat) (s : S) : K := c.total (m + t + 1) fun path => path ⟨t, by omega⟩ = s

theorem through_zero (c : Trellis S K) (m : Nat) (s : S) : c.through m 0 s = c.first s * c.emit 0 s * (c.after 0 s).all m := by
  rw [through, total_succ, Finset.sum_eq_single s]
  · exact congrArg _ (total_congr fun path => by simp)
  · intro s' _ hne
    have hnone : (c.after 0 s').total m (fun path => (Fin.cons s' path : Fin (m + 1) → S) ⟨0, by omega⟩ = s) = 0 := by
      rw [total, Finset.sum_filter]
      exact Finset.sum_eq_zero fun path _ => if_neg hne
    exact mul_eq_zero_of_right _ hnone
  · exact fun h => absurd (Finset.mem_univ s) h

theorem through_succ (c : Trellis S K) (m t : Nat) (s : S) :
    c.through m (t + 1) s = ∑ s', c.first s' * c.emit 0 s' * (c.after 0 s').through m t s := by
  rw [through]
  exact total_succ c (m + t + 1) _

theorem through_last (c : Trellis S K) (t : Nat) (s : S) : c.through 0 t s = c.ending t s := by
  have hcast : ∀ n (h : n = t + 1), c.total n (fun path => path ⟨t, by omega⟩ = s) = c.ending t s := by
    rintro _ rfl
    rfl
  exact hcast _ (by omega)

theorem ending_zero (c : Trellis S K) (s : S) : c.ending 0 s = c.first s * c.emit 0 s := by
  rw [← through_last, through_zero, all_zero, mul_one]

theorem ending_succ_first (c : Trellis S K) (t : Nat) (s : S) :
    c.ending (t + 1) s = ∑ s', c.first s' * c.emit 0 s' * (c.after 0 s').ending t s :=
  total_succ c (t + 1) _

/-- The paths that end in a state, one time on. -/
theorem ending_succ (c : Trellis S K) (t : Nat) (s : S) :
    c.ending (t + 1) s = (∑ s', c.ending t s' * c.move s' s) * c.emit (t + 1) s := by
  induction t generalizing c with
  | zero =>
    rw [ending_succ_first, Finset.sum_mul]
    refine Finset.sum_congr rfl fun s' _ => ?_
    rw [ending_zero, ending_zero, mul_assoc (c.first s' * c.emit 0 s')]
    rfl
  | succ t ih =>
    rw [ending_succ_first]
    calc ∑ s', c.first s' * c.emit 0 s' * (c.after 0 s').ending (t + 1) s
        = ∑ s', ∑ s'', c.first s' * c.emit 0 s' * (c.after 0 s').ending t s'' * c.move s'' s * c.emit (t + 2) s := by
          refine Finset.sum_congr rfl fun s' _ => ?_
          rw [ih, Finset.sum_mul, Finset.mul_sum]
          refine Finset.sum_congr rfl fun s'' _ => ?_
          have hemit : (c.after 0 s').emit (t + 1) = c.emit (t + 2) := by
            simp only [after]
            congr 1
            omega
          rw [hemit, ← mul_assoc, ← mul_assoc]
          rfl
      _ = (∑ s'', c.ending (t + 1) s'' * c.move s'' s) * c.emit (t + 2) s := by
          rw [Finset.sum_comm, Finset.sum_mul]
          refine Finset.sum_congr rfl fun s'' _ => ?_
          rw [ending_succ_first, Finset.sum_mul, Finset.sum_mul]

/-- Forward times backward. -/
theorem through_eq (c : Trellis S K) (m t : Nat) (s : S) : c.through m t s = c.ending t s * (c.after t s).all m := by
  induction t generalizing c with
  | zero => rw [through_zero, ending_zero]
  | succ t ih =>
    rw [through_succ, ending_succ_first, Finset.sum_mul]
    refine Finset.sum_congr rfl fun s' _ => ?_
    have hafter : (c.after 0 s').after t s = c.after (t + 1) s := by
      rw [after_after]
      congr 1
      omega
    rw [ih, hafter, ← mul_assoc]

/-- At any time a path is in some state. -/
theorem sum_through (c : Trellis S K) (m t : Nat) : ∑ s, c.through m t s = c.all (m + t + 1) := by
  unfold through all total
  rw [Finset.sum_fiberwise (s := Finset.univ) (fun path : Fin (m + t + 1) → S => path ⟨t, by omega⟩), Finset.filter_true]

theorem sum_ending (c : Trellis S K) (t : Nat) : ∑ s, c.ending t s = c.all (t + 1) := by
  have hsum := c.sum_through 0 t
  simp only [through_last, Nat.zero_add] at hsum
  exact hsum

/-! ### Positive weights -/

section
variable {K : Type v} [CommSemiring K] [PartialOrder K] [IsStrictOrderedRing K]

/-- What a path over `n` times pays is positive. -/
structure Positive (c : Trellis S K) (n : Nat) : Prop where
  first : ∀ s, 0 < c.first s
  move : ∀ s s', 0 < c.move s s'
  emit : ∀ t < n, ∀ s, 0 < c.emit t s

omit [Fintype S] [DecidableEq S] [IsStrictOrderedRing K] in
theorem Positive.mono {c : Trellis S K} {m n : Nat} (h : c.Positive n) (hmn : m ≤ n) : c.Positive m :=
  ⟨h.first, h.move, fun t ht => h.emit t (by omega)⟩

omit [Fintype S] [DecidableEq S] [IsStrictOrderedRing K] in
theorem Positive.after {c : Trellis S K} {t m : Nat} (h : c.Positive (t + 1 + m)) (s : S) : (c.after t s).Positive m :=
  ⟨h.move s, h.move, fun k hk => h.emit (t + 1 + k) (by omega)⟩

omit [Fintype S] [DecidableEq S] in
theorem Positive.weight_pos {c : Trellis S K} {path : List S} (h : c.Positive path.length) : 0 < c.weight path := by
  induction path generalizing c with
  | nil => exact one_pos
  | cons s path ih =>
    have hafter : (c.after 0 s).Positive path.length := (h.mono (by rw [List.length_cons]; omega)).after s
    exact mul_pos (mul_pos (h.first s) (h.emit 0 (by simp) s)) (ih hafter)

theorem Positive.through_pos {c : Trellis S K} {m t : Nat} (h : c.Positive (m + t + 1)) (s : S) : 0 < c.through m t s := by
  unfold through total
  refine Finset.sum_pos (fun path _ => ?_) ⟨fun _ => s, by simp⟩
  exact Positive.weight_pos (by rw [List.length_ofFn]; exact h)

theorem Positive.ending_pos {c : Trellis S K} {t : Nat} (h : c.Positive (t + 1)) (s : S) : 0 < c.ending t s := by
  rw [← through_last]
  exact Positive.through_pos (by rwa [Nat.zero_add]) s

omit [DecidableEq S] in
theorem Positive.all_pos [Nonempty S] {c : Trellis S K} {n : Nat} (h : c.Positive n) : 0 < c.all n := by
  unfold all total
  refine Finset.sum_pos (fun path _ => ?_) ⟨fun _ => Classical.arbitrary S, by simp⟩
  exact Positive.weight_pos (by rw [List.length_ofFn]; exact h)

end

end Trellis
