import Mathlib.Data.List.Infix
import Mathlib.Data.List.MinMax
import Mathlib.Data.Set.Insert
import Mathlib.Order.Bounds.Basic

/-!
# The accumulators of one loop

A loop with many accumulators is as many loops: one that changes at the elements of a class alone is the loop over that
class (`foldl_class`). Then, one by one: an extremum that has to see a first value (`foldl_firstSeen`), the lengths of the
current and of the longest run (`Runs`), and a minimum whose 0 also stands for having seen nothing
(`isLeast_foldl_smaller_iff`).
-/

namespace Accumulators

theorem foldl_class {σ τ ι : Type*} {visit : σ → ι → σ} (π : σ → τ) (upd : τ → ι → τ) (p : ι → Bool)
    (h : ∀ s x, π (visit s x) = if p x then upd (π s) x else π s) (s : σ) (xs : List ι) :
    π (xs.foldl visit s) = (xs.filter p).foldl upd (π s) := by
  induction xs generalizing s with
  | nil => rfl
  | cons x xs ih =>
    rw [List.foldl_cons, ih, h]
    cases hx : p x <;> simp [hx]

/-! ### An extremum -/

section
variable {α : Type*}

/-- The extremum and whether there has been a value. -/
def firstSeen (pick : α → α → α) (s : α × Bool) (x : α) : α × Bool := (if s.2 then pick s.1 x else x, true)

theorem foldl_firstSeen_seen (pick : α → α → α) (m : α) (xs : List α) :
    xs.foldl (firstSeen pick) (m, true) = (xs.foldl pick m, true) := by
  induction xs generalizing m with
  | nil => rfl
  | cons x xs ih => exact ih (pick m x)

theorem foldl_firstSeen (pick : α → α → α) (m x : α) (xs : List α) :
    (x :: xs).foldl (firstSeen pick) (m, false) = (xs.foldl pick x, true) :=
  foldl_firstSeen_seen pick x xs

variable [LinearOrder α]

theorem isGreatest_foldl_max (x : α) (xs : List α) : IsGreatest {y | y ∈ x :: xs} (xs.foldl max x) := by
  have hmax : (x :: xs).max? = some (xs.foldl max x) := rfl
  obtain ⟨hmem, hle⟩ := List.max?_eq_some_iff.1 hmax
  exact ⟨hmem, hle⟩

theorem isLeast_foldl_min (x : α) (xs : List α) : IsLeast {y | y ∈ x :: xs} (xs.foldl min x) := by
  have hmin : (x :: xs).min? = some (xs.foldl min x) := rfl
  obtain ⟨hmem, hle⟩ := List.min?_eq_some_iff.1 hmin
  exact ⟨hmem, hle⟩

end

/-! ### Runs -/

section
variable {ι : Type*} (p : ι → Bool)

/-- The length of the run that the list ends with, and the longest so far. -/
def streak (s : Nat × Nat) (x : ι) : Nat × Nat :=
  let current := if p x then s.1 + 1 else 0
  (current, max s.2 current)

/-- The list has `n` elements in a row that satisfy `p`. -/
def HasRun (xs : List ι) (n : Nat) : Prop := ∃ run, run <:+: xs ∧ run.length = n ∧ ∀ x ∈ run, p x = true

structure Runs (xs : List ι) (s : Nat × Nat) : Prop where
  current : IsGreatest {n | ∃ run, run <:+ xs ∧ run.length = n ∧ ∀ x ∈ run, p x = true} s.1
  longest : IsGreatest {n | HasRun p xs n} s.2

variable {p} {xs : List ι} {s : Nat × Nat}

theorem Runs.nil : Runs p [] (0, 0) := by
  constructor
  · refine ⟨⟨[], List.suffix_rfl, rfl, nofun⟩, ?_⟩
    rintro n ⟨run, hrun, rfl, -⟩
    rw [List.suffix_nil.1 hrun, List.length_nil]
  · refine ⟨⟨[], List.infix_rfl, rfl, nofun⟩, ?_⟩
    rintro n ⟨run, hrun, rfl, -⟩
    rw [List.infix_nil.1 hrun, List.length_nil]

theorem Runs.concat (h : Runs p xs s) (x : ι) : Runs p (xs ++ [x]) (streak p s x) := by
  have hcurrent : IsGreatest {n | ∃ run, run <:+ xs ++ [x] ∧ run.length = n ∧ ∀ y ∈ run, p y = true} (streak p s x).1 := by
    obtain ⟨⟨run, hrun, hlen, hall⟩, hmax⟩ := h.current
    unfold streak
    dsimp only
    by_cases hx : p x = true
    · rw [if_pos hx]
      refine ⟨⟨run ++ [x], List.suffix_concat_iff.2 (Or.inr ⟨run, rfl, hrun⟩), by simp [hlen], ?_⟩, ?_⟩
      · intro y hy
        rcases List.mem_append.1 hy with hy | hy
        · exact hall y hy
        · rwa [List.mem_singleton.1 hy]
      · rintro n ⟨run', hrun', rfl, hall'⟩
        rcases List.suffix_concat_iff.1 hrun' with rfl | ⟨t, rfl, ht⟩
        · exact Nat.zero_le _
        · have hle := hmax ⟨t, ht, rfl, fun y hy => hall' y (List.mem_append_left _ hy)⟩
          simpa using hle
    · rw [if_neg hx]
      refine ⟨⟨[], List.nil_suffix, rfl, nofun⟩, ?_⟩
      rintro n ⟨run', hrun', rfl, hall'⟩
      rcases List.suffix_concat_iff.1 hrun' with rfl | ⟨t, rfl, -⟩
      · exact le_rfl
      · exact absurd (hall' x (by simp)) hx
  refine ⟨hcurrent, ?_⟩
  have hset : {n | HasRun p (xs ++ [x]) n} =
      {n | HasRun p xs n} ∪ {n | ∃ run, run <:+ xs ++ [x] ∧ run.length = n ∧ ∀ y ∈ run, p y = true} := by
    ext n
    simp only [Set.mem_union, Set.mem_ofPred_eq, HasRun, List.infix_concat_iff]
    constructor
    · rintro ⟨run, hrun | hrun, hrest⟩
      · exact Or.inr ⟨run, hrun, hrest⟩
      · exact Or.inl ⟨run, hrun, hrest⟩
    · rintro (⟨run, hrun, hrest⟩ | ⟨run, hrun, hrest⟩)
      · exact ⟨run, Or.inr hrun, hrest⟩
      · exact ⟨run, Or.inl hrun, hrest⟩
  rw [hset]
  exact h.longest.union hcurrent

theorem Runs.foldl (xs : List ι) : Runs p xs (xs.foldl (streak p) (0, 0)) := by
  induction xs using List.reverseRecOn with
  | nil => exact .nil
  | append_singleton xs x ih =>
    rw [List.foldl_concat]
    exact ih.concat x

end

/-! ### A minimum from 0 -/

/-- The minimum, where 0 is also what stands there before anything has been seen. -/
def smaller (m b : Nat) : Nat := if m = 0 ∨ b < m then b else m

theorem foldl_smaller_eq_zero_iff (xs : List Nat) : xs.foldl smaller 0 = 0 ↔ xs = [] ∨ xs.getLast? = some 0 := by
  induction xs using List.reverseRecOn with
  | nil => simp
  | append_singleton xs b ih =>
    rw [List.foldl_concat, List.getLast?_concat]
    unfold smaller
    split_ifs with h
    · simp
    · simp
      omega

theorem isLeast_foldl_smaller {xs : List Nat} (hne : xs ≠ []) (hpos : 0 ∉ xs) :
    IsLeast {b | b ∈ xs} (xs.foldl smaller 0) := by
  induction xs using List.reverseRecOn with
  | nil => exact absurd rfl hne
  | append_singleton xs b ih =>
    rw [List.foldl_concat]
    by_cases hxs : xs = []
    · subst hxs
      exact ⟨by simp [smaller], fun y hy => by simp_all [smaller]⟩
    · have hleast := ih hxs fun h0 => hpos (List.mem_append_left _ h0)
      have hm : xs.foldl smaller 0 ≠ 0 := fun h0 => hpos (List.mem_append_left _ (h0 ▸ hleast.1))
      generalize xs.foldl smaller 0 = m at hleast hm
      have hmin : smaller m b = min b m := by
        unfold smaller
        split_ifs <;> omega
      have hset : {y | y ∈ xs ++ [b]} = insert b {y | y ∈ xs} := by
        ext y
        simp [or_comm]
      rw [hmin, hset]
      exact hleast.insert b

/-- It is the minimum unless a 0 is followed by other lengths. -/
theorem isLeast_foldl_smaller_iff {xs : List Nat} (hne : xs ≠ []) :
    IsLeast {b | b ∈ xs} (xs.foldl smaller 0) ↔ (0 ∈ xs → xs.getLast? = some 0) := by
  constructor
  · intro h h0
    exact ((foldl_smaller_eq_zero_iff xs).1 (Nat.le_zero.1 (h.2 h0))).resolve_left hne
  · intro h
    by_cases h0 : 0 ∈ xs
    · rw [(foldl_smaller_eq_zero_iff xs).2 (Or.inr (h h0))]
      exact ⟨h0, fun y _ => Nat.zero_le y⟩
    · exact isLeast_foldl_smaller hne h0

end Accumulators
