import Mathlib.Data.List.Basic
import Mathlib.Data.List.Range

/-!
# Loops as folds, and their invariants

A loop over a list that may throw is `List.foldlM` in `Except`, a counting loop is a `foldl` over
`List.range`. Each comes with the one induction its clients need: an invariant indexed by what the
loop has consumed so far.
-/

namespace Fold
universe u v w

/-- Invariant rule for a loop that may throw: `P done s` after the elements `done`. -/
theorem foldlM_ok {ε : Type u} {σ ι : Type v} {step : σ → ι → Except ε σ}
    (P : List ι → σ → Prop)
    (hstep : ∀ done s x s', P done s → step s x = .ok s' → P (done ++ [x]) s') :
    ∀ (xs done : List ι) (s s' : σ), P done s → xs.foldlM step s = .ok s' → P (done ++ xs) s' := by
  intro xs
  induction xs with
  | nil =>
    intro done s s' hP h
    cases h
    simpa using hP
  | cons x xs ih =>
    intro done s s' hP h
    rw [List.foldlM_cons] at h
    cases hx : step s x with
    | error e => rw [hx] at h; cases h
    | ok s1 =>
      rw [hx] at h
      have := ih (done ++ [x]) s1 s' (hstep done s x s1 hP hx) h
      simpa using this

/-- Turns that are the same make loops that are the same. -/
theorem foldlM_congr {m : Type u → Type w} [Monad m] {σ : Type u} {ι : Type v} {f g : σ → ι → m σ} {xs : List ι}
    (h : ∀ s, ∀ x ∈ xs, f s x = g s x) (s : σ) : xs.foldlM f s = xs.foldlM g s := by
  induction xs generalizing s with
  | nil => rfl
  | cons x xs ih =>
    rw [List.foldlM_cons, List.foldlM_cons, h s x List.mem_cons_self]
    exact congrArg (_ >>= ·) (funext (ih fun s y hy => h s y (List.mem_cons_of_mem x hy)))

/-- It returns if every turn does. -/
theorem foldlM_returns {ε : Type u} {σ ι : Type v} {step : σ → ι → Except ε σ} {xs : List ι}
    (h : ∀ s, ∀ x ∈ xs, ∃ s', step s x = .ok s') (s : σ) : ∃ s', xs.foldlM step s = .ok s' := by
  induction xs generalizing s with
  | nil => exact ⟨s, rfl⟩
  | cons x xs ih =>
    obtain ⟨s₁, h₁⟩ := h s x (List.mem_cons_self ..)
    obtain ⟨s₂, h₂⟩ := ih (fun s y hy => h s y (List.mem_cons_of_mem _ hy)) s₁
    refine ⟨s₂, ?_⟩
    rw [List.foldlM_cons, h₁]
    exact h₂

/-- A loop that throws does so in some turn, the first that throws. -/
theorem foldlM_error {ε : Type u} {σ ι : Type v} {step : σ → ι → Except ε σ} {e : ε} :
    ∀ {xs : List ι} {s : σ}, xs.foldlM step s = .error e → ∃ before x rest s',
      xs = before ++ x :: rest ∧ before.foldlM step s = .ok s' ∧ step s' x = .error e
  | [], _, h => nomatch h
  | x :: xs, s, h => by
    rw [List.foldlM_cons] at h
    cases hx : step s x with
    | error e' =>
      rw [hx] at h
      cases h
      exact ⟨[], x, xs, s, rfl, rfl, hx⟩
    | ok s₁ =>
      rw [hx] at h
      obtain ⟨before, y, rest, s', rfl, hs, hy⟩ := foldlM_error h
      refine ⟨x :: before, y, rest, s', rfl, ?_, hy⟩
      rw [List.foldlM_cons, hx]
      exact hs

/-- A loop whose steps go through or not by their element alone. -/
theorem foldlM_returns_iff {ε : Type u} {σ ι : Type v} {step : σ → ι → Except ε σ} {good : ι → Prop}
    (h : ∀ s x, (∃ s', step s x = .ok s') ↔ good x) {xs : List ι} (s : σ) :
    (∃ s', xs.foldlM step s = .ok s') ↔ ∀ x ∈ xs, good x := by
  induction xs generalizing s with
  | nil => exact ⟨fun _ _ hx => absurd hx List.not_mem_nil, fun _ => ⟨s, rfl⟩⟩
  | cons x xs ih =>
    rw [List.foldlM_cons, List.forall_mem_cons, ← h s x]
    cases step s x with
    | error e => exact ⟨fun ⟨_, hs⟩ => (nomatch hs), fun ⟨⟨_, hs⟩, _⟩ => (nomatch hs)⟩
    | ok s₁ => exact (ih s₁).trans ⟨fun hs => ⟨⟨s₁, rfl⟩, hs⟩, And.right⟩

/-- A loop of checks goes through when every check does. -/
theorem forM_eq_ok {ε A : Type} {f : A → Except ε Unit} {xs : List A} :
    xs.forM f = .ok () ↔ ∀ x ∈ xs, f x = .ok () := by
  induction xs with
  | nil => exact ⟨fun _ _ hx => absurd hx List.not_mem_nil, fun _ => rfl⟩
  | cons x xs ih =>
    rw [List.forall_mem_cons, ← ih]
    show (f x >>= fun _ => xs.forM f) = _ ↔ _
    cases f x with
    | error e => exact ⟨fun h => (nomatch h), fun h => (nomatch h.1)⟩
    | ok u => exact ⟨fun h => ⟨rfl, h⟩, fun h => h.2⟩

/-- A loop that collects what it computes returns one result for each element. -/
theorem mapM_ok {ε A B : Type} {f : A → Except ε B} :
    ∀ {xs : List A} {ys : List B}, xs.mapM f = .ok ys → List.Forall₂ (fun x y => f x = .ok y) xs ys
  | [], ys, h => by
    rw [List.mapM_nil] at h
    cases h
    exact .nil
  | x :: xs, ys, h => by
    rw [List.mapM_cons] at h
    cases hx : f x with
    | error e => rw [hx] at h; cases h
    | ok y =>
      rw [hx] at h
      cases hxs : xs.mapM f with
      | error e => rw [hxs] at h; cases h
      | ok ys' =>
        rw [hxs] at h
        cases h
        exact .cons hx (mapM_ok hxs)

/-- It returns if every element's computation does. -/
theorem mapM_returns {ε A B : Type} {f : A → Except ε B} :
    ∀ {xs : List A}, (∀ x ∈ xs, ∃ y, f x = .ok y) → ∃ ys, xs.mapM f = .ok ys
  | [], _ => ⟨[], List.mapM_nil⟩
  | x :: xs, h => by
    obtain ⟨y, hy⟩ := h x (List.mem_cons_self ..)
    obtain ⟨ys, hys⟩ := mapM_returns fun x' hx' => h x' (List.mem_cons_of_mem _ hx')
    refine ⟨y :: ys, ?_⟩
    rw [List.mapM_cons, hy, hys]
    rfl

/-- An element of a list that has been modified at a place is an old one, or the one there. -/
theorem mem_modify {A : Type*} {l : List A} {i : Nat} {f : A → A} {y : A} (h : y ∈ l.modify i f) :
    y ∈ l ∨ ∃ x, l[i]? = some x ∧ y = f x := by
  obtain ⟨j, hj⟩ := List.mem_iff_getElem?.1 h
  rw [List.getElem?_modify] at hj
  split_ifs at hj with hij
  · obtain ⟨x, hx, rfl⟩ := Option.map_eq_some_iff.1 hj
    exact .inr ⟨x, hij ▸ hx, rfl⟩
  · exact .inl (List.mem_of_getElem? (by simpa using hj))

theorem forall₂_get? {A B : Type*} {R : A → B → Prop} {xs : List A} {ys : List B} (h : List.Forall₂ R xs ys) {i : Nat}
    {x : A} (hx : xs[i]? = some x) : ∃ y, ys[i]? = some y ∧ R x y := by
  induction h generalizing i with
  | nil => cases hx
  | cons hxy _ ih =>
    cases i with
    | zero => cases hx; exact ⟨_, rfl, hxy⟩
    | succ i => exact ih hx

theorem forall₂_mem {A B : Type*} {R : A → B → Prop} {xs : List A} {ys : List B} (h : List.Forall₂ R xs ys) {y : B}
    (hy : y ∈ ys) : ∃ x ∈ xs, R x y := by
  induction h with
  | nil => cases hy
  | cons hxy _ ih =>
    rcases List.mem_cons.1 hy with rfl | hy
    · exact ⟨_, List.mem_cons_self .., hxy⟩
    · obtain ⟨x, hx, hR⟩ := ih hy
      exact ⟨x, List.mem_cons_of_mem _ hx, hR⟩

/-- A test that holds of the first elements and of no other counts them. -/
theorem countP_initial {A : Type*} {l : List A} {q : A → Bool} {n : Nat} (hn : n ≤ l.length)
    (h : ∀ i x, l[i]? = some x → (q x = true ↔ i < n)) : l.countP q = n := by
  induction l generalizing n with
  | nil => exact (Nat.le_zero.1 hn).symm
  | cons x l ih =>
    cases n with
    | zero =>
      rw [List.countP_eq_zero]
      intro y hy hq
      obtain ⟨i, hi⟩ := List.mem_iff_getElem?.1 hy
      exact Nat.not_lt_zero i ((h i y hi).1 hq)
    | succ n =>
      rw [List.countP_cons_of_pos ((h 0 x rfl).2 (Nat.succ_pos n)), ih (Nat.le_of_succ_le_succ hn) fun i y hy => ?_]
      exact (h (i + 1) y hy).trans Nat.succ_lt_succ_iff

variable {σ : Type v}

/-- Invariant rule for a counting loop: `P i s` before turn `i`. -/
theorem range_ind {n : Nat} {step : σ → Nat → σ} {s : σ} (P : Nat → σ → Prop) (h0 : P 0 s)
    (hstep : ∀ i s, i < n → P i s → P (i + 1) (step s i)) : P n ((List.range n).foldl step s) := by
  induction n with
  | zero => simpa using h0
  | succ n ih =>
    rw [List.range_succ, List.foldl_append]
    exact hstep n _ (Nat.lt_succ_self n) (ih fun i s hi => hstep i s (Nat.lt_succ_of_lt hi))

/-- Invariant rule for a loop over a list whose invariant does not depend on the position. -/
theorem foldl_ind {ι : Type w} {step : σ → ι → σ} (P : σ → Prop) :
    ∀ (xs : List ι) (s : σ), P s → (∀ s, ∀ x ∈ xs, P s → P (step s x)) → P (xs.foldl step s)
  | [], _, h0, _ => h0
  | x :: xs, s, h0, hstep =>
    foldl_ind P xs (step s x) (hstep s x (List.mem_cons_self ..) h0)
      fun s y hy => hstep s y (List.mem_cons_of_mem _ hy)

end Fold
