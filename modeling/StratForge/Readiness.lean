import StratForge.Access

/-!
# Lines that start late

A line whose values have a property from some position on, and not before (`StartsAt`), as numbers among values that
need not be: one value more, a window that looks back, a ring buffer that holds values up, and the operations that
give a number exactly from numbers (`Strict`).
-/

namespace Readiness
universe u v

variable {V : Type u} {P : V → Prop} {k idx count : Nat} {l : List V} {x : V}

/-- From position `k` on the values have the property, and not before. -/
def StartsAt (P : V → Prop) (k : Nat) (l : List V) : Prop := ∀ i x, l[i]? = some x → (P x ↔ k ≤ i)

theorem StartsAt.nil : StartsAt P k [] := fun _ _ h => nomatch h

theorem StartsAt.of_all (h : ∀ x ∈ l, P x) : StartsAt P 0 l := fun i x hx =>
  iff_of_true (h x (List.mem_of_getElem? hx)) (Nat.zero_le i)

theorem StartsAt.snoc (h : StartsAt P k l) (hx : P x ↔ k ≤ l.length) : StartsAt P k (l ++ [x]) := by
  intro i y hy
  rcases Nat.lt_trichotomy i l.length with hi | rfl | hi
  · rw [List.getElem?_append_left hi] at hy
    exact h i y hy
  · rw [List.getElem?_concat_length] at hy
    cases hy
    exact hx
  · rw [List.getElem?_eq_none (by simp; omega)] at hy
    cases hy

/-- Every value has the property. -/
theorem StartsAt.all (h : StartsAt P 0 l) : ∀ x ∈ l, P x := fun x hx => by
  obtain ⟨i, hi⟩ := List.mem_iff_getElem?.1 hx
  exact (h i x hi).2 (Nat.zero_le i)

theorem StartsAt.last (h : StartsAt P k l) (hx : l.getLast? = some x) : P x ↔ k < l.length := by
  rw [List.getLast?_eq_getElem?] at hx
  have hlt := (List.getElem?_eq_some_iff.1 hx).1
  rw [h _ x hx]
  omega

/-- The values from a position on all have the property when the first of them does. -/
theorem StartsAt.drop (h : StartsAt P k l) {a : Nat} (ha : a < l.length) : (∀ x ∈ l.drop a, P x) ↔ k ≤ a := by
  constructor
  · intro hall
    exact (h a _ (List.getElem?_eq_getElem ha)).1 (hall _ (List.drop_eq_getElem_cons ha ▸ List.mem_cons_self))
  · intro hle x hx
    obtain ⟨i, hi⟩ := List.mem_iff_getElem?.1 hx
    rw [List.getElem?_drop] at hi
    exact (h _ x hi).2 (by omega)

/-- The last `count` values up to `idx` all have the property when the oldest of them does. -/
theorem StartsAt.window (h : StartsAt P k l) (hidx : idx < l.length) (hpos : 0 < count) (hcount : count ≤ idx + 1) :
    (∀ i < count, ∀ x, Access.readBack l idx i = some x → P x) ↔ k + count ≤ idx + 1 := by
  constructor
  · intro hall
    have hread : Access.readBack l idx (count - 1) = some l[idx + 1 - count] := by
      rw [Access.readBack, if_pos (by omega), show idx - (count - 1) = idx + 1 - count by omega]
      exact List.getElem?_eq_getElem (by omega)
    have hle := (h _ _ (List.getElem?_eq_getElem (by omega))).1 (hall (count - 1) (by omega) _ hread)
    omega
  · intro hle i hi x hx
    rw [Access.readBack, if_pos (by omega)] at hx
    exact (h _ x hx).2 (by omega)

/-! ### Operations -/

section
variable {op : V → V → V} {a : V} {xs : List V}

/-- The result has the property exactly if both operands do. -/
def Strict (P : V → Prop) (op : V → V → V) : Prop := ∀ a b, P (op a b) ↔ P a ∧ P b

/-- It does if both operands do. -/
def ClosedUnder (P : V → Prop) (op : V → V → V) : Prop := ∀ a b, P a → P b → P (op a b)

theorem Strict.foldl (h : Strict P op) : P (xs.foldl op a) ↔ P a ∧ ∀ x ∈ xs, P x := by
  induction xs generalizing a with
  | nil => simp
  | cons x xs ih => rw [List.foldl_cons, ih, h, List.forall_mem_cons, and_assoc]

theorem ClosedUnder.foldl (h : ClosedUnder P op) (ha : P a) (hxs : ∀ x ∈ xs, P x) : P (xs.foldl op a) := by
  induction xs generalizing a with
  | nil => exact ha
  | cons x xs ih =>
    rw [List.forall_mem_cons] at hxs
    exact ih (h a x ha hxs.1) hxs.2

end

/-! ### A ring buffer -/

variable {lead t : Nat} {buf : List V}

/-- Before its turn `t` the buffer holds up what it gives out in its next `lead` turns, of values that have the property
from turn `k` on. -/
structure Delays (P : V → Prop) (k lead t : Nat) (buf : List V) : Prop where
  length : buf.length = lead
  pending : ∀ u, t ≤ u → u < t + lead → ∀ x, buf[u % lead]? = some x → (P x ↔ k + lead ≤ u)

theorem Delays.start (hx : ¬ P x) : Delays P k lead 0 (.replicate lead x) := by
  refine ⟨List.length_replicate, fun u _ hu y hy => ?_⟩
  rw [List.eq_of_mem_replicate (List.mem_of_getElem? hy)]
  exact iff_of_false hx (by omega)

/-- The value of a turn goes into the place of the one it gives out. -/
theorem Delays.exchange (h : Delays P k lead t buf) (hlead : 0 < lead) (hx : P x ↔ k ≤ t) :
    Delays P k lead (t + 1) (buf.set (t % lead) x) := by
  have hlt : t % lead < buf.length := by
    rw [h.length]
    exact Nat.mod_lt t hlead
  refine ⟨List.length_set.trans h.length, fun u htu hu y hy => ?_⟩
  rcases Nat.lt_or_ge u (t + lead) with hu' | hu'
  · -- another place: less than a round lies between the two turns
    have hne : t % lead ≠ u % lead := fun heq => by
      have hdvd : lead ∣ u - t := Nat.dvd_of_mod_eq_zero (Nat.sub_mod_eq_zero_of_mod_eq heq.symm)
      have := Nat.le_of_dvd (by omega) hdvd
      omega
    rw [List.getElem?_set_ne hne] at hy
    exact h.pending u (by omega) hu' y hy
  · obtain rfl : u = t + lead := by omega
    rw [Nat.add_mod_right, List.getElem?_set_self hlt] at hy
    cases hy
    rw [hx]
    omega

theorem Delays.given (h : Delays P k lead t buf) (hlead : 0 < lead) :
    ∃ x, buf[t % lead]? = some x ∧ (P x ↔ k + lead ≤ t) := by
  have hlt : t % lead < buf.length := by
    rw [h.length]
    exact Nat.mod_lt t hlead
  exact ⟨_, List.getElem?_eq_getElem hlt, h.pending t (le_refl t) (by omega) _ (List.getElem?_eq_getElem hlt)⟩

end Readiness
