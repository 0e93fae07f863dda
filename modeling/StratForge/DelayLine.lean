import Mathlib.Data.List.Basic
import Mathlib.Tactic.Common

/-! # A ring buffer is a delay line

A buffer of `lead` places gives out what lies at its cursor, takes the new value into that place and moves the cursor on,
around the buffer. So the values come out as they have come in, after `lead` values that were there before
(`Holds.turn`). -/

namespace DelayLine
universe u

variable {V : Type u} {lead : Nat} {x₀ x y : V} {xs buf : List V}

/-- What comes out in the end. -/
def delayed (lead : Nat) (x₀ : V) (xs : List V) : List V := List.replicate lead x₀ ++ xs

@[simp] theorem length_delayed : (delayed lead x₀ xs).length = lead + xs.length := by simp [delayed]

theorem delayed_concat : delayed lead x₀ (xs ++ [x]) = delayed lead x₀ xs ++ [x] := (List.append_assoc _ _ _).symm

theorem getElem?_delayed {i : Nat} : (delayed lead x₀ xs)[i]? = if i < lead then some x₀ else xs[i - lead]? := by
  rw [delayed, List.getElem?_append, List.length_replicate]
  split_ifs with hi
  · rw [List.getElem?_replicate_of_lt hi]
  · rfl

/-- After the values `xs` the buffer holds what comes out on the next `lead` turns. -/
structure Holds (lead : Nat) (x₀ : V) (xs buf : List V) : Prop where
  length : buf.length = lead
  pending : ∀ u, xs.length ≤ u → u < xs.length + lead → buf[u % lead]? = (delayed lead x₀ xs)[u]?

theorem Holds.start : Holds lead x₀ [] (List.replicate lead x₀) := by
  refine ⟨List.length_replicate, fun u _ hu => ?_⟩
  rw [List.length_nil, Nat.zero_add] at hu
  rw [Nat.mod_eq_of_lt hu, getElem?_delayed, if_pos hu, List.getElem?_replicate_of_lt hu]

/-- The value that comes out, and the new one in its place. -/
theorem Holds.turn (h : Holds lead x₀ xs buf) (hlead : 0 < lead) (x : V) :
    ∃ y, buf[xs.length % lead]? = some y ∧ (delayed lead x₀ xs)[xs.length]? = some y ∧
      Holds lead x₀ (xs ++ [x]) (buf.set (xs.length % lead) x) := by
  have hlt : xs.length % lead < buf.length := by
    rw [h.length]
    exact Nat.mod_lt _ hlead
  refine ⟨buf[xs.length % lead], List.getElem?_eq_getElem hlt, ?_, List.length_set.trans h.length, fun u hle hu => ?_⟩
  · rw [← h.pending xs.length (Nat.le_refl _) (by omega), List.getElem?_eq_getElem hlt]
  rw [List.length_append, List.length_singleton] at hle hu
  rw [delayed_concat]
  rcases Nat.lt_or_ge u (xs.length + lead) with hlast | hlast
  · -- another place: less than a round lies between the two turns
    have hne : xs.length % lead ≠ u % lead := by
      intro heq
      have hdvd : lead ∣ u - xs.length := Nat.dvd_of_mod_eq_zero (Nat.sub_mod_eq_zero_of_mod_eq heq.symm)
      have := Nat.le_of_dvd (by omega) hdvd
      omega
    rw [List.getElem?_set_ne hne, h.pending u (by omega) hlast, List.getElem?_append_left (by rw [length_delayed]; omega)]
  · obtain rfl : u = xs.length + lead := by omega
    rw [Nat.add_mod_right, List.getElem?_set_self hlt, List.getElem?_append_right (by rw [length_delayed]; omega), length_delayed,
      show xs.length + lead - (lead + xs.length) = 0 by omega]
    rfl

/-- What has come out so far. -/
theorem take_succ (hy : (delayed lead x₀ xs)[xs.length]? = some y) :
    (delayed lead x₀ (xs ++ [x])).take (xs.length + 1) = (delayed lead x₀ xs).take xs.length ++ [y] := by
  obtain ⟨hlt, rfl⟩ := List.getElem?_eq_some_iff.1 hy
  rw [delayed_concat, List.take_append_of_le_length hlt, List.take_succ_eq_append_getElem hlt]

end DelayLine
