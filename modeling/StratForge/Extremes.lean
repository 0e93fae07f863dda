import Mathlib.Order.Lattice
import Mathlib.Data.List.Basic

/-! # Running extremes

The highest or the lowest value so far of a series, and how often a value has set a new one. -/

namespace Extremes
universe u

variable {A : Type u} [LinearOrder A] {up : Bool} {e x best : A} {xs : List A}

/-- `b` is further up than `a`, or further down. -/
def Beyond (up : Bool) (a b : A) : Prop := if up then a < b else b < a

instance (up : Bool) (a b : A) : Decidable (Beyond up a b) := by unfold Beyond; infer_instance

@[simp] theorem beyond_up {a b : A} : Beyond true a b ↔ a < b := Iff.rfl

@[simp] theorem beyond_down {a b : A} : Beyond false a b ↔ b < a := by simp [Beyond]

/-- Of two values neither is beyond the other only if they are the same. -/
theorem eq_of_not_beyond {a b : A} (h : ¬ Beyond up a b) (h' : ¬ Beyond up b a) : a = b := by
  cases up with
  | true => exact le_antisymm (not_lt.1 h') (not_lt.1 h)
  | false => exact le_antisymm (not_lt.1 (beyond_down.not.1 h)) (not_lt.1 (beyond_down.not.1 h'))

theorem Beyond.trans {a b c : A} (h : Beyond up a b) (h' : Beyond up b c) : Beyond up a c := by
  cases up with
  | true => exact lt_trans h h'
  | false => exact lt_trans h' h

theorem not_beyond_self (a : A) : ¬ Beyond up a a := by
  cases up <;> simp

/-- What is not beyond a value is not beyond what is. -/
theorem Beyond.of_not {a b c : A} (h : Beyond up a b) (h' : ¬ Beyond up a c) : Beyond up c b := by
  cases up with
  | true => exact lt_of_le_of_lt (not_lt.1 h') h
  | false => exact lt_of_lt_of_le h (not_lt.1 h')

/-- The extreme of a series: one of its values, with none beyond. -/
structure Extreme (up : Bool) (e : A) (xs : List A) : Prop where
  mem : e ∈ xs
  last : ∀ x ∈ xs, ¬ Beyond up e x

namespace Extreme

theorem singleton (up : Bool) (x : A) : Extreme up x [x] := by
  refine ⟨List.mem_singleton_self x, fun y hy => ?_⟩
  rw [List.mem_singleton.1 hy]
  exact not_beyond_self x

theorem snoc (h : Extreme up e xs) (x : A) : Extreme up (if Beyond up e x then x else e) (xs ++ [x]) := by
  split_ifs with hx
  · refine ⟨List.mem_append_right _ (List.mem_singleton_self x), fun y hy hbeyond => ?_⟩
    rcases List.mem_append.1 hy with hy | hy
    · exact h.last y hy (hx.trans hbeyond)
    · exact not_beyond_self x (List.mem_singleton.1 hy ▸ hbeyond)
  · refine ⟨List.mem_append_left _ h.mem, fun y hy => ?_⟩
    rcases List.mem_append.1 hy with hy | hy
    · exact h.last y hy
    · exact List.mem_singleton.1 hy ▸ hx

theorem unique {e' : A} (h : Extreme up e xs) (h' : Extreme up e' xs) : e = e' := by
  exact eq_of_not_beyond (h.last e' h'.mem) (h'.last e h.mem)

/-- A first value that is overtaken is not needed. -/
theorem drop_first {a b : A} (h : Extreme up e (a :: b :: xs)) (hab : Beyond up a b) : Extreme up e (b :: xs) := by
  refine ⟨?_, fun z hz => h.last z (List.mem_cons_of_mem _ hz)⟩
  rcases List.mem_cons.1 h.mem with rfl | hmem
  · exact absurd hab (h.last b (by simp))
  · exact hmem

/-- Nor is a second one that does not overtake the first. -/
theorem drop_second {a b : A} (h : Extreme up e (a :: b :: xs)) (hab : ¬ Beyond up a b) : Extreme up e (a :: xs) := by
  refine ⟨?_, fun z hz => h.last z ?_⟩
  · have hmem := h.mem
    simp only [List.mem_cons] at hmem ⊢
    rcases hmem with rfl | rfl | hmem
    · exact .inl rfl
    · -- then the two are equal
      exact .inl (eq_of_not_beyond (h.last a (by simp)) hab)
    · exact .inr hmem
  · rcases List.mem_cons.1 hz with rfl | hz
    · exact List.mem_cons_self
    · exact List.mem_cons_of_mem _ (List.mem_cons_of_mem _ hz)

end Extreme

/-- How many of the values go beyond `best` and all before them. -/
def news (up : Bool) (best : A) : List A → Nat
  | [] => 0
  | x :: xs => if Beyond up best x then news up x xs + 1 else news up best xs

theorem news_concat (h : Extreme up e (best :: xs)) (x : A) :
    news up best (xs ++ [x]) = news up best xs + if Beyond up e x then 1 else 0 := by
  induction xs generalizing best with
  | nil =>
    obtain rfl := List.mem_singleton.1 h.mem
    simp only [List.nil_append, news]
    split_ifs <;> rfl
  | cons y ys ih =>
    simp only [List.cons_append, news]
    by_cases hy : Beyond up best y
    · rw [if_pos hy, if_pos hy, ih (h.drop_first hy)]
      omega
    · rw [if_neg hy, if_neg hy, ih (h.drop_second hy)]

end Extremes
