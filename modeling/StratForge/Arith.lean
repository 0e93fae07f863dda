import Mathlib.Algebra.Order.Ring.Rat
import Mathlib.Algebra.Field.Rat
import Mathlib.Data.Rat.Cast.OfScientific

/-!
# The arithmetic of the engine

`Arith α` is what the code does with `double`: the operations, without any law, so that everything
proved for a general `α` also holds of `Float`, NaN and rounding included. Results in exact
arithmetic are stated at `ℚ`.
-/

namespace StratForge

class Arith (α : Type) extends Zero α, One α, Add α, Sub α, Mul α, Div α, Neg α, LT α, LE α, BEq α,
    OfScientific α where
  abs : α → α
  decLt : DecidableRel (α := α) (· < ·)
  decLe : DecidableRel (α := α) (· ≤ ·)

namespace Arith
variable {α : Type} [Arith α]

instance : DecidableRel (α := α) (· < ·) := Arith.decLt
instance : DecidableRel (α := α) (· ≤ ·) := Arith.decLe

/-- `std::min`: the first argument unless the second is less. -/
def min (a b : α) : α := if b < a then b else a

/-- `std::max`: the first argument unless it is less than the second. -/
def max (a b : α) : α := if a < b then b else a

def clamp (v lo hi : α) : α := if v < lo then lo else if hi < v then hi else v

end Arith

instance : Arith ℚ where
  abs x := |x|
  decLt := inferInstance
  decLe := inferInstance

instance : Arith Float where
  zero := 0
  one := 1
  abs := Float.abs
  decLt := inferInstance
  decLe := inferInstance

namespace Arith

@[simp] theorem abs_rat (x : ℚ) : Arith.abs x = |x| := rfl

@[simp] theorem min_rat (a b : ℚ) : Arith.min a b = Min.min a b := by
  unfold Arith.min
  rcases lt_or_ge b a with h | h
  · rw [if_pos h, min_eq_right h.le]
  · rw [if_neg (not_lt.2 h), min_eq_left h]

@[simp] theorem max_rat (a b : ℚ) : Arith.max a b = Max.max a b := by
  unfold Arith.max
  rcases lt_or_ge a b with h | h
  · rw [if_pos h, max_eq_right h.le]
  · rw [if_neg (not_lt.2 h), max_eq_left h]

end Arith

/-! ### Numbers that are not numbers -/

/-- Exact numbers, and a NaN that everything computed with it is too. -/
inductive OrNan
  | num (q : ℚ)
  | nan
deriving DecidableEq

namespace OrNan

def lift (f : ℚ → ℚ → OrNan) : OrNan → OrNan → OrNan
  | num a, num b => f a b
  | _, _ => nan

def less (r : ℚ → ℚ → Prop) : OrNan → OrNan → Prop
  | num a, num b => r a b
  | _, _ => False

instance (r : ℚ → ℚ → Prop) [DecidableRel r] : DecidableRel (less r)
  | num a, num b => inferInstanceAs (Decidable (r a b))
  | num _, nan => isFalse id
  | nan, num _ => isFalse id
  | nan, nan => isFalse id

instance : Arith OrNan where
  zero := num 0
  one := num 1
  add := lift fun a b => num (a + b)
  sub := lift fun a b => num (a - b)
  mul := lift fun a b => num (a * b)
  div := lift fun a b => if b = 0 then nan else num (a / b)
  neg | num a => num (-a) | nan => nan
  lt := less (· < ·)
  le := less (· ≤ ·)
  beq | num a, num b => a == b | _, _ => false
  ofScientific m s e := num (OfScientific.ofScientific m s e)
  abs | num a => num |a| | nan => nan
  decLt := inferInstanceAs (DecidableRel (less (· < ·)))
  decLe := inferInstanceAs (DecidableRel (less (· ≤ ·)))

end OrNan

end StratForge
