import Mathlib.Algebra.Order.BigOperators.Group.List
import Mathlib.Algebra.Order.Field.Basic
import StratForge.MovingAverages

/-!
# Exact arithmetic

What the operations give on numbers, and the bands that averages stay in.
-/

namespace StratForge
open Floating (isNaN)

namespace OrNan
variable {a b : ℚ} {x y : OrNan}

@[simp] theorem nan_eq : (Floating.nan : OrNan) = nan := rfl

theorem zero_eq : (0 : OrNan) = num 0 := rfl

theorem one_eq : (1 : OrNan) = num 1 := rfl

theorem ofScientific_eq (m : Nat) (s : Bool) (e : Nat) :
    (OfScientific.ofScientific m s e : OrNan) = num (OfScientific.ofScientific m s e) := rfl

@[simp] theorem ofCount_eq (n : Nat) : (Arith.ofCount n : OrNan) = num n := by
  show num (Rat.ofScientific n false 0) = num n
  simp [Rat.ofScientific_def]

@[simp] theorem num_add : num a + num b = num (a + b) := rfl

@[simp] theorem num_sub : num a - num b = num (a - b) := rfl

@[simp] theorem num_mul : num a * num b = num (a * b) := rfl

@[simp] theorem num_neg : -num a = num (-a) := rfl

theorem num_div (hb : b ≠ 0) : num a / num b = num (a / b) := if_neg hb

@[simp] theorem num_div_zero : num a / num 0 = nan := rfl

@[simp] theorem add_nan : x + nan = nan := by cases x <;> rfl

@[simp] theorem nan_add : nan + x = nan := rfl

@[simp] theorem sub_nan : x - nan = nan := by cases x <;> rfl

@[simp] theorem nan_sub : nan - x = nan := rfl

@[simp] theorem mul_nan : x * nan = nan := by cases x <;> rfl

@[simp] theorem div_nan : x / nan = nan := by cases x <;> rfl

@[simp] theorem num_lt : num a < num b ↔ a < b := Iff.rfl

@[simp] theorem num_le : num a ≤ num b ↔ a ≤ b := Iff.rfl

@[simp] theorem num_beq : (num a == num b) = decide (a = b) := by
  show (a == b) = _
  by_cases h : a = b
  · simp [h]
  · simp [h]

@[simp] theorem abs_num : Arith.abs (num a) = num |a| := rfl

@[simp] theorem max_num : Arith.max (num a) (num b) = num (max a b) := by
  rw [← Arith.max_rat, Arith.max, Arith.max]
  exact (apply_ite num _ _ _).symm

@[simp] theorem min_num : Arith.min (num a) (num b) = num (min a b) := by
  rw [← Arith.min_rat, Arith.min, Arith.min]
  exact (apply_ite num _ _ _).symm

@[simp] theorem isNaN_num : isNaN (num a) = false := rfl

@[simp] theorem isNaN_nan : isNaN (nan : OrNan) = true := rfl

theorem num_injective : Function.Injective num := fun _ _ h => num.inj h

/-! ### Sums and averages of numbers -/

theorem reduceSum_num (qs : List ℚ) : Simd.reduceSum (qs.map num) = num qs.sum := by
  have hfold : ∀ (qs : List ℚ) a, (qs.map num).foldl (· + ·) (num a) = num (a + qs.sum) := by
    intro qs
    induction qs with
    | nil => simp
    | cons q qs ih =>
      intro a
      rw [List.map_cons, List.foldl_cons, num_add, ih, List.sum_cons, add_assoc]
  have h := hfold qs 0
  rwa [zero_add] at h

/-- Values that are all numbers. -/
theorem exists_nums {xs : List OrNan} (h : ∀ x ∈ xs, IsNum x) : ∃ qs : List ℚ, xs = qs.map num := by
  induction xs with
  | nil => exact ⟨[], rfl⟩
  | cons x xs ih =>
    obtain ⟨q, rfl⟩ := isNum_iff.1 (h x List.mem_cons_self)
    obtain ⟨qs, rfl⟩ := ih fun y hy => h y (List.mem_cons_of_mem _ hy)
    exact ⟨q :: qs, rfl⟩

/-! ### Bands -/

/-- The value lies between `lo` and `hi` if it is a number. -/
def Band (lo hi : ℚ) (x : OrNan) : Prop := ∀ q, x = num q → lo ≤ q ∧ q ≤ hi

variable {lo hi : ℚ}

@[simp] theorem band_nan : Band lo hi nan := nofun

@[simp] theorem band_num : Band lo hi (num a) ↔ lo ≤ a ∧ a ≤ hi := by
  constructor
  · exact fun h => h a rfl
  · rintro h q ⟨⟩
    exact h

theorem band_snoc {l : List OrNan} (h : ∀ y ∈ l, Band lo hi y) (hx : Band lo hi x) : ∀ y ∈ l ++ [x], Band lo hi y := by
  intro y hy
  rcases List.mem_append.1 hy with hy | hy
  · exact h y hy
  · exact List.mem_singleton.1 hy ▸ hx

/-- The average of values in the band. -/
theorem Band.average {xs : List OrNan} (h : ∀ x ∈ xs, Band lo hi x) (hpos : 0 < xs.length) :
    Band lo hi (Simd.reduceSum xs / Arith.ofCount xs.length) := by
  intro q hq
  have hnum : IsNum (Simd.reduceSum xs / Arith.ofCount xs.length) := hq ▸ isNum_num q
  rw [isNum_div_ofCount hpos, isNum_reduceSum] at hnum
  obtain ⟨qs, rfl⟩ := exists_nums hnum
  have hcount : (0 : ℚ) < qs.length := by simpa using hpos
  rw [reduceSum_num, List.length_map, ofCount_eq, num_div hcount.ne'] at hq
  obtain rfl := num_injective hq
  have hmem : ∀ x ∈ qs, lo ≤ x ∧ x ≤ hi := fun x hx => h _ (List.mem_map_of_mem hx) x rfl
  have hlo := List.card_nsmul_le_sum qs lo fun x hx => (hmem x hx).1
  have hhi := List.sum_le_card_nsmul qs hi fun x hx => (hmem x hx).2
  rw [nsmul_eq_mul] at hlo hhi
  rw [le_div_iff₀ hcount, div_le_iff₀ hcount]
  exact ⟨by linarith, by linarith⟩

end OrNan

/-! ### The part of the way that an exponential average goes -/

namespace Indicators

def rate (p : Nat) : ℚ := 2 / (p + 1)

theorem multiplier_eq (p : Nat) : (MACD.multiplier p : OrNan) = .num (rate p) := by
  have hpos : (0 : ℚ) < p + 1 := by positivity
  rw [MACD.multiplier, OrNan.ofCount_eq, OrNan.one_eq, OrNan.ofScientific_eq, OrNan.num_add, OrNan.num_div hpos.ne', rate]
  norm_num

theorem rate_pos (p : Nat) : 0 < rate p := by
  unfold rate
  positivity

theorem rate_le_one {p : Nat} (hp : 0 < p) : rate p ≤ 1 := by
  have hone : (1 : ℚ) ≤ p := by exact_mod_cast hp
  exact (div_le_one (by positivity)).2 (by linarith)

end Indicators

end StratForge
