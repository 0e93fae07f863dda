import Mathlib.Order.Interval.Set.UnorderedInterval
import Mathlib.Order.Monotone.Basic
import Mathlib.Order.SuccPred.LinearLocallyFinite
import Mathlib.Algebra.Order.Group.Int
import Mathlib.Data.Int.ConditionallyCompleteOrder
import Mathlib.Tactic.Linarith

/-!
# Grids of instants

A `Grid` cuts a linear order of instants into consecutive cells `[boundary i, boundary (i + 1))`,
one for each integer `i`. The start and the end of the cell an instant lies in are monotone in the
instant; that is what turns "every bar that has ended by `t`" into a prefix of a sorted list.
-/

/-- Consecutive half-open cells covering all instants. -/
structure Grid (τ : Type*) [LinearOrder τ] where
  boundary : ℤ → τ
  cell : τ → ℤ
  strictMono : StrictMono boundary
  boundary_cell_le : ∀ t, boundary (cell t) ≤ t
  lt_boundary_cell : ∀ t, t < boundary (cell t + 1)

namespace Grid
variable {τ : Type*} [LinearOrder τ] (g : Grid τ) {s t : τ} {i : ℤ}

/-- The first instant of the cell of `t`. -/
def start (t : τ) : τ := g.boundary (g.cell t)

/-- The first instant after the cell of `t`. -/
def stop (t : τ) : τ := g.boundary (g.cell t + 1)

theorem cell_eq_iff : g.cell t = i ↔ g.boundary i ≤ t ∧ t < g.boundary (i + 1) := by
  constructor
  · rintro rfl; exact ⟨g.boundary_cell_le t, g.lt_boundary_cell t⟩
  · rintro ⟨h1, h2⟩
    have h3 := g.strictMono.lt_iff_lt.1 (h1.trans_lt (g.lt_boundary_cell t))
    have h4 := g.strictMono.lt_iff_lt.1 ((g.boundary_cell_le t).trans_lt h2)
    omega

theorem cell_boundary (i : ℤ) : g.cell (g.boundary i) = i :=
  g.cell_eq_iff.2 ⟨le_rfl, g.strictMono (by omega)⟩

theorem cell_mono : Monotone g.cell := by
  intro s t hst
  have := g.strictMono.lt_iff_lt.1 (((g.boundary_cell_le s).trans hst).trans_lt (g.lt_boundary_cell t))
  omega

theorem start_le (t : τ) : g.start t ≤ t := g.boundary_cell_le t

theorem lt_stop (t : τ) : t < g.stop t := g.lt_boundary_cell t

theorem start_mono : Monotone g.start := g.strictMono.monotone.comp g.cell_mono

theorem stop_mono : Monotone g.stop :=
  fun _ _ h => g.strictMono.monotone (by have := g.cell_mono h; omega)

/-- Every boundary of `h` is one of `g`: the cells of `g` nest in those of `h`. -/
def Refines (g h : Grid τ) : Prop := ∀ i, ∃ j, h.boundary i = g.boundary j

theorem Refines.refl (g : Grid τ) : g.Refines g := fun i => ⟨i, rfl⟩

/-- A finer cell ends no later than the cell it lies in. -/
theorem Refines.stop_le {g h : Grid τ} (hgh : g.Refines h) (t : τ) : g.stop t ≤ h.stop t := by
  obtain ⟨j, hj⟩ := hgh (h.cell t + 1)
  have hlt : g.boundary (g.cell t) < g.boundary j := by
    rw [← hj]
    exact (g.boundary_cell_le t).trans_lt (h.lt_boundary_cell t)
  have hcell := g.strictMono.lt_iff_lt.1 hlt
  show g.boundary (g.cell t + 1) ≤ h.boundary (h.cell t + 1)
  rw [hj]
  exact g.strictMono.monotone (by omega)

/-- A finer cell starts in the cell it lies in. -/
theorem Refines.start_start {g h : Grid τ} (hgh : g.Refines h) (t : τ) : h.start (g.start t) = h.start t := by
  obtain ⟨j, hj⟩ := hgh (h.cell t)
  have hle : g.boundary j ≤ g.start t := by
    refine g.strictMono.monotone ?_
    have hlt : g.boundary j < g.boundary (g.cell t + 1) := by
      rw [← hj]
      exact (h.boundary_cell_le t).trans_lt (g.lt_boundary_cell t)
    have hcell := g.strictMono.lt_iff_lt.1 hlt
    omega
  refine congrArg h.boundary (h.cell_eq_iff.2 ⟨?_, ?_⟩)
  · rw [hj]
    exact hle
  · exact (g.boundary_cell_le t).trans_lt (h.lt_boundary_cell t)

/-- And only then: at a boundary of `h` that `g` lacks the finer cell starts before. -/
theorem refines_of_start_start {g h : Grid τ} (hs : ∀ t, h.start (g.start t) = h.start t) : g.Refines h := by
  intro i
  refine ⟨g.cell (h.boundary i), le_antisymm ?_ (g.boundary_cell_le _)⟩
  calc h.boundary i = h.start (h.boundary i) := (congrArg h.boundary (h.cell_boundary i)).symm
    _ = h.start (g.start (h.boundary i)) := (hs _).symm
    _ ≤ g.start (h.boundary i) := h.boundary_cell_le _

/-- The start of a cell lies in it. -/
theorem cell_start (t : τ) : g.cell (g.start t) = g.cell t := g.cell_boundary _

theorem stop_start (t : τ) : g.stop (g.start t) = g.stop t := by
  unfold stop
  rw [cell_start]

theorem start_eq_start_iff : g.start s = g.start t ↔ g.cell s = g.cell t :=
  g.strictMono.injective.eq_iff

theorem start_start (t : τ) : g.start (g.start t) = g.start t := congrArg g.boundary (g.cell_start t)

theorem start_stop (t : τ) : g.start (g.stop t) = g.stop t := congrArg g.boundary (g.cell_boundary _)

/-- The boundaries are the instants that start their cell. -/
theorem start_eq_self_iff : g.start t = t ↔ ∃ i, g.boundary i = t := by
  constructor
  · exact fun h => ⟨_, h⟩
  · rintro ⟨i, rfl⟩
    exact congrArg g.boundary (g.cell_boundary i)

/-- Two instants lie in one cell if no boundary comes between them. -/
theorem start_eq_start_iff_boundary (s t : τ) :
    g.start s = g.start t ↔ ∀ b, g.start b = b → b ∉ Set.uIoc s t := by
  wlog hst : s ≤ t generalizing s t
  · rw [eq_comm, this t s (le_of_not_ge hst), Set.uIoc_comm]
  rw [Set.uIoc_of_le hst, start_eq_start_iff]
  constructor
  · rintro h b hb ⟨hsb, hbt⟩
    have hle := g.cell_mono hbt
    rw [← h] at hle
    have hstop : g.boundary (g.cell b) ≤ g.boundary (g.cell s) := g.strictMono.monotone hle
    rw [show g.boundary (g.cell b) = b from hb] at hstop
    exact absurd (hstop.trans (g.boundary_cell_le s)) (not_le_of_gt hsb)
  · intro h
    by_contra hne
    have hlt : g.cell s < g.cell t := lt_of_le_of_ne (g.cell_mono hst) hne
    have hbt : g.stop s ≤ t := (g.strictMono.monotone (by omega)).trans (g.boundary_cell_le t)
    exact h (g.stop s) (g.start_stop s) ⟨g.lt_stop s, hbt⟩

/-- The start of the cell that is `n` cells further. -/
def shift (t : τ) (n : ℤ) : τ := g.boundary (g.cell t + n)

theorem shift_zero (t : τ) : g.shift t 0 = g.start t := by rw [shift, add_zero, start]

theorem shift_shift (t : τ) (m n : ℤ) : g.shift (g.shift t m) n = g.shift t (m + n) := by
  unfold shift
  rw [cell_boundary, add_assoc]

end Grid
