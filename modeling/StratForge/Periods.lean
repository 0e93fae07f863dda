import StratForge.Interval

/-!
# The laws of the calendar functions (`data/interval.hpp`)

On a supported timeframe `period_start`, `period_end` and `advance_periods` return for every
instant, and the values are the start, the end and the shifts of the cells of one `Grid`
(`periodStart_eq`, `periodEnd_eq`, `advancePeriods_eq`). What the scheduler, the resampler and the
warm-up window rely on (`PeriodLaws`) then holds because it holds of every grid.
-/

namespace StratForge

/-- The laws of a family of periods: `start` and `stop` are the two ends of the period of an
instant, `advance` steps on the grid of the starts. -/
structure PeriodLaws (start stop : DateTime → DateTime) (advance : DateTime → Int → DateTime) :
    Prop where
  start_le : ∀ t, start t ≤ t
  lt_stop : ∀ t, t < stop t
  idempotent : ∀ t, start (start t) = start t
  monotone : Monotone start
  /-- The instants that start their own period are those the steps reach. -/
  boundary : ∀ t b, start b = b ↔ ∃ n, advance t n = b
  /-- Two instants share their period if and only if no boundary comes after the earlier one and no
  later than the other. -/
  same_iff : ∀ s t, start s = start t ↔ ∀ b, start b = b → b ∉ Set.uIoc s t
  start_stop : ∀ t, start (stop t) = stop t
  advance_advance : ∀ t m n, advance (advance t m) n = advance t (m + n)
  advance_zero : ∀ t, advance t 0 = start t

theorem PeriodLaws.of_grid (g : Grid Int) : PeriodLaws g.start g.stop g.shift where
  start_le := g.start_le
  lt_stop := g.lt_stop
  idempotent := g.start_start
  monotone := g.start_mono
  boundary t b := by
    rw [g.start_eq_self_iff]
    constructor
    · rintro ⟨i, hi⟩
      exact ⟨i - g.cell t, by rw [Grid.shift, add_sub_cancel, hi]⟩
    · rintro ⟨n, hn⟩
      exact ⟨_, hn⟩
  same_iff := g.start_eq_start_iff_boundary
  start_stop := g.start_stop
  advance_advance := g.shift_shift
  advance_zero := g.shift_zero

end StratForge
