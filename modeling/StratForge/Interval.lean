import StratForge.Civil
import StratForge.Grid
import Mathlib.Data.Int.Order.Basic
import Mathlib.Tactic.Ring

/-!
# Timeframes and calendar periods (`data/timeframe.hpp`, `data/interval.hpp`)

`DateTime` counts the nanoseconds since the epoch. The functions throw `std::invalid_argument` for
timeframes outside the canonical vocabulary; for every other timeframe `periodStart` and `periodEnd`
are the two ends of the cell of a `Grid` (`periodStart_eq`, `periodEnd_eq`), which is all the
scheduler and the resamplers use of them.
-/

namespace StratForge

/-- The two standard exceptions the engine throws. -/
inductive Error
  | invalidArgument (what : String)
  | outOfRange (what : String)
deriving DecidableEq, Repr

/-- A sequence of two steps returns only when both do. -/
theorem bind_eq_ok {A B : Type} {x : Except Error A} {f : A → Except Error B} {b : B} :
    (x >>= f) = .ok b ↔ ∃ a, x = .ok a ∧ f a = .ok b := by
  cases x with
  | error e => simp [bind, Except.bind]
  | ok a => simp [bind, Except.bind]

abbrev DateTime := Int

def nsPerSecond : Int := 1000000000
def secondsPerDay : Int := 86400
def nsPerDay : Int := secondsPerDay * nsPerSecond

inductive TimeFrame
  | Tick | Seconds | Minutes | Days | Weeks | Months | Years
deriving DecidableEq, Repr

/-- The `std::uint8_t` behind the enumeration. -/
def TimeFrame.rank : TimeFrame → Nat
  | Tick => 0 | Seconds => 1 | Minutes => 2 | Days => 3 | Weeks => 4 | Months => 5 | Years => 6

structure TimeFrameCompression where
  timeframe : TimeFrame := .Days
  compression : Int := 1
deriving DecidableEq, Repr

/-- One vocabulary entry per canonical token, finest first. -/
def intervalVocabulary : List (String × TimeFrameCompression) :=
  [("1m", ⟨.Minutes, 1⟩), ("5m", ⟨.Minutes, 5⟩), ("15m", ⟨.Minutes, 15⟩), ("30m", ⟨.Minutes, 30⟩),
   ("1h", ⟨.Minutes, 60⟩), ("2h", ⟨.Minutes, 120⟩), ("4h", ⟨.Minutes, 240⟩), ("1d", ⟨.Days, 1⟩),
   ("1w", ⟨.Weeks, 1⟩), ("1M", ⟨.Months, 1⟩)]

def parseInterval (token : String) : Option TimeFrameCompression :=
  (intervalVocabulary.find? (·.1 == token)).map (·.2)

def TimeFrameCompression.token (tfc : TimeFrameCompression) : String :=
  ((intervalVocabulary.find? (·.2 == tfc)).map (·.1)).getD ""

/-- The span in seconds; weeks and months have none. -/
def durationOf (tfc : TimeFrameCompression) : Except Error Int :=
  if tfc.compression ≤ 0 then
    .error (.invalidArgument "duration_of: compression must be positive")
  else match tfc.timeframe with
    | .Minutes => .ok (tfc.compression * 60)
    | .Days => .ok (tfc.compression * secondsPerDay)
    | _ => .error (.invalidArgument
        "duration_of: variable-span timeframe; use period_start/period_end")

/-- `chrono::weekday`, Sunday `0`; 1970-01-01 was a Thursday. -/
def weekday (day : Int) : Int := (day + 4) % 7

/-- Day number of the epoch in the count of `Civil`. -/
def epochDay : Int := 719468

/-- Floor division by the span the way the code writes it: truncate, then correct below zero. -/
def spanBucket (sec span : Int) : Int :=
  if sec.tmod span ≠ 0 ∧ sec < 0 then sec.tdiv span - 1 else sec.tdiv span

def periodStart (t : DateTime) (tfc : TimeFrameCompression) : Except Error DateTime :=
  match tfc.timeframe with
  | .Minutes | .Days => do
      let span ← durationOf tfc
      let bucket := spanBucket (t / nsPerSecond) span
      return bucket * span * nsPerSecond
  | .Weeks =>
      if tfc.compression ≠ 1 then
        .error (.invalidArgument "period_start: weeks support compression 1 only")
      else
        let day := t / nsPerDay
        .ok ((day - (weekday day - 1) % 7) * nsPerDay)
  | .Months =>
      if tfc.compression ≠ 1 then
        .error (.invalidArgument "period_start: months support compression 1 only")
      else
        let month := Civil.monthOf (t / nsPerDay + epochDay)
        .ok ((Civil.monthFirst month - epochDay) * nsPerDay)
  | _ => .error (.invalidArgument "period_start: timeframe outside the canonical vocabulary")

def advancePeriods (t : DateTime) (tfc : TimeFrameCompression) (n : Int) : Except Error DateTime := do
  let start ← periodStart t tfc
  match tfc.timeframe with
  | .Minutes | .Days => do
      let span ← durationOf tfc
      return start + n * (span * nsPerSecond)
  | .Weeks => return start + n * (7 * nsPerDay)
  | .Months =>
      let shifted := Civil.monthOf (start / nsPerDay + epochDay) + n
      return (Civil.monthFirst shifted - epochDay) * nsPerDay
  | _ => .error (.invalidArgument "advance_periods: timeframe outside the canonical vocabulary")

def periodEnd (t : DateTime) (tfc : TimeFrameCompression) : Except Error DateTime :=
  advancePeriods t tfc 1

def finerThan (a b : TimeFrameCompression) : Bool :=
  if a.timeframe ≠ b.timeframe then a.timeframe.rank < b.timeframe.rank
  else a.compression < b.compression

/-- The timeframes the calendar functions accept. -/
def TimeFrameCompression.Supported (tfc : TimeFrameCompression) : Prop :=
  ((tfc.timeframe = .Minutes ∨ tfc.timeframe = .Days) ∧ 0 < tfc.compression) ∨
    ((tfc.timeframe = .Weeks ∨ tfc.timeframe = .Months) ∧ tfc.compression = 1)

instance (tfc : TimeFrameCompression) : Decidable tfc.Supported :=
  inferInstanceAs (Decidable (_ ∨ _))

theorem nsPerDay_pos : 0 < nsPerDay := by decide

theorem spanBucket_eq {sec span : Int} (h : 0 < span) : spanBucket sec span = sec / span := by
  unfold spanBucket
  have hs : span.sign = 1 := Int.sign_eq_one_of_pos h
  rw [Int.tdiv_eq_ediv, hs]
  simp only [Ne, ← Int.dvd_iff_tmod_eq_zero]
  by_cases hd : span ∣ sec
  · simp [hd]
  · by_cases h0 : 0 ≤ sec
    · simp [h0, hd, Int.not_lt.2 h0]
    · simp [h0, hd, Int.not_le.1 h0]

/-! ### The grid of a supported timeframe -/

/-- Cells of equal width, `offset` being one of the boundaries. -/
def spanGrid (width offset : Int) (hw : 0 < width) : Grid Int where
  boundary i := i * width + offset
  cell t := (t - offset) / width
  strictMono := fun i j h => by
    have := mul_lt_mul_of_pos_right h hw
    show i * width + offset < j * width + offset
    omega
  boundary_cell_le t := by
    have := Int.ediv_mul_le (t - offset) (Int.ne_of_gt hw)
    show (t - offset) / width * width + offset ≤ t
    omega
  lt_boundary_cell t := by
    have := Int.lt_ediv_add_one_mul_self (t - offset) hw
    show t < ((t - offset) / width + 1) * width + offset
    omega

/-- The civil months, at midnight of their first day. -/
def monthGrid : Grid Int where
  boundary i := (Civil.monthFirst i - epochDay) * nsPerDay
  cell t := Civil.monthOf (t / nsPerDay + epochDay)
  strictMono := strictMono_int_of_lt_succ fun m =>
    mul_lt_mul_of_pos_right (sub_lt_sub_right (Civil.monthFirst_lt_succ m) _) nsPerDay_pos
  boundary_cell_le t := by
    have h := (Civil.monthOf_spec (t / nsPerDay + epochDay)).1
    exact (Int.le_ediv_iff_mul_le nsPerDay_pos).1 (by omega)
  lt_boundary_cell t := by
    have h := (Civil.monthOf_spec (t / nsPerDay + epochDay)).2
    exact (Int.ediv_lt_iff_lt_mul nsPerDay_pos).1 (by omega)

/-- Monday 00:00 is four days after the epoch. -/
def weekGrid : Grid Int := spanGrid (7 * nsPerDay) (-3 * nsPerDay) (by decide)

namespace TimeFrameCompression
variable {tfc : TimeFrameCompression}

/-- Seconds of a fixed-span timeframe. -/
def spanSeconds (tfc : TimeFrameCompression) : Int :=
  if tfc.timeframe = .Minutes then tfc.compression * 60 else tfc.compression * secondsPerDay

theorem spanSeconds_pos (h : 0 < tfc.compression) : 0 < tfc.spanSeconds := by
  unfold spanSeconds secondsPerDay; split <;> omega

def grid (tfc : TimeFrameCompression) : Grid Int :=
  if tfc.timeframe = .Weeks then weekGrid
  else if tfc.timeframe = .Months then monthGrid
  else if h : 0 < tfc.compression then
    spanGrid (tfc.spanSeconds * nsPerSecond) 0 (mul_pos (spanSeconds_pos h) (by decide))
  else monthGrid

theorem grid_fixed (hf : tfc.timeframe = .Minutes ∨ tfc.timeframe = .Days) (hc : 0 < tfc.compression) :
    tfc.grid = spanGrid (tfc.spanSeconds * nsPerSecond) 0 (mul_pos (spanSeconds_pos hc) (by decide)) := by
  unfold grid
  rcases hf with hf | hf <;> simp [hf, hc]

end TimeFrameCompression

theorem durationOf_eq {tfc : TimeFrameCompression}
    (h : (tfc.timeframe = .Minutes ∨ tfc.timeframe = .Days) ∧ 0 < tfc.compression) :
    durationOf tfc = .ok tfc.spanSeconds := by
  obtain ⟨hf, hc⟩ := h
  unfold durationOf TimeFrameCompression.spanSeconds
  rcases hf with hf | hf <;> simp [hf, Int.not_le.2 hc]

theorem ediv_seconds_ediv (t span : Int) :
    t / nsPerSecond / span * span * nsPerSecond
      = t / (span * nsPerSecond) * (span * nsPerSecond) := by
  rw [Int.ediv_ediv_of_nonneg (by decide), mul_comm nsPerSecond span, mul_assoc]

theorem weekStart_eq (t : Int) :
    (t / nsPerDay - (weekday (t / nsPerDay) - 1) % 7) * nsPerDay = weekGrid.start t := by
  have h : (t - -3 * nsPerDay) / (7 * nsPerDay) = (t / nsPerDay + 3) / 7 := by
    rw [mul_comm 7, ← Int.ediv_ediv_of_nonneg nsPerDay_pos.le]
    congr 1
    rw [show t - -3 * nsPerDay = t + 3 * nsPerDay by ring]
    exact Int.add_mul_ediv_right _ _ (Int.ne_of_gt nsPerDay_pos)
  show _ = (t - -3 * nsPerDay) / (7 * nsPerDay) * (7 * nsPerDay) + -3 * nsPerDay
  rw [h]
  generalize t / nsPerDay = d
  have hd : d - (weekday d - 1) % 7 = (d + 3) / 7 * 7 - 3 := by unfold weekday; omega
  rw [hd]; ring

theorem periodStart_eq {tfc : TimeFrameCompression} (h : tfc.Supported) (t : DateTime) :
    periodStart t tfc = .ok (tfc.grid.start t) := by
  rcases h with ⟨hf, hc⟩ | ⟨hf | hf, hc⟩
  · have hd := durationOf_eq ⟨hf, hc⟩
    have hs := TimeFrameCompression.spanSeconds_pos hc
    have hv : spanBucket (t / nsPerSecond) tfc.spanSeconds * tfc.spanSeconds * nsPerSecond
        = tfc.grid.start t := by
      rw [TimeFrameCompression.grid_fixed hf hc, spanBucket_eq hs, ediv_seconds_ediv]
      simp [Grid.start, spanGrid]
    unfold periodStart
    rcases hf with hf | hf <;> simp [hf, hd, hv, bind, Except.bind, pure, Except.pure]
  · simp [periodStart, hf, hc, TimeFrameCompression.grid, weekStart_eq]
  · simp [periodStart, hf, hc, TimeFrameCompression.grid, Grid.start, monthGrid]

/-- Steps of a grid of equal cells are multiples of the width. -/
theorem spanGrid_shift {width offset : Int} (hw : 0 < width) (t n : Int) :
    (spanGrid width offset hw).shift t n = (spanGrid width offset hw).start t + n * width := by
  simp only [Grid.start, Grid.shift, spanGrid]
  ring

/-- A step from the start of a month is a step on the count of months. -/
theorem monthGrid_shift (t n : Int) :
    (Civil.monthFirst (Civil.monthOf (monthGrid.start t / nsPerDay + epochDay) + n) - epochDay)
      * nsPerDay = monthGrid.shift t n := by
  have hv : Civil.monthOf (monthGrid.start t / nsPerDay + epochDay) = monthGrid.cell t :=
    monthGrid.cell_boundary (monthGrid.cell t)
  rw [hv]
  rfl

theorem advancePeriods_eq {tfc : TimeFrameCompression} (h : tfc.Supported) (t : DateTime) (n : Int) :
    advancePeriods t tfc n = .ok (tfc.grid.shift t n) := by
  unfold advancePeriods
  rw [periodStart_eq h]
  rcases h with ⟨hf, hc⟩ | ⟨hf | hf, hc⟩
  · have hd := durationOf_eq ⟨hf, hc⟩
    have hv : tfc.grid.start t + n * (tfc.spanSeconds * nsPerSecond) = tfc.grid.shift t n := by
      rw [TimeFrameCompression.grid_fixed hf hc, spanGrid_shift]
    rcases hf with hf | hf <;>
      simp only [hf, hd, hv, bind, Except.bind, pure, Except.pure]
  · have hgrid : tfc.grid = weekGrid := by simp [TimeFrameCompression.grid, hf]
    have hv : weekGrid.start t + n * (7 * nsPerDay) = weekGrid.shift t n :=
      (spanGrid_shift _ t n).symm
    simp only [hf, hgrid, hv, bind, Except.bind, pure, Except.pure]
  · have hgrid : tfc.grid = monthGrid := by simp [TimeFrameCompression.grid, hf]
    have hv := monthGrid_shift t n
    simp only [hf, hgrid, hv, bind, Except.bind, pure, Except.pure]

theorem periodEnd_eq {tfc : TimeFrameCompression} (h : tfc.Supported) (t : DateTime) :
    periodEnd t tfc = .ok (tfc.grid.stop t) := advancePeriods_eq h t 1

theorem advancePeriods_returns {tfc : TimeFrameCompression} (h : tfc.Supported) (t : DateTime) (n : Int) :
    ∃ v, advancePeriods t tfc n = .ok v := ⟨_, advancePeriods_eq h t n⟩

/-- The calendar functions answer for no other timeframe. -/
theorem supported_of_periodStart {tfc : TimeFrameCompression} {t v : DateTime}
    (h : periodStart t tfc = .ok v) : tfc.Supported := by
  unfold periodStart at h
  unfold TimeFrameCompression.Supported
  split at h
  · rename_i hf
    by_cases hc : tfc.compression ≤ 0
    · simp [durationOf, hc, bind, Except.bind] at h
    · exact .inl ⟨.inl hf, by omega⟩
  · rename_i hf
    by_cases hc : tfc.compression ≤ 0
    · simp [durationOf, hc, bind, Except.bind] at h
    · exact .inl ⟨.inr hf, by omega⟩
  · rename_i hf
    split at h
    · cases h
    · exact .inr ⟨.inl hf, by omega⟩
  · rename_i hf
    split at h
    · cases h
    · exact .inr ⟨.inr hf, by omega⟩
  · cases h

theorem supported_of_periodEnd {tfc : TimeFrameCompression} {t v : DateTime}
    (h : periodEnd t tfc = .ok v) : tfc.Supported := by
  unfold periodEnd advancePeriods at h
  obtain ⟨s, hs, -⟩ := bind_eq_ok.1 h
  exact supported_of_periodStart hs

theorem supported_of_mem_vocabulary {tok : String} {tfc : TimeFrameCompression}
    (h : parseInterval tok = some tfc) : tfc.Supported := by
  obtain ⟨e, he, rfl⟩ := Option.map_eq_some_iff.1 h
  have hall : ∀ e ∈ intervalVocabulary, e.2.Supported := by decide
  exact hall e (List.mem_of_find?_eq_some he)

end StratForge
