import StratForge.Quotes
import StratForge.Smoothing

/-!
# Averages of averages (`indicators/dema.hpp`, `tema.hpp`, `trix.hpp`, `oscillator_extra.hpp`)

Each class keeps its own cascade of exponential averages. A stage begins when the stage before it has put out `period`
numbers, with their mean, and advances with each further one (`Stage`): so what it puts out is the average of the
numbers of the stage before, as `EMA` has it.
-/

namespace StratForge
namespace Indicators
open Floating (nan isNaN)
open OrNan (IsNum)
open Smoothing (ema mean advance nested)
open Driven (outputs outputs_snoc)
open Access (readBack)

section
variable {α : Type} [Arith α] [Floating α]

structure Trix (α : Type) where
  period : Nat
  rocperiod : Nat
  line : List α := []
  ema1 : List α := []
  ema2 : List α := []
  ema3 : List α := []
  ema1Prev : α
  ema2Prev : α
  ema3Prev : α
  ema1Initialized : Bool := false
  ema2Initialized : Bool := false
  ema3Initialized : Bool := false

namespace Trix

def init (period rocperiod : Nat) : Trix α := { period, rocperiod, ema1Prev := 0, ema2Prev := 0, ema3Prev := 0 }

def nextEma1 (source : Line α) (t : Trix α) : Option (Trix α) := do
  let ema1Prev ← MACD.average source t.period t.ema1Initialized t.ema1Prev
  return { t with ema1 := t.ema1 ++ [ema1Prev], ema1Prev, ema1Initialized := true }

def nextEma2 (t : Trix α) : Option (Trix α) := do
  let ema2Prev ← smoothed t.ema1 t.ema1Prev t.period t.ema2Initialized t.ema2Prev
  return { t with ema2 := t.ema2 ++ [ema2Prev], ema2Prev, ema2Initialized := true }

def nextEma3 (t : Trix α) : Option (Trix α) := do
  let ema3Prev ← smoothed t.ema2 t.ema2Prev t.period t.ema3Initialized t.ema3Prev
  return { t with ema3 := t.ema3 ++ [ema3Prev], ema3Prev, ema3Initialized := true }

/-- The rate of change of the third average. -/
def nextLine (t : Trix α) : Option (Trix α) :=
  if t.ema3.length ≤ t.rocperiod then some { t with line := t.line ++ [nan] }
  else do
    let previous ← t.ema3[t.ema3.length - 1 - t.rocperiod]?
    return { t with line := t.line ++ [100.0 * (t.ema3Prev / previous - 1)] }

def next (source : Line α) (t : Trix α) : Option (Trix α) :=
  if source.idx + 1 < t.period then
    some { t with line := t.line ++ [nan], ema1 := t.ema1 ++ [nan], ema2 := t.ema2 ++ [nan], ema3 := t.ema3 ++ [nan] }
  else do
    let t ← t.nextEma1 source
    if t.ema1.length < 2 * t.period - 1 then
      return { t with ema2 := t.ema2 ++ [nan], ema3 := t.ema3 ++ [nan], line := t.line ++ [nan] }
    let t ← t.nextEma2
    if t.ema2.length < 3 * t.period - 2 then return { t with ema3 := t.ema3 ++ [nan], line := t.line ++ [nan] }
    let t ← t.nextEma3
    t.nextLine

end Trix

/-- The entries of the arrays of T3 for one stage. -/
structure T3Stage (α : Type) where
  prev : α
  seedSum : α
  seedCount : Nat := 0
  initialized : Bool := false

/-- `advance_stage`, with what it returns. -/
def T3Stage.advance (period : Nat) (input : α) (s : T3Stage α) : α × T3Stage α :=
  if isNaN input then (nan, s)
  else if !s.initialized then
    let s := { s with seedSum := s.seedSum + input, seedCount := s.seedCount + 1 }
    if s.seedCount < period then (nan, s)
    else
      let prev := s.seedSum / Arith.ofCount period
      (prev, { s with prev, initialized := true })
  else
    let prev := MACD.advanceEma input s.prev (MACD.multiplier period)
    (prev, { s with prev })

/-- The stages one after the other, each with what the one before it returns. -/
def T3Stage.cascade (period : Nat) (input : α) : List (T3Stage α) → List α × List (T3Stage α)
  | [] => ([], [])
  | s :: stages =>
    let (output, s) := s.advance period input
    let (outputs, stages) := cascade period output stages
    (output :: outputs, s :: stages)

structure T3MovingAverage (α : Type) where
  period : Nat
  a : α
  line : List α := []
  stages : List (T3Stage α)

namespace T3MovingAverage

def init (period : Nat) (vfactor : α) : T3MovingAverage α :=
  { period := if period = 0 then 1 else period, a := vfactor, stages := .replicate 6 { prev := 0, seedSum := 0 } }

def combine (a e3 e4 e5 e6 : α) : α :=
  let c1 := -a * a * a
  let c2 := 3.0 * a * a + 3.0 * a * a * a
  let c3 := -6.0 * a * a - 3.0 * a - 3.0 * a * a * a
  let c4 := 1 + 3.0 * a + 3.0 * a * a + a * a * a
  c1 * e6 + c2 * e5 + c3 * e4 + c4 * e3

def next (source : Line α) (t : T3MovingAverage α) : Option (T3MovingAverage α) := do
  let current ← source.data[source.idx]?
  match T3Stage.cascade t.period current t.stages with
  | ([_, _, e3, e4, e5, e6], stages) =>
    return { t with stages, line := t.line ++
      [if isNaN e3 || isNaN e4 || isNaN e5 || isNaN e6 then nan else combine t.a e3 e4 e5 e6] }
  | _ => none

end T3MovingAverage

/-- The line of an `EMA` of the source. -/
def EMA.over (period : Nat) (values : List α) : Option (List α) :=
  (overSource EMA.next (EMA.init period) values).map fun st => st.2.line

/-- The line of an `EMA` of what follows the NaN ones, on the bars of the values. -/
def emaOfSuffix (period : Nat) (line : List α) : Option (List α) :=
  (EMA.over period (line.dropWhile isNaN)).map (line.takeWhile isNaN ++ ·)

/-- E1, E2 and so on, after the source. -/
def emaLine (period : Nat) (values : List α) : Nat → Option (List α)
  | 0 => some values
  | k + 1 => (emaLine period values k).bind (emaOfSuffix period)

end

/-! ### One stage -/

/-- The last of the values, or none yet. -/
def newest (ys : List ℚ) : OrNan := ys.getLast?.elim nan .num

@[simp] theorem newest_nil : newest [] = nan := rfl

@[simp] theorem newest_concat (ys : List ℚ) (y : ℚ) : newest (ys ++ [y]) = .num y := by simp [newest]

theorem newest_of_pos {ys : List ℚ} (h : 0 < ys.length) : ∃ y, ys.getLast? = some y ∧ newest ys = .num y := by
  have hlast := List.getLast?_eq_some_getLast (List.length_pos_iff.1 h)
  exact ⟨_, hlast, by rw [newest, hlast]; rfl⟩

theorem averageBack_suffix {p : Nat} {ys : List ℚ} (hp : 0 < p) (hlen : ys.length = p) (before : List OrNan) :
    averageBack (before ++ ys.map .num) (before.length + p - 1) p = some (.num (mean ys)) := by
  have hcount : (p : ℚ) ≠ 0 := by exact_mod_cast hp.ne'
  have hwindow : ((before ++ ys.map OrNan.num).drop (before.length + p - 1 + 1 - p)).take p = ys.map OrNan.num := by
    rw [show before.length + p - 1 + 1 - p = before.length by omega, List.drop_left,
      List.take_of_length_le (by simp [hlen])]
  rw [averageBack_eq (by simp; omega) (by omega), hwindow, ← List.map_reverse, OrNan.reduceSum_num, List.sum_reverse,
    OrNan.ofCount_eq, OrNan.num_div hcount, mean, hlen]

/-- Of a stage over the values: it has begun if there are `p`, and then it has their average. -/
structure Stage (p : Nat) (ys : List ℚ) (initialized : Bool) (prev : OrNan) : Prop where
  pos : 0 < p
  begun : initialized = decide (p ≤ ys.length)
  last : p ≤ ys.length → prev = newest (ema (rate p) p ys)

namespace Stage
variable {p n : Nat} {ys zs : List ℚ} {y : ℚ} {initialized : Bool} {prev : OrNan} {source : Line OrNan}

theorem nil (hp : 0 < p) (prev : OrNan) : Stage p [] false prev where
  pos := hp
  begun := (decide_eq_false hp.not_ge).symm
  last h := absurd h hp.not_ge

/-- It has not begun, with these values or others. -/
theorem early (h : Stage p ys initialized prev) (hys : ys.length < p) (hzs : zs.length < p) :
    Stage p zs initialized prev where
  pos := h.pos
  begun := by rw [h.begun, decide_eq_false hys.not_ge, decide_eq_false hzs.not_ge]
  last hle := absurd hle hzs.not_ge

theorem next (hp : 0 < p) (hle : p ≤ ys.length) : Stage p ys true (newest (ema (rate p) p ys)) where
  pos := hp
  begun := (decide_eq_true hle).symm
  last _ := rfl

theorem advance (h : Stage p ys initialized prev) (hle : p ≤ ys.length) (y : ℚ) :
    MACD.advanceEma (.num y) prev (MACD.multiplier p) = newest (ema (rate p) p (ys ++ [y])) := by
  obtain ⟨q, hlast, hq⟩ := @newest_of_pos (ema (rate p) p ys) (by rw [Smoothing.length_ema]; omega)
  rw [h.last hle, hq, Smoothing.ema_concat hle hlast, newest_concat, multiplier_eq]
  rfl

theorem seed (hp : 0 < p) (hlen : ys.length = p) (before : List OrNan) :
    averageBack (before ++ ys.map .num) ((before ++ ys.map OrNan.num).length - 1) p = some (newest (ema (rate p) p ys)) := by
  rw [List.length_append, List.length_map, hlen, averageBack_suffix hp hlen, Smoothing.ema_seed hlen]
  rfl

/-- Over the source. -/
theorem average (h : Stage p ys initialized prev) (hle : p ≤ ys.length + 1) (hs : Sourced ((ys ++ [y]).map OrNan.num) source) :
    MACD.average source p initialized prev = some (newest (ema (rate p) p (ys ++ [y]))) := by
  rw [MACD.average, h.begun]
  rcases Nat.lt_or_ge ys.length p with hlt | hge
  · have hlen : (ys ++ [y]).length = p := by
      rw [List.length_append, List.length_singleton]
      omega
    rw [decide_eq_false hlt.not_ge, if_pos (by rfl), hs.data, hs.cursor]
    exact seed h.pos hlen []
  · rw [decide_eq_true hge, if_neg (by simp), hs.cursor, hs.data]
    simp [h.advance hge]

/-- Over the averages of the stage before, of which the buffer has the last `p` when there are as many. -/
theorem smoothed (h : Stage p ys initialized prev) (hle : p ≤ ys.length + 1) (before : List OrNan) :
    smoothed (before ++ (ys ++ [y]).map .num) (.num y) p initialized prev = some (newest (ema (rate p) p (ys ++ [y]))) := by
  rw [Indicators.smoothed, h.begun]
  rcases Nat.lt_or_ge ys.length p with hlt | hge
  · have hlen : (ys ++ [y]).length = p := by
      rw [List.length_append, List.length_singleton]
      omega
    rw [decide_eq_false hlt.not_ge, if_pos (by rfl), seed h.pos hlen]
  · rw [decide_eq_true hge, if_neg (by simp), h.advance hge]

end Stage

/-! ### The levels -/

/-- The newest average of level `k`: the values are level 0, and each level has the averages of the one before. -/
def level (p k : Nat) (qs : List ℚ) : OrNan := newest (nested (rate p) p qs k)

section
variable {p k : Nat} {qs : List ℚ} {q : ℚ} {initialized : Bool} {prev : OrNan}

theorem nested_early (hp : 0 < p) (h : qs.length ≤ k * (p - 1)) : nested (rate p) p qs k = [] := by
  rw [← List.length_eq_zero_iff, Smoothing.length_nested hp]
  omega

theorem level_early (hp : 0 < p) (h : qs.length ≤ k * (p - 1)) : level p k qs = nan := by
  rw [level, nested_early hp h]
  rfl

/-- A value more is one average more on every level that has begun. -/
theorem nested_step (hp : 0 < p) (h : k * (p - 1) < qs.length + 1) :
    ∃ y, level p k (qs ++ [q]) = .num y ∧ nested (rate p) p (qs ++ [q]) k = nested (rate p) p qs k ++ [y] := by
  have hpos : 0 < (nested (rate p) p (qs ++ [q]) k).length := by
    rw [Smoothing.length_nested hp, List.length_append, List.length_singleton]
    omega
  obtain ⟨y, hlast, hy⟩ := newest_of_pos hpos
  refine ⟨y, hy, ?_⟩
  have hconcat := Smoothing.nested_concat hp (rate p) q qs k
  rwa [hlast] at hconcat

theorem outputs_level (hp : 0 < p) (k : Nat) (qs : List ℚ) :
    outputs (level p k) qs =
      List.replicate (qs.length - (nested (rate p) p qs k).length) nan ++ (nested (rate p) p qs k).map .num := by
  induction qs using List.reverseRecOn with
  | nil => simp [nested_early hp]
  | append_singleton qs q ih =>
    rw [Driven.outputs_concat, ih, List.length_append, List.length_singleton]
    rcases Nat.lt_or_ge (k * (p - 1)) (qs.length + 1) with hlt | hge
    · obtain ⟨y, hy, hnested⟩ := nested_step hp (q := q) hlt
      rw [hy, hnested, List.map_append, List.length_append, List.length_singleton, Nat.add_sub_add_right, List.append_assoc]
      rfl
    · have hge' : (qs ++ [q]).length ≤ k * (p - 1) := by simpa using hge
      rw [level_early hp hge', nested_early hp hge', nested_early hp (show qs.length ≤ k * (p - 1) by omega)]
      simp [List.replicate_succ']

/-- The stage over a level puts out the next one. -/
theorem Stage.level {j : Nat} (h : Stage p (nested (rate p) p qs k) initialized prev) (hj : j = k + 1)
    (hle : j * (p - 1) < qs.length + 1) :
    Indicators.smoothed (outputs (level p k) (qs ++ [q])) (level p k (qs ++ [q])) p initialized prev =
        some (level p j (qs ++ [q])) ∧
      Stage p (nested (rate p) p (qs ++ [q]) k) true (level p j (qs ++ [q])) := by
  have hp := h.pos
  subst hj
  rw [Nat.succ_mul] at hle
  obtain ⟨y, hy, hnested⟩ := nested_step hp (q := q) (show k * (p - 1) < qs.length + 1 by omega)
  have hlen : (nested (rate p) p qs k).length = qs.length - k * (p - 1) := Smoothing.length_nested hp _ _ _
  rw [outputs_level hp, hy, hnested, h.smoothed (by omega), Indicators.level, nested, hnested]
  exact ⟨rfl, .next hp (by rw [List.length_append, List.length_singleton]; omega)⟩

theorem Stage.first (h : Stage p (nested (rate p) p qs 0) initialized prev) (hle : p ≤ qs.length + 1) {source : Line OrNan}
    (hs : Sourced ((qs ++ [q]).map OrNan.num) source) :
    MACD.average source p initialized prev = some (Indicators.level p 1 (qs ++ [q])) ∧
      Stage p (nested (rate p) p (qs ++ [q]) 0) true (Indicators.level p 1 (qs ++ [q])) :=
  ⟨Stage.average h hle hs, .next h.pos (by rw [nested, List.length_append, List.length_singleton]; exact hle)⟩

theorem Stage.waits (h : Stage p (nested (rate p) p qs k) initialized prev) (hlt : qs.length + 1 ≤ (k + 1) * (p - 1)) (q : ℚ) :
    Stage p (nested (rate p) p (qs ++ [q]) k) initialized prev := by
  have hp := h.pos
  rw [Nat.succ_mul] at hlt
  refine h.early ?_ ?_
  · rw [Smoothing.length_nested hp]
    omega
  · rw [Smoothing.length_nested hp, List.length_append, List.length_singleton]
    omega

end

/-! ### DEMA -/

namespace DoubleExponentialMovingAverage
variable {p : Nat} {qs : List ℚ} {q : ℚ} {d : DoubleExponentialMovingAverage OrNan} {source : Line OrNan}

structure Nests (p : Nat) (qs : List ℚ) (d : DoubleExponentialMovingAverage OrNan) : Prop where
  period : d.period = p
  first : Stage p (nested (rate p) p qs 0) d.ema1Initialized d.ema1Prev
  second : Stage p (nested (rate p) p qs 1) d.ema2Initialized d.ema2Prev
  ema1 : d.ema1 = outputs (level p 1) qs
  line : d.line = outputs (fun qs => 2.0 * level p 1 qs - level p 2 qs) qs

theorem init_nests (hp : 0 < p) : Nests p [] (init p) := by
  refine ⟨rfl, .nil hp _, ?_, rfl, rfl⟩
  rw [nested_early hp (Nat.zero_le _)]
  exact .nil hp _

theorem Nests.next (h : d.Nests p qs) (hs : Sourced ((qs ++ [q]).map OrNan.num) source) :
    ∃ d', d.next source = some d' ∧ d'.Nests p (qs ++ [q]) := by
  have hp := h.first.pos
  have hidx : source.idx = qs.length := by rw [hs.cursor]; simp
  have hlen : (qs ++ [q]).length = qs.length + 1 := by simp
  obtain rfl := h.period
  unfold DoubleExponentialMovingAverage.next
  rw [hidx]
  split_ifs with hearly
  · refine ⟨_, rfl, rfl, h.first.waits (by omega) q, h.second.waits (by omega) q, outputs_snoc h.ema1 ?_, outputs_snoc h.line ?_⟩
    · rw [level_early hp (by omega)]
    · rw [level_early (k := 2) hp (by omega), OrNan.nan_eq, OrNan.sub_nan]
  · obtain ⟨hfirst, hfirst'⟩ := h.first.first (by omega) hs
    have hema1 : d.nextEma1 source = some { d with
        ema1 := outputs (level d.period 1) (qs ++ [q]), ema1Prev := level d.period 1 (qs ++ [q]), ema1Initialized := true } := by
      rw [nextEma1, hfirst, ← outputs_snoc h.ema1 rfl]
      rfl
    rw [hema1, Option.bind_eq_bind, Option.bind_some]
    dsimp only
    rw [Driven.length_outputs, hlen]
    split_ifs with hwait
    · refine ⟨_, rfl, rfl, hfirst', h.second.waits (by omega) q, rfl, outputs_snoc h.line ?_⟩
      rw [level_early (k := 2) hp (by omega), OrNan.nan_eq, OrNan.sub_nan]
    · obtain ⟨hsecond, hsecond'⟩ := h.second.level (q := q) (j := 2) rfl (by omega)
      rw [nextEma2]
      dsimp only
      rw [hsecond]
      exact ⟨_, rfl, rfl, hfirst', hsecond', rfl, outputs_snoc h.line rfl⟩

end DoubleExponentialMovingAverage

/-! ### TEMA and Trix -/

namespace TripleExponentialMovingAverage
variable {p : Nat} {qs : List ℚ} {q : ℚ} {d : TripleExponentialMovingAverage OrNan} {source : Line OrNan}

structure Nests (p : Nat) (qs : List ℚ) (d : TripleExponentialMovingAverage OrNan) : Prop where
  period : d.period = p
  first : Stage p (nested (rate p) p qs 0) d.ema1Initialized d.ema1Prev
  second : Stage p (nested (rate p) p qs 1) d.ema2Initialized d.ema2Prev
  third : Stage p (nested (rate p) p qs 2) d.ema3Initialized d.ema3Prev
  ema1 : d.ema1 = outputs (level p 1) qs
  ema2 : d.ema2 = outputs (level p 2) qs
  line : d.line = outputs (fun qs => 3.0 * level p 1 qs - 3.0 * level p 2 qs + level p 3 qs) qs

theorem init_nests (hp : 0 < p) : Nests p [] (init p) := by
  refine ⟨rfl, .nil hp _, ?_, ?_, rfl, rfl, rfl⟩
  · rw [nested_early hp (Nat.zero_le _)]
    exact .nil hp _
  · rw [nested_early hp (Nat.zero_le _)]
    exact .nil hp _

theorem Nests.next (h : d.Nests p qs) (hs : Sourced ((qs ++ [q]).map OrNan.num) source) :
    ∃ d', d.next source = some d' ∧ d'.Nests p (qs ++ [q]) := by
  have hp := h.first.pos
  have hidx : source.idx = qs.length := by rw [hs.cursor]; simp
  have hlen : (qs ++ [q]).length = qs.length + 1 := by simp
  obtain rfl := h.period
  have hthird : qs.length + 1 ≤ 3 * (d.period - 1) →
      nan = 3.0 * level d.period 1 (qs ++ [q]) - 3.0 * level d.period 2 (qs ++ [q]) + level d.period 3 (qs ++ [q]) := by
    intro hlt
    rw [level_early (k := 3) hp (by omega), OrNan.nan_eq, OrNan.add_nan]
  unfold TripleExponentialMovingAverage.next
  rw [hidx]
  split_ifs with hearly
  · refine ⟨_, rfl, rfl, h.first.waits (by omega) q, h.second.waits (by omega) q, h.third.waits (by omega) q,
      outputs_snoc h.ema1 ?_, outputs_snoc h.ema2 ?_, outputs_snoc h.line (hthird (by omega))⟩
    · rw [level_early hp (by omega)]
    · rw [level_early hp (by omega)]
  · obtain ⟨hfirst, hfirst'⟩ := h.first.first (by omega) hs
    have hema1 : d.nextEma1 source = some { d with
        ema1 := outputs (level d.period 1) (qs ++ [q]), ema1Prev := level d.period 1 (qs ++ [q]), ema1Initialized := true } := by
      rw [nextEma1, hfirst, ← outputs_snoc h.ema1 rfl]
      rfl
    rw [hema1, Option.bind_eq_bind, Option.bind_some]
    dsimp only
    rw [Driven.length_outputs, hlen]
    by_cases hready : 2 * d.period - 1 ≤ qs.length + 1
    · obtain ⟨hsecond, hsecond'⟩ := h.second.level (q := q) (j := 2) rfl (by omega)
      rw [if_neg (not_not.2 hready), nextEma2]
      dsimp only
      rw [hsecond, Option.bind_eq_bind, Option.bind_some, Option.pure_def, Option.bind_some]
      dsimp only
      rw [outputs_snoc h.ema2 rfl, Driven.length_outputs, hlen]
      by_cases hlast : 3 * d.period - 2 ≤ qs.length + 1
      · obtain ⟨hthird, hthird'⟩ := h.third.level (q := q) (j := 3) rfl (by omega)
        rw [if_neg (not_not.2 hlast), nextEma3]
        dsimp only
        rw [hthird]
        exact ⟨_, rfl, rfl, hfirst', hsecond', hthird', rfl, rfl, outputs_snoc h.line rfl⟩
      · rw [if_pos hlast]
        exact ⟨_, rfl, rfl, hfirst', hsecond', h.third.waits (by omega) q, rfl, rfl, outputs_snoc h.line (hthird (by omega))⟩
    · rw [if_pos hready]
      refine ⟨_, rfl, rfl, hfirst', h.second.waits (by omega) q, h.third.waits (by omega) q, rfl, outputs_snoc h.ema2 ?_,
        outputs_snoc h.line (hthird (by omega))⟩
      rw [level_early hp (by omega)]

end TripleExponentialMovingAverage

namespace Trix
variable {p roc : Nat} {qs : List ℚ} {q : ℚ} {d : Trix OrNan} {source : Line OrNan}

/-- The rate of change of the third level. -/
def change (p roc : Nat) (qs : List ℚ) : OrNan := 100.0 * (level p 3 qs / level p 3 (qs.take (qs.length - roc)) - 1)

theorem change_early (hp : 0 < p) (h : qs.length ≤ 3 * (p - 1) + roc) : change p roc qs = nan := by
  have hlen : (qs.take (qs.length - roc)).length ≤ 3 * (p - 1) := by
    rw [List.length_take]
    omega
  rw [change, level_early hp hlen, OrNan.nan_eq, OrNan.div_nan, OrNan.nan_sub, OrNan.mul_nan]

structure Nests (p roc : Nat) (qs : List ℚ) (d : Trix OrNan) : Prop where
  period : d.period = p
  rocperiod : d.rocperiod = roc
  first : Stage p (nested (rate p) p qs 0) d.ema1Initialized d.ema1Prev
  second : Stage p (nested (rate p) p qs 1) d.ema2Initialized d.ema2Prev
  third : Stage p (nested (rate p) p qs 2) d.ema3Initialized d.ema3Prev
  ema1 : d.ema1 = outputs (level p 1) qs
  ema2 : d.ema2 = outputs (level p 2) qs
  ema3 : d.ema3 = outputs (level p 3) qs
  line : d.line = outputs (change p roc) qs

theorem init_nests (hp : 0 < p) (roc : Nat) : Nests p roc [] (init p roc) := by
  refine ⟨rfl, rfl, .nil hp _, ?_, ?_, rfl, rfl, rfl, rfl⟩
  · rw [nested_early hp (Nat.zero_le _)]
    exact .nil hp _
  · rw [nested_early hp (Nat.zero_le _)]
    exact .nil hp _

/-- With the third level up to date. -/
theorem nextLine_nests (hp : 0 < p) (hroc : d.rocperiod = roc)
    (hline : d.line = outputs (change p roc) qs) (hema3 : d.ema3 = outputs (level p 3) (qs ++ [q]))
    (hprev : d.ema3Prev = level p 3 (qs ++ [q])) :
    d.nextLine = some { d with line := outputs (change p roc) (qs ++ [q]) } := by
  have hlen : (qs ++ [q]).length = qs.length + 1 := by simp
  unfold nextLine
  rw [hema3, hroc, Driven.length_outputs, hlen, hprev]
  split_ifs with hshort
  · rw [outputs_snoc hline (change_early hp (show (qs ++ [q]).length ≤ _ by omega)).symm]
  · rw [Driven.getElem?_outputs (by omega), Option.bind_eq_bind, Option.bind_some, outputs_snoc hline]
    · rfl
    · rw [change, hlen, show qs.length + 1 - 1 - roc + 1 = qs.length + 1 - roc by omega]

theorem Nests.next (h : d.Nests p roc qs) (hs : Sourced ((qs ++ [q]).map OrNan.num) source) :
    ∃ d', d.next source = some d' ∧ d'.Nests p roc (qs ++ [q]) := by
  have hp := h.first.pos
  have hidx : source.idx = qs.length := by rw [hs.cursor]; simp
  have hlen : (qs ++ [q]).length = qs.length + 1 := by simp
  obtain rfl := h.period
  obtain rfl := h.rocperiod
  have hearly : qs.length + 1 ≤ 3 * (d.period - 1) → nan = change d.period d.rocperiod (qs ++ [q]) := by
    intro hlt
    exact (change_early hp (by omega)).symm
  unfold Trix.next
  rw [hidx]
  split_ifs with hfew
  · refine ⟨_, rfl, rfl, rfl, h.first.waits (by omega) q, h.second.waits (by omega) q, h.third.waits (by omega) q,
      outputs_snoc h.ema1 ?_, outputs_snoc h.ema2 ?_, outputs_snoc h.ema3 ?_, outputs_snoc h.line (hearly (by omega))⟩
    · rw [level_early hp (by omega)]
    · rw [level_early hp (by omega)]
    · rw [level_early hp (by omega)]
  · obtain ⟨hfirst, hfirst'⟩ := h.first.first (by omega) hs
    have hema1 : d.nextEma1 source = some { d with
        ema1 := outputs (level d.period 1) (qs ++ [q]), ema1Prev := level d.period 1 (qs ++ [q]), ema1Initialized := true } := by
      rw [nextEma1, hfirst, ← outputs_snoc h.ema1 rfl]
      rfl
    rw [hema1, Option.bind_eq_bind, Option.bind_some]
    dsimp only
    rw [Driven.length_outputs, hlen]
    by_cases hready : qs.length + 1 < 2 * d.period - 1
    · rw [if_pos hready]
      refine ⟨_, rfl, rfl, rfl, hfirst', h.second.waits (by omega) q, h.third.waits (by omega) q, rfl, outputs_snoc h.ema2 ?_,
        outputs_snoc h.ema3 ?_, outputs_snoc h.line (hearly (by omega))⟩
      · rw [level_early hp (by omega)]
      · rw [level_early hp (by omega)]
    · obtain ⟨hsecond, hsecond'⟩ := h.second.level (q := q) (j := 2) rfl (by omega)
      rw [if_neg hready, nextEma2]
      dsimp only
      rw [hsecond, Option.bind_eq_bind, Option.bind_some, Option.pure_def, Option.bind_some]
      dsimp only
      rw [outputs_snoc h.ema2 rfl, Driven.length_outputs, hlen]
      by_cases hlast : qs.length + 1 < 3 * d.period - 2
      · rw [if_pos hlast]
        refine ⟨_, rfl, rfl, rfl, hfirst', hsecond', h.third.waits (by omega) q, rfl, rfl, outputs_snoc h.ema3 ?_,
          outputs_snoc h.line (hearly (by omega))⟩
        rw [level_early hp (by omega)]
      · obtain ⟨hthird, hthird'⟩ := h.third.level (q := q) (j := 3) rfl (by omega)
        rw [if_neg hlast, nextEma3]
        dsimp only
        rw [hthird, Option.bind_eq_bind, Option.bind_some, outputs_snoc h.ema3 rfl, Option.pure_def, Option.bind_some]
        exact ⟨_, nextLine_nests hp rfl h.line rfl rfl, rfl, rfl, hfirst', hsecond', hthird', rfl, rfl, rfl, rfl⟩

end Trix

/-! ### T3 -/

namespace T3Stage
variable {p k : Nat} {qs ys : List ℚ} {q y : ℚ} {s : T3Stage OrNan} {stages : List (T3Stage OrNan)}

/-- A stage over the values: the sum of the values until it begins, the average after. -/
structure Over (p : Nat) (ys : List ℚ) (s : T3Stage OrNan) : Prop where
  pos : 0 < p
  begun : s.initialized = decide (p ≤ ys.length)
  seed : ys.length < p → s.seedSum = .num ys.sum ∧ s.seedCount = ys.length
  last : p ≤ ys.length → s.prev = newest (ema (rate p) p ys)

theorem over_nil (hp : 0 < p) : Over p [] { prev := 0, seedSum := 0 } where
  pos := hp
  begun := (decide_eq_false hp.not_ge).symm
  seed _ := ⟨rfl, rfl⟩
  last h := absurd h hp.not_ge

theorem Over.stage (h : s.Over p ys) : Stage p ys s.initialized s.prev := ⟨h.pos, h.begun, h.last⟩

theorem Over.advance (h : s.Over p ys) (y : ℚ) :
    (s.advance p (.num y)).1 = newest (ema (rate p) p (ys ++ [y])) ∧ (s.advance p (.num y)).2.Over p (ys ++ [y]) := by
  have hlen : (ys ++ [y]).length = ys.length + 1 := by simp
  unfold T3Stage.advance
  rw [OrNan.isNaN_num, if_neg Bool.false_ne_true, h.begun]
  rcases Nat.lt_or_ge ys.length p with hlt | hge
  · obtain ⟨hsum, hcount⟩ := h.seed hlt
    have hsum' : (OrNan.num ys.sum + .num y) = .num (ys ++ [y]).sum := by simp
    rw [decide_eq_false hlt.not_ge, if_pos (by rfl), hsum, hcount, hsum']
    dsimp only
    split_ifs with hfew
    · rw [Smoothing.ema_of_lt (by omega)]
      exact ⟨rfl, h.pos, (decide_eq_false (by omega)).symm, fun _ => ⟨rfl, hlen.symm⟩, fun hle => absurd hle (by omega)⟩
    · have hfull : (ys ++ [y]).length = p := by omega
      have hcount : (p : ℚ) ≠ 0 := by exact_mod_cast h.pos.ne'
      have hmean : OrNan.num (ys ++ [y]).sum / Arith.ofCount p = newest (ema (rate p) p (ys ++ [y])) := by
        rw [OrNan.ofCount_eq, OrNan.num_div hcount, Smoothing.ema_seed hfull, mean, hfull]
        rfl
      exact ⟨hmean, h.pos, (decide_eq_true hfull.ge).symm, fun hlt => absurd hlt hfull.ge.not_gt, fun _ => hmean⟩
  · have hadvance := h.stage.advance hge y
    have hle : p ≤ (ys ++ [y]).length := by omega
    rw [decide_eq_true hge, if_neg (by simp)]
    exact ⟨hadvance, h.pos, (decide_eq_true hle).symm, fun hlt => absurd hlt hle.not_gt, fun _ => hadvance⟩

/-- The stage over a level puts out the next one. -/
theorem Over.level (h : s.Over p (nested (rate p) p qs k)) (q : ℚ) :
    (s.advance p (level p k (qs ++ [q]))).1 = level p (k + 1) (qs ++ [q]) ∧
      (s.advance p (level p k (qs ++ [q]))).2.Over p (nested (rate p) p (qs ++ [q]) k) := by
  have hp := h.pos
  rcases Nat.lt_or_ge (k * (p - 1)) (qs.length + 1) with hlt | hge
  · obtain ⟨y, hy, hnested⟩ := nested_step hp (q := q) hlt
    rw [hy, hnested, Indicators.level, nested, hnested]
    exact h.advance y
  · have hge' : (qs ++ [q]).length ≤ k * (p - 1) := by simpa using hge
    have hnext : (qs ++ [q]).length ≤ (k + 1) * (p - 1) := by rw [Nat.succ_mul]; omega
    rw [nested_early hp (show qs.length ≤ k * (p - 1) by omega)] at h
    rw [level_early hp hge', level_early hp hnext, nested_early hp hge']
    exact ⟨rfl, h⟩

/-- The stages from level `k` on. -/
def Levels (p : Nat) (qs : List ℚ) : Nat → List (T3Stage OrNan) → Prop
  | _, [] => True
  | k, s :: stages => s.Over p (nested (rate p) p qs k) ∧ Levels p qs (k + 1) stages

theorem levels_replicate (hp : 0 < p) (n k : Nat) : Levels p [] k (.replicate n { prev := 0, seedSum := 0 }) := by
  induction n generalizing k with
  | zero => trivial
  | succ n ih =>
    refine ⟨?_, ih (k + 1)⟩
    rw [nested_early hp (Nat.zero_le _)]
    exact over_nil hp

theorem Levels.cascade (h : Levels p qs k stages) (q : ℚ) :
    (T3Stage.cascade p (level p k (qs ++ [q])) stages).1 =
        (List.range' (k + 1) stages.length).map (level p · (qs ++ [q])) ∧
      Levels p (qs ++ [q]) k (T3Stage.cascade p (level p k (qs ++ [q])) stages).2 ∧
      (T3Stage.cascade p (level p k (qs ++ [q])) stages).2.length = stages.length := by
  induction stages generalizing k with
  | nil => exact ⟨rfl, trivial, rfl⟩
  | cons s stages ih =>
    obtain ⟨hs, hstages⟩ := h
    obtain ⟨hout, hover⟩ := hs.level q
    obtain ⟨houts, hlevels, hlen⟩ := ih hstages
    unfold T3Stage.cascade
    dsimp only
    rw [hout]
    refine ⟨?_, ⟨hover, hlevels⟩, congrArg (· + 1) hlen⟩
    rw [houts, List.length_cons, List.range'_succ, List.map_cons]

end T3Stage

namespace T3MovingAverage
variable {p : Nat} {qs : List ℚ} {q : ℚ} {a : OrNan} {t : T3MovingAverage OrNan} {source : Line OrNan}

structure Nests (p : Nat) (a : OrNan) (qs : List ℚ) (t : T3MovingAverage OrNan) : Prop where
  pos : 0 < p
  period : t.period = p
  factor : t.a = a
  six : t.stages.length = 6
  stages : T3Stage.Levels p qs 0 t.stages
  line : t.line = outputs (fun qs => combine a (level p 3 qs) (level p 4 qs) (level p 5 qs) (level p 6 qs)) qs

theorem init_nests (hp : 0 < p) (a : OrNan) : Nests p a [] (init p a) :=
  ⟨hp, if_neg hp.ne', rfl, List.length_replicate, T3Stage.levels_replicate hp 6 0, rfl⟩

/-- The guard only says again what the combination gives of NaN. -/
theorem combine_of_nan {a e3 e4 e5 e6 : OrNan} :
    (if isNaN e3 || isNaN e4 || isNaN e5 || isNaN e6 then nan else combine a e3 e4 e5 e6) = combine a e3 e4 e5 e6 := by
  rcases e3 with _ | _ <;> rcases e4 with _ | _ <;> rcases e5 with _ | _ <;> rcases e6 with _ | _ <;> simp [combine]

theorem Nests.next (h : t.Nests p a qs) (hs : Sourced ((qs ++ [q]).map OrNan.num) source) :
    ∃ t', t.next source = some t' ∧ t'.Nests p a (qs ++ [q]) := by
  have hcurrent : source.data[source.idx]? = some (level t.period 0 (qs ++ [q])) := by
    rw [hs.cursor, hs.data, level, nested, newest_concat]
    simp
  obtain ⟨houts, hlevels, hlen⟩ := h.stages.cascade q
  obtain rfl := h.period
  obtain rfl := h.factor
  rw [h.six] at houts
  have hcascade : T3Stage.cascade t.period (level t.period 0 (qs ++ [q])) t.stages =
      ([level t.period 1 (qs ++ [q]), level t.period 2 (qs ++ [q]), level t.period 3 (qs ++ [q]), level t.period 4 (qs ++ [q]),
        level t.period 5 (qs ++ [q]), level t.period 6 (qs ++ [q])],
        (T3Stage.cascade t.period (level t.period 0 (qs ++ [q])) t.stages).2) := Prod.ext houts rfl
  unfold T3MovingAverage.next
  rw [hcurrent, Option.bind_eq_bind, Option.bind_some, hcascade]
  exact ⟨_, rfl, h.pos, rfl, rfl, hlen.trans h.six, hlevels, outputs_snoc h.line combine_of_nan⟩

end T3MovingAverage

/-! ### EMA -/

namespace EMA
variable {p : Nat} {ys : List ℚ} {y : ℚ} {e : EMA OrNan} {source : Line OrNan}

structure Nests (p : Nat) (ys : List ℚ) (e : EMA OrNan) : Prop where
  period : e.period = p
  stage : Stage p ys e.initialized e.prevEma
  line : e.line = outputs (level p 1) ys

theorem init_nests (hp : 0 < p) : Nests p [] (init p) := ⟨if_neg hp.ne', .nil hp _, rfl⟩

theorem Nests.next (h : e.Nests p ys) (hs : Sourced ((ys ++ [y]).map OrNan.num) source) :
    ∃ e', e.next source = some e' ∧ e'.Nests p (ys ++ [y]) := by
  have hp := h.stage.pos
  have hlen : (ys ++ [y]).length = ys.length + 1 := by simp
  have hidx : source.idx = ys.length := by rw [hs.cursor]; simp
  obtain rfl := h.period
  unfold EMA.next
  rw [hidx]
  split_ifs with hearly
  · refine ⟨_, rfl, rfl, h.stage.early (by omega) (by omega), outputs_snoc h.line ?_⟩
    rw [level_early hp (by omega)]
  · obtain ⟨haverage, hstage⟩ := Stage.first h.stage (by omega) hs
    rw [haverage]
    exact ⟨_, rfl, rfl, hstage, outputs_snoc h.line rfl⟩

theorem over_eq (hp : 0 < p) (ys : List ℚ) : EMA.over p (ys.map OrNan.num) = some (outputs (level p 1) ys) := by
  obtain ⟨l, e, hover, he⟩ := overSource_nums (Nests p) (init_nests hp) (fun _ _ _ _ hl he => he.next hl) ys
  rw [EMA.over, hover, Option.map_some, he.line]

end EMA

/-- The suffix after the NaN values. -/
theorem span_isNaN (n : Nat) (ys : List ℚ) :
    (List.replicate n nan ++ ys.map OrNan.num).takeWhile isNaN = List.replicate n nan ∧
      (List.replicate n nan ++ ys.map OrNan.num).dropWhile isNaN = ys.map OrNan.num := by
  have hnan : ∀ x ∈ List.replicate n (nan : OrNan), isNaN x = true := fun x hx => List.eq_of_mem_replicate hx ▸ rfl
  rw [List.takeWhile_append_of_pos hnan, List.dropWhile_append_of_pos hnan]
  cases ys with
  | nil => simp
  | cons y ys => simp

/-- Each level is what `EMA` gives of the numbers of the one before. -/
theorem emaLine_eq {p : Nat} (hp : 0 < p) (qs : List ℚ) (k : Nat) :
    emaLine p (qs.map OrNan.num) k = some (outputs (level p k) qs) := by
  induction k with
  | zero =>
    have hlen : (nested (rate p) p qs 0).length = qs.length := rfl
    rw [emaLine, outputs_level hp, hlen, Nat.sub_self]
    rfl
  | succ k ih =>
    obtain ⟨htake, hdrop⟩ := span_isNaN (qs.length - (nested (rate p) p qs k).length) (nested (rate p) p qs k)
    have hnext : nested (rate p) p (nested (rate p) p qs k) 1 = nested (rate p) p qs (k + 1) := rfl
    have hlen := Smoothing.length_nested hp (rate p) qs k
    have hlen' := Smoothing.length_nested hp (rate p) qs (k + 1)
    rw [Nat.succ_mul] at hlen'
    rw [emaLine, ih, Option.bind_some, emaOfSuffix, outputs_level hp, hdrop, htake, EMA.over_eq hp, Option.map_some,
      outputs_level hp, outputs_level hp, hnext, ← List.append_assoc, List.replicate_append_replicate]
    congr 4
    omega

/-! ### The outputs -/

/-- An output line of an indicator after `count` bars: NaN before the bar `ready`, counted from one, and from there as
`value` has it. -/
structure Puts (ready count : Nat) (value : Nat → OrNan → Prop) (out : List OrNan) : Prop where
  length : out.length = count
  before : ∀ t x, out[t]? = some x → t + 1 < ready → x = nan
  after : ∀ t x, out[t]? = some x → ready ≤ t + 1 → value t x

theorem puts_outputs {f : List ℚ → OrNan} {qs : List ℚ} {ready : Nat} {value : Nat → OrNan → Prop}
    (hbefore : ∀ done : List ℚ, done.length < ready → f done = nan)
    (hafter : ∀ t < qs.length, ready ≤ t + 1 → value t (f (qs.take (t + 1)))) : Puts ready qs.length value (outputs f qs) := by
  have hread : ∀ t x, (outputs f qs)[t]? = some x → t < qs.length ∧ x = f (qs.take (t + 1)) := by
    intro t x hx
    have ht : t < qs.length := Driven.length_outputs f qs ▸ (List.getElem?_eq_some_iff.1 hx).1
    rw [Driven.getElem?_outputs ht] at hx
    exact ⟨ht, (Option.some.inj hx).symm⟩
  refine ⟨Driven.length_outputs f qs, fun t x hx hlt => ?_, fun t x hx hle => ?_⟩
  · obtain ⟨ht, rfl⟩ := hread t x hx
    refine hbefore _ ?_
    rw [List.length_take]
    omega
  · obtain ⟨ht, rfl⟩ := hread t x hx
    exact hafter t ht hle

/-- A level as it stands on the bar `t`. -/
theorem level_read {p : Nat} (hp : 0 < p) {k t : Nat} {qs : List ℚ} (ht : t < qs.length) (h : k * (p - 1) < t + 1) :
    ∃ y, level p k (qs.take (t + 1)) = .num y ∧ (outputs (level p k) qs)[t]? = some (.num y) := by
  have hpos : 0 < (nested (rate p) p (qs.take (t + 1)) k).length := by
    rw [Smoothing.length_nested hp, List.length_take]
    omega
  obtain ⟨y, -, hy⟩ := newest_of_pos hpos
  exact ⟨y, hy, by rw [Driven.getElem?_outputs ht]; exact congrArg some hy⟩

/-- The cubic combination of T3, `v` being the volume factor. -/
def cubic (v e3 e4 e5 e6 : ℚ) : ℚ :=
  -v ^ 3 * e6 + (3 * v ^ 2 + 3 * v ^ 3) * e5 + (-6 * v ^ 2 - 3 * v - 3 * v ^ 3) * e4 + (1 + 3 * v + 3 * v ^ 2 + v ^ 3) * e3

theorem combine_num (v e3 e4 e5 e6 : ℚ) :
    T3MovingAverage.combine (.num v) (.num e3) (.num e4) (.num e5) (.num e6) = OrNan.num (cubic v e3 e4 e5 e6) := by
  simp only [T3MovingAverage.combine, OrNan.ofScientific_eq, OrNan.one_eq, OrNan.num_mul, OrNan.num_add, OrNan.num_sub,
    OrNan.num_neg, cubic]
  congr 1
  norm_num
  ring

/-- With `e k` the line of the `k`-th of the averages, each of the numbers of the one before, from the bar on that the
last of them begins: DEMA is `2 e1 - e2`, TEMA is `3 e1 - 3 e2 + e3`, Trix is the rate of change of `e3`, and T3 is the
cubic combination of `e3` to `e6`. -/
theorem nested_averages {p : Nat} (hp : 0 < p) {values : List OrNan} (hvalues : ∀ x ∈ values, IsNum x) :
    ∃ e : Nat → List OrNan, (∀ k, emaLine p values k = some (e k)) ∧
      (∃ l d, overSource DoubleExponentialMovingAverage.next (.init p) values = some (l, d) ∧
        Puts (2 * p - 1) values.length (fun t x => ∃ a b, (e 1)[t]? = some (.num a) ∧ (e 2)[t]? = some (.num b) ∧
          x = .num (2 * a - b)) d.line) ∧
      (∃ l d, overSource TripleExponentialMovingAverage.next (.init p) values = some (l, d) ∧
        Puts (3 * p - 2) values.length (fun t x => ∃ a b c, (e 1)[t]? = some (.num a) ∧ (e 2)[t]? = some (.num b) ∧
          (e 3)[t]? = some (.num c) ∧ x = .num (3 * a - 3 * b + c)) d.line) ∧
      (∀ roc, ∃ l d, overSource Trix.next (.init p roc) values = some (l, d) ∧
        Puts (3 * p - 2 + roc) values.length (fun t x => ∃ a b, (e 3)[t]? = some (.num a) ∧
          (e 3)[t - roc]? = some (.num b) ∧ (b ≠ 0 → x = .num (100 * (a / b - 1)))) d.line) ∧
      (∀ v, ∃ l d, overSource T3MovingAverage.next (.init p (.num v)) values = some (l, d) ∧
        Puts (6 * p - 5) values.length (fun t x => ∃ a b c d, (e 3)[t]? = some (.num a) ∧ (e 4)[t]? = some (.num b) ∧
          (e 5)[t]? = some (.num c) ∧ (e 6)[t]? = some (.num d) ∧ x = .num (cubic v a b c d)) d.line) := by
  obtain ⟨qs, rfl⟩ := OrNan.exists_nums hvalues
  rw [List.length_map]
  refine ⟨fun k => outputs (level p k) qs, emaLine_eq hp qs, ?_, ?_, fun roc => ?_, fun v => ?_⟩
  · obtain ⟨l, d, hover, hd⟩ := overSource_nums (DoubleExponentialMovingAverage.Nests p)
      (DoubleExponentialMovingAverage.init_nests hp) (fun _ _ _ _ hl hd => hd.next hl) qs
    refine ⟨l, d, hover, hd.line ▸ puts_outputs (fun done hdone => ?_) fun t ht hready => ?_⟩
    · rw [level_early (k := 2) hp (by omega), OrNan.nan_eq, OrNan.sub_nan]
    · obtain ⟨a, ha, hreada⟩ := level_read (k := 1) hp ht (by omega)
      obtain ⟨b, hb, hreadb⟩ := level_read (k := 2) hp ht (by omega)
      refine ⟨a, b, hreada, hreadb, ?_⟩
      rw [ha, hb, OrNan.ofScientific_eq, OrNan.num_mul, OrNan.num_sub]
      norm_num
  · obtain ⟨l, d, hover, hd⟩ := overSource_nums (TripleExponentialMovingAverage.Nests p)
      (TripleExponentialMovingAverage.init_nests hp) (fun _ _ _ _ hl hd => hd.next hl) qs
    refine ⟨l, d, hover, hd.line ▸ puts_outputs (fun done hdone => ?_) fun t ht hready => ?_⟩
    · rw [level_early (k := 3) hp (by omega), OrNan.nan_eq, OrNan.add_nan]
    · obtain ⟨a, ha, hreada⟩ := level_read (k := 1) hp ht (by omega)
      obtain ⟨b, hb, hreadb⟩ := level_read (k := 2) hp ht (by omega)
      obtain ⟨c, hc, hreadc⟩ := level_read (k := 3) hp ht (by omega)
      refine ⟨a, b, c, hreada, hreadb, hreadc, ?_⟩
      rw [ha, hb, hc, OrNan.ofScientific_eq, OrNan.num_mul, OrNan.num_mul, OrNan.num_sub, OrNan.num_add]
      norm_num
  · obtain ⟨l, d, hover, hd⟩ := overSource_nums (Trix.Nests p roc) (Trix.init_nests hp roc)
      (fun _ _ _ _ hl hd => hd.next hl) qs
    refine ⟨l, d, hover, hd.line ▸ puts_outputs (fun done hdone => Trix.change_early hp (by omega)) fun t ht hready => ?_⟩
    obtain ⟨a, ha, hreada⟩ := level_read (k := 3) hp ht (by omega)
    obtain ⟨b, hb, hreadb⟩ := level_read (k := 3) (t := t - roc) hp (by omega : t - roc < qs.length) (by omega)
    refine ⟨a, b, hreada, hreadb, fun hne => ?_⟩
    have hback : (qs.take (t + 1)).take ((qs.take (t + 1)).length - roc) = qs.take (t - roc + 1) := by
      rw [List.length_take, List.take_take]
      congr 1
      omega
    rw [Trix.change, hback, ha, hb, OrNan.num_div hne, OrNan.one_eq, OrNan.num_sub, OrNan.ofScientific_eq, OrNan.num_mul]
    norm_num
  · obtain ⟨l, d, hover, hd⟩ := overSource_nums (T3MovingAverage.Nests p (.num v)) (T3MovingAverage.init_nests hp (.num v))
      (fun _ _ _ _ hl hd => hd.next hl) qs
    refine ⟨l, d, hover, hd.line ▸ puts_outputs (fun done hdone => ?_) fun t ht hready => ?_⟩
    · rw [level_early (k := 6) hp (by omega)]
      simp [T3MovingAverage.combine]
    · obtain ⟨a, ha, hreada⟩ := level_read (k := 3) hp ht (by omega)
      obtain ⟨b, hb, hreadb⟩ := level_read (k := 4) hp ht (by omega)
      obtain ⟨c, hc, hreadc⟩ := level_read (k := 5) hp ht (by omega)
      obtain ⟨d, hd, hreadd⟩ := level_read (k := 6) hp ht (by omega)
      exact ⟨a, b, c, d, hreada, hreadb, hreadc, hreadd, by rw [ha, hb, hc, hd, combine_num]⟩

theorem nested_averages_two : ∃ e1 e2 l d, emaLine 2 [OrNan.num 1, .num 2, .num 4] 1 = some e1 ∧
    emaLine 2 [OrNan.num 1, .num 2, .num 4] 2 = some e2 ∧
    overSource DoubleExponentialMovingAverage.next (.init 2) [.num 1, .num 2, .num 4] = some (l, d) ∧
    ∃ a b, e1[2]? = some (.num a) ∧ e2[2]? = some (.num b) ∧ d.line[2]? = some (OrNan.num (2 * a - b)) := by
  obtain ⟨e, he, ⟨l, d, hover, hputs⟩, -⟩ := nested_averages (p := 2) (by norm_num)
    (show ∀ x ∈ [OrNan.num 1, .num 2, .num 4], IsNum x by simp)
  have hlen : 2 < d.line.length := by simp [hputs.length]
  have hline := List.getElem?_eq_getElem hlen
  obtain ⟨a, b, ha, hb, hx⟩ := hputs.after 2 _ hline (by norm_num)
  exact ⟨e 1, e 2, l, d, he 1, he 2, hover, a, b, ha, hb, hline.trans (congrArg some hx)⟩

end Indicators

end StratForge
