import StratForge.LookBack
import StratForge.SignChanges

/-!
# Crossings of two lines (`indicators/crossover.hpp`)

`CrossUp` and `CrossDown` look back in a line of differences that repeats its last value through zeros, `CrossOver`
keeps the last difference other than zero itself. Both come down to the crossings of the series of differences
(`SignChanges.crossedAt`), so they agree (`crossovers_agree`).
-/

namespace StratForge
namespace Indicators
open Floating (nan isNaN)

section
variable {α : Type} [Arith α] [Floating α]

structure NonZeroDifference (α : Type) where
  line : List α := []

def NonZeroDifference.next (lines : Line α × Line α) (z : NonZeroDifference α) : Option (NonZeroDifference α) := do
  let curr1 ← lines.1.data[lines.1.idx]?
  let curr2 ← lines.2.data[lines.2.idx]?
  if isNaN curr1 || isNaN curr2 then return { z with line := z.line ++ [nan] }
  let diff := curr1 - curr2
  if z.line.isEmpty then return { z with line := z.line ++ [diff] }
  let back ← z.line.getLast?
  return { z with line := z.line ++ [if diff == 0 then back else diff] }

/-- `CrossUp` and `CrossDown`, which differ in what a cross is. -/
structure CrossOneWay (α : Type) where
  nzd : NonZeroDifference α := {}
  line : List α := []

def CrossOneWay.next (crosses : α → α → α → Bool) (lines : Line α × Line α) (c : CrossOneWay α) : Option (CrossOneWay α) := do
  let curr1 ← lines.1.data[lines.1.idx]?
  let curr2 ← lines.2.data[lines.2.idx]?
  let nzd ← c.nzd.next lines
  if isNaN curr1 || isNaN curr2 || decide (nzd.line.length < 2) then return { nzd, line := c.line ++ [nan] }
  let prevDiff ← nzd.line[nzd.line.length - 2]?
  return { nzd, line := c.line ++ [if crosses prevDiff curr1 curr2 then 1 else 0] }

def CrossUp.next : Line α × Line α → CrossOneWay α → Option (CrossOneWay α) :=
  CrossOneWay.next fun prevDiff curr1 curr2 => decide (prevDiff < 0) && decide (curr2 < curr1)

def CrossDown.next : Line α × Line α → CrossOneWay α → Option (CrossOneWay α) :=
  CrossOneWay.next fun prevDiff curr1 curr2 => decide (0 < prevDiff) && decide (curr1 < curr2)

structure CrossOver (α : Type) where
  line : List α := []
  lastNonZeroDiff : α
  nonZeroInitialized : Bool := false

namespace CrossOver

def init : CrossOver α := { lastNonZeroDiff := 0 }

/-- On the first pair of numbers. -/
def begin (curr1 curr2 : α) (c : CrossOver α) : CrossOver α :=
  { line := c.line ++ [nan], lastNonZeroDiff := curr1 - curr2, nonZeroInitialized := true }

def detect (curr1 curr2 : α) (c : CrossOver α) : CrossOver α :=
  let diff := curr1 - curr2
  let referenceDiff := if c.nonZeroInitialized then c.lastNonZeroDiff else diff
  let crossUp := decide (referenceDiff < 0) && decide (curr2 < curr1)
  let crossDown := decide (0 < referenceDiff) && decide (curr1 < curr2)
  { line := c.line ++ [if crossUp then 1 else if crossDown then -1 else 0]
    lastNonZeroDiff := if diff == 0 then c.lastNonZeroDiff else diff
    nonZeroInitialized := if diff == 0 then c.nonZeroInitialized else true }

def next (lines : Line α × Line α) (c : CrossOver α) : Option (CrossOver α) := do
  let curr1 ← lines.1.data[lines.1.idx]?
  let curr2 ← lines.2.data[lines.2.idx]?
  if isNaN curr1 || isNaN curr2 then return { c with line := c.line ++ [nan] }
  if lines.1.idx == 0 || lines.2.idx == 0 then return c.begin curr1 curr2
  let prev1 ← lines.1.data[lines.1.idx - 1]?
  let prev2 ← lines.2.data[lines.2.idx - 1]?
  if isNaN prev1 || isNaN prev2 then return c.begin curr1 curr2
  return c.detect curr1 curr2

end CrossOver

/-! ### Over two lines -/

def forwardBoth (lines : Line α × Line α) (x : α × α) : Line α × Line α := (lines.1.forward x.1, lines.2.forward x.2)

/-- The indicator after the values of both lines, from bar 0 on. -/
def overPair {S : Type} (next : Line α × Line α → S → Option S) (s : S) (values : List (α × α)) : Option ((Line α × Line α) × S) :=
  Driven.run forwardBoth next (({}, {}), s) values

end

/-- NaN on the first `k` bars, and numbers on the others. -/
def late (k : Nat) (ps : List (ℚ × ℚ)) : List (OrNan × OrNan) :=
  List.replicate k (.nan, .nan) ++ ps.map fun p => (.num p.1, .num p.2)

@[simp] theorem length_late (k : Nat) (ps : List (ℚ × ℚ)) : (late k ps).length = k + ps.length := by simp [late]

theorem late_concat (k : Nat) (ps : List (ℚ × ℚ)) (p : ℚ × ℚ) : late k (ps ++ [p]) = late k ps ++ [(.num p.1, .num p.2)] := by
  simp [late]

theorem late_succ (k : Nat) : late (k + 1) [] = late k [] ++ [(.nan, .nan)] := by
  simp [late, List.replicate_succ']

/-- Both lines after the values. -/
structure Paired (values : List (OrNan × OrNan)) (lines : Line OrNan × Line OrNan) : Prop where
  first : Sourced (values.map Prod.fst) lines.1
  second : Sourced (values.map Prod.snd) lines.2

section
variable {S : Type} {next : Line OrNan × Line OrNan → S → Option S} {s : S} {k : Nat} {ps : List (ℚ × ℚ)} {p : ℚ × ℚ}
  {values : List (OrNan × OrNan)} {x : OrNan × OrNan} {lines : Line OrNan × Line OrNan}

theorem Paired.forward (h : Paired values lines) (x : OrNan × OrNan) : Paired (values ++ [x]) (forwardBoth lines x) where
  first := by
    rw [List.map_append]
    exact h.first.forward x.1
  second := by
    rw [List.map_append]
    exact h.second.forward x.2

theorem Paired.current (h : Paired (values ++ [x]) lines) :
    lines.1.data[lines.1.idx]? = some x.1 ∧ lines.2.data[lines.2.idx]? = some x.2 := by
  constructor
  · rw [h.first.data, h.first.cursor]
    simp
  · rw [h.second.data, h.second.cursor]
    simp

theorem Paired.idx (h : Paired (values ++ [x]) lines) : lines.1.idx = values.length ∧ lines.2.idx = values.length :=
  ⟨by simp [h.first.cursor], by simp [h.second.cursor]⟩

theorem Paired.previous {y : OrNan × OrNan} (h : Paired (values ++ [y] ++ [x]) lines) :
    lines.1.data[lines.1.idx - 1]? = some y.1 ∧ lines.2.data[lines.2.idx - 1]? = some y.2 := by
  constructor
  · rw [h.first.data, h.first.cursor]
    simp
  · rw [h.second.data, h.second.cursor]
    simp

/-- What a bar of NaN keeps, and a bar of numbers after such bars, holds after all bars. -/
theorem overPair_ind (P : Nat → List (ℚ × ℚ) → S → Prop) (h0 : P 0 [] s)
    (hnan : ∀ k lines s, Paired (late k [] ++ [(.nan, .nan)]) lines → P k [] s → ∃ s', next lines s = some s' ∧ P (k + 1) [] s')
    (hnum : ∀ k ps p lines s, Paired (late k ps ++ [(.num p.1, .num p.2)]) lines → P k ps s →
      ∃ s', next lines s = some s' ∧ P k (ps ++ [p]) s') (k : Nat) (ps : List (ℚ × ℚ)) :
    ∃ lines s', overPair next s (late k ps) = some (lines, s') ∧ Paired (late k ps) lines ∧ P k ps s' := by
  have hconcat : ∀ values x lines s' s'', overPair next s values = some (lines, s') →
      next (forwardBoth lines x) s' = some s'' → overPair next s (values ++ [x]) = some (forwardBoth lines x, s'') := by
    intro values x lines s' s'' hrun hnext
    have hrun : Driven.run forwardBoth next (({}, {}), s) values = some (lines, s') := hrun
    rw [overPair, Driven.run_concat, hrun, Option.bind_some]
    exact Driven.step_eq_some.2 ⟨hnext, rfl⟩
  induction ps using List.reverseRecOn with
  | nil =>
    induction k with
    | zero => exact ⟨_, s, rfl, ⟨⟨rfl, rfl⟩, ⟨rfl, rfl⟩⟩, h0⟩
    | succ k ih =>
      obtain ⟨lines, s', hrun, hlines, hP⟩ := ih
      obtain ⟨s'', hnext, hP'⟩ := hnan k _ s' (hlines.forward (.nan, .nan)) hP
      rw [late_succ]
      exact ⟨_, s'', hconcat _ _ _ _ _ hrun hnext, hlines.forward _, hP'⟩
  | append_singleton ps p ih =>
    obtain ⟨lines, s', hrun, hlines, hP⟩ := ih
    obtain ⟨s'', hnext, hP'⟩ := hnum k ps p _ s' (hlines.forward (.num p.1, .num p.2)) hP
    rw [late_concat]
    exact ⟨_, s'', hconcat _ _ _ _ _ hrun hnext, hlines.forward _, hP'⟩

end

/-! ### The differences -/

open SignChanges (memory crossing crossedAt)

def diffs (ps : List (ℚ × ℚ)) : List ℚ := ps.map fun p => p.1 - p.2

theorem diffs_concat (ps : List (ℚ × ℚ)) (p : ℚ × ℚ) : diffs (ps ++ [p]) = diffs ps ++ [p.1 - p.2] := by simp [diffs]

@[simp] theorem length_diffs (ps : List (ℚ × ℚ)) : (diffs ps).length = ps.length := by simp [diffs]

/-- The number, where NaN also stands for zero. -/
def Recalls (x : OrNan) (m : ℚ) : Prop := x = .num m ∨ x = .nan ∧ m = 0

/-- From the second number on the outputs are those of the crossings. -/
structure Marked (g : SignType → ℚ) (k : Nat) (ps : List (ℚ × ℚ)) (out : List OrNan) : Prop where
  length : out.length = k + ps.length
  marks : ∀ j, 0 < j → j < ps.length → out[k + j]? = some (.num (g (crossedAt (diffs ps) j)))

section
variable {g : SignType → ℚ} {k : Nat} {ps : List (ℚ × ℚ)} {p : ℚ × ℚ} {out : List OrNan} {x : OrNan}
  {lines : Line OrNan × Line OrNan}

theorem Marked.nil : Marked g 0 [] [] := ⟨rfl, fun _ _ h => absurd h (Nat.not_lt_zero _)⟩

theorem Marked.early (h : Marked g k [] out) (x : OrNan) : Marked g (k + 1) [] (out ++ [x]) :=
  ⟨by simp [h.length], fun _ _ hj => absurd hj (Nat.not_lt_zero _)⟩

theorem Marked.snoc (h : Marked g k ps out) (hx : 0 < ps.length → x = .num (g (crossing (memory (diffs ps)) (p.1 - p.2)))) :
    Marked g k (ps ++ [p]) (out ++ [x]) := by
  refine ⟨by rw [List.length_append, List.length_append, h.length]; rfl, fun j hpos hj => ?_⟩
  rw [List.length_append, List.length_singleton] at hj
  rw [diffs_concat]
  rcases Nat.lt_succ_iff_lt_or_eq.1 hj with hlt | rfl
  · rw [List.getElem?_append_left (by rw [h.length]; omega), h.marks j hpos hlt,
      SignChanges.crossedAt_append _ (by rw [length_diffs]; exact hlt)]
  · have hlast := SignChanges.crossedAt_last (diffs ps) (p.1 - p.2)
    rw [length_diffs] at hlast
    rw [← h.length, List.getElem?_concat_length, hx hpos, hlast]

/-! ### The line of differences -/

structure NonZeroDifference.After (k : Nat) (ps : List (ℚ × ℚ)) (z : NonZeroDifference OrNan) : Prop where
  length : z.line.length = k + ps.length
  last : ∀ x, z.line.getLast? = some x → Recalls x (memory (diffs ps))

namespace NonZeroDifference
variable {z : NonZeroDifference OrNan}

theorem After.early (h : z.After k []) (hs : Paired (late k [] ++ [(.nan, .nan)]) lines) :
    z.next lines = some { line := z.line ++ [nan] } ∧ After (k + 1) [] { line := z.line ++ [nan] } := by
  obtain ⟨hcurr1, hcurr2⟩ := hs.current
  constructor
  · rw [NonZeroDifference.next, hcurr1, hcurr2]
    rfl
  · refine ⟨by simp [h.length], fun x hx => ?_⟩
    rw [List.getLast?_concat, Option.some.injEq] at hx
    exact .inr ⟨hx.symm, rfl⟩

theorem After.next (h : z.After k ps) (hs : Paired (late k ps ++ [(.num p.1, .num p.2)]) lines) :
    ∃ x, z.next lines = some { line := z.line ++ [x] } ∧ After k (ps ++ [p]) { line := z.line ++ [x] } := by
  obtain ⟨hcurr1, hcurr2⟩ := hs.current
  suffices hrecall : ∃ x, z.next lines = some { line := z.line ++ [x] } ∧ Recalls x (memory (diffs (ps ++ [p]))) by
    obtain ⟨x, hnext, hx⟩ := hrecall
    refine ⟨x, hnext, by simp [h.length]; omega, fun y hy => ?_⟩
    rw [List.getLast?_concat, Option.some.injEq] at hy
    exact hy ▸ hx
  rw [diffs_concat, SignChanges.memory_concat, NonZeroDifference.next, hcurr1, hcurr2]
  simp only [Option.bind_eq_bind, Option.bind_some, OrNan.isNaN_num, Bool.or_self, Bool.false_eq_true, if_false, OrNan.num_sub]
  by_cases hempty : z.line = []
  · obtain rfl : ps = [] := by
      have hlen := h.length
      rw [hempty] at hlen
      exact List.length_eq_zero_iff.1 (by simp at hlen; omega)
    refine ⟨.num (p.1 - p.2), by rw [hempty]; rfl, .inl ?_⟩
    split_ifs with hd
    · rw [hd]
      rfl
    · rfl
  · obtain ⟨x, hx⟩ := Option.isSome_iff_exists.1 (List.getLast?_isSome.2 hempty)
    rw [if_neg (by simpa using hempty), hx, Option.bind_some]
    by_cases hd : p.1 - p.2 = 0
    · exact ⟨x, by simp [OrNan.zero_eq, hd], by rw [if_pos hd]; exact h.last x hx⟩
    · exact ⟨.num (p.1 - p.2), by simp [OrNan.zero_eq, hd], by rw [if_neg hd]; exact .inl rfl⟩

end NonZeroDifference

/-! ### Crossings one way -/

/-- The cross that the indicator looks for is the turn. -/
def Looks (crosses : OrNan → OrNan → OrNan → Bool) (turn : SignType) : Prop :=
  ∀ x m a b, Recalls x m → crosses x (.num a) (.num b) = decide (crossing m (a - b) = turn)

theorem looks_up : Looks (fun x a b => decide (x < 0) && decide (b < a)) 1 := by
  rintro x m a b (rfl | ⟨rfl, rfl⟩)
  · simp [SignChanges.crossing_eq_one, OrNan.zero_eq]
  · simp [SignChanges.crossing_eq_one]
    exact fun h => absurd h id

theorem looks_down : Looks (fun x a b => decide (0 < x) && decide (a < b)) (-1) := by
  rintro x m a b (rfl | ⟨rfl, rfl⟩)
  · simp [SignChanges.crossing_eq_neg_one, OrNan.zero_eq]
  · simp [SignChanges.crossing_eq_neg_one]
    exact fun h => absurd h id

/-- One on the turn. -/
def onTurn (turn s : SignType) : ℚ := if s = turn then 1 else 0

structure CrossOneWay.After (turn : SignType) (k : Nat) (ps : List (ℚ × ℚ)) (c : CrossOneWay OrNan) : Prop where
  nzd : c.nzd.After k ps
  line : Marked (onTurn turn) k ps c.line

namespace CrossOneWay
variable {c : CrossOneWay OrNan} {crosses : OrNan → OrNan → OrNan → Bool} {turn : SignType}

theorem After.early (h : c.After turn k []) (hs : Paired (late k [] ++ [(.nan, .nan)]) lines) :
    ∃ c', c.next crosses lines = some c' ∧ c'.After turn (k + 1) [] := by
  obtain ⟨hcurr1, hcurr2⟩ := hs.current
  obtain ⟨hnzd, hafter⟩ := h.nzd.early hs
  refine ⟨{ nzd := { line := c.nzd.line ++ [.nan] }, line := c.line ++ [nan] }, ?_, hafter, h.line.early nan⟩
  rw [CrossOneWay.next, hcurr1, hcurr2, hnzd]
  rfl

theorem After.next (h : c.After turn k ps) (hlooks : Looks crosses turn)
    (hs : Paired (late k ps ++ [(.num p.1, .num p.2)]) lines) :
    ∃ c', c.next crosses lines = some c' ∧ c'.After turn k (ps ++ [p]) := by
  obtain ⟨hcurr1, hcurr2⟩ := hs.current
  obtain ⟨x, hnzd, hafter⟩ := h.nzd.next hs
  have hlen : (c.nzd.line ++ [x]).length = k + ps.length + 1 := by rw [List.length_append, h.nzd.length]; rfl
  rw [CrossOneWay.next, hcurr1, hcurr2, hnzd]
  simp only [Option.bind_eq_bind, Option.bind_some, OrNan.isNaN_num, Bool.false_or, decide_eq_true_iff, hlen]
  by_cases hfew : k + ps.length + 1 < 2
  · rw [if_pos hfew]
    exact ⟨_, rfl, hafter, h.line.snoc fun hpos => absurd hpos (by omega)⟩
  · obtain ⟨y, hy⟩ := Option.isSome_iff_exists.1 (List.getLast?_isSome.2 (List.length_pos_iff.1
      (show 0 < c.nzd.line.length by rw [h.nzd.length]; omega)))
    have hprev : (c.nzd.line ++ [x])[k + ps.length + 1 - 2]? = some y := by
      rw [List.getElem?_append_left (by rw [h.nzd.length]; omega), ← hy, List.getLast?_eq_getElem?, h.nzd.length]
      rfl
    rw [if_neg hfew, hprev, Option.bind_some, hlooks y _ _ _ (h.nzd.last y hy)]
    refine ⟨_, rfl, hafter, h.line.snoc fun _ => ?_⟩
    unfold onTurn
    by_cases hturn : crossing (memory (diffs ps)) (p.1 - p.2) = turn
    · rw [if_pos (decide_eq_true hturn), if_pos hturn]
      rfl
    · rw [if_neg (by simpa using hturn), if_neg hturn]
      rfl

theorem runs (hlooks : Looks crosses turn) (k : Nat) (ps : List (ℚ × ℚ)) :
    ∃ lines c, overPair (CrossOneWay.next crosses) {} (late k ps) = some (lines, c) ∧ Marked (onTurn turn) k ps c.line := by
  have hinit : After turn 0 [] {} := ⟨⟨rfl, fun x hx => absurd hx (by simp)⟩, .nil⟩
  obtain ⟨lines, c, hrun, -, hafter⟩ := overPair_ind (After turn) hinit
    (fun k lines c hs h => h.early hs) (fun k ps p lines c hs h => h.next hlooks hs) k ps
  exact ⟨lines, c, hrun, hafter.line⟩

end CrossOneWay

/-! ### Crossings both ways -/

namespace CrossOver
variable {c : CrossOver OrNan}

structure After (k : Nat) (ps : List (ℚ × ℚ)) (c : CrossOver OrNan) : Prop where
  line : Marked (fun s => (s : ℚ)) k ps c.line
  initialized : ps ≠ [] → c.nonZeroInitialized = true
  last : ps ≠ [] → c.lastNonZeroDiff = .num (memory (diffs ps))

theorem After.early (h : c.After k []) (hs : Paired (late k [] ++ [(.nan, .nan)]) lines) :
    ∃ c', c.next lines = some c' ∧ c'.After (k + 1) [] := by
  obtain ⟨hcurr1, hcurr2⟩ := hs.current
  refine ⟨{ c with line := c.line ++ [nan] }, ?_, h.line.early nan, fun hne => absurd rfl hne, fun hne => absurd rfl hne⟩
  rw [CrossOver.next, hcurr1, hcurr2]
  rfl

/-- The first pair of numbers. -/
theorem After.begin (h : c.After k []) (p : ℚ × ℚ) : (c.begin (.num p.1) (.num p.2)).After k [p] := by
  refine ⟨h.line.snoc (p := p) fun hpos => absurd hpos (Nat.lt_irrefl 0), fun _ => rfl, fun _ => ?_⟩
  show OrNan.num (p.1 - p.2) = .num (memory [p.1 - p.2])
  rw [show memory [p.1 - p.2] = if p.1 - p.2 = 0 then 0 else p.1 - p.2 from rfl]
  split_ifs with hd
  · rw [hd]
  · rfl

theorem After.detect (h : c.After k ps) (hne : ps ≠ []) (p : ℚ × ℚ) : (c.detect (.num p.1) (.num p.2)).After k (ps ++ [p]) := by
  have hinit := h.initialized hne
  have hlast := h.last hne
  refine ⟨h.line.snoc fun _ => ?_, fun _ => ?_, fun _ => ?_⟩
  · rw [hinit, if_pos rfl, hlast, OrNan.zero_eq]
    generalize memory (diffs ps) = m
    unfold crossing
    by_cases hup : m < 0 ∧ 0 < p.1 - p.2
    · rw [if_pos hup, if_pos (by simpa using hup)]
      simp [OrNan.one_eq]
    · rw [if_neg hup, if_neg (by simpa using hup)]
      by_cases hdown : 0 < m ∧ p.1 - p.2 < 0
      · rw [if_pos hdown, if_pos (by simpa using hdown)]
        simp [OrNan.one_eq]
      · rw [if_neg hdown, if_neg (by simpa using hdown)]
        simp
  · show (if _ then c.nonZeroInitialized else true) = true
    rw [hinit, ite_self]
  · rw [diffs_concat, SignChanges.memory_concat]
    show (if OrNan.num p.1 - OrNan.num p.2 == 0 then c.lastNonZeroDiff else .num p.1 - .num p.2) = _
    by_cases hd : p.1 - p.2 = 0
    · simp [OrNan.zero_eq, hd, hlast]
    · simp [OrNan.zero_eq, hd]

theorem After.next (h : c.After k ps) (hs : Paired (late k ps ++ [(.num p.1, .num p.2)]) lines) :
    ∃ c', c.next lines = some c' ∧ c'.After k (ps ++ [p]) := by
  obtain ⟨hcurr1, hcurr2⟩ := hs.current
  obtain ⟨hidx1, hidx2⟩ := hs.idx
  rw [length_late] at hidx1 hidx2
  rw [CrossOver.next, hcurr1, hcurr2]
  simp only [Option.bind_eq_bind, Option.bind_some, OrNan.isNaN_num, Bool.or_self, Bool.false_eq_true, if_false]
  rcases List.eq_nil_or_concat ps with rfl | ⟨before, b, rfl⟩
  · refine ⟨_, ?_, h.begin p⟩
    cases k with
    | zero => rw [if_pos (by simp [hidx1])]; rfl
    | succ k =>
      rw [late_succ] at hs
      obtain ⟨hprev1, hprev2⟩ := hs.previous
      rw [if_neg (by simp [hidx1, hidx2]), hprev1, hprev2]
      rfl
  · rw [List.concat_eq_append] at h hs hidx1 hidx2 ⊢
    rw [late_concat] at hs
    obtain ⟨hprev1, hprev2⟩ := hs.previous
    refine ⟨_, ?_, h.detect (by simp) p⟩
    rw [if_neg (by simp [hidx1, hidx2]), hprev1, hprev2]
    rfl

theorem runs (k : Nat) (ps : List (ℚ × ℚ)) :
    ∃ lines c, overPair CrossOver.next .init (late k ps) = some (lines, c) ∧ Marked (fun s => (s : ℚ)) k ps c.line := by
  have hinit : After 0 [] init := ⟨.nil, fun hne => absurd rfl hne, fun hne => absurd rfl hne⟩
  obtain ⟨lines, c, hrun, -, hafter⟩ := overPair_ind After hinit
    (fun k lines c hs h => h.early hs) (fun k ps p lines c hs h => h.next hs) k ps
  exact ⟨lines, c, hrun, hafter.line⟩

end CrossOver

theorem cast_injective : Function.Injective fun s : SignType => (s : ℚ) := by
  intro s s' h
  cases s <;> cases s' <;> first | rfl | norm_num at h

theorem onTurn_eq_one {turn s : SignType} : onTurn turn s = 1 ↔ s = turn := by
  unfold onTurn
  split_ifs with h <;> simp [h]

theorem Marked.getElem? (h : Marked g k ps out) {t : Nat} (hk : k < t) (ht : t < k + ps.length) :
    out[t]? = some (.num (g (crossedAt (diffs ps) (t - k)))) := by
  have hmark := h.marks (t - k) (by omega) (by omega)
  rwa [show k + (t - k) = t by omega] at hmark

theorem Marked.alternate (h : Marked (fun s => (s : ℚ)) k ps out) {i j : Nat} {a b : ℚ} (hi : k < i) (hij : i < j)
    (hj : j < k + ps.length) (ha : out[i]? = some (.num a)) (hb : out[j]? = some (.num b)) (ha0 : a ≠ 0) (hb0 : b ≠ 0)
    (hbetween : ∀ l, i < l → l < j → out[l]? = some (.num 0)) : b = -a := by
  have hread : ∀ {l : Nat} {v : ℚ}, k < l → l < k + ps.length → out[l]? = some (.num v) → (crossedAt (diffs ps) (l - k) : ℚ) = v := by
    intro l v hl hlt hv
    rw [h.getElem? hl hlt, Option.some.injEq] at hv
    exact OrNan.num_injective hv
  have hnone : ∀ l, i - k < l → l < j - k → crossedAt (diffs ps) l = 0 := by
    intro l hl hlt
    have hzero := hread (show k < k + l by omega) (by omega) (hbetween (k + l) (by omega) (by omega))
    rw [Nat.add_sub_cancel_left] at hzero
    exact cast_injective (hzero.trans SignType.coe_zero.symm)
  have hi' := hread hi (by omega) ha
  have hj' := hread (by omega) hj hb
  have halternate := SignChanges.alternate (show i - k < j - k by omega) (by rw [length_diffs]; omega)
    (fun hzero => ha0 (by rw [← hi', hzero, SignType.coe_zero])) (fun hzero => hb0 (by rw [← hj', hzero, SignType.coe_zero])) hnone
  rw [← hi', ← hj', halternate, SignType.coe_neg]

end

/-- On every bar after the first pair of numbers. -/
theorem crossovers_agree (k : Nat) (ps : List (ℚ × ℚ)) :
    ∃ lines u lines' d lines'' o, overPair CrossUp.next {} (late k ps) = some (lines, u) ∧
      overPair CrossDown.next {} (late k ps) = some (lines', d) ∧
      overPair CrossOver.next .init (late k ps) = some (lines'', o) ∧
      (∀ t, k < t → t < k + ps.length → ∃ s : ℚ, o.line[t]? = some (.num s) ∧ (s = 1 ↔ u.line[t]? = some (.num 1)) ∧
        (s = -1 ↔ d.line[t]? = some (.num 1)) ∧ (s = 1 ∨ s = -1 ∨ s = 0)) ∧
      ∀ i j (a b : ℚ), k < i → i < j → j < k + ps.length → o.line[i]? = some (.num a) → o.line[j]? = some (.num b) →
        a ≠ 0 → b ≠ 0 → (∀ l, i < l → l < j → o.line[l]? = some (.num 0)) → b = -a := by
  obtain ⟨lines, u, hu, hup⟩ := CrossOneWay.runs looks_up k ps
  obtain ⟨lines', d, hd, hdown⟩ := CrossOneWay.runs looks_down k ps
  obtain ⟨lines'', o, ho, hover⟩ := CrossOver.runs k ps
  refine ⟨lines, u, lines', d, lines'', o, hu, hd, ho, fun t hk ht => ?_, fun i j a b hi hij hj ha hb ha0 hb0 hbetween =>
    hover.alternate hi hij hj ha hb ha0 hb0 hbetween⟩
  refine ⟨_, hover.getElem? hk ht, ?_, ?_, ?_⟩
  · rw [hup.getElem? hk ht, Option.some.injEq, OrNan.num_injective.eq_iff, onTurn_eq_one]
    exact cast_injective.eq_iff' SignType.coe_one
  · rw [hdown.getElem? hk ht, Option.some.injEq, OrNan.num_injective.eq_iff, onTurn_eq_one]
    exact cast_injective.eq_iff' (by simp)
  · rcases SignType.trichotomy (crossedAt (diffs ps) (t - k)) with hneg | hzero | hpos
    · exact .inr (.inl (by rw [hneg]; simp))
    · exact .inr (.inr (by rw [hzero]; simp))
    · exact .inl (by rw [hpos]; simp)

end Indicators
end StratForge
