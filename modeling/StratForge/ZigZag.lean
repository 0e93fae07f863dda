import StratForge.Extremes
import StratForge.Quotes

/-!
# The ZigZag (`indicators/pattern.hpp`)

The indicator follows one candidate, the extreme since the last pivot, until the price has come back from it by the
retrace; then it writes the candidate as a pivot, and the bar on hand is the candidate of the other direction. A top
stays the highest price until the next pivot. A bottom is the lowest only until it is confirmed: the price can fall
again below it without coming back by the retrace (`falls_below`).
-/

namespace StratForge
namespace Indicators
open Floating (nan)
open Extremes (Beyond)

structure ZigZag (α : Type) where
  retrace : α
  line : List α := []
  initialized : Bool := false
  direction : Int := 0
  pivotIdx : Nat := 0
  pivotPrice : α
  candidateIdx : Nat := 0
  candidatePrice : α

namespace ZigZag
variable {α : Type} [Arith α] [Floating α]

def init (retrace : α) : ZigZag α :=
  { retrace := if retrace ≤ 0 then 0.05 else retrace, pivotPrice := 0, candidatePrice := 0 }

def relativeChange (current reference : α) : α :=
  if reference == 0 then 0 else (current - reference) / Arith.abs reference

/-- The bar is the candidate. -/
def candidate (idx : Nat) (price : α) (z : ZigZag α) : ZigZag α := { z with candidateIdx := idx, candidatePrice := price }

/-- The candidate is written as a pivot, and the bar is the candidate of the other direction. -/
def pivot (direction : Int) (idx : Nat) (price : α) (z : ZigZag α) : Option (ZigZag α) := do
  let line ← Access.write z.line z.candidateIdx z.candidatePrice
  return { z with line, pivotIdx := z.candidateIdx, pivotPrice := z.candidatePrice, direction }.candidate idx price

/-- Before the first move of the size of the retrace. -/
def undirected (idx : Nat) (price : α) (z : ZigZag α) : ZigZag α :=
  let change := relativeChange price z.pivotPrice
  if z.retrace ≤ Arith.abs change then { z with direction := if 0 < change then 1 else -1 }.candidate idx price
  else if (z.candidatePrice < price ∧ z.candidateIdx = z.pivotIdx) ∨ (price < z.candidatePrice ∧ z.candidateIdx = z.pivotIdx) then
    z.candidate idx price
  else z

def upward (idx : Nat) (price : α) (z : ZigZag α) : Option (ZigZag α) :=
  if z.candidatePrice ≤ price then some (z.candidate idx price)
  else if relativeChange price z.candidatePrice ≤ -z.retrace then z.pivot (-1) idx price
  else some z

def downward (idx : Nat) (price : α) (z : ZigZag α) : Option (ZigZag α) :=
  if price ≤ z.candidatePrice then some (z.candidate idx price)
  else if z.retrace ≤ relativeChange price z.candidatePrice then z.pivot 1 idx price
  else some z

def next (source : Line α) (z : ZigZag α) : Option (ZigZag α) := do
  let idx := source.idx
  let z := { z with line := z.line ++ [nan] }
  let price ← source.data[idx]?
  if !z.initialized then
    return { z with pivotIdx := idx, pivotPrice := price, initialized := true }.candidate idx price
  else if z.direction = 0 then return z.undirected idx price
  else if 0 < z.direction then z.upward idx price
  else z.downward idx price

end ZigZag

namespace ZigZag

/-! ### Pivots of a series of prices -/

structure Pivot where
  idx : Nat
  top : Bool

/-- From `a` the price has moved by the retrace, up or down. -/
def Reaches (r : ℚ) (up : Bool) (a b : ℚ) : Prop := if up then (1 + r) * a ≤ b else b ≤ (1 - r) * a

/-- The bar that confirms a pivot: the first one after it that has come back by the retrace. -/
structure Confirms (r : ℚ) (f : Nat → ℚ) (p : Pivot) (c : Nat) : Prop where
  after : p.idx < c
  back : Reaches r (!p.top) (f p.idx) (f c)
  first : ∀ i, p.idx < i → i < c → ¬ Reaches r (!p.top) (f p.idx) (f i)

/-- A pivot between the pivot before it and the one after it, or the bar reached: extreme until it is confirmed, and a
top to the end; the prices after a bottom stay above it, less twice the retrace. -/
structure Genuine (r : ℚ) (f : Nat → ℚ) (start : Nat) (p : Pivot) (stop : Nat) : Prop where
  confirmed : ∃ c, c ≤ stop ∧ Confirms r f p c ∧ ∀ i, start ≤ i → i ≤ c → ¬ Beyond p.top (f p.idx) (f i)
  top : p.top = true → ∀ i, start ≤ i → i ≤ stop → f i ≤ f p.idx
  bottom : p.top = false → ∀ i, start ≤ i → i ≤ stop → (1 - r ^ 2) * f p.idx < f i

/-- The bar of the last pivot, the newest first; the first bar if there is none. -/
def since : List Pivot → Nat
  | [] => 0
  | p :: _ => p.idx

/-- The pivots up to the bar `stop`, the newest first: they alternate, each is a move of the retrace from the one before
or from the first bar, and each is genuine. -/
inductive Legs (r : ℚ) (f : Nat → ℚ) : List Pivot → Nat → Prop
  | nil (stop : Nat) : Legs r f [] stop
  | cons {p : Pivot} {older : List Pivot} {stop : Nat} : Legs r f older p.idx → (∀ o ∈ older.head?, p.top = !o.top) →
    since older < p.idx → Reaches r p.top (f (since older)) (f p.idx) → Genuine r f (since older) p stop →
    Legs r f (p :: older) stop

/-- The line with the prices of the pivots. -/
def marks (f : Nat → ℚ) (n : Nat) (pivots : List Pivot) : List OrNan :=
  (List.range n).map fun i => if ∃ p ∈ pivots, p.idx = i then .num (f i) else .nan

theorem reaches_of_change {r a b : ℚ} (ha : 0 < a) :
    (r ≤ (b - a) / a ↔ Reaches r true a b) ∧ ((b - a) / a ≤ -r ↔ Reaches r false a b) := by
  have hne := ha.ne'
  constructor
  · rw [le_div_iff₀ ha, Reaches, if_pos rfl]
    constructor
    · intro h
      linarith
    · intro h
      linarith
  · rw [div_le_iff₀ ha, Reaches, if_neg Bool.false_ne_true]
    constructor
    · intro h
      linarith
    · intro h
      linarith

theorem relativeChange_num {a b : ℚ} (ha : 0 < a) : relativeChange (OrNan.num b) (.num a) = .num ((b - a) / a) := by
  have hzero : ¬ (OrNan.num a == 0) = true := by simp [OrNan.zero_eq, ha.ne']
  rw [relativeChange, if_neg hzero, OrNan.abs_num, abs_of_pos ha, OrNan.num_sub, OrNan.num_div ha.ne']

section
variable {r a b x : ℚ} {f : Nat → ℚ} {up : Bool} {pivots : List Pivot} {stop stop' n : Nat} {z : ZigZag OrNan}

/-- A move of the retrace goes beyond where it began. -/
theorem Reaches.beyond (h : Reaches r up a b) (hr : 0 < r) (ha : 0 < a) : Beyond up a b := by
  have hmul := mul_pos hr ha
  cases up
  · simp only [Reaches, Bool.false_eq_true, if_false] at h
    rw [Extremes.beyond_down]
    linarith
  · simp only [Reaches, if_true] at h
    rw [Extremes.beyond_up]
    linarith

theorem Reaches.mono (h : Reaches r up a b) (hx : ¬ Beyond (!up) b x) : Reaches r up a x := by
  cases up
  · simp only [Reaches, Bool.false_eq_true, if_false, Bool.not_false, Extremes.beyond_up, not_lt] at *
    exact hx.trans h
  · simp only [Reaches, if_true, Bool.not_true, Extremes.beyond_down, not_lt] at *
    exact h.trans hx

theorem beyond_not {up : Bool} {a b : ℚ} : Beyond (!up) a b ↔ Beyond up b a := by
  cases up <;> simp

/-- What the law of a pivot asks of a price after it. -/
def Pivot.Bounds (r : ℚ) (f : Nat → ℚ) (p : Pivot) (x : ℚ) : Prop :=
  (p.top = true → x ≤ f p.idx) ∧ (p.top = false → (1 - r ^ 2) * f p.idx < x)

/-- A price that has not come back from the extreme after a pivot. -/
theorem bounds_of_not_reaches {p : Pivot} (hr : 0 < r) (hp : 0 < f p.idx) (hx : 0 < x) (hturn : up = !p.top)
    (hmove : Reaches r up (f p.idx) b) (hwait : ¬ Reaches r (!up) b x) : p.Bounds r f x := by
  subst hturn
  rcases p with ⟨idx, top⟩
  dsimp only at *
  cases top
  · simp only [Reaches, Bool.not_false, Bool.not_true, if_true, Bool.false_eq_true, if_false, not_le] at hmove hwait
    refine ⟨nofun, fun _ => ?_⟩
    show (1 - r ^ 2) * f idx < x
    rcases le_total r 1 with hle | hle
    · have hback : (1 - r) * ((1 + r) * f idx) ≤ (1 - r) * b := mul_le_mul_of_nonneg_left hmove (by linarith)
      calc (1 - r ^ 2) * f idx = (1 - r) * ((1 + r) * f idx) := by ring
        _ ≤ (1 - r) * b := hback
        _ < x := hwait
    · have hneg : (1 - r ^ 2) * f idx ≤ 0 := mul_nonpos_of_nonpos_of_nonneg (by nlinarith) hp.le
      linarith
  · simp only [Reaches, Bool.not_false, Bool.not_true, if_true, Bool.false_eq_true, if_false, not_le] at hmove hwait
    refine ⟨fun _ => ?_, nofun⟩
    show x ≤ f idx
    have hback : (1 + r) * b ≤ (1 + r) * ((1 - r) * f idx) := mul_le_mul_of_nonneg_left hmove (by linarith)
    have hless : (1 + r) * ((1 - r) * f idx) ≤ f idx := by
      have hsq : 0 ≤ r ^ 2 * f idx := by positivity
      linarith
    linarith

/-- More bars within the law of the last pivot. -/
theorem Legs.extend (h : Legs r f pivots stop) (hle : stop ≤ stop')
    (hmore : ∀ p ∈ pivots.head?, ∀ i, stop < i → i ≤ stop' → p.Bounds r f (f i)) : Legs r f pivots stop' := by
  cases h with
  | nil => exact .nil stop'
  | @cons p older _ holder halternate hsince hmove hgenuine =>
    obtain ⟨c, hc, hconfirms, hextreme⟩ := hgenuine.confirmed
    refine .cons holder halternate hsince hmove ⟨⟨c, hc.trans hle, hconfirms, hextreme⟩, fun htop i hi hi' => ?_,
      fun htop i hi hi' => ?_⟩
    · rcases Nat.lt_or_ge stop i with hlt | hge
      · exact (hmore p rfl i hlt hi').1 htop
      · exact hgenuine.top htop i hi hge
    · rcases Nat.lt_or_ge stop i with hlt | hge
      · exact (hmore p rfl i hlt hi').2 htop
      · exact hgenuine.bottom htop i hi hge

theorem marks_succ (hlt : ∀ p ∈ pivots, p.idx < n) : marks f (n + 1) pivots = marks f n pivots ++ [.nan] := by
  have hnone : ¬ ∃ p ∈ pivots, p.idx = n := by
    rintro ⟨p, hp, hidx⟩
    exact absurd (hlt p hp) (by omega)
  simp [marks, List.range_succ, hnone]

/-- The candidate is written. -/
theorem marks_cons {p : Pivot} (hp : p.idx < n) :
    Access.write (marks f n pivots) p.idx (.num (f p.idx)) = some (marks f n (p :: pivots)) := by
  have hlen : p.idx < (marks f n pivots).length := by simpa [marks] using hp
  rw [Access.write, if_pos hlen]
  refine congrArg some (List.ext_getElem (by simp [marks]) fun i hi hi' => ?_)
  have hi : i < n := by simpa [marks] using hi'
  rw [List.getElem_set]
  by_cases hidx : p.idx = i
  · subst hidx
    simp [marks]
  · simp [marks, hidx]

/-! ### The state -/

/-- On the way up or down from the last pivot. -/
structure Leg (r : ℚ) (f : Nat → ℚ) (n : Nat) (pivots : List Pivot) (up : Bool) (z : ZigZag OrNan) : Prop where
  direction : z.direction = if up then 1 else -1
  after : since pivots < z.candidateIdx
  within : z.candidateIdx < n
  price : z.candidatePrice = .num (f z.candidateIdx)
  move : Reaches r up (f (since pivots)) (f z.candidateIdx)
  extreme : ∀ i, since pivots ≤ i → i < n → ¬ Beyond up (f z.candidateIdx) (f i)
  waits : ∀ i, z.candidateIdx < i → i < n → ¬ Reaches r (!up) (f z.candidateIdx) (f i)
  legs : Legs r f pivots z.candidateIdx
  turn : ∀ o ∈ pivots.head?, up = !o.top

namespace Leg

theorem congr {z' : ZigZag OrNan} (h : Leg r f n pivots up z) (hd : z'.direction = z.direction)
    (hi : z'.candidateIdx = z.candidateIdx) (hc : z'.candidatePrice = z.candidatePrice) : Leg r f n pivots up z' := by
  obtain ⟨h₁, h₂, h₃, h₄, h₅, h₆, h₇, h₈, h₉⟩ := h
  rw [← hi] at h₂ h₃ h₄ h₅ h₆ h₇ h₈
  exact ⟨hd.trans h₁, h₂, h₃, hc.trans h₄, h₅, h₆, h₇, h₈, h₉⟩

/-- A price that has not come back from the candidate. -/
theorem bounds (h : Leg r f n pivots up z) (hr : 0 < r) (hf : ∀ i, 0 < f i) {x : ℚ} (hx : 0 < x)
    (hwait : ¬ Reaches r (!up) (f z.candidateIdx) x) : ∀ p ∈ pivots.head?, p.Bounds r f x := by
  intro p hp
  obtain ⟨older, rfl⟩ := List.head?_eq_some_iff.1 hp
  exact bounds_of_not_reaches hr (hf p.idx) hx (h.turn p hp) h.move hwait

theorem legs_to (h : Leg r f n pivots up z) (hr : 0 < r) (hf : ∀ i, 0 < f i) (hpos : 0 < n) : Legs r f pivots (n - 1) :=
  h.legs.extend (by have := h.within; omega) fun p hp i hi hi' =>
    h.bounds hr hf (hf i) (h.waits i hi (by omega)) p hp

/-- A further extreme is the candidate. -/
theorem further (h : Leg r f n pivots up z) (hr : 0 < r) (hf : ∀ i, 0 < f i)
    (hnot : ¬ Beyond (!up) (f z.candidateIdx) (f n)) : Leg r f (n + 1) pivots up (z.candidate n (.num (f n))) where
  direction := h.direction
  after := h.after.trans h.within
  within := Nat.lt_succ_self n
  price := rfl
  move := h.move.mono hnot
  extreme := by
    intro i hi hi' hbeyond
    rcases Nat.lt_or_ge i n with hlt | hge
    · rw [beyond_not] at hnot
      exact h.extreme i hi hlt (Beyond.of_not hbeyond hnot)
    · obtain rfl : i = n := by omega
      exact Extremes.not_beyond_self _ hbeyond
  waits := fun i hi hi' => by
    have hi : n < i := hi
    omega
  legs := by
    have hwait : ¬ Reaches r (!up) (f z.candidateIdx) (f n) := fun hreaches => hnot (hreaches.beyond hr (hf _))
    refine h.legs.extend h.within.le fun p hp i hi hi' => ?_
    rcases Nat.lt_or_ge i n with hlt | hge
    · exact h.bounds hr hf (hf i) (h.waits i hi hlt) p hp
    · obtain rfl : i = n := Nat.le_antisymm hi' hge
      exact h.bounds hr hf (hf i) hwait p hp
  turn := h.turn

/-- A price on the way back. -/
theorem stay (h : Leg r f n pivots up z) (hback : Beyond (!up) (f z.candidateIdx) (f n))
    (hwait : ¬ Reaches r (!up) (f z.candidateIdx) (f n)) : Leg r f (n + 1) pivots up z where
  direction := h.direction
  after := h.after
  within := h.within.trans (Nat.lt_succ_self n)
  price := h.price
  move := h.move
  extreme := by
    intro i hi hi'
    rcases Nat.lt_or_ge i n with hlt | hge
    · exact h.extreme i hi hlt
    · obtain rfl : i = n := by omega
      rw [beyond_not] at hback
      exact fun hbeyond => Extremes.not_beyond_self _ (hback.trans hbeyond)
  waits := by
    intro i hi hi'
    rcases Nat.lt_or_ge i n with hlt | hge
    · exact h.waits i hi hlt
    · obtain rfl : i = n := by omega
      exact hwait
  legs := h.legs
  turn := h.turn

/-- The price has come back by the retrace: the candidate is a pivot. -/
theorem confirm (h : Leg r f n pivots up z) (hr : 0 < r) (hf : ∀ i, 0 < f i)
    (hback : Reaches r (!up) (f z.candidateIdx) (f n)) {z' : ZigZag OrNan} (hd : z'.direction = if !up then 1 else -1)
    (hi : z'.candidateIdx = n) (hc : z'.candidatePrice = .num (f n)) :
    Leg r f (n + 1) (⟨z.candidateIdx, up⟩ :: pivots) (!up) z' := by
  have hbeyond := hback.beyond hr (hf _)
  have hk := h.within
  have hextreme : ∀ i, since pivots ≤ i → i ≤ n → ¬ Beyond up (f z.candidateIdx) (f i) := by
    intro i hi hi'
    rcases Nat.lt_or_ge i n with hlt | hge
    · exact h.extreme i hi hlt
    · obtain rfl : i = n := Nat.le_antisymm hi' hge
      rw [beyond_not] at hbeyond
      exact fun hagain => Extremes.not_beyond_self _ (hbeyond.trans hagain)
  have hgenuine : Genuine r f (since pivots) ⟨z.candidateIdx, up⟩ n := by
    refine ⟨⟨n, le_rfl, ⟨hk, hback, h.waits⟩, hextreme⟩, fun htop i hi hi' => ?_, fun htop i hi hi' => ?_⟩
    · have hno := hextreme i hi hi'
      rw [show up = true from htop, Extremes.beyond_up, not_lt] at hno
      exact hno
    · have hno := hextreme i hi hi'
      rw [show up = false from htop, Extremes.beyond_down, not_lt] at hno
      have hsq : 0 < r ^ 2 * f z.candidateIdx := mul_pos (by positivity) (hf _)
      show (1 - r ^ 2) * f z.candidateIdx < f i
      linarith
  refine ⟨hd, by rw [hi]; exact hk, by rw [hi]; exact Nat.lt_succ_self n, by rw [hi, hc], by rw [hi]; exact hback, ?_, ?_, ?_, ?_⟩
  · rw [hi]
    intro i hi' hin hbeyond'
    have hi' : z.candidateIdx ≤ i := hi'
    rcases Nat.lt_or_ge i n with hlt | hge
    · rcases Nat.eq_or_lt_of_le hi' with rfl | hlt'
      · exact Extremes.not_beyond_self _ (hbeyond.trans hbeyond')
      · refine h.waits i hlt' hlt (hback.mono fun hagain => ?_)
        rw [Bool.not_not] at hagain
        exact Extremes.not_beyond_self _ (hagain.trans (beyond_not.1 hbeyond'))
    · obtain rfl : i = n := by omega
      exact Extremes.not_beyond_self _ hbeyond'
  · rw [hi]
    intro i hi' hin
    omega
  · rw [hi]
    exact .cons h.legs h.turn h.after h.move hgenuine
  · rintro o ⟨⟩
    rfl

end Leg

/-- No move of the retrace from the first bar. -/
structure Idle (r : ℚ) (f : Nat → ℚ) (n : Nat) (pivots : List Pivot) (z : ZigZag OrNan) : Prop where
  direction : z.direction = 0
  price : z.pivotPrice = .num (f 0)
  none : pivots = []
  near : ∀ i, i < n → ¬ Reaches r true (f 0) (f i) ∧ ¬ Reaches r false (f 0) (f i)

/-- After `n` bars. -/
structure Reached (r : ℚ) (f : Nat → ℚ) (n : Nat) (pivots : List Pivot) (z : ZigZag OrNan) : Prop where
  retrace : z.retrace = .num r
  line : z.line = marks f n pivots
  before : ∀ p ∈ pivots, p.idx < n
  initialized : z.initialized = decide (0 < n)
  start : n = 0 → pivots = [] ∧ z.direction = 0
  phase : 0 < n → z.Idle r f n pivots ∨ ∃ up, z.Leg r f n pivots up

theorem abs_ge_iff {r c : ℚ} : r ≤ |c| ↔ r ≤ c ∨ c ≤ -r := by
  rw [le_abs]
  exact or_congr Iff.rfl ⟨fun h => by linarith, fun h => by linarith⟩

/-- A bar before the first move. -/
theorem Idle.next (h : Idle r f n pivots z) (hr : 0 < r) (hf : ∀ i, 0 < f i) (hpos : 0 < n) (hretrace : z.retrace = .num r) :
    Idle r f (n + 1) pivots (z.undirected n (.num (f n))) ∨ ∃ up, Leg r f (n + 1) pivots up (z.undirected n (.num (f n))) := by
  obtain ⟨hup, hdown⟩ := @reaches_of_change r (f 0) (f n) (hf 0)
  have hnear : ∀ up, Reaches r up (f 0) (f n) → ∀ i, i < n → ¬ Beyond up (f n) (f i) := by
    intro up hreaches i hi hbeyond
    have hreaches' := hreaches.mono (x := f i) fun hno => Extremes.not_beyond_self _ (hbeyond.trans (beyond_not.1 hno))
    cases up
    · exact (h.near i hi).2 hreaches'
    · exact (h.near i hi).1 hreaches'
  have hleg : ∀ up, Reaches r up (f 0) (f n) → ∀ z' : ZigZag OrNan, z'.direction = (if up then 1 else -1) →
      Leg r f (n + 1) pivots up (z'.candidate n (.num (f n))) := by
    intro up hreaches z' hd
    rw [h.none]
    refine ⟨hd, hpos, Nat.lt_succ_self n, rfl, hreaches, fun i _ hi => ?_, fun i hi hi' => ?_, .nil _, nofun⟩
    · rcases Nat.lt_or_ge i n with hlt | hge
      · exact hnear up hreaches i hlt
      · obtain rfl : i = n := by omega
        exact Extremes.not_beyond_self _
    · have hi : n < i := hi
      omega
  unfold undirected
  simp only [h.price, relativeChange_num (hf 0), OrNan.abs_num, hretrace, OrNan.num_le, OrNan.zero_eq, OrNan.num_lt, abs_ge_iff]
  split_ifs with hmove hsign hcandidate
  · refine .inr ⟨true, hleg true (hup.1 ?_) _ (by simp)⟩
    rcases hmove with hmove | hmove
    · exact hmove
    · linarith
  · refine .inr ⟨false, hleg false (hdown.1 ?_) _ (by simp)⟩
    rcases hmove with hmove | hmove
    · linarith
    · exact hmove
  all_goals
    have hnear' : ∀ i, i < n + 1 → ¬ Reaches r true (f 0) (f i) ∧ ¬ Reaches r false (f 0) (f i) := by
      intro i hi
      rcases Nat.lt_or_ge i n with hlt | hge
      · exact h.near i hlt
      · obtain rfl : i = n := by omega
        exact ⟨fun hreaches => hmove (.inl (hup.2 hreaches)), fun hreaches => hmove (.inr (hdown.2 hreaches))⟩
    exact .inl ⟨h.direction, h.price, h.none, hnear'⟩

/-- A bar on the way from the last pivot. -/
theorem Leg.next (h : Leg r f n pivots up z) (hr : 0 < r) (hf : ∀ i, 0 < f i) (hretrace : z.retrace = .num r)
    (hline : z.line = marks f (n + 1) pivots) : ∃ z' pivots',
      (if 0 < z.direction then z.upward n (.num (f n)) else z.downward n (.num (f n))) = some z' ∧
      z'.line = marks f (n + 1) pivots' ∧ (∃ up', Leg r f (n + 1) pivots' up' z') ∧ z'.retrace = .num r ∧
      z'.initialized = z.initialized ∧ (pivots' = pivots ∨ pivots' = ⟨z.candidateIdx, up⟩ :: pivots) := by
  obtain ⟨hup, hdown⟩ := @reaches_of_change r (f z.candidateIdx) (f n) (hf _)
  have hwrite : ∀ direction, z.pivot direction n (.num (f n)) = some ({ z with
      line := marks f (n + 1) (⟨z.candidateIdx, up⟩ :: pivots), pivotIdx := z.candidateIdx
      pivotPrice := z.candidatePrice, direction }.candidate n (.num (f n))) := by
    intro direction
    have hmarks := @marks_cons f pivots (n + 1) ⟨z.candidateIdx, up⟩ (h.within.trans (Nat.lt_succ_self n))
    have hmarks : Access.write z.line z.candidateIdx z.candidatePrice =
        some (marks f (n + 1) (⟨z.candidateIdx, up⟩ :: pivots)) := by rw [hline, h.price]; exact hmarks
    simp only [ZigZag.pivot, hmarks, Option.bind_eq_bind, Option.bind_some, Option.pure_def]
  cases up
  · rw [h.direction, if_neg (by decide)]
    unfold downward
    simp only [h.price, OrNan.num_le, relativeChange_num (hf _), hretrace]
    split_ifs with hfurther hback
    · exact ⟨_, pivots, rfl, hline, ⟨false, h.further hr hf (by simpa using hfurther)⟩, hretrace, rfl, .inl rfl⟩
    · refine ⟨_, _, hwrite 1, rfl, ⟨true, h.confirm hr hf (hup.1 hback) rfl rfl rfl⟩, hretrace, rfl, .inr rfl⟩
    · exact ⟨_, pivots, rfl, hline, ⟨false, h.stay (by simpa using hfurther) fun hreaches => hback (hup.2 hreaches)⟩, hretrace,
        rfl, .inl rfl⟩
  · rw [h.direction, if_pos (by decide)]
    unfold upward
    simp only [h.price, OrNan.num_le, relativeChange_num (hf _), hretrace, OrNan.num_neg]
    split_ifs with hfurther hback
    · exact ⟨_, pivots, rfl, hline, ⟨true, h.further hr hf (by simpa using hfurther)⟩, hretrace, rfl, .inl rfl⟩
    · refine ⟨_, _, hwrite (-1), rfl, ⟨false, h.confirm hr hf (hdown.1 hback) rfl rfl rfl⟩, hretrace, rfl, .inr rfl⟩
    · exact ⟨_, pivots, rfl, hline, ⟨true, h.stay (by simpa using hfurther) fun hreaches => hback (hdown.2 hreaches)⟩, hretrace,
        rfl, .inl rfl⟩

theorem undirected_same (idx : Nat) (price : OrNan) (z : ZigZag OrNan) : (z.undirected idx price).line = z.line ∧
    (z.undirected idx price).retrace = z.retrace ∧ (z.undirected idx price).initialized = z.initialized := by
  unfold undirected
  dsimp only
  split_ifs <;> exact ⟨rfl, rfl, rfl⟩

/-- One bar more writes at most one pivot more. -/
theorem Reached.next {l : Line OrNan} (h : Reached r f n pivots z) (hr : 0 < r) (hf : ∀ i, 0 < f i) (hidx : l.idx = n)
    (hcurrent : l.data[n]? = some (.num (f n))) : ∃ z' pivots', z.next l = some z' ∧ Reached r f (n + 1) pivots' z' ∧
      (pivots' = pivots ∨ ∃ p, pivots' = p :: pivots) := by
  have hline : z.line ++ [nan] = marks f (n + 1) pivots := by
    rw [marks_succ h.before, h.line]
    rfl
  have hbefore : ∀ p ∈ pivots, p.idx < n + 1 := fun p hp => (h.before p hp).trans (Nat.lt_succ_self n)
  unfold ZigZag.next
  simp only [hidx, hcurrent, h.initialized, hline, Option.bind_eq_bind, Option.bind_some, Option.pure_def]
  rcases Nat.eq_zero_or_pos n with rfl | hpos
  · obtain ⟨rfl, hdirection⟩ := h.start rfl
    refine ⟨_, [], rfl, ⟨h.retrace, rfl, nofun, rfl, fun h => absurd h (by omega), fun _ => .inl ⟨hdirection, rfl, rfl, ?_⟩⟩,
      .inl rfl⟩
    intro i hi
    obtain rfl : i = 0 := by omega
    exact ⟨fun h => Extremes.not_beyond_self _ (h.beyond hr (hf 0)), fun h => Extremes.not_beyond_self _ (h.beyond hr (hf 0))⟩
  · simp only [hpos, decide_true, Bool.not_true, Bool.false_eq_true, if_false]
    have hinit : true = decide (0 < n + 1) := (decide_eq_true (Nat.succ_pos n)).symm
    rcases h.phase hpos with hidle | ⟨up, hleg⟩
    · have hidle' : Idle r f n pivots { z with line := marks f (n + 1) pivots, initialized := true } :=
        ⟨hidle.direction, hidle.price, hidle.none, hidle.near⟩
      obtain ⟨hline', hretrace', hinit'⟩ := undirected_same n (.num (f n))
        { z with line := marks f (n + 1) pivots, initialized := true }
      rw [if_pos hidle.direction]
      exact ⟨_, pivots, rfl, ⟨hretrace'.trans h.retrace, hline', hbefore, hinit'.trans hinit, fun h => absurd h (by omega),
        fun _ => hidle'.next hr hf hpos h.retrace⟩, .inl rfl⟩
    · have hleg' : Leg r f n pivots up { z with line := marks f (n + 1) pivots, initialized := true } :=
        hleg.congr rfl rfl rfl
      have hdirection : z.direction ≠ 0 := by
        rw [hleg.direction]
        split_ifs <;> decide
      obtain ⟨z', pivots', hnext, hline', hphase, hretrace', hinit', hpivots⟩ := hleg'.next hr hf h.retrace rfl
      rw [if_neg hdirection]
      refine ⟨z', pivots', hnext, ⟨hretrace', hline', ?_, hinit'.trans hinit, fun h => absurd h (by omega), fun _ => .inr hphase⟩,
        hpivots.imp_right fun heq => ⟨_, heq⟩⟩
      rcases hpivots with rfl | rfl
      · exact hbefore
      · intro p hp
        rcases List.mem_cons.1 hp with rfl | hp
        · exact hleg.within.trans (Nat.lt_succ_self n)
        · exact hbefore p hp

theorem init_reached (hr : 0 < r) : Reached r f 0 [] (init (.num r)) where
  retrace := if_neg (not_le.2 hr)
  line := rfl
  before := nofun
  initialized := rfl
  start := fun _ => ⟨rfl, rfl⟩
  phase := fun h => absurd h (lt_irrefl 0)

/-- The prices of the first `n` bars. -/
def series (f : Nat → ℚ) (n : Nat) : List OrNan := (List.range n).map fun i => .num (f i)

theorem series_succ (f : Nat → ℚ) (n : Nat) : series f (n + 1) = series f n ++ [.num (f n)] := by
  simp [series, List.range_succ]

theorem overSource_step {l : Line OrNan} (hr : 0 < r) (hf : ∀ i, 0 < f i)
    (hrun : overSource next (init (.num r)) (series f n) = some (l, z)) (h : Reached r f n pivots z) : ∃ l' z' pivots',
      overSource next (init (.num r)) (series f (n + 1)) = some (l', z') ∧ Reached r f (n + 1) pivots' z' ∧
        (pivots' = pivots ∨ ∃ p, pivots' = p :: pivots) := by
  have hsourced := (overSource_sourced hrun).forward (.num (f n))
  have hlen : (series f n).length = n := by simp [series]
  have hcurrent := hsourced.current
  rw [hlen] at hcurrent
  obtain ⟨z', pivots', hnext, hreached, hpivots⟩ := h.next hr hf (hsourced.idx.trans hlen) hcurrent
  rw [series_succ]
  exact ⟨_, z', pivots', overSource_concat hrun hnext, hreached, hpivots⟩

theorem overSource_reached (hr : 0 < r) (hf : ∀ i, 0 < f i) (n : Nat) :
    ∃ l z pivots, overSource next (init (.num r)) (series f n) = some (l, z) ∧ Reached r f n pivots z := by
  induction n with
  | zero => exact ⟨_, _, [], rfl, init_reached hr⟩
  | succ n ih =>
    obtain ⟨l, z, pivots, hrun, hreached⟩ := ih
    obtain ⟨l', z', pivots', hrun', hreached', -⟩ := overSource_step hr hf hrun hreached
    exact ⟨l', z', pivots', hrun', hreached'⟩

theorem Reached.legs (h : Reached r f (n + 1) pivots z) (hr : 0 < r) (hf : ∀ i, 0 < f i) : Legs r f pivots n := by
  rcases h.phase (Nat.succ_pos n) with hidle | ⟨up, hleg⟩
  · rw [hidle.none]
    exact .nil n
  · exact hleg.legs_to hr hf (Nat.succ_pos n)

end

/-- The price of a bar. -/
def priceAt (prices : List ℚ) (i : Nat) : ℚ := prices.getD i 1

theorem series_priceAt (prices more : List ℚ) : series (priceAt (prices ++ more)) prices.length = prices.map .num := by
  refine List.ext_getElem (by simp [series]) fun i hi hi' => ?_
  have hi : i < prices.length := by simpa using hi'
  simp [series, priceAt, hi, List.getElem?_append_left]

/-- After every bar the pivots written are in order, alternate, are moves of the retrace and are genuine, and the bar
has written at most one of them. -/
theorem zigzag_pivots (r : ℚ) (hr : 0 < r) (prices : List ℚ) (price : ℚ) (hpos : ∀ p ∈ prices ++ [price], 0 < p) :
    ∃ l z pivots l' z' pivots', overSource next (init (.num r)) (prices.map .num) = some (l, z) ∧
      overSource next (init (.num r)) ((prices ++ [price]).map .num) = some (l', z') ∧
      z.line = marks (priceAt (prices ++ [price])) prices.length pivots ∧
      z'.line = marks (priceAt (prices ++ [price])) (prices.length + 1) pivots' ∧
      (∀ p ∈ pivots', p.idx < prices.length + 1) ∧ (pivots' = pivots ∨ ∃ p, pivots' = p :: pivots) ∧
      Legs r (priceAt (prices ++ [price])) pivots' prices.length := by
  have hf : ∀ i, 0 < priceAt (prices ++ [price]) i := by
    intro i
    unfold priceAt
    rw [List.getD_eq_getElem?_getD]
    cases hget : (prices ++ [price])[i]? with
    | none => exact one_pos
    | some p => exact hpos p (List.mem_of_getElem? hget)
  obtain ⟨l, z, pivots, hrun, hreached⟩ := overSource_reached hr hf prices.length
  obtain ⟨l', z', pivots', hrun', hreached', hpivots⟩ := overSource_step hr hf hrun hreached
  have hall : series (priceAt (prices ++ [price])) (prices.length + 1) = (prices ++ [price]).map .num := by
    have hseries := series_priceAt (prices ++ [price]) []
    rwa [List.append_nil, List.length_append, List.length_singleton] at hseries
  rw [series_priceAt] at hrun
  rw [hall] at hrun'
  exact ⟨l, z, pivots, l', z', pivots', hrun, hrun', hreached.line, hreached'.line, hreached'.before, hpivots,
    hreached'.legs hr hf⟩

theorem zigzag_pivots_three : ∃ l' z' pivots',
    overSource next (init (OrNan.num (1 / 20))) (([110, 100, 105] : List ℚ).map OrNan.num) = some (l', z') ∧
      Legs (1 / 20) (priceAt [110, 100, 105]) pivots' 2 := by
  obtain ⟨l, z, pivots, l', z', pivots', -, hrun, -, -, -, -, hlegs⟩ :=
    zigzag_pivots (1 / 20) (by norm_num) [110, 100] 105 (by simp)
  exact ⟨l', z', pivots', hrun, hlegs⟩

/-- A bottom at 100 that is confirmed at 105, then 99.8 without a retrace of 5%. -/
def dip : List ℚ := [110, 100, 105, 998 / 10]

theorem dip_line : (overSource next (init (OrNan.num (1 / 20))) (dip.map OrNan.num)).map (·.2.line) =
    some [OrNan.nan, .num 100, .nan, .nan] := by decide +kernel

/-- The bottom is not the lowest price since. -/
theorem falls_below : ¬ ∀ (r : ℚ) (prices : List ℚ) (l : Line OrNan) (z : ZigZag OrNan), 0 < r → (∀ p ∈ prices, 0 < p) →
    overSource next (init (.num r)) (prices.map OrNan.num) = some (l, z) →
    ∃ pivots : List Pivot, z.line = marks (priceAt prices) prices.length pivots ∧ (∀ p ∈ pivots, p.idx < prices.length) ∧
      ∀ p older, pivots = p :: older → ∀ i, since older ≤ i → i < prices.length →
        ¬ Beyond p.top (priceAt prices p.idx) (priceAt prices i) := by
  intro h
  obtain ⟨st, hrun, hst⟩ := Option.map_eq_some_iff.1 dip_line
  obtain ⟨pivots, hmarks, hwithin, hextreme⟩ := h (1 / 20) dip st.1 st.2 (by norm_num) (by simp [dip]) hrun
  rw [hst] at hmarks
  have hidx : ∀ p ∈ pivots, p.idx = 1 := by
    intro p hp
    have hget : [OrNan.nan, .num 100, .nan, .nan][p.idx]? = some (.num (priceAt dip p.idx)) := by
      have hsome : ∃ o ∈ pivots, o.idx = p.idx := ⟨p, hp, rfl⟩
      rw [hmarks, marks, List.getElem?_map, List.getElem?_range (hwithin p hp), Option.map_some, if_pos hsome]
    generalize p.idx = k at hget
    rcases k with _ | _ | _ | _ | k
    · simp at hget
    · rfl
    · simp at hget
    · simp at hget
    · simp at hget
  cases pivots with
  | nil => simp [marks, List.range_succ, dip] at hmarks
  | cons p older =>
    have hsince : since older ≤ 1 := by
      cases older with
      | nil => exact Nat.zero_le 1
      | cons o older => exact (hidx o (by simp)).le
    have hno := hextreme p older rfl
    rw [hidx p (by simp)] at hno
    cases htop : p.top with
    | true =>
      have hhigh := hno 2 (by omega) (by decide)
      rw [htop, Extremes.beyond_up] at hhigh
      exact hhigh (by simp [priceAt, dip]; norm_num)
    | false =>
      have hlow := hno 3 (by omega) (by decide)
      rw [htop, Extremes.beyond_down] at hlow
      exact hlow (by simp [priceAt, dip]; norm_num)

end ZigZag

end Indicators

end StratForge
