import StratForge.LookBack
import StratForge.Places

/-!
# Indices of extremes (`indicators/findindex.hpp`, `idxmax.hpp`, `idxmin.hpp`, `minmax.hpp`, `alpha101_ops.hpp`, `alpha191_ops.hpp`)

How many bars ago the extreme of a window was, by a search for its value, by a scan back from the newest bar and by a
scan forward from the oldest. They agree on the newest of equal extremes; the search from the oldest bar gives the
oldest (`extreme_indices_agree`).
-/

namespace StratForge
namespace Indicators
open Floating (nan)
open Access (readBack)

section
variable {α : Type} [Arith α] [Floating α]

/-- What the classes of a period keep. -/
structure PeriodN (α : Type) where
  period : Nat
  line : List α := []

/-- `MaxIndex` and `MinIndex` keep the period as it is. -/
def PeriodN.init (period : Nat) : PeriodN α := { period := if period = 0 then 1 else period }

/-! ### Scans -/

/-- The place and the value of the best so far, after one more place. -/
def takeBest (takes : α → α → Bool) (read : Nat → Option α) (s : Nat × α) (i : Nat) : Option (Nat × α) := do
  let v ← read i
  return if takes v s.2 then (i, v) else s

def best (takes : α → α → Bool) (read : Nat → Option α) (count : Nat) : Option (Nat × α) := do
  let first ← read 0
  ((List.range (count - 1)).map (· + 1)).foldlM (takeBest takes read) (0, first)

def PeriodN.nextBest (takes : α → α → Bool) (source : Line α) (s : PeriodN α) : Option (PeriodN α) :=
  if source.idx + 1 < s.period then some { s with line := s.line ++ [nan] }
  else do
    let (bestOffset, _) ← best takes (readBack source.data source.idx) s.period
    return { s with line := s.line ++ [Arith.ofCount bestOffset] }

def IdxMax.next : Line α → PeriodN α → Option (PeriodN α) := PeriodN.nextBest fun v best => decide (best < v)

def IdxMin.next : Line α → PeriodN α → Option (PeriodN α) := PeriodN.nextBest fun v best => decide (v < best)

def MaxIndex.next : Line α → PeriodN α → Option (PeriodN α) := PeriodN.nextBest fun val highest => decide (highest < val)

def MinIndex.next : Line α → PeriodN α → Option (PeriodN α) := PeriodN.nextBest fun val lowest => decide (val < lowest)

/-- `line` is the index of the maximum. -/
structure MinMaxIndex (α : Type) where
  period : Nat
  line : List α := []
  minIdx : List α := []

namespace MinMaxIndex

/-- The place and the value of the highest and of the lowest, in one loop. -/
def turn (read : Nat → Option α) (s : (Nat × α) × (Nat × α)) (i : Nat) : Option ((Nat × α) × (Nat × α)) := do
  let val ← read i
  return (if s.1.2 < val then (i, val) else s.1, if val < s.2.2 then (i, val) else s.2)

def next (source : Line α) (m : MinMaxIndex α) : Option (MinMaxIndex α) :=
  if source.idx + 1 < m.period then some { m with line := m.line ++ [nan], minIdx := m.minIdx ++ [nan] }
  else do
    let current ← source.data[source.idx]?
    let ((maxAgo, _), (minAgo, _)) ← ((List.range (m.period - 1)).map (· + 1)).foldlM (turn (readBack source.data source.idx))
      ((0, current), (0, current))
    return { m with line := m.line ++ [Arith.ofCount maxAgo], minIdx := m.minIdx ++ [Arith.ofCount minAgo] }

end MinMaxIndex

/-- From the oldest bar of the window on. -/
def bestForward (takes : α → α → Bool) (x : Line α) (idx period : Nat) : Option (Nat × α) :=
  best takes (fun i => x.data[idx + 1 - period + i]?) period

namespace Alpha101

def tsArg (takes : α → α → Bool) (x : Line α) (idx period : Nat) : Option α :=
  if idx + 1 < period then some nan
  else do
    let (best, _) ← bestForward takes x idx period
    return Arith.ofCount best

def tsArgmax : Line α → Nat → Nat → Option α := tsArg fun v bestVal => decide (bestVal ≤ v)

def tsArgmin : Line α → Nat → Nat → Option α := tsArg fun v bestVal => decide (v ≤ bestVal)

end Alpha101

namespace Alpha191

def daysSince (takes : α → α → Bool) (x : Line α) (idx d : Nat) : Option α :=
  if idx + 1 < d then some nan
  else do
    let (best, _) ← bestForward takes x idx d
    return Arith.ofCount (d - 1 - best)

def highday : Line α → Nat → Nat → Option α := daysSince fun v bestVal => decide (bestVal ≤ v)

def lowday : Line α → Nat → Nat → Option α := daysSince fun v bestVal => decide (v ≤ bestVal)

end Alpha191

/-! ### Searches -/

/-- `eval`. -/
def evalBest (takes : α → α → Bool) (data : List α) (start stop : Nat) : Option α := do
  let value ← data[start]?
  ((List.range (stop - start)).map (start + 1 + ·)).foldlM (fun value pos => do
    let v ← data[pos]?
    return if takes v value then v else value) value

/-- The first of the places where the value is the target. -/
def search (target : α) (read : Nat → Option α) : List Nat → Option (Option Nat)
  | [] => some none
  | i :: is => do
    let v ← read i
    if v == target then return some i
    search target read is

def FindFirstIndexBase.next (takes : α → α → Bool) (source : Line α) (s : PeriodN α) : Option (PeriodN α) :=
  if source.idx + 1 < s.period then some { s with line := s.line ++ [nan] }
  else do
    let target ← evalBest takes source.data (source.idx + 1 - s.period) source.idx
    match ← search target (readBack source.data source.idx) (List.range s.period) with
    | some i => return { s with line := s.line ++ [Arith.ofCount i] }
    | none => return { s with line := s.line ++ [nan] }

def FindLastIndexBase.next (takes : α → α → Bool) (source : Line α) (s : PeriodN α) : Option (PeriodN α) :=
  if source.idx + 1 < s.period then some { s with line := s.line ++ [nan] }
  else do
    let start := source.idx + 1 - s.period
    let target ← evalBest takes source.data start source.idx
    match ← search target (fun pos => source.data[pos]?) (List.range' start (source.idx + 1 - start)) with
    | some pos => return { s with line := s.line ++ [Arith.ofCount (source.idx - pos)] }
    | none => return { s with line := s.line ++ [nan] }

def FindFirstIndexHighest.next : Line α → PeriodN α → Option (PeriodN α) :=
  FindFirstIndexBase.next fun v value => decide (value < v)

def FindLastIndexHighest.next : Line α → PeriodN α → Option (PeriodN α) :=
  FindLastIndexBase.next fun v value => decide (value < v)

def FindFirstIndexLowest.next : Line α → PeriodN α → Option (PeriodN α) :=
  FindFirstIndexBase.next fun v value => decide (v < value)

def FindLastIndexLowest.next : Line α → PeriodN α → Option (PeriodN α) :=
  FindLastIndexBase.next fun v value => decide (v < value)

end

/-! ### What the loops find -/

open Extremes (Beyond First Last Top scan)

section
variable {up : Bool} {takes : OrNan → OrNan → Bool} {read : Nat → Option OrNan} {w : Nat → ℚ} {n k : Nat} {v : ℚ}

/-- It takes a number that is beyond the best. -/
def Strictly (up : Bool) (takes : OrNan → OrNan → Bool) : Prop := ∀ a b : ℚ, takes (.num a) (.num b) = true ↔ Beyond up b a

/-- It takes a number that the best is not beyond. -/
def Weakly (up : Bool) (takes : OrNan → OrNan → Bool) : Prop := ∀ a b : ℚ, takes (.num a) (.num b) = true ↔ ¬ Beyond up a b

theorem best_scan (hread : ∀ i < n + 1, read i = some (.num (w i))) :
    best takes read (n + 1) = some (scan (fun a b => takes (.num a) (.num b)) w n,
      .num (w (scan (fun a b => takes (.num a) (.num b)) w n))) := by
  unfold best
  rw [hread 0 (Nat.succ_pos n), Nat.add_sub_cancel, Option.bind_eq_bind, Option.bind_some]
  induction n with
  | zero => rfl
  | succ n ih =>
    rw [List.range_succ, List.map_append, List.foldlM_append, ih fun i hi => hread i (by omega)]
    simp only [List.map_singleton, List.foldlM_cons, List.foldlM_nil, takeBest, hread (n + 1) (by omega), Option.bind_eq_bind,
      Option.bind_some, scan]
    split_ifs <;> rfl

theorem best_first (htakes : Strictly up takes) (hn : 0 < n) (hread : ∀ i < n, read i = some (.num (w i))) :
    ∃ i, best takes read n = some (i, .num (w i)) ∧ First up w n i := by
  obtain ⟨m, rfl⟩ : ∃ m, n = m + 1 := ⟨n - 1, by omega⟩
  exact ⟨_, best_scan hread, Extremes.first_scan (fun a b => htakes a b) w m⟩

theorem best_last (htakes : Weakly up takes) (hn : 0 < n) (hread : ∀ i < n, read i = some (.num (w i))) :
    ∃ i, best takes read n = some (i, .num (w i)) ∧ Last up w n i := by
  obtain ⟨m, rfl⟩ : ∃ m, n = m + 1 := ⟨n - 1, by omega⟩
  exact ⟨_, best_scan hread, Extremes.last_scan (fun a b => htakes a b) w m⟩

/-- Both at once. -/
theorem turn_scan (hread : ∀ i < n + 1, read i = some (.num (w i))) :
    ((List.range n).map (· + 1)).foldlM (MinMaxIndex.turn read) ((0, .num (w 0)), (0, .num (w 0))) =
      some ((scan (fun a b => decide (OrNan.num b < .num a)) w n, .num (w (scan (fun a b => decide (OrNan.num b < .num a)) w n))),
        (scan (fun a b => decide (OrNan.num a < .num b)) w n, .num (w (scan (fun a b => decide (OrNan.num a < .num b)) w n)))) := by
  induction n with
  | zero => rfl
  | succ n ih =>
    rw [List.range_succ, List.map_append, List.foldlM_append, ih fun i hi => hread i (by omega)]
    simp only [List.map_singleton, List.foldlM_cons, List.foldlM_nil, MinMaxIndex.turn, hread (n + 1) (by omega), Option.bind_eq_bind,
      Option.bind_some, scan, decide_eq_true_eq]
    split_ifs <;> rfl

theorem foldlM_map {σ τ ι : Type} {f : σ → ι → Option σ} {g : τ → ι → Option τ} (part : σ → τ)
    (h : ∀ s i, (f s i).map part = g (part s) i) (is : List ι) (s : σ) : (is.foldlM f s).map part = is.foldlM g (part s) := by
  induction is generalizing s with
  | nil => rfl
  | cons i is ih =>
    rw [List.foldlM_cons, List.foldlM_cons, ← h]
    cases f s i with
    | none => rfl
    | some s' => exact ih s'

theorem evalBest_eq {data : List OrNan} {start stop : Nat} :
    evalBest takes data start stop = (best takes (fun i => data[start + i]?) (stop - start + 1)).map Prod.snd := by
  unfold evalBest best
  dsimp only [Nat.add_zero]
  rw [Nat.add_sub_cancel]
  cases data[start]? with
  | none => rfl
  | some value =>
    rw [Option.bind_eq_bind, Option.bind_some, Option.bind_eq_bind, Option.bind_some]
    rw [show ((List.range (stop - start)).map (start + 1 + ·)) = ((List.range (stop - start)).map (· + 1)).map (start + ·) by
      rw [List.map_map]; exact List.map_congr_left fun i _ => by simp; omega]
    rw [@foldlM_map _ _ _ _ (fun value i => do
      let v ← data[start + i]?
      return if takes v value then v else value) Prod.snd ?_ _ (0, value)]
    · exact List.foldlM_map
    · intro s i
      unfold takeBest
      dsimp only
      cases data[start + i]? with
      | none => rfl
      | some v =>
        simp only [Option.bind_eq_bind, Option.bind_some]
        split_ifs <;> rfl

/-- The search ends at the first place, if there is any. -/
theorem search_eq (hread : ∀ i, k ≤ i → i < k + n → read i = some (.num (w i))) (hplace : ∃ i, k ≤ i ∧ i < k + n ∧ w i = v) :
    ∃ i, search (.num v) read (List.range' k n) = some (some i) ∧ k ≤ i ∧ i < k + n ∧ w i = v ∧ ∀ j, k ≤ j → j < i → w j ≠ v := by
  induction n generalizing k with
  | zero =>
    obtain ⟨i, hle, hlt, -⟩ := hplace
    omega
  | succ n ih =>
    rw [List.range'_succ, search, hread k le_rfl (by omega), Option.bind_eq_bind, Option.bind_some, OrNan.num_beq]
    by_cases hk : w k = v
    · exact ⟨k, by simp [hk], le_rfl, by omega, hk, fun j hle hlt => by omega⟩
    · obtain ⟨i, hle, hlt, hi⟩ := hplace
      have hne : k ≠ i := fun heq => hk (heq ▸ hi)
      obtain ⟨j, hsearch, hkj, hjn, hj, hbefore⟩ := ih (k := k + 1) (fun i hi hin => hread i (by omega) (by omega))
        ⟨i, by omega, by omega, hi⟩
      refine ⟨j, ?_, by omega, by omega, hj, fun l hl hlj => ?_⟩
      · rw [if_neg (by simpa using hk)]
        exact hsearch
      · rcases Nat.eq_or_lt_of_le hl with rfl | hlt'
        · exact hk
        · exact hbefore l hlt' hlj

end

/-! ### On a bar -/

section
variable {qs : List ℚ} {source : Line OrNan} {p : Nat} {up : Bool} {takes : OrNan → OrNan → Bool}

/-- The source holds the numbers, and the bar has at least `p` bars of history. -/
structure Reaches (qs : List ℚ) (p : Nat) (source : Line OrNan) : Prop where
  data : source.data = qs.map .num
  pos : 0 < p
  history : p ≤ source.idx + 1
  within : source.idx < qs.length

namespace Reaches
variable (h : Reaches qs p source)
include h

theorem back : ∀ i < p, readBack source.data source.idx i = some (.num (ago qs source.idx i)) := by
  intro i hi
  have hhistory := h.history
  rw [h.data]
  exact readBack_nums (by omega) h.within

/-- What the scans forward read. -/
theorem forward : ∀ i < p, source.data[source.idx + 1 - p + i]? = some (.num (Extremes.flip (ago qs source.idx) p i)) := by
  intro i hi
  have hhistory := h.history
  have hwithin := h.within
  rw [h.data, read_nums (by omega), Extremes.flip, ago, show source.idx - (p - 1 - i) = source.idx + 1 - p + i by omega]

theorem warm : ¬ source.idx + 1 < p := by
  have hhistory := h.history
  omega

theorem evalBest (htakes : Strictly up takes) :
    ∃ v, evalBest takes source.data (source.idx + 1 - p) source.idx = some (.num v) ∧ Top up (ago qs source.idx) p v := by
  have hhistory := h.history
  have hpos := h.pos
  obtain ⟨i, hi, hfirst⟩ := best_first htakes hpos h.forward
  refine ⟨_, ?_, hfirst.top.flip⟩
  rw [evalBest_eq, show source.idx - (source.idx + 1 - p) + 1 = p by omega, hi]
  rfl

theorem nextBest (htakes : Strictly up takes) : ∃ a, First up (ago qs source.idx) p a ∧ ∀ s : PeriodN OrNan, s.period = p →
    PeriodN.nextBest takes source s = some { s with line := s.line ++ [.num a] } := by
  obtain ⟨a, hbest, hfirst⟩ := best_first htakes h.pos h.back
  refine ⟨a, hfirst, fun s hs => ?_⟩
  subst hs
  rw [PeriodN.nextBest, if_neg h.warm, hbest, Option.bind_eq_bind, Option.bind_some]
  simp only [OrNan.ofCount_eq]
  rfl

theorem findFirst (htakes : Strictly up takes) : ∃ a, First up (ago qs source.idx) p a ∧ ∀ s : PeriodN OrNan, s.period = p →
    FindFirstIndexBase.next takes source s = some { s with line := s.line ++ [.num a] } := by
  obtain ⟨v, htarget, htop⟩ := h.evalBest htakes
  obtain ⟨i, hi, hv⟩ := htop.place
  obtain ⟨a, hsearch, -, ha, hplace, hbefore⟩ := search_eq (k := 0) (n := p) (fun i _ hi => h.back i (by omega))
    ⟨i, Nat.zero_le i, by omega, hv⟩
  rw [← List.range_eq_range'] at hsearch
  refine ⟨a, htop.first (by omega) hplace fun j hj => hbefore j (Nat.zero_le j) hj, fun s hs => ?_⟩
  subst hs
  rw [FindFirstIndexBase.next, if_neg h.warm, htarget, Option.bind_eq_bind, Option.bind_some, hsearch]
  simp only [Option.bind_eq_bind, Option.bind_some, OrNan.ofCount_eq]
  rfl

theorem findLast (htakes : Strictly up takes) : ∃ b, Last up (ago qs source.idx) p b ∧ ∀ s : PeriodN OrNan, s.period = p →
    FindLastIndexBase.next takes source s = some { s with line := s.line ++ [.num b] } := by
  have hhistory := h.history
  have hwithin := h.within
  obtain ⟨v, htarget, htop⟩ := h.evalBest htakes
  have hread : ∀ pos, source.idx + 1 - p ≤ pos → pos < source.idx + 1 - p + p →
      source.data[pos]? = some (.num (qs.getD pos 0)) := by
    intro pos hle hlt
    rw [h.data, read_nums (by omega)]
  obtain ⟨i, hi, hv⟩ := htop.place
  obtain ⟨pos, hsearch, hle, hlt, hplace, hbefore⟩ := search_eq (n := p) hread
    ⟨source.idx - i, by omega, by omega, hv⟩
  refine ⟨source.idx - pos, ⟨by omega, fun j hj => ?_, fun j hj hjp => ?_⟩, fun s hs => ?_⟩
  · have hlast := htop.last j hj
    rwa [← hplace, show pos = source.idx - (source.idx - pos) by omega] at hlast
  · have hother : ago qs source.idx j ≠ v := hbefore (source.idx - j) (by omega) (by omega)
    have hat : ago qs source.idx (source.idx - pos) = v := by
      rw [← hplace, ago, show source.idx - (source.idx - pos) = pos by omega]
    rw [hat]
    by_contra hnot
    exact hother (Extremes.eq_of_not_beyond hnot (htop.last j hjp))
  · subst hs
    rw [FindLastIndexBase.next, if_neg h.warm]
    dsimp only
    rw [htarget, show source.idx + 1 - (source.idx + 1 - s.period) = s.period by omega, Option.bind_eq_bind, Option.bind_some, hsearch]
    simp only [Option.bind_eq_bind, Option.bind_some, OrNan.ofCount_eq]
    rfl

/-- The one counts from the oldest bar, the other from the newest. -/
theorem scansForward (htakes : Weakly up takes) : ∃ a, First up (ago qs source.idx) p a ∧
    Alpha191.daysSince takes source source.idx p = some (.num a) ∧
    ∃ k : Nat, Alpha101.tsArg takes source source.idx p = some (.num k) ∧ (a : ℚ) = p - 1 - k := by
  obtain ⟨k, hbest, hlast⟩ := best_last htakes h.pos h.forward
  have hbestForward : bestForward takes source source.idx p = some (k, .num (Extremes.flip (ago qs source.idx) p k)) := hbest
  have hk := hlast.lt
  refine ⟨p - 1 - k, hlast.flip, ?_, k, ?_, ?_⟩
  · rw [Alpha191.daysSince, if_neg h.warm, hbestForward, Option.bind_eq_bind, Option.bind_some]
    simp only [OrNan.ofCount_eq]
    rfl
  · rw [Alpha101.tsArg, if_neg h.warm, hbestForward, Option.bind_eq_bind, Option.bind_some]
    simp only [OrNan.ofCount_eq]
    rfl
  · rw [Nat.sub_sub, Nat.cast_sub (by omega)]
    push_cast
    ring

theorem minMax : ∃ a b, First true (ago qs source.idx) p a ∧ First false (ago qs source.idx) p b ∧
    ∀ m : MinMaxIndex OrNan, m.period = p →
      m.next source = some { m with line := m.line ++ [.num a], minIdx := m.minIdx ++ [.num b] } := by
  obtain ⟨n, rfl⟩ : ∃ n, p = n + 1 := ⟨p - 1, by have := h.pos; omega⟩
  have hturn := turn_scan (n := n) fun i hi => h.back i hi
  have hcurrent : source.data[source.idx]? = some (.num (ago qs source.idx 0)) := by
    rw [h.data, read_nums h.within]
    rfl
  refine ⟨scan (fun a b => decide (OrNan.num b < .num a)) (ago qs source.idx) n,
    scan (fun a b => decide (OrNan.num a < .num b)) (ago qs source.idx) n, Extremes.first_scan (fun a b => by simp) _ n,
    Extremes.first_scan (fun a b => by simp) _ n, fun m hm => ?_⟩
  rw [MinMaxIndex.next, hm, if_neg h.warm, hcurrent, Nat.add_sub_cancel, Option.bind_eq_bind, Option.bind_some, hturn]
  simp only [Option.bind_eq_bind, Option.bind_some, OrNan.ofCount_eq]
  rfl

end Reaches

theorem strictly_high : Strictly true fun v best => decide (best < v) := fun a b => by simp

theorem strictly_low : Strictly false fun v best => decide (v < best) := fun a b => by simp

theorem weakly_high : Weakly true fun v best => decide (best ≤ v) := fun a b => by simp

theorem weakly_low : Weakly false fun v best => decide (v ≤ best) := fun a b => by simp

/-- With the number put out. -/
def PeriodN.put (s : PeriodN OrNan) (n : Nat) : PeriodN OrNan := { s with line := s.line ++ [.num n] }

/-- How many bars ago the newest and the oldest of the highest were, `a` and `b`, and of the lowest, `a'` and `b'`. -/
theorem extreme_indices_agree (h : Reaches qs p source) :
    ∃ a b a' b', First true (ago qs source.idx) p a ∧ Last true (ago qs source.idx) p b ∧
      First false (ago qs source.idx) p a' ∧ Last false (ago qs source.idx) p b' ∧
      (∀ s : PeriodN OrNan, s.period = p →
        FindFirstIndexHighest.next source s = some (s.put a) ∧ IdxMax.next source s = some (s.put a) ∧
        MaxIndex.next source s = some (s.put a) ∧ FindLastIndexHighest.next source s = some (s.put b) ∧
        FindFirstIndexLowest.next source s = some (s.put a') ∧ IdxMin.next source s = some (s.put a') ∧
        MinIndex.next source s = some (s.put a') ∧ FindLastIndexLowest.next source s = some (s.put b')) ∧
      (∀ m : MinMaxIndex OrNan, m.period = p →
        m.next source = some { m with line := m.line ++ [.num a], minIdx := m.minIdx ++ [.num a'] }) ∧
      Alpha191.highday source source.idx p = some (.num a) ∧ Alpha191.lowday source source.idx p = some (.num a') ∧
      (∃ k : Nat, Alpha101.tsArgmax source source.idx p = some (.num k) ∧ (a : ℚ) = p - 1 - k) ∧
      ∃ k : Nat, Alpha101.tsArgmin source source.idx p = some (.num k) ∧ (a' : ℚ) = p - 1 - k := by
  obtain ⟨a, ha, hbest⟩ := h.nextBest strictly_high
  obtain ⟨a', ha', hbest'⟩ := h.nextBest strictly_low
  obtain ⟨b, hb, hlast⟩ := h.findLast strictly_high
  obtain ⟨b', hb', hlast'⟩ := h.findLast strictly_low
  obtain ⟨i, hi, hfirst⟩ := h.findFirst strictly_high
  obtain ⟨i', hi', hfirst'⟩ := h.findFirst strictly_low
  obtain ⟨j, hj, hday, hts⟩ := h.scansForward weakly_high
  obtain ⟨j', hj', hday', hts'⟩ := h.scansForward weakly_low
  obtain ⟨l, l', hl, hl', hboth⟩ := h.minMax
  obtain rfl := ha.unique hi
  obtain rfl := ha.unique hj
  obtain rfl := ha.unique hl
  obtain rfl := ha'.unique hi'
  obtain rfl := ha'.unique hj'
  obtain rfl := ha'.unique hl'
  exact ⟨a, b, a', b', ha, hb, ha', hb', fun s hs => ⟨hfirst s hs, hbest s hs, hbest s hs, hlast s hs, hfirst' s hs, hbest' s hs,
    hbest' s hs, hlast' s hs⟩, hboth, hday, hday', hts, hts'⟩

theorem extreme_indices_agree_tie :
    ∃ a, First true (ago [5, 7, 7] 2) 3 a ∧ Alpha191.highday { data := [5, 7, 7].map OrNan.num, idx := 2 } 2 3 = some (.num a) := by
  have hreaches : Reaches [5, 7, 7] 3 { data := [5, 7, 7].map OrNan.num, idx := 2 } := ⟨rfl, by simp, by simp, by simp⟩
  obtain ⟨a, -, -, -, ha, -, -, -, -, -, hday, -⟩ := extreme_indices_agree hreaches
  exact ⟨a, ha, hday⟩

end

end Indicators
end StratForge
