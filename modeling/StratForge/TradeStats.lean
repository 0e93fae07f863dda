import StratForge.Accumulators
import StratForge.Performance

/-!
# The analysis of the trades (`analyzers/trade_analyzer.hpp`)

`TradeAnalyzer.analyzeTrades` goes once over the closed trades with some forty accumulators. Each of them is a loop over
the trades of one `Category`, so what they come to is said class by class: counts and profits (`analysis_decomposes`) and
lengths in bars (`lengths_exact_iff`). A length of 0 also stands for having seen none, and a minimum of 0 is lost when a
longer trade of the category follows.
-/

namespace StratForge
open Accumulators
variable {α W : Type} [Arith α]

namespace Trade

/-- Net, after commissions. -/
def closedPnl (t : Trade α) (_originalSize : α) : α := t.pnlcomm

def pnlGross (t : Trade α) : α := t.pnl

end Trade

namespace TradeAnalyzer

/-! ### What is reported -/

structure Total where
  total : Nat
  «open» : Nat
  closed : Nat
deriving DecidableEq, Repr

structure Streak where
  current : Nat
  longest : Nat
deriving DecidableEq, Repr

structure PnlSummary (α : Type) where
  total : α
  average : α
  max : α
deriving DecidableEq, Repr

structure PnlStats (α : Type) where
  gross : PnlSummary α
  net : PnlSummary α
deriving DecidableEq, Repr

structure WonLost (α : Type) where
  total : Nat
  pnl : PnlSummary α
deriving DecidableEq, Repr

structure DirectionalPnl (α : Type) where
  total : α
  average : α
  won : PnlSummary α
  lost : PnlSummary α
deriving DecidableEq, Repr

structure Directional (α : Type) where
  total : Nat
  won : Nat
  lost : Nat
  pnl : DirectionalPnl α
deriving DecidableEq, Repr

structure LengthStats (α : Type) where
  total : Nat
  average : α
  max : Nat
  min : Nat
deriving DecidableEq, Repr

structure DirectionalLength (α : Type) where
  totalStats : LengthStats α
  won : LengthStats α
  lost : LengthStats α
deriving DecidableEq, Repr

structure Lengths (α : Type) extends DirectionalLength α where
  longSide : DirectionalLength α
  shortSide : DirectionalLength α
deriving DecidableEq, Repr

structure Streaks where
  won : Streak
  lost : Streak
deriving DecidableEq, Repr

/-- `TradeAnalyzer::Analysis`. -/
structure Report (α : Type) where
  total : Total
  streak : Streaks
  pnl : PnlStats α
  won : WonLost α
  lost : WonLost α
  longSide : Directional α
  shortSide : Directional α
  len : Lengths α
deriving DecidableEq, Repr

/-! ### The loop -/

def PnlSummary.zero : PnlSummary α := ⟨0, 0, 0⟩

def LengthStats.zero : LengthStats α := ⟨0, 0, 0, 0⟩

def DirectionalLength.zero : DirectionalLength α := ⟨.zero, .zero, .zero⟩

def Directional.zero : Directional α := ⟨0, 0, 0, ⟨0, 0, .zero, .zero⟩⟩

/-- The analysis so far and the flags that are local to `analyze`. -/
structure Loop (α : Type) where
  analysis : Report α
  haveWonTrade : Bool
  haveLostTrade : Bool
  haveLongTrade : Bool
  haveShortTrade : Bool
  haveLongWonTrade : Bool
  haveLongLostTrade : Bool
  haveShortWonTrade : Bool
  haveShortLostTrade : Bool

def Loop.start («open» closed : Nat) : Loop α :=
  { analysis :=
      { total := { total := «open» + closed, «open», closed }
        streak := ⟨⟨0, 0⟩, ⟨0, 0⟩⟩
        pnl := ⟨.zero, .zero⟩
        won := ⟨0, .zero⟩
        lost := ⟨0, .zero⟩
        longSide := .zero
        shortSide := .zero
        len := { DirectionalLength.zero with longSide := .zero, shortSide := .zero } }
    haveWonTrade := false, haveLostTrade := false, haveLongTrade := false, haveShortTrade := false
    haveLongWonTrade := false, haveLongLostTrade := false, haveShortWonTrade := false, haveShortLostTrade := false }

def LengthStats.update (stats : LengthStats α) (barlen : Nat) : LengthStats α :=
  { stats with
    total := stats.total + barlen
    max := Max.max stats.max barlen
    min := if stats.min = 0 ∨ barlen < stats.min then barlen else stats.min }

/-- The lengths of a side, or of both. -/
def DirectionalLength.update (len : DirectionalLength α) (won : Bool) (barlen : Nat) : DirectionalLength α :=
  { totalStats := len.totalStats.update barlen
    won := if won then len.won.update barlen else len.won
    lost := if won then len.lost else len.lost.update barlen }

/-- The total and the extremum of the trades of one outcome. -/
def PnlSummary.add (s : PnlSummary α) (pick : α → α → α) (seen : Bool) (netPnl : α) : PnlSummary α :=
  { s with total := s.total + netPnl, max := if seen then pick s.max netPnl else netPnl }

def Directional.add (side : Directional α) (won haveWon haveLost : Bool) (netPnl : α) : Directional α :=
  { total := side.total + 1
    won := if won then side.won + 1 else side.won
    lost := if won then side.lost else side.lost + 1
    pnl :=
      { side.pnl with
        total := side.pnl.total + netPnl
        won := if won then side.pnl.won.add Arith.max haveWon netPnl else side.pnl.won
        lost := if won then side.pnl.lost else side.pnl.lost.add Arith.min haveLost netPnl } }

/-- The streaks of won and of lost trades. -/
def Streaks.add (s : Streaks) (won : Bool) : Streaks :=
  let wonCurrent := if won then s.won.current + 1 else 0
  let lostCurrent := if won then 0 else s.lost.current + 1
  { won := ⟨wonCurrent, max s.won.longest wonCurrent⟩, lost := ⟨lostCurrent, max s.lost.longest lostCurrent⟩ }

/-- One closed trade, by its side, its outcome, its results and its length. -/
def Loop.add (s : Loop α) (isLong won : Bool) (grossPnl netPnl : α) (barlen : Nat) : Loop α :=
  let a := s.analysis
  { analysis :=
      { total := a.total
        streak := a.streak.add won
        pnl :=
          { gross := { a.pnl.gross with total := a.pnl.gross.total + grossPnl }
            net := { a.pnl.net with total := a.pnl.net.total + netPnl } }
        won := if won then ⟨a.won.total + 1, a.won.pnl.add Arith.max s.haveWonTrade netPnl⟩ else a.won
        lost := if won then a.lost else ⟨a.lost.total + 1, a.lost.pnl.add Arith.min s.haveLostTrade netPnl⟩
        longSide := if isLong then a.longSide.add won s.haveLongWonTrade s.haveLongLostTrade netPnl else a.longSide
        shortSide := if isLong then a.shortSide else a.shortSide.add won s.haveShortWonTrade s.haveShortLostTrade netPnl
        len :=
          { a.len.toDirectionalLength.update won barlen with
            longSide := if isLong then a.len.longSide.update won barlen else a.len.longSide
            shortSide := if isLong then a.len.shortSide else a.len.shortSide.update won barlen } }
    haveWonTrade := s.haveWonTrade || won
    haveLostTrade := s.haveLostTrade || !won
    haveLongTrade := s.haveLongTrade || isLong
    haveShortTrade := s.haveShortTrade || !isLong
    haveLongWonTrade := s.haveLongWonTrade || isLong && won
    haveLongLostTrade := s.haveLongLostTrade || isLong && !won
    haveShortWonTrade := s.haveShortWonTrade || !isLong && won
    haveShortLostTrade := s.haveShortLostTrade || !isLong && !won }

def isWon (x : Trade α × α) : Bool := decide (0 ≤ x.1.closedPnl x.2)

def Loop.visit (s : Loop α) (x : Trade α × α) : Loop α :=
  s.add x.1.islong (isWon x) x.1.pnl (x.1.closedPnl x.2) x.1.barlen

/-! ### The averages -/

/-- A total over a count, when there is one. -/
def PnlSummary.finish (s : PnlSummary α) (count : Nat) : PnlSummary α :=
  if 0 < count then { s with average := s.total / Arith.ofCount count } else s

def LengthStats.finish (s : LengthStats α) (count : Nat) : LengthStats α :=
  if 0 < count then { s with average := Arith.ofCount s.total / Arith.ofCount count } else s

/-- The extremum goes when there is none. -/
def PnlSummary.clear (s : PnlSummary α) (seen : Bool) : PnlSummary α := if seen then s else { s with max := 0 }

def LengthStats.clear (s : LengthStats α) (seen : Bool) : LengthStats α := if seen then s else { s with min := 0 }

def finalizeDirectional (side : Directional α) (sideLen : DirectionalLength α) (haveTrade : Bool) :
    Directional α × DirectionalLength α :=
  ({ side with
      pnl :=
        { total := side.pnl.total
          average := if 0 < side.total then side.pnl.total / Arith.ofCount side.total else side.pnl.average
          won := (side.pnl.won.finish side.won).clear (0 < side.won)
          lost := (side.pnl.lost.finish side.lost).clear (0 < side.lost) } },
    { totalStats := (sideLen.totalStats.finish side.total).clear haveTrade
      won := (sideLen.won.finish side.won).clear (side.won ≠ 0)
      lost := (sideLen.lost.finish side.lost).clear (side.lost ≠ 0) })

/-- What follows the loop. -/
def Loop.finish (s : Loop α) : Report α :=
  let a := s.analysis
  let closed : α := Arith.ofCount a.total.closed
  let (longSide, longLen) := finalizeDirectional a.longSide a.len.longSide s.haveLongTrade
  let (shortSide, shortLen) := finalizeDirectional a.shortSide a.len.shortSide s.haveShortTrade
  let average (total : α) (before : α) : α := if 0 < closed then total / closed else before
  { a with
    pnl :=
      { gross := { a.pnl.gross with average := average a.pnl.gross.total a.pnl.gross.average }
        net := { a.pnl.net with average := average a.pnl.net.total a.pnl.net.average } }
    won := { a.won with pnl := (a.won.pnl.finish a.won.total).clear s.haveWonTrade }
    lost := { a.lost with pnl := (a.lost.pnl.finish a.lost.total).clear s.haveLostTrade }
    longSide, shortSide
    len :=
      { totalStats :=
          { a.len.totalStats with average := average (Arith.ofCount a.len.totalStats.total) a.len.totalStats.average }
        won := a.len.won.finish a.won.total
        lost := a.len.lost.finish a.lost.total
        longSide := longLen, shortSide := shortLen } }

def analyzeTrades («open» : Nat) (closedTrades : List (Trade α × α)) : Report α :=
  (closedTrades.foldl Loop.visit (.start «open» closedTrades.length)).finish

/-- `analyze`, with everything it reports. -/
def analyzeBroker (b : BackBroker α W) : Report α := analyzeTrades b.openTrades.length b.closedTrades

/-- What `serialize_results` takes of it. -/
def Report.reported (r : Report α) : ReportAnalysis α :=
  { openTotal := r.total.open, closedTotal := r.total.closed, wonTotal := r.won.total, lostTotal := r.lost.total
    wonPnl := r.won.pnl.total, lostPnl := r.lost.pnl.total
    wonAverage := r.won.pnl.average, lostAverage := r.lost.pnl.average }

/-! ### Category by category -/

/-- A side, long or not, and an outcome; `none` is either. -/
structure Category where
  side : Option Bool
  won : Option Bool
deriving DecidableEq, Repr

namespace Category

def has (c : Category) (x : Trade α × α) : Bool := c.side.all (· == x.1.islong) && c.won.all (· == isWon x)

/-- The trades of the category. -/
def of (c : Category) (closedTrades : List (Trade α × α)) : List (Trade α × α) := closedTrades.filter c.has

end Category

def Lengths.side (l : Lengths α) : Option Bool → DirectionalLength α
  | none => l.toDirectionalLength
  | some true => l.longSide
  | some false => l.shortSide

def DirectionalLength.outcome (l : DirectionalLength α) : Option Bool → LengthStats α
  | none => l.totalStats
  | some true => l.won
  | some false => l.lost

namespace Report

def side (r : Report α) (isLong : Bool) : Directional α := if isLong then r.longSide else r.shortSide

def lengths (r : Report α) (c : Category) : LengthStats α := (r.len.side c.side).outcome c.won

/-- How many trades there are in the category. -/
def count (r : Report α) : Category → Nat
  | ⟨none, none⟩ => r.total.closed
  | ⟨none, some true⟩ => r.won.total
  | ⟨none, some false⟩ => r.lost.total
  | ⟨some isLong, none⟩ => (r.side isLong).total
  | ⟨some isLong, some true⟩ => (r.side isLong).won
  | ⟨some isLong, some false⟩ => (r.side isLong).lost

/-- The net results of the category, in total and on average. -/
def net (r : Report α) : Category → α × α
  | ⟨none, none⟩ => (r.pnl.net.total, r.pnl.net.average)
  | ⟨none, some true⟩ => (r.won.pnl.total, r.won.pnl.average)
  | ⟨none, some false⟩ => (r.lost.pnl.total, r.lost.pnl.average)
  | ⟨some isLong, none⟩ => ((r.side isLong).pnl.total, (r.side isLong).pnl.average)
  | ⟨some isLong, some true⟩ => ((r.side isLong).pnl.won.total, (r.side isLong).pnl.won.average)
  | ⟨some isLong, some false⟩ => ((r.side isLong).pnl.lost.total, (r.side isLong).pnl.lost.average)

/-- The best of the trades that are won, the worst of those that are lost. -/
def extreme (r : Report α) : Option Bool → Bool → α
  | none, true => r.won.pnl.max
  | none, false => r.lost.pnl.max
  | some isLong, true => (r.side isLong).pnl.won.max
  | some isLong, false => (r.side isLong).pnl.lost.max

end Report

namespace Loop

/-- Whether the side has had a trade. -/
def haveTrade (s : Loop α) (isLong : Bool) : Bool := if isLong then s.haveLongTrade else s.haveShortTrade

def haveOutcome (s : Loop α) : Option Bool → Bool → Bool
  | none, true => s.haveWonTrade
  | none, false => s.haveLostTrade
  | some true, true => s.haveLongWonTrade
  | some true, false => s.haveLongLostTrade
  | some false, true => s.haveShortWonTrade
  | some false, false => s.haveShortLostTrade

def pick (won : Bool) : α → α → α := if won then Arith.max else Arith.min

variable (s : Loop α) (x : Trade α × α)

theorem count_visit (c : Category) (hc : c ≠ ⟨none, none⟩) :
    (s.visit x).analysis.count c = if c.has x then s.analysis.count c + 1 else s.analysis.count c := by
  obtain ⟨_ | _ | _, _ | _ | _⟩ := c
  · exact absurd rfl hc
  all_goals
    unfold visit Category.has
    cases x.1.islong <;> cases isWon x <;> rfl

theorem net_visit (c : Category) :
    (s.visit x).analysis.net c =
      if c.has x then ((s.analysis.net c).1 + x.1.pnlcomm, (s.analysis.net c).2) else s.analysis.net c := by
  obtain ⟨_ | _ | _, _ | _ | _⟩ := c <;>
  · unfold visit Category.has
    cases x.1.islong <;> cases isWon x <;> rfl

theorem lengths_visit (c : Category) :
    (s.visit x).analysis.lengths c =
      if c.has x then (s.analysis.lengths c).update x.1.barlen else s.analysis.lengths c := by
  obtain ⟨_ | _ | _, _ | _ | _⟩ := c <;>
  · unfold visit Category.has
    cases x.1.islong <;> cases isWon x <;> rfl

theorem extreme_visit (side : Option Bool) (won : Bool) :
    ((s.visit x).analysis.extreme side won, (s.visit x).haveOutcome side won) =
      if Category.has ⟨side, some won⟩ x then
        firstSeen (pick won) (s.analysis.extreme side won, s.haveOutcome side won) x.1.pnlcomm
      else (s.analysis.extreme side won, s.haveOutcome side won) := by
  unfold visit Category.has firstSeen
  rcases side with _ | _ | _ <;> cases won <;> cases x.1.islong <;> cases isWon x <;>
    simp [add, haveOutcome, Report.extreme, Report.side, Directional.add, PnlSummary.add, pick, Trade.closedPnl]

theorem haveTrade_visit (isLong : Bool) :
    (s.visit x).haveTrade isLong = if Category.has ⟨some isLong, none⟩ x then true else s.haveTrade isLong := by
  unfold visit Category.has
  cases isLong <;> cases x.1.islong <;> simp [add, haveTrade]

theorem streak_visit :
    (((s.visit x).analysis.streak.won.current, (s.visit x).analysis.streak.won.longest) : Nat × Nat) =
      streak isWon (s.analysis.streak.won.current, s.analysis.streak.won.longest) x ∧
    (((s.visit x).analysis.streak.lost.current, (s.visit x).analysis.streak.lost.longest) : Nat × Nat) =
      streak (fun x => !isWon x) (s.analysis.streak.lost.current, s.analysis.streak.lost.longest) x := by
  unfold visit streak
  cases h : isWon x <;> simp [add, Streaks.add, h]

end Loop

/-! ### The whole loop -/

omit [Arith α] in
theorem foldl_update (bars : List Nat) (stats : LengthStats α) : bars.foldl LengthStats.update stats =
    ⟨stats.total + bars.sum, stats.average, bars.foldl max stats.max, bars.foldl smaller stats.min⟩ := by
  induction bars generalizing stats with
  | nil => rfl
  | cons bar bars ih =>
    rw [List.foldl_cons, ih, List.sum_cons, ← Nat.add_assoc]
    rfl

variable (opened : Nat) (xs : List (Trade ℚ × ℚ))

/-- The end of the loop. -/
def loop : Loop ℚ := xs.foldl Loop.visit (.start opened xs.length)

theorem total_loop : (loop opened xs).analysis.total = ⟨opened + xs.length, opened, xs.length⟩ := by
  have h : ∀ s : Loop ℚ, (xs.foldl Loop.visit s).analysis.total = s.analysis.total := by
    induction xs with
    | nil => exact fun _ => rfl
    | cons x xs ih => exact fun s => ih (s.visit x)
  exact h _

theorem count_loop (c : Category) : (loop opened xs).analysis.count c = (c.of xs).length := by
  by_cases hc : c = ⟨none, none⟩
  · subst hc
    have hall : Category.of ⟨none, none⟩ xs = xs := List.filter_eq_self.2 fun _ _ => rfl
    rw [hall]
    exact congrArg Total.closed (total_loop opened xs)
  · have h := foldl_class (fun s : Loop ℚ => s.analysis.count c) (fun n _ => n + 1) c.has
      (fun s x => Loop.count_visit s x c hc) (.start opened xs.length) xs
    have hzero : (Loop.start opened xs.length : Loop ℚ).analysis.count c = 0 := by
      obtain ⟨_ | _ | _, _ | _ | _⟩ := c
      · exact absurd rfl hc
      all_goals rfl
    have hlen : ∀ (ys : List (Trade ℚ × ℚ)) (n : Nat), ys.foldl (fun n _ => n + 1) n = n + ys.length := by
      intro ys
      induction ys with
      | nil => exact fun n => rfl
      | cons y ys ih => exact fun n => by simp [ih, Nat.add_assoc, Nat.add_comm]
    rw [hzero, hlen, Nat.zero_add] at h
    exact h

theorem net_loop (c : Category) : (loop opened xs).analysis.net c = (((c.of xs).map (·.1.pnlcomm)).sum, 0) := by
  have h := foldl_class (fun s : Loop ℚ => s.analysis.net c) (fun t x => (t.1 + x.1.pnlcomm, t.2)) c.has
    (fun s x => Loop.net_visit s x c) (.start opened xs.length) xs
  have hzero : (Loop.start opened xs.length : Loop ℚ).analysis.net c = (0, 0) := by
    obtain ⟨_ | _ | _, _ | _ | _⟩ := c <;> rfl
  have hsum : ∀ (ys : List (Trade ℚ × ℚ)) (t : ℚ × ℚ),
      ys.foldl (fun t x => (t.1 + x.1.pnlcomm, t.2)) t = (t.1 + (ys.map (·.1.pnlcomm)).sum, t.2) := by
    intro ys
    induction ys with
    | nil => exact fun t => by simp
    | cons y ys ih => exact fun t => by simp [ih, add_assoc]
  rw [hzero, hsum, zero_add] at h
  exact h

theorem lengths_loop (c : Category) :
    (loop opened xs).analysis.lengths c =
      ⟨((c.of xs).map (·.1.barlen)).sum, 0, ((c.of xs).map (·.1.barlen)).foldl max 0,
        ((c.of xs).map (·.1.barlen)).foldl smaller 0⟩ := by
  have h := foldl_class (fun s : Loop ℚ => s.analysis.lengths c) (fun stats x => stats.update x.1.barlen) c.has
    (fun s x => Loop.lengths_visit s x c) (.start opened xs.length) xs
  have hzero : (Loop.start opened xs.length : Loop ℚ).analysis.lengths c = .zero := by
    obtain ⟨_ | _ | _, _ | _ | _⟩ := c <;> rfl
  have hupdate := foldl_update ((c.of xs).map (·.1.barlen)) (LengthStats.zero : LengthStats ℚ)
  rw [List.foldl_map] at hupdate
  rw [hzero] at h
  refine (h.trans hupdate).trans ?_
  rw [show (LengthStats.zero : LengthStats ℚ).total = 0 from rfl, Nat.zero_add]
  rfl

theorem extreme_loop (side : Option Bool) (won : Bool) :
    ((loop opened xs).analysis.extreme side won, (loop opened xs).haveOutcome side won) =
      ((Category.of ⟨side, some won⟩ xs).map (·.1.pnlcomm)).foldl (firstSeen (Loop.pick won)) (0, false) := by
  have h := foldl_class (fun s : Loop ℚ => (s.analysis.extreme side won, s.haveOutcome side won))
    (fun m x => firstSeen (Loop.pick won) m x.1.pnlcomm) (Category.has ⟨side, some won⟩)
    (fun s x => Loop.extreme_visit s x side won) (.start opened xs.length) xs
  have hzero : ((Loop.start opened xs.length : Loop ℚ).analysis.extreme side won,
      (Loop.start opened xs.length : Loop ℚ).haveOutcome side won) = (0, false) := by
    rcases side with _ | _ | _ <;> cases won <;> rfl
  rw [hzero] at h
  rw [List.foldl_map]
  exact h

theorem haveTrade_loop (isLong : Bool) :
    (loop opened xs).haveTrade isLong = !(Category.of ⟨some isLong, none⟩ xs).isEmpty := by
  have h := foldl_class (fun s : Loop ℚ => s.haveTrade isLong) (fun _ _ => true) (Category.has ⟨some isLong, none⟩)
    (fun s x => Loop.haveTrade_visit s x isLong) (.start opened xs.length) xs
  have hzero : (Loop.start opened xs.length : Loop ℚ).haveTrade isLong = false := by cases isLong <;> rfl
  have hseen : ∀ ys : List (Trade ℚ × ℚ), ys.foldl (fun _ _ => true) false = !ys.isEmpty := by
    intro ys
    induction ys using List.reverseRecOn with
    | nil => rfl
    | append_singleton ys y _ => simp
  rw [hzero, hseen] at h
  exact h

theorem streak_loop :
    Runs isWon xs ((loop opened xs).analysis.streak.won.current, (loop opened xs).analysis.streak.won.longest) ∧
    Runs (fun x => !isWon x) xs
      ((loop opened xs).analysis.streak.lost.current, (loop opened xs).analysis.streak.lost.longest) := by
  have hwon := foldl_class (fun s : Loop ℚ => (s.analysis.streak.won.current, s.analysis.streak.won.longest))
    (streak isWon) (fun _ => true) (fun s x => (Loop.streak_visit s x).1) (.start opened xs.length) xs
  have hlost := foldl_class (fun s : Loop ℚ => (s.analysis.streak.lost.current, s.analysis.streak.lost.longest))
    (streak fun x => !isWon x) (fun _ => true) (fun s x => (Loop.streak_visit s x).2) (.start opened xs.length) xs
  rw [List.filter_eq_self.2 fun _ _ => rfl] at hwon hlost
  exact ⟨hwon ▸ .foldl xs, hlost ▸ .foldl xs⟩

/-! ### After the loop -/

/-- The average of a total over a count, 0 where there is nothing. -/
def averageOf (total : ℚ) (count : Nat) : ℚ := if 0 < count then total / Arith.ofCount count else 0

theorem ofCount_pos_iff {n : Nat} : (0 : ℚ) < Arith.ofCount n ↔ 0 < n := by
  rw [ExtendedMetricsCalculator.ofCount_rat, Nat.cast_pos]

theorem PnlSummary.finish_eq {s : PnlSummary ℚ} (h : s.average = 0) (count : Nat) :
    s.finish count = ⟨s.total, averageOf s.total count, s.max⟩ := by
  unfold finish averageOf
  split_ifs
  · rfl
  · rw [← h]

theorem LengthStats.finish_eq {s : LengthStats ℚ} (h : s.average = 0) (count : Nat) :
    s.finish count = ⟨s.total, averageOf (Arith.ofCount s.total) count, s.max, s.min⟩ := by
  unfold finish averageOf
  split_ifs
  · rfl
  · rw [← h]

theorem PnlSummary.max_finish (s : PnlSummary ℚ) (count : Nat) : (s.finish count).max = s.max := by
  unfold finish
  split_ifs <;> rfl

theorem LengthStats.min_finish (s : LengthStats ℚ) (count : Nat) : (s.finish count).min = s.min := by
  unfold finish
  split_ifs <;> rfl

theorem PnlSummary.clear_eq (s : PnlSummary ℚ) (seen : Bool) :
    s.clear seen = ⟨s.total, s.average, if seen then s.max else 0⟩ := by
  unfold clear
  split_ifs <;> rfl

theorem LengthStats.clear_eq {s : LengthStats ℚ} {seen : Bool} (h : seen = false → s.min = 0) : s.clear seen = s := by
  unfold clear
  split_ifs with hseen
  · rfl
  · rw [← h (Bool.eq_false_iff.2 hseen)]

namespace Loop
variable {s : Loop ℚ}

theorem count_finish (c : Category) : s.finish.count c = s.analysis.count c := by
  obtain ⟨_ | _ | _, _ | _ | _⟩ := c <;> rfl

theorem side_finish (isLong : Bool) : s.finish.side isLong =
    (finalizeDirectional (s.analysis.side isLong) (s.analysis.len.side (some isLong)) (s.haveTrade isLong)).1 := by
  cases isLong <;> rfl

theorem len_finish (isLong : Bool) : s.finish.len.side (some isLong) =
    (finalizeDirectional (s.analysis.side isLong) (s.analysis.len.side (some isLong)) (s.haveTrade isLong)).2 := by
  cases isLong <;> rfl

theorem net_finish {c : Category} (h : (s.analysis.net c).2 = 0) :
    s.finish.net c = ((s.analysis.net c).1, averageOf (s.analysis.net c).1 (s.analysis.count c)) := by
  obtain ⟨_ | isLong, _ | _ | _⟩ := c
  · simp only [Report.net] at h
    simp [finish, Report.net, Report.count, averageOf, ofCount_pos_iff, h]
  · simp [finish, Report.net, Report.count, PnlSummary.finish_eq h, PnlSummary.clear_eq]
  · simp [finish, Report.net, Report.count, PnlSummary.finish_eq h, PnlSummary.clear_eq]
  · simp only [Report.net] at h
    simp [Report.net, side_finish, finalizeDirectional, Report.count, averageOf, h]
  · simp [Report.net, side_finish, finalizeDirectional, Report.count, PnlSummary.finish_eq h, PnlSummary.clear_eq]
  · simp [Report.net, side_finish, finalizeDirectional, Report.count, PnlSummary.finish_eq h, PnlSummary.clear_eq]

theorem gross_finish (h : s.analysis.pnl.gross.average = 0) : s.finish.pnl.gross =
    { s.analysis.pnl.gross with average := averageOf s.analysis.pnl.gross.total s.analysis.total.closed } := by
  by_cases hn : 0 < s.analysis.total.closed <;> simp [finish, averageOf, ofCount_pos_iff, h, hn]

/-- The reset of a minimum changes nothing. -/
theorem lengths_finish {c : Category} (h : (s.analysis.lengths c).average = 0)
    (hmin : s.analysis.count c = 0 → (s.analysis.lengths c).min = 0)
    (hside : ∀ isLong, c = ⟨some isLong, none⟩ → s.haveTrade isLong = false → (s.analysis.lengths c).min = 0) :
    s.finish.lengths c = { s.analysis.lengths c with
      average := averageOf (Arith.ofCount (s.analysis.lengths c).total) (s.analysis.count c) } := by
  obtain ⟨_ | isLong, _ | _ | _⟩ := c
  · have h' : s.analysis.len.totalStats.average = 0 := h
    by_cases hn : 0 < s.analysis.total.closed <;>
      simp [finish, Report.lengths, Lengths.side, DirectionalLength.outcome, Report.count, averageOf, ofCount_pos_iff,
        h', hn]
  · exact LengthStats.finish_eq h _
  · exact LengthStats.finish_eq h _
  · have hfinish := LengthStats.finish_eq h (s.analysis.side isLong).total
    unfold Report.lengths
    dsimp only
    rw [len_finish]
    refine (LengthStats.clear_eq fun hseen => ?_).trans hfinish
    rw [LengthStats.min_finish]
    exact hside isLong rfl hseen
  · have hfinish := LengthStats.finish_eq h (s.analysis.side isLong).lost
    unfold Report.lengths
    dsimp only
    rw [len_finish]
    refine (LengthStats.clear_eq fun hseen => ?_).trans hfinish
    rw [LengthStats.min_finish]
    exact hmin (not_not.1 (of_decide_eq_false hseen))
  · have hfinish := LengthStats.finish_eq h (s.analysis.side isLong).won
    unfold Report.lengths
    dsimp only
    rw [len_finish]
    refine (LengthStats.clear_eq fun hseen => ?_).trans hfinish
    rw [LengthStats.min_finish]
    exact hmin (not_not.1 (of_decide_eq_false hseen))

theorem extreme_finish {side : Option Bool} {won : Bool}
    (h : s.haveOutcome side won = decide (0 < s.analysis.count ⟨side, some won⟩)) :
    s.finish.extreme side won = if 0 < s.analysis.count ⟨side, some won⟩ then s.analysis.extreme side won else 0 := by
  rcases side with _ | isLong <;> cases won
  · have h' : s.haveLostTrade = decide (0 < s.analysis.lost.total) := h
    by_cases hn : 0 < s.analysis.lost.total <;>
      simp [finish, Report.extreme, PnlSummary.clear_eq, PnlSummary.max_finish, Report.count, h', hn]
  · have h' : s.haveWonTrade = decide (0 < s.analysis.won.total) := h
    by_cases hn : 0 < s.analysis.won.total <;>
      simp [finish, Report.extreme, PnlSummary.clear_eq, PnlSummary.max_finish, Report.count, h', hn]
  · by_cases hn : 0 < (s.analysis.side isLong).lost <;>
      simp [Report.extreme, side_finish, finalizeDirectional, PnlSummary.clear_eq, PnlSummary.max_finish, Report.count, hn]
  · by_cases hn : 0 < (s.analysis.side isLong).won <;>
      simp [Report.extreme, side_finish, finalizeDirectional, PnlSummary.clear_eq, PnlSummary.max_finish, Report.count, hn]

end Loop

/-! ### What is reported of each category -/

namespace Category
variable {M : Type} [AddCommMonoid M] (f : Trade ℚ × ℚ → M) (xs : List (Trade ℚ × ℚ))

theorem sum_outcomes (side : Option Bool) : ((of ⟨side, none⟩ xs).map f).sum =
    ((of ⟨side, some true⟩ xs).map f).sum + ((of ⟨side, some false⟩ xs).map f).sum := by
  unfold of
  induction xs with
  | nil => simp
  | cons x xs ih =>
    cases hside : side.all (· == x.1.islong) <;> cases hwon : isWon x <;>
      simp [has, hside, hwon, ih, add_assoc, add_left_comm]

theorem sum_sides (won : Option Bool) : ((of ⟨none, won⟩ xs).map f).sum =
    ((of ⟨some true, won⟩ xs).map f).sum + ((of ⟨some false, won⟩ xs).map f).sum := by
  unfold of
  induction xs with
  | nil => simp
  | cons x xs ih =>
    cases hlong : x.1.islong <;> cases hwon : won.all (· == isWon x) <;>
      simp [has, hlong, hwon, ih, add_assoc, add_left_comm]

theorem length_outcomes (side : Option Bool) :
    (of ⟨side, none⟩ xs).length = (of ⟨side, some true⟩ xs).length + (of ⟨side, some false⟩ xs).length := by
  have h := sum_outcomes (fun _ => (1 : Nat)) xs side
  simp only [List.map_const', List.sum_replicate, smul_eq_mul, mul_one] at h
  exact h

theorem length_sides (won : Option Bool) :
    (of ⟨none, won⟩ xs).length = (of ⟨some true, won⟩ xs).length + (of ⟨some false, won⟩ xs).length := by
  have h := sum_sides (fun _ => (1 : Nat)) xs won
  simp only [List.map_const', List.sum_replicate, smul_eq_mul, mul_one] at h
  exact h

end Category

section
variable {opened xs}

theorem count_analyze (c : Category) : (analyzeTrades opened xs).count c = (c.of xs).length :=
  (Loop.count_finish c).trans (count_loop opened xs c)

theorem net_analyze (c : Category) : (analyzeTrades opened xs).net c =
    (((c.of xs).map (·.1.pnlcomm)).sum, averageOf ((c.of xs).map (·.1.pnlcomm)).sum (c.of xs).length) := by
  have hnet := net_loop opened xs c
  have h := Loop.net_finish (s := loop opened xs) (congrArg Prod.snd hnet)
  rw [hnet, count_loop] at h
  exact h

theorem lengths_analyze (c : Category) :
    let bars := (c.of xs).map (·.1.barlen)
    (analyzeTrades opened xs).lengths c =
      ⟨bars.sum, averageOf (Arith.ofCount bars.sum) (c.of xs).length, bars.foldl max 0, bars.foldl smaller 0⟩ := by
  intro bars
  have hlen : (loop opened xs).analysis.lengths c = ⟨bars.sum, 0, bars.foldl max 0, bars.foldl smaller 0⟩ :=
    lengths_loop opened xs c
  have hempty : c.of xs = [] → bars.foldl smaller 0 = 0 := by
    intro h0
    simp [bars, h0]
  have h := Loop.lengths_finish (s := loop opened xs) (c := c) (by rw [hlen]) ?_ ?_
  · rw [hlen, count_loop] at h
    exact h
  · intro h0
    rw [count_loop] at h0
    rw [hlen]
    exact hempty (List.eq_nil_of_length_eq_zero h0)
  · rintro isLong rfl h0
    rw [haveTrade_loop] at h0
    rw [hlen]
    exact hempty (by simpa using h0)

theorem extreme_analyze (side : Option Bool) (won : Bool) :
    let results := (Category.of ⟨side, some won⟩ xs).map (·.1.pnlcomm)
    (results = [] → (analyzeTrades opened xs).extreme side won = 0) ∧
    (results ≠ [] → won = true → IsGreatest {r | r ∈ results} ((analyzeTrades opened xs).extreme side won)) ∧
    (results ≠ [] → won = false → IsLeast {r | r ∈ results} ((analyzeTrades opened xs).extreme side won)) := by
  intro results
  have hloop : ((loop opened xs).analysis.extreme side won, (loop opened xs).haveOutcome side won) =
      results.foldl (firstSeen (Loop.pick won)) (0, false) := extreme_loop opened xs side won
  have hcount : (loop opened xs).analysis.count ⟨side, some won⟩ = results.length := by
    rw [count_loop, List.length_map]
  generalize results = results at hloop hcount
  match results with
  | [] =>
    obtain ⟨-, hnone⟩ := Prod.mk.inj hloop
    have h := Loop.extreme_finish (s := loop opened xs) (hnone.trans (by rw [hcount]; rfl))
    rw [hcount] at h
    exact ⟨fun _ => h, fun hne => absurd rfl hne, fun hne => absurd rfl hne⟩
  | r :: rest =>
    rw [foldl_firstSeen] at hloop
    obtain ⟨hm, hsome⟩ := Prod.mk.inj hloop
    have h := Loop.extreme_finish (s := loop opened xs) (hsome.trans (by rw [hcount]; simp))
    rw [hcount, List.length_cons, if_pos (Nat.succ_pos _), hm] at h
    refine ⟨fun hnil => absurd hnil (List.cons_ne_nil r rest), fun _ hwon => ?_, fun _ hwon => ?_⟩
    · subst hwon
      have hmax : Loop.pick true = (max : ℚ → ℚ → ℚ) := funext₂ Arith.max_rat
      rw [hmax] at h
      exact h ▸ isGreatest_foldl_max r rest
    · subst hwon
      have hmin : Loop.pick false = (min : ℚ → ℚ → ℚ) := funext₂ Arith.min_rat
      rw [hmin] at h
      exact h ▸ isLeast_foldl_min r rest

variable (opened xs) in
theorem gross_loop : (loop opened xs).analysis.pnl.gross = ⟨(xs.map (·.1.pnl)).sum, 0, 0⟩ := by
  have h : ∀ s : Loop ℚ, (xs.foldl Loop.visit s).analysis.pnl.gross =
      { s.analysis.pnl.gross with total := s.analysis.pnl.gross.total + (xs.map (·.1.pnl)).sum } := by
    induction xs with
    | nil => exact fun s => by simp
    | cons x xs ih =>
      intro s
      rw [List.foldl_cons, ih, List.map_cons, List.sum_cons, ← add_assoc]
      rfl
  have hstart := h (.start opened xs.length)
  rw [show (Loop.start opened xs.length : Loop ℚ).analysis.pnl.gross = .zero from rfl] at hstart
  rw [PnlSummary.zero, zero_add] at hstart
  exact hstart

theorem gross_analyze : (analyzeTrades opened xs).pnl.gross =
    ⟨(xs.map (·.1.pnl)).sum, averageOf (xs.map (·.1.pnl)).sum xs.length, 0⟩ := by
  have hgross := gross_loop opened xs
  have h := Loop.gross_finish (congrArg PnlSummary.average hgross)
  rw [hgross, total_loop] at h
  exact h

end

/-! ### The report -/

theorem PnlSummary.total_finish (s : PnlSummary α) (count : Nat) (seen : Bool) :
    ((s.finish count).clear seen).total = s.total := by
  unfold clear finish
  split_ifs <;> rfl

/-- The totals that the report reads are those of the whole analysis. -/
theorem reported_analyzeBroker (b : BackBroker α W) : (analyzeBroker b).reported.toAnalysis = analyze b := by
  let counted (r : Report α) : Analysis α :=
    ⟨r.total.open, r.total.closed, r.won.total, r.lost.total, r.won.pnl.total, r.lost.pnl.total⟩
  have hvisit : ∀ (s : Loop α) (x : Trade α × α), counted (s.visit x).analysis = (counted s.analysis).count x.1 := by
    intro s x
    by_cases hwon : 0 ≤ x.1.pnlcomm
    · simp [counted, Loop.visit, Loop.add, isWon, Analysis.count, Trade.closedPnl, PnlSummary.add, hwon]
    · simp [counted, Loop.visit, Loop.add, isWon, Analysis.count, Trade.closedPnl, PnlSummary.add, hwon]
  have hloop := foldl_class (fun s : Loop α => counted s.analysis) (fun a x => a.count x.1) (fun _ => true) hvisit
    (.start b.openTrades.length b.closedTrades.length) b.closedTrades
  rw [List.filter_eq_self.2 fun _ _ => rfl] at hloop
  refine Eq.trans ?_ hloop
  simp [analyzeBroker, analyzeTrades, Report.reported, Loop.finish, PnlSummary.total_finish, counted]

/-! ### The decomposition -/

/-- What the figures of a report have to do with each other and with the trades. -/
structure Report.Decomposes (r : Report ℚ) (xs : List (Trade ℚ × ℚ)) : Prop where
  closed : r.total.closed = xs.length
  counts : ∀ c, r.count c = (c.of xs).length
  outcomes : r.won.total + r.lost.total = r.total.closed
  sides : r.longSide.total + r.shortSide.total = r.total.closed
  won : r.longSide.won + r.shortSide.won = r.won.total
  lost : r.longSide.lost + r.shortSide.lost = r.lost.total
  nets : ∀ c, (r.net c).1 = ((c.of xs).map (·.1.pnlcomm)).sum
  netOutcomes : r.pnl.net.total = r.won.pnl.total + r.lost.pnl.total
  netSides : r.pnl.net.total = r.longSide.pnl.total + r.shortSide.pnl.total
  netSide : ∀ isLong, (r.side isLong).pnl.total = (r.side isLong).pnl.won.total + (r.side isLong).pnl.lost.total
  netAverages : ∀ c, (r.net c).2 * r.count c = (r.net c).1
  grossAverage : r.pnl.gross.average * r.total.closed = r.pnl.gross.total
  lengthAverages : ∀ c, (r.lengths c).average * r.count c = (r.lengths c).total
  /-- Of all, of the long and of the short trades. -/
  best : ∀ side, let results := (Category.of ⟨side, some true⟩ xs).map (·.1.pnlcomm)
    (results ≠ [] → IsGreatest {p | p ∈ results} (r.extreme side true)) ∧ (results = [] → r.extreme side true = 0)
  worst : ∀ side, let results := (Category.of ⟨side, some false⟩ xs).map (·.1.pnlcomm)
    (results ≠ [] → IsLeast {p | p ∈ results} (r.extreme side false)) ∧ (results = [] → r.extreme side false = 0)
  wonStreak : IsGreatest {n | HasRun isWon xs n} r.streak.won.longest
  lostStreak : IsGreatest {n | HasRun (fun x => !isWon x) xs n} r.streak.lost.longest

theorem averageOf_mul {total : ℚ} {count : Nat} (h : count = 0 → total = 0) : averageOf total count * count = total :=
  ExtendedMetricsCalculator.average_mul h

theorem analysis_decomposes (opened : Nat) (xs : List (Trade ℚ × ℚ)) : (analyzeTrades opened xs).Decomposes xs := by
  have hclosed : (analyzeTrades opened xs).total.closed = xs.length := congrArg Total.closed (total_loop opened xs)
  have hcount := @count_analyze opened xs
  have hnet : ∀ c, ((analyzeTrades opened xs).net c).1 = ((Category.of c xs).map (·.1.pnlcomm)).sum := fun c =>
    congrArg Prod.fst (net_analyze c)
  have houtcomes := Category.length_outcomes xs none
  have hsides := Category.length_sides xs
  have hnetOutcomes := Category.sum_outcomes (fun x => x.1.pnlcomm) xs
  have hnetSides := Category.sum_sides (fun x => x.1.pnlcomm) xs none
  simp only [← hcount] at houtcomes hsides
  simp only [← hnet] at hnetOutcomes hnetSides
  constructor
  case closed => exact hclosed
  case counts => exact hcount
  case outcomes => exact houtcomes.symm
  case sides => exact (hsides none).symm
  case won => exact (hsides (some true)).symm
  case lost => exact (hsides (some false)).symm
  case nets => exact hnet
  case netOutcomes => exact hnetOutcomes none
  case netSides => exact hnetSides
  case netSide => exact fun isLong => hnetOutcomes (some isLong)
  case netAverages =>
    intro c
    rw [hcount, net_analyze]
    refine averageOf_mul fun h0 => ?_
    rw [List.eq_nil_of_length_eq_zero h0]
    rfl
  case grossAverage =>
    rw [hclosed, gross_analyze]
    refine averageOf_mul fun h0 => ?_
    rw [List.eq_nil_of_length_eq_zero h0]
    rfl
  case lengthAverages =>
    intro c
    rw [hcount, lengths_analyze]
    dsimp only
    rw [averageOf_mul, ExtendedMetricsCalculator.ofCount_rat]
    intro h0
    rw [List.eq_nil_of_length_eq_zero h0, ExtendedMetricsCalculator.ofCount_rat]
    rfl
  case best =>
    intro side results
    obtain ⟨hnone, hbest, -⟩ := @extreme_analyze opened xs side true
    exact ⟨fun hne => hbest hne rfl, hnone⟩
  case worst =>
    intro side results
    obtain ⟨hnone, -, hworst⟩ := @extreme_analyze opened xs side false
    exact ⟨fun hne => hworst hne rfl, hnone⟩
  case wonStreak => exact (streak_loop opened xs).1.longest
  case lostStreak => exact (streak_loop opened xs).2.longest

/-! ### The lengths -/

/-- The lengths of a category as they are reported and as they are. -/
structure LengthStats.Exact (s : LengthStats ℚ) (bars : List Nat) : Prop where
  total : s.total = bars.sum
  average : s.average = if bars = [] then 0 else (bars.sum : ℚ) / bars.length
  empty : bars = [] → s.max = 0 ∧ s.min = 0
  max : bars ≠ [] → IsGreatest {b | b ∈ bars} s.max
  min : bars ≠ [] → IsLeast {b | b ∈ bars} s.min

/-- All but the minimum is always right. -/
theorem exact_iff_min (opened : Nat) (xs : List (Trade ℚ × ℚ)) (c : Category) :
    let bars := (c.of xs).map (·.1.barlen)
    ((analyzeTrades opened xs).lengths c).Exact bars ↔ (0 ∈ bars → bars.getLast? = some 0) := by
  intro bars
  have hstats : (analyzeTrades opened xs).lengths c =
      ⟨bars.sum, averageOf (Arith.ofCount bars.sum) bars.length, bars.foldl Max.max 0, bars.foldl smaller 0⟩ := by
    rw [List.length_map]
    exact lengths_analyze c
  rw [hstats]
  generalize bars = bars
  match bars with
  | [] => exact ⟨fun _ h0 => absurd h0 List.not_mem_nil, fun _ =>
      ⟨rfl, rfl, fun _ => ⟨rfl, rfl⟩, fun hne => absurd rfl hne, fun hne => absurd rfl hne⟩⟩
  | bar :: rest =>
    have hne : bar :: rest ≠ [] := List.cons_ne_nil bar rest
    rw [← isLeast_foldl_smaller_iff hne]
    refine ⟨fun h => h.min hne, fun h => ⟨rfl, ?_, fun hnil => absurd hnil hne, fun _ => ?_, fun _ => h⟩⟩
    · unfold averageOf
      rw [if_neg hne, if_pos (List.length_pos_of_ne_nil hne), ExtendedMetricsCalculator.ofCount_rat,
        ExtendedMetricsCalculator.ofCount_rat]
    · have hgreatest := isGreatest_foldl_max bar rest
      rwa [← Nat.zero_max bar] at hgreatest

/-- The lengths are right when in no category a length of 0 comes before the last one. -/
theorem lengths_exact_iff (opened : Nat) (xs : List (Trade ℚ × ℚ)) :
    (∀ c : Category, ((analyzeTrades opened xs).lengths c).Exact ((c.of xs).map (·.1.barlen))) ↔
      ∀ c : Category, let bars := (c.of xs).map (·.1.barlen)
        0 ∈ bars → bars.getLast? = some 0 :=
  forall_congr' fun c => exact_iff_min opened xs c

/-- A closed trade that broke even after so many bars. -/
def lasting (bars : Nat) : Trade ℚ :=
  { id := 1, dataIndex := 0, status := .Closed, size := 0, entryPrice := 10, price := 10, exitPrice := 10, value := 0
    commission := 0, pnl := 0, pnlcomm := 0, justopened := false, isopen := false, isclosed := true, islong := true
    entryBar := 0, exitBar := bars, barlen := bars, entryTime := 0, exitTime := 0, candidateId := 0 }

/-- Opened and closed on one bar; the next trade takes five. -/
theorem not_lengths_exact : ¬ ∀ (opened : Nat) (xs : List (Trade ℚ × ℚ)) (c : Category),
    ((analyzeTrades opened xs).lengths c).Exact ((c.of xs).map (·.1.barlen)) := by
  intro h
  have hmin := (h 0 [(lasting 0, 1), (lasting 5, 1)] ⟨none, none⟩).min (by decide +kernel)
  have hle := hmin.2 (by decide +kernel : 0 ∈ _)
  revert hle
  decide +kernel

end TradeAnalyzer
end StratForge
