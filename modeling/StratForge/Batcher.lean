import Mathlib.Data.List.Range
import StratForge.Account
import StratForge.Line
import StratForge.Outbox

/-!
# The increment stream

`IncrementBatcher`: an observer that gathers bars, trades and equity points and hands them to a callback
in snapshots, when enough bars wait, when enough time has passed and at the end. `Stream` is the observer
with the candidate collector that it drains and the snapshots its callback has been given; a `Call` is
what the engine does to either.

`Accounted`: what the snapshots carry with what still waits is what has been produced. It is kept by every
call, whatever the clock reads (`step_accounted`), so a run ends with everything delivered (`run_lossless`).
-/

namespace StratForge

/-! ### The snapshots -/

/-- The bar as a snapshot has it. -/
structure Bar (α : Type) where
  timestamp : DateTime
  «open» : α
  high : α
  low : α
  close : α
  volume : α
deriving DecidableEq, Repr

structure EquityPoint (α : Type) where
  timestamp : DateTime
  portfolioValue : α
  cash : α
  drawdownPct : α
deriving DecidableEq, Repr

structure TradeRecord (α : Type) where
  tradeId : Nat
  dataIndex : Nat
  size : α
  entryPrice : α
  exitPrice : α
  commission : α
  pnl : α
  pnlNet : α
  entryBar : Nat
  exitBar : Nat
  status : Nat
  entryTime : DateTime
  exitTime : DateTime
deriving DecidableEq, Repr

structure MetricsSnapshot (α : Type) where
  realizedPnl : α
  unrealizedPnl : α
  totalReturnPct : α
  currentDdPct : α
  maxDdPct : α
  tradeCount : Nat
  winningCount : Nat
  losingCount : Nat
  winRatePct : α
deriving DecidableEq, Repr

inductive TerminationReason
  | Normal | ConnectorLost | RiskBreach | ExternalStop | FatalError
deriving DecidableEq, Repr

/-- `C` and `O` are the collector's candidates and outcomes. -/
structure IncrementSnapshot (α C O : Type) where
  seq : Nat
  newBars : List (Bar α)
  newTrades : List (TradeRecord α)
  newEquityPoints : List (EquityPoint α)
  currentMetrics : MetricsSnapshot α
  processedBars : Nat
  totalBars : Option Nat
  isFinal : Bool
  termination : Option TerminationReason
  droppedSinceLastFlush : Nat
  newCandidates : List C
  newOutcomes : List O

/-! ### What the observer reads and what it drains -/

/-- What `next` reads off the broker and the feeds; feed 0 gives its size and its current bar. -/
structure Reading (α : Type) where
  feed0 : Option (Nat × Bar α)
  portfolioValue : α
  cash : α
  initialCash : α
deriving DecidableEq, Repr

/-- What the collector has not been asked for yet. -/
structure CandidateCollector (C O : Type) where
  pendingCandidates : List C := []
  pendingOutcomes : List O := []

namespace CandidateCollector
variable {C O : Type}

def drainPendingCandidates (c : CandidateCollector C O) : List C × CandidateCollector C O :=
  (c.pendingCandidates, { c with pendingCandidates := [] })

def drainPendingOutcomes (c : CandidateCollector C O) : List O × CandidateCollector C O :=
  (c.pendingOutcomes, { c with pendingOutcomes := [] })

end CandidateCollector

/-! ### The observer -/

namespace IncrementBatcher

structure Config where
  maxBarsPerBatch : Nat := 500
  /-- In milliseconds. -/
  maxInterval : Int := 100
  emitFirstBarImmediately : Bool := true

end IncrementBatcher

/-- Times of the steady clock are in nanoseconds. -/
structure IncrementBatcher (α : Type) where
  config : IncrementBatcher.Config
  seq : Nat
  processedBars : Nat
  totalBars : Option Nat
  pendingBars : List (Bar α)
  pendingTrades : List (TradeRecord α)
  pendingEquity : List (EquityPoint α)
  lastFlushAt : Int
  firstBarSeen : Bool
  initialCash : α
  lastPortfolioValue : α
  lastCash : α
  peak : α
  currentDd : α
  maxDd : α
  closedRealizedPnl : α
  closedTradeCount : Nat
  winningCount : Nat
  losingCount : Nat

/-- The observer, the collector it drains, and the snapshots given to the callback. -/
structure Stream (α C O : Type) where
  batcher : IncrementBatcher α
  collector : Option (CandidateCollector C O)
  emitted : List (IncrementSnapshot α C O)

/-- What happens to the observer and to the collector in a run. -/
inductive Stream.Call (α C O : Type)
  /-- `next`, with the clock at its flush check. -/
  | next (now : Int) (r : Reading α)
  | notifyTrade (t : Trade α) (origSize : α)
  /-- The collector has a new candidate, or a new outcome. -/
  | candidate (c : C)
  | outcome (o : O)

variable {α C O : Type} [Arith α]

/-- `static_cast<double>` of a count. -/
def Arith.ofCount (n : Nat) : α := OfScientific.ofScientific n false 0

/-- `project_trade_`. -/
def Trade.project (t : Trade α) : TradeRecord α :=
  { tradeId := t.id, dataIndex := t.dataIndex, size := t.size, entryPrice := t.entryPrice,
    exitPrice := t.exitPrice, commission := t.commission, pnl := t.pnl, pnlNet := t.pnlcomm,
    entryBar := t.entryBar, exitBar := t.exitBar,
    status := match t.status with
      | .Open => 0
      | .Closed => 1,
    entryTime := t.entryTime, exitTime := t.exitTime }

namespace Reading

def timestamp (r : Reading α) : DateTime :=
  match r.feed0 with
  | some (_, bar) => bar.timestamp
  | none => 0

/-- The drawdown from a peak. -/
def drawdown (r : Reading α) (peak : α) : α :=
  if 0 < peak then (peak - r.portfolioValue) / peak * 100.0 else 0

def equityPoint (r : Reading α) (peak : α) : EquityPoint α :=
  { timestamp := r.timestamp, portfolioValue := r.portfolioValue, cash := r.cash,
    drawdownPct := r.drawdown peak }

end Reading

namespace IncrementBatcher

/-- As constructed; the clock's default is its epoch. -/
def init (config : Config) : IncrementBatcher α :=
  { config, seq := 0, processedBars := 0, totalBars := none, pendingBars := [], pendingTrades := [],
    pendingEquity := [], lastFlushAt := 0, firstBarSeen := false, initialCash := 0,
    lastPortfolioValue := 0, lastCash := 0, peak := 0, currentDd := 0, maxDd := 0,
    closedRealizedPnl := 0, closedTradeCount := 0, winningCount := 0, losingCount := 0 }

def start (s : IncrementBatcher α) (now : Int) : IncrementBatcher α := { s with lastFlushAt := now }

def currentMetrics (s : IncrementBatcher α) : MetricsSnapshot α :=
  let decided := s.winningCount + s.losingCount
  { realizedPnl := s.closedRealizedPnl,
    unrealizedPnl := s.lastPortfolioValue - s.lastCash,
    totalReturnPct :=
      if 0 < s.initialCash then (s.lastPortfolioValue / s.initialCash - 1.0) * 100.0 else 0,
    currentDdPct := s.currentDd,
    maxDdPct := s.maxDd,
    tradeCount := s.closedTradeCount,
    winningCount := s.winningCount,
    losingCount := s.losingCount,
    winRatePct :=
      if decided = 0 then 0 else Arith.ofCount s.winningCount / Arith.ofCount decided * 100.0 }

def notifyTrade (s : IncrementBatcher α) (trade : Trade α) (_origSize : α) : IncrementBatcher α :=
  let s := { s with pendingTrades := s.pendingTrades ++ [trade.project] }
  if trade.status = .Closed then
    let s := { s with closedRealizedPnl := s.closedRealizedPnl + trade.pnlcomm,
                      closedTradeCount := s.closedTradeCount + 1 }
    if 0 < trade.pnlcomm then { s with winningCount := s.winningCount + 1 }
    else if trade.pnlcomm < 0 then { s with losingCount := s.losingCount + 1 }
    else s
  else s

/-- `next`, as far as its flush check. -/
def observe (s : IncrementBatcher α) (r : Reading α) : IncrementBatcher α :=
  let s := if s.firstBarSeen then s
    else
      { s with firstBarSeen := true,
               totalBars := match r.feed0 with
                 | some (size, _) => some size
                 | none => s.totalBars,
               initialCash := r.initialCash }
  let s := match r.feed0 with
    | some (_, bar) => { s with pendingBars := s.pendingBars ++ [bar] }
    | none => s
  let pv := r.portfolioValue
  let peak := if s.peak < pv then pv else s.peak
  let dd := r.drawdown peak
  { s with peak := peak,
           maxDd := if s.maxDd < dd then dd else s.maxDd,
           currentDd := dd,
           lastPortfolioValue := pv,
           lastCash := r.cash,
           pendingEquity := s.pendingEquity ++ [r.equityPoint peak],
           processedBars := s.processedBars + 1 }

/-- Whether the flush check of `next` flushes. -/
def due (s : IncrementBatcher α) (now : Int) : Bool :=
  let firstForce := s.config.emitFirstBarImmediately && s.seq == 0 && !s.pendingBars.isEmpty
  let byCount := decide (s.config.maxBarsPerBatch ≤ s.pendingBars.length)
  let byTime := decide (s.config.maxInterval * 1000000 ≤ now - s.lastFlushAt)
  firstForce || byCount || byTime

section
variable (s : IncrementBatcher α) (r : Reading α) (t : Trade α) (orig : α)

@[simp] theorem observe_pendingBars :
    (s.observe r).pendingBars = s.pendingBars ++ r.feed0.toList.map Prod.snd := by
  unfold observe
  cases s.firstBarSeen <;> cases r.feed0 <;> simp

@[simp] theorem observe_peak : (s.observe r).peak = Arith.max s.peak r.portfolioValue := by
  unfold observe
  cases s.firstBarSeen <;> cases r.feed0 <;> rfl

@[simp] theorem observe_pendingEquity :
    (s.observe r).pendingEquity = s.pendingEquity ++ [r.equityPoint (Arith.max s.peak r.portfolioValue)] := by
  unfold observe
  cases s.firstBarSeen <;> cases r.feed0 <;> rfl

@[simp] theorem observe_pendingTrades : (s.observe r).pendingTrades = s.pendingTrades := by
  unfold observe
  cases s.firstBarSeen <;> cases r.feed0 <;> rfl

@[simp] theorem observe_seq : (s.observe r).seq = s.seq := by
  unfold observe
  cases s.firstBarSeen <;> cases r.feed0 <;> rfl

@[simp] theorem observe_processedBars : (s.observe r).processedBars = s.processedBars + 1 := by
  unfold observe
  cases s.firstBarSeen <;> cases r.feed0 <;> rfl

@[simp] theorem notifyTrade_pendingTrades :
    (s.notifyTrade t orig).pendingTrades = s.pendingTrades ++ [t.project] := by
  unfold notifyTrade
  dsimp only
  split_ifs <;> rfl

@[simp] theorem notifyTrade_pendingBars : (s.notifyTrade t orig).pendingBars = s.pendingBars := by
  unfold notifyTrade
  dsimp only
  split_ifs <;> rfl

@[simp] theorem notifyTrade_pendingEquity : (s.notifyTrade t orig).pendingEquity = s.pendingEquity := by
  unfold notifyTrade
  dsimp only
  split_ifs <;> rfl

@[simp] theorem notifyTrade_peak : (s.notifyTrade t orig).peak = s.peak := by
  unfold notifyTrade
  dsimp only
  split_ifs <;> rfl

@[simp] theorem notifyTrade_seq : (s.notifyTrade t orig).seq = s.seq := by
  unfold notifyTrade
  dsimp only
  split_ifs <;> rfl

@[simp] theorem notifyTrade_processedBars : (s.notifyTrade t orig).processedBars = s.processedBars := by
  unfold notifyTrade
  dsimp only
  split_ifs <;> rfl

end

end IncrementBatcher

namespace Stream
open Outbox

/-- `emit_`. The callback borrows the three buffers; they come back empty. -/
def emit (s : Stream α C O) (isFinal : Bool) : Stream α C O :=
  let b := { s.batcher with seq := s.batcher.seq + 1 }
  let (newCandidates, collector) := match s.collector with
    | some c =>
      let (drained, c) := c.drainPendingCandidates
      (drained, some c)
    | none => ([], none)
  let (newOutcomes, collector) := match collector with
    | some c =>
      let (drained, c) := c.drainPendingOutcomes
      (drained, some c)
    | none => ([], none)
  let snap : IncrementSnapshot α C O :=
    { seq := b.seq, newBars := b.pendingBars, newTrades := b.pendingTrades,
      newEquityPoints := b.pendingEquity, currentMetrics := b.currentMetrics,
      processedBars := b.processedBars, totalBars := b.totalBars, isFinal,
      termination := if isFinal then some .Normal else none,
      droppedSinceLastFlush := 0, newCandidates, newOutcomes }
  { batcher := { b with pendingBars := [], pendingTrades := [], pendingEquity := [] },
    collector, emitted := s.emitted ++ [snap] }

/-- `maybe_flush_(false)`. -/
def maybeFlush (s : Stream α C O) (now : Int) : Stream α C O :=
  if s.batcher.due now then
    let s := s.emit false
    { s with batcher := { s.batcher with lastFlushAt := now } }
  else s

def next (s : Stream α C O) (now : Int) (r : Reading α) : Stream α C O :=
  { s with batcher := s.batcher.observe r }.maybeFlush now

def stop (s : Stream α C O) : Stream α C O := s.emit true

def step (s : Stream α C O) : Call α C O → Stream α C O
  | .next now r => s.next now r
  | .notifyTrade t origSize => { s with batcher := s.batcher.notifyTrade t origSize }
  | .candidate c =>
    { s with collector := s.collector.map fun col =>
        { col with pendingCandidates := col.pendingCandidates ++ [c] } }
  | .outcome o =>
    { s with collector := s.collector.map fun col =>
        { col with pendingOutcomes := col.pendingOutcomes ++ [o] } }

/-- The observer constructed, attached and started. -/
def start (config : IncrementBatcher.Config) (collector : Option (CandidateCollector C O)) (now : Int) :
    Stream α C O :=
  { batcher := (IncrementBatcher.init config).start now, collector, emitted := [] }

/-- The snapshots of a whole run. -/
def run (config : IncrementBatcher.Config) (collector : Option (CandidateCollector C O)) (now : Int)
    (calls : List (Call α C O)) : List (IncrementSnapshot α C O) :=
  (calls.foldl step (start config collector now)).stop.emitted

/-! ### What is produced -/

namespace Call

def bars : Call α C O → List (Bar α)
  | .next _ r => r.feed0.toList.map Prod.snd
  | _ => []

def readings : Call α C O → List (Reading α)
  | .next _ r => [r]
  | _ => []

def trades : Call α C O → List (TradeRecord α)
  | .notifyTrade t _ => [t.project]
  | _ => []

def candidates : Call α C O → List C
  | .candidate c => [c]
  | _ => []

def outcomes : Call α C O → List O
  | .outcome o => [o]
  | _ => []

/-- `next` is given a feed 0, as `Cerebro::run` does: it reads the size of feed 0 before its loop. -/
def HasFeed : Call α C O → Prop
  | .next _ r => r.feed0.isSome
  | _ => True

end Call

/-- One point a reading, its drawdown from the highest value up to it. -/
def equityPoints : α → List (Reading α) → List (EquityPoint α)
  | _, [] => []
  | peak, r :: rs =>
    let peak := Arith.max peak r.portfolioValue
    r.equityPoint peak :: equityPoints peak rs

def highest (rs : List (Reading α)) : α := rs.foldl (fun peak r => Arith.max peak r.portfolioValue) 0

/-- What the collector is asked for: what it had when it was attached and what it gets. -/
def collected {β : Type} (collector : Option (CandidateCollector C O)) (had : CandidateCollector C O → List β)
    (gets : Call α C O → List β) (calls : List (Call α C O)) : List β :=
  collector.toList.flatMap fun col => had col ++ calls.flatMap gets

variable {config : IncrementBatcher.Config} {collector : Option (CandidateCollector C O)}
variable {calls : List (Call α C O)} {s : Stream α C O}

theorem equityPoints_append (peak : α) (rs : List (Reading α)) (r : Reading α) :
    equityPoints peak (rs ++ [r]) = equityPoints peak rs ++
      [r.equityPoint (Arith.max (rs.foldl (fun p x => Arith.max p x.portfolioValue) peak) r.portfolioValue)] := by
  induction rs generalizing peak with
  | nil => rfl
  | cons x xs ih => simp [equityPoints, ih]

theorem highest_append (rs : List (Reading α)) (r : Reading α) :
    highest (rs ++ [r]) = Arith.max (highest rs) r.portfolioValue := by
  rw [highest, List.foldl_append]
  rfl

theorem length_equityPoints (peak : α) (rs : List (Reading α)) : (equityPoints peak rs).length = rs.length := by
  induction rs generalizing peak with
  | nil => rfl
  | cons x xs ih => simp [equityPoints, ih]

/-! ### The invariant -/

/-- What has been emitted and what waits is what the calls have produced. -/
structure Carried (collector : Option (CandidateCollector C O)) (calls : List (Call α C O))
    (s : Stream α C O) : Prop where
  bars : Carries IncrementSnapshot.newBars s.emitted s.batcher.pendingBars (calls.flatMap Call.bars)
  trades : Carries IncrementSnapshot.newTrades s.emitted s.batcher.pendingTrades (calls.flatMap Call.trades)
  equity : Carries IncrementSnapshot.newEquityPoints s.emitted s.batcher.pendingEquity
    (equityPoints 0 (calls.flatMap Call.readings))
  candidates : Carries IncrementSnapshot.newCandidates s.emitted
    (s.collector.toList.flatMap CandidateCollector.pendingCandidates)
    (collected collector CandidateCollector.pendingCandidates Call.candidates calls)
  outcomes : Carries IncrementSnapshot.newOutcomes s.emitted
    (s.collector.toList.flatMap CandidateCollector.pendingOutcomes)
    (collected collector CandidateCollector.pendingOutcomes Call.outcomes calls)
  attached : s.collector.isSome = collector.isSome
  peak : s.batcher.peak = highest (calls.flatMap Call.readings)
  processed : s.batcher.processedBars = (calls.flatMap Call.readings).length
  numbered : s.emitted.map IncrementSnapshot.seq = List.range' 1 s.emitted.length
  seq : s.batcher.seq = s.emitted.length
  counted : Each (fun sofar m => m.processedBars = (sofar.flatMap IncrementSnapshot.newEquityPoints).length)
    s.emitted

theorem start_carried (now : Int) : Carried collector [] (start config collector now : Stream α C O) where
  bars := .start _ _
  trades := .start _ _
  equity := .start _ _
  candidates := by
    have hcol : collected collector CandidateCollector.pendingCandidates Call.candidates ([] : List (Call α C O)) =
        collector.toList.flatMap CandidateCollector.pendingCandidates := by simp [collected]
    rw [hcol]
    exact .start _ _
  outcomes := by
    have hcol : collected collector CandidateCollector.pendingOutcomes Call.outcomes ([] : List (Call α C O)) =
        collector.toList.flatMap CandidateCollector.pendingOutcomes := by simp [collected]
    rw [hcol]
    exact .start _ _
  attached := rfl
  peak := rfl
  processed := rfl
  numbered := rfl
  seq := rfl
  counted := .nil

/-- What an emission leaves behind: nothing waits, and the new snapshot carries what did. -/
theorem emit_cases (s : Stream α C O) (isFinal : Bool) :
    ∃ m : IncrementSnapshot α C O, (s.emit isFinal).emitted = s.emitted ++ [m] ∧
      (m.newBars = s.batcher.pendingBars ∧ m.newTrades = s.batcher.pendingTrades ∧
        m.newEquityPoints = s.batcher.pendingEquity) ∧
      (m.newCandidates = s.collector.toList.flatMap CandidateCollector.pendingCandidates ∧
        m.newOutcomes = s.collector.toList.flatMap CandidateCollector.pendingOutcomes) ∧
      (m.seq = s.batcher.seq + 1 ∧ m.processedBars = s.batcher.processedBars ∧ m.isFinal = isFinal ∧
        m.currentMetrics = s.batcher.currentMetrics) ∧
      (s.emit isFinal).collector = s.collector.map (fun _ => {}) ∧
      (s.emit isFinal).batcher =
        { s.batcher with seq := s.batcher.seq + 1, pendingBars := [], pendingTrades := [], pendingEquity := [] } := by
  unfold emit
  cases s.collector with
  | none => exact ⟨_, rfl, ⟨rfl, rfl, rfl⟩, ⟨rfl, rfl⟩, ⟨rfl, rfl, rfl, rfl⟩, rfl, rfl⟩
  | some c =>
    refine ⟨_, rfl, ⟨rfl, rfl, rfl⟩, ⟨?_, ?_⟩, ⟨rfl, rfl, rfl, rfl⟩, rfl, rfl⟩
    · simp [CandidateCollector.drainPendingCandidates]
    · simp [CandidateCollector.drainPendingCandidates, CandidateCollector.drainPendingOutcomes]

theorem emit_carried (h : Carried collector calls s) (isFinal : Bool) : Carried collector calls (s.emit isFinal) := by
  obtain ⟨m, he, ⟨hb, ht, hq⟩, ⟨hc, ho⟩, ⟨hseq, hpro, -, -⟩, hcol, hbat⟩ := emit_cases s isFinal
  have hlen : (s.emitted ++ [m]).length = s.emitted.length + 1 := by simp
  have hquiet {β : Type} (f : CandidateCollector C O → List β) (hf : f {} = []) :
      (s.emit isFinal).collector.toList.flatMap f = [] := by
    rw [hcol]
    cases s.collector <;> simp [hf]
  have hequity := h.equity.send hq
  constructor
  · rw [he, hbat]
    exact h.bars.send hb
  · rw [he, hbat]
    exact h.trades.send ht
  · rw [he, hbat]
    exact hequity
  · rw [he, hquiet _ rfl]
    exact h.candidates.send hc
  · rw [he, hquiet _ rfl]
    exact h.outcomes.send ho
  · rw [hcol, ← h.attached]
    cases s.collector <;> rfl
  · rw [hbat]
    exact h.peak
  · rw [hbat]
    exact h.processed
  · rw [he, hlen, List.map_append, h.numbered, List.range'_concat]
    simp [hseq, h.seq, Nat.add_comm]
  · rw [he, hbat, hlen, h.seq]
  · -- all the points are out, one for each bar gone through
    rw [he]
    refine h.counted.send ?_
    rw [hequity.delivered, length_equityPoints, hpro, h.processed]

/-! ### The calls -/

section
variable {β : Type} {had : CandidateCollector C O → List β} {gets : Call α C O → List β}

omit [Arith α] in
theorem collected_append {call : Call α C O} (h : gets call = []) :
    collected collector had gets (calls ++ [call]) = collected collector had gets calls := by
  simp [collected, h]

omit [Arith α] in
/-- A queue of the collector, over a call that adds to it if there is a collector. -/
theorem collected_push {f : IncrementSnapshot α C O → List β} {call : Call α C O}
    {add : CandidateCollector C O → CandidateCollector C O}
    (h : Carries f s.emitted (s.collector.toList.flatMap had) (collected collector had gets calls))
    (hattached : s.collector.isSome = collector.isSome) (hadd : ∀ col, had (add col) = had col ++ gets call) :
    Carries f s.emitted ((s.collector.map add).toList.flatMap had) (collected collector had gets (calls ++ [call])) := by
  cases collector with
  | none =>
    have hnone : s.collector = none := by simpa using hattached
    simpa [hnone, collected] using h
  | some col =>
    obtain ⟨kept, hkept⟩ := Option.isSome_iff_exists.1 (hattached.trans rfl)
    have hmore := h.push (gets call)
    simpa [hkept, collected, hadd] using hmore

end

theorem observe_carried (h : Carried collector calls s) (now : Int) (r : Reading α) :
    Carried collector (calls ++ [.next now r]) { s with batcher := s.batcher.observe r } := by
  have hreadings : (calls ++ [Call.next now r]).flatMap Call.readings = calls.flatMap Call.readings ++ [r] := by
    simp [Call.readings]
  constructor
  · simpa [Call.bars] using h.bars.push (r.feed0.toList.map Prod.snd)
  · simpa [Call.trades] using h.trades
  · -- the point has the drawdown from the highest value so far
    have hpoint := h.equity.push [r.equityPoint (Arith.max s.batcher.peak r.portfolioValue)]
    rw [hreadings, equityPoints_append, ← highest, ← h.peak]
    simpa using hpoint
  · rw [collected_append rfl]
    exact h.candidates
  · rw [collected_append rfl]
    exact h.outcomes
  · exact h.attached
  · rw [hreadings, highest_append, ← h.peak]
    exact IncrementBatcher.observe_peak _ _
  · simp [hreadings, h.processed]
  · exact h.numbered
  · simpa using h.seq
  · exact h.counted

theorem notifyTrade_carried (h : Carried collector calls s) (t : Trade α) (origSize : α) :
    Carried collector (calls ++ [.notifyTrade t origSize]) { s with batcher := s.batcher.notifyTrade t origSize } := by
  have hreadings : (calls ++ [Call.notifyTrade t origSize]).flatMap Call.readings = calls.flatMap Call.readings := by
    simp [Call.readings]
  constructor
  · simpa [Call.bars] using h.bars
  · simpa [Call.trades] using h.trades.push [t.project]
  · rw [hreadings]
    simpa using h.equity
  · rw [collected_append rfl]
    exact h.candidates
  · rw [collected_append rfl]
    exact h.outcomes
  · exact h.attached
  · rw [hreadings]
    simpa using h.peak
  · rw [hreadings]
    simpa using h.processed
  · exact h.numbered
  · simpa using h.seq
  · exact h.counted

/-- A call that only reaches the collector. -/
theorem collect_carried (h : Carried collector calls s) {call : Call α C O}
    {add : CandidateCollector C O → CandidateCollector C O}
    (hbars : call.bars = []) (htrades : call.trades = []) (hreadings : call.readings = [])
    (hcandidates : ∀ col, (add col).pendingCandidates = col.pendingCandidates ++ call.candidates)
    (houtcomes : ∀ col, (add col).pendingOutcomes = col.pendingOutcomes ++ call.outcomes) :
    Carried collector (calls ++ [call]) { s with collector := s.collector.map add } := by
  have hquiet : (calls ++ [call]).flatMap Call.readings = calls.flatMap Call.readings := by simp [hreadings]
  constructor
  · simpa [hbars] using h.bars
  · simpa [htrades] using h.trades
  · rw [hquiet]
    exact h.equity
  · exact collected_push h.candidates h.attached hcandidates
  · exact collected_push h.outcomes h.attached houtcomes
  · simpa using h.attached
  · rw [hquiet]
    exact h.peak
  · rw [hquiet]
    exact h.processed
  · exact h.numbered
  · exact h.seq
  · exact h.counted

/-- Flushing or not. -/
theorem maybeFlush_carried (h : Carried collector calls s) (now : Int) : Carried collector calls (s.maybeFlush now) := by
  unfold maybeFlush
  split_ifs
  · have he := emit_carried h false
    exact ⟨he.bars, he.trades, he.equity, he.candidates, he.outcomes, he.attached, he.peak, he.processed,
      he.numbered, he.seq, he.counted⟩
  · exact h

theorem step_carried (h : Carried collector calls s) (call : Call α C O) : Carried collector (calls ++ [call]) (s.step call) := by
  cases call with
  | next now r => exact maybeFlush_carried (observe_carried h now r) now
  | notifyTrade t origSize => exact notifyTrade_carried h t origSize
  | candidate c => exact collect_carried h rfl rfl rfl (fun _ => rfl) fun _ => (List.append_nil _).symm
  | outcome o => exact collect_carried h rfl rfl rfl (fun _ => (List.append_nil _).symm) fun _ => rfl

theorem foldl_carried {done : List (Call α C O)} (h : Carried collector done s) (calls : List (Call α C O)) :
    Carried collector (done ++ calls) (calls.foldl step s) := by
  induction calls generalizing done s with
  | nil => simpa using h
  | cons call rest ih => simpa using ih (step_carried h call)

/-! ### The end of the stream -/

theorem maybeFlush_cases (s : Stream α C O) (now : Int) :
    s.maybeFlush now = s ∨
      s.maybeFlush now = { s.emit false with batcher := { (s.emit false).batcher with lastFlushAt := now } } := by
  unfold maybeFlush
  split_ifs
  exacts [.inr rfl, .inl rfl]

/-- No call ends the stream. -/
theorem step_open (h : ∀ m ∈ s.emitted, m.isFinal = false) (call : Call α C O) :
    ∀ m ∈ (s.step call).emitted, m.isFinal = false := by
  cases call with
  | next now r =>
    obtain ⟨last, he, -, -, ⟨-, -, hlast, -⟩, -⟩ := emit_cases { s with batcher := s.batcher.observe r } false
    intro m hm
    change m ∈ (maybeFlush _ now).emitted at hm
    rcases maybeFlush_cases { s with batcher := s.batcher.observe r } now with hf | hf <;> rw [hf] at hm
    · exact h m hm
    · change m ∈ (emit _ false).emitted at hm
      rw [he, List.mem_append, List.mem_singleton] at hm
      obtain hm | rfl := hm
      exacts [h m hm, hlast]
  | notifyTrade t origSize => exact h
  | candidate c => exact h
  | outcome o => exact h

theorem foldl_open (h : ∀ m ∈ s.emitted, m.isFinal = false) (calls : List (Call α C O)) :
    ∀ m ∈ (calls.foldl step s).emitted, m.isFinal = false := by
  induction calls generalizing s with
  | nil => exact h
  | cons call rest ih => exact ih (step_open h call)

/-- With a feed 0 every snapshot has as many bars as equity points. -/
structure Paired (s : Stream α C O) : Prop where
  waiting : s.batcher.pendingBars.length = s.batcher.pendingEquity.length
  sent : ∀ m ∈ s.emitted, m.newBars.length = m.newEquityPoints.length

theorem emit_paired (h : s.Paired) (isFinal : Bool) : (s.emit isFinal).Paired := by
  obtain ⟨last, he, ⟨hb, -, hq⟩, -, -, -, hbat⟩ := emit_cases s isFinal
  constructor
  · rw [hbat]
    rfl
  · intro m hm
    rw [he, List.mem_append, List.mem_singleton] at hm
    obtain hm | rfl := hm
    · exact h.sent m hm
    · rw [hb, hq, h.waiting]

theorem step_paired (h : s.Paired) {call : Call α C O} (hfeed : call.HasFeed) : (s.step call).Paired := by
  cases call with
  | next now r =>
    obtain ⟨x, hx⟩ := Option.isSome_iff_exists.1 (show r.feed0.isSome from hfeed)
    have hobserve : Paired { s with batcher := s.batcher.observe r } := by
      refine ⟨?_, h.sent⟩
      simp [hx, h.waiting]
    have hemit := emit_paired hobserve false
    show (maybeFlush _ now).Paired
    rcases maybeFlush_cases { s with batcher := s.batcher.observe r } now with hf | hf <;> rw [hf]
    exacts [hobserve, ⟨hemit.waiting, hemit.sent⟩]
  | notifyTrade t origSize => exact ⟨by simpa [step] using h.waiting, h.sent⟩
  | candidate c => exact ⟨h.waiting, h.sent⟩
  | outcome o => exact ⟨h.waiting, h.sent⟩

theorem foldl_paired (h : s.Paired) (hfeed : ∀ call ∈ calls, call.HasFeed) : (calls.foldl step s).Paired := by
  induction calls generalizing s with
  | nil => exact h
  | cons call rest ih =>
    exact ih (step_paired h (hfeed call List.mem_cons_self)) fun c hc => hfeed c (List.mem_cons_of_mem _ hc)

end Stream

/-- The stream has everything once, in order and numbered. -/
structure Delivered {α C O : Type} [Arith α] (collector : Option (CandidateCollector C O))
    (calls : List (Stream.Call α C O)) (emitted : List (IncrementSnapshot α C O)) : Prop where
  bars : emitted.flatMap IncrementSnapshot.newBars = calls.flatMap Stream.Call.bars
  equityPoints : emitted.flatMap IncrementSnapshot.newEquityPoints =
    Stream.equityPoints 0 (calls.flatMap Stream.Call.readings)
  trades : emitted.flatMap IncrementSnapshot.newTrades = calls.flatMap Stream.Call.trades
  candidates : emitted.flatMap IncrementSnapshot.newCandidates =
    Stream.collected collector CandidateCollector.pendingCandidates Stream.Call.candidates calls
  outcomes : emitted.flatMap IncrementSnapshot.newOutcomes =
    Stream.collected collector CandidateCollector.pendingOutcomes Stream.Call.outcomes calls
  seq : emitted.map IncrementSnapshot.seq = List.range' 1 emitted.length
  counted : Outbox.Each (fun sofar m => m.processedBars = (sofar.flatMap IncrementSnapshot.newEquityPoints).length)
    emitted

/-- Besides, it counts its bars and ends once. -/
structure Lossless {α C O : Type} [Arith α] (collector : Option (CandidateCollector C O))
    (calls : List (Stream.Call α C O)) (emitted : List (IncrementSnapshot α C O)) : Prop extends
    Delivered collector calls emitted where
  processed : Outbox.Each (fun sofar m => m.processedBars = (sofar.flatMap IncrementSnapshot.newBars).length) emitted
  final : ∃ before last, emitted = before ++ [last] ∧ last.isFinal = true ∧ ∀ m ∈ before, m.isFinal = false

namespace Stream
variable {α C O : Type} [Arith α] {collector : Option (CandidateCollector C O)}
variable {calls : List (Call α C O)} {s : Stream α C O}

/-- After an emission nothing waits. -/
theorem emit_delivered (h : Carried collector calls s) (isFinal : Bool) :
    Delivered collector calls (s.emit isFinal).emitted := by
  have hemit := emit_carried h isFinal
  obtain ⟨last, -, -, -, -, hcol, hbat⟩ := emit_cases s isFinal
  have hdrained {β : Type} (f : CandidateCollector C O → List β) (hf : f {} = []) :
      (s.emit isFinal).collector.toList.flatMap f = [] := by
    rw [hcol]
    cases s.collector <;> simp [hf]
  constructor
  · have hbars := hemit.bars
    rw [hbat] at hbars
    exact hbars.delivered
  · have hequity := hemit.equity
    rw [hbat] at hequity
    exact hequity.delivered
  · have htrades := hemit.trades
    rw [hbat] at htrades
    exact htrades.delivered
  · have hcandidates := hemit.candidates
    rw [hdrained _ rfl] at hcandidates
    exact hcandidates.delivered
  · have houtcomes := hemit.outcomes
    rw [hdrained _ rfl] at houtcomes
    exact houtcomes.delivered
  · exact hemit.numbered
  · exact hemit.counted

theorem run_delivered (config : IncrementBatcher.Config) (collector : Option (CandidateCollector C O)) (now : Int)
    (calls : List (Call α C O)) : Delivered collector calls (run config collector now calls) :=
  emit_delivered (foldl_carried (start_carried now) calls) true

/-- Whatever the thresholds, the clock and the order of the calls. -/
theorem run_lossless (config : IncrementBatcher.Config) (collector : Option (CandidateCollector C O)) (now : Int)
    (calls : List (Call α C O)) (hfeed : ∀ call ∈ calls, call.HasFeed) :
    Lossless collector calls (run config collector now calls) := by
  have hstart : (start config collector now : Stream α C O).emitted = [] := rfl
  have hopen : ∀ m ∈ (calls.foldl step (start config collector now)).emitted, m.isFinal = false :=
    foldl_open (fun m hm => by simp [hstart] at hm) calls
  have hpaired : ((calls.foldl step (start config collector now)).emit true).Paired :=
    emit_paired (foldl_paired ⟨rfl, fun m hm => by simp [hstart] at hm⟩ hfeed) true
  have hdelivered := run_delivered config collector now calls
  obtain ⟨last, he, -, -, ⟨-, -, hfinal, -⟩, -⟩ := emit_cases (calls.foldl step (start config collector now)) true
  refine ⟨hdelivered, ?_, _, last, he, hfinal, hopen⟩
  intro before m after hm
  have hsent : ∀ x ∈ before ++ [m], x.newEquityPoints.length = x.newBars.length := by
    intro x hx
    refine (hpaired.sent x ?_).symm
    change x ∈ run config collector now calls
    rw [hm]
    simp only [List.mem_append, List.mem_cons, List.not_mem_nil, or_false] at hx ⊢
    tauto
  rw [hdelivered.counted before m after hm, List.length_flatMap, List.length_flatMap, List.map_congr_left hsent]

/-- Two bars, a candidate between them; the first bar goes out at once. -/
def twoBars : List (Call ℚ Nat Nat) :=
  [.next 10 ⟨some (2, ⟨0, 100, 110, 90, 105, 7⟩), 1000, 1000, 1000⟩, .candidate 1, .outcome 1,
   .next 20 ⟨some (2, ⟨60, 105, 106, 95, 99, 4⟩), 900, 1000, 1000⟩]

theorem run_lossless_two :
    Lossless (some {}) twoBars (run {} (some {}) 0 twoBars) ∧ (run {} (some {}) 0 twoBars).length = 2 := by
  refine ⟨run_lossless {} (some {}) 0 twoBars ?_, by decide +kernel⟩
  intro call hcall
  simp only [twoBars, List.mem_cons, List.not_mem_nil, or_false] at hcall
  rcases hcall with rfl | rfl | rfl | rfl
  exacts [rfl, trivial, trivial, rfl]

end Stream

end StratForge
