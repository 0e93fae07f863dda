import StratForge.Batcher
import StratForge.Notified

/-!
# The stream and the report of a run

What a run is known by outside: the snapshots of its `IncrementBatcher` as the wire has them, and the
report that `serialize_results` writes at its end. An `Observed` run is a broker with such an observer;
after each step of the broker the observer is told of the trades that the step has closed, at each bar it
reads the broker.

`Observed.run_calls` gives the observer's side of a run as calls to the stream, which tell of the closed
trades in their order; `Stream.Tally` is what the observer's totals are after them.
-/

namespace StratForge
variable {α W C O : Type} [Arith α]

/-- `duration_cast<milliseconds>(t.time_since_epoch())`. -/
def DateTime.toMillis (t : DateTime) : Int := t.tdiv 1000000

/-! ### The wire -/

inductive WireSide
  | long | short | flat
deriving DecidableEq, Repr

structure WireTrade (α : Type) where
  entryTime : Int
  exitTime : Int
  side : WireSide
  entryPrice : α
  exitPrice : α
  commission : α
  pnl : α
  quantity : α
deriving DecidableEq, Repr

structure WireMetrics (α : Type) where
  totalPnl : α
  totalReturn : α
  totalTrades : Nat
  winningTrades : Nat
  losingTrades : Nat
  winRate : α
deriving DecidableEq, Repr

def TradeRecord.wire (t : TradeRecord α) : WireTrade α :=
  { entryTime := DateTime.toMillis t.entryTime, exitTime := DateTime.toMillis t.exitTime,
    side := if 0 < t.size then .long else if t.size < 0 then .short else .flat,
    entryPrice := t.entryPrice, exitPrice := t.exitPrice, commission := t.commission, pnl := t.pnl,
    quantity := Arith.abs t.size }

def MetricsSnapshot.wire (m : MetricsSnapshot α) : WireMetrics α :=
  { totalPnl := m.realizedPnl + m.unrealizedPnl, totalReturn := m.totalReturnPct,
    totalTrades := m.tradeCount, winningTrades := m.winningCount, losingTrades := m.losingCount,
    winRate := m.winRatePct }

/-! ### The report -/

/-- What the report uses of `TradeAnalyzer::Analysis`. -/
structure Analysis (α : Type) where
  openTotal : Nat
  closedTotal : Nat
  wonTotal : Nat
  lostTotal : Nat
  wonPnl : α
  lostPnl : α

/-- One closed trade. -/
def Analysis.count (a : Analysis α) (trade : Trade α) : Analysis α :=
  let netPnl := trade.pnlcomm
  if 0 ≤ netPnl then { a with wonTotal := a.wonTotal + 1, wonPnl := a.wonPnl + netPnl }
  else { a with lostTotal := a.lostTotal + 1, lostPnl := a.lostPnl + netPnl }

/-- `TradeAnalyzer::analyze`. -/
def TradeAnalyzer.analyze (b : BackBroker α W) : Analysis α :=
  b.closedTrades.foldl (fun a x => a.count x.1)
    { openTotal := b.openTrades.length, closedTotal := b.closedTrades.length, wonTotal := 0, lostTotal := 0,
      wonPnl := 0, lostPnl := 0 }

inductive ReportSide
  | buy | sell
deriving DecidableEq, Repr

structure ReportTrade (α : Type) where
  entryTime : Int
  exitTime : Int
  side : ReportSide
  entryPrice : α
  exitPrice : α
  quantity : α
  pnl : α
  commission : α
deriving DecidableEq, Repr

structure ReportMetrics (α : Type) where
  totalPnl : α
  totalReturn : α
  totalTrades : Nat
  winningTrades : Nat
  losingTrades : Nat
  winRate : α
deriving DecidableEq, Repr

/-- The numbers of `serialize_results` as they are handed to the writer; `feeds` is what the context has,
for `run_backtest` the execution feed alone. -/
def serializeMetrics (b : BackBroker α W) (feeds : List (DataFeed α)) (initialCash : α) :
    Except Error (ReportMetrics α) := do
  let a := TradeAnalyzer.analyze b
  let pv ← b.portfolioValue feeds
  let totalPnl := pv - initialCash
  pure
    { totalPnl,
      totalReturn := if 0 < initialCash then totalPnl / initialCash * 100.0 else 0,
      totalTrades := a.closedTotal,
      winningTrades := a.wonTotal,
      losingTrades := a.lostTotal,
      winRate := if 0 < a.closedTotal then Arith.ofCount a.wonTotal / Arith.ofCount a.closedTotal else 0 }

def DataFeed.timestampAt (feed : DataFeed α) (bar : Nat) : Int :=
  match feed.datetime.data[bar]? with
  | some dt => DateTime.toMillis dt
  | none => 0

/-- A closed trade in the report. -/
def Trade.report (feed : DataFeed α) (trade : Trade α) (origSize : α) : ReportTrade α :=
  { entryTime := feed.timestampAt trade.entryBar, exitTime := feed.timestampAt trade.exitBar,
    side := if trade.islong then .buy else .sell, entryPrice := trade.entryPrice,
    exitPrice := trade.exitPrice, quantity := Arith.abs origSize, pnl := trade.pnlcomm,
    commission := trade.commission }

def serializeTrades (b : BackBroker α W) (feeds : List (DataFeed α)) : List (ReportTrade α) :=
  match feeds with
  | [] => []
  | feed :: _ => b.closedTrades.map fun (trade, origSize) => trade.report feed origSize

/-! ### The run -/

/-- `snapshot_current_bar_`. -/
def Row.snapshot (row : Row α) : Bar α :=
  { timestamp := row.datetime, «open» := row.open, high := row.high, low := row.low, close := row.close,
    volume := row.volume }

/-- The size of feed 0 and its current bar. -/
def Reading.feed0Of (feeds : List (DataFeed α)) : Except Error (Option (Nat × Bar α)) :=
  match feeds with
  | [] => .ok none
  | feed :: _ => do
    let row ← feed.lines.at' 0
    pure (some (feed.size, row.snapshot))

/-- What `next` reads. -/
def Reading.of (b : BackBroker α W) (feeds : List (DataFeed α)) : Except Error (Reading α) := do
  let feed0 ← Reading.feed0Of feeds
  let pv ← b.portfolioValue feeds
  pure { feed0, portfolioValue := pv, cash := b.cash b.baseCcy, initialCash := b.initialCash }

/-- A step of the broker, a bar's end for the observer, or news for its collector. -/
inductive Beat (α C O : Type)
  | op (o : Op α)
  | bar (now : Int) (feeds : List (DataFeed α))
  | candidate (c : C)
  | outcome (o : O)

structure Observed (α W C O : Type) where
  broker : BackBroker α W
  stream : Stream α C O

namespace Observed
open BackBroker

/-- The trades that a step closes; those are the ones it tells of, in this order (`run_told`). -/
def newlyClosed (b b' : BackBroker α W) : List (Trade α × α) := b'.closedTrades.drop b.closedTrades.length

def step (h : Hooks α W) (s : Observed α W C O) : Beat α C O → Except Error (Observed α W C O)
  | .op o =>
    let b := s.broker.step h o
    .ok { broker := b,
          stream := (newlyClosed s.broker b).foldl (fun st (t, orig) => st.step (.notifyTrade t orig)) s.stream }
  | .bar now feeds => do
    let r ← Reading.of s.broker feeds
    pure { s with stream := s.stream.step (.next now r) }
  | .candidate c => .ok { s with stream := s.stream.step (.candidate c) }
  | .outcome o => .ok { s with stream := s.stream.step (.outcome o) }

def start (b : BackBroker α W) (config : IncrementBatcher.Config) (collector : Option (CandidateCollector C O))
    (now : Int) : Observed α W C O :=
  { broker := b, stream := Stream.start config collector now }

/-- A run that no call of `portfolio_value` or `operator[]` ends. -/
def run (h : Hooks α W) (s : Observed α W C O) (beats : List (Beat α C O)) : Except Error (Observed α W C O) :=
  beats.foldlM (step h) s

end Observed

/-- A run of a broker with 1000 in cash, for examples. -/
def Observed.ofBeats (beats : List (Beat ℚ Nat Nat)) : Except Error (Observed ℚ Unit Nat Nat) :=
  (Observed.start BackBroker.funded {} none 0).run (Listener.silent.hooks 0) beats

/-! ### What the observer is told -/

namespace Stream

/-- The trade a call tells of. -/
def Call.told : Call α C O → List (Trade α × α)
  | .notifyTrade t orig => [(t, orig)]
  | _ => []

omit [Arith α] in
theorem flatMap_trades (calls : List (Call α C O)) :
    calls.flatMap Call.trades = (calls.flatMap Call.told).map fun x => x.1.project := by
  rw [List.map_flatMap]
  refine List.flatMap_congr fun call _ => ?_
  cases call <;> rfl

/-- The totals of the observer, from the trades it has been told of. -/
structure Tally (told : List (Trade ℚ × ℚ)) (s : IncrementBatcher ℚ) : Prop where
  realized : s.closedRealizedPnl = ((told.filter (·.1.isClosed)).map (·.1.pnlcomm)).sum
  closed : s.closedTradeCount = told.countP (·.1.isClosed)
  winning : s.winningCount = told.countP fun x => x.1.isClosed && decide (0 < x.1.pnlcomm)
  losing : s.losingCount = told.countP fun x => x.1.isClosed && decide (x.1.pnlcomm < 0)

theorem Tally.notifyTrade {told : List (Trade ℚ × ℚ)} {s : IncrementBatcher ℚ} (h : Tally told s) (t : Trade ℚ) (orig : ℚ) :
    Tally (told ++ [(t, orig)]) (s.notifyTrade t orig) := by
  obtain ⟨hr, hc, hw, hl⟩ := h
  unfold IncrementBatcher.notifyTrade
  dsimp only
  by_cases hst : t.status = .Closed
  · have hclosed : t.isClosed = true := by simp [Trade.isClosed, hst]
    rw [if_pos hst]
    split_ifs with hpos hneg
    · have hnot : ¬ t.pnlcomm < 0 := not_lt.2 hpos.le
      constructor <;> simp [hr, hc, hw, hl, hclosed, hpos, hnot]
    · constructor <;> simp [hr, hc, hw, hl, hclosed, hpos, hneg]
    · constructor <;> simp [hr, hc, hw, hl, hclosed, hpos, hneg]
  · have hopen : t.isClosed = false := by simp [Trade.isClosed, hst]
    rw [if_neg hst]
    constructor <;> simp [hr, hc, hw, hl, hopen]

/-- The calls that tell of nothing leave the totals. -/
theorem Tally.same {told : List (Trade ℚ × ℚ)} {s s' : IncrementBatcher ℚ} (h : Tally told s)
    (hr : s'.closedRealizedPnl = s.closedRealizedPnl) (hc : s'.closedTradeCount = s.closedTradeCount)
    (hw : s'.winningCount = s.winningCount) (hl : s'.losingCount = s.losingCount) : Tally told s' :=
  ⟨hr.trans h.realized, hc.trans h.closed, hw.trans h.winning, hl.trans h.losing⟩

theorem Tally.observe {told : List (Trade ℚ × ℚ)} {s : IncrementBatcher ℚ} (h : Tally told s) (r : Reading ℚ) :
    Tally told (s.observe r) := by
  refine h.same ?_ ?_ ?_ ?_ <;>
  · unfold IncrementBatcher.observe
    cases s.firstBarSeen <;> cases r.feed0 <;> rfl

theorem Tally.emit {told : List (Trade ℚ × ℚ)} {s : Stream ℚ C O} (h : Tally told s.batcher) (isFinal : Bool) :
    Tally told (s.emit isFinal).batcher := by
  obtain ⟨-, -, -, -, -, -, hbat⟩ := emit_cases s isFinal
  rw [hbat]
  exact h.same rfl rfl rfl rfl

theorem Tally.step {told : List (Trade ℚ × ℚ)} {s : Stream ℚ C O} (h : Tally told s.batcher) (call : Call ℚ C O) :
    Tally (told ++ call.told) (s.step call).batcher := by
  cases call with
  | next now r =>
    have hobserve : Tally told (s.batcher.observe r) := h.observe r
    have hemit := Tally.emit (s := { s with batcher := s.batcher.observe r }) hobserve false
    rw [show (Call.next now r : Call ℚ C O).told = [] from rfl, List.append_nil]
    show Tally told (maybeFlush _ now).batcher
    rcases maybeFlush_cases { s with batcher := s.batcher.observe r } now with hf | hf <;> rw [hf]
    exacts [hobserve, hemit.same rfl rfl rfl rfl]
  | notifyTrade t orig => exact h.notifyTrade t orig
  | candidate c =>
    rw [show (Call.candidate c : Call ℚ C O).told = [] from rfl, List.append_nil]
    exact h
  | outcome o =>
    rw [show (Call.outcome o : Call ℚ C O).told = [] from rfl, List.append_nil]
    exact h

theorem foldl_tally {told : List (Trade ℚ × ℚ)} {s : Stream ℚ C O} (h : Tally told s.batcher) (calls : List (Call ℚ C O)) :
    Tally (told ++ calls.flatMap Call.told) (calls.foldl step s).batcher := by
  induction calls generalizing told s with
  | nil => simpa using h
  | cons call rest ih => simpa using ih (h.step call)

theorem start_tally (config : IncrementBatcher.Config) (collector : Option (CandidateCollector C O)) (now : Int) :
    Tally [] (start config collector now : Stream ℚ C O).batcher := ⟨rfl, rfl, rfl, rfl⟩

end Stream

/-! ### The calls of a run -/

namespace Observed
open BackBroker

/-- What a run keeps: the observer has had calls that tell of the closed trades. -/
def Follows (s₀ s : Observed α W C O) : Prop :=
  ∃ calls : List (Stream.Call α C O), s.stream = calls.foldl Stream.step s₀.stream ∧
    calls.flatMap Stream.Call.told = s.broker.closedTrades

theorem enter_closedTrades (b : BackBroker α W) (x : Execution α) (dt : DateTime) :
    b.closedTrades <+: (b.enter x dt).closedTrades := by
  unfold enter
  dsimp only
  unfold updateTrades
  dsimp only
  split_ifs
  · exact List.prefix_rfl
  · exact List.prefix_rfl
  · split
    · exact List.prefix_rfl
    · split_ifs
      exacts [List.prefix_append _ _, List.prefix_append _ _, List.prefix_rfl]

/-- Closed trades stay where they are. -/
theorem kept_closedTrades (l : List (Trade α × α)) : Kept fun b : BackBroker α W => l <+: b.closedTrades where
  same b b' hs h := by
    rw [hs.closedTrades]
    exact h
  enter b x dt _ h := h.trans (enter_closedTrades b x dt)

omit [Arith α] in
theorem newlyClosed_append {b b' : BackBroker α W} (h : b.closedTrades <+: b'.closedTrades) :
    b.closedTrades ++ newlyClosed b b' = b'.closedTrades := by
  obtain ⟨more, hmore⟩ := h
  rw [newlyClosed, ← hmore, List.drop_left]

variable {h : Hooks α W} {s₀ s s' : Observed α W C O}

theorem step_follows (hh : Tame h) (hs : Follows s₀ s) {beat : Beat α C O} (hstep : s.step h beat = .ok s') :
    Follows s₀ s' := by
  obtain ⟨calls, hcalls, htold⟩ := hs
  have hmore {call : Stream.Call α C O} (hquiet : call.told = []) :
      Follows s₀ { s with stream := s.stream.step call } := by
    refine ⟨calls ++ [call], ?_, ?_⟩
    · rw [List.foldl_append, ← hcalls]
      rfl
    · rw [List.flatMap_append, List.flatMap_singleton, hquiet, List.append_nil, htold]
  cases beat with
  | op o =>
    obtain rfl := Except.ok.inj hstep
    have hprefix : s.broker.closedTrades <+: (s.broker.step h o).closedTrades :=
      ((kept_closedTrades s.broker.closedTrades).stays hh).step o List.prefix_rfl
    refine ⟨calls ++ (newlyClosed s.broker (s.broker.step h o)).map fun x => .notifyTrade x.1 x.2, ?_, ?_⟩
    · rw [List.foldl_append, ← hcalls, List.foldl_map]
    · rw [List.flatMap_append, htold, ← newlyClosed_append hprefix, List.flatMap_map]
      simp [Stream.Call.told]
  | bar now feeds =>
    obtain ⟨r, -, hr⟩ := bind_eq_ok.1 hstep
    obtain rfl := Except.ok.inj hr
    exact hmore rfl
  | candidate c =>
    obtain rfl := Except.ok.inj hstep
    exact hmore rfl
  | outcome o =>
    obtain rfl := Except.ok.inj hstep
    exact hmore rfl

theorem run_follows (hh : Tame h) (hs : Follows s₀ s) {beats : List (Beat α C O)} (hrun : s.run h beats = .ok s') :
    Follows s₀ s' := by
  induction beats generalizing s with
  | nil =>
    obtain rfl := Except.ok.inj hrun
    exact hs
  | cons beat rest ih =>
    rw [run, List.foldlM_cons] at hrun
    obtain ⟨s1, hstep, hrest⟩ := bind_eq_ok.1 hrun
    exact ih (step_follows hh hs hstep) hrest

/-- What the books keep, an observed run keeps. -/
theorem run_kept {P : BackBroker α W → Prop} (hP : Kept P) (hh : Tame h) {beats : List (Beat α C O)} (hrun : s.run h beats = .ok s') (hs : P s.broker) :
    P s'.broker := by
  induction beats generalizing s with
  | nil =>
    obtain rfl := Except.ok.inj hrun
    exact hs
  | cons beat rest ih =>
    rw [run, List.foldlM_cons] at hrun
    obtain ⟨s1, hstep, hrest⟩ := bind_eq_ok.1 hrun
    refine ih hrest ?_
    cases beat with
    | op o =>
      obtain rfl := Except.ok.inj hstep
      exact (hP.stays hh).step o hs
    | bar now feeds =>
      obtain ⟨r, -, hr⟩ := bind_eq_ok.1 hstep
      obtain rfl := Except.ok.inj hr
      exact hs
    | candidate c =>
      obtain rfl := Except.ok.inj hstep
      exact hs
    | outcome o =>
      obtain rfl := Except.ok.inj hstep
      exact hs

/-- From a broker with nothing booked. -/
theorem run_calls (hh : Tame h) {b : BackBroker α W} (hf : b.Fresh) {config : IncrementBatcher.Config}
    {collector : Option (CandidateCollector C O)} {now : Int} {beats : List (Beat α C O)}
    (hrun : (start b config collector now).run h beats = .ok s) :
    ∃ calls : List (Stream.Call α C O), s.stream = calls.foldl Stream.step (Stream.start config collector now) ∧
      calls.flatMap Stream.Call.told = s.broker.closedTrades := by
  have hstart : Follows (start b config collector now) (start b config collector now) :=
    ⟨[], rfl, hf.closedTrades.symm⟩
  exact run_follows hh hstart hrun

end Observed

end StratForge
