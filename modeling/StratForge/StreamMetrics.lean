import StratForge.Ledger
import StratForge.Streamed

/-!
# Streamed totals and reported totals

The observer adds up what trades earn when they close, and takes what the portfolio is worth above its
cash for what the open ones have gained: their cost is in neither. Its total is the gain of the portfolio if
and only if the cash has changed by what the closed trades have earned (`CashSettled`), which without
instruments says that the open trades cost nothing on balance (`settled_iff`). At the end of a run it is the
report's if besides nothing is held on other feeds than the report has, and the counts of the two are
equal if every trade in the book of closed ones is closed and none breaks even (`metrics_agree_iff`).
-/

namespace StratForge

namespace BackBroker
variable {W : Type}

/-- What the trades told of as closed have earned. -/
def banked (b : BackBroker ℚ W) : ℚ := ((b.closedTrades.filter (·.1.isClosed)).map (·.1.pnlcomm)).sum

/-- The cash has changed by that. -/
def CashSettled (b : BackBroker ℚ W) : Prop := b.cash b.baseCcy = b.initialCash + b.banked

instance (b : BackBroker ℚ W) : Decidable b.CashSettled := inferInstanceAs (Decidable (_ = _))

end BackBroker

/-! ### Counting trades -/

def Trade.breaksEven (t : Trade ℚ) : Bool := decide (t.pnlcomm = 0)

/-- What is not lost is won or breaks even. -/
theorem countP_won (l : List (Trade ℚ × ℚ)) : l.countP (fun x => decide (0 ≤ x.1.pnlcomm)) =
    l.countP (fun x => decide (0 < x.1.pnlcomm)) + l.countP (·.1.breaksEven) := by
  induction l with
  | nil => rfl
  | cons x l ih =>
    simp only [List.countP_cons, ih, Trade.breaksEven, decide_eq_true_eq]
    rcases lt_trichotomy x.1.pnlcomm 0 with hneg | hzero | hpos
    · rw [if_neg (not_le.2 hneg), if_neg (not_lt.2 hneg.le), if_neg hneg.ne]
      omega
    · rw [if_pos hzero.ge, if_neg hzero.not_gt, if_pos hzero]
      omega
    · rw [if_pos hpos.le, if_pos hpos, if_neg hpos.ne']
      omega

namespace Analysis

theorem foldl_count (l : List (Trade ℚ × ℚ)) (a : Analysis ℚ) :
    (l.foldl (fun a x => a.count x.1) a).closedTotal = a.closedTotal ∧
    (l.foldl (fun a x => a.count x.1) a).wonTotal = a.wonTotal + l.countP (fun x => decide (0 ≤ x.1.pnlcomm)) ∧
    (l.foldl (fun a x => a.count x.1) a).lostTotal = a.lostTotal + l.countP (fun x => decide (x.1.pnlcomm < 0)) := by
  induction l generalizing a with
  | nil => exact ⟨rfl, rfl, rfl⟩
  | cons x l ih =>
    obtain ⟨hc, hw, hl⟩ := ih (a.count x.1)
    rw [List.foldl_cons, hc, hw, hl, List.countP_cons, List.countP_cons]
    unfold count
    dsimp only
    simp only [decide_eq_true_eq]
    by_cases hwon : 0 ≤ x.1.pnlcomm
    · rw [if_pos hwon, if_pos hwon, if_neg (not_lt.2 hwon)]
      exact ⟨rfl, by dsimp only; omega, by dsimp only; omega⟩
    · rw [if_neg hwon, if_neg hwon, if_pos (not_le.1 hwon)]
      exact ⟨rfl, by dsimp only; omega, by dsimp only; omega⟩

end Analysis

theorem TradeAnalyzer.analyze_counts {W : Type} (b : BackBroker ℚ W) :
    (analyze b).closedTotal = b.closedTrades.length ∧
    (analyze b).wonTotal = b.closedTrades.countP (fun x => decide (0 ≤ x.1.pnlcomm)) ∧
    (analyze b).lostTotal = b.closedTrades.countP (fun x => decide (x.1.pnlcomm < 0)) := by
  obtain ⟨hclosed, hwon, hlost⟩ := Analysis.foldl_count b.closedTrades
    { openTotal := b.openTrades.length, closedTotal := b.closedTrades.length, wonTotal := 0, lostTotal := 0,
      wonPnl := 0, lostPnl := 0 }
  exact ⟨hclosed, hwon.trans (Nat.zero_add _), hlost.trans (Nat.zero_add _)⟩

/-! ### The numbers of a snapshot -/

theorem Reading.of_ok {W : Type} {b : BackBroker ℚ W} {feeds : List (DataFeed ℚ)} {r : Reading ℚ} (h : Reading.of b feeds = .ok r) :
    b.portfolioValue feeds = .ok r.portfolioValue ∧ r.cash = b.cash b.baseCcy := by
  obtain ⟨feed0, -, h⟩ := bind_eq_ok.1 h
  obtain ⟨pv, hpv, h⟩ := bind_eq_ok.1 h
  obtain rfl := Except.ok.inj h
  exact ⟨hpv, rfl⟩

/-- The report of a portfolio that can be valued. -/
theorem serializeMetrics_ok {W : Type} {b : BackBroker ℚ W} {feeds : List (DataFeed ℚ)} {c : ℚ} {rep : ReportMetrics ℚ} :
    serializeMetrics b feeds c = .ok rep ↔ ∃ pv, b.portfolioValue feeds = .ok pv ∧
      rep = { totalPnl := pv - c, totalReturn := if 0 < c then (pv - c) / c * 100.0 else 0,
              totalTrades := (TradeAnalyzer.analyze b).closedTotal,
              winningTrades := (TradeAnalyzer.analyze b).wonTotal,
              losingTrades := (TradeAnalyzer.analyze b).lostTotal,
              winRate := if 0 < (TradeAnalyzer.analyze b).closedTotal then
                  Arith.ofCount (TradeAnalyzer.analyze b).wonTotal / Arith.ofCount (TradeAnalyzer.analyze b).closedTotal
                else 0 } := by
  unfold serializeMetrics
  rw [bind_eq_ok]
  refine exists_congr fun pv => and_congr_right fun _ => ?_
  exact ⟨fun h => (Except.ok.inj h).symm, fun h => congrArg Except.ok h.symm⟩

namespace Stream
variable {C O : Type} {s : Stream ℚ C O}

/-- The total of a snapshot. -/
theorem totalPnl_eq {told : List (Trade ℚ × ℚ)} {s : IncrementBatcher ℚ} (h : Tally told s) :
    s.currentMetrics.wire.totalPnl =
      ((told.filter (·.1.isClosed)).map (·.1.pnlcomm)).sum + (s.lastPortfolioValue - s.lastCash) := by
  rw [← h.realized]
  rfl

theorem observe_last (s : IncrementBatcher ℚ) (r : Reading ℚ) :
    (s.observe r).lastPortfolioValue = r.portfolioValue ∧ (s.observe r).lastCash = r.cash := by
  unfold IncrementBatcher.observe
  cases s.firstBarSeen <;> cases r.feed0 <;> exact ⟨rfl, rfl⟩

/-- What a bar's flush has, and what stays for later ones. -/
theorem step_next (s : Stream ℚ C O) (now : Int) (r : Reading ℚ) :
    ((s.step (.next now r)).batcher.lastPortfolioValue = r.portfolioValue ∧
      (s.step (.next now r)).batcher.lastCash = r.cash) ∧
    ∀ m, (s.step (.next now r)).emitted = s.emitted ++ [m] → m.currentMetrics = (s.batcher.observe r).currentMetrics := by
  have hlast := observe_last s.batcher r
  obtain ⟨last, he, -, -, ⟨-, -, -, hmetrics⟩, -, hbat⟩ := emit_cases { s with batcher := s.batcher.observe r } false
  show ((maybeFlush _ now).batcher.lastPortfolioValue = _ ∧ (maybeFlush _ now).batcher.lastCash = _) ∧
    ∀ m, (maybeFlush _ now).emitted = _ → _
  rcases maybeFlush_cases { s with batcher := s.batcher.observe r } now with hf | hf <;> rw [hf]
  · refine ⟨hlast, fun m hm => ?_⟩
    have hlen := congrArg List.length hm
    simp at hlen
  · refine ⟨?_, fun m hm => ?_⟩
    · rw [hbat]
      exact hlast
    · obtain rfl : last = m := by simpa [he] using hm
      exact hmetrics

end Stream

/-! ### Agreement -/

namespace Beat

/-- What may come after the last bar. -/
def IsNews {α C O : Type} : Beat α C O → Prop
  | .candidate _ => True
  | .outcome _ => True
  | _ => False

end Beat

namespace Observed
open BackBroker
variable {W C O : Type}

/-- At a bar of the run the broker stands at `b` and the observer emits `m`. -/
def FlushedAt (h : Hooks ℚ W) (s₀ : Observed ℚ W C O) (beats : List (Beat ℚ C O)) (b : BackBroker ℚ W)
    (feeds : List (DataFeed ℚ)) (m : IncrementSnapshot ℚ C O) : Prop :=
  ∃ body now rest s r, beats = body ++ .bar now feeds :: rest ∧ s₀.run h body = .ok s ∧ s.broker = b ∧
    Reading.of b feeds = .ok r ∧ (s.stream.step (.next now r)).emitted = s.stream.emitted ++ [m]

/-- Every flush has the gain of the portfolio, and the last one the numbers of the report. -/
structure MetricsAgree (h : Hooks ℚ W) (s₀ : Observed ℚ W C O) (beats : List (Beat ℚ C O)) (s : Observed ℚ W C O)
    (feeds : List (DataFeed ℚ)) : Prop where
  flush : ∀ b fs m, FlushedAt h s₀ beats b fs m → ∃ pv, b.portfolioValue fs = .ok pv ∧
    m.currentMetrics.wire.totalPnl = pv - s₀.broker.initialCash
  final : ∃ m pv rep, s.stream.stop.emitted = s.stream.emitted ++ [m] ∧
    s.broker.portfolioValue feeds = .ok pv ∧
    serializeMetrics s.broker (feeds.take 1) s₀.broker.initialCash = .ok rep ∧
    m.currentMetrics.wire.totalPnl = pv - s₀.broker.initialCash ∧
    m.currentMetrics.wire.totalPnl = rep.totalPnl ∧
    m.currentMetrics.wire.totalTrades = rep.totalTrades ∧
    m.currentMetrics.wire.winningTrades = rep.winningTrades ∧
    m.currentMetrics.wire.losingTrades = rep.losingTrades

/-- The runs whose totals agree. -/
structure Reportable (h : Hooks ℚ W) (s₀ : Observed ℚ W C O) (beats : List (Beat ℚ C O)) (s : Observed ℚ W C O)
    (feeds : List (DataFeed ℚ)) : Prop where
  flush : ∀ b fs m, FlushedAt h s₀ beats b fs m → b.CashSettled
  final : s.broker.CashSettled
  elsewhere : s.broker.portfolioValue feeds = s.broker.portfolioValue (feeds.take 1)
  closed : ∀ x ∈ s.broker.closedTrades, x.1.isClosed = true
  decided : ∀ x ∈ s.broker.closedTrades, x.1.breaksEven = false

variable {h : Hooks ℚ W} {s₀ s : Observed ℚ W C O} {beats : List (Beat ℚ C O)}

/-- The gain of the portfolio and the total of the observer, where it has been told of the closed trades. -/
theorem total_eq_gain_iff {b : BackBroker ℚ W} {st : IncrementBatcher ℚ} {pv : ℚ} (ht : Stream.Tally b.closedTrades st)
    (hpv : st.lastPortfolioValue = pv) (hcash : st.lastCash = b.cash b.baseCcy) :
    st.currentMetrics.wire.totalPnl = pv - b.initialCash ↔ b.CashSettled := by
  rw [Stream.totalPnl_eq ht, hpv, hcash]
  show b.banked + (pv - b.cash b.baseCcy) = pv - b.initialCash ↔ b.cash b.baseCcy = b.initialCash + b.banked
  constructor <;> intro h <;> linarith

/-- The observer's totals are those of the closed trades, and the broker has the cash it started with on record. -/
structure Tallied (initialCash : ℚ) (s : Observed ℚ W C O) : Prop where
  tally : Stream.Tally s.broker.closedTrades s.stream.batcher
  initialCash : s.broker.initialCash = initialCash

theorem kept_initialCash (c : ℚ) : Kept fun b : BackBroker ℚ W => b.initialCash = c where
  same _ _ hs h := (congrArg BrokerSettings.initialCash hs.settings).trans h
  enter b x dt _ h := (congrArg BrokerSettings.initialCash (b.enter_settings x dt)).trans h

theorem run_tallied (hh : Tame h) {b : BackBroker ℚ W} (hf : b.Fresh) {config : IncrementBatcher.Config}
    {collector : Option (CandidateCollector C O)} {now : Int}
    (hrun : (start b config collector now).run h beats = .ok s) : s.Tallied b.initialCash := by
  obtain ⟨calls, hcalls, htold⟩ := run_calls hh hf hrun
  refine ⟨?_, run_kept (kept_initialCash b.initialCash) hh hrun rfl⟩
  rw [hcalls, ← htold]
  exact Stream.foldl_tally (Stream.start_tally config collector now) calls

/-- After the last bar the observer stands at what it has read there. -/
theorem run_news {s' : Observed ℚ W C O} {tail : List (Beat ℚ C O)} (htail : ∀ beat ∈ tail, beat.IsNews)
    (hrun : s.run h tail = .ok s') : s'.broker = s.broker ∧ s'.stream.batcher = s.stream.batcher := by
  induction tail generalizing s with
  | nil =>
    obtain rfl := Except.ok.inj hrun
    exact ⟨rfl, rfl⟩
  | cons beat rest ih =>
    rw [run, List.foldlM_cons] at hrun
    obtain ⟨s1, hstep, hrest⟩ := bind_eq_ok.1 hrun
    have hnews := htail beat List.mem_cons_self
    obtain ⟨hb, hs⟩ := ih (fun x hx => htail x (List.mem_cons_of_mem _ hx)) hrest
    rw [hb, hs]
    cases beat with
    | op o => cases hnews
    | bar now feeds => cases hnews
    | candidate c =>
      obtain rfl := Except.ok.inj hstep
      exact ⟨rfl, rfl⟩
    | outcome o =>
      obtain rfl := Except.ok.inj hstep
      exact ⟨rfl, rfl⟩

theorem run_append {s' : Observed ℚ W C O} {beats more : List (Beat ℚ C O)} :
    s.run h (beats ++ more) = .ok s' ↔ ∃ s1, s.run h beats = .ok s1 ∧ s1.run h more = .ok s' := by
  unfold run
  rw [List.foldlM_append]
  exact bind_eq_ok

/-- The counts of the observer and those of the report. -/
theorem counts_agree_iff {st : IncrementBatcher ℚ} {b : BackBroker ℚ W} (ht : Stream.Tally b.closedTrades st) :
    (st.currentMetrics.wire.totalTrades = (TradeAnalyzer.analyze b).closedTotal ∧
      st.currentMetrics.wire.winningTrades = (TradeAnalyzer.analyze b).wonTotal ∧
      st.currentMetrics.wire.losingTrades = (TradeAnalyzer.analyze b).lostTotal) ↔
    (∀ x ∈ b.closedTrades, x.1.isClosed = true) ∧ ∀ x ∈ b.closedTrades, x.1.breaksEven = false := by
  obtain ⟨hclosed, hwon, hlost⟩ := TradeAnalyzer.analyze_counts b
  rw [hclosed, hwon, hlost]
  show (st.closedTradeCount = _ ∧ st.winningCount = _ ∧ st.losingCount = _) ↔ _
  have hall : st.closedTradeCount = b.closedTrades.length ↔ ∀ x ∈ b.closedTrades, x.1.isClosed = true := by
    rw [ht.closed, List.countP_eq_length]
  rw [hall]
  refine and_congr_right fun hc => ?_
  have hwinning : st.winningCount = b.closedTrades.countP fun x => decide (0 < x.1.pnlcomm) := by
    rw [ht.winning]
    exact List.countP_congr fun x hx => by simp [hc x hx]
  have hlosing : st.losingCount = b.closedTrades.countP fun x => decide (x.1.pnlcomm < 0) := by
    rw [ht.losing]
    exact List.countP_congr fun x hx => by simp [hc x hx]
  have heven : b.closedTrades.countP (·.1.breaksEven) = 0 ↔ ∀ x ∈ b.closedTrades, x.1.breaksEven = false := by
    rw [List.countP_eq_zero]
    exact forall₂_congr fun x _ => by simp
  rw [hwinning, hlosing, countP_won, ← heven]
  omega

/-- The totals of the stream are the gain of the portfolio, and in the end those of the report, if and only if
the cash is settled at every flush and in the end, what the report leaves out is worth nothing, and the trades in
the book of closed ones are closed with a gain or a loss. -/
theorem metrics_agree_iff (L : Listener ℚ W) (fuel : Nat) {b : BackBroker ℚ W} (hf : b.Fresh)
    (config : IncrementBatcher.Config) (collector : Option (CandidateCollector C O)) (now : Int)
    {body tail : List (Beat ℚ C O)} {stamp : Int} {feeds : List (DataFeed ℚ)} (htail : ∀ beat ∈ tail, beat.IsNews)
    {s : Observed ℚ W C O}
    (hrun : (start b config collector now).run (L.hooks fuel) (body ++ .bar stamp feeds :: tail) = .ok s) :
    MetricsAgree (L.hooks fuel) (start b config collector now) (body ++ .bar stamp feeds :: tail) s feeds ↔
      Reportable (L.hooks fuel) (start b config collector now) (body ++ .bar stamp feeds :: tail) s feeds := by
  have hh := tame_hooks L fuel
  -- every flush by itself
  have hflush : ∀ {b' fs m}, FlushedAt (L.hooks fuel) (start b config collector now) (body ++ .bar stamp feeds :: tail) b' fs m →
      ∃ pv, b'.portfolioValue fs = .ok pv ∧ (m.currentMetrics.wire.totalPnl = pv - b.initialCash ↔ b'.CashSettled) := by
    rintro b' fs m ⟨pre, t, post, s1, r, -, hpre, rfl, hr, hm⟩
    have htal := run_tallied hh hf hpre
    obtain ⟨hpv, hcash⟩ := Reading.of_ok hr
    obtain ⟨hlast, hlastCash⟩ := Stream.observe_last s1.stream.batcher r
    refine ⟨r.portfolioValue, hpv, ?_⟩
    rw [(Stream.step_next s1.stream t r).2 m hm, ← htal.initialCash]
    exact total_eq_gain_iff (htal.tally.observe r) hlast (hlastCash.trans hcash)
  -- the last one, and the report
  have htal := run_tallied hh hf hrun
  obtain ⟨s1, -, hlast⟩ := run_append.1 hrun
  rw [run, List.foldlM_cons] at hlast
  obtain ⟨s2, hstep, hnews⟩ := bind_eq_ok.1 hlast
  obtain ⟨r, hr, hs2⟩ := bind_eq_ok.1 hstep
  obtain rfl := Except.ok.inj hs2
  obtain ⟨hbroker, hbatcher⟩ := run_news htail hnews
  obtain ⟨hpv, hcash⟩ := Reading.of_ok hr
  obtain ⟨hlastPv, hlastCash⟩ := (Stream.step_next s1.stream stamp r).1
  have hpv' : s.broker.portfolioValue feeds = .ok r.portfolioValue := by
    rw [hbroker]
    exact hpv
  have hgain : s.stream.batcher.currentMetrics.wire.totalPnl = r.portfolioValue - b.initialCash ↔ s.broker.CashSettled := by
    rw [← htal.initialCash]
    refine total_eq_gain_iff htal.tally ?_ ?_
    · rw [hbatcher]
      exact hlastPv
    · rw [hbatcher, hbroker]
      exact hlastCash.trans hcash
  obtain ⟨last, hemit, -, -, ⟨-, -, -, hmetrics⟩, -⟩ := Stream.emit_cases s.stream true
  have hcounts := counts_agree_iff htal.tally
  constructor
  · intro hagree
    obtain ⟨m, pv, rep, hm, hvalue, hrep, htotal, hreported, hcount⟩ := hagree.final
    obtain rfl : last = m := by
      have hsame := hemit.symm.trans hm
      simpa using hsame
    rw [hmetrics] at htotal hreported hcount
    obtain rfl : r.portfolioValue = pv := Except.ok.inj (hpv'.symm.trans hvalue)
    obtain ⟨pv', hpv1, rfl⟩ := serializeMetrics_ok.1 hrep
    obtain ⟨hclosed, hdecided⟩ := hcounts.1 hcount
    refine ⟨fun b' fs m' hb' => ?_, hgain.1 htotal, ?_, hclosed, hdecided⟩
    · obtain ⟨pv1, hv1, hiff⟩ := hflush hb'
      obtain ⟨pv2, hv2, hvalue2⟩ := hagree.flush b' fs m' hb'
      obtain rfl : pv1 = pv2 := Except.ok.inj (hv1.symm.trans hv2)
      exact hiff.1 hvalue2
    · rw [hpv', hpv1]
      have hsame : r.portfolioValue - b.initialCash = pv' - b.initialCash := htotal.symm.trans hreported
      rw [sub_left_inj.1 hsame]
  · intro hcond
    have hpv1 : s.broker.portfolioValue (feeds.take 1) = .ok r.portfolioValue := hcond.elsewhere.symm.trans hpv'
    have htotal := hgain.2 hcond.final
    have hrep := (serializeMetrics_ok (c := b.initialCash)).2 ⟨_, hpv1, rfl⟩
    refine ⟨fun b' fs m' hb' => ?_, last, r.portfolioValue, _, hemit, hpv', hrep, ?_⟩
    · obtain ⟨pv1, hv1, hiff⟩ := hflush hb'
      exact ⟨pv1, hv1, hiff.2 (hcond.flush b' fs m' hb')⟩
    · rw [hmetrics]
      exact ⟨htotal, htotal, hcounts.2 ⟨hcond.closed, hcond.decided⟩⟩

/-- A run that closes what it opens. -/
def closesOut : List (Beat ℚ Nat Nat) :=
  [.op (.cmd (.buy 5 0 none .Market 0)), .op (.processOrders [.ofBar 10 11 9 10]),
   .op (.cmd (.sell 5 0 none .Market 0)), .op (.processOrders [.ofBar 12 12 9 10]), .bar 0 [.ofBar 12 12 9 10]]

theorem metrics_agree_iff_closesOut :
    ∃ s, ofBeats closesOut = .ok s ∧
      (MetricsAgree (Listener.silent.hooks 0) (start .funded {} none 0) closesOut s [.ofBar 12 12 9 10] ↔
        Reportable (Listener.silent.hooks 0) (start .funded {} none 0) closesOut s [.ofBar 12 12 9 10]) := by
  have hok : (ofBeats closesOut).toOption.isSome = true := by decide +kernel
  cases hs : ofBeats closesOut with
  | error e =>
    rw [hs] at hok
    cases hok
  | ok s =>
    have hrun : (start .funded {} none 0).run (Listener.silent.hooks 0)
        (closesOut.take 4 ++ .bar 0 [.ofBar 12 12 9 10] :: []) = .ok s := hs
    exact ⟨s, rfl, metrics_agree_iff Listener.silent 0 (fresh_init ..) {} none 0 (by simp) hrun⟩

/-- Five bought at 10, and the bar closes there. -/
def holds : List (Beat ℚ Nat Nat) :=
  [.op (.cmd (.buy 5 0 none .Market 0)), .op (.processOrders [.ofBar 10 11 9 10]), .bar 0 [.ofBar 10 11 9 10]]

/-- Nothing has been gained, and the stream has a gain of 50. -/
theorem open_position_streams_gain :
    ∃ s, ofBeats holds = .ok s ∧ s.broker.portfolioValue [.ofBar 10 11 9 10] = .ok 1000 ∧
      s.stream.stop.emitted.getLast?.map (·.currentMetrics.wire.totalPnl) = some 50 ∧
      ¬ MetricsAgree (Listener.silent.hooks 0) (start .funded {} none 0) holds s [.ofBar 10 11 9 10] := by
  have hrun : (ofBeats holds).toOption.map (fun s => (s.broker.portfolioValue [.ofBar 10 11 9 10],
      s.stream.stop.emitted.getLast?.map (·.currentMetrics.wire.totalPnl))) = some (.ok 1000, some 50) := by
    decide +kernel
  cases hs : ofBeats holds with
  | error e =>
    rw [hs] at hrun
    cases hrun
  | ok s =>
    rw [hs] at hrun
    obtain ⟨hvalue, htotal⟩ := Prod.mk.inj (Option.some.inj hrun)
    refine ⟨s, rfl, hvalue, htotal, fun hagree => ?_⟩
    obtain ⟨m, pv, rep, hm, hpv, -, hgain, -⟩ := hagree.final
    obtain rfl : 1000 = pv := Except.ok.inj (hvalue.symm.trans hpv)
    rw [hm, List.getLast?_append] at htotal
    have hfifty : m.currentMetrics.wire.totalPnl = 50 := by simpa using htotal
    rw [hfifty] at hgain
    exact absurd hgain (by decide +kernel)

/-- Without instruments and with coarse fills, the cash is settled if and only if the open trades cost nothing on
balance, in particular if there are none. -/
theorem settled_iff (L : Listener ℚ W) (fuel : Nat) {b : BackBroker ℚ W} (hf : b.Fresh)
    (him : b.instrumentMap = fun _ => none) (hcash : b.cash b.baseCcy = b.initialCash)
    {config : IncrementBatcher.Config} {collector : Option (CandidateCollector C O)} {now : Int}
    (hrun : (start b config collector now).run (L.hooks fuel) beats = .ok s)
    (hc : FillsMeet b.instrumentMap Coarse s.broker.executions) :
    s.broker.CashSettled ↔ worth s.broker.openTrades = 0 := by
  have hh := tame_hooks L fuel
  have hstart : Reconciled b b := by simp [Reconciled, realized, worth, hf.closedTrades, hf.openTrades]
  obtain ⟨-, hkept⟩ := run_kept (kept_reconciled b him) hh hrun ⟨.of_fresh hf, fun _ => ⟨.of_fresh hf, hstart⟩⟩
  obtain ⟨hb, hreconciled⟩ := hkept hc
  have hinitial : s.broker.initialCash = b.initialCash := run_kept (kept_initialCash b.initialCash) hh hrun rfl
  have hbanked : s.broker.banked = s.broker.realized := by
    unfold banked realized
    rw [List.filter_eq_self.2 fun x hx => by simp [Trade.isClosed, hb.closed x hx]]
  unfold Reconciled at hreconciled
  unfold CashSettled
  rw [hreconciled, hbanked, hinitial, hcash]
  constructor <;> intro h <;> linarith

end Observed

end StratForge
