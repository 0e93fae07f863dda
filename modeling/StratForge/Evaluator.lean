import StratForge.UpdateCalls

/-!
# The signal evaluator (`evaluation/signal_evaluator.hpp`)

`SignalEvaluator` drives a strategy over bars without an engine. It calls the legacy hook, the engine the hook of feed
0; for a strategy whose signals have no side effects that is all the difference there is (`evaluate_agrees_iff`).
-/

namespace StratForge

variable {α S : Type}

/-- An `InMemoryFeed`, preloaded. -/
def inMemoryFeed (bars : List (Row α)) : DataFeed α := { lines := { data := bars } }

/-- The feed of a loop that advances it after each bar but the last. -/
def DataFeed.atBar (feed : DataFeed α) : Nat → DataFeed α
  | 0 => feed
  | n + 1 => (feed.atBar n).advance

namespace SignalEntryStrategy

/-- `evaluate_slice`. There is no broker; `b` is what a strategy that reads one finds. -/
def evaluateSlice (s : SignalEntryStrategy α S) (b : BackBroker α (SignalState S)) (bars : List (Row α)) (start stop : Nat)
    (user : S) : Except Error (List EntrySignal) := do
  let feed := inMemoryFeed bars
  let w ← s.init [feed] { user }
  let minPeriod := minimumPeriod w.minPeriods 0
  let (_, _, out) := (List.range bars.length).foldl (fun (feed, user, out) i =>
    let user := s.updateLegacy [feed] user
    let (sig, user) := if minPeriod ≤ i + 1 then s.checkOpenConditions [feed] b user else ({}, user)
    let out := if start ≤ i ∧ i < stop then out ++ [sig] else out
    (if i + 1 < bars.length then feed.advance else feed, user, out)) (feed, w.user, [])
  return out

/-- `evaluate`. -/
def evaluate (s : SignalEntryStrategy α S) (b : BackBroker α (SignalState S)) (bars : List (Row α)) (user : S) :
    Except Error (List EntrySignal) := s.evaluateSlice b bars 0 bars.length user

/-- Checks without side effects that do not read the broker, and callbacks that leave the strategy as it is. -/
structure Pure (s : SignalEntryStrategy α S) (openSig : List (DataFeed α) → S → EntrySignal)
    (closeSig : List (DataFeed α) → S → Bool) : Prop where
  «open» : ∀ feeds b user, s.checkOpenConditions feeds b user = (openSig feeds user, user)
  close : ∀ feeds b user, s.checkCloseConditions feeds b user = (closeSig feeds user, user)
  notify : ∀ ev b, (s.notify ev b).1 = b.world.user

/-! ### What both loops compute -/

/-- The strategy once its indicators have been advanced on the first `n` bars. -/
def advancedBy (update : List (DataFeed α) → S → S) (feed : DataFeed α) (user : S) : Nat → S
  | 0 => user
  | n + 1 => update [feed.atBar n] (advancedBy update feed user n)

/-- The signals of the first `n` bars, neutral before the warm-up boundary. -/
def signalsBy (openSig : List (DataFeed α) → S → EntrySignal) (update : List (DataFeed α) → S → S) (minPeriod : Nat)
    (feed : DataFeed α) (user : S) (n : Nat) : List EntrySignal :=
  (List.range n).map fun i => if minPeriod ≤ i + 1 then openSig [feed.atBar i] (advancedBy update feed user (i + 1)) else {}

theorem signalsBy_succ (openSig : List (DataFeed α) → S → EntrySignal) (update : List (DataFeed α) → S → S) (minPeriod : Nat)
    (feed : DataFeed α) (user : S) (n : Nat) : signalsBy openSig update minPeriod feed user (n + 1) =
      signalsBy openSig update minPeriod feed user n ++
        [if minPeriod ≤ n + 1 then openSig [feed.atBar n] (advancedBy update feed user (n + 1)) else {}] := by
  rw [signalsBy, List.range_succ, List.map_append]
  rfl

variable {s : SignalEntryStrategy α S} {openSig : List (DataFeed α) → S → EntrySignal} {closeSig : List (DataFeed α) → S → Bool}
  {bars : List (Row α)} {user : S}

theorem evaluate_eq (hp : s.Pure openSig closeSig) (b : BackBroker α (SignalState S)) {w : SignalState S}
    (hinit : s.init [inMemoryFeed bars] { user } = .ok w) : s.evaluate b bars user =
      .ok (signalsBy openSig s.updateLegacy (minimumPeriod w.minPeriods 0) (inMemoryFeed bars) w.user bars.length) := by
  unfold evaluate evaluateSlice
  dsimp only
  rw [hinit]
  refine congrArg Except.ok ?_
  refine (Fold.range_ind (fun n (st : DataFeed α × S × List EntrySignal) => (n < bars.length → st.1 = (inMemoryFeed bars).atBar n) ∧
    st.2.1 = advancedBy s.updateLegacy (inMemoryFeed bars) w.user n ∧
    st.2.2 = signalsBy openSig s.updateLegacy (minimumPeriod w.minPeriods 0) (inMemoryFeed bars) w.user n)
    ⟨fun _ => rfl, rfl, rfl⟩ fun i st hi hst => ?_).2.2
  obtain ⟨feed, user', out⟩ := st
  obtain ⟨hfeed, huser, hout⟩ := hst
  obtain rfl : feed = _ := hfeed hi
  obtain rfl : user' = _ := huser
  obtain rfl : out = _ := hout
  dsimp only
  rw [if_pos (show 0 ≤ i ∧ i < bars.length from ⟨Nat.zero_le i, hi⟩), signalsBy_succ]
  refine ⟨fun hi' => if_pos hi', ?_, ?_⟩
  · split_ifs
    exacts [by rw [hp.open]; rfl, rfl]
  · split_ifs
    exacts [by rw [hp.open]; rfl, rfl]

/-! ### The engine on one feed -/

variable [Arith α] {fuel n : Nat} {b : BackBroker α Unit} {w : SignalState S} {feed : DataFeed α}
  {e : CerebroState α (SignalState S)}

/-- The clock of a single feed on a bar. -/
theorem gated_single {c : Cerebro α (SignalState S)} {b : BackBroker α (SignalState S)} (h : c.gated (feed, []) b n = .ok e)
    (hn : n < feed.size) (hfeed : ∀ e₀, c.upTo (feed, []) b n = .ok e₀ → e₀.clock.master.feed = feed.atBar n) :
    e.clock.slots.map (·.feedAdvanced) = [true] ∧ e.clock.feeds = [feed.atBar n] ∧ e.clock.master.barsDelivered = n + 1 ∧
      e.clock.context = [] := by
  obtain ⟨e₀, h₀, hgate⟩ := bind_eq_ok.1 h
  obtain ⟨-, -, hd, hflag⟩ := c.gated_master h hn
  have hnil : e₀.clock.context = [] := List.eq_nil_of_length_eq_zero (c.context_upTo h₀ hn.le)
  obtain ⟨hmaster, ⟨-, hctx⟩ | ⟨_, -, hgates⟩⟩ := Clock.tick_context (Cerebro.clock_gate hgate)
  · refine ⟨?_, ?_, hd, hctx⟩
    · rw [Clock.slots, hctx, List.map_cons, List.map_nil, hflag]
    · rw [Clock.feeds, Clock.slots, hctx, List.map_cons, List.map_nil, hmaster, hfeed e₀ h₀]
  · have hctx : e.clock.context = [] := by rw [hnil] at hgates; exact List.forall₂_nil_left_iff.1 hgates
    refine ⟨?_, ?_, hd, hctx⟩
    · rw [Clock.slots, hctx, List.map_cons, List.map_nil, hflag]
    · rw [Clock.feeds, Clock.slots, hctx, List.map_cons, List.map_nil, hmaster, hfeed e₀ h₀]

/-- The strategy between two bars of a single feed. -/
structure After (s : SignalEntryStrategy α S) (openSig : List (DataFeed α) → S → EntrySignal) (feed : DataFeed α)
    (w : SignalState S) (n : Nat) (e : CerebroState α (SignalState S)) : Prop where
  master : n < feed.size → e.clock.master.feed = feed.atBar n
  entered : e.entered = [decide (0 < n ∧ minimumPeriod w.minPeriods 0 ≤ n)]
  stage : e.broker.world.stage = .enter
  minPeriods : e.broker.world.minPeriods = w.minPeriods
  user : e.broker.world.user = advancedBy (s.updateIndicators 0) feed w.user n
  signals : e.broker.world.signals = signalsBy openSig (s.updateIndicators 0) (minimumPeriod w.minPeriods 0) feed w.user n

omit [Arith α] in
theorem steady_of_pure (hp : s.Pure openSig closeSig) (user : S) (signals : List EntrySignal) (periods : List Nat) :
    s.Steady fun w => w.user = user ∧ w.signals = signals ∧ w.minPeriods = periods :=
  ⟨fun _ _ h => h, fun ev b h => ⟨(hp.notify ev b).trans h.1, h.2⟩⟩

/-- A bar of a single feed. -/
theorem trade_single (hp : s.Pure openSig closeSig) (fuel bar : Nat) (hflags : e.clock.slots.map (·.feedAdvanced) = [true])
    {f : DataFeed α} (hfeeds : e.clock.feeds = [f]) (hstage : e.broker.world.stage = .enter) :
    let w := e.broker.world
    let w' := ((s.cerebro fuel).trade bar e).broker.world
    let user := s.updateIndicators 0 [f] w.user
    w'.stage = .enter ∧ w'.minPeriods = w.minPeriods ∧ w'.user = user ∧
      w'.signals = w.signals ++ [if s.isReady fuel e then openSig [f] user else {}] := by
  dsimp only
  have hproc := ((steady_of_pure hp e.broker.world.user e.broker.world.signals e.broker.world.minPeriods).and_stage .enter fuel
    e.clock).processOrders e.clock.feeds (b := e.broker) ⟨⟨rfl, rfl, rfl⟩, hstage⟩
  obtain ⟨⟨huser, hsignals, hperiods⟩, hstage'⟩ := hproc
  have hadv : ∀ w : SignalState S, (s.advanceOn e.clock w).user = s.updateIndicators 0 [f] w.user := fun w => by
    unfold advanceOn
    rw [hflags, hfeeds]
    rfl
  have hsame := fun w : SignalState S => show _ ∧ (s.advanceOn e.clock w).minPeriods = _ ∧ _ from advanceOn_same w
  rw [broker_trade]
  dsimp only
  split_ifs with hready
  · have hnext := drive_next fuel fuel
      (steady_of_pure hp (s.updateIndicators 0 [f] e.broker.world.user) e.broker.world.signals e.broker.world.minPeriods)
      (steady_of_pure hp (s.updateIndicators 0 [f] e.broker.world.user)
        (e.broker.world.signals ++ [openSig [f] (s.updateIndicators 0 [f] e.broker.world.user)]) e.broker.world.minPeriods)
      (fun b hb => ⟨by rw [hp.close]; exact hb.1, hb.2⟩) (fun b hb => ?_) hstage'
      ⟨by rw [hadv, huser], by rw [(hsame _).2.2, hsignals], by rw [(hsame _).2.1, hperiods]⟩
    · exact ⟨hnext.2, hnext.1.2.2, hnext.1.1, hnext.1.2.1⟩
    · obtain ⟨hu, hs, hm⟩ := hb
      unfold openPosition
      rw [hp.open, hfeeds]
      dsimp only
      split_ifs <;> exact ⟨hu, by rw [hs, hu], hm⟩
  · unfold prenext
    dsimp only
    exact ⟨by rw [(hsame _).1, hstage'], by rw [(hsame _).2.1, hperiods], by rw [hadv, huser], by rw [(hsame _).2.2, hsignals]⟩

theorem isReady_single (fuel bar : Nat) (hentered : e.entered = [decide (0 < bar ∧ minimumPeriod w.minPeriods 0 ≤ bar)])
    (hctx : e.clock.context = []) (hd : e.clock.master.barsDelivered = bar + 1)
    (hw : (e.broker.processOrders ((s.cerebro fuel).hooks e.clock) e.clock.feeds).world.minPeriods = w.minPeriods) :
    s.isReady fuel e = decide (minimumPeriod w.minPeriods 0 ≤ bar + 1) := by
  unfold isReady Cerebro.ready
  rw [hentered, Clock.slots, hctx]
  show (decide _ || (decide (minimumPeriod _ 0 ≤ e.clock.master.barsDelivered) && true)) = _
  rw [hw, hd, Bool.and_true, ← Bool.decide_or, decide_eq_decide]
  omega

theorem after_upTo (hp : s.Pure openSig closeSig) (hhome : feed.home = feed) (hw : w.stage = .enter) (hsig : w.signals = []) :
    ∀ {n} {e : CerebroState α (SignalState S)}, (s.cerebro fuel).upTo (feed, []) (b.capture w) n = .ok e → n ≤ feed.size →
      s.After openSig feed w n e := by
  intro n
  induction n with
  | zero =>
    intro e h _
    obtain ⟨-, -, h⟩ := bind_eq_ok.1 h
    obtain ⟨-, -, h⟩ := bind_eq_ok.1 h
    cases h
    exact ⟨fun _ => hhome, rfl, hw, rfl, rfl, hsig⟩
  | succ n ih =>
    intro e h hn
    obtain ⟨e₁, h₁, hbroker, hentered, -⟩ := (s.cerebro fuel).upTo_succ h
    obtain ⟨e₀, h₀, hbroker₁, hentered₁⟩ := (s.cerebro fuel).gated_broker h₁
    have h0 := ih h₀ (by omega)
    have hworld : e₁.broker.world = e₀.broker.world := by rw [hbroker₁]; rfl
    obtain ⟨hflags, hfeeds, hd, hctx⟩ := gated_single h₁ (by omega) fun e₀' h₀' => by
      rw [h₀] at h₀'
      cases h₀'
      exact h0.master (by omega)
    obtain ⟨hstage, hperiods, huser, hsignals⟩ := trade_single hp fuel n hflags hfeeds (by rw [hworld]; exact h0.stage)
    have hproc := ((steady_of_pure hp e₁.broker.world.user e₁.broker.world.signals e₁.broker.world.minPeriods).stays fuel
      e₁.clock).processOrders e₁.clock.feeds (b := e₁.broker) ⟨rfl, rfl, rfl⟩
    have hready := isReady_single (s := s) (w := w) fuel n (hentered₁.trans h0.entered) hctx hd
      (by rw [hproc.2.2, hworld, h0.minPeriods])
    rw [hworld] at huser hsignals hperiods
    constructor
    case master =>
      intro hlt
      obtain ⟨e₀', h₀', hbar⟩ := bind_eq_ok.1 h
      obtain ⟨e₁', h₁', hclock⟩ := (s.cerebro fuel).bar_ok hbar
      rw [h₀] at h₀'
      cases h₀'
      obtain rfl : e₁' = e₁ := Except.ok.inj (h₁'.symm.trans (by
        obtain ⟨e₂, h₂, h₁⟩ := bind_eq_ok.1 h₁
        rw [h₀] at h₂
        cases h₂
        exact h₁))
      have hmaster : e₁'.clock.master.feed = feed.atBar n := by
        rw [Clock.feeds, Clock.slots, hctx] at hfeeds
        exact List.singleton_inj.1 hfeeds
      have hsize : e₁'.clock.master.feed.size = feed.size := by
        rw [DataFeed.size_eq, DataFeed.size_eq, ((s.cerebro fuel).gated_master h₁ (show n < feed.size by omega)).1]
      rw [hclock, if_pos (by rw [hsize]; exact hlt)]
      exact congrArg DataFeed.advance hmaster
    case entered =>
      rw [hentered, entered_trade n e₁ (by rw [hentered₁, h0.entered]; rfl), hready]
      simp
    case stage => rw [hbroker]; exact hstage
    case minPeriods => rw [hbroker, hperiods, h0.minPeriods]
    case user => rw [hbroker, huser, h0.user]; rfl
    case signals =>
      rw [hbroker, hsignals, h0.signals, h0.user, signalsBy_succ, hready]
      simp only [decide_eq_true_eq]
      rfl

/-- What the strategy signals on each bar of a backtest. -/
def backtestSignals (s : SignalEntryStrategy α S) (fuel : Nat) (feeds : DataFeed α × List (DataFeed α))
    (b : BackBroker α Unit) (user : S) : Except Error (List EntrySignal) :=
  if feeds.1.size = 0 then .ok []
  else do return (← s.upTo fuel feeds b user feeds.1.size).broker.world.signals

omit [Arith α] in
/-- On every bar past the warm-up the entry signal is the same, whichever of the two hooks has advanced the indicators. -/
def HooksAlike (s : SignalEntryStrategy α S) (openSig : List (DataFeed α) → S → EntrySignal) (bars : List (Row α)) (user : S) :
    Prop :=
  ∀ w, s.init [inMemoryFeed bars] { user } = .ok w → ∀ i < bars.length, minimumPeriod w.minPeriods 0 ≤ i + 1 →
    openSig [(inMemoryFeed bars).atBar i] (advancedBy s.updateLegacy (inMemoryFeed bars) w.user (i + 1)) =
      openSig [(inMemoryFeed bars).atBar i] (advancedBy (s.updateIndicators 0) (inMemoryFeed bars) w.user (i + 1))

omit [Arith α] in
theorem signalsBy_eq_iff {update update' : List (DataFeed α) → S → S} {minPeriod : Nat} {user : S} {n : Nat} :
    signalsBy openSig update minPeriod feed user n = signalsBy openSig update' minPeriod feed user n ↔
      ∀ i < n, minPeriod ≤ i + 1 → openSig [feed.atBar i] (advancedBy update feed user (i + 1)) =
        openSig [feed.atBar i] (advancedBy update' feed user (i + 1)) := by
  unfold signalsBy
  rw [List.map_inj_left]
  constructor
  · intro h i hi hready
    simpa [hready] using h i (List.mem_range.2 hi)
  · intro h i hi
    split_ifs with hready
    exacts [h i (List.mem_range.1 hi) hready, rfl]

omit [Arith α] in
/-- A strategy that overrides the legacy hook alone. -/
theorem hooksAlike_of_legacy (hlegacy : s.updateFeed = none) : s.HooksAlike openSig bars user := by
  have hhook : s.updateIndicators 0 = s.updateLegacy := by
    funext feeds user
    rw [updateIndicators, hlegacy]
    rfl
  intro w _ i _ _
  rw [hhook]

omit [Arith α] in
theorem init_inMemoryFeed (h : s.evaluate b' bars user = .ok out) : ∃ w, s.init [inMemoryFeed bars] { user } = .ok w := by
  obtain ⟨w, hinit, -⟩ := bind_eq_ok.1 h
  exact ⟨w, hinit⟩

/-- The evaluator signals what the backtest does if and only if the strategy's signals do not tell the hooks apart;
those of a strategy that overrides the legacy hook alone never do. -/
theorem evaluate_agrees_iff (hp : s.Pure openSig closeSig) {b' : BackBroker α (SignalState S)} {out signals : List EntrySignal}
    (heval : s.evaluate b' bars user = .ok out)
    (hrun : s.backtestSignals fuel (inMemoryFeed bars, []) b user = .ok signals) :
    (out = signals ↔ s.HooksAlike openSig bars user) ∧ (s.updateFeed = none → out = signals) := by
  obtain ⟨w, hinit⟩ := init_inMemoryFeed heval
  have hout := Except.ok.inj (heval.symm.trans (evaluate_eq hp b' hinit))
  have hsignals : signals =
      signalsBy openSig (s.updateIndicators 0) (minimumPeriod w.minPeriods 0) (inMemoryFeed bars) w.user bars.length := by
    unfold backtestSignals at hrun
    split_ifs at hrun with hsize
    · rw [DataFeed.size_eq] at hsize
      obtain rfl : bars = [] := List.eq_nil_of_length_eq_zero hsize
      exact (Except.ok.inj hrun).symm
    · obtain ⟨e, hup, hrun⟩ := bind_eq_ok.1 hrun
      obtain rfl := Except.ok.inj hrun
      obtain ⟨-, -, hup⟩ := bind_eq_ok.1 hup
      obtain ⟨w', hinit', hup⟩ := bind_eq_ok.1 hup
      obtain rfl : w' = w := Except.ok.inj (hinit'.symm.trans hinit)
      have hfields : w'.stage = .enter ∧ w'.signals = [] := by
        obtain ⟨_, -, hinit⟩ := bind_eq_ok.1 hinit
        cases hinit
        exact ⟨rfl, rfl⟩
      have hafter := after_upTo hp rfl hfields.1 hfields.2 hup le_rfl
      rw [hafter.signals, DataFeed.size_eq]
      rfl
  have hiff : out = signals ↔ s.HooksAlike openSig bars user := by
    rw [hout, hsignals, signalsBy_eq_iff]
    refine ⟨fun h w' hinit' => ?_, fun h => h w hinit⟩
    obtain rfl : w' = w := Except.ok.inj (hinit'.symm.trans hinit)
    exact h
  exact ⟨hiff, fun hlegacy => hiff.2 (hooksAlike_of_legacy hlegacy)⟩

/-- A strategy whose one indicator counts the bars and that goes long once it has counted one. -/
def counting (updateLegacy : List (DataFeed ℚ) → Nat → Nat) (updateFeed : Option (Nat → List (DataFeed ℚ) → Nat → Nat)) :
    SignalEntryStrategy ℚ Nat where
  initializeIndicators _ user periods := (user, periods)
  updateLegacy := updateLegacy
  updateFeed := updateFeed
  checkOpenConditions _ _ user := ({ longSignal := decide (0 < user) }, user)
  checkCloseConditions _ _ user := (false, user)
  getsizing _ _ _ _ := 1
  notify _ b := (b.world.user, none)

theorem counting_pure (updateLegacy : List (DataFeed ℚ) → Nat → Nat) (updateFeed : Option (Nat → List (DataFeed ℚ) → Nat → Nat)) :
    (counting updateLegacy updateFeed).Pure (fun _ user => { longSignal := decide (0 < user) }) fun _ _ => false :=
  ⟨fun _ _ _ => rfl, fun _ _ _ => rfl, fun _ _ => rfl⟩

theorem evaluate_agrees_iff_counting :
    let s := counting (fun _ n => n + 1) none
    let bars : List (Row ℚ) := [⟨0, 1, 1, 1, 1, 1, 0⟩, ⟨60 * nsPerSecond, 1, 1, 1, 1, 1, 0⟩]
    ∃ out signals, s.evaluate (BackBroker.funded.capture { user := 0 }) bars 0 = .ok out ∧
      s.backtestSignals 0 (inMemoryFeed bars, []) .funded 0 = .ok signals ∧
      (out = signals ↔ s.HooksAlike (fun _ user => { longSignal := decide (0 < user) }) bars 0) ∧
      (s.updateFeed = none → out = signals) := by
  intro s bars
  have hrun : (s.backtestSignals 0 (inMemoryFeed bars, []) .funded 0).isOk = true := by decide +kernel
  have heval : s.evaluate (BackBroker.funded.capture { user := 0 }) bars 0 =
      .ok [{ longSignal := true }, { longSignal := true }] := rfl
  cases h : s.backtestSignals 0 (inMemoryFeed bars, []) .funded 0 with
  | error err => rw [h] at hrun; cases hrun
  | ok signals => exact ⟨_, signals, heval, rfl, evaluate_agrees_iff (counting_pure _ _) heval h⟩

/-- The same indicator advanced by the per-feed hook: the backtest goes long, the evaluator never does. -/
theorem perFeed_hook_is_not_evaluated :
    let s := counting (fun _ n => n) (some fun k _ n => if k = 0 then n + 1 else n)
    let bars : List (Row ℚ) := [⟨0, 1, 1, 1, 1, 1, 0⟩]
    ∃ out signals, s.evaluate (BackBroker.funded.capture { user := 0 }) bars 0 = .ok out ∧
      s.backtestSignals 0 (inMemoryFeed bars, []) .funded 0 = .ok signals ∧ out ≠ signals := by
  intro s bars
  have hrun : (s.backtestSignals 0 (inMemoryFeed bars, []) .funded 0).toOption = some [{ longSignal := true }] := by
    decide +kernel
  cases h : s.backtestSignals 0 (inMemoryFeed bars, []) .funded 0 with
  | error err => rw [h] at hrun; cases hrun
  | ok signals =>
    rw [h] at hrun
    obtain rfl := Option.some.inj hrun
    exact ⟨[{}], _, rfl, rfl, by decide⟩

end SignalEntryStrategy

end StratForge
