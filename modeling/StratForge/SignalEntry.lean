import StratForge.Delivery
import StratForge.TwoRuns

/-!
# Signal strategies (`strategy/strategy.hpp`, `strategy/signal_entry_strategy.hpp`)

A `SignalEntryStrategy` with the lifecycle of its base class: `prenext` advances the indicators, `next` advances
them, closes and opens. Its methods see the feeds where they stand and the broker. What is noted of it besides its
state is which indicators have been advanced, with the feed's cursor at the time, and the signal of each bar.
-/

namespace StratForge

/-- `EntrySignal`. -/
structure EntrySignal where
  longSignal : Bool := false
  shortSignal : Bool := false
deriving DecidableEq, Repr

/-- How far `next()` has come when it issues a command. -/
inductive NextStage
  | enter | closing | opening
deriving DecidableEq

/-- The members of the strategy, `S` those of the derived class. -/
structure SignalState (S : Type) where
  user : S
  minPeriods : List Nat := [1]
  stage : NextStage := .enter
  /-- The calls of `update_indicators(k)` so far, each by the cursor of feed `k`. -/
  calls : Nat → List Nat := fun _ => []
  /-- What the bars so far have signalled, neutral before the warm-up boundary. -/
  signals : List EntrySignal := []

structure SignalEntryStrategy (α S : Type) where
  /-- May set minimum periods. -/
  initializeIndicators : List (DataFeed α) → S → List Nat → S × List Nat
  /-- `get_indicator_history_warmup_period`. -/
  historyWarmupPeriod : S → Nat := fun _ => 1
  /-- `indicator_history_requirements`: feed indices and bars. -/
  historyRequirements : S → List (Nat × Nat) := fun _ => []
  /-- `update_indicators()`, the legacy hook. -/
  updateLegacy : List (DataFeed α) → S → S := fun _ s => s
  /-- `update_indicators(feed_index)`, when it is overridden. -/
  updateFeed : Option (Nat → List (DataFeed α) → S → S) := none
  checkOpenConditions : List (DataFeed α) → BackBroker α (SignalState S) → S → EntrySignal × S
  checkCloseConditions : List (DataFeed α) → BackBroker α (SignalState S) → S → Bool × S
  getsizing : OrderSide → List (DataFeed α) → BackBroker α (SignalState S) → S → α
  /-- `notify_order` and `notify_trade`. -/
  notify : Event α → BackBroker α (SignalState S) → S × Option (Cmd α)

/-! ### Minimum periods -/

def minimumPeriod (periods : List Nat) (feedIdx : Nat) : Nat := periods[feedIdx]?.getD 0

def setMinimumPeriod (periods : List Nat) (feedIdx bars : Nat) : List Nat :=
  (periods ++ .replicate (feedIdx + 1 - periods.length) 1).set feedIdx bars

def requireMinimumPeriod (periods : List Nat) (feedIdx bars : Nat) : List Nat :=
  if minimumPeriod periods feedIdx < bars then setMinimumPeriod periods feedIdx bars else periods

/-- `apply_indicator_history_requirements`. -/
def applyHistoryRequirements (dataCount : Nat) (requirements : List (Nat × Nat)) (periods : List Nat) :
    Except Error (List Nat) :=
  requirements.foldlM (fun periods (feedIndex, bars) =>
    if dataCount ≤ feedIndex then
      .error (.invalidArgument "indicator history requirement references an unavailable feed")
    else if bars = 0 then .error (.invalidArgument "indicator history requirement must be positive")
    else .ok (requireMinimumPeriod periods feedIndex bars)) periods

/-! ### The lifecycle -/

namespace SignalEntryStrategy
variable {α S : Type} (s : SignalEntryStrategy α S)

/-- `update_indicators(feed_index)`; the base class forwards feed 0 to the legacy hook. -/
def updateIndicators (feedIndex : Nat) (feeds : List (DataFeed α)) (user : S) : S :=
  match s.updateFeed with
  | some update => update feedIndex feeds user
  | none => if feedIndex = 0 then s.updateLegacy feeds user else user

def init (feeds : List (DataFeed α)) (w : SignalState S) : Except Error (SignalState S) := do
  let (user, periods) := s.initializeIndicators feeds w.user w.minPeriods
  let declaredWarmup := s.historyWarmupPeriod user
  let periods := if minimumPeriod periods 0 < declaredWarmup then setMinimumPeriod periods 0 declaredWarmup else periods
  return { w with user, minPeriods := ← applyHistoryRequirements feeds.length (s.historyRequirements user) periods }

/-- One call of `update_indicators(feed_index)`. -/
def callUpdate (feeds : List (DataFeed α)) (w : SignalState S) (feedIndex : Nat) : SignalState S :=
  { w with
    user := s.updateIndicators feedIndex feeds w.user
    calls := fun k => if k = feedIndex then w.calls k ++ [(feeds[k]?.map DataFeed.index).getD 0] else w.calls k }

/-- `advance_generated_indicators`, with the flags that the engine has published. -/
def advanceGeneratedIndicators (flags : List Bool) (feeds : List (DataFeed α)) (w : SignalState S) : SignalState S :=
  if flags.isEmpty then s.callUpdate feeds w 0
  else (List.range flags.length).foldl (fun w k => if flags[k]?.getD false then s.callUpdate feeds w k else w) w

/-- The same on the clock of the engine. -/
def advanceOn (clock : Clock α) (w : SignalState S) : SignalState S :=
  s.advanceGeneratedIndicators (clock.slots.map (·.feedAdvanced)) clock.feeds w

variable [Arith α]

/-- `next()` from the open conditions on. -/
def openPosition (feeds : List (DataFeed α)) (b : BackBroker α (SignalState S)) : SignalState S × Option (Cmd α) :=
  let (openSig, user) := s.checkOpenConditions feeds b b.world.user
  let w := { b.world with user, signals := b.world.signals ++ [openSig] }
  if (b.position 0).size == 0 && openSig.longSignal then
    ({ w with stage := .opening }, some (.buy (s.getsizing .Buy feeds b user) 0 none .Market 0))
  else if (b.position 0).size == 0 && openSig.shortSignal then
    ({ w with stage := .opening }, some (.sell (s.getsizing .Sell feeds b user) 0 none .Market 0))
  else ({ w with stage := .enter }, none)

/-- `next()` until its next command. -/
def next (clock : Clock α) (b : BackBroker α (SignalState S)) : SignalState S × Option (Cmd α) :=
  match b.world.stage with
  | .enter =>
    let b := { b with world := s.advanceOn clock b.world }
    if (b.position 0).size != 0 then
      let (closeSig, user) := s.checkCloseConditions clock.feeds b b.world.user
      let b := { b with world := { b.world with user } }
      if closeSig then ({ b.world with stage := .closing }, some (.close 0)) else s.openPosition clock.feeds b
    else s.openPosition clock.feeds b
  | .closing => s.openPosition clock.feeds b
  | .opening => ({ b.world with stage := .enter }, none)

/-- `prenext()`. -/
def prenext (clock : Clock α) (b : BackBroker α (SignalState S)) : SignalState S × Option (Cmd α) :=
  let w := s.advanceOn clock b.world
  ({ w with signals := w.signals ++ [{}] }, none)

/-- The strategy in the engine, whose `init()` has been run. -/
def cerebro (fuel : Nat) : Cerebro α (SignalState S) where
  listener _ :=
    { act := fun ev b => ({ b.world with user := (s.notify ev b).1 }, (s.notify ev b).2)
      preOrderHook := Listener.acceptAll }
  strategies := 1
  call ph clock _ b :=
    match ph with
    | .init | .start => (b.world, none)
    | .prenext => s.prenext clock b
    | .nextstart | .next => s.next clock b
  minimumPeriod w _ k := minimumPeriod w.minPeriods k
  opening := id
  closing _ _ b := b.world
  -- `next()` issues two commands at most
  fuel := fuel + 3

/-- The backtest after the first `n` bars. -/
def upTo (fuel : Nat) (feeds : DataFeed α × List (DataFeed α)) (b : BackBroker α Unit) (user : S) (n : Nat) :
    Except Error (CerebroState α (SignalState S)) := do
  (Clock.start feeds).checkPlan
  let world ← s.init (Clock.start feeds).feeds { user }
  (s.cerebro fuel).upTo feeds (b.capture world) n

end SignalEntryStrategy

end StratForge
