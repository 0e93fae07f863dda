import StratForge.Live
import StratForge.ProcessOrders

/-!
# The live engine (`live/live_engine.hpp`)

The engine stands between the broker and the connector: it rate-limits what the broker submits,
watches the risk limits and the connection, and once its kill switch is on it closes the positions. It
is the broker in live mode with the engine's own state as what the callbacks capture.

The strategy, the connector and the callbacks of the engine's user are a `EngineListener`: wherever the
engine calls out, it issues any number of further calls, to the broker or to the engine, which call out
in turn. Time passes between calls only (`tick`), in nanoseconds. A callback does not throw and whoever
calls catches; what `broker_.close` throws in `flatten_positions` leaves it, with `flattening_` up.

`offers`, `flattens` and `links` are not in the source and nothing below reads them: the orders the wrapper
has been given, how much the broker had noted each time that `flatten_positions` began, and what has been
heard of the link to the market.
-/

namespace StratForge

structure LiveRiskLimits (α : Type) where
  maxAbsPosition : Option α
  maxDrawdownPercent : Option α
  maxOrdersPerSecond : Option Nat
  /-- In milliseconds. -/
  heartbeatTimeout : Option Int
  flattenOnBreach : Bool
  autoReconnect : Bool
  maxReconnectAttempts : Nat

inductive ConnectorState
  | Disconnected | Connecting | Connected | Reconnecting | Error
deriving DecidableEq, Repr

/-- What the engine reads of a `MarketDataSnapshot`, and the time it is stamped with. -/
structure MarketDataSnapshot (α : Type) where
  symbol : String
  lastPrice : α
  lastSize : α
  timestamp : DateTime

/-- `push_snapshot`: a bar of its own for every snapshot. -/
def DataFeed.pushSnapshot {α : Type} [Arith α] (f : DataFeed α) (s : MarketDataSnapshot α) : DataFeed α :=
  f.forwardRow ⟨s.timestamp, s.lastPrice, s.lastPrice, s.lastPrice, s.lastPrice, s.lastSize, 0⟩

/-- An order at the wrapper: which `flatten_positions` has issued it, if one has, what the engine's flags
were and how many orders of the last second it had counted, whether it went on to the connector, and when it came. -/
structure Offer (α : Type) where
  order : Order α
  own : Option Nat
  killed : Bool
  flattening : Bool
  recent : Nat
  passed : Bool
  time : Int
deriving DecidableEq, Repr

/-- A snapshot has been handled, or `try_reconnect` has called `connect`. -/
inductive Link
  | snapshot | reconnect
deriving DecidableEq, Repr

structure Engine (α W : Type) where
  limits : LiveRiskLimits α
  /-- The broker has its connector, the wrapper. -/
  live : Bool
  started : Bool
  /-- The gate of the connector's callbacks is open. -/
  active : Bool
  nextstartFired : Bool
  killSwitchTriggered : Bool
  flattening : Bool
  killSwitchReason : String
  peakPortfolioValue : α
  /-- `feed_names_` with `feeds_`, in the order of `feed_cache_`. -/
  feeds : List (String × DataFeed α)
  now : Int
  orderTimestamps : List Int
  lastMarketDataTime : Int
  reconnectAttempts : Nat
  /-- `portfolio_value` is `noexcept`: a read outside a feed ends the process. -/
  aborted : Bool
  /-- What the limiter has thrown at the last submission: an exception of `flatten_positions`. -/
  raised : Option Error
  /-- What the strategy, the connector and the user's callbacks capture. -/
  captured : W
  offers : List (Offer α)
  flattens : List Nat
  links : List Link

abbrev LiveEngine (α W : Type) := BackBroker α (Live α (Engine α W))

/-- The entry points of a strategy. -/
inductive StrategyCall
  | init | start | prenext | nextstart | next | stop
deriving DecidableEq, Repr

/-- What the engine and its broker call out with. -/
inductive EngineEvent (α : Type)
  | order (o : Order α)
  | trade (t : Trade α) (origSize : α)
  | submitOrder (o : Order α)
  | cancelOrder (id : Nat)
  | connect
  | disconnect
  | subscribe (symbol : String)
  | strategy (c : StrategyCall)
  | state (s : ConnectorState)

/-- What can be called: the broker by anyone, the engine by its user, its handlers by the connector. -/
inductive EngineCmd (α : Type)
  | broker (c : Cmd α)
  | marketData (s : MarketDataSnapshot α)
  | fill (t : Trade α)
  | connectorState (s : ConnectorState)
  | subscribe (symbol : String)
  | start
  | stop
  | replaceStrategy
  | checkHeartbeat (now : Int)
  | tryReconnect
  | tick (d : Nat)

/-- The hook that the engine's user may set on the broker. -/
abbrev EngineHook (α W : Type) := OrderSide → α → Nat → LiveEngine α W → PreOrderResult α × W

/-- The world around the engine as it calls out to it. -/
structure Env (α W : Type) where
  call : EngineEvent α → LiveEngine α W → LiveEngine α W
  preOrderHook : EngineHook α W
  minimumPeriod : LiveEngine α W → Nat → Nat
  /-- How many symbols that come in while positions are closed are looked at. -/
  spare : Nat

namespace LiveEngine
variable {α W : Type}

def engine (e : LiveEngine α W) : Engine α W := e.world.rest

def modify (f : Engine α W → Engine α W) (e : LiveEngine α W) : LiveEngine α W := e.setRest (f e.engine)

/-- The time stamps of the last second. -/
def window (e : LiveEngine α W) : List Int :=
  e.engine.orderTimestamps.dropWhile fun t => decide (1000000000 < e.engine.now - t)

def setSymbols (e : LiveEngine α W) : LiveEngine α W :=
  { e with world := { e.world with symbols := e.engine.feeds.map Prod.fst } }

variable [Arith α]

/-! ### The wrapper around the connector -/

/-- What `trigger_kill_switch` is to the limiter: it may leave an exception. -/
abbrev Trigger (α W : Type) := String → LiveEngine α W → LiveEngine α W × Option Error

/-- `check_order_rate`, with what it throws. -/
def checkOrderRate (trigger : Trigger α W) (e : LiveEngine α W) : Bool × LiveEngine α W × Option Error :=
  match e.engine.limits.maxOrdersPerSecond with
  | none => (true, e, none)
  | some limit =>
    if e.engine.killSwitchTriggered then (e.engine.flattening, e, none)
    else
      let stamps := window e
      let e := modify ({ · with orderTimestamps := stamps }) e
      if limit ≤ stamps.length then (false, trigger "order rate limit exceeded" e)
      else (true, modify (fun g => { g with orderTimestamps := stamps ++ [g.now] }) e, none)

/-- `RateLimitWrapper::submit_order`. -/
def submitOrder (env : Env α W) (trigger : Trigger α W) (own : Option Nat) (order : Order α) (e : LiveEngine α W) :
    LiveEngine α W :=
  let killed := e.engine.killSwitchTriggered
  let flattening := e.engine.flattening
  let recent := (window e).length
  let time := e.engine.now
  let (passed, e, raised) := checkOrderRate trigger e
  let e := modify (fun g => { g with offers := g.offers ++ [⟨order, own, killed, flattening, recent, passed, time⟩] }) e
  let e := if passed then env.call (.submitOrder order) e else e
  modify ({ · with raised }) e

/-- The broker's callbacks as `start` sets them, and its connector. -/
def hooksWith (env : Env α W) (submit : Order α → LiveEngine α W → LiveEngine α W) : LiveHooks α (Engine α W) :=
  { orderNotify := fun o => env.call (.order o), tradeNotify := fun t s => env.call (.trade t s),
    preOrderHook := fun side size k e =>
      let (por, captured) := env.preOrderHook side size k e
      (por, { e.world with rest := { e.world.rest with captured } }),
    submit, cancel := fun id => env.call (.cancelOrder id) }

/-! ### The kill switch -/

/-- The loop of `flatten_positions`, which may run for `fuel` more feeds. What `close` throws leaves it. -/
def closeFrom (hooks : LiveHooks α (Engine α W)) (dataIndex : Nat) (fuel : Nat) (e : LiveEngine α W) :
    LiveEngine α W × Option Error :=
  match fuel with
  | 0 => (e, none)
  | fuel + 1 =>
    if e.engine.feeds.length ≤ dataIndex then (e, none)
    else if (e.position dataIndex).isFlat then closeFrom hooks (dataIndex + 1) fuel e
    else
      match BackBroker.closeLive hooks dataIndex (modify ({ · with raised := none }) e) with
      | (e, some err) => (e, some err)
      | (e, none) =>
        match e.world.rest.raised with
        | some err => (e, some err)
        | none => closeFrom hooks (dataIndex + 1) fuel e

/-- `flatten_positions`, which leaves `flattening_` up when it throws. -/
def flattenPositions (env : Env α W) (trigger : Trigger α W) (e : LiveEngine α W) : LiveEngine α W × Option Error :=
  let own := some e.engine.flattens.length
  let began := e.world.events.length
  let e := modify (fun g => { g with flattening := true, flattens := g.flattens ++ [began] }) e
  match closeFrom (hooksWith env (submitOrder env trigger own)) 0 (e.engine.feeds.length + env.spare) e with
  | (e, some err) => (e, some err)
  | (e, none) => (modify ({ · with flattening := false }) e, none)

/-- `trigger_kill_switch`. The orders it flattens with meet a switch that is on, so that the limiter does
not trigger again. -/
def triggerKillSwitch (env : Env α W) : Trigger α W := fun reason e =>
  if e.engine.killSwitchTriggered then (e, none)
  else
    let e := modify ({ · with killSwitchTriggered := true, killSwitchReason := reason }) e
    if e.engine.limits.flattenOnBreach then flattenPositions env (fun _ e => (e, none)) e else (e, none)

/-- The broker's hooks in a running engine. -/
def hooks (env : Env α W) : LiveHooks α (Engine α W) := hooksWith env (submitOrder env (triggerKillSwitch env) none)

def abort (e : LiveEngine α W) : LiveEngine α W := modify ({ · with aborted := true }) e

def drawdownBreached (value : α) (e : LiveEngine α W) : Bool :=
  match e.engine.limits.maxDrawdownPercent with
  | none => false
  | some limit =>
    let peak := e.engine.peakPortfolioValue
    decide (0 < peak) && decide (limit ≤ (peak - value) / peak * 100.0)

def positionBreached (e : LiveEngine α W) : Bool :=
  match e.engine.limits.maxAbsPosition with
  | none => false
  | some limit => (List.range e.engine.feeds.length).any fun i => decide (limit < Arith.abs (e.position i).size)

def evaluateRiskLimits (env : Env α W) (e : LiveEngine α W) : LiveEngine α W :=
  if e.engine.killSwitchTriggered then e
  else
    match e.portfolioValue (e.engine.feeds.map Prod.snd) with
    | .error _ => abort e
    | .ok value =>
      let peak := if e.engine.peakPortfolioValue < value then value else e.engine.peakPortfolioValue
      let e := modify ({ · with peakPortfolioValue := peak }) e
      if drawdownBreached value e then (triggerKillSwitch env "max drawdown breached" e).1
      else if positionBreached e then (triggerKillSwitch env "max position breached" e).1
      else e

/-! ### Handlers -/

/-- `ensure_feed`: a new symbol becomes the last feed, and is subscribed to if the engine runs. -/
def ensureFeed (env : Env α W) (symbol : String) (e : LiveEngine α W) : LiveEngine α W :=
  if e.engine.feeds.any (·.1 == symbol) then e
  else
    let e := setSymbols (modify (fun g => { g with feeds := g.feeds ++ [(symbol, {})] }) e)
    if e.engine.started then env.call (.subscribe symbol) e else e

def indexOfSymbol (e : LiveEngine α W) (symbol : String) : Nat := e.engine.feeds.findIdx (·.1 == symbol)

/-- `bars_pushed`, by feed. -/
def delivered (e : LiveEngine α W) : List Nat := e.engine.feeds.map (·.2.size)

def allReady (env : Env α W) (e : LiveEngine α W) : Bool :=
  (delivered e).zipIdx.all fun (n, i) => decide (env.minimumPeriod e i ≤ n)

def handleMarketData (env : Env α W) (s : MarketDataSnapshot α) (e : LiveEngine α W) : LiveEngine α W :=
  let e := modify (fun g =>
    { g with lastMarketDataTime := g.now, reconnectAttempts := 0, links := g.links ++ [.snapshot] }) e
  let e := ensureFeed env s.symbol e
  let i := indexOfSymbol e s.symbol
  let e := modify (fun g => { g with feeds := g.feeds.modify i fun (n, f) => (n, f.pushSnapshot s) }) e
  let e : LiveEngine α W := e.setBarIndex ((delivered e).getD i 0 - 1)
  let e :=
    if i ≠ 0 || !allReady env e then env.call (.strategy .prenext) e
    else if !e.engine.nextstartFired then
      modify ({ · with nextstartFired := true }) (env.call (.strategy .nextstart) e)
    else env.call (.strategy .next) e
  evaluateRiskLimits env e

def handleFill (env : Env α W) (t : Trade α) (e : LiveEngine α W) : LiveEngine α W :=
  evaluateRiskLimits env (e.recordLiveFill (hooks env) t)

def subscribeAll (env : Env α W) (e : LiveEngine α W) : LiveEngine α W :=
  e.engine.feeds.foldl (fun e f => env.call (.subscribe f.1) e) e

def tryReconnect (env : Env α W) (e : LiveEngine α W) : LiveEngine α W :=
  if !e.engine.started || !e.engine.limits.autoReconnect then e
  else if e.engine.limits.maxReconnectAttempts ≤ e.engine.reconnectAttempts then
    (triggerKillSwitch env "max reconnect attempts exceeded" e).1
  else
    let e := modify (fun g =>
      { g with reconnectAttempts := g.reconnectAttempts + 1, links := g.links ++ [.reconnect] }) e
    subscribeAll env (env.call .connect e)

def handleConnectorState (env : Env α W) (s : ConnectorState) (e : LiveEngine α W) : LiveEngine α W :=
  let e := env.call (.state s) e
  if s = .Disconnected && e.engine.started && !e.engine.killSwitchTriggered then
    if e.engine.limits.autoReconnect then tryReconnect env e
    else (triggerKillSwitch env "connector disconnected" e).1
  else e

def checkHeartbeat (env : Env α W) (now : Int) (e : LiveEngine α W) : LiveEngine α W :=
  match e.engine.limits.heartbeatTimeout with
  | none => e
  | some timeout =>
    if !e.engine.started || e.engine.killSwitchTriggered then e
    else if timeout ≤ (now - e.engine.lastMarketDataTime).tdiv 1000000 then (triggerKillSwitch env "heartbeat timeout" e).1
    else e

def subscribe (env : Env α W) (symbol : String) (e : LiveEngine α W) : LiveEngine α W :=
  let e :=
    if e.engine.feeds.any (·.1 == symbol) then e
    else setSymbols (modify (fun g => { g with feeds := g.feeds ++ [(symbol, {})] }) e)
  if e.engine.started then env.call (.subscribe symbol) e else e

def start (env : Env α W) (e : LiveEngine α W) : LiveEngine α W :=
  if e.engine.started then e
  else
    let e := setSymbols (modify ({ · with live := true }) e)
    let e := env.call (.strategy .start) (env.call (.strategy .init) e)
    let e := modify ({ · with active := true }) e
    let e := subscribeAll env (env.call .connect e)
    modify (fun g => { g with lastMarketDataTime := g.now, started := true }) e

/-- What `flatten_positions` throws leaves `stop`. -/
def stop (env : Env α W) (e : LiveEngine α W) : LiveEngine α W :=
  if !e.engine.started then e
  else
    let (e, err) := if e.engine.limits.flattenOnBreach then flattenPositions env (triggerKillSwitch env) e else (e, none)
    match err with
    | some _ => e
    | none =>
      let e := env.call .disconnect (env.call (.strategy .stop) e)
      modify ({ · with started := false, active := false }) e

def replaceStrategy (env : Env α W) (e : LiveEngine α W) : LiveEngine α W :=
  if !e.engine.started then e
  else
    let e := env.call (.strategy .stop) e
    let e := env.call (.strategy .start) (env.call (.strategy .init) e)
    modify ({ · with nextstartFired := false }) e

/-- A call. Handlers run while the gate is open; before the first `start` the broker is not live and its
orders, those of a backtest, are left out. -/
def exec (env : Env α W) (c : EngineCmd α) (e : LiveEngine α W) : LiveEngine α W :=
  if e.engine.aborted then e
  else
    match c with
    | .broker c => if e.engine.live then e.execLive (hooks env) c else e
    | .marketData s => if e.engine.active then handleMarketData env s e else e
    | .fill t => if e.engine.active then handleFill env t e else e
    | .connectorState s => if e.engine.active then handleConnectorState env s e else e
    | .subscribe symbol => subscribe env symbol e
    | .start => start env e
    | .stop => stop env e
    | .replaceStrategy => replaceStrategy env e
    | .checkHeartbeat now => checkHeartbeat env now e
    | .tryReconnect => tryReconnect env e
    | .tick d => modify (fun g => { g with now := g.now + d }) e

end LiveEngine

/-- What strategy, connector and the user's callbacks do when they are called. -/
structure EngineListener (α W : Type) where
  act : EngineEvent α → LiveEngine α W → W × Option (EngineCmd α)
  preOrderHook : EngineHook α W
  minimumPeriod : LiveEngine α W → Nat → Nat
  spare : Nat

namespace EngineListener
variable {α W : Type} [Arith α]

def envOf (L : EngineListener α W) (call : EngineEvent α → LiveEngine α W → LiveEngine α W) : Env α W :=
  { call, preOrderHook := L.preOrderHook, minimumPeriod := L.minimumPeriod, spare := L.spare }

def react (L : EngineListener α W) : Nat → EngineEvent α → LiveEngine α W → LiveEngine α W
  | 0, _, e => e
  | n + 1, ev, e =>
    match L.act ev e with
    | (captured, none) => LiveEngine.modify ({ · with captured }) e
    | (captured, some c) =>
      L.react n ev (LiveEngine.exec (L.envOf (L.react n)) c (LiveEngine.modify ({ · with captured }) e))

def env (L : EngineListener α W) (fuel : Nat) : Env α W := L.envOf (L.react fuel)

end EngineListener

/-- What `check_order_rate` decides, by the limits, the flags and the orders it counts. -/
def LiveRiskLimits.admits {α : Type} (limits : LiveRiskLimits α) (killed flattening : Bool) (recent : Nat) : Bool :=
  match limits.maxOrdersPerSecond with
  | none => true
  | some limit => if killed then flattening else decide (recent < limit)

namespace LiveEngine
variable {α W : Type} [Arith α]

omit [Arith α] in
theorem checkOrderRate_fst (trigger : Trigger α W) (e : LiveEngine α W) : (checkOrderRate trigger e).1 =
    e.engine.limits.admits e.engine.killSwitchTriggered e.engine.flattening (window e).length := by
  unfold checkOrderRate LiveRiskLimits.admits
  cases e.engine.limits.maxOrdersPerSecond with
  | none => rfl
  | some limit =>
    dsimp only
    split_ifs with _ hlimit
    · rfl
    · exact (decide_eq_false (not_lt.2 hlimit)).symm
    · exact (decide_eq_true (not_le.1 hlimit)).symm

def run (env : Env α W) (e : LiveEngine α W) (cs : List (EngineCmd α)) : LiveEngine α W :=
  cs.foldl (fun e c => exec env c e) e

theorem run_append (env : Env α W) (e : LiveEngine α W) (cs cs' : List (EngineCmd α)) :
    run env e (cs ++ cs') = run env (run env e cs) cs' := List.foldl_append ..

/-- The constructor: a broker that nothing has happened to, and an engine that is not started. -/
structure Unstarted (e : LiveEngine α W) : Prop extends e.FreshLive where
  live : e.engine.live = false
  started : e.engine.started = false
  active : e.engine.active = false
  killSwitchTriggered : e.engine.killSwitchTriggered = false
  flattening : e.engine.flattening = false
  aborted : e.engine.aborted = false
  offers : e.engine.offers = []
  flattens : e.engine.flattens = []

end LiveEngine

/-- A strategy, a connector and callbacks that do nothing. -/
def EngineListener.silent {α : Type} : EngineListener α Unit :=
  { act := fun _ _ => ((), none), preOrderHook := fun _ size _ _ => (⟨0, size, false⟩, ()),
    minimumPeriod := fun _ _ => 0, spare := 0 }

/-- An engine with 1000 in cash, for examples. -/
def LiveEngine.funded (limits : LiveRiskLimits ℚ) : LiveEngine ℚ Unit :=
  .init .USD 1000 none
    { symbols := [], snapshots := fun _ => none, busy := [], events := [],
      rest := { limits, live := false, started := false, active := false, nextstartFired := false,
                killSwitchTriggered := false, flattening := false, killSwitchReason := "", peakPortfolioValue := 0,
                feeds := [], now := 0, orderTimestamps := [], lastMarketDataTime := 0, reconnectAttempts := 0,
                aborted := false, raised := none, captured := (), offers := [], flattens := [], links := [] } }

theorem LiveEngine.unstarted_funded (limits : LiveRiskLimits ℚ) : (funded limits).Unstarted :=
  ⟨⟨BackBroker.fresh_init .., fun _ => rfl, rfl, rfl⟩, rfl, rfl, rfl, rfl, rfl, rfl, rfl, rfl⟩

/-- Flattening on a breach, and at most so many orders a second. -/
def LiveRiskLimits.rate (maxOrdersPerSecond : Option Nat) : LiveRiskLimits ℚ :=
  { maxAbsPosition := none, maxDrawdownPercent := none, maxOrdersPerSecond, heartbeatTimeout := none,
    flattenOnBreach := true, autoReconnect := false, maxReconnectAttempts := 3 }

end StratForge
