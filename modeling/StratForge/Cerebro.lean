import StratForge.Clock
import StratForge.Callbacks

/-!
# The engine (`Cerebro::run`)

Everything that is not the engine's own is a parameter: the strategies with their lifecycle, what the broker's
notifications and the pre-order hook call, and what analyzers, observers and the candidate collector do with a bar.
All of it sees the clock, that is the feeds where they stand, and the broker, and changes what it captures; a
lifecycle method issues commands one after another, as a callback does.
-/

namespace StratForge

/-- The lifecycle methods that may submit orders before and during the bars. -/
inductive Lifecycle
  | init | start | prenext | nextstart | next

structure Cerebro (α W : Type) where
  /-- What `set_order_notify`, `set_trade_notify` and `set_pre_order_hook` install. -/
  listener : Clock α → Listener α W
  strategies : Nat
  call : Lifecycle → Clock α → Nat → BackBroker α W → W × Option (Cmd α)
  minimumPeriod : W → Nat → Nat → Nat
  /-- `start()` of the analyzers and the observers. -/
  opening : W → W
  /-- `next` of the analyzers and the observers and `on_bar` of the collector. -/
  closing : Nat → Clock α → BackBroker α W → W
  fuel : Nat

structure CerebroState (α W : Type) where
  clock : Clock α
  broker : BackBroker α W
  /-- `strat_entered_next`. -/
  entered : List Bool

variable {α W : Type} [Arith α]

/-- A method that issues commands, each decided from the broker as the last one has left it. -/
def Listener.drive (L : Listener α W) (fuel : Nat) (act : BackBroker α W → W × Option (Cmd α)) :
    Nat → BackBroker α W → BackBroker α W
  | 0, b => b
  | n + 1, b =>
    match act b with
    | (world, none) => { b with world }
    | (world, some c) => L.drive fuel act n (BackBroker.exec (L.hooks fuel) c { b with world })

/-- No context feed may be finer than the master. -/
def Clock.checkPlan (clock : Clock α) : Except Error Unit :=
  let execTf := clock.master.feed.timeframe
  (List.range clock.context.length).forM fun i =>
    match clock.context[i]? with
    | none => .ok ()
    | some s =>
      if finerThan s.feed.timeframe execTf then
        .error (.invalidArgument ("Cerebro: context feed " ++ toString (i + 1) ++
          " is finer than feed 0 (execution); the execution feed must be the finest or equal. Got feed 0 = " ++
          execTf.token ++ ", feed " ++ toString (i + 1) ++ " = " ++ s.feed.timeframe.token))
      else .ok ()

namespace Cerebro
variable (c : Cerebro α W)

def hooks (clock : Clock α) : Hooks α W := (c.listener clock).hooks c.fuel

/-- A strategy's method. -/
def phase (ph : Lifecycle) (clock : Clock α) (b : BackBroker α W) (si : Nat) : BackBroker α W :=
  (c.listener clock).drive c.fuel (c.call ph clock si) c.fuel b

/-- `check_warmup_feasibility`. -/
def checkWarmup (clock : Clock α) (w : W) : Except Error Unit :=
  (List.range c.strategies).forM fun si => (List.range clock.slots.length).forM fun k =>
    match clock.slots[k]? with
    | none => .ok ()
    | some s =>
      let required := c.minimumPeriod w si k
      let available := s.feed.size
      let tf := s.feed.timeframe.token
      if available < required then
        .error (.invalidArgument ("Cerebro: feed " ++ toString k ++ " (interval " ++ (if tf = "" then "unknown" else tf) ++
          ") has " ++ toString available ++ " bars but warmup requires " ++ toString required))
      else .ok ()

/-- Up to the first bar. -/
def start (feeds : DataFeed α × List (DataFeed α)) (b : BackBroker α W) : Except Error (CerebroState α W) := do
  let clock := Clock.start feeds
  clock.checkPlan
  let b := (List.range c.strategies).foldl (fun b si => c.phase .start clock (c.phase .init clock b si) si) b
  c.checkWarmup clock b.world
  return { clock, broker := { b with world := c.opening b.world }, entered := .replicate c.strategies false }

/-- Every feed has delivered what the strategy waits for. -/
def ready (clock : Clock α) (w : W) (si : Nat) : Bool :=
  (List.range clock.slots.length).all fun k =>
    match clock.slots[k]? with
    | none => true
    | some s => c.minimumPeriod w si k ≤ s.barsDelivered

def turn (clock : Clock α) (st : BackBroker α W × List Bool) (si : Nat) : BackBroker α W × List Bool :=
  if st.2[si]?.getD false then (c.phase .next clock st.1 si, st.2)
  else if c.ready clock st.1.world si then (c.phase .nextstart clock st.1 si, st.2.set si true)
  else (c.phase .prenext clock st.1 si, st.2)

/-- A bar after the gate: the pending orders, the strategies, the analyzers. -/
def trade (bar : Nat) (e : CerebroState α W) : CerebroState α W :=
  let b := e.broker.processOrders (c.hooks e.clock) e.clock.feeds
  let (b, entered) := (List.range c.strategies).foldl (c.turn e.clock) (b, e.entered)
  { e with broker := { b with world := c.closing bar e.clock b }, entered }

/-- The gated advance: what `tick` delivers is what the bar is traded with. -/
def gate (bar : Nat) (e : CerebroState α W) : Except Error (CerebroState α W) := do
  return { e with clock := ← e.clock.tick bar, broker := e.broker.setBarIndex bar }

def bar (n : Nat) (e : CerebroState α W) : Except Error (CerebroState α W) := do
  let e := c.trade n (← gate n e)
  return if n + 1 < e.clock.master.feed.size then { e with clock := e.clock.advance } else e

/-- The engine after the first `n` bars. -/
def upTo (feeds : DataFeed α × List (DataFeed α)) (b : BackBroker α W) : Nat → Except Error (CerebroState α W)
  | 0 => c.start feeds b
  | n + 1 => do c.bar n (← upTo feeds b n)

/-- The engine on bar `n`, after the gated advance. -/
def gated (feeds : DataFeed α × List (DataFeed α)) (b : BackBroker α W) (n : Nat) : Except Error (CerebroState α W) := do
  gate n (← c.upTo feeds b n)

def run (feeds : DataFeed α × List (DataFeed α)) (b : BackBroker α W) : Except Error (CerebroState α W) :=
  if feeds.1.size = 0 then .ok { clock := Clock.start feeds, broker := b, entered := [] }
  else c.upTo feeds b feeds.1.size

/-- A strategy that does nothing. -/
def silent : Cerebro α Unit :=
  { listener := fun _ => .silent, strategies := 1, call := fun _ _ _ _ => ((), none), minimumPeriod := fun _ _ _ => 0,
    opening := id, closing := fun _ _ _ => (), fuel := 1 }

end Cerebro

/-- Bars with nothing but their time, for examples. -/
def DataFeed.timed (tf : TimeFrameCompression) (times : List DateTime) : DataFeed α :=
  { lines := { data := times.map fun dt => ⟨dt, 1, 1, 1, 1, 1, 0⟩ }, timeframe := tf }

end StratForge
