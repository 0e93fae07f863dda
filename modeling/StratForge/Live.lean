import StratForge.Callbacks

/-!
# The broker in live mode (`broker/broker.hpp`, `live/market_connector.hpp`)

With a connector set, `buy`, `sell`, their `_ext` variants, `close` and `cancel_order` go through it
and fills come back as cumulative `Trade` snapshots, which `record_live_fill` turns into the fills
that are booked. `buy_bracket` and `sell_bracket` are those of the backtest. `Live` is what the broker
keeps for this; it stands where the backtest has what the callbacks capture.

A submission or a cancellation that throws does so before it has changed anything. `busy` and `events`
are not in the source and no definition below reads them: `busy` are the orders whose submission or
booking is under way, `events` is what has happened so far.
-/

namespace StratForge

/-- What happens to live orders. -/
inductive LiveNote (α : Type)
  /-- A bracket call that has put this many orders in the vectors. -/
  | bracket (submitted : Nat)
  /-- `cancel_order` finds the record alive. -/
  | cancelled (id : Nat) (busy : List Nat)
  /-- `record_live_fill` is about to book, on the record and the stored snapshot it finds. -/
  | booking (order : Order α) (prev : Option (Trade α)) (trade : Trade α)
deriving DecidableEq, Repr

structure Live (α W : Type) where
  /-- `live_symbols_`, by data index. -/
  symbols : List String
  /-- `live_trade_snapshots_`, by order id. -/
  snapshots : Nat → Option (Trade α)
  /-- What the callbacks and the connector capture. -/
  rest : W
  busy : List Nat
  events : List (LiveNote α)

/-- The callbacks of the broker and the two calls it makes to the connector. -/
structure LiveHooks (α W : Type) extends Hooks α (Live α W) where
  submit : Order α → BackBroker α (Live α W) → BackBroker α (Live α W)
  cancel : Nat → BackBroker α (Live α W) → BackBroker α (Live α W)

namespace BackBroker
variable {α W : Type}

def liveNote (b : BackBroker α (Live α W)) (n : LiveNote α) : BackBroker α (Live α W) :=
  { b with world := { b.world with events := b.world.events ++ [n] } }

def setRest (b : BackBroker α (Live α W)) (rest : W) : BackBroker α (Live α W) :=
  { b with world := { b.world with rest } }

def setBusy (b : BackBroker α (Live α W)) (busy : List Nat) : BackBroker α (Live α W) :=
  { b with world := { b.world with busy } }

/-- `live_trade_snapshots_[id] = trade`, or its erasure. -/
def setSnapshot (b : BackBroker α (Live α W)) (id : Nat) (trade : Option (Trade α)) :
    BackBroker α (Live α W) :=
  { b with world := { b.world with snapshots := fun k => if k = id then trade else b.world.snapshots k } }

/-- `sync_pending_order`. -/
def syncPendingOrder (b : BackBroker α W) (order : Order α) : BackBroker α W :=
  { b with pendingOrders := modifyById order.id (fun _ => order) b.pendingOrders }

/-- `sync_order` and `sync_pending_order`, which live mode always calls together. -/
def syncBoth (b : BackBroker α W) (order : Order α) : BackBroker α W :=
  (b.syncOrder order).syncPendingOrder order

def erasePending (b : BackBroker α W) (id : Nat) : BackBroker α W :=
  { b with pendingOrders := b.pendingOrders.filter (·.id != id) }

variable [Arith α]

/-! ### Submission and cancellation -/

/-- The order as `submit_live_order` fills it in. -/
def newOrder (b : BackBroker α W) (side : OrderSide) (por : PreOrderResult α) (params : OrderParams α) : Order α :=
  { id := b.nextOrderId, type := params.type, status := .Created, side, size := por.finalSize,
    price := params.price, stopPrice := params.stopPrice, executedPrice := 0, executedSize := 0,
    commission := 0, dataIndex := params.dataIndex, candidateId := por.candidateId,
    validUntilBar := params.validUntilBar, trailAmount := params.trailAmount,
    trailPercent := params.trailPercent, trailStopPrice := 0, ocoGroupId := params.ocoGroupId,
    parentId := params.parentId, childIds := [], transmit := params.transmit }

/-- `order.submit()` and `order.accept()` on the local order, which overwrites the record each time. -/
def announce (h : LiveHooks α W) (order : Order α) (b : BackBroker α (Live α W)) : BackBroker α (Live α W) :=
  let order := order.submit
  let b := h.orderNotify order (b.syncBoth order)
  let order := order.accept
  h.orderNotify order (b.syncBoth order)

/-- The id is 0 when the hook rejects the order. -/
def submitLiveOrder (h : LiveHooks α W) (side : OrderSide) (size : α) (params : OrderParams α)
    (b : BackBroker α (Live α W)) : Except Error (Nat × BackBroker α (Live α W)) :=
  if b.world.symbols[params.dataIndex]?.getD "" = "" then
    .error (.invalidArgument "live trading requires a symbol mapping for the order data index")
  else
    let (por, world) := h.preOrderHook side size params.dataIndex b
    let b := { b with world }
    if por.rejected then .ok (0, b)
    else
      let order := b.newOrder side por params
      let busy := b.world.busy
      let b := (b.pushOrder order).setBusy (order.id :: busy)
      let b := (b.announce h order).setBusy busy
      .ok (order.id, h.submit order.submit.accept b)

/-- `cancel_order`: the connector is asked, and the record cancelled at once. -/
def cancelLiveOrder (h : LiveHooks α W) (orderId : Nat) (b : BackBroker α (Live α W)) :
    Except Error (BackBroker α (Live α W)) :=
  match b.findOrder orderId with
  | none => .error (.outOfRange "unknown order id")
  | some _ =>
    let b := h.cancel orderId b
    match b.findOrder orderId with
    | none => .ok b
    | some order =>
      let b := if order.isAlive then b.liveNote (.cancelled orderId b.world.busy) else b
      .ok (h.orderNotify order.cancel (b.syncBoth order.cancel))

/-! ### Fills -/

/-- The price of the part of a snapshot that the stored one does not have. -/
def liveFillPrice (prev : Option (Trade α)) (trade : Trade α) : α :=
  match prev with
  | none => trade.entryPrice
  | some prev =>
    let fillAbs := Arith.abs (trade.size - prev.size)
    if trade.isClosed && decide (0 < trade.exitPrice) then trade.exitPrice
    else if (0 < prev.size ∧ prev.size < trade.size) ∨ (prev.size < 0 ∧ trade.size < prev.size) then
      if 0 < fillAbs then
        (trade.entryPrice * Arith.abs trade.size - prev.entryPrice * Arith.abs prev.size) / fillAbs
      else trade.entryPrice
    else if Arith.abs trade.size < Arith.abs prev.size then
      if 0 < fillAbs then
        prev.entryPrice + (if 0 < prev.size then 1 else -1) * ((trade.pnl - prev.pnl) / fillAbs)
      else trade.entryPrice
    else trade.entryPrice

/-- The snapshot ends its order. -/
def liveTerminal (order : Order α) (trade : Trade α) : Bool :=
  trade.isClosed || decide (order.size - 1e-12 ≤ Arith.abs trade.size)

/-- The record after a fill of `fillSize`. -/
def liveExecuted (order : Order α) (fillSize fillPrice comm : α) (terminal : Bool) : Order α :=
  { order with executedSize := order.executedSize + Arith.abs fillSize, executedPrice := fillPrice,
               commission := order.commission + comm, status := if terminal then .Completed else .Partial }

/-- The fill on cash, position and trades; the trade callback fires in it. -/
def bookLive (h : LiveHooks α W) (order : Order α) (fillSize fillPrice comm : α) (trade : Trade α)
    (b : BackBroker α (Live α W)) : BackBroker α (Live α W) :=
  let k := order.dataIndex
  let b := (b.pay (b.settleCcy k) (fillSize * fillPrice + comm)).ensurePosition k
  let oldSize := (b.position k).size
  let b := b.updatePosition k fillSize fillPrice
  let liveDt := if trade.isClosed then trade.exitTime else trade.entryTime
  b.updateTrades h.toHooks k oldSize fillSize fillPrice comm b.dataBarIndex liveDt order.candidateId

/-- The record is written through the reference, hence from what the trade callback has left. -/
def applyLiveExecution (h : LiveHooks α W) (order : Order α) (fillSize fillPrice comm : α) (trade : Trade α)
    (b : BackBroker α (Live α W)) : BackBroker α (Live α W) :=
  let terminal := liveTerminal order trade
  let busy := b.world.busy
  let b := ((b.setBusy (order.id :: busy)).bookLive h order fillSize fillPrice comm trade).setBusy busy
  match b.findOrder order.id with
  | none => b
  | some order =>
    let order := liveExecuted order fillSize fillPrice comm terminal
    let b := h.orderNotify order (b.syncBoth order)
    if terminal then b.erasePending order.id else b

def recordLiveFill (h : LiveHooks α W) (trade : Trade α) (b : BackBroker α (Live α W)) :
    BackBroker α (Live α W) :=
  match b.findOrder trade.id with
  | none => b
  | some order =>
    let prev := b.world.snapshots trade.id
    let deltaSize := trade.size - (prev.map Trade.size).getD 0
    if Arith.abs deltaSize < 1e-12 then b.setSnapshot trade.id (some trade)
    else
      let commDelta := trade.commission - (prev.map Trade.commission).getD 0
      let b := b.liveNote (.booking order prev trade)
      let b := b.applyLiveExecution h order deltaSize (liveFillPrice prev trade) commDelta trade
      let b := b.setSnapshot trade.id (some trade)
      if liveTerminal order trade then b.setSnapshot trade.id none else b

/-! ### Commands -/

/-- A call that throws leaves the broker as it is. -/
def orUnchanged (b : BackBroker α (Live α W)) (r : Except Error (BackBroker α (Live α W))) :
    BackBroker α (Live α W) :=
  match r with
  | .ok b' => b'
  | .error _ => b

/-- `buy` and `sell`. -/
def liveOrder (h : LiveHooks α W) (side : OrderSide) (size price : α) (stopPrice : Option α) (type : OrderType)
    (dataIndex : Nat) (b : BackBroker α (Live α W)) : Except Error (Nat × BackBroker α (Live α W)) :=
  submitLiveOrder h side size { OrderParams.default with type, price, stopPrice, dataIndex } b

/-- `close`, which gives the data index a position before it asks for the order. -/
def closeLive (h : LiveHooks α W) (dataIndex : Nat) (b : BackBroker α (Live α W)) :
    BackBroker α (Live α W) × Option Error :=
  let b := b.ensurePosition dataIndex
  let pos := b.position dataIndex
  if pos.isFlat then (b, none)
  else
    let side := if pos.isLong then .Sell else .Buy
    match liveOrder h side (Arith.abs pos.size) 0 none .Market dataIndex b with
    | .ok (_, b) => (b, none)
    | .error e => (b, some e)

/-- `buy_bracket` and `sell_bracket`, which do not ask whether the broker is live. -/
def bracketLive (h : LiveHooks α W) (mainSide legSide : OrderSide) (size limitPrice stopPrice : α)
    (dataIndex : Nat) (b : BackBroker α (Live α W)) : BackBroker α (Live α W) :=
  let b' := (bracket h.toHooks mainSide legSide size limitPrice stopPrice dataIndex b).2
  b'.liveNote (.bracket (b'.nextOrderId - b.nextOrderId))

def execLive (h : LiveHooks α W) (c : Cmd α) (b : BackBroker α (Live α W)) : BackBroker α (Live α W) :=
  match c with
  | .buy size price stopPrice type dataIndex =>
    b.orUnchanged ((liveOrder h .Buy size price stopPrice type dataIndex b).map Prod.snd)
  | .sell size price stopPrice type dataIndex =>
    b.orUnchanged ((liveOrder h .Sell size price stopPrice type dataIndex b).map Prod.snd)
  | .buyExt size params => b.orUnchanged ((submitLiveOrder h .Buy size params b).map Prod.snd)
  | .sellExt size params => b.orUnchanged ((submitLiveOrder h .Sell size params b).map Prod.snd)
  | .buyBracket size limitPrice stopPrice dataIndex =>
    bracketLive h .Buy .Sell size limitPrice stopPrice dataIndex b
  | .sellBracket size limitPrice stopPrice dataIndex =>
    bracketLive h .Sell .Buy size limitPrice stopPrice dataIndex b
  | .close dataIndex => (closeLive h dataIndex b).1
  | .cancelOrder orderId => b.orUnchanged (cancelLiveOrder h orderId b)
  | .nextOcoGroup => { b with nextOcoGroupId := b.nextOcoGroupId + 1 }

end BackBroker

/-! ### Callbacks and runs -/

/-- What the broker calls out with: its notifications, and what it asks of the connector. -/
inductive LiveEvent (α : Type)
  | order (o : Order α)
  | trade (t : Trade α) (origSize : α)
  | submit (o : Order α)
  | cancel (id : Nat)

/-- As `Listener`, with the connector. -/
structure LiveListener (α W : Type) where
  act : LiveEvent α → BackBroker α (Live α W) → W × Option (Cmd α)
  preOrderHook : OrderSide → α → Nat → BackBroker α (Live α W) → PreOrderResult α × W

namespace LiveListener
variable {α W : Type} [Arith α]

def hooksOf (L : LiveListener α W)
    (r : LiveEvent α → BackBroker α (Live α W) → BackBroker α (Live α W)) : LiveHooks α W :=
  { orderNotify := fun o => r (.order o), tradeNotify := fun t s => r (.trade t s),
    preOrderHook := fun side size k b =>
      let (por, rest) := L.preOrderHook side size k b
      (por, { b.world with rest }),
    submit := fun o => r (.submit o), cancel := fun id => r (.cancel id) }

def react (L : LiveListener α W) : Nat → LiveEvent α → BackBroker α (Live α W) → BackBroker α (Live α W)
  | 0, _, b => b
  | n + 1, e, b =>
    match L.act e b with
    | (rest, none) => b.setRest rest
    | (rest, some c) => L.react n e (BackBroker.execLive (L.hooksOf (L.react n)) c (b.setRest rest))

def hooks (L : LiveListener α W) (fuel : Nat) : LiveHooks α W := L.hooksOf (L.react fuel)

end LiveListener

/-- A step of a live session: a command, a fill report, or the engine's bar index. -/
inductive LiveOp (α : Type)
  | cmd (c : Cmd α)
  | fill (trade : Trade α)
  | setBarIndex (idx : Nat)

namespace BackBroker
variable {α W : Type} [Arith α]

def liveStep (h : LiveHooks α W) (b : BackBroker α (Live α W)) : LiveOp α → BackBroker α (Live α W)
  | .cmd c => b.execLive h c
  | .fill trade => b.recordLiveFill h trade
  | .setBarIndex idx => b.setBarIndex idx

def liveRun (h : LiveHooks α W) (b : BackBroker α (Live α W)) (ops : List (LiveOp α)) :
    BackBroker α (Live α W) := ops.foldl (liveStep h) b

@[simp] theorem liveRun_nil (h : LiveHooks α W) (b : BackBroker α (Live α W)) : liveRun h b [] = b := rfl

@[simp] theorem liveRun_append (h : LiveHooks α W) (b : BackBroker α (Live α W)) (ops ops' : List (LiveOp α)) :
    liveRun h b (ops ++ ops') = liveRun h (liveRun h b ops) ops' := List.foldl_append ..

/-- A broker that is live from the start. -/
structure FreshLive (b : BackBroker α (Live α W)) : Prop extends Fresh b where
  snapshots : ∀ id, b.world.snapshots id = none
  busy : b.world.busy = []
  events : b.world.events = []

end BackBroker

/-- Callbacks and a connector that do nothing. -/
def LiveListener.silent {α : Type} : LiveListener α Unit :=
  { act := fun _ _ => ((), none), preOrderHook := fun _ size _ _ => (⟨0, size, false⟩, ()) }

/-- A live broker with 1000 in cash that trades one symbol, for examples. -/
def BackBroker.liveFunded : BackBroker ℚ (Live ℚ Unit) :=
  .init .USD 1000 none { symbols := ["PRIMARY"], snapshots := fun _ => none, rest := (), busy := [], events := [] }

theorem BackBroker.freshLive_liveFunded : BackBroker.liveFunded.FreshLive :=
  ⟨fresh_init .., fun _ => rfl, rfl, rfl⟩

/-- The report that `size` of an order is filled, at that average price and commission. -/
def Trade.ofFill {α : Type} [Arith α] (id : Nat) (size entryPrice commission : α) : Trade α :=
  { Trade.fresh id 0 0 with size, entryPrice, commission, isopen := true }

end StratForge
