import StratForge.Account
import Mathlib.Data.List.Basic

/-!
# The backtest broker: state, submission, cancellation (`broker/broker.hpp`)

An order lives in `allOrders`, its record, and while it is pending in `pendingOrders`. The callbacks
are transformers of the whole broker: `order_notify_` and `trade_notify_` fire in the middle of the
operations and may submit and cancel orders themselves. `W` is what they and the pre-order hook
capture.

Appending to `pendingOrders` while a loop runs over it is the case that the vector does not grow
beyond its capacity: the loop goes on to the end it started with.

`turn` and `journal` are not in the source and no definition below reads them. `turn` is the number
of pending orders the running `process_orders` has reached, `journal` is what has happened so far.
-/

namespace StratForge

/-- The positions with one for the data index, flat if it is new. -/
def Position.ensure {α : Type} [Arith α] (instrumentMap : Nat → Option (Instrument α))
    (positions : List (Position α)) (dataIndex : Nat) : List (Position α) :=
  match positions.find? (·.dataIndex == dataIndex) with
  | some _ => positions
  | none => positions ++ [Position.flat (instrumentMap dataIndex) dataIndex]

structure OrderParams (α : Type) where
  type : OrderType
  price : α
  stopPrice : Option α
  dataIndex : Nat
  validUntilBar : Option Nat
  trailAmount : α
  trailPercent : α
  ocoGroupId : Nat
  parentId : Nat
  transmit : Bool

/-- What `OrderParams` starts as. -/
def OrderParams.default {α : Type} [Arith α] : OrderParams α :=
  { type := .Market, price := 0, stopPrice := none, dataIndex := 0, validUntilBar := none,
    trailAmount := 0, trailPercent := 0, ocoGroupId := 0, parentId := 0, transmit := true }

structure PreOrderResult (α : Type) where
  candidateId : Nat
  finalSize : α
  rejected : Bool
deriving DecidableEq, Repr

/-- A booked fill: the order as it is left by it, the signed size, and the bar it was matched on as
`data_bar_index_` and as the cursor of the order's own feed. -/
structure Execution (α : Type) where
  order : Order α
  price : α
  size : α
  commission : α
  currency : Currency
  barIndex : Nat
  cursor : Nat
deriving DecidableEq, Repr

/-- What happens to orders, in the order in which it happens. -/
inductive Note (α : Type)
  /-- A new order; `turn` is 0 outside `process_orders`, `seen` the bars its feed had delivered. -/
  | submitted (order : Order α) (turn seen : Nat)
  /-- `cancel_order` reaches the alive pending order at `pos`. -/
  | cancelled (id pos turn : Nat)
  /-- The record of the order is overwritten. -/
  | recorded (order : Order α)
  | executed (x : Execution α)
deriving DecidableEq, Repr

def Note.execution? {α : Type} : Note α → Option (Execution α)
  | .executed x => some x
  | _ => none

/-- What is set up before a run and fixed during it. -/
structure BrokerSettings (α : Type) where
  baseCcy : Currency
  initialCash : α
  fx : Option (Currency → Currency → DateTime → α)
  legacyCommission : CommissionInfo α
  slipPerc : α
  slipFixed : α
  slipOpen : Bool
  slipLimit : Bool
  slipMatch : Bool
  slipOut : Bool
  instrumentMap : Nat → Option (Instrument α)

structure BackBroker (α W : Type) extends BrokerSettings α where
  cash : Currency → α
  nextOrderId : Nat
  nextTradeId : Nat
  nextOcoGroupId : Nat
  dataBarIndex : Nat
  allOrders : List (Order α)
  pendingOrders : List (Order α)
  positions : List (Position α)
  openTrades : List (Trade α × α)
  closedTrades : List (Trade α × α)
  world : W
  turn : Nat
  /-- How many bars each feed has delivered; the engine keeps it. -/
  seen : Nat → Nat
  journal : List (Note α)

/-- The callbacks; `preOrderHook` sees the broker and may only change what it captures. -/
structure Hooks (α W : Type) where
  orderNotify : Order α → BackBroker α W → BackBroker α W
  tradeNotify : Trade α → α → BackBroker α W → BackBroker α W
  preOrderHook : OrderSide → α → Nat → BackBroker α W → PreOrderResult α × W

namespace BackBroker
variable {α W : Type} [Arith α]

/-- The constructor, with `set_commission` and the slippage and instruments left to set. -/
def init (baseCcy : Currency) (initialCash : α) (fx : Option (Currency → Currency → DateTime → α))
    (world : W) : BackBroker α W :=
  { baseCcy, initialCash, cash := fun c => if c = baseCcy then initialCash else 0, fx,
    legacyCommission := ⟨.Percentage, 0, 0⟩, slipPerc := 0, slipFixed := 0, slipOpen := true,
    slipLimit := true, slipMatch := true, slipOut := false, nextOrderId := 1, nextTradeId := 1,
    nextOcoGroupId := 1, dataBarIndex := 0, instrumentMap := fun _ => none, allOrders := [],
    pendingOrders := [], positions := [], openTrades := [], closedTrades := [], world, turn := 0,
    seen := fun _ => 0, journal := [] }

def setBarIndex (b : BackBroker α W) (idx : Nat) : BackBroker α W := { b with dataBarIndex := idx }

def note (b : BackBroker α W) (n : Note α) : BackBroker α W := { b with journal := b.journal ++ [n] }

/-- The fills so far. -/
def executions (b : BackBroker α W) : List (Execution α) := b.journal.filterMap Note.execution?

/-! ### Records -/

def findOrder (b : BackBroker α W) (id : Nat) : Option (Order α) := b.allOrders.find? (·.id == id)

/-- Overwrite the first element that has the key. -/
def modifyById (id : Nat) (f : Order α → Order α) (os : List (Order α)) : List (Order α) :=
  os.modify (os.findIdx (·.id == id)) f

def syncOrder (b : BackBroker α W) (order : Order α) : BackBroker α W :=
  { b with allOrders := modifyById order.id (fun _ => order) b.allOrders }.note (.recorded order)

/-- Change the pending order at a position, which the loops hold a reference to. -/
def edit (b : BackBroker α W) (i : Nat) (f : Order α → Order α) : BackBroker α W :=
  { b with pendingOrders := b.pendingOrders.modify i f }

/-- `sync_order(order)` for the pending order at a position. -/
def sync (b : BackBroker α W) (i : Nat) : BackBroker α W :=
  match b.pendingOrders[i]? with
  | some order => b.syncOrder order
  | none => b

/-- `order_notify_(order)` for the pending order at a position. -/
def notify (h : Hooks α W) (b : BackBroker α W) (i : Nat) : BackBroker α W :=
  match b.pendingOrders[i]? with
  | some order => h.orderNotify order b
  | none => b

def isParentFilled (b : BackBroker α W) (parentId : Nat) : Bool :=
  match b.findOrder parentId with
  | some order => order.status = .Completed
  | none => false

/-! ### Submission -/

/-- `all_orders_.push_back(order); pending_orders_.push_back(order)`. -/
def pushOrder (b : BackBroker α W) (order : Order α) : BackBroker α W :=
  { b with allOrders := b.allOrders ++ [order], pendingOrders := b.pendingOrders ++ [order],
           nextOrderId := b.nextOrderId + 1 }.note (.submitted order b.turn (b.seen order.dataIndex))

/-- The id is 0 when the hook rejects the order. -/
def submitOrderExt (h : Hooks α W) (side : OrderSide) (size : α) (params : OrderParams α)
    (b : BackBroker α W) : Nat × BackBroker α W :=
  let (por, world) := h.preOrderHook side size params.dataIndex b
  let b := { b with world }
  if por.rejected then (0, b)
  else
    (b.nextOrderId, b.pushOrder
      { id := b.nextOrderId, type := params.type, status := .Created, side, size := por.finalSize,
        price := params.price, stopPrice := params.stopPrice, executedPrice := 0, executedSize := 0,
        commission := 0, dataIndex := params.dataIndex, candidateId := por.candidateId,
        validUntilBar := params.validUntilBar, trailAmount := params.trailAmount,
        trailPercent := params.trailPercent, trailStopPrice := 0, ocoGroupId := params.ocoGroupId,
        parentId := params.parentId, childIds := [], transmit := params.transmit })

/-- `submit_order`: as `submit_order_ext`, with every other parameter at its default. -/
def submitOrder (h : Hooks α W) (side : OrderSide) (size price : α) (stopPrice : Option α)
    (type : OrderType) (dataIndex : Nat) (b : BackBroker α W) : Nat × BackBroker α W :=
  submitOrderExt h side size { OrderParams.default with type, price, stopPrice, dataIndex } b

structure BracketResult where
  mainId : Nat
  stopId : Nat
  limitId : Nat
deriving DecidableEq, Repr

/-- The bracket's main order learns its legs, in both vectors. -/
def linkChildren (b : BackBroker α W) (mainId : Nat) (childIds : List Nat) : BackBroker α W :=
  { b with allOrders := modifyById mainId (fun o => { o with childIds }) b.allOrders,
           pendingOrders := modifyById mainId (fun o => { o with childIds }) b.pendingOrders }

def tpParams (limitPrice : α) (dataIndex mainId ocoGrp : Nat) : OrderParams α :=
  { OrderParams.default with
    type := .Limit, price := limitPrice, dataIndex, parentId := mainId, ocoGroupId := ocoGrp, transmit := false }

def slParams (stopPrice : α) (dataIndex mainId ocoGrp : Nat) : OrderParams α :=
  { OrderParams.default with
    type := .Stop, stopPrice := some stopPrice, dataIndex, parentId := mainId, ocoGroupId := ocoGrp,
    transmit := false }

/-- `buy_bracket` and `sell_bracket` differ in the sides of the main order and of the legs. -/
def bracket (h : Hooks α W) (mainSide legSide : OrderSide) (size limitPrice stopPrice : α)
    (dataIndex : Nat) (b : BackBroker α W) : BracketResult × BackBroker α W :=
  let ocoGrp := b.nextOcoGroupId
  let b := { b with nextOcoGroupId := b.nextOcoGroupId + 1 }
  let (mainId, b) := submitOrder h mainSide size 0 none .Market dataIndex b
  let (limitId, b) := submitOrderExt h legSide size (tpParams limitPrice dataIndex mainId ocoGrp) b
  let (stopId, b) := submitOrderExt h legSide size (slParams stopPrice dataIndex mainId ocoGrp) b
  (⟨mainId, stopId, limitId⟩, b.linkChildren mainId [limitId, stopId])

def buyBracket (h : Hooks α W) (size limitPrice stopPrice : α) (dataIndex : Nat) (b : BackBroker α W) :
    BracketResult × BackBroker α W :=
  bracket h .Buy .Sell size limitPrice stopPrice dataIndex b

def sellBracket (h : Hooks α W) (size limitPrice stopPrice : α) (dataIndex : Nat) (b : BackBroker α W) :
    BracketResult × BackBroker α W :=
  bracket h .Sell .Buy size limitPrice stopPrice dataIndex b

/-! ### Cancellation -/

/-- Cancel the pending order at a position, if it is alive and concerned. -/
def cancelAt (h : Hooks α W) (p : Order α → Bool) (byUser : Bool) (b : BackBroker α W) (i : Nat) :
    BackBroker α W :=
  match b.pendingOrders[i]? with
  | some order =>
    if p order && order.isAlive then
      let b := if byUser then b.note (.cancelled order.id i b.turn) else b
      notify h ((b.edit i Order.cancel).sync i) i
    else b
  | none => b

/-- Both cancelling loops, over the pending orders there are when they start. -/
def cancelPending (h : Hooks α W) (p : Order α → Bool) (byUser : Bool) (b : BackBroker α W) :
    BackBroker α W :=
  (List.range b.pendingOrders.length).foldl (cancelAt h p byUser) b

def cancelOrder (h : Hooks α W) (orderId : Nat) (b : BackBroker α W) : BackBroker α W :=
  cancelPending h (·.id == orderId) true b

def cancelBracketChildren (h : Hooks α W) (parentId : Nat) (b : BackBroker α W) : BackBroker α W :=
  cancelPending h (·.parentId == parentId) false b

def activateBracketChildren (parentId : Nat) (b : BackBroker α W) : BackBroker α W :=
  { b with pendingOrders := b.pendingOrders.map fun order =>
      if order.parentId == parentId && !order.transmit then { order with transmit := true } else order }

/-! ### Positions -/

def findPosition (b : BackBroker α W) (dataIndex : Nat) : Option (Position α) :=
  b.positions.find? (·.dataIndex == dataIndex)

/-- `position()`. -/
def position (b : BackBroker α W) (dataIndex : Nat) : Position α :=
  (b.findPosition dataIndex).getD (Position.flat none 0)

/-- `get_position`: a data index without a position gets a flat one. -/
def ensurePosition (b : BackBroker α W) (dataIndex : Nat) : BackBroker α W :=
  { b with positions := Position.ensure b.instrumentMap b.positions dataIndex }

def updatePosition (b : BackBroker α W) (dataIndex : Nat) (fillSize fillPrice : α) : BackBroker α W :=
  let i := b.positions.findIdx (·.dataIndex == dataIndex)
  { b with positions := b.positions.modify i (·.update fillSize fillPrice) }

def close (h : Hooks α W) (dataIndex : Nat) (b : BackBroker α W) : Nat × BackBroker α W :=
  let b := b.ensurePosition dataIndex
  let pos := b.position dataIndex
  if pos.isFlat then (0, b)
  else if pos.isLong then submitOrder h .Sell (Arith.abs pos.size) 0 none .Market dataIndex b
  else submitOrder h .Buy (Arith.abs pos.size) 0 none .Market dataIndex b

end BackBroker

end StratForge
