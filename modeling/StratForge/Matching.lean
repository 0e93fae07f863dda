import StratForge.Broker
import StratForge.Line

/-!
# Matching and booking (`try_fill_order`, `update_trades`, `update_trail_stop`)

The price of a match, its slippage, its commission and the margin check are functions of the broker,
the order and the bar; only then is anything booked. The trade callback fires inside the booking,
before the record of the order is overwritten.
-/

namespace StratForge

/-- What the bar under the cursor does to an order. -/
inductive Match (α : Type)
  | none
  /-- A stop order without a stop price. -/
  | noStopPrice
  | fill (price : α)
deriving DecidableEq, Repr

def Match.ofOption {α : Type} : Option α → Match α
  | .none => .none
  | .some p => .fill p

namespace OrderType

def appliesOpenSlippage : OrderType → Bool
  | .Market | .Stop | .StopTrail => true
  | .Limit | .StopLimit | .StopTrailLimit => false

def appliesLimitSlippage : OrderType → Bool
  | .Limit | .StopLimit | .StopTrailLimit => true
  | .Market | .Stop | .StopTrail => false

end OrderType

namespace Order
variable {α : Type} [Arith α]

def limitTouch (side : OrderSide) (price : α) (bar : Row α) : Option α :=
  match side with
  | .Buy => if bar.low ≤ price then some (Arith.min price bar.open) else none
  | .Sell => if price ≤ bar.high then some (Arith.max price bar.open) else none

def stopTouch (side : OrderSide) (stopPrice : α) (bar : Row α) : Option α :=
  match side with
  | .Buy => if stopPrice ≤ bar.high then some (Arith.max stopPrice bar.open) else none
  | .Sell => if bar.low ≤ stopPrice then some (Arith.min stopPrice bar.open) else none

/-- The price before slippage. -/
def rawMatch (o : Order α) (bar : Row α) : Match α :=
  match o.type with
  | .Market => .fill bar.open
  | .Limit => .ofOption (limitTouch o.side o.price bar)
  | .Stop =>
    match o.stopPrice with
    | none => .noStopPrice
    | some stop => .ofOption (stopTouch o.side stop bar)
  | .StopLimit =>
    match o.stopPrice with
    | none => .noStopPrice
    | some stop =>
      match stopTouch o.side stop bar with
      | none => .none
      | some _ => .ofOption (limitTouch o.side o.price bar)
  | .StopTrail =>
    if o.trailStopPrice == 0 then .none
    else .ofOption (stopTouch o.side o.trailStopPrice bar)
  | .StopTrailLimit =>
    if o.trailStopPrice == 0 then .none
    else
      match stopTouch o.side o.trailStopPrice bar with
      | none => .none
      | some _ => .ofOption (limitTouch o.side o.price bar)

end Order

namespace BrokerSettings
variable {α : Type} [Arith α]

def applySlippage (b : BrokerSettings α) (rawPrice : α) (side : OrderSide) (bar : Row α) : Option α :=
  let adjusted :=
    if b.slipPerc != 0 then rawPrice * (if side = .Buy then 1 + b.slipPerc else 1 - b.slipPerc)
    else if b.slipFixed != 0 then rawPrice + (if side = .Buy then b.slipFixed else -b.slipFixed)
    else rawPrice
  if b.slipOut then some adjusted
  else if bar.low ≤ adjusted ∧ adjusted ≤ bar.high then some adjusted
  else if !b.slipMatch then none
  else some (Arith.clamp adjusted bar.low bar.high)

/-- The price after slippage. -/
def matchOrder (b : BrokerSettings α) (o : Order α) (bar : Row α) : Match α :=
  match o.rawMatch bar with
  | .fill price =>
    if (o.type.appliesOpenSlippage && b.slipOpen) || (o.type.appliesLimitSlippage && b.slipLimit) then
      .ofOption (b.applySlippage price o.side bar)
    else .fill price
  | m => m

def fillCommission (b : BrokerSettings α) (o : Order α) (price : α) : α :=
  match b.instrumentMap o.dataIndex with
  | some instr => instr.feeCommission o.size price instr.settlementCcy
  | none => b.legacyCommission.calculate o.size price

def settleCcy (b : BrokerSettings α) (dataIndex : Nat) : Currency :=
  match b.instrumentMap dataIndex with
  | some instr => instr.settlementCcy
  | none => b.baseCcy

end BrokerSettings

namespace BackBroker
variable {α W : Type} [Arith α]

/-- Sells are never refused; a buy needs its initial margin, or without an instrument its cost. -/
def affords (b : BackBroker α W) (o : Order α) (price : α) (barDt : DateTime) : Bool :=
  let comm := b.fillCommission o price
  match o.side with
  | .Sell => true
  | .Buy =>
    match b.instrumentMap o.dataIndex with
    | some instr =>
      let need := instr.initialMargin o.size price + comm
      let settle := instr.settlementCcy
      let have' := match b.fx with
        | some rate =>
          if settle ≠ b.baseCcy then b.cash settle + rate b.baseCcy settle barDt * b.cash b.baseCcy
          else b.cash settle
        | none => b.cash settle
      !decide (have' < need)
    | none => !decide (b.cash b.baseCcy < o.signedSize * price + comm)

/-! ### Trades -/

def openTradeIdx (b : BackBroker α W) (dataIndex : Nat) : Nat :=
  b.openTrades.findIdx fun (t, _) => t.dataIndex == dataIndex && t.isOpen

/-- A trade that a fill has closed moves to `closedTrades`, with the callback in between. -/
def retireTrade (h : Hooks α W) (b : BackBroker α W) (i : Nat) (t : Trade α) (orig : α) :
    BackBroker α W :=
  let b := { b with openTrades := b.openTrades.set i (t, orig), closedTrades := b.closedTrades ++ [(t, orig)] }
  let b := h.tradeNotify t orig b
  { b with openTrades := b.openTrades.eraseIdx i }

def openTrade (b : BackBroker α W) (dataIndex : Nat) (size price comm : α) (barIndex : Nat)
    (barDt : DateTime) (candidateId : Nat) : BackBroker α W :=
  let trade := (Trade.fresh b.nextTradeId dataIndex candidateId).update size price comm barIndex barDt
  { b with openTrades := b.openTrades ++ [(trade, size)], nextTradeId := b.nextTradeId + 1 }

def updateTrades (h : Hooks α W) (b : BackBroker α W) (dataIndex : Nat)
    (oldSize fillSize fillPrice comm : α) (barIndex : Nat) (barDt : DateTime) (candidateId : Nat) :
    BackBroker α W :=
  let i := b.openTradeIdx dataIndex
  if Arith.abs oldSize < 1e-10 then b.openTrade dataIndex fillSize fillPrice comm barIndex barDt candidateId
  else if (0 < oldSize ∧ 0 < fillSize) ∨ (oldSize < 0 ∧ fillSize < 0) then
    { b with openTrades := b.openTrades.modify i fun (t, orig) =>
        (t.update fillSize fillPrice comm barIndex barDt, orig + fillSize) }
  else
    match b.openTrades[i]? with
    | none => b
    | some (t, orig) =>
      if Arith.abs t.size < Arith.abs fillSize then
        -- a flip: the commission is split between the trade it closes and the one it opens
        let closeComm := Arith.abs t.size / Arith.abs fillSize * comm
        let openComm := comm - closeComm
        let remaining := fillSize + t.size
        let b := b.retireTrade h i (t.update (-t.size) fillPrice closeComm barIndex barDt) orig
        b.openTrade dataIndex remaining fillPrice openComm barIndex barDt candidateId
      else
        let t := t.update fillSize fillPrice comm barIndex barDt
        if t.isClosed then b.retireTrade h i t orig
        else { b with openTrades := b.openTrades.set i (t, orig) }

/-! ### Fills -/

def pay (b : BackBroker α W) (ccy : Currency) (amount : α) : BackBroker α W :=
  { b with cash := fun c => if c = ccy then b.cash c - amount else b.cash c }

/-- Book a fill of the pending order at a position. -/
def book (h : Hooks α W) (feed : DataFeed α) (bar : Row α) (b : BackBroker α W) (i : Nat)
    (order : Order α) (fillPrice : α) : BackBroker α W :=
  let comm := b.fillCommission order fillPrice
  let fillSize := order.signedSize
  let settle := b.settleCcy order.dataIndex
  let executed := order.execute fillPrice order.size comm
  let b := b.edit i fun _ => executed
  let b := b.pay settle (fillSize * fillPrice + comm)
  let b := b.ensurePosition order.dataIndex
  let oldSize := (b.position order.dataIndex).size
  let b := b.updatePosition order.dataIndex fillSize fillPrice
  let b := b.note (.executed ⟨executed, fillPrice, fillSize, comm, settle, b.dataBarIndex, feed.index⟩)
  let b := b.updateTrades h order.dataIndex oldSize fillSize fillPrice comm b.dataBarIndex bar.datetime
    order.candidateId
  b.sync i

/-- Whether the order is done with: filled, or refused for want of a stop price or of margin. -/
def tryFillOrder (h : Hooks α W) (feed : DataFeed α) (bar : Row α) (b : BackBroker α W) (i : Nat) :
    Bool × BackBroker α W :=
  match b.pendingOrders[i]? with
  | none => (false, b)
  | some order =>
    match b.matchOrder order bar with
    | .none => (false, b)
    | .noStopPrice => (true, (b.edit i Order.reject).sync i)
    | .fill fillPrice =>
      if b.affords order fillPrice bar.datetime then (true, book h feed bar b i order fillPrice)
      else (true, (b.edit i Order.margin).sync i)

/-- The stop level that follows the bar, when it moves. -/
def newTrailStop (order : Order α) (bar : Row α) : Option α :=
  let currentPrice := if order.side = .Buy then bar.low else bar.high
  let trailDist := if 0 < order.trailPercent then currentPrice * order.trailPercent else order.trailAmount
  match order.side with
  | .Sell =>
    let newStop := currentPrice - trailDist
    if order.trailStopPrice == 0 || decide (order.trailStopPrice < newStop) then some newStop else none
  | .Buy =>
    let newStop := currentPrice + trailDist
    if order.trailStopPrice == 0 || decide (newStop < order.trailStopPrice) then some newStop else none

def updateTrailStop (bar : Row α) (b : BackBroker α W) (i : Nat) : BackBroker α W :=
  match b.pendingOrders[i]? with
  | none => b
  | some order =>
    match newTrailStop order bar with
    | none => b
    | some newStop => (b.edit i ({ · with trailStopPrice := newStop })).sync i

end BackBroker

end StratForge
