import StratForge.Matching

/-!
# `process_orders`

One pass over the pending orders against the current bars. What stays pending is collected in a
local vector that replaces `pendingOrders` at the end; the orders whose OCO group has seen a fill are
cancelled in that vector first.
-/

namespace StratForge

/-- The broker in the middle of a pass, with the two local vectors of `process_orders`. -/
structure Pass (α W : Type) where
  broker : BackBroker α W
  stillPending : List (Order α) := []
  filledOcoGroups : List Nat := []

namespace Pass
variable {α W : Type} [Arith α]

/-- `still_pending.push_back(order)`. -/
def keep (p : Pass α W) (i : Nat) : Pass α W :=
  match p.broker.pendingOrders[i]? with
  | some order => { p with stillPending := p.stillPending ++ [order] }
  | none => p

/-- Held until its parent fills. -/
def held (b : BackBroker α W) (order : Order α) : Bool :=
  !order.transmit && order.parentId != 0 && !b.isParentFilled order.parentId

/-- An order whose parent has filled is held no longer. -/
def release (b : BackBroker α W) (i : Nat) (order : Order α) : BackBroker α W :=
  if !order.transmit && order.parentId != 0 then b.edit i ({ · with transmit := true }) else b

def expired (b : BackBroker α W) (order : Order α) : Bool :=
  match order.validUntilBar with
  | some bar => decide (bar < b.dataBarIndex)
  | none => false

/-- `order.submit()` and `order.accept()`, each with its notification. -/
def submitAccept (h : Hooks α W) (b : BackBroker α W) (i : Nat) (order : Order α) : BackBroker α W :=
  if order.status = .Created then
    let b := BackBroker.notify h ((b.edit i Order.submit).sync i) i
    BackBroker.notify h ((b.edit i Order.accept).sync i) i
  else b

def isTrail (order : Order α) : Bool :=
  order.type = .StopTrail || order.type = .StopTrailLimit

/-- Terminal without a fill. -/
def refused (order : Order α) : Bool :=
  order.status = .Canceled || order.status = .Rejected || order.status = .Margin || order.status = .Expired

/-- What follows a match: the notification, the OCO group, the legs of a bracket. -/
def afterFill (h : Hooks α W) (p : Pass α W) (i : Nat) : Pass α W :=
  let b := BackBroker.notify h p.broker i
  match b.pendingOrders[i]? with
  | none => { p with broker := b }
  | some order =>
    let p := { p with broker := b }
    let p := if order.ocoGroupId != 0 && order.status = .Completed then
        { p with filledOcoGroups := p.filledOcoGroups ++ [order.ocoGroupId] }
      else p
    let p := if order.status = .Completed && !order.childIds.isEmpty then
        { p with broker := p.broker.activateBracketChildren order.id }
      else p
    if order.parentId == 0 && !order.childIds.isEmpty && refused order then
      { p with broker := p.broker.cancelBracketChildren h order.id }
    else p

/-- Match the order against the bar of its feed. -/
def match' (h : Hooks α W) (feed : DataFeed α) (bar : Row α) (p : Pass α W) (i : Nat) (trail : Bool) :
    Pass α W :=
  let (filled, b) := BackBroker.tryFillOrder h feed bar p.broker i
  if filled then afterFill h { p with broker := b } i
  else
    let b := if trail then BackBroker.updateTrailStop bar b i else b
    { p with broker := b }.keep i

/-- An order taken out of the pass by `reject` or `expire`. -/
def drop (h : Hooks α W) (f : Order α → Order α) (p : Pass α W) (b : BackBroker α W) (i : Nat) :
    Pass α W :=
  { p with broker := BackBroker.notify h ((b.edit i f).sync i) i }

/-- One turn of the loop. -/
def visit (h : Hooks α W) (feeds : List (DataFeed α)) (p : Pass α W) (i : Nat) : Pass α W :=
  let b := { p.broker with turn := i + 1 }
  let p := { p with broker := b }
  match b.pendingOrders[i]? with
  | none => p
  | some order =>
    if !order.isAlive then p
    else if held b order then p.keep i
    else
      let b := release b i order
      match feeds[order.dataIndex]? with
      | none => drop h Order.reject p b i
      | some feed =>
        match feed.current? with
        | none => { p with broker := b }.keep i
        | some bar =>
          if expired b order then drop h Order.expire p b i
          else match' h feed bar { p with broker := submitAccept h b i order } i (isTrail order)

/-- Cancel one of the kept orders whose OCO group has been filled. -/
def cancelOco (h : Hooks α W) (p : Pass α W) (j : Nat) : Pass α W :=
  match p.stillPending[j]? with
  | none => p
  | some order =>
    if order.ocoGroupId != 0 && order.isAlive && p.filledOcoGroups.contains order.ocoGroupId then
      let order := order.cancel
      { p with stillPending := p.stillPending.set j order,
               broker := h.orderNotify order (p.broker.syncOrder order) }
    else p

/-- The second pass, over the kept orders. -/
def cancelOcoSiblings (h : Hooks α W) (p : Pass α W) : Pass α W :=
  if p.filledOcoGroups.isEmpty then p
  else
    let p := (List.range p.stillPending.length).foldl (cancelOco h) p
    { p with stillPending := p.stillPending.filter Order.isAlive }

def finish (p : Pass α W) : BackBroker α W :=
  { p.broker with pendingOrders := p.stillPending, turn := 0 }

end Pass

namespace BackBroker
variable {α W : Type} [Arith α]

/-- The pass after its first `i` turns. -/
def passAt (h : Hooks α W) (feeds : List (DataFeed α)) (b : BackBroker α W) (i : Nat) : Pass α W :=
  (List.range i).foldl (Pass.visit h feeds) { broker := b }

def processOrders (h : Hooks α W) (feeds : List (DataFeed α)) (b : BackBroker α W) : BackBroker α W :=
  ((passAt h feeds b b.pendingOrders.length).cancelOcoSiblings h).finish

/-- `portfolio_value(data_feeds)`: flat positions and positions without a feed do not count. -/
def portfolioValue (b : BackBroker α W) (feeds : List (DataFeed α)) : Except Error α :=
  b.positions.foldlM (fun value pos =>
    if pos.isFlat then pure value
    else
      match feeds[pos.dataIndex]? with
      | none => pure value
      | some feed => do
        let markPx ← feed.close.at' 0
        match pos.instrument with
        | some instr => pure (value + instr.markToMarket pos.size pos.avgPrice markPx)
        | none => pure (value + pos.size * markPx)) (b.cash b.baseCcy)

/-- What an amount counts in the base currency: as it is, when there is no provider. -/
def toBase (b : BackBroker α W) (ccy : Currency) («at» : DateTime) (amount : α) : α :=
  match b.fx with
  | some rate => if ccy ≠ b.baseCcy then amount * rate ccy b.baseCcy «at» else amount
  | none => amount

/-- `cash_in_base`; a currency without an entry in `cash_` holds 0. -/
def cashInBase (b : BackBroker α W) («at» : DateTime) : α :=
  Currency.all.foldl (fun total ccy => total + b.toBase ccy «at» (b.cash ccy)) 0

/-- `portfolio_value(at, data_feeds)`. -/
def portfolioValueAt (b : BackBroker α W) («at» : DateTime) (feeds : List (DataFeed α)) : Except Error α :=
  b.positions.foldlM (fun value pos =>
    if pos.isFlat then pure value
    else
      match feeds[pos.dataIndex]? with
      | none => pure value
      | some feed => do
        let markPx ← feed.close.at' 0
        match pos.instrument with
        | some instr =>
          let mtm := instr.markToMarket pos.size pos.avgPrice markPx
          pure (value + b.toBase instr.settlementCcy «at» mtm)
        | none => pure (value + pos.size * markPx)) (b.cashInBase «at»)

end BackBroker

end StratForge
