import StratForge.Arith

/-!
# Orders (`broker/order.hpp`)

Created -> Submitted -> Accepted -> Completed/Canceled/Rejected/Expired/Margin. The transitions are
guarded: none of them changes an order that is no longer alive.
-/

namespace StratForge

/-- Order execution types. -/
inductive OrderType
  | Market | Limit | Stop | StopLimit | StopTrail | StopTrailLimit
deriving DecidableEq, Repr

inductive OrderStatus
  | Created | Submitted | Accepted | Partial | Completed | Canceled | Rejected | Expired | Margin
deriving DecidableEq, Repr

inductive OrderSide
  | Buy | Sell
deriving DecidableEq, Repr

/-- An order submitted to the broker. -/
structure Order (α : Type) where
  id : Nat
  type : OrderType
  status : OrderStatus
  side : OrderSide
  size : α
  /-- For Limit/StopLimit. -/
  price : α
  /-- For Stop/StopLimit. -/
  stopPrice : Option α
  executedPrice : α
  executedSize : α
  commission : α
  dataIndex : Nat
  /-- Corrective layer candidate linkage. -/
  candidateId : Nat
  /-- Bar index after which the order expires. -/
  validUntilBar : Option Nat
  trailAmount : α
  trailPercent : α
  /-- Current dynamic stop level. -/
  trailStopPrice : α
  /-- 0: no OCO group. -/
  ocoGroupId : Nat
  /-- 0: no parent. -/
  parentId : Nat
  childIds : List Nat
  /-- If false, the order is held until its parent fills. -/
  transmit : Bool
deriving DecidableEq, Repr

namespace OrderStatus

def isAlive : OrderStatus → Bool
  | .Created | .Submitted | .Accepted | .Partial => true
  | .Completed | .Canceled | .Rejected | .Expired | .Margin => false

end OrderStatus

namespace Order
variable {α : Type}

/-- The order can still be executed. -/
def isAlive (o : Order α) : Bool := o.status.isAlive

/-- A status change, ignored in a terminal state. -/
def setStatus (o : Order α) (s : OrderStatus) : Order α := if o.isAlive then { o with status := s } else o

def submit (o : Order α) : Order α := o.setStatus .Submitted
def accept (o : Order α) : Order α := o.setStatus .Accepted
def cancel (o : Order α) : Order α := o.setStatus .Canceled
def reject (o : Order α) : Order α := o.setStatus .Rejected
def expire (o : Order α) : Order α := o.setStatus .Expired
def margin (o : Order α) : Order α := o.setStatus .Margin

/-- Execute (fill) the order, unless it is in a terminal state. -/
def execute (o : Order α) (fillPrice fillSize comm : α) : Order α :=
  if o.isAlive then
    { o with executedPrice := fillPrice, executedSize := fillSize, commission := comm, status := .Completed }
  else o

/-- The fill as a signed change of position. -/
def signedSize [Neg α] (o : Order α) : α := if o.side = .Sell then -o.size else o.size

/-- What the law of terminal states is about. -/
def outcome (o : Order α) : OrderStatus × α × α := (o.status, o.executedPrice, o.executedSize)

/-- Two copies of one order: they agree on everything that is fixed at submission. -/
structure Same (o o' : Order α) : Prop where
  id : o'.id = o.id
  type : o'.type = o.type
  side : o'.side = o.side
  size : o'.size = o.size
  price : o'.price = o.price
  stopPrice : o'.stopPrice = o.stopPrice
  dataIndex : o'.dataIndex = o.dataIndex
  validUntilBar : o'.validUntilBar = o.validUntilBar
  trailAmount : o'.trailAmount = o.trailAmount
  trailPercent : o'.trailPercent = o.trailPercent
  ocoGroupId : o'.ocoGroupId = o.ocoGroupId
  parentId : o'.parentId = o.parentId

namespace Same
variable {o o' o'' : Order α}

theorem refl (o : Order α) : Same o o := ⟨rfl, rfl, rfl, rfl, rfl, rfl, rfl, rfl, rfl, rfl, rfl, rfl⟩

theorem symm (h : Same o o') : Same o' o := by
  constructor <;> simp only [h.id, h.type, h.side, h.size, h.price, h.stopPrice, h.dataIndex,
    h.validUntilBar, h.trailAmount, h.trailPercent, h.ocoGroupId, h.parentId]

theorem trans (h : Same o o') (h' : Same o' o'') : Same o o'' := by
  constructor <;> simp only [h.id, h.type, h.side, h.size, h.price, h.stopPrice, h.dataIndex,
    h.validUntilBar, h.trailAmount, h.trailPercent, h.ocoGroupId, h.parentId, h'.id, h'.type, h'.side,
    h'.size, h'.price, h'.stopPrice, h'.dataIndex, h'.validUntilBar, h'.trailAmount, h'.trailPercent,
    h'.ocoGroupId, h'.parentId]

end Same

theorem same_setStatus (o : Order α) (s : OrderStatus) : Same o (o.setStatus s) := by
  unfold setStatus
  split <;> exact ⟨rfl, rfl, rfl, rfl, rfl, rfl, rfl, rfl, rfl, rfl, rfl, rfl⟩

@[simp] theorem id_setStatus (o : Order α) (s : OrderStatus) : (o.setStatus s).id = o.id :=
  (same_setStatus o s).id

@[simp] theorem id_cancel (o : Order α) : o.cancel.id = o.id := id_setStatus o _

theorem same_execute (o : Order α) (p s c : α) : Same o (o.execute p s c) := by
  unfold execute
  split <;> exact ⟨rfl, rfl, rfl, rfl, rfl, rfl, rfl, rfl, rfl, rfl, rfl, rfl⟩

theorem setStatus_of_dead {o : Order α} (h : o.isAlive = false) (s : OrderStatus) : o.setStatus s = o := by
  simp [setStatus, h]

theorem execute_of_dead {o : Order α} (h : o.isAlive = false) (p s c : α) : o.execute p s c = o := by
  simp [execute, h]

theorem status_setStatus {o : Order α} (h : o.isAlive = true) (s : OrderStatus) :
    (o.setStatus s).status = s := by
  simp [setStatus, h]

theorem isAlive_setStatus (o : Order α) (s : OrderStatus) :
    (o.setStatus s).isAlive = (o.isAlive && s.isAlive) := by
  unfold setStatus
  cases h : o.isAlive <;> simp [isAlive] at *
  exact h

theorem not_isAlive_execute (o : Order α) (p s c : α) : (o.execute p s c).isAlive = false := by
  unfold execute
  cases h : o.isAlive <;> simp [isAlive, OrderStatus.isAlive] at *
  exact h

end Order

end StratForge
