import StratForge.ProcessOrders

/-!
# Callbacks and runs

A `Listener` is everything the broker calls out to: the order and trade callbacks and the pre-order
hook. A callback is a program that issues one command after another, each decided from the broker as
the previous one has left it; commands notify in turn, so callbacks nest. `react` runs it with a bound
on how many commands it issues in sequence and in depth, and everything below is proved for every
bound.
-/

namespace StratForge

/-- The broker's operations as a strategy has them. -/
inductive Cmd (α : Type)
  | buy (size price : α) (stopPrice : Option α) (type : OrderType) (dataIndex : Nat)
  | sell (size price : α) (stopPrice : Option α) (type : OrderType) (dataIndex : Nat)
  | buyExt (size : α) (params : OrderParams α)
  | sellExt (size : α) (params : OrderParams α)
  | buyBracket (size limitPrice stopPrice : α) (dataIndex : Nat)
  | sellBracket (size limitPrice stopPrice : α) (dataIndex : Nat)
  | close (dataIndex : Nat)
  | cancelOrder (orderId : Nat)
  | nextOcoGroup

inductive Event (α : Type)
  | order (o : Order α)
  | trade (t : Trade α) (origSize : α)

structure Listener (α W : Type) where
  /-- What the callback captures next, and the command it issues, if it goes on. -/
  act : Event α → BackBroker α W → W × Option (Cmd α)
  preOrderHook : OrderSide → α → Nat → BackBroker α W → PreOrderResult α × W

variable {α W : Type} [Arith α]

namespace BackBroker

/-- The result of a submission is what the caller finds in the broker afterwards. -/
def exec (h : Hooks α W) (c : Cmd α) (b : BackBroker α W) : BackBroker α W :=
  match c with
  | .buy size price stopPrice type dataIndex => (submitOrder h .Buy size price stopPrice type dataIndex b).2
  | .sell size price stopPrice type dataIndex => (submitOrder h .Sell size price stopPrice type dataIndex b).2
  | .buyExt size params => (submitOrderExt h .Buy size params b).2
  | .sellExt size params => (submitOrderExt h .Sell size params b).2
  | .buyBracket size limitPrice stopPrice dataIndex => (buyBracket h size limitPrice stopPrice dataIndex b).2
  | .sellBracket size limitPrice stopPrice dataIndex => (sellBracket h size limitPrice stopPrice dataIndex b).2
  | .close dataIndex => (close h dataIndex b).2
  | .cancelOrder orderId => cancelOrder h orderId b
  | .nextOcoGroup => { b with nextOcoGroupId := b.nextOcoGroupId + 1 }

end BackBroker

namespace Listener

/-- Hooks that hand every event to one function. -/
def hooksOf (L : Listener α W) (r : Event α → BackBroker α W → BackBroker α W) : Hooks α W :=
  { orderNotify := fun o => r (.order o), tradeNotify := fun t s => r (.trade t s),
    preOrderHook := L.preOrderHook }

def react (L : Listener α W) : Nat → Event α → BackBroker α W → BackBroker α W
  | 0, _, b => b
  | n + 1, e, b =>
    match L.act e b with
    | (world, none) => { b with world }
    | (world, some c) => L.react n e (BackBroker.exec (L.hooksOf (L.react n)) c { b with world })

def hooks (L : Listener α W) (fuel : Nat) : Hooks α W := L.hooksOf (L.react fuel)

/-- The pre-order hook when none is set. -/
def acceptAll (_ : OrderSide) (size : α) (_ : Nat) (b : BackBroker α W) : PreOrderResult α × W :=
  (⟨0, size, false⟩, b.world)

end Listener

/-- A step of a backtest. -/
inductive Op (α : Type)
  | cmd (c : Cmd α)
  | processOrders (feeds : List (DataFeed α))
  | setBarIndex (idx : Nat)

namespace BackBroker

def step (h : Hooks α W) (b : BackBroker α W) : Op α → BackBroker α W
  | .cmd c => b.exec h c
  | .processOrders feeds => b.processOrders h feeds
  | .setBarIndex idx => b.setBarIndex idx

def run (h : Hooks α W) (b : BackBroker α W) (ops : List (Op α)) : BackBroker α W := ops.foldl (step h) b

@[simp] theorem run_nil (h : Hooks α W) (b : BackBroker α W) : run h b [] = b := rfl

@[simp] theorem run_append (h : Hooks α W) (b : BackBroker α W) (ops ops' : List (Op α)) :
    run h b (ops ++ ops') = run h (run h b ops) ops' := List.foldl_append ..

theorem run_snoc (h : Hooks α W) (b : BackBroker α W) (ops : List (Op α)) (op : Op α) :
    run h b (ops ++ [op]) = (run h b ops).step h op := by simp [run]

/-- `P` holds at every step of a run, of the broker as it is before the step. -/
def Along (h : Hooks α W) (P : BackBroker α W → Op α → Prop) : BackBroker α W → List (Op α) → Prop
  | _, [] => True
  | b, op :: ops => P b op ∧ Along h P (b.step h op) ops

instance decidableAlong {h : Hooks α W} {P : BackBroker α W → Op α → Prop} [∀ b op, Decidable (P b op)] :
    ∀ (b : BackBroker α W) (ops : List (Op α)), Decidable (Along h P b ops)
  | _, [] => .isTrue trivial
  | b, op :: ops =>
    @instDecidableAnd _ _ inferInstance (decidableAlong (b.step h op) ops)

theorem along_snoc {h : Hooks α W} {P : BackBroker α W → Op α → Prop} {b : BackBroker α W} {ops : List (Op α)}
    {op : Op α} : Along h P b (ops ++ [op]) ↔ Along h P b ops ∧ P (b.run h ops) op := by
  induction ops generalizing b with
  | nil => simp [Along]
  | cons op' ops ih => simp [Along, ih, and_assoc, run]

theorem along_trivial {h : Hooks α W} (b : BackBroker α W) (ops : List (Op α)) : Along h (fun _ _ => True) b ops := by
  induction ops generalizing b with
  | nil => trivial
  | cons op ops ih => exact ⟨trivial, ih _⟩

theorem Along.mono {h : Hooks α W} {P Q : BackBroker α W → Op α → Prop} (hPQ : ∀ b op, P b op → Q b op)
    {b : BackBroker α W} {ops : List (Op α)} (hP : Along h P b ops) : Along h Q b ops := by
  induction ops generalizing b with
  | nil => trivial
  | cons op ops ih => exact ⟨hPQ b op hP.1, ih hP.2⟩

/-- No order yet and nothing booked. -/
structure Fresh (b : BackBroker α W) : Prop where
  nextOrderId : b.nextOrderId = 1
  allOrders : b.allOrders = []
  pendingOrders : b.pendingOrders = []
  positions : b.positions = []
  openTrades : b.openTrades = []
  closedTrades : b.closedTrades = []
  turn : b.turn = 0
  journal : b.journal = []

theorem fresh_init (baseCcy : Currency) (initialCash : α) (fx : Option (Currency → Currency → DateTime → α))
    (world : W) : (init baseCcy initialCash fx world).Fresh := ⟨rfl, rfl, rfl, rfl, rfl, rfl, rfl, rfl⟩

end BackBroker

/-- Callbacks that do nothing. -/
def Listener.silent : Listener α Unit := { act := fun _ _ => ((), none), preOrderHook := acceptAll }

/-- A broker with 1000 in cash, for examples. -/
def BackBroker.funded : BackBroker ℚ Unit := .init .USD 1000 none ()

/-- A feed that stands on its only bar. -/
def DataFeed.ofBar («open» high low close : α) : DataFeed α :=
  { lines := { data := [⟨0, «open», high, low, close, 0, 0⟩] } }

end StratForge
