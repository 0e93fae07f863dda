import StratForge.NoneLost
import StratForge.Turns

/-!
# Orders that are good till a bar

The validity of an order is tested at its turn, behind three other tests. So a pass never executes an order after its
last bar, and an order whose turn comes as far as the test is gone after it. An order that its parent still holds, or
whose feed has no bar, is kept before its validity is looked at and outlives it; and so does the record of an order
that is submitted during a pass, which loses its pending copy (`validity_ends`).
-/

namespace StratForge
namespace BackBroker

variable {α W : Type} [Arith α]

/-- At the turn of every pending order whose last bar is past, its parent does not hold it and its feed is not empty. -/
def Prompt (h : Hooks α W) (feeds : List (DataFeed α)) (b : BackBroker α W) : Prop :=
  ∀ i < b.pendingOrders.length, ∀ o ∈ (b.passAt h feeds i).broker.pendingOrders[i]?,
    o.isAlive = true → Pass.expired (b.passAt h feeds i).broker o = true → (b.passAt h feeds i).stuck feeds o = false

instance (h : Hooks α W) (feeds : List (DataFeed α)) (b : BackBroker α W) : Decidable (b.Prompt h feeds) :=
  inferInstanceAs (Decidable (∀ i < _, ∀ o ∈ _, _ → _ → _))

omit [Arith α] in
theorem expired_iff {b : BackBroker α W} {o : Order α} :
    Pass.expired b o = true ↔ ∃ v, o.validUntilBar = some v ∧ v < b.dataBarIndex := by
  unfold Pass.expired
  cases o.validUntilBar <;> simp

/-- A limit order for the first bar, and the second bar. -/
def dayLimit : List (Op ℚ) :=
  [.cmd (.buyExt 1 { OrderParams.default with type := .Limit, price := 90, validUntilBar := some 0 }), .setBarIndex 1]

/-- A limit entry, and an exit for the first bar that waits for it. -/
def heldExit : List (Op ℚ) :=
  [.cmd (.buyExt 1 { OrderParams.default with type := .Limit, price := 90 }),
   .cmd (.sellExt 1 { OrderParams.default with
     type := .Limit, price := 110, validUntilBar := some 0, parentId := 1, transmit := false }),
   .setBarIndex 1]

end BackBroker
end StratForge
