import StratForge.Interval
import StratForge.Order

/-!
# Commissions, instruments, positions and trades

`broker/commission.hpp`, `broker/instrument.hpp`, `broker/position.hpp` and `broker/trade.hpp`:
what a fill is charged, and the two accumulators that a fill is booked on besides the cash.
-/

namespace StratForge

inductive CommissionType
  | Percentage | Fixed | PerShare
deriving DecidableEq, Repr

/-- Commission scheme configuration. -/
structure CommissionInfo (α : Type) where
  type : CommissionType
  /-- Rate or fixed amount. -/
  commission : α
  /-- Minimum commission per trade. -/
  minCommission : α
deriving Repr

inductive Currency
  | USD | EUR | JPY | GBP | HKD | CHF | CAD | AUD | CNY | KRW | SGD | NZD
deriving DecidableEq, Repr

def Currency.all : List Currency := [.USD, .EUR, .JPY, .GBP, .HKD, .CHF, .CAD, .AUD, .CNY, .KRW, .SGD, .NZD]

/-- What the broker asks of an instrument; `feeCommission` is `venue().fees().commission`. -/
structure Instrument (α : Type) where
  settlementCcy : Currency
  feeCommission : α → α → Currency → α
  initialMargin : α → α → α
  markToMarket : α → α → α → α

structure Position (α : Type) where
  instrument : Option (Instrument α)
  dataIndex : Nat
  size : α
  avgPrice : α
  price : α
  priceOrig : α
  upopened : α
  upclosed : α

inductive TradeStatus
  | Open | Closed
deriving DecidableEq, Repr

/-- A round-trip trade from open to close. -/
structure Trade (α : Type) where
  id : Nat
  dataIndex : Nat
  status : TradeStatus
  /-- Negative: short. -/
  size : α
  /-- Entry / average price while open. -/
  entryPrice : α
  price : α
  exitPrice : α
  /-- Current notional value. -/
  value : α
  /-- Total commission. -/
  commission : α
  /-- Gross realized pnl. -/
  pnl : α
  /-- Net realized pnl. -/
  pnlcomm : α
  justopened : Bool
  isopen : Bool
  isclosed : Bool
  islong : Bool
  entryBar : Nat
  exitBar : Nat
  barlen : Nat
  entryTime : DateTime
  exitTime : DateTime
  candidateId : Nat
deriving DecidableEq, Repr

variable {α : Type} [Arith α]

/-- The commission of a fill. -/
def CommissionInfo.calculate (info : CommissionInfo α) (size price : α) : α :=
  let absSize := Arith.abs size
  let comm := match info.type with
    | .Percentage => absSize * price * info.commission
    | .Fixed => info.commission
    | .PerShare => absSize * info.commission
  Arith.max comm info.minCommission

/-! ### The instruments

`venue().fees().commission` is `fee`, whatever the schedule. -/

namespace Instrument
variable (fee : α → α → Currency → α) (ccy : Currency)

def equity : Instrument α :=
  { settlementCcy := ccy, feeCommission := fee,
    initialMargin := fun qty markPx => 0.5 * Arith.abs qty * markPx,
    markToMarket := fun qty avgPx markPx => qty * (markPx - avgPx) }

def future (multiplier exchangeIm : α) : Instrument α :=
  { settlementCcy := ccy, feeCommission := fee,
    initialMargin := fun qty _ => Arith.abs qty * exchangeIm,
    markToMarket := fun qty avgPx markPx => qty * (markPx - avgPx) * multiplier }

/-- Settles in the quote currency. -/
def fxSpot : Instrument α :=
  { settlementCcy := ccy, feeCommission := fee,
    initialMargin := fun qty _ => 0.02 * Arith.abs qty,
    markToMarket := fun qty avgPx markPx => qty * (markPx - avgPx) }

def optionCall (multiplier : α) : Instrument α :=
  { settlementCcy := ccy, feeCommission := fee,
    initialMargin := fun qty markPx => Arith.abs qty * markPx * multiplier,
    markToMarket := fun qty avgPx markPx => qty * (markPx - avgPx) * multiplier }

def optionPut (multiplier : α) : Instrument α :=
  { settlementCcy := ccy, feeCommission := fee,
    initialMargin := fun qty markPx => Arith.abs qty * markPx * multiplier,
    markToMarket := fun qty avgPx markPx => qty * (markPx - avgPx) * multiplier }

def corporateBond (faceValue : α) : Instrument α :=
  { settlementCcy := ccy, feeCommission := fee,
    initialMargin := fun qty markPx => 0.1 * Arith.abs qty * markPx * faceValue / 100.0,
    markToMarket := fun qty avgPx markPx => qty * (markPx - avgPx) * faceValue / 100.0 }

end Instrument

namespace Position

/-- A position that `get_position` adds for a data index that has none. -/
def flat (instrument : Option (Instrument α)) (dataIndex : Nat) : Position α :=
  { instrument, dataIndex, size := 0, avgPrice := 0, price := 0, priceOrig := 0, upopened := 0, upclosed := 0 }

/-- The part of a fill that opened and the part that closed. -/
def upopenedUpclosed (oldSize fillSize newSize : α) : α × α :=
  if Arith.abs oldSize < 1e-10 then (fillSize, 0)
  else if 0 < oldSize then
    if 0 < fillSize then (fillSize, 0)
    else if 0 ≤ newSize then (0, fillSize)
    else (newSize, -oldSize)
  else
    if fillSize < 0 then (fillSize, 0)
    else if newSize ≤ 0 then (0, fillSize)
    else (newSize, -oldSize)

def update (pos : Position α) (fillSize fillPrice : α) : Position α :=
  let oldSize := pos.size
  let newSize := oldSize + fillSize
  let (upopened, upclosed) := upopenedUpclosed oldSize fillSize newSize
  let pos := { pos with priceOrig := pos.price, upopened, upclosed, size := newSize }
  if Arith.abs newSize < 1e-10 then { pos with size := 0, avgPrice := 0, price := 0 }
  else if Arith.abs oldSize < 1e-10 then { pos with avgPrice := fillPrice, price := fillPrice }
  else if (0 < oldSize ∧ 0 < fillSize) ∨ (oldSize < 0 ∧ fillSize < 0) then
    let avg := (pos.price * oldSize + fillSize * fillPrice) / newSize
    { pos with avgPrice := avg, price := avg }
  else if (0 < oldSize ∧ newSize < 0) ∨ (oldSize < 0 ∧ 0 < newSize) then
    { pos with avgPrice := fillPrice, price := fillPrice }
  else pos

def isFlat (pos : Position α) : Bool := Arith.abs pos.size < 1e-10
def isLong (pos : Position α) : Bool := 1e-10 < pos.size
def isShort (pos : Position α) : Bool := pos.size < -1e-10

theorem size_update (pos : Position α) (s p : α) : (pos.update s p).size =
    if Arith.abs (pos.size + s) < 1e-10 then 0 else pos.size + s := by
  unfold update
  dsimp only
  split_ifs <;> rfl

@[simp] theorem dataIndex_update (pos : Position α) (s p : α) :
    (pos.update s p).dataIndex = pos.dataIndex := by
  unfold update
  dsimp only
  split_ifs <;> rfl

@[simp] theorem instrument_update (pos : Position α) (s p : α) :
    (pos.update s p).instrument = pos.instrument := by
  unfold update
  dsimp only
  split_ifs <;> rfl

end Position

namespace Trade

/-- The trade `update_trades` starts from. -/
def fresh (id dataIndex candidateId : Nat) : Trade α :=
  { id, dataIndex, status := .Open, size := 0, entryPrice := 0, price := 0, exitPrice := 0, value := 0,
    commission := 0, pnl := 0, pnlcomm := 0, justopened := false, isopen := false, isclosed := false,
    islong := false, entryBar := 0, exitBar := 0, barlen := 0, entryTime := 0, exitTime := 0, candidateId }

/-- The opening of a trade: the bar and the direction it is opened in. -/
def stampEntry (t : Trade α) (oldSize : α) (barIndex : Nat) (barDt : DateTime) : Trade α :=
  let t := { t with justopened := decide (Arith.abs oldSize < 1e-10) }
  if t.justopened then { t with entryBar := barIndex, entryTime := barDt, islong := decide (0 < t.size) } else t

/-- Growing moves the average price, shrinking realizes pnl at it. -/
def reprice (t : Trade α) (oldSize fillSize fillPrice : α) : Trade α :=
  if Arith.abs oldSize < Arith.abs t.size then
    let price := (oldSize * t.price + fillSize * fillPrice) / t.size
    { t with price, entryPrice := price }
  else if 1e-10 ≤ Arith.abs oldSize then
    { t with pnl := t.pnl + (-fillSize) * (fillPrice - t.price) }
  else t

/-- Update the trade with a fill, which may close it or part of it. -/
def update (t : Trade α) (fillSize fillPrice comm : α) (barIndex : Nat) (barDt : DateTime) : Trade α :=
  if Arith.abs fillSize < 1e-10 then t
  else
    let oldSize := t.size
    let t := { t with commission := t.commission + comm, size := t.size + fillSize }
    let t := t.stampEntry oldSize barIndex barDt
    let t := { t with isopen := decide (1e-10 ≤ Arith.abs t.size) }
    let t := { t with isclosed := decide (1e-10 ≤ Arith.abs oldSize) && !t.isopen }
    let t := { t with barlen := if t.entryBar ≤ barIndex then barIndex - t.entryBar else 0 }
    let t := t.reprice oldSize fillSize fillPrice
    let t := { t with pnlcomm := t.pnl - t.commission, value := t.size * t.price }
    let t := if t.justopened then
        { t with price := fillPrice, entryPrice := fillPrice, value := t.size * fillPrice,
                 pnlcomm := t.pnl - t.commission }
      else t
    if t.isclosed then
      { t with exitPrice := fillPrice, size := 0, value := 0, status := .Closed, exitBar := barIndex,
               exitTime := barDt, isopen := false }
    else { t with status := .Open }

def isOpen (t : Trade α) : Bool := t.status = .Open
def isClosed (t : Trade α) : Bool := t.status = .Closed

end Trade

end StratForge
