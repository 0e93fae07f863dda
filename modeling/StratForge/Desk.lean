import StratForge.Broker
import StratForge.Keyed
import StratForge.Line
import Mathlib.Logic.Relation

/-!
# The order desk

What `process_orders` and the callbacks can do to orders, without their reasons: the abstract machine
that the broker refines (`DeskSim`) and that the laws about orders are proved of. During a pass an
order may be in several hands. `stale` are the pending orders the pass is done with, `kept` the copies
of those it keeps, `rest` those it has yet to reach, the order at hand first, and `late` those that
callbacks have pushed behind the end of the loop. Between operations everything pending is in `rest`.
-/

namespace StratForge

/-- How far the order at hand has come. -/
inductive Phase
  /-- No order is at hand. -/
  | idle
  /-- Alive when it was reached, not held. -/
  | picked
  /-- Filled, with its record still to be overwritten. -/
  | booked
  /-- Filled or refused by the matching. -/
  | resolved
  /-- Rejected for want of a feed, or expired. -/
  | dropped
deriving DecidableEq

structure Desk (α : Type) where
  /-- The ids in `allOrders`. -/
  ids : List Nat
  record : Nat → Option (Order α)
  stale : List (Order α)
  kept : List (Order α)
  rest : List (Order α)
  late : List (Order α)
  nextOrderId : Nat
  groups : List Nat
  phase : Phase
  journal : List (Note α)

namespace Desk
variable {α : Type}

/-- `pendingOrders`. -/
def pending (d : Desk α) : List (Order α) := d.stale ++ d.rest ++ d.late

/-- Every copy besides the record. -/
def copies (d : Desk α) : List (Order α) := d.stale ++ d.kept ++ d.rest ++ d.late

/-! ### The primitives -/

def log (d : Desk α) (n : Note α) : Desk α := { d with journal := d.journal ++ [n] }

/-- Change a pending order. -/
def edit (d : Desk α) (id : Nat) (f : Order α → Order α) : Desk α :=
  { d with stale := Keyed.update Order.id id f d.stale, rest := Keyed.update Order.id id f d.rest,
           late := Keyed.update Order.id id f d.late }

/-- Overwrite a record. -/
def file (d : Desk α) (o : Order α) : Desk α :=
  { d with record := fun id => if id = o.id then some o else d.record id }.log (.recorded o)

/-- Change a pending order and overwrite its record. -/
def write (d : Desk α) (o : Order α) : Desk α := (d.edit o.id fun _ => o).file o

def submit (d : Desk α) (o : Order α) (seen : Nat) : Desk α :=
  { d with ids := d.ids ++ [o.id], record := fun id => if id = o.id then some o else d.record id,
           rest := d.rest ++ [o], nextOrderId := d.nextOrderId + 1 }.log (.submitted o 0 seen)

def submitLate (d : Desk α) (o : Order α) (turn seen : Nat) : Desk α :=
  { d with ids := d.ids ++ [o.id], record := fun id => if id = o.id then some o else d.record id,
           late := d.late ++ [o], nextOrderId := d.nextOrderId + 1 }.log (.submitted o turn seen)

def link (d : Desk α) (id : Nat) (childIds : List Nat) : Desk α :=
  { d.edit id ({ · with childIds }) with
    record := fun i => if i = id then (d.record id).map ({ · with childIds }) else d.record i }

/-- The order at hand is done with. -/
def next (d : Desk α) (e : Order α) (r : List (Order α)) : Desk α :=
  { d with stale := d.stale ++ [e], rest := r, phase := .idle }

def keep (d : Desk α) (e : Order α) (r : List (Order α)) : Desk α :=
  { d.next e r with kept := d.kept ++ [e] }

def release (pid : Nat) (o : Order α) : Order α :=
  if o.parentId == pid && !o.transmit then { o with transmit := true } else o

def activate (d : Desk α) (pid : Nat) : Desk α :=
  { d with stale := d.stale.map (release pid), rest := d.rest.map (release pid),
           late := d.late.map (release pid) }

def writeKept (d : Desk α) (o : Order α) : Desk α :=
  { d with kept := Keyed.update Order.id o.id (fun _ => o) d.kept }.file o

def finish (d : Desk α) (kept : List (Order α)) : Desk α :=
  { d with stale := [], kept := [], rest := kept, late := [], groups := [], phase := .idle }

/-! ### What happens -/

/-- An order as it is submitted. -/
structure New (o : Order α) (id : Nat) : Prop where
  id : o.id = id
  status : o.status = .Created
  childIds : o.childIds = []

/-- A change that neither ends an order nor revives it. -/
structure Tweak (e e' : Order α) : Prop where
  same : Order.Same e e'
  transmit : e'.transmit = e.transmit
  childIds : e'.childIds = e.childIds
  isAlive : e'.isAlive = e.isAlive
  outcome : e.isAlive = false → e'.outcome = e.outcome

/-- The commands of callbacks and strategies. Bracket mains they link have ids from `lo` on. -/
inductive Call (lo : Nat) : Desk α → Desk α → Prop
  | submit {d : Desk α} {o : Order α} (seen : Nat) (hnew : New o d.nextOrderId) (hlate : d.late = []) :
      Call lo d (d.submit o seen)
  | submitLate {d : Desk α} {o : Order α} (turn seen : Nat) (hnew : New o d.nextOrderId) (hturn : 0 < turn) :
      Call lo d (d.submitLate o turn seen)
  | link {d : Desk α} (id : Nat) (childIds : List Nat) (hid : id = 0 ∨ lo ≤ id) :
      Call lo d (d.link id childIds)
  /-- `pos < turn` for a pending order that the pass has reached. -/
  | cancel {d : Desk α} {e : Order α} (pos turn : Nat) (he : e ∈ d.pending) (halive : e.isAlive = true)
      (hpos : e ∈ d.stale ∨ (d.phase ≠ .idle ∧ d.rest.head? = some e) → pos < turn) :
      Call lo d ((d.log (.cancelled e.id pos turn)).write e.cancel)

/-- One thing that happens in a run: `lo` as in `Call`, `feeds` what the pass runs over, and `B` what is
known when an order is booked. -/
inductive Move (lo : Nat) (feeds : List (DataFeed α)) (B : List Nat → Order α → Prop) :
    Desk α → Desk α → Prop
  | call {d d' : Desk α} (h : Call lo d d') : Move lo feeds B d d'
  /-- The next order is no longer alive. -/
  | skip {d : Desk α} {e : Order α} {r : List (Order α)} (hph : d.phase = .idle) (hr : d.rest = e :: r)
      (hdead : e.isAlive = false) : Move lo feeds B d (d.next e r)
  | keep {d : Desk α} {e : Order α} {r : List (Order α)} (hph : d.phase = .idle ∨ d.phase = .picked)
      (hr : d.rest = e :: r) : Move lo feeds B d (d.keep e r)
  | pick {d : Desk α} {e e' : Order α} {r : List (Order α)} (hph : d.phase = .idle) (hr : d.rest = e :: r)
      (halive : e.isAlive = true)
      (hgate : (e' = e ∧ (e.transmit = true ∨ e.parentId = 0)) ∨
        (e' = { e with transmit := true } ∧ ∃ p, d.record e.parentId = some p ∧ p.status = .Completed)) :
      Move lo feeds B d { d with rest := e' :: r, phase := .picked }
  | touch {d : Desk α} {e e' : Order α} {r : List (Order α)} (hph : d.phase = .picked)
      (hr : d.rest = e :: r) (ht : Tweak e e') : Move lo feeds B d (d.write e')
  | drop {d : Desk α} {e : Order α} {r : List (Order α)} (s : OrderStatus) (hph : d.phase = .picked)
      (hr : d.rest = e :: r) (hs : s = .Rejected ∨ s = .Expired)
      (hwhy : feeds.length ≤ e.dataIndex ∨ e.validUntilBar ≠ none) :
      Move lo feeds B d { d.write (e.setStatus s) with phase := .dropped }
  | refuse {d : Desk α} {e : Order α} {r : List (Order α)} (s : OrderStatus) (hph : d.phase = .picked)
      (hr : d.rest = e :: r) (hs : s = .Rejected ∨ s = .Margin) :
      Move lo feeds B d { d.write (e.setStatus s) with phase := .resolved }
  /-- An order that is no longer alive is booked only if a callback has cancelled it at hand. -/
  | book {d : Desk α} {e : Order α} {r : List (Order α)} (x : Execution α) (feed : DataFeed α)
      (hph : d.phase = .picked) (hr : d.rest = e :: r) (hfeed : feeds[e.dataIndex]? = some feed)
      (hx : ∃ p s c, x.order = e.execute p s c) (hcursor : x.cursor = feed.index)
      (hdead : e.isAlive = false → ∃ pos turn, pos < turn ∧ Note.cancelled e.id pos turn ∈ d.journal)
      (hB : B d.groups e) :
      Move lo feeds B d ({ d with rest := x.order :: r, phase := .booked }.log (.executed x))
  | settle {d : Desk α} {e : Order α} {r : List (Order α)} (hph : d.phase = .booked)
      (hr : d.rest = e :: r) : Move lo feeds B d { d.file e with phase := .resolved }
  | group {d : Desk α} {e : Order α} {r : List (Order α)} (hph : d.phase = .resolved)
      (hr : d.rest = e :: r) (hs : e.status = .Completed) (hg : e.ocoGroupId ≠ 0) :
      Move lo feeds B d { d with groups := d.groups ++ [e.ocoGroupId] }
  | activate {d : Desk α} {e : Order α} {r : List (Order α)} (hph : d.phase = .resolved)
      (hr : d.rest = e :: r) (hs : e.status = .Completed) : Move lo feeds B d (d.activate e.id)
  /-- A leg of a bracket whose main order, at hand, ended without a fill. -/
  | child {d : Desk α} {e c : Order α} {r : List (Order α)} (hph : d.phase = .resolved)
      (hr : d.rest = e :: r) (hs : e.status ≠ .Completed) (hc : c ∈ d.pending)
      (halive : c.isAlive = true) (hparent : c.parentId = e.id) : Move lo feeds B d (d.write c.cancel)
  | dismiss {d : Desk α} {e : Order α} {r : List (Order α)} (hr : d.rest = e :: r)
      (hwhy : d.phase = .dropped ∨ (d.phase = .resolved ∧
        (e.status = .Completed → e.ocoGroupId ≠ 0 → e.ocoGroupId ∈ d.groups) ∧
        (e.status ≠ .Completed → e.parentId = 0 → e.childIds ≠ [] →
          ∀ c ∈ d.stale ++ d.rest, c.parentId = e.id → c.isAlive = false))) :
      Move lo feeds B d (d.next e r)
  | oco {d : Desk α} {e : Order α} (hph : d.phase = .idle) (hr : d.rest = []) (he : e ∈ d.kept)
      (halive : e.isAlive = true) (hgroup : e.ocoGroupId ≠ 0 ∧ e.ocoGroupId ∈ d.groups) :
      Move lo feeds B d (d.writeKept e.cancel)
  | finish {d : Desk α} {kept : List (Order α)} (hph : d.phase = .idle) (hr : d.rest = [])
      (hsub : kept.Sublist d.kept) (hall : ∀ e ∈ d.kept, e.isAlive = true → e ∈ kept)
      (hgroup : ∀ e ∈ kept, e.isAlive = true → e.ocoGroupId ≠ 0 → e.ocoGroupId ∉ d.groups) :
      Move lo feeds B d (d.finish kept)

end Desk

end StratForge
