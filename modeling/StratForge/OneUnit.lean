import StratForge.Collecting
import StratForge.SignalEntry
import StratForge.Turns

/-!
# One unit at a time (`strategy/signal_entry_strategy.hpp`, `strategy/ai_signal_entry_strategy.hpp`)

The templates of entry strategies close first and open from flat. The orders they place are filled or dropped in the
next pass (`pass_idle`), so between two bars there is one at most (`OneAtMost`). What a run executes is a sequence of round
trips on feed 0, each of which closes what it has opened (`roundTrips_upTo`).
-/

namespace StratForge

/-! ### The templates -/

namespace SignalEntryStrategy
variable {α S : Type} [Arith α] (s : SignalEntryStrategy α S)

/-- `next()` from the close conditions on. -/
def closeThenOpen (feeds : List (DataFeed α)) (b : BackBroker α (SignalState S)) : SignalState S × Option (Cmd α) :=
  if (b.position 0).size != 0 then
    let (closeSig, user) := s.checkCloseConditions feeds b b.world.user
    let b := { b with world := { b.world with user } }
    if closeSig then ({ b.world with stage := .closing }, some (.close 0)) else s.openPosition feeds b
  else s.openPosition feeds b

end SignalEntryStrategy

/-- `RegimeEntryStrategy` is a `SignalEntryStrategy` whose history warm-up is `get_base_warmup_period`. -/
structure AISignalEntryStrategy (α S : Type) extends SignalEntryStrategy α S where
  /-- The snapshot, and what taking it does to the members. -/
  getIndicatorValues : List (DataFeed α) → BackBroker α (SignalState S) → S → List (String × α) × S

namespace AISignalEntryStrategy
variable {α S : Type} [Arith α] (s : AISignalEntryStrategy α S)

/-- `next()` until its next command. -/
def next (clock : Clock α) (b : BackBroker α (SignalState S)) : SignalState S × Option (Cmd α) :=
  match b.world.stage with
  | .enter =>
    let b := { b with world := s.advanceOn clock b.world }
    let (_, user) := s.getIndicatorValues clock.feeds b b.world.user
    s.closeThenOpen clock.feeds { b with world := { b.world with user } }
  | .closing => s.openPosition clock.feeds b
  | .opening => ({ b.world with stage := .enter }, none)

def cerebro (fuel : Nat) : Cerebro α (SignalState S) :=
  { s.toSignalEntryStrategy.cerebro fuel with
    call := fun ph clock _ b =>
      match ph with
      | .init | .start => (b.world, none)
      | .prenext => s.prenext clock b
      | .nextstart | .next => s.next clock b }

end AISignalEntryStrategy

/-- The base classes that open and close positions. -/
inductive EntryTemplate (α S : Type)
  | signal (s : SignalEntryStrategy α S)
  | ai (s : AISignalEntryStrategy α S)

namespace EntryTemplate
variable {α S : Type} [Arith α]

def strategy : EntryTemplate α S → SignalEntryStrategy α S
  | .signal s => s
  | .ai s => s.toSignalEntryStrategy

def next : EntryTemplate α S → Clock α → BackBroker α (SignalState S) → SignalState S × Option (Cmd α)
  | .signal s => s.next
  | .ai s => s.next

def cerebro : EntryTemplate α S → Nat → Cerebro α (SignalState S)
  | .signal s => s.cerebro
  | .ai s => s.cerebro

/-- The backtest after the first `n` bars. -/
def upTo (t : EntryTemplate α S) (fuel : Nat) (feeds : DataFeed α × List (DataFeed α)) (b : BackBroker α Unit) (user : S)
    (n : Nat) : Except Error (CerebroState α (SignalState S)) := do
  (Clock.start feeds).checkPlan
  let world ← t.strategy.init (Clock.start feeds).feeds { user }
  (t.cerebro fuel).upTo feeds (b.capture world) n

end EntryTemplate

/-! ### Round trips -/

/-- Fills of feed 0 that open from flat, by a size that is allowed for the side, or close all there is; and the position
they leave. -/
inductive RoundTrips (allowed : OrderSide → ℚ → Prop) : List (Execution ℚ) → ℚ → Prop
  | nil : RoundTrips allowed [] 0
  | opens {xs : List (Execution ℚ)} {x : Execution ℚ} (trips : RoundTrips allowed xs 0) (data : x.order.dataIndex = 0)
      (unit : allowed x.order.side x.order.size) (size : x.size = x.order.signedSize) :
      RoundTrips allowed (xs ++ [x]) (if |x.size| < 1e-10 then 0 else x.size)
  | closes {xs : List (Execution ℚ)} {x : Execution ℚ} {z : ℚ} (trips : RoundTrips allowed xs z) (data : x.order.dataIndex = 0)
      (held : z ≠ 0) (size : x.size = -z) : RoundTrips allowed (xs ++ [x]) 0

/-- What is held is what some fill has opened. -/
theorem RoundTrips.held {allowed : OrderSide → ℚ → Prop} {xs : List (Execution ℚ)} {z : ℚ} (h : RoundTrips allowed xs z)
    (hz : z ≠ 0) : 1e-10 ≤ |z| ∧ (allowed .Buy z ∨ allowed .Sell (-z)) := by
  cases h with
  | nil => exact absurd rfl hz
  | closes => exact absurd rfl hz
  | @opens _ x _ _ unit size =>
    split_ifs at hz ⊢ with hsmall
    · exact absurd rfl hz
    · refine ⟨not_lt.1 hsmall, ?_⟩
      cases hside : x.order.side with
      | Buy => exact .inl (by rw [size, Order.signedSize, hside, if_neg nofun, ← hside]; exact unit)
      | Sell => exact .inr (by rw [size, Order.signedSize, hside, if_pos rfl, neg_neg, ← hside]; exact unit)

variable {W : Type}

namespace BackBroker

/-- The positions are those of the fills, and each fill has its order's size. -/
structure Accounted (b₀ b : BackBroker ℚ W) : Prop extends Replayed b₀ b where
  signed : ∀ x ∈ b.executions, x.size = x.order.signedSize

theorem kept_accounted (b₀ : BackBroker ℚ W) : Kept (Accounted b₀) where
  same b b' hs h := ⟨(kept_replayed b₀).same b b' hs h.toReplayed, by rw [hs.executions]; exact h.signed⟩
  enter b x dt hx h := by
    refine ⟨(kept_replayed b₀).enter b x dt hx h.toReplayed, fun y hy => ?_⟩
    rw [enter_executions, List.mem_append, List.mem_singleton] at hy
    rcases hy with hy | rfl
    exacts [h.signed y hy, hx.size]

theorem Accounted.of_fresh {b : BackBroker ℚ W} (hf : b.Fresh) : Accounted b b := by
  refine ⟨.of_fresh hf, fun x hx => ?_⟩
  rw [executions, hf.journal] at hx
  cases hx

/-- A fill of feed 0 on top of what is accounted for. -/
theorem Accounted.position {b₀ b b' : BackBroker ℚ W} {x : Execution ℚ} (h : Accounted b₀ b) (h' : Accounted b₀ b')
    (hx : b'.executions = b.executions ++ [x]) (hdata : x.order.dataIndex = 0) : (b'.position 0).size =
      if |(b.position 0).size + x.size| < 1e-10 then 0 else (b.position 0).size + x.size := by
  rw [position_size, position_size, h'.holding, h.holding, hx, replayPosition, List.filter_append, List.foldl_append]
  rw [show List.filter (·.order.dataIndex == 0) [x] = [x] by simp [hdata]]
  exact Position.size_update _ _ _

variable {allowed : OrderSide → ℚ → Prop} {b₀ b b' : BackBroker ℚ W} {h : Hooks ℚ W} {feeds : List (DataFeed ℚ)}

/-- An order that a template has placed, with this position. -/
structure Placed (allowed : OrderSide → ℚ → Prop) (z : ℚ) (o : Order ℚ) : Prop where
  type : o.type = .Market
  dataIndex : o.dataIndex = 0
  status : o.status = .Created
  transmit : o.transmit = true
  validUntilBar : o.validUntilBar = none
  size : z = 0 ∧ allowed o.side o.size ∨ z ≠ 0 ∧ o.signedSize = -z

/-- No order is pending. -/
structure Idle (allowed : OrderSide → ℚ → Prop) (b₀ b : BackBroker ℚ W) : Prop where
  books : Accounted b₀ b
  trips : RoundTrips allowed b.executions (b.position 0).size
  pending : b.pendingOrders = []

/-- One order is pending at most. -/
structure OneAtMost (allowed : OrderSide → ℚ → Prop) (b₀ b : BackBroker ℚ W) : Prop where
  books : Accounted b₀ b
  trips : RoundTrips allowed b.executions (b.position 0).size
  pending : b.pendingOrders = [] ∨ ∃ o, b.pendingOrders = [o] ∧ Placed allowed (b.position 0).size o

theorem Idle.oneAtMost (hb : Idle allowed b₀ b) : OneAtMost allowed b₀ b := ⟨hb.books, hb.trips, .inl hb.pending⟩

theorem SameBooks.position (hs : SameBooks b b') (k : Nat) : (b'.position k).size = (b.position k).size := by
  rw [position_size, position_size, hs.holding]

theorem Idle.of_books (hb : Idle allowed b₀ b) (hs : SameBooks b b') (hp : b'.pendingOrders = []) : Idle allowed b₀ b' :=
  ⟨(kept_accounted b₀).same _ _ hs hb.books, by rw [hs.executions, hs.position]; exact hb.trips, hp⟩

theorem OneAtMost.of_books (hb : OneAtMost allowed b₀ b) (hs : SameBooks b b') (hp : b'.pendingOrders = b.pendingOrders) :
    OneAtMost allowed b₀ b' :=
  ⟨(kept_accounted b₀).same _ _ hs hb.books, by rw [hs.executions, hs.position]; exact hb.trips,
    by rw [hp, hs.position]; exact hb.pending⟩

theorem same_world (b : BackBroker ℚ W) (world : W) : SameBooks b { b with world } := .of_eq rfl rfl rfl rfl rfl rfl rfl

/-! ### A pass -/

/-- A market order is filled by whatever bar there is. -/
theorem matchOrder_market (hslip : b.slipOpen = false ∨ b.slipOut = true ∨ b.slipMatch = true) {o : Order ℚ}
    (htype : o.type = .Market) (bar : Row ℚ) : b.matchOrder o bar ≠ .none := by
  unfold BrokerSettings.matchOrder Order.rawMatch
  rw [htype]
  dsimp only
  rw [show OrderType.Market.appliesOpenSlippage = true from rfl, show OrderType.Market.appliesLimitSlippage = false from rfl,
    Bool.true_and, Bool.false_and, Bool.or_false]
  split_ifs with hopen
  · unfold BrokerSettings.applySlippage
    dsimp only
    rcases hslip with hslip | hslip | hslip
    · exact absurd hopen (by simp [hslip])
    · rw [hslip, if_pos rfl]
      exact nofun
    · rw [hslip, Bool.not_true, if_neg (c := false = true) nofun]
      split_ifs <;> exact nofun
  · exact nofun

theorem Placed.not_held {z : ℚ} {o : Order ℚ} (ho : Placed allowed z o) : Pass.held b o = false := by
  unfold Pass.held
  rw [ho.transmit]
  rfl

/-- The turn of the pending order drops it or fills it. -/
theorem Placed.turned {z : ℚ} {o : Order ℚ} {p' : Pass ℚ W} (ho : Placed allowed z o)
    (hslip : b.slipOpen = false ∨ b.slipOut = true ∨ b.slipMatch = true)
    (hbar : ((feeds[0]?).bind DataFeed.current?).isSome = true) (ht : Pass.Turned feeds { broker := b } p' o) :
    p'.stillPending = [] ∧
      (p'.broker.executions = b.executions ∨ ∃ x, Order.Same o x.order ∧ p'.broker.executions = b.executions ++ [x]) := by
  cases ht with
  | dropped _ hkept hbooks => exact ⟨hkept, .inl hbooks⟩
  | refused _ _ _ hkept hbooks => exact ⟨hkept, .inl hbooks⟩
  | filled _ _ x _ _ _ horder _ hkept hbooks => exact ⟨hkept, .inr ⟨x, horder, hbooks⟩⟩
  | carried e hc =>
    cases hc with
    | misses bar _ hmatch => exact absurd hmatch (matchOrder_market hslip ho.type bar)
    | waits _ hstuck =>
      -- its feed has a bar
      unfold Pass.stuck at hstuck
      rw [ho.not_held, Bool.false_or, ho.dataIndex] at hstuck
      cases hfeed : feeds[0]? with
      | none => rw [hfeed] at hstuck; cases hstuck
      | some feed =>
        rw [hfeed] at hstuck hbar
        cases hcur : feed.current? with
        | none =>
          replace hbar : feed.current?.isSome = true := hbar
          rw [hcur] at hbar
          cases hbar
        | some bar =>
          replace hstuck : feed.current?.isNone = true := hstuck
          rw [hcur] at hstuck
          cases hstuck

theorem processOrders_executions (hh : Tame h) (feeds : List (DataFeed ℚ)) (b : BackBroker ℚ W) :
    (b.processOrders h feeds).executions = (b.passAt h feeds b.pendingOrders.length).broker.executions := by
  let p := b.passAt h feeds b.pendingOrders.length
  have hoco : SameBooks p.broker (p.cancelOcoSiblings h).broker := (frames_books hh p.broker).cancelOcoSiblings (.refl _)
  exact hoco.executions

/-- After a pass nothing is pending. -/
theorem pass_idle (hk : Tracked h (Lined Order.core)) (hh : Tame h)
    (hslip : b₀.slipOpen = false ∨ b₀.slipOut = true ∨ b₀.slipMatch = true)
    (hbar : ((feeds[0]?).bind DataFeed.current?).isSome = true) (hb : OneAtMost allowed b₀ b) :
    Idle allowed b₀ (b.processOrders h feeds) := by
  have hacc := ((kept_accounted b₀).stays hh).processOrders feeds hb.books
  have hset : b.toBrokerSettings = b₀.toBrokerSettings := hb.books.settings
  have hslip' : b.slipOpen = false ∨ b.slipOut = true ∨ b.slipMatch = true := by rwa [hset]
  -- what the turns leave, by what was pending
  suffices hturns : (b.passAt h feeds b.pendingOrders.length).stillPending = [] ∧
      ((b.processOrders h feeds).executions = b.executions ∨ ∃ o x, b.pendingOrders = [o] ∧
        Placed allowed (b.position 0).size o ∧ Order.Same o x.order ∧
        (b.processOrders h feeds).executions = b.executions ++ [x]) by
    obtain ⟨hstill, hexec⟩ := hturns
    refine ⟨hacc, ?_, List.eq_nil_iff_forall_not_mem.2 fun e he => ?_⟩
    · rcases hexec with hexec | ⟨o, x, -, ho, hsame, hexec⟩
      · have hpos : ((b.processOrders h feeds).position 0).size = (b.position 0).size := by
          rw [position_size, position_size, hacc.holding, hb.books.holding, hexec]
        rw [hexec, hpos]
        exact hb.trips
      · have hdata : x.order.dataIndex = 0 := hsame.dataIndex.trans ho.dataIndex
        have hsize : x.size = x.order.signedSize := hacc.signed x (by simp [hexec])
        have hsigned : x.order.signedSize = o.signedSize := by
          unfold Order.signedSize
          rw [hsame.side, hsame.size]
        rw [hb.books.position hacc hexec hdata, hexec]
        rcases ho.size with ⟨hflat, hunit⟩ | ⟨hheld, hclose⟩
        · rw [hflat, zero_add]
          exact .opens (hflat ▸ hb.trips) hdata (by rwa [hsame.side, hsame.size]) hsize
        · have hall : x.size = -(b.position 0).size := hsize.trans (hsigned.trans hclose)
          rw [hall, add_neg_cancel, ite_self]
          exact .closes hb.trips hdata hheld hall
    · obtain ⟨e₀, he₀, -⟩ := cancelOcoSiblings_kept h _ e he
      rw [hstill] at he₀
      cases he₀
  rw [processOrders_executions hh]
  rcases hb.pending with hnone | ⟨o, hone, ho⟩
  · rw [hnone]
    exact ⟨rfl, .inl rfl⟩
  · have hturn : Pass.Turned feeds { broker := b } (Pass.visit h feeds { broker := b } 0) o :=
      Pass.visit_turned hh hk.order (by rw [hone]; rfl)
    have hpass : b.passAt h feeds b.pendingOrders.length = Pass.visit h feeds { broker := b } 0 := by
      rw [hone]
      rfl
    rw [hpass]
    obtain ⟨hstill, hexec⟩ := ho.turned hslip' hbar hturn
    rcases hexec with hexec | ⟨x, hsame, hexec⟩
    exacts [⟨hstill, .inl hexec⟩, ⟨hstill, .inr ⟨o, x, hone, ho, hsame, hexec⟩⟩]

/-! ### What the templates command -/

theorem Idle.pushOrder {o : Order ℚ} (hb : Idle allowed b₀ b) (ho : Placed allowed (b.position 0).size o) :
    OneAtMost allowed b₀ (b.pushOrder o) := by
  have hbooks : SameBooks b (b.pushOrder o) := (Quiet.pushOrder b o).books
  refine ⟨(kept_accounted b₀).same _ _ hbooks hb.books, by rw [hbooks.executions, hbooks.position]; exact hb.trips,
    .inr ⟨o, ?_, by rwa [hbooks.position]⟩⟩
  show b.pendingOrders ++ [o] = [o]
  rw [hb.pending, List.nil_append]

section
variable (hhook : ∀ side size k b, h.preOrderHook side size k b = (⟨0, size, false⟩, b.world))
include hhook

theorem submit_oneAtMost {side : OrderSide} {size : ℚ} (hb : Idle allowed b₀ b)
    (hsize : (b.position 0).size = 0 ∧ allowed side size ∨
      (b.position 0).size ≠ 0 ∧ (if side = .Sell then -size else size) = -(b.position 0).size) :
    OneAtMost allowed b₀ (submitOrder h side size 0 none .Market 0 b).2 ∧
      (submitOrder h side size 0 none .Market 0 b).2.world = b.world ∧
      ((submitOrder h side size 0 none .Market 0 b).2.position 0).size = (b.position 0).size := by
  unfold submitOrder submitOrderExt
  rw [hhook]
  dsimp only
  rw [if_neg nofun]
  dsimp only
  exact ⟨hb.pushOrder ⟨rfl, rfl, rfl, rfl, rfl, hsize⟩, rfl, rfl⟩

/-- Closing what is held, all of it. -/
theorem close_oneAtMost (hedge : ¬allowed .Buy 1e-10 ∧ ¬allowed .Sell (-1e-10)) (hb : Idle allowed b₀ b)
    (hheld : (b.position 0).size ≠ 0) : OneAtMost allowed b₀ (b.close h 0).2 ∧ (b.close h 0).2.world = b.world ∧
      ((b.close h 0).2.position 0).size = (b.position 0).size := by
  have hbooks : SameBooks b (b.ensurePosition 0) := (Quiet.ensurePosition b 0).books
  have hidle : Idle allowed b₀ (b.ensurePosition 0) := hb.of_books hbooks hb.pending
  have hpos := hbooks.position 0
  rw [← hpos] at hheld ⊢
  obtain ⟨hlarge, hunit⟩ := hidle.trips.held hheld
  unfold close
  dsimp only
  generalize hz : ((b.ensurePosition 0).position 0).size = z at *
  rw [Position.isFlat, hz, if_neg (by simpa using hlarge), Position.isLong, hz]
  split_ifs with hlong
  · have hpos : 0 < z := lt_trans (by norm_num) (of_decide_eq_true hlong)
    refine hz ▸ submit_oneAtMost hhook hidle (.inr ⟨by rwa [hz], ?_⟩)
    rw [if_pos rfl, hz, neg_inj]
    exact abs_of_pos hpos
  · have hneg : z < 0 := by
      by_contra hge
      have habs : (1e-10 : ℚ) ≤ z := by rwa [abs_of_nonneg (not_lt.1 hge)] at hlarge
      have heq : z = 1e-10 := le_antisymm (not_lt.1 (by simpa using hlong)) habs
      rw [heq] at hunit
      exact hunit.elim hedge.1 hedge.2
    refine hz ▸ submit_oneAtMost hhook hidle (.inr ⟨by rwa [hz], ?_⟩)
    rw [if_neg nofun, hz]
    exact abs_of_neg hneg

end

end BackBroker

open BackBroker

/-! ### A bar of a template -/

namespace EntryTemplate
variable {S : Type} {t : EntryTemplate ℚ S} {allowed : OrderSide → ℚ → Prop} {b₀ b : BackBroker ℚ (SignalState S)}
  {clock : Clock ℚ} {fuel n : Nat}

theorem next_enter (t : EntryTemplate ℚ S) (clock : Clock ℚ) (hstage : b.world.stage = .enter) :
    ∃ w, t.next clock b = t.strategy.closeThenOpen clock.feeds { b with world := w } := by
  cases t with
  | signal s =>
    refine ⟨s.advanceOn clock b.world, ?_⟩
    show s.next clock b = _
    unfold SignalEntryStrategy.next
    rw [hstage]
    rfl
  | ai s =>
    let w := s.advanceOn clock b.world
    refine ⟨{ w with user := (s.getIndicatorValues clock.feeds { b with world := w } w.user).2 }, ?_⟩
    show s.next clock b = _
    unfold AISignalEntryStrategy.next
    rw [hstage]
    rfl

theorem next_closing (t : EntryTemplate ℚ S) (clock : Clock ℚ) (hstage : b.world.stage = .closing) :
    t.next clock b = t.strategy.openPosition clock.feeds b := by
  cases t with
  | signal s => exact SignalEntryStrategy.next_closing hstage
  | ai s =>
    show s.next clock b = _
    unfold AISignalEntryStrategy.next
    rw [hstage]
    rfl

theorem next_opening (t : EntryTemplate ℚ S) (clock : Clock ℚ) (hstage : b.world.stage = .opening) :
    t.next clock b = ({ b.world with stage := .enter }, none) := by
  cases t with
  | signal s =>
    show s.next clock b = _
    unfold SignalEntryStrategy.next
    rw [hstage]
  | ai s =>
    show s.next clock b = _
    unfold AISignalEntryStrategy.next
    rw [hstage]

/-- The listener is that of the signal strategy. -/
theorem listener_cerebro (t : EntryTemplate ℚ S) (clock : Clock ℚ) :
    (t.cerebro fuel).listener clock = (t.strategy.cerebro fuel).listener clock := by cases t <;> rfl

/-- `next()` with the commands it issues, `n` of them at most. -/
def drive (t : EntryTemplate ℚ S) (fuel : Nat) (clock : Clock ℚ) (n : Nat) (b : BackBroker ℚ (SignalState S)) :
    BackBroker ℚ (SignalState S) := ((t.cerebro fuel).listener clock).drive (fuel + 3) (t.next clock) n b

theorem hook_cerebro (t : EntryTemplate ℚ S) (fuel : Nat) (clock : Clock ℚ) (k : Nat) (side : OrderSide) (size : ℚ) (i : Nat)
    (b : BackBroker ℚ (SignalState S)) :
    (((t.cerebro fuel).listener clock).hooks k).preOrderHook side size i b = (⟨0, size, false⟩, b.world) := by
  rw [listener_cerebro]
  rfl

/-- The rest of `next()` after an order that opens. -/
theorem drive_opening (hb : OneAtMost allowed b₀ b) (hstage : b.world.stage = .opening) :
    OneAtMost allowed b₀ (t.drive fuel clock (n + 1) b) ∧ (t.drive fuel clock (n + 1) b).world.stage = .enter := by
  unfold drive Listener.drive
  rw [next_opening t clock hstage]
  exact ⟨hb.of_books (same_world b _) rfl, rfl⟩

/-- What is held may be closed, else the open conditions are next. -/
theorem closeThenOpen_cases (feeds : List (DataFeed ℚ)) (b : BackBroker ℚ (SignalState S)) (w : SignalState S) :
    ((b.position 0).size ≠ 0 ∧ (t.strategy.closeThenOpen feeds { b with world := w }).2 = some (.close 0) ∧
      (t.strategy.closeThenOpen feeds { b with world := w }).1.stage = .closing) ∨
    ∃ w', t.strategy.closeThenOpen feeds { b with world := w } = t.strategy.openPosition feeds { b with world := w' } := by
  unfold SignalEntryStrategy.closeThenOpen
  dsimp only
  split_ifs with hheld hsig
  · exact .inl ⟨bne_iff_ne.1 hheld, rfl, rfl⟩
  · exact .inr ⟨_, rfl⟩
  · exact .inr ⟨w, rfl⟩

section
variable (hunit : ∀ side feeds b user, allowed side (t.strategy.getsizing side feeds b user))
include hunit

/-- The open conditions order nothing, or an order from flat. -/
theorem openPosition_cases (feeds : List (DataFeed ℚ)) (b : BackBroker ℚ (SignalState S)) :
    (t.strategy.openPosition feeds b).2 = none ∧ (t.strategy.openPosition feeds b).1.stage = .enter ∨
    (b.position 0).size = 0 ∧ (t.strategy.openPosition feeds b).1.stage = .opening ∧
      ((∃ size, allowed .Buy size ∧ (t.strategy.openPosition feeds b).2 = some (.buy size 0 none .Market 0)) ∨
        ∃ size, allowed .Sell size ∧ (t.strategy.openPosition feeds b).2 = some (.sell size 0 none .Market 0)) := by
  unfold SignalEntryStrategy.openPosition
  dsimp only
  split_ifs with hlong hshort
  · rw [Bool.and_eq_true, beq_iff_eq] at hlong
    exact .inr ⟨hlong.1, rfl, .inl ⟨_, hunit _ _ _ _, rfl⟩⟩
  · rw [Bool.and_eq_true, beq_iff_eq] at hshort
    exact .inr ⟨hshort.1, rfl, .inr ⟨_, hunit _ _ _ _, rfl⟩⟩
  · exact .inl ⟨rfl, rfl⟩

/-- From the open conditions on, with a position or without an order. -/
theorem drive_openPosition {w : SignalState S} (hb : OneAtMost allowed b₀ b)
    (hflat : (b.position 0).size = 0 → b.pendingOrders = [])
    (hnext : t.next clock b = t.strategy.openPosition clock.feeds { b with world := w }) :
    OneAtMost allowed b₀ (t.drive fuel clock (n + 2) b) ∧ (t.drive fuel clock (n + 2) b).world.stage = .enter := by
  have hhook := t.hook_cerebro fuel clock (fuel + 3)
  have hcases := openPosition_cases hunit clock.feeds { b with world := w }
  rw [← hnext] at hcases
  unfold drive Listener.drive
  cases hact : t.next clock b with
  | mk w' cmd =>
    rw [hact] at hcases
    rcases hcases with ⟨hnone, hstage⟩ | ⟨hzero, hstage, hcmd⟩
    · replace hnone : cmd = none := hnone
      rw [hnone]
      exact ⟨hb.of_books (same_world b _) rfl, hstage⟩
    · have hidle : Idle allowed b₀ { b with world := w' } :=
        ⟨(kept_accounted b₀).same _ _ (same_world b w') hb.books, hb.trips, hflat hzero⟩
      rcases hcmd with ⟨size, hsize, hsome⟩ | ⟨size, hsize, hsome⟩
      · replace hsome : cmd = some (.buy size 0 none .Market 0) := hsome
        rw [hsome]
        obtain ⟨hone, hworld, -⟩ := submit_oneAtMost hhook hidle (.inl ⟨hzero, hsize⟩)
        exact drive_opening hone ((congrArg SignalState.stage hworld).trans hstage)
      · replace hsome : cmd = some (.sell size 0 none .Market 0) := hsome
        rw [hsome]
        obtain ⟨hone, hworld, -⟩ := submit_oneAtMost hhook hidle (.inl ⟨hzero, hsize⟩)
        exact drive_opening hone ((congrArg SignalState.stage hworld).trans hstage)

/-- All of `next()`. -/
theorem drive_oneAtMost (hedge : ¬allowed .Buy 1e-10 ∧ ¬allowed .Sell (-1e-10)) (hb : Idle allowed b₀ b)
    (hstage : b.world.stage = .enter) :
    OneAtMost allowed b₀ (t.drive fuel clock (n + 3) b) ∧ (t.drive fuel clock (n + 3) b).world.stage = .enter := by
  obtain ⟨w, hnext⟩ := next_enter t clock hstage
  rcases closeThenOpen_cases (t := t) clock.feeds b w with ⟨hheld, hcmd, hclosing⟩ | ⟨w', hopen⟩
  · -- what is held is closed, and nothing is opened on top of it
    rw [← hnext] at hcmd hclosing
    unfold drive Listener.drive
    cases hact : t.next clock b with
    | mk w' cmd =>
      rw [hact] at hcmd hclosing
      replace hcmd : cmd = some (.close 0) := hcmd
      rw [hcmd]
      have hidle : Idle allowed b₀ { b with world := w' } := hb.of_books (same_world b w') hb.pending
      obtain ⟨hone, hworld, hpos⟩ := close_oneAtMost (t.hook_cerebro fuel clock (fuel + 3)) hedge hidle hheld
      exact drive_openPosition hunit hone (fun hzero => absurd (hpos.symm.trans hzero) hheld)
        (next_closing t clock ((congrArg SignalState.stage hworld).trans hclosing))
  · exact drive_openPosition hunit hb.oneAtMost (fun _ => hb.pending) (hnext.trans hopen)

/-- A turn of the strategy. -/
theorem phase_oneAtMost (hedge : ¬allowed .Buy 1e-10 ∧ ¬allowed .Sell (-1e-10)) (ph : Lifecycle) (hb : Idle allowed b₀ b)
    (hstage : b.world.stage = .enter) : OneAtMost allowed b₀ ((t.cerebro fuel).phase ph clock b 0) ∧
      ((t.cerebro fuel).phase ph clock b 0).world.stage = .enter := by
  have hnext : OneAtMost allowed b₀ (t.drive fuel clock (fuel + 3) b) ∧ (t.drive fuel clock (fuel + 3) b).world.stage = .enter :=
    drive_oneAtMost hunit hedge hb hstage
  have hpre : (t.strategy.prenext clock b).1.stage = .enter := (SignalEntryStrategy.advanceOn_same _).1.trans hstage
  have hrest : ∀ w : SignalState S, w.stage = .enter →
      OneAtMost allowed b₀ { b with world := w } ∧ ({ b with world := w } : BackBroker ℚ (SignalState S)).world.stage = .enter :=
    fun w hw => ⟨hb.oneAtMost.of_books (same_world b w) rfl, hw⟩
  cases t <;> cases ph
  exacts [hrest _ hstage, hrest _ hstage, hrest _ hpre, hnext, hnext, hrest _ hstage, hrest _ hstage, hrest _ hpre, hnext, hnext]

end

/-! ### Runs -/

section
variable (hunit : ∀ side feeds b user, allowed side (t.strategy.getsizing side feeds b user))
  (hedge : ¬allowed .Buy 1e-10 ∧ ¬allowed .Sell (-1e-10))
  (hslip : b₀.slipOpen = false ∨ b₀.slipOut = true ∨ b₀.slipMatch = true)
include hunit hedge hslip

/-- A bar of the run. -/
theorem trade_oneAtMost {e : CerebroState ℚ (SignalState S)} (bar : Nat) (hcur : e.clock.master.feed.current?.isSome = true)
    (hb : OneAtMost allowed b₀ e.broker) (hstage : e.broker.world.stage = .enter) :
    OneAtMost allowed b₀ ((t.cerebro fuel).trade bar e).broker ∧ ((t.cerebro fuel).trade bar e).broker.world.stage = .enter := by
  let c := t.cerebro fuel
  have hstays : Stays (c.hooks e.clock) fun b => b.world.stage = .enter := by
    have hlistener : c.listener e.clock = (t.strategy.cerebro fuel).listener e.clock := listener_cerebro t e.clock
    unfold Cerebro.hooks
    rw [hlistener]
    exact Listener.stays (P := fun w : SignalState S => w.stage = .enter) (fun _ _ h => h) (fun _ _ _ _ h => h) _
  have hidle : Idle allowed b₀ (e.broker.processOrders (c.hooks e.clock) e.clock.feeds) :=
    pass_idle (core_tracks.tracked _ _) (tame_hooks _ _) hslip hcur hb
  have hstage' := hstays.processOrders e.clock.feeds hstage
  have hone : c.strategies = 1 := by cases t <;> rfl
  have hclosing : (c.trade bar e).broker = ((List.range c.strategies).foldl (c.turn e.clock)
      (e.broker.processOrders (c.hooks e.clock) e.clock.feeds, e.entered)).1 := by cases t <;> rfl
  rw [hclosing, hone]
  show OneAtMost allowed b₀ (c.turn e.clock _ 0).1 ∧ (c.turn e.clock _ 0).1.world.stage = .enter
  unfold Cerebro.turn
  split_ifs <;> exact phase_oneAtMost hunit hedge _ hidle hstage'

theorem oneAtMost_upTo {feeds : DataFeed ℚ × List (DataFeed ℚ)} (hb : Idle allowed b₀ b) (hstage : b.world.stage = .enter) {n : Nat}
    {e : CerebroState ℚ (SignalState S)} (hn : n ≤ feeds.1.size) (h : (t.cerebro fuel).upTo feeds b n = .ok e) :
    OneAtMost allowed b₀ e.broker ∧ e.broker.world.stage = .enter := by
  induction n generalizing e with
  | zero =>
    obtain ⟨-, -, h⟩ := bind_eq_ok.1 h
    obtain ⟨-, -, h⟩ := bind_eq_ok.1 h
    cases h
    cases t <;> exact ⟨hb.oneAtMost, hstage⟩
  | succ n ih =>
    obtain ⟨e₁, h₁, hbroker, -, -⟩ := Cerebro.upTo_succ _ h
    obtain ⟨e₀, h₀, hgate, -⟩ := Cerebro.gated_broker _ h₁
    obtain ⟨hdata, hindex, -⟩ := Cerebro.gated_master _ h₁ hn
    obtain ⟨hone, hstage⟩ := ih (Nat.le_of_succ_le hn) h₀
    have hcur : e₁.clock.master.feed.current?.isSome = true := by
      show (e₁.clock.master.feed.lines.data[e₁.clock.master.feed.index]?).isSome = true
      rw [DataFeed.size_eq] at hn
      rw [hdata, hindex, List.getElem?_eq_getElem hn]
      rfl
    rw [hbroker]
    refine trade_oneAtMost hunit hedge hslip n hcur ?_ ?_
    · rw [hgate]
      exact hone.of_books (.of_eq rfl rfl rfl rfl rfl rfl rfl) rfl
    · rw [hgate]
      exact hstage

end

/-- A strategy that is long on every other bar, for examples. -/
def flips : SignalEntryStrategy ℚ Unit where
  initializeIndicators _ user periods := (user, periods)
  checkOpenConditions _ _ user := ({ longSignal := true }, user)
  checkCloseConditions _ _ user := (true, user)
  getsizing _ _ _ _ := 1
  notify _ b := (b.world.user, none)

end EntryTemplate

end StratForge
