import StratForge.DeskSim
import StratForge.Matching

/-!
# The books

Cash, positions, trades and the list of fills change in one place, when a fill is booked, and there in
one way, `enter`: callbacks and everything else a pass does leave them alone (`SameBooks`). So what
`enter` preserves holds after every run (`run_books`).
-/

namespace StratForge

variable {α W : Type} [Arith α]

/-- Hooks that do nothing. -/
def Hooks.none : Hooks α W :=
  { orderNotify := fun _ b => b, tradeNotify := fun _ _ b => b,
    preOrderHook := fun _ size _ b => (⟨0, size, false⟩, b.world) }

namespace BackBroker
variable {b b' b'' : BackBroker α W} {h : Hooks α W}

/-- What a fill does to the books, were there no callbacks. -/
def enter (b : BackBroker α W) (x : Execution α) (barDt : DateTime) : BackBroker α W :=
  let k := x.order.dataIndex
  let b := (b.pay x.currency (x.size * x.price + x.commission)).ensurePosition k
  let oldSize := (b.position k).size
  let b := (b.updatePosition k x.size x.price).note (.executed x)
  b.updateTrades Hooks.none k oldSize x.size x.price x.commission b.dataBarIndex barDt x.order.candidateId

omit [Arith α] in
theorem executed_of_mem {x : Execution α} (hx : x ∈ b.executions) : .executed x ∈ b.journal := by
  obtain ⟨n, hn, hnx⟩ := List.mem_filterMap.1 hx
  cases n <;> cases hnx
  exact hn

/-- The books of the two brokers are the same, up to flat positions. -/
structure SameBooks (b b' : BackBroker α W) : Prop where
  settings : b'.toBrokerSettings = b.toBrokerSettings
  cash : b'.cash = b.cash
  nextTradeId : b'.nextTradeId = b.nextTradeId
  openTrades : b'.openTrades = b.openTrades
  closedTrades : b'.closedTrades = b.closedTrades
  executions : b'.executions = b.executions
  positions : ∃ ks : List Nat, b'.positions = ks.foldl (Position.ensure b.instrumentMap) b.positions

theorem Quiet.books (h : Quiet b b') : SameBooks b b' :=
  ⟨h.settings, h.cash, h.nextTradeId, h.openTrades, h.closedTrades, h.executions, h.positions⟩

namespace SameBooks

theorem refl (b : BackBroker α W) : SameBooks b b := (Quiet.refl b).books

theorem trans (h : SameBooks b b') (h' : SameBooks b' b'') : SameBooks b b'' := by
  obtain ⟨ks, hks⟩ := h.positions
  obtain ⟨ks', hks'⟩ := h'.positions
  refine ⟨h'.settings.trans h.settings, h'.cash.trans h.cash, h'.nextTradeId.trans h.nextTradeId,
    h'.openTrades.trans h.openTrades, h'.closedTrades.trans h.closedTrades, h'.executions.trans h.executions,
    ks ++ ks', ?_⟩
  rw [hks', hks, List.foldl_append, h.settings]

theorem of_eq {b : BackBroker α W} (hs : b'.toBrokerSettings = b.toBrokerSettings) (hc : b'.cash = b.cash)
    (hn : b'.nextTradeId = b.nextTradeId) (ho : b'.openTrades = b.openTrades)
    (hcl : b'.closedTrades = b.closedTrades) (hj : b'.journal = b.journal) (hp : b'.positions = b.positions) :
    SameBooks b b' :=
  ⟨hs, hc, hn, ho, hcl, congrArg (List.filterMap Note.execution?) hj, [], hp⟩

theorem openTrade (h : SameBooks b b') (k : Nat) (s p c : α) (bar : Nat) (dt : DateTime) (cand : Nat) :
    SameBooks (b.openTrade k s p c bar dt cand) (b'.openTrade k s p c bar dt cand) := by
  unfold BackBroker.openTrade
  rw [h.nextTradeId, h.openTrades]
  exact ⟨h.settings, h.cash, rfl, rfl, h.closedTrades, h.executions, h.positions⟩

theorem retireTrade (hh : Tame h) (b : BackBroker α W) (i : Nat) (t : Trade α) (orig : α) :
    SameBooks (b.retireTrade Hooks.none i t orig) (b.retireTrade h i t orig) := by
  let b1 : BackBroker α W :=
    { b with openTrades := b.openTrades.set i (t, orig), closedTrades := b.closedTrades ++ [(t, orig)] }
  have h1 : SameBooks b1 (h.tradeNotify t orig b1) := (hh.trade t orig b1).quiet.books
  show SameBooks { b1 with openTrades := b1.openTrades.eraseIdx i }
    { h.tradeNotify t orig b1 with openTrades := (h.tradeNotify t orig b1).openTrades.eraseIdx i }
  rw [h1.openTrades]
  exact ⟨h1.settings, h1.cash, h1.nextTradeId, rfl, h1.closedTrades, h1.executions, h1.positions⟩

/-- The trade callback changes nothing about the trades. -/
theorem updateTrades (hh : Tame h) (b : BackBroker α W) (k : Nat) (old s p c : α) (bar : Nat)
    (dt : DateTime) (cand : Nat) : SameBooks (b.updateTrades Hooks.none k old s p c bar dt cand)
      (b.updateTrades h k old s p c bar dt cand) := by
  unfold BackBroker.updateTrades
  dsimp only
  split_ifs
  · exact .refl _
  · exact .refl _
  · split
    · exact .refl b
    · split_ifs
      · exact (retireTrade hh ..).openTrade ..
      · exact retireTrade hh ..
      · exact .refl _

end SameBooks

/-- What is true of a fill when it is booked. -/
structure Booked (b : BackBroker α W) (x : Execution α) : Prop where
  size : x.size = x.order.signedSize
  commission : x.commission = b.fillCommission x.order x.price
  currency : x.currency = b.settleCcy x.order.dataIndex

/-- The fill that `book` books. -/
def fillOf (feed : DataFeed α) (b : BackBroker α W) (o : Order α) (price : α) : Execution α :=
  ⟨o.execute price o.size (b.fillCommission o price), price, o.signedSize, b.fillCommission o price,
    b.settleCcy o.dataIndex, b.dataBarIndex, feed.index⟩

theorem same_fillOf (feed : DataFeed α) (b : BackBroker α W) (o : Order α) (price : α) :
    Order.Same o (b.fillOf feed o price).order := Order.same_execute ..

theorem booked_fillOf (feed : DataFeed α) (b : BackBroker α W) (o : Order α) (price : α) :
    Booked b (b.fillOf feed o price) := by
  have hs := same_fillOf feed b o price
  refine ⟨?_, ?_, ?_⟩
  · show o.signedSize = (b.fillOf feed o price).order.signedSize
    unfold Order.signedSize
    rw [hs.side, hs.size]
  · show b.fillCommission o price = b.fillCommission (b.fillOf feed o price).order price
    unfold BrokerSettings.fillCommission
    rw [hs.dataIndex, hs.size]
  · show b.settleCcy o.dataIndex = b.settleCcy (b.fillOf feed o price).order.dataIndex
    rw [hs.dataIndex]

/-- Booking enters the fill, whatever the callbacks do. -/
theorem enter_books (hh : Tame h) (feed : DataFeed α) (bar : Row α) (b : BackBroker α W) (i : Nat)
    (o : Order α) (price : α) :
    SameBooks ((b.edit i fun _ => (b.fillOf feed o price).order).enter (b.fillOf feed o price) bar.datetime)
      (b.book h feed bar i o price) := by
  have hcand : (b.fillOf feed o price).order.candidateId = o.candidateId := by
    show (o.execute _ _ _).candidateId = _
    unfold Order.execute; split <;> rfl
  unfold enter book
  dsimp only
  rw [(same_fillOf feed b o price).dataIndex, hcand]
  exact (SameBooks.updateTrades hh ..).trans (Quiet.sync _ i).books

theorem book_books (hh : Tame h) (feed : DataFeed α) (bar : Row α) (b : BackBroker α W) (i : Nat)
    (o : Order α) (price : α) : ∃ x b1, Booked b1 x ∧ SameBooks b b1 ∧
      SameBooks (b1.enter x bar.datetime) (b.book h feed bar i o price) := by
  obtain ⟨hs, hc, hk⟩ := booked_fillOf feed b o price
  exact ⟨b.fillOf feed o price, b.edit i fun _ => (b.fillOf feed o price).order, ⟨hs, hc, hk⟩,
    (Quiet.edit b i _).books, enter_books hh feed bar b i o price⟩

/-! ### Passes and runs -/

theorem activate_books (b : BackBroker α W) (id : Nat) : SameBooks b (b.activateBracketChildren id) :=
  .of_eq rfl rfl rfl rfl rfl rfl rfl

omit [Arith α] in
theorem keep_broker (p : Pass α W) (i : Nat) : (p.keep i).broker = p.broker := by
  unfold Pass.keep
  split <;> rfl

/-! ### What stays -/

/-- What is true of a broker before each callback is true after it, and nothing else but a fill touches it. -/
structure Frames (h : Hooks α W) (P : BackBroker α W → Prop) : Prop where
  frame : ∀ {b b'}, SameBooks b b' → b'.world = b.world → P b → P b'
  order : ∀ o {b}, P b → P (h.orderNotify o b)
  hook : ∀ side size k {b}, P b → P { b with world := (h.preOrderHook side size k b).2 }

namespace Frames
variable {P : BackBroker α W → Prop} (hS : Frames h P)
include hS

theorem edit (i : Nat) (f : Order α → Order α) (hb : P b) : P (b.edit i f) := hS.frame (Quiet.edit b i f).books rfl hb

theorem sync (i : Nat) (hb : P b) : P (b.sync i) := by
  refine hS.frame (Quiet.sync b i).books ?_ hb
  unfold BackBroker.sync
  split <;> rfl

theorem notify (i : Nat) (hb : P b) : P (notify h b i) := by
  unfold BackBroker.notify
  split
  exacts [hS.order _ hb, hb]

/-- A pending order is written, its record overwritten, and the callback told. -/
theorem publish (i : Nat) (f : Order α → Order α) (hb : P b) : P (BackBroker.notify h ((b.edit i f).sync i) i) :=
  hS.notify i (hS.sync i (hS.edit i f hb))

theorem cancelAt (p : Order α → Bool) (byUser : Bool) (i : Nat) (hb : P b) : P (b.cancelAt h p byUser i) := by
  unfold BackBroker.cancelAt
  split
  · rename_i e he
    by_cases hp : (p e && e.isAlive) = true
    · rw [if_pos hp]
      refine hS.publish i _ ?_
      split
      exacts [hS.frame (Quiet.note b rfl).books rfl hb, hb]
    · rw [if_neg hp]; exact hb
  · exact hb

theorem cancelPending (p : Order α → Bool) (byUser : Bool) (hb : P b) : P (b.cancelPending h p byUser) :=
  Fold.foldl_ind P _ b hb fun _ i _ hb => hS.cancelAt p byUser i hb

theorem submitOrderExt (side : OrderSide) (size : α) (params : OrderParams α) (hb : P b) :
    P (b.submitOrderExt h side size params).2 := by
  have hw := hS.hook side size params.dataIndex hb
  unfold BackBroker.submitOrderExt
  dsimp only
  split_ifs
  exacts [hw, hS.frame (Quiet.pushOrder _ _).books rfl hw]

theorem bracket (mainSide legSide : OrderSide) (size limitPrice stopPrice : α) (k : Nat) (hb : P b) :
    P (b.bracket h mainSide legSide size limitPrice stopPrice k).2 := by
  have hgroup : P { b with nextOcoGroupId := b.nextOcoGroupId + 1 } :=
    hS.frame (b := b) (.of_eq rfl rfl rfl rfl rfl rfl rfl) rfl hb
  unfold BackBroker.bracket submitOrder
  exact hS.frame (Quiet.linkChildren _ _ _).books rfl
    (hS.submitOrderExt _ _ _ (hS.submitOrderExt _ _ _ (hS.submitOrderExt _ _ _ hgroup)))

theorem close (k : Nat) (hb : P b) : P (b.close h k).2 := by
  have hpos : P (b.ensurePosition k) := hS.frame (Quiet.ensurePosition b k).books rfl hb
  unfold BackBroker.close submitOrder
  dsimp only
  split_ifs
  exacts [hpos, hS.submitOrderExt _ _ _ hpos, hS.submitOrderExt _ _ _ hpos]

theorem exec (c : Cmd α) (hb : P b) : P (b.exec h c) := by
  cases c with
  | buy | sell | buyExt | sellExt => exact hS.submitOrderExt _ _ _ hb
  | buyBracket | sellBracket => exact hS.bracket _ _ _ _ _ _ hb
  | close k => exact hS.close k hb
  | cancelOrder id => exact hS.cancelPending _ _ hb
  | nextOcoGroup => exact hS.frame (b := b) (.of_eq rfl rfl rfl rfl rfl rfl rfl) rfl hb

theorem updateTrailStop (bar : Row α) (i : Nat) (hb : P b) : P (b.updateTrailStop bar i) := by
  unfold BackBroker.updateTrailStop
  split
  · exact hb
  · split
    exacts [hb, hS.sync i (hS.edit i _ hb)]

theorem submitAccept (i : Nat) (o : Order α) (hb : P b) : P (Pass.submitAccept h b i o) := by
  unfold Pass.submitAccept
  split_ifs
  exacts [hS.publish i _ (hS.publish i _ hb), hb]

theorem afterNotify {p : Pass α W} (i : Nat) (hn : P (BackBroker.notify h p.broker i)) : P (Pass.afterFill h p i).broker := by
  have hactivate : ∀ {b} id, P b → P (b.activateBracketChildren id) := fun id hb => hS.frame (activate_books _ id) rfl hb
  unfold Pass.afterFill
  dsimp only
  split
  · exact hn
  · -- the legs are released, or cancelled, or neither
    split_ifs <;>
      first
        | exact hn
        | exact hactivate _ hn
        | exact hS.cancelPending _ _ hn
        | exact hS.cancelPending _ _ (hactivate _ hn)

theorem afterFill {p : Pass α W} (i : Nat) (hp : P p.broker) : P (Pass.afterFill h p i).broker :=
  hS.afterNotify i (hS.notify i hp)

theorem afterTry (feed : DataFeed α) (bar : Row α) {p : Pass α W} (i : Nat) (trail : Bool)
    (hfill : P (p.broker.tryFillOrder h feed bar i).2) : P (Pass.match' h feed bar p i trail).broker := by
  unfold Pass.match'
  dsimp only
  split_ifs
  · exact hS.afterFill i hfill
  · rw [keep_broker]; exact hS.updateTrailStop bar i hfill
  · rw [keep_broker]; exact hfill

theorem cancelOco {p : Pass α W} (j : Nat) (hp : P p.broker) : P (Pass.cancelOco h p j).broker := by
  unfold Pass.cancelOco
  split
  · exact hp
  · split_ifs
    exacts [hS.order _ (hS.frame (Quiet.syncOrder _ _).books rfl hp), hp]

theorem cancelOcoSiblings {p : Pass α W} (hp : P p.broker) : P (Pass.cancelOcoSiblings h p).broker := by
  unfold Pass.cancelOcoSiblings
  split_ifs
  · exact hp
  · exact Fold.foldl_ind (fun p : Pass α W => P p.broker) _ _ hp fun p j _ hp => hS.cancelOco j hp

end Frames

/-- A property that fills keep too, on bars of which `F` is known: nothing is booked but what the bar matches and the
broker affords. -/
structure Fills (h : Hooks α W) (F : Row α → Prop) (P : BackBroker α W → Prop) : Prop extends Frames h P where
  book : ∀ feed bar i o price {b}, F bar → b.pendingOrders[i]? = some o → b.matchOrder o bar = .fill price →
    b.affords o price bar.datetime = true → P b → P (b.book h feed bar i o price)

namespace Fills
variable {F : Row α → Prop} {P : BackBroker α W → Prop} (hS : Fills h F P)
include hS

theorem tryFillOrder (feed : DataFeed α) {bar : Row α} (hF : F bar) (i : Nat) (hb : P b) :
    P (b.tryFillOrder h feed bar i).2 := by
  unfold BackBroker.tryFillOrder
  split
  · exact hb
  · rename_i o ho
    split
    · exact hb
    · exact hS.sync i (hS.edit i _ hb)
    · rename_i price hprice
      split_ifs with hafford
      exacts [hS.book _ _ _ _ _ hF ho hprice hafford hb, hS.sync i (hS.edit i _ hb)]

theorem match' (feed : DataFeed α) {bar : Row α} (hF : F bar) {p : Pass α W} (i : Nat) (trail : Bool) (hp : P p.broker) :
    P (Pass.match' h feed bar p i trail).broker := hS.afterTry feed bar i trail (hS.tryFillOrder feed hF i hp)

theorem visit {feeds : List (DataFeed α)} (hF : ∀ feed ∈ feeds, ∀ bar, feed.current? = some bar → F bar)
    {p : Pass α W} (i : Nat) (hp : P p.broker) : P (Pass.visit h feeds p i).broker := by
  have hturn : P { p.broker with turn := i + 1 } := hS.frame (b := p.broker) (.of_eq rfl rfl rfl rfl rfl rfl rfl) rfl hp
  have hrel : ∀ o, P (Pass.release { p.broker with turn := i + 1 } i o) := by
    intro o
    unfold Pass.release
    split_ifs
    exacts [hS.edit i _ hturn, hturn]
  unfold Pass.visit
  dsimp only
  split
  · exact hturn
  · split
    · exact hturn
    · split
      · rw [keep_broker]; exact hturn
      · split
        · exact hS.publish i _ (hrel _)
        · rename_i feed hfeed
          split
          · rw [keep_broker]; exact hrel _
          · rename_i bar hbar
            split
            · exact hS.publish i _ (hrel _)
            · exact hS.match' _ (hF feed (List.mem_of_getElem? hfeed) bar hbar) i _ (hS.submitAccept i _ (hrel _))

theorem processOrders {feeds : List (DataFeed α)} (hF : ∀ feed ∈ feeds, ∀ bar, feed.current? = some bar → F bar)
    (hb : P b) : P (b.processOrders h feeds) := by
  have hpass : P (b.passAt h feeds b.pendingOrders.length).broker :=
    Fold.foldl_ind (fun p : Pass α W => P p.broker) _ _ hb fun p i _ hp => hS.visit hF i hp
  have hfin : ∀ p : Pass α W, P p.broker → P p.finish := fun p hp =>
    hS.frame (b := p.broker) (.of_eq rfl rfl rfl rfl rfl rfl rfl) rfl hp
  exact hfin _ (hS.cancelOcoSiblings hpass)

end Fills

/-- What is true of a broker before each callback and each fill is true after it, and nothing else touches it. -/
structure Stays (h : Hooks α W) (P : BackBroker α W → Prop) : Prop extends Frames h P where
  book : ∀ feed bar i o price {b}, P b → P (b.book h feed bar i o price)

namespace Stays

theorem never (h : Hooks α W) : Stays h fun _ => False :=
  ⟨⟨fun _ _ => False.elim, fun _ _ => False.elim, fun _ _ _ _ => False.elim⟩, fun _ _ _ _ _ _ => False.elim⟩

variable {P : BackBroker α W → Prop} (hS : Stays h P)
include hS

theorem fills : Fills h (fun _ => True) P := ⟨hS.toFrames, fun feed bar i o price _ _ _ _ _ hb => hS.book feed bar i o price hb⟩

theorem tryFillOrder (feed : DataFeed α) (bar : Row α) (i : Nat) (hb : P b) : P (b.tryFillOrder h feed bar i).2 :=
  hS.fills.tryFillOrder feed trivial i hb

theorem match' (feed : DataFeed α) (bar : Row α) {p : Pass α W} (i : Nat) (trail : Bool) (hp : P p.broker) :
    P (Pass.match' h feed bar p i trail).broker := hS.fills.match' feed trivial i trail hp

theorem visit (feeds : List (DataFeed α)) {p : Pass α W} (i : Nat) (hp : P p.broker) : P (Pass.visit h feeds p i).broker :=
  hS.fills.visit (fun _ _ _ _ => trivial) i hp

theorem processOrders (feeds : List (DataFeed α)) (hb : P b) : P (b.processOrders h feeds) :=
  hS.fills.processOrders (fun _ _ _ _ => trivial) hb

theorem step (op : Op α) (hb : P b) : P (b.step h op) := by
  cases op with
  | cmd c => exact hS.exec c hb
  | processOrders feeds => exact hS.processOrders feeds hb
  | setBarIndex k => exact hS.frame (b := b) (.of_eq rfl rfl rfl rfl rfl rfl rfl) rfl hb

end Stays

/-- What callbacks do not see and what booking a fill preserves. -/
structure Kept (P : BackBroker α W → Prop) : Prop where
  same : ∀ b b', SameBooks b b' → P b → P b'
  enter : ∀ b x dt, Booked b x → P b → P (b.enter x dt)

namespace Kept
variable {P : BackBroker α W → Prop}

theorem stays (hP : Kept P) (hh : Tame h) : Stays h P where
  frame hs _ hb := hP.same _ _ hs hb
  order o _ hb := hP.same _ _ (hh.order o _).quiet.books hb
  hook _ _ _ b hb := hP.same b _ (.of_eq rfl rfl rfl rfl rfl rfl rfl) hb
  book feed bar i o price b hb := by
    obtain ⟨x, b1, hx, hs, hs'⟩ := book_books hh feed bar b i o price
    exact hP.same _ _ hs' (hP.enter _ _ _ hx (hP.same _ _ hs hb))

/-- What the books preserve holds after every run. -/
theorem run (hP : Kept P) (hh : Tame h) (ops : List (Op α)) (hb : P b) : P (b.run h ops) :=
  Fold.foldl_ind P _ b hb fun _ op _ hb' => (hP.stays hh).step op hb'

end Kept

/-! ### Cash and positions are replayed from the fills -/

/-- The position of a data index, flat if there is none yet. -/
def holding (b : BackBroker α W) (k : Nat) : Position α :=
  (b.findPosition k).getD (Position.flat (b.instrumentMap k) k)

theorem position_size (b : BackBroker α W) (k : Nat) : (b.position k).size = (b.holding k).size := by
  unfold position holding
  cases b.findPosition k <;> rfl

theorem ensure_getD (im : Nat → Option (Instrument α)) (ps : List (Position α)) (k k' : Nat) :
    ((Position.ensure im ps k).find? (·.dataIndex == k')).getD (Position.flat (im k') k') =
      (ps.find? (·.dataIndex == k')).getD (Position.flat (im k') k') := by
  unfold Position.ensure
  cases hf : ps.find? (·.dataIndex == k) with
  | some p => rfl
  | none =>
    have hnone : ps.find? (·.dataIndex == (Position.flat (im k) k).dataIndex) = none := hf
    dsimp only
    rw [@Keyed.find?_append_singleton _ _ Position.dataIndex _ _ _ hnone]
    split
    · rename_i hk
      have hk : k' = k := hk
      subst hk
      rw [hf]; rfl
    · rfl

theorem find?_ensure (im : Nat → Option (Instrument α)) (ps : List (Position α)) (k : Nat) :
    (Position.ensure im ps k).find? (·.dataIndex == k) =
      some ((ps.find? (·.dataIndex == k)).getD (Position.flat (im k) k)) := by
  unfold Position.ensure
  cases hf : ps.find? (·.dataIndex == k) with
  | some p => simp [hf]
  | none => simp [hf, Position.flat]

/-- New flat positions are not held. -/
theorem holding_ensured (hs : b'.toBrokerSettings = b.toBrokerSettings)
    (hp : ∃ ks : List Nat, b'.positions = ks.foldl (Position.ensure b.instrumentMap) b.positions) (k : Nat) :
    b'.holding k = b.holding k := by
  obtain ⟨ks, hks⟩ := hp
  have him : b'.instrumentMap = b.instrumentMap := congrArg BrokerSettings.instrumentMap hs
  unfold BackBroker.holding findPosition
  rw [hks, him]
  exact Fold.foldl_ind (fun ps => (ps.find? (·.dataIndex == k)).getD (Position.flat (b.instrumentMap k) k) =
    (b.positions.find? (·.dataIndex == k)).getD (Position.flat (b.instrumentMap k) k)) ks b.positions rfl
    fun ps j _ hp => (ensure_getD _ ps j k).trans hp

theorem SameBooks.holding (h : SameBooks b b') (k : Nat) : b'.holding k = b.holding k :=
  holding_ensured h.settings h.positions k

/-- A fill moves the position of its data index only. -/
theorem holding_updatePosition (b : BackBroker α W) (k : Nat) (s p : α) (k' : Nat) :
    ((b.ensurePosition k).updatePosition k s p).holding k' =
      if k' = k then (b.holding k').update s p else b.holding k' := by
  show (((Position.ensure b.instrumentMap b.positions k).modify
      ((Position.ensure b.instrumentMap b.positions k).findIdx (·.dataIndex == k)) (·.update s p)).find?
      (·.dataIndex == k')).getD (Position.flat (b.instrumentMap k') k') = _
  rw [@Keyed.find?_modify_findIdx _ _ Position.dataIndex k (·.update s p)
    _ _ (fun p hp => (Position.dataIndex_update p _ _).trans hp)]
  split_ifs with hk
  · subst hk
    rw [find?_ensure]; rfl
  · exact ensure_getD _ _ _ _

/-- Without callbacks, `update_trades` touches the trades only. -/
theorem updateTrades_none (b : BackBroker α W) (k : Nat) (old s p c : α) (bar : Nat) (dt : DateTime) (cand : Nat) :
    ∃ n os cs, b.updateTrades Hooks.none k old s p c bar dt cand =
      { b with nextTradeId := n, openTrades := os, closedTrades := cs } := by
  unfold updateTrades
  dsimp only
  split_ifs
  · exact ⟨_, _, _, rfl⟩
  · exact ⟨_, _, _, rfl⟩
  · split
    · exact ⟨_, _, _, rfl⟩
    · split_ifs <;> exact ⟨_, _, _, rfl⟩

section
variable (b : BackBroker α W) (x : Execution α) (dt : DateTime)

theorem enter_settings : (b.enter x dt).toBrokerSettings = b.toBrokerSettings := by
  unfold enter
  dsimp only
  obtain ⟨n, os, cs, heq⟩ := updateTrades_none _ x.order.dataIndex _ x.size x.price x.commission _ dt x.order.candidateId
  rw [heq]; rfl

theorem enter_cash : (b.enter x dt).cash =
    fun c => if c = x.currency then b.cash c - (x.size * x.price + x.commission) else b.cash c := by
  unfold enter
  dsimp only
  obtain ⟨n, os, cs, heq⟩ := updateTrades_none _ x.order.dataIndex _ x.size x.price x.commission _ dt x.order.candidateId
  rw [heq]; rfl

theorem enter_executions : (b.enter x dt).executions = b.executions ++ [x] := by
  unfold enter
  dsimp only
  obtain ⟨n, os, cs, heq⟩ := updateTrades_none _ x.order.dataIndex _ x.size x.price x.commission _ dt x.order.candidateId
  rw [heq]
  exact List.filterMap_append ..

theorem enter_holding (k : Nat) : (b.enter x dt).holding k =
    if k = x.order.dataIndex then (b.holding k).update x.size x.price else b.holding k := by
  obtain ⟨n, os, cs, heq⟩ := updateTrades_none
    ((((b.pay x.currency (x.size * x.price + x.commission)).ensurePosition x.order.dataIndex).updatePosition
      x.order.dataIndex x.size x.price).note (.executed x)) x.order.dataIndex
    (((b.pay x.currency (x.size * x.price + x.commission)).ensurePosition x.order.dataIndex).position
      x.order.dataIndex).size x.size x.price x.commission b.dataBarIndex dt x.order.candidateId
  have heq : b.enter x dt = _ := heq
  rw [heq]
  exact holding_updatePosition (b.pay x.currency (x.size * x.price + x.commission)) x.order.dataIndex x.size x.price k

end

/-- The cash that fills leave. -/
def replayCash (cash : Currency → α) (xs : List (Execution α)) : Currency → α :=
  xs.foldl (fun cash x c => if c = x.currency then cash c - (x.size * x.price + x.commission) else cash c) cash

/-- The position that the fills of a data index leave. -/
def replayPosition (im : Nat → Option (Instrument α)) (k : Nat) (xs : List (Execution α)) : Position α :=
  (xs.filter (·.order.dataIndex == k)).foldl (fun p x => p.update x.size x.price) (Position.flat (im k) k)

/-- Cash and positions are what the fills make of `b₀`. -/
structure Replayed (b₀ b : BackBroker α W) : Prop where
  settings : b.toBrokerSettings = b₀.toBrokerSettings
  cash : b.cash = replayCash b₀.cash b.executions
  holding : ∀ k, b.holding k = replayPosition b₀.instrumentMap k b.executions

theorem kept_replayed (b₀ : BackBroker α W) : Kept (Replayed b₀) where
  same b b' hs h := ⟨hs.settings.trans h.settings, by rw [hs.cash, hs.executions, h.cash],
    fun k => by rw [hs.holding, hs.executions, h.holding]⟩
  enter b x dt _ h := by
    refine ⟨(b.enter_settings x dt).trans h.settings, ?_, fun k => ?_⟩
    · rw [enter_cash, enter_executions, replayCash, List.foldl_append, h.cash]; rfl
    · rw [enter_holding, enter_executions, replayPosition, List.filter_append, List.foldl_append, h.holding]
      by_cases hk : k = x.order.dataIndex
      · rw [if_pos hk]; simp [hk, replayPosition]
      · have hne : (x.order.dataIndex == k) = false := by simpa using fun he : x.order.dataIndex = k => hk he.symm
        rw [if_neg hk]; simp [hne, replayPosition]

theorem Replayed.of_fresh {b : BackBroker α W} (hf : b.Fresh) : Replayed b b := by
  have hx : b.executions = [] := by rw [executions, hf.journal]; rfl
  refine ⟨rfl, by rw [hx]; rfl, fun k => ?_⟩
  rw [hx, BackBroker.holding, findPosition, hf.positions]
  rfl

end BackBroker
end StratForge
