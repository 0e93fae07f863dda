import StratForge.Books
import StratForge.DeskPass

/-!
# What becomes of the pending orders

Commands, callbacks and fills push new orders behind the pending ones and change no more of these than what a
status change, a fill and the links of a bracket write: `core` is the rest. A relation that holds across such
changes (`Traces`, or `Tracks` where records and journal do not matter) holds across a command, across every callback
and across booking. `Lined` is one: what a function of the core reads stays in its place. `Grown` is another: what
comes behind is new. `Stamped` is a third: a submission is noted with the turn it is made in and the bars of its feed.
-/

namespace StratForge

variable {α W γ : Type}

/-- What a status change, a fill and the links of a bracket leave alone; the fields they write are overwritten. -/
def Order.core (o : Order α) : Order α :=
  { o with status := .Created, executedPrice := o.price, executedSize := o.size, commission := o.price, childIds := [],
           transmit := true }

namespace Order
variable {o o' : Order α}

@[simp] theorem core_setStatus (o : Order α) (s : OrderStatus) : (o.setStatus s).core = o.core := by
  unfold setStatus; split <;> rfl

@[simp] theorem core_execute (o : Order α) (p s c : α) : (o.execute p s c).core = o.core := by
  unfold execute; split <;> rfl

/-- Orders with one core match alike. -/
theorem Track.of_core (h : o'.core = o.core) : Track o o' := by
  have read : ∀ {β : Type} (g : Order α → β), (∀ o, g o.core = g o) → g o' = g o := fun g hg =>
    (hg o').symm.trans ((congrArg g h).trans (hg o))
  refine ⟨⟨?_, ?_, ?_, ?_, ?_, ?_, ?_, ?_, ?_, ?_, ?_, ?_⟩, ?_⟩ <;> exact read _ fun _ => rfl

end Order

namespace BackBroker

/-- A relation that holds across what commands, callbacks and fills do to the pending orders. -/
structure Tracks [Arith α] (R : BackBroker α W → BackBroker α W → Prop) : Prop where
  trans : ∀ {b b' b''}, R b b' → R b' b'' → R b b''
  same : ∀ {b b'}, b'.pendingOrders = b.pendingOrders → b'.nextOrderId = b.nextOrderId →
    b'.dataBarIndex = b.dataBarIndex → R b b'
  change : ∀ {b i f}, (∀ o, b.pendingOrders[i]? = some o → (f o).core = o.core) → R b (b.edit i f)
  changeAll : ∀ {b f}, (∀ o : Order α, (f o).core = o.core) → R b { b with pendingOrders := b.pendingOrders.map f }
  push : ∀ {b o}, o.id = b.nextOrderId → o.trailStopPrice = 0 → R b (b.pushOrder o)

/-- The callbacks keep the relation. -/
structure Tracked (h : Hooks α W) (R : BackBroker α W → BackBroker α W → Prop) : Prop where
  order : ∀ o b, R b (h.orderNotify o b)
  trade : ∀ t orig b, R b (h.tradeNotify t orig b)

/-- The brokers differ in nothing that is kept about orders. -/
structure SameOrders (b b' : BackBroker α W) : Prop where
  allOrders : b'.allOrders = b.allOrders
  pendingOrders : b'.pendingOrders = b.pendingOrders
  nextOrderId : b'.nextOrderId = b.nextOrderId
  dataBarIndex : b'.dataBarIndex = b.dataBarIndex
  turn : b'.turn = b.turn
  seen : b'.seen = b.seen
  journal : b'.journal = b.journal

/-- A relation that holds across what commands, callbacks and fills do to the orders, one write at a time. -/
structure Traces [Arith α] (R : BackBroker α W → BackBroker α W → Prop) : Prop where
  trans : ∀ {b b' b''}, R b b' → R b' b'' → R b b''
  same : ∀ {b b'}, SameOrders b b' → R b b'
  note : ∀ {b n}, (∀ o turn seen, n ≠ .submitted o turn seen) → R b (b.note n)
  change : ∀ {b i f}, (∀ o, b.pendingOrders[i]? = some o → (f o).core = o.core) → R b (b.edit i f)
  changeAll : ∀ {b f}, (∀ o : Order α, (f o).core = o.core) → R b { b with pendingOrders := b.pendingOrders.map f }
  file : ∀ {b} o, R b (b.syncOrder o)
  push : ∀ {b o}, o.id = b.nextOrderId → o.trailStopPrice = 0 → R b (b.pushOrder o)
  link : ∀ {b} id ids, R b (b.linkChildren id ids)

namespace Traces
variable [Arith α] {R : BackBroker α W → BackBroker α W → Prop} (hR : Traces R) {h : Hooks α W}
include hR

theorem refl (b : BackBroker α W) : R b b := hR.same ⟨rfl, rfl, rfl, rfl, rfl, rfl, rfl⟩

theorem world (b : BackBroker α W) (world : W) : R b { b with world } := hR.same ⟨rfl, rfl, rfl, rfl, rfl, rfl, rfl⟩

theorem sync (b : BackBroker α W) (i : Nat) : R b (b.sync i) := by
  unfold BackBroker.sync
  split
  exacts [hR.file _, hR.refl b]

theorem notify (hh : ∀ o b, R b (h.orderNotify o b)) (b : BackBroker α W) (i : Nat) : R b (BackBroker.notify h b i) := by
  unfold BackBroker.notify
  split
  exacts [hh _ _, hR.refl b]

theorem publish (hh : ∀ o b, R b (h.orderNotify o b)) (b : BackBroker α W) (i : Nat) {f : Order α → Order α}
    (hf : ∀ o, (f o).core = o.core) : R b (BackBroker.notify h ((b.edit i f).sync i) i) :=
  hR.trans (hR.trans (hR.change fun o _ => hf o) (hR.sync _ i)) (hR.notify hh _ i)

/-- Both cancelling loops. -/
theorem cancelPending (hh : ∀ o b, R b (h.orderNotify o b)) (p : Order α → Bool) (byUser : Bool) (b : BackBroker α W) :
    R b (b.cancelPending h p byUser) := by
  refine Fold.foldl_ind (R b) _ b (hR.refl b) fun b' i _ hb => hR.trans hb ?_
  unfold cancelAt
  split
  · dsimp only
    split
    · split
      · next o _ _ _ =>
        have hnote : R b' (b'.note (.cancelled o.id i b'.turn)) := hR.note fun _ _ _ h => by cases h
        exact hR.trans hnote (hR.publish hh _ i fun o => o.core_setStatus .Canceled)
      · exact hR.publish hh b' i fun o => o.core_setStatus .Canceled
    · exact hR.refl b'
  · exact hR.refl b'

theorem submitOrderExt (h : Hooks α W) (side : OrderSide) (size : α) (params : OrderParams α) (b : BackBroker α W) :
    R b (b.submitOrderExt h side size params).2 := by
  unfold BackBroker.submitOrderExt
  dsimp only
  split_ifs
  · exact hR.world b _
  · refine hR.trans (hR.world b (h.preOrderHook side size params.dataIndex b).2) (hR.push ?_ ?_)
    exacts [rfl, rfl]

theorem bracket (h : Hooks α W) (mainSide legSide : OrderSide) (size limitPrice stopPrice : α) (k : Nat)
    (b : BackBroker α W) : R b (b.bracket h mainSide legSide size limitPrice stopPrice k).2 := by
  have hgroup : R b { b with nextOcoGroupId := b.nextOcoGroupId + 1 } := hR.same ⟨rfl, rfl, rfl, rfl, rfl, rfl, rfl⟩
  unfold BackBroker.bracket submitOrder
  dsimp only
  refine hR.trans ?_ (hR.link _ _)
  refine hR.trans ?_ (hR.submitOrderExt h ..)
  refine hR.trans ?_ (hR.submitOrderExt h ..)
  exact hR.trans hgroup (hR.submitOrderExt h ..)

theorem exec (hh : ∀ o b, R b (h.orderNotify o b)) (c : Cmd α) (b : BackBroker α W) : R b (b.exec h c) := by
  cases c with
  | buy | sell | buyExt | sellExt => exact hR.submitOrderExt h ..
  | buyBracket | sellBracket => exact hR.bracket h ..
  | close k =>
    have hpos : R b (b.ensurePosition k) := hR.same ⟨rfl, rfl, rfl, rfl, rfl, rfl, rfl⟩
    show R b (b.close h k).2
    unfold BackBroker.close submitOrder
    dsimp only
    split_ifs
    exacts [hpos, hR.trans hpos (hR.submitOrderExt h ..), hR.trans hpos (hR.submitOrderExt h ..)]
  | cancelOrder id => exact hR.cancelPending hh _ _ b
  | nextOcoGroup => exact hR.same ⟨rfl, rfl, rfl, rfl, rfl, rfl, rfl⟩

theorem react (L : Listener α W) : ∀ n ev (b : BackBroker α W), R b (L.react n ev b)
  | 0, _, b => hR.refl b
  | n + 1, ev, b => by
    unfold Listener.react
    split
    · exact hR.world b _
    · next world c _ =>
      have hc := hR.exec (h := L.hooksOf (L.react n)) (fun o b => react L n (.order o) b) c { b with world }
      exact hR.trans (hR.world b world) (hR.trans hc (react L n ev _))

theorem tracked (L : Listener α W) (fuel : Nat) : Tracked (L.hooks fuel) R :=
  ⟨fun o b => hR.react L fuel (.order o) b, fun t orig b => hR.react L fuel (.trade t orig) b⟩

/-! ### Inside a pass -/

theorem release (b : BackBroker α W) (i : Nat) (o : Order α) : R b (Pass.release b i o) := by
  unfold Pass.release
  split_ifs
  exacts [hR.change fun _ _ => rfl, hR.refl b]

theorem submitAccept (hh : ∀ o b, R b (h.orderNotify o b)) (b : BackBroker α W) (i : Nat) (o : Order α) :
    R b (Pass.submitAccept h b i o) := by
  unfold Pass.submitAccept
  split_ifs
  · exact hR.trans (hR.publish hh _ i fun o => o.core_setStatus .Submitted)
      (hR.publish hh _ i fun o => o.core_setStatus .Accepted)
  · exact hR.refl b

theorem updateTrades (hk : Tracked h R) (b : BackBroker α W) (k : Nat) (old s p c : α) (bar : Nat) (dt : DateTime)
    (cand : Nat) : R b (b.updateTrades h k old s p c bar dt cand) := by
  have hopen : ∀ b : BackBroker α W, ∀ s p c, R b (b.openTrade k s p c bar dt cand) := fun b s p c =>
    hR.same ⟨rfl, rfl, rfl, rfl, rfl, rfl, rfl⟩
  have hretire : ∀ b : BackBroker α W, ∀ i t orig, R b (b.retireTrade h i t orig) := by
    intro b i t orig
    let b1 : BackBroker α W :=
      { b with openTrades := b.openTrades.set i (t, orig), closedTrades := b.closedTrades ++ [(t, orig)] }
    have h1 : R b b1 := hR.same ⟨rfl, rfl, rfl, rfl, rfl, rfl, rfl⟩
    exact hR.trans (hR.trans h1 (hk.trade t orig b1)) (hR.same ⟨rfl, rfl, rfl, rfl, rfl, rfl, rfl⟩)
  unfold BackBroker.updateTrades
  dsimp only
  split_ifs
  · exact hopen ..
  · exact hR.same ⟨rfl, rfl, rfl, rfl, rfl, rfl, rfl⟩
  · split
    · exact hR.refl b
    · split_ifs
      exacts [hR.trans (hretire ..) (hopen ..), hretire .., hR.same ⟨rfl, rfl, rfl, rfl, rfl, rfl, rfl⟩]

theorem book (hk : Tracked h R) (feed : DataFeed α) (bar : Row α) (b : BackBroker α W) (i : Nat) {o : Order α} (price : α)
    (ho : b.pendingOrders[i]? = some o) : R b (b.book h feed bar i o price) := by
  have hedit : R b (b.edit i fun _ => (b.fillOf feed o price).order) := hR.change fun o' ho' => by
    cases ho.symm.trans ho'
    exact o.core_execute _ _ _
  unfold BackBroker.book
  dsimp only
  refine hR.trans ?_ (hR.sync _ i)
  refine hR.trans ?_ (hR.updateTrades hk ..)
  refine hR.trans ?_ (hR.note fun _ _ _ h => by cases h)
  exact hR.trans hedit (hR.same ⟨rfl, rfl, rfl, rfl, rfl, rfl, rfl⟩)

theorem tryFillOrder (hk : Tracked h R) (feed : DataFeed α) (bar : Row α) (b : BackBroker α W) (i : Nat) :
    R b (b.tryFillOrder h feed bar i).2 := by
  unfold BackBroker.tryFillOrder
  split
  · exact hR.refl b
  · next o ho =>
    have hset : ∀ s, R b ((b.edit i fun o => o.setStatus s).sync i) := fun s =>
      hR.trans (hR.change fun o _ => o.core_setStatus s) (hR.sync _ i)
    split
    · exact hR.refl b
    · exact hset .Rejected
    · split_ifs
      exacts [hR.book hk feed bar b i _ ho, hset .Margin]

theorem afterFill (hk : Tracked h R) (p : Pass α W) (i : Nat) : R p.broker (Pass.afterFill h p i).broker := by
  have hn := hR.notify hk.order p.broker i
  have hactivate : ∀ (b : BackBroker α W) id, R b (b.activateBracketChildren id) := fun b id =>
    hR.changeAll fun o => by split <;> rfl
  unfold Pass.afterFill
  dsimp only
  split
  · exact hn
  · split_ifs <;>
      first
        | exact hn
        | exact hR.trans hn (hactivate _ _)
        | exact hR.trans (hR.trans hn (hactivate _ _)) (hR.cancelPending hk.order _ _ _)
        | exact hR.trans hn (hR.cancelPending hk.order _ _ _)

/-- The level that follows the bar is the one thing a turn writes into the core. -/
theorem visit (hk : Tracked h R) {i : Nat} (htrail : ∀ b bar, R b (updateTrailStop bar b i)) (feeds : List (DataFeed α))
    (p : Pass α W) (hturn : R p.broker { p.broker with turn := i + 1 }) : R p.broker (Pass.visit h feeds p i).broker := by
  have hrel : ∀ e, R p.broker (Pass.release { p.broker with turn := i + 1 } i e) := fun e =>
    hR.trans hturn (hR.release _ i e)
  unfold Pass.visit
  dsimp only
  split
  · exact hturn
  · next e he =>
    split
    · exact hturn
    · split
      · rw [keep_broker]; exact hturn
      · split
        · exact hR.trans (hrel e) (hR.publish hk.order _ i fun o => o.core_setStatus .Rejected)
        · split
          · rw [keep_broker]; exact hrel e
          · next feed _ _ bar _ =>
            split
            · exact hR.trans (hrel e) (hR.publish hk.order _ i fun o => o.core_setStatus .Expired)
            · have hsub := hR.trans (hrel e) (hR.submitAccept hk.order _ i e)
              have htry := hR.trans hsub (hR.tryFillOrder hk feed bar _ i)
              unfold Pass.match'
              dsimp only
              split_ifs
              · exact hR.trans htry (hR.afterFill hk { p with broker := _ } i)
              · rw [keep_broker]; exact hR.trans htry (htrail _ bar)
              · rw [keep_broker]; exact htry

theorem cancelOcoSiblings (hk : Tracked h R) (p : Pass α W) : R p.broker (Pass.cancelOcoSiblings h p).broker := by
  unfold Pass.cancelOcoSiblings
  split_ifs
  · exact hR.refl _
  · refine Fold.foldl_ind (fun q : Pass α W => R p.broker q.broker) _ p (hR.refl _) fun q j _ hq => ?_
    unfold Pass.cancelOco
    split
    · exact hq
    · dsimp only
      split_ifs
      exacts [hR.trans (hR.trans hq (hR.file _)) (hk.order _ _), hq]

end Traces

namespace Tracks
variable [Arith α] {R : BackBroker α W → BackBroker α W → Prop} (hR : Tracks R) {h : Hooks α W}
include hR

theorem traces : Traces R where
  trans := hR.trans
  same hs := hR.same hs.pendingOrders hs.nextOrderId hs.dataBarIndex
  note _ := hR.same rfl rfl rfl
  change := hR.change
  changeAll := hR.changeAll
  file _ := hR.same rfl rfl rfl
  push := hR.push
  link {b} id ids := hR.trans (hR.change (i := b.pendingOrders.findIdx fun o => o.id == id)
    (f := fun o => { o with childIds := ids }) fun _ _ => rfl) (hR.same rfl rfl rfl)

theorem exec (hh : ∀ o b, R b (h.orderNotify o b)) (c : Cmd α) (b : BackBroker α W) : R b (b.exec h c) :=
  hR.traces.exec hh c b

theorem react (L : Listener α W) (n : Nat) (ev : Event α) (b : BackBroker α W) : R b (L.react n ev b) :=
  hR.traces.react L n ev b

theorem tracked (L : Listener α W) (fuel : Nat) : Tracked (L.hooks fuel) R := hR.traces.tracked L fuel

theorem release (b : BackBroker α W) (i : Nat) (o : Order α) : R b (Pass.release b i o) := hR.traces.release b i o

theorem submitAccept (hh : ∀ o b, R b (h.orderNotify o b)) (b : BackBroker α W) (i : Nat) (o : Order α) :
    R b (Pass.submitAccept h b i o) := hR.traces.submitAccept hh b i o

theorem visit (hk : Tracked h R) {i : Nat} (htrail : ∀ b bar, R b (updateTrailStop bar b i)) (feeds : List (DataFeed α))
    (p : Pass α W) : R p.broker (Pass.visit h feeds p i).broker :=
  hR.traces.visit hk htrail feeds p (hR.same rfl rfl rfl)

end Tracks

/-! ### Places -/

/-- The pending orders keep their places and what `π` reads off them; new ones come behind. -/
def Lined (π : Order α → γ) (b b' : BackBroker α W) : Prop := b.pendingOrders.map π <+: b'.pendingOrders.map π

namespace Lined
variable {π : Order α → γ} {b b' : BackBroker α W}

theorem get? (h : Lined π b b') {i : Nat} {o : Order α} (ho : b.pendingOrders[i]? = some o) :
    ∃ o', b'.pendingOrders[i]? = some o' ∧ π o' = π o := by
  have hi : (b.pendingOrders.map π)[i]? = some (π o) := by simp [ho]
  obtain ⟨l, hl⟩ := h
  have hi' : (b'.pendingOrders.map π)[i]? = some (π o) := by
    rw [← hl, List.getElem?_append_left (List.getElem?_eq_some_iff.1 hi).1, hi]
  rw [List.getElem?_map] at hi'
  exact Option.map_eq_some_iff.1 hi'

theorem get (h : Lined π b b') {i : Nat} {o o' : Order α} (ho : b.pendingOrders[i]? = some o)
    (ho' : b'.pendingOrders[i]? = some o') : π o' = π o := by
  obtain ⟨o'', ho'', heq⟩ := h.get? ho
  rw [ho'] at ho''
  cases ho''
  exact heq

theorem length_le (h : Lined π b b') : b.pendingOrders.length ≤ b'.pendingOrders.length := by
  simpa using List.IsPrefix.length_le h

end Lined

theorem lined_tracks [Arith α] {π : Order α → γ} (hπ : ∀ o o' : Order α, o'.core = o.core → π o' = π o) :
    Tracks (W := W) (Lined π) where
  trans := List.IsPrefix.trans
  same heq _ _ := by rw [Lined, heq]
  change {b i f} hf := by
    have : (b.pendingOrders.modify i f).map π = b.pendingOrders.map π := by
      refine List.ext_getElem (by simp) fun j h1 h2 => ?_
      have hj : j < b.pendingOrders.length := by simpa using h2
      simp only [List.getElem_map, List.getElem_modify]
      split_ifs with hij
      · subst hij
        exact hπ _ _ (hf _ (List.getElem?_eq_getElem hj))
      · rfl
    show b.pendingOrders.map π <+: (b.pendingOrders.modify i f).map π
    rw [this]
  changeAll {b f} hf := by
    show b.pendingOrders.map π <+: (b.pendingOrders.map f).map π
    rw [List.map_map]
    exact (List.map_congr_left fun o _ => hπ o (f o) (hf o)) ▸ List.prefix_rfl
  push {b o} _ _ := by
    show b.pendingOrders.map π <+: (b.pendingOrders ++ [o]).map π
    rw [List.map_append]
    exact List.prefix_append ..

/-- The pending orders keep their places and their cores, and what comes behind them has a new id and trails nothing
yet. -/
structure Grown [Arith α] (b b' : BackBroker α W) : Prop where
  lined : Lined Order.core b b'
  next : b.nextOrderId ≤ b'.nextOrderId
  fresh : ∀ j o, b.pendingOrders.length ≤ j → b'.pendingOrders[j]? = some o → b.nextOrderId ≤ o.id ∧ o.trailStopPrice = 0

theorem grown_tracks [Arith α] : Tracks (α := α) (W := W) Grown := by
  have hL : Tracks (α := α) (W := W) (Lined Order.core) := lined_tracks fun _ _ h => h
  have hnone : ∀ {l : List (Order α)} {n j : Nat} {o : Order α}, l.length = n → n ≤ j → l[j]? ≠ some o := by
    intro l n j o hl hj h
    have := (List.getElem?_eq_some_iff.1 h).1
    omega
  refine ⟨fun {b b' b''} h h' => ⟨hL.trans h.lined h'.lined, h.next.trans h'.next, fun j o hj ho => ?_⟩,
    fun heq hnext hclock => ⟨hL.same heq hnext hclock, hnext.ge, fun j o hj ho => absurd ho (hnone (by rw [heq]) hj)⟩,
    fun {b i f} hf => ⟨hL.change hf, le_rfl, fun j o hj ho => absurd ho (hnone (List.length_modify ..) hj)⟩,
    fun {b f} hf => ⟨hL.changeAll hf, le_rfl, fun j o hj ho => absurd ho (hnone (List.length_map ..) hj)⟩,
    fun {b o} hid htrail => ⟨hL.push hid htrail, Nat.le_succ _, fun j o' hj ho => ?_⟩⟩
  · -- it came in the first part or in the second
    by_cases hj' : b'.pendingOrders.length ≤ j
    · obtain ⟨hid, htrail⟩ := h'.fresh j o hj' ho
      exact ⟨h.next.trans hid, htrail⟩
    · have hget : b'.pendingOrders[j]? = some _ := List.getElem?_eq_getElem (Nat.lt_of_not_le hj')
      obtain ⟨hid, htrail⟩ := h.fresh j _ hj hget
      have ht : Order.Track _ o := .of_core (h'.lined.get hget ho)
      exact ⟨ht.id ▸ hid, ht.trailStopPrice.trans htrail⟩
  · have hpush : (b.pushOrder o).pendingOrders = b.pendingOrders ++ [o] := rfl
    rw [hpush, List.getElem?_append_right hj, List.getElem?_singleton] at ho
    split_ifs at ho
    cases ho
    exact ⟨hid.ge, htrail⟩

/-! ### Submissions -/

/-- What is submitted is noted with the turn and with the bars its feed has delivered. -/
structure Stamped (b b' : BackBroker α W) : Prop where
  turn : b'.turn = b.turn
  seen : b'.seen = b.seen
  journal : ∃ ns, b'.journal = b.journal ++ ns ∧
    ∀ o turn seen, .submitted o turn seen ∈ ns → turn = b.turn ∧ seen = b.seen o.dataIndex

namespace Stamped
variable {b b' b'' : BackBroker α W}

theorem of_eq (hturn : b'.turn = b.turn) (hseen : b'.seen = b.seen) (hjournal : b'.journal = b.journal) : Stamped b b' :=
  ⟨hturn, hseen, [], by rw [hjournal, List.append_nil], fun _ _ _ h => absurd h List.not_mem_nil⟩

theorem trans (h : Stamped b b') (h' : Stamped b' b'') : Stamped b b'' := by
  obtain ⟨ns, hns, hall⟩ := h.journal
  obtain ⟨ns', hns', hall'⟩ := h'.journal
  refine ⟨h'.turn.trans h.turn, h'.seen.trans h.seen, ns ++ ns', by rw [hns', hns, List.append_assoc], fun o turn seen ho => ?_⟩
  rcases List.mem_append.1 ho with ho | ho
  · exact hall o turn seen ho
  · rw [← h.turn, ← h.seen]
    exact hall' o turn seen ho

end Stamped

theorem stamped_traces [Arith α] : Traces (α := α) (W := W) Stamped where
  trans := Stamped.trans
  same hs := .of_eq hs.turn hs.seen hs.journal
  note {b n} hn := ⟨rfl, rfl, [n], rfl, fun o turn seen ho => absurd (List.mem_singleton.1 ho).symm (hn o turn seen)⟩
  change _ := .of_eq rfl rfl rfl
  changeAll _ := .of_eq rfl rfl rfl
  file {b} o := ⟨rfl, rfl, [.recorded o], rfl, fun _ _ _ ho => nomatch List.mem_singleton.1 ho⟩
  push {b o} _ _ := by
    refine ⟨rfl, rfl, [.submitted o b.turn (b.seen o.dataIndex)], rfl, fun o' turn seen ho => ?_⟩
    cases List.mem_singleton.1 ho
    exact ⟨rfl, rfl⟩
  link _ _ := .of_eq rfl rfl rfl

theorem updateTrailStop_stamped [Arith α] (b : BackBroker α W) (bar : Row α) (i : Nat) :
    Stamped b (updateTrailStop bar b i) := by
  unfold updateTrailStop
  split
  · exact stamped_traces.refl b
  · split
    · exact stamped_traces.refl b
    · next level _ =>
      have hedit : Stamped b (b.edit i ({ · with trailStopPrice := level })) := .of_eq rfl rfl rfl
      exact hedit.trans (stamped_traces.sync _ i)

/-- A submission during a pass is noted with a turn of it, and no feed moves during a pass. -/
theorem processOrders_stamped [Arith α] {h : Hooks α W} (hk : Tracked h Stamped) (feeds : List (DataFeed α))
    (b : BackBroker α W) : (b.processOrders h feeds).seen = b.seen ∧ ∃ ns, (b.processOrders h feeds).journal = b.journal ++ ns ∧
      ∀ o turn seen, .submitted o turn seen ∈ ns → 0 < turn ∧ seen = b.seen o.dataIndex := by
  let P (q : BackBroker α W) : Prop := q.seen = b.seen ∧ ∃ ns, q.journal = b.journal ++ ns ∧
    ∀ o turn seen, .submitted o turn seen ∈ ns → 0 < turn ∧ seen = b.seen o.dataIndex
  have hstep : ∀ {q q' : BackBroker α W}, P q → Stamped q q' → 0 < q.turn → P q' := by
    intro q q' ⟨hseen, ns, hns, hall⟩ hs hturn
    obtain ⟨ns', hns', hall'⟩ := hs.journal
    refine ⟨hs.seen.trans hseen, ns ++ ns', by rw [hns', hns, List.append_assoc], fun o turn seen ho => ?_⟩
    rcases List.mem_append.1 ho with ho | ho
    · exact hall o turn seen ho
    · obtain ⟨rfl, rfl⟩ := hall' o turn seen ho
      exact ⟨hturn, congrFun hseen _⟩
  have hvisit : ∀ i (p : Pass α W), P p.broker → P (Pass.visit h feeds p i).broker ∧ 0 < (Pass.visit h feeds p i).broker.turn := by
    intro i p hp
    let q : Pass α W := { p with broker := { p.broker with turn := i + 1 } }
    have hs : Stamped q.broker (Pass.visit h feeds p i).broker :=
      stamped_traces.visit hk (fun b bar => updateTrailStop_stamped b bar i) feeds q (stamped_traces.refl _)
    have hq : P q.broker := hp
    exact ⟨hstep hq hs (Nat.succ_pos i), hs.turn ▸ Nat.succ_pos i⟩
  obtain ⟨hp, hlate⟩ := @Fold.range_ind _ b.pendingOrders.length (Pass.visit h feeds) ({ broker := b } : Pass α W)
    (fun _ p => P p.broker ∧ (p.filledOcoGroups.isEmpty = true ∨ 0 < p.broker.turn))
    ⟨⟨rfl, [], (List.append_nil _).symm, fun _ _ _ h => absurd h List.not_mem_nil⟩, .inl rfl⟩
    fun i p _ hp => ⟨(hvisit i p hp.1).1, .inr (hvisit i p hp.1).2⟩
  show P (Pass.cancelOcoSiblings h (b.passAt h feeds b.pendingOrders.length)).broker
  change P (b.passAt h feeds b.pendingOrders.length).broker at hp
  change (b.passAt h feeds b.pendingOrders.length).filledOcoGroups.isEmpty = true ∨
    0 < (b.passAt h feeds b.pendingOrders.length).broker.turn at hlate
  generalize b.passAt h feeds b.pendingOrders.length = p at hp hlate ⊢
  rcases hlate with hempty | hturn
  · unfold Pass.cancelOcoSiblings
    rw [if_pos hempty]
    exact hp
  · exact hstep hp (stamped_traces.cancelOcoSiblings hk p) hturn

end BackBroker

end StratForge
