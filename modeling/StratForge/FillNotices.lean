import StratForge.Books
import StratForge.Lined
import StratForge.Settling
import StratForge.Turns

/-!
# What the order callback is told of fills

An order at hand that a bar fills is told of once, when its fill is on the books. In between the trade callback runs, and
what it cancels is told of too, but never as completed (`exec_muted`), and an order that is done keeps what is told of it
(`StayDone`). So what the callbacks make of the list of fills, one by one, holds after every pass and every command
(`FillsTold.processOrders`). A fill of an order that a callback has cancelled at hand is on the books and told of as
cancelled.
-/

namespace StratForge

variable {α W : Type}

/-- What the notification of an order tells of its fill. -/
def Order.filling (o : Order α) : OrderStatus × OrderSide × Nat × α × α :=
  (o.status, o.side, o.dataIndex, o.executedPrice, o.executedSize)

/-- The order later on: when it is done it tells the same, and it is not filled. -/
structure Order.Settles (o o' : Order α) : Prop where
  done : o.isAlive = false → o'.filling = o.filling
  unfilled : o'.status = .Completed → o.status = .Completed

namespace Order
variable {o o' o'' : Order α}

theorem status_eq_of_filling (h : o'.filling = o.filling) : o'.status = o.status := congrArg Prod.fst h

theorem Settles.refl (o : Order α) : Settles o o := ⟨fun _ => rfl, fun h => h⟩

theorem Settles.trans (h : Settles o o') (h' : Settles o' o'') : Settles o o'' where
  done hdone := by
    have heq := h.done hdone
    refine (h'.done ?_).trans heq
    rw [isAlive, status_eq_of_filling heq]
    exact hdone
  unfilled hstatus := h.unfilled (h'.unfilled hstatus)

theorem settles_setStatus (o : Order α) {s : OrderStatus} (hs : s ≠ .Completed) : Settles o (o.setStatus s) := by
  unfold setStatus
  split_ifs with halive
  · exact ⟨fun hdone => absurd (halive.symm.trans hdone) (by simp), fun h => absurd h hs⟩
  · exact .refl o

theorem settles_of_filling (h : o'.filling = o.filling) : Settles o o' :=
  ⟨fun _ => h, fun hstatus => (status_eq_of_filling h).symm.trans hstatus⟩

end Order

/-- The callbacks, deaf to completed orders. -/
def Hooks.muted (h : Hooks α W) : Hooks α W :=
  { h with orderNotify := fun o b => if o.status = .Completed then b else h.orderNotify o b }

namespace BackBroker
variable {b b' b'' : BackBroker α W} {h : Hooks α W}

/-- The pending orders keep their places, those that are done what is told of them, and none is filled. -/
structure StayDone (b b' : BackBroker α W) : Prop where
  place : ∀ (i : Nat) (o : Order α), b.pendingOrders[i]? = some o →
    ∃ o' : Order α, b'.pendingOrders[i]? = some o' ∧ o.Settles o'

namespace StayDone

theorem same (hp : b'.pendingOrders = b.pendingOrders) : StayDone b b' :=
  ⟨fun _ o ho => ⟨o, hp ▸ ho, .refl o⟩⟩

theorem refl (b : BackBroker α W) : StayDone b b := .same rfl

theorem trans (h : StayDone b b') (h' : StayDone b' b'') : StayDone b b'' := by
  refine ⟨fun i o ho => ?_⟩
  obtain ⟨o', ho', hs⟩ := h.place i o ho
  obtain ⟨o'', ho'', hs'⟩ := h'.place i o' ho'
  exact ⟨o'', ho'', hs.trans hs'⟩

theorem edit (b : BackBroker α W) (i : Nat) {f : Order α → Order α} (hf : ∀ o : Order α, o.Settles (f o)) :
    StayDone b (b.edit i f) := by
  refine ⟨fun j o ho => ?_⟩
  rw [pendingOrders_edit, List.getElem?_modify, ho]
  refine ⟨_, rfl, ?_⟩
  split_ifs
  exacts [hf o, .refl o]

theorem pushOrder (b : BackBroker α W) (o : Order α) : StayDone b (b.pushOrder o) := by
  refine ⟨fun i e he => ⟨e, ?_, .refl e⟩⟩
  show (b.pendingOrders ++ [o])[i]? = some e
  rw [List.getElem?_append_left (List.getElem?_eq_some_iff.1 he).1, he]

theorem linkChildren (b : BackBroker α W) (id : Nat) (ids : List Nat) : StayDone b (b.linkChildren id ids) := by
  refine ⟨fun i o ho => ?_⟩
  show ∃ o', (modifyById id (fun o => { o with childIds := ids }) b.pendingOrders)[i]? = some o' ∧ o.Settles o'
  unfold modifyById
  rw [List.getElem?_modify, ho]
  refine ⟨_, rfl, ?_⟩
  split_ifs
  exacts [Order.settles_of_filling rfl, .refl o]

theorem sync (b : BackBroker α W) (i : Nat) : StayDone b (b.sync i) := .same (pendingOrders_sync b i)

section
variable (hh : ∀ o b, StayDone b (h.orderNotify o b))
include hh

theorem notify (b : BackBroker α W) (i : Nat) : StayDone b (BackBroker.notify h b i) := by
  unfold BackBroker.notify
  split
  exacts [hh _ _, .refl b]

theorem publish (b : BackBroker α W) (i : Nat) {s : OrderStatus} (hs : s ≠ .Completed) :
    StayDone b (BackBroker.notify h ((b.edit i fun o => o.setStatus s).sync i) i) :=
  ((edit b i fun o => Order.settles_setStatus o hs).trans (sync _ i)).trans (notify hh _ i)

theorem cancelPending (p : Order α → Bool) (byUser : Bool) (b : BackBroker α W) : StayDone b (b.cancelPending h p byUser) := by
  refine Fold.foldl_ind (StayDone b) _ b (.refl b) fun b' i _ hb => hb.trans ?_
  unfold cancelAt
  split
  · split_ifs
    · rename_i o _ _ _
      have hnote : StayDone b' (b'.note (.cancelled o.id i b'.turn)) := .same rfl
      exact hnote.trans (publish hh _ i (s := .Canceled) (by simp))
    · exact publish hh b' i (s := .Canceled) (by simp)
    · exact .refl b'
  · exact .refl b'

theorem exec [Arith α] (c : Cmd α) (b : BackBroker α W) : StayDone b (b.exec h c) := by
  have hsubmit : ∀ side size params (b : BackBroker α W), StayDone b (b.submitOrderExt h side size params).2 := by
    intro side size params b
    unfold submitOrderExt
    dsimp only
    split_ifs
    · exact .same rfl
    · have hworld : StayDone b { b with world := (h.preOrderHook side size params.dataIndex b).2 } := .same rfl
      exact hworld.trans (pushOrder _ _)
  have hbracket : ∀ mainSide legSide size limitPrice stopPrice k,
      StayDone b (b.bracket h mainSide legSide size limitPrice stopPrice k).2 := by
    intro mainSide legSide size limitPrice stopPrice k
    have hgroup : StayDone b { b with nextOcoGroupId := b.nextOcoGroupId + 1 } := .same rfl
    unfold bracket submitOrder
    exact (((hgroup.trans (hsubmit ..)).trans (hsubmit ..)).trans (hsubmit ..)).trans (linkChildren _ _ _)
  cases c with
  | buy | sell | buyExt | sellExt => exact hsubmit ..
  | buyBracket | sellBracket => exact hbracket ..
  | close k =>
    have hpos : StayDone b (b.ensurePosition k) := .same rfl
    show StayDone b (b.close h k).2
    unfold close submitOrder
    dsimp only
    split_ifs
    exacts [hpos, hpos.trans (hsubmit ..), hpos.trans (hsubmit ..)]
  | cancelOrder id => exact cancelPending hh ..
  | nextOcoGroup => exact .same rfl

end

/-- The callbacks of a listener settle, by induction on their bound. -/
theorem react [Arith α] (L : Listener α W) : ∀ n ev (b : BackBroker α W), StayDone b (L.react n ev b)
  | 0, _, b => .refl b
  | n + 1, ev, b => by
    unfold Listener.react
    split
    · exact .same rfl
    · rename_i world c _
      have hc := exec (h := L.hooksOf (L.react n)) (fun o b => react L n (.order o) b) c { b with world }
      have hworld : StayDone b { b with world } := .same rfl
      exact (hworld.trans hc).trans (react L n ev _)

theorem release (b : BackBroker α W) (i : Nat) (o : Order α) : StayDone b (Pass.release b i o) := by
  unfold Pass.release
  split_ifs
  exacts [edit b i fun _ => Order.settles_of_filling rfl, .refl b]

theorem submitAccept (hh : ∀ o b, StayDone b (h.orderNotify o b)) (b : BackBroker α W) (i : Nat) (o : Order α) :
    StayDone b (Pass.submitAccept h b i o) := by
  unfold Pass.submitAccept
  split_ifs
  exacts [(publish hh b i (s := .Submitted) (by simp)).trans (publish hh _ i (s := .Accepted) (by simp)), .refl b]

/-- What is booked of the trades leaves the pending orders to the callback. -/
theorem updateTrades [Arith α] (hh : ∀ t s b, StayDone b (h.tradeNotify t s b)) (b : BackBroker α W) (k : Nat)
    (old s p c : α) (bar : Nat) (dt : DateTime) (cand : Nat) : StayDone b (b.updateTrades h k old s p c bar dt cand) := by
  have hopen : ∀ (b : BackBroker α W) s c, StayDone b (b.openTrade k s p c bar dt cand) := fun b s c => .same rfl
  have hretire : ∀ (b : BackBroker α W) i t orig, StayDone b (b.retireTrade h i t orig) := by
    intro b i t orig
    let b1 : BackBroker α W :=
      { b with openTrades := b.openTrades.set i (t, orig), closedTrades := b.closedTrades ++ [(t, orig)] }
    have hclosed : StayDone b b1 := .same rfl
    exact (hclosed.trans (hh t orig b1)).trans (.same rfl)
  unfold BackBroker.updateTrades
  dsimp only
  split_ifs
  · exact hopen ..
  · exact .same rfl
  · split
    · exact .refl b
    · split_ifs
      exacts [(hretire ..).trans (hopen ..), hretire .., .same rfl]

/-- The order at hand, when its fill is on the books. -/
theorem book [Arith α] (hh : ∀ t s b, StayDone b (h.tradeNotify t s b)) (feed : DataFeed α) (bar : Row α) {i : Nat}
    {o : Order α} (price : α) (ho : b.pendingOrders[i]? = some o) :
    ∃ o', (b.book h feed bar i o price).pendingOrders[i]? = some o' ∧
      (b.fillOf feed o price).order.Settles o' := by
  let b1 : BackBroker α W := b.edit i fun _ => (b.fillOf feed o price).order
  have hfilled : b1.pendingOrders[i]? = some (b.fillOf feed o price).order := by
    show (b.pendingOrders.modify i _)[i]? = _
    rw [List.getElem?_modify_eq, ho]
    rfl
  have hpaid : StayDone b1 (((b1.pay (b.settleCcy o.dataIndex)
      (o.signedSize * price + b.fillCommission o price)).ensurePosition o.dataIndex).updatePosition o.dataIndex o.signedSize
        price) :=
    .same rfl
  have hsettled : StayDone b1 (b.book h feed bar i o price) := by
    unfold BackBroker.book
    dsimp only
    refine StayDone.trans ?_ (sync _ i)
    refine StayDone.trans ?_ (updateTrades hh ..)
    exact hpaid.trans (.same rfl)
  exact hsettled.place i _ hfilled

end StayDone

/-- What the order and the trade callback do to the pending orders. -/
structure Staying (h : Hooks α W) : Prop where
  order : ∀ o b, StayDone b (h.orderNotify o b)
  trade : ∀ t s b, StayDone b (h.tradeNotify t s b)

theorem staying_hooks [Arith α] (L : Listener α W) (fuel : Nat) : Staying (L.hooks fuel) :=
  ⟨fun o => StayDone.react L fuel (.order o), fun t s => StayDone.react L fuel (.trade t s)⟩

/-! ### The fills and what is captured -/

/-- What holds of the fills of a bar and of what is captured: a callback on an order that is completed takes it over the
fill, and the other callbacks keep it. -/
structure FillsTold (h : Hooks α W) (bar : Nat) (Q : List (Execution α) → W → Prop) : Prop where
  quiet : ∀ {xs} (o : Order α) (b : BackBroker α W), o.status ≠ .Completed → Q xs b.world → Q xs (h.orderNotify o b).world
  filled : ∀ {xs} (x : Execution α) (o : Order α) (b : BackBroker α W), x.barIndex = bar → x.order.status = .Completed →
    o.filling = x.order.filling → Q xs b.world → Q (xs ++ [x]) (h.orderNotify o b).world
  unheard : ∀ {xs} (x : Execution α) {w}, x.barIndex = bar → x.order.status ≠ .Completed → Q xs w → Q (xs ++ [x]) w
  trade : ∀ {xs} t s (b : BackBroker α W), Q xs b.world → Q xs (h.tradeNotify t s b).world
  hook : ∀ {xs} side size k (b : BackBroker α W), Q xs b.world → Q xs (h.preOrderHook side size k b).2

/-- The fills of a broker and what it has captured. -/
def OnBooks (Q : List (Execution α) → W → Prop) (b : BackBroker α W) : Prop := Q b.executions b.world

theorem tracked_clock [Arith α] (hh : Tame h) : Tracked h fun b b' : BackBroker α W => b'.dataBarIndex = b.dataBarIndex :=
  ⟨fun o b => (hh.order o b).quiet.dataBarIndex, fun t s b => (hh.trade t s b).quiet.dataBarIndex⟩

theorem processOrders_clock [Arith α] (hh : Tame h) (feeds : List (DataFeed α)) (b : BackBroker α W) :
    (b.processOrders h feeds).dataBarIndex = b.dataBarIndex :=
  (clock_tracks.traces.cancelOcoSiblings (tracked_clock hh) _).trans (passAt_clock (tracked_clock hh) feeds b _)

/-! ### Notifications that tell of no fill -/

section
variable [Arith α]

theorem tame_muted (hh : Tame h) : Tame h.muted where
  order o b := by
    show Reach b (if o.status = .Completed then b else h.orderNotify o b)
    split_ifs
    exacts [.refl b, hh.order o b]
  trade := hh.trade

omit [Arith α] in
theorem notify_muted {i : Nat} (hi : ∀ o, b.pendingOrders[i]? = some o → o.status ≠ .Completed) :
    notify h b i = notify h.muted b i := by
  unfold notify
  cases ho : b.pendingOrders[i]? with
  | none => rfl
  | some o => exact (if_neg (hi o ho)).symm

omit [Arith α] in
/-- A status that is written is told of, unless the order was done before. -/
theorem publish_muted {i : Nat} {s : OrderStatus} (hs : s ≠ .Completed)
    (hi : ∀ o, b.pendingOrders[i]? = some o → o.status ≠ .Completed) :
    notify h ((b.edit i fun o => o.setStatus s).sync i) i = notify h.muted ((b.edit i fun o => o.setStatus s).sync i) i := by
  refine notify_muted fun o' ho' => ?_
  rw [pendingOrders_sync, pendingOrders_edit, List.getElem?_modify_eq] at ho'
  cases ho : b.pendingOrders[i]? with
  | none =>
    rw [ho] at ho'
    cases ho'
  | some o =>
    rw [ho] at ho'
    cases ho'
    exact fun hstatus => hi o ho ((Order.settles_setStatus o hs).unfilled hstatus)

omit [Arith α] in
theorem cancelAt_muted (p : Order α → Bool) (byUser : Bool) (b : BackBroker α W) (i : Nat) :
    b.cancelAt h p byUser i = b.cancelAt h.muted p byUser i := by
  unfold cancelAt
  cases ho : b.pendingOrders[i]? with
  | none => rfl
  | some o =>
    dsimp only
    by_cases hp : (p o && o.isAlive) = true
    · have halive : o.isAlive = true := (Bool.and_eq_true _ _ ▸ hp).2
      have hstatus : o.status ≠ .Completed := fun h => by simp [Order.isAlive, h, OrderStatus.isAlive] at halive
      have hi : ∀ e, b.pendingOrders[i]? = some e → e.status ≠ .Completed := fun e he => by
        cases ho.symm.trans he
        exact hstatus
      rw [if_pos hp, if_pos hp]
      split_ifs
      exacts [publish_muted (s := .Canceled) (by simp) hi, publish_muted (s := .Canceled) (by simp) hi]
    · rw [if_neg hp, if_neg hp]

omit [Arith α] in
theorem cancelPending_muted (p : Order α → Bool) (byUser : Bool) (b : BackBroker α W) :
    b.cancelPending h p byUser = b.cancelPending h.muted p byUser := by
  unfold cancelPending
  rw [funext₂ (cancelAt_muted (h := h) p byUser)]

/-- No command fills an order. -/
theorem exec_muted (c : Cmd α) (b : BackBroker α W) : b.exec h c = b.exec h.muted c := by
  cases c with
  | cancelOrder id => exact cancelPending_muted ..
  | _ => rfl

end

namespace FillsTold
variable [Arith α] {n : Nat} {Q : List (Execution α) → W → Prop} (hT : FillsTold h n Q) (hh : Tame h) (hs : Staying h)
include hT hh

theorem frames : Frames h.muted (OnBooks Q) where
  frame hs hw hQ := by
    unfold OnBooks
    rw [hs.executions, hw]
    exact hQ
  order o b hQ := by
    show OnBooks Q (if o.status = .Completed then b else h.orderNotify o b)
    split_ifs with hstatus
    · exact hQ
    · unfold OnBooks
      rw [(hh.order o b).quiet.executions]
      exact hT.quiet o b hstatus hQ
  hook side size k b hQ := hT.hook side size k b hQ

theorem exec (c : Cmd α) (hQ : OnBooks Q b) : OnBooks Q (b.exec h c) := by
  rw [exec_muted]
  exact (hT.frames hh).exec c hQ

/-- What is captured while a fill is booked. -/
theorem book_world {xs : List (Execution α)} (feed : DataFeed α) (bar : Row α) (b : BackBroker α W) (i : Nat) (o : Order α)
    (price : α) (hQ : Q xs b.world) : Q xs (b.book h feed bar i o price).world := by
  have hstays := stays_closing (tame_muted hh) (Q := fun _ w => Q xs w)
    (fun _ o b hQ => by
      show Q xs (if o.status = .Completed then b else h.orderNotify o b).world
      split_ifs with hstatus
      exacts [hQ, hT.quiet o b hstatus hQ])
    (fun _ t s b hQ => hT.trade t s b hQ) fun _ side size k b hQ => hT.hook side size k b hQ
  exact hstays.book feed bar i o price hQ

theorem afterFill {p : Pass α W} (i : Nat) (hQ : OnBooks Q (notify h p.broker i)) : OnBooks Q (Pass.afterFill h p i).broker := by
  have hF := hT.frames hh
  have hactivate : ∀ {b : BackBroker α W} id, OnBooks Q b → OnBooks Q (b.activateBracketChildren id) := fun id hb =>
    hF.frame (activate_books _ id) rfl hb
  have hcancel : ∀ {b : BackBroker α W} id, OnBooks Q b → OnBooks Q (b.cancelBracketChildren h id) := by
    intro b id hb
    unfold cancelBracketChildren
    rw [cancelPending_muted]
    exact hF.cancelPending _ _ hb
  unfold Pass.afterFill
  dsimp only
  split
  · exact hQ
  · -- the legs are released, or cancelled, or neither
    split_ifs
    all_goals
      first
        | exact hQ
        | exact hactivate _ hQ
        | exact hcancel _ hQ

include hs

/-- A fill and the notification of its order. -/
theorem booked (feed : DataFeed α) (bar : Row α) {i : Nat} {o : Order α} (price : α) (ho : b.pendingOrders[i]? = some o)
    (hbar : b.dataBarIndex = n) (hQ : OnBooks Q b) : OnBooks Q (notify h (b.book h feed bar i o price) i) := by
  let x := b.fillOf feed o price
  have hworld := hT.book_world hh feed bar b i o price hQ
  have hbook : (b.book h feed bar i o price).executions = b.executions ++ [x] := by
    rw [(enter_books hh feed bar b i o price).executions, enter_executions]
    rfl
  have hdone : x.order.isAlive = false := by
    show (o.execute _ _ _).isAlive = false
    unfold Order.execute
    split_ifs with halive
    exacts [rfl, Bool.not_eq_true _ ▸ halive]
  obtain ⟨o', ho', hsettles⟩ := StayDone.book hs.trade feed bar price ho
  have hfilling := hsettles.done hdone
  unfold OnBooks notify
  rw [ho']
  dsimp only
  rw [(hh.order o' _).quiet.executions, hbook]
  by_cases hcompleted : x.order.status = .Completed
  · exact hT.filled x o' _ hbar hcompleted hfilling hworld
  · refine hT.unheard x hbar hcompleted (hT.quiet o' _ ?_ hworld)
    rw [Order.status_eq_of_filling hfilling]
    exact hcompleted

/-- The end of a turn. -/
theorem match' (feed : DataFeed α) (bar : Row α) {p : Pass α W} (i : Nat) (trail : Bool)
    (hi : ∀ o, p.broker.pendingOrders[i]? = some o → o.status ≠ .Completed) (hbar : p.broker.dataBarIndex = n)
    (hQ : OnBooks Q p.broker) : OnBooks Q (Pass.match' h feed bar p i trail).broker := by
  have hF := hT.frames hh
  have hrefuse : ∀ {s : OrderStatus}, s ≠ .Completed →
      OnBooks Q (Pass.afterFill h { p with broker := (p.broker.edit i fun o => o.setStatus s).sync i } i).broker := by
    intro s hne
    refine hT.afterFill hh i ?_
    rw [publish_muted hne hi]
    exact hF.publish i _ hQ
  have hmiss : OnBooks Q ({ p with broker := if trail then updateTrailStop bar p.broker i else p.broker }.keep i).broker := by
    rw [keep_broker]
    dsimp only
    split_ifs
    exacts [hF.updateTrailStop bar i hQ, hQ]
  unfold Pass.match' tryFillOrder
  cases ho : p.broker.pendingOrders[i]? with
  | none => exact hmiss
  | some o =>
    dsimp only
    cases p.broker.matchOrder o bar with
    | none => exact hmiss
    | noStopPrice => exact hrefuse (s := .Rejected) (by simp)
    | fill price =>
      dsimp only
      by_cases hafford : p.broker.affords o price bar.datetime = true
      · simp only [hafford, if_true]
        exact hT.afterFill hh i (hT.booked hh hs feed bar price ho hbar hQ)
      · simp only [hafford]
        exact hrefuse (s := .Margin) (by simp)

/-- The order at hand is not filled by what its notifications bring about. -/
theorem submitAccept {i : Nat} (o : Order α) {e : Order α} (he : b.pendingOrders[i]? = some e) (hstatus : e.status ≠ .Completed)
    (hQ : OnBooks Q b) : OnBooks Q (Pass.submitAccept h b i o) := by
  have hF := hT.frames hh
  have hpublish : ∀ {b' : BackBroker α W} {s : OrderStatus}, s ≠ .Completed → StayDone b b' → OnBooks Q b' →
      OnBooks Q (notify h ((b'.edit i fun o => o.setStatus s).sync i) i) := by
    intro b' s hne hb' hQ'
    obtain ⟨e', he', hsettles⟩ := hb'.place i e he
    rw [publish_muted hne fun e'' he'' hcompleted => ?_]
    · exact hF.publish i _ hQ'
    · cases he'.symm.trans he''
      exact hstatus (hsettles.unfilled hcompleted)
  unfold Pass.submitAccept
  split_ifs
  · exact hpublish (s := .Accepted) (by simp) (StayDone.publish hs.order b i (s := .Submitted) (by simp))
      (hpublish (s := .Submitted) (by simp) (.refl b) hQ)
  · exact hQ

/-- A turn. -/
theorem visit (feeds : List (DataFeed α)) {p : Pass α W} (i : Nat) (hbar : p.broker.dataBarIndex = n)
    (hQ : OnBooks Q p.broker) : OnBooks Q (Pass.visit h feeds p i).broker := by
  have hF := hT.frames hh
  cases ho : p.broker.pendingOrders[i]? with
  | none =>
    unfold Pass.visit
    dsimp only
    rw [ho]
    exact hQ
  | some o =>
  rw [Pass.visit_eq ho]
  generalize hb₁ : ({ p.broker with turn := i + 1 } : BackBroker α W) = b₁
  have hQ₁ : OnBooks Q b₁ := hb₁ ▸ hQ
  have ho₁ : b₁.pendingOrders[i]? = some o := hb₁ ▸ ho
  have hbar₁ : b₁.dataBarIndex = n := hb₁ ▸ hbar
  have hkeep : ∀ b : BackBroker α W, OnBooks Q b → OnBooks Q ({ p with broker := b }.keep i).broker := fun b hb => by
    rw [keep_broker]
    exact hb
  dsimp only
  cases halive : o.isAlive with
  | false => exact hQ₁
  | true =>
  rw [if_neg (by simp)]
  have hstatus : o.status ≠ .Completed := fun h => by simp [Order.isAlive, h, OrderStatus.isAlive] at halive
  cases hheld : Pass.held p.broker o with
  | true => exact hkeep _ hQ₁
  | false =>
  rw [if_neg Bool.false_ne_true]
  -- the order at hand, released from its parent
  have hQ₂ : OnBooks Q (Pass.release b₁ i o) := by
    unfold Pass.release
    split_ifs
    exacts [hF.edit i _ hQ₁, hQ₁]
  have hi : ∀ {b : BackBroker α W}, StayDone b₁ b → ∀ e, b.pendingOrders[i]? = some e → e.status ≠ .Completed := by
    intro b hb e he hcompleted
    obtain ⟨e', he', hsettles⟩ := hb.place i o ho₁
    cases he.symm.trans he'
    exact hstatus (hsettles.unfilled hcompleted)
  have hreleased := StayDone.release b₁ i o
  have hdrop : ∀ {s : OrderStatus}, s ≠ .Completed →
      OnBooks Q (notify h (((Pass.release b₁ i o).edit i fun o => o.setStatus s).sync i) i) := by
    intro s hne
    rw [publish_muted hne (hi hreleased)]
    exact hF.publish i _ hQ₂
  cases feeds[o.dataIndex]? with
  | none => exact hdrop (s := .Rejected) (by simp)
  | some feed =>
    dsimp only
    cases feed.current? with
    | none => exact hkeep _ hQ₂
    | some bar =>
      dsimp only
      split_ifs
      · exact hdrop (s := .Expired) (by simp)
      · -- it may be cancelled in its own notifications, but not filled
        have hsub := StayDone.submitAccept hs.order (Pass.release b₁ i o) i o
        have hindex : (Pass.submitAccept h (Pass.release b₁ i o) i o).dataBarIndex = n :=
          (clock_tracks.submitAccept (tracked_clock hh).order _ i o).trans
            ((clock_tracks.release b₁ i o).trans hbar₁)
        obtain ⟨e, he, hsettles⟩ := hreleased.place i o ho₁
        exact hT.match' hh hs feed bar (p := { p with broker := Pass.submitAccept h (Pass.release b₁ i o) i o }) i _
          (hi (hreleased.trans hsub)) hindex (hT.submitAccept hh hs o he (fun h => hstatus (hsettles.unfilled h)) hQ₂)

omit hs in
theorem cancelOco {p : Pass α W} (j : Nat) (hQ : OnBooks Q p.broker) : OnBooks Q (Pass.cancelOco h p j).broker := by
  have hF := hT.frames hh
  unfold Pass.cancelOco
  split
  · exact hQ
  · rename_i order _
    split_ifs with hcancel
    · simp only [Bool.and_eq_true] at hcancel
      have hstatus : order.cancel.status ≠ .Completed := by
        unfold Order.cancel Order.setStatus
        rw [if_pos hcancel.1.2]
        simp
      have hsynced : OnBooks Q (p.broker.syncOrder order.cancel) := hF.frame (Quiet.syncOrder _ _).books rfl hQ
      show OnBooks Q (h.orderNotify order.cancel (p.broker.syncOrder order.cancel))
      rw [show h.orderNotify order.cancel = h.muted.orderNotify order.cancel from funext fun b => (if_neg hstatus).symm]
      exact hF.order _ hsynced
    · exact hQ

/-- A pass on its bar. -/
theorem processOrders (feeds : List (DataFeed α)) (hbar : b.dataBarIndex = n) (hQ : OnBooks Q b) :
    OnBooks Q (b.processOrders h feeds) := by
  have hpass : ∀ i, OnBooks Q (b.passAt h feeds i).broker := by
    intro i
    induction i with
    | zero => exact hQ
    | succ i ih =>
      rw [passAt_succ]
      exact hT.visit hh hs feeds i ((passAt_clock (tracked_clock hh) feeds b i).trans hbar) ih
  have hfin : ∀ p : Pass α W, OnBooks Q p.broker → OnBooks Q p.finish := fun p hp =>
    (hT.frames hh).frame (b := p.broker) (.of_eq rfl rfl rfl rfl rfl rfl rfl) rfl hp
  refine hfin _ ?_
  unfold Pass.cancelOcoSiblings
  split_ifs
  · exact hpass _
  · exact Fold.foldl_ind (fun p : Pass α W => OnBooks Q p.broker) _ _ (hpass _) fun p j _ hp => hT.cancelOco hh j hp

end FillsTold
end BackBroker

/-! ### Listeners -/

/-- The event tells of no fill. -/
def Event.Quiet (ev : Event α) : Prop := ∀ o, ev = .order o → o.status ≠ .Completed

namespace Listener
variable [Arith α] {L : Listener α W} {P R : W → Prop}

section
variable (hact : ∀ ev (b : BackBroker α W), ev.Quiet → P b.world → P (L.act ev b).1)
  (hhook : ∀ side size k (b : BackBroker α W), P b.world → P (L.preOrderHook side size k b).2)
include hhook

omit hact in
theorem exec_quiet {r : Event α → BackBroker α W → BackBroker α W}
    (hr : ∀ o (b : BackBroker α W), o.status ≠ .Completed → P b.world → P (r (.order o) b).world) (c : Cmd α)
    {b : BackBroker α W} (hb : P b.world) : P (b.exec (L.hooksOf r) c).world := by
  have hF : BackBroker.Frames (L.hooksOf r).muted fun b : BackBroker α W => P b.world :=
    { frame := fun _ hw hb => hw ▸ hb
      order := fun o b hb => by
        show P (if o.status = .Completed then b else r (.order o) b).world
        split_ifs with hstatus
        exacts [hb, hr o b hstatus hb]
      hook := fun side size k b hb => hhook side size k b hb }
  rw [BackBroker.exec_muted]
  exact hF.exec c hb

include hact

/-- What the callbacks on quiet events keep, and the hook, their commands keep. -/
theorem react_quiet : ∀ n ev (b : BackBroker α W), ev.Quiet → P b.world → P (L.react n ev b).world
  | 0, _, _, _, hb => hb
  | n + 1, ev, b, hev, hb => by
    have ha := hact ev b hev hb
    unfold react
    split
    · rename_i world heq
      rwa [heq] at ha
    · rename_i world cmd heq
      rw [heq] at ha
      have hr : ∀ o (b : BackBroker α W), o.status ≠ .Completed → P b.world → P (L.react n (.order o) b).world :=
        fun o b ho hb => react_quiet n (.order o) b (fun o' h => by cases h; exact ho) hb
      exact react_quiet n ev _ hev (exec_quiet hhook hr cmd (b := { b with world }) ha)

/-- A callback that ends: what its commands keep, its last step takes to `R`. -/
theorem react_ends {ev : Event α} (hgo : ∀ b, P b.world → (L.act ev b).2 ≠ none → P (L.act ev b).1)
    (hend : ∀ b, P b.world → (L.act ev b).2 = none → R (L.act ev b).1) :
    ∀ n (b : BackBroker α W), L.Ends n ev b → P b.world → R (L.react n ev b).world
  | 0, _, h, _ => h.elim
  | n + 1, b, h, hb => by
    unfold Ends at h
    unfold react
    have hstep := hgo b hb
    have hlast := hend b hb
    split
    · rename_i world heq
      rw [heq] at hlast
      exact hlast rfl
    · rename_i world cmd heq
      rw [heq] at hstep h
      have hr : ∀ o (b : BackBroker α W), o.status ≠ .Completed → P b.world → P (L.react n (.order o) b).world :=
        fun o b ho hb => react_quiet hact hhook n (.order o) b (fun o' h => by cases h; exact ho) hb
      exact react_ends hgo hend n _ h (exec_quiet hhook hr cmd (b := { b with world }) (hstep (Option.some_ne_none cmd)))

end

end Listener
end StratForge
