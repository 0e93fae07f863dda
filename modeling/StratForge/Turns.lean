import StratForge.Lined
import StratForge.Triggers

/-!
# The turns of a pass

What a turn of `process_orders` does for the order whose turn it is, said once (`Pass.Turned`): it is dropped, it
is carried to the next pass, it is refused or it is filled. Another order's turn leaves it alone. So what a pass
leaves pending has been carried by its own turn (`processOrders_kept`), and what it executes has been filled by one
(`processOrders_filled`).
-/

namespace StratForge

variable {α W : Type} [Arith α]

namespace BackBroker
variable {h : Hooks α W}

theorem frames_books (hh : Tame h) (b : BackBroker α W) : Frames h (SameBooks b) where
  frame hs _ hb := hb.trans hs
  order o b' hb := hb.trans (hh.order o b').quiet.books
  hook _ _ _ _ hb := hb.trans (.of_eq rfl rfl rfl rfl rfl rfl rfl)

theorem core_tracks : Tracks (α := α) (W := W) (Lined Order.core) := lined_tracks fun _ _ h => h

end BackBroker

open BackBroker

namespace Pass

/-- One of the exits before the test of the validity keeps the order: its parent holds it, or its feed has no bar. -/
def stuck (feeds : List (DataFeed α)) (p : Pass α W) (o : Order α) : Bool :=
  held p.broker o || feeds[o.dataIndex]?.any fun feed => feed.current?.isNone

/-- The bar an order is matched against at its turn, if it comes so far. -/
def barFor (feeds : List (DataFeed α)) (p : Pass α W) (o : Order α) : Option (Row α) :=
  if o.isAlive && !held p.broker o && !expired p.broker o then feeds[o.dataIndex]?.bind DataFeed.current? else none

/-- The level of an order that a bar has not filled. -/
def followed (o : Order α) (bar : Row α) : α :=
  if isTrail o then (newTrailStop o bar).getD o.trailStopPrice else o.trailStopPrice

/-- The turn of `o` fills it at the price. -/
def Fills (feeds : List (DataFeed α)) (p : Pass α W) (o : Order α) (price : α) : Prop :=
  ∃ bar, p.barFor feeds o = some bar ∧ p.broker.matchOrder o bar = .fill price ∧ p.broker.affords o price bar.datetime = true

/-- The turn of `o` carries it to the next pass, as `e`. -/
inductive Carries (feeds : List (DataFeed α)) (p : Pass α W) (o e : Order α) : Prop
  | waits (halive : o.isAlive = true) (hstuck : p.stuck feeds o = true) (hbar : p.barFor feeds o = none)
      (htrack : Order.Track o e)
  | misses (bar : Row α) (hbar : p.barFor feeds o = some bar) (hmatch : p.broker.matchOrder o bar = .none)
      (hsame : Order.Same o e) (hlevel : e.trailStopPrice = followed o bar)

/-- What the turn of `o` does. -/
inductive Turned (feeds : List (DataFeed α)) (p p' : Pass α W) (o : Order α) : Prop
  /-- It is dead, or it is rejected or expires. -/
  | dropped (hbar : p.barFor feeds o = none) (hkept : p'.stillPending = p.stillPending)
      (hbooks : p'.broker.executions = p.broker.executions)
  | carried (e : Order α) (he : p.Carries feeds o e) (hkept : p'.stillPending = p.stillPending ++ [e])
      (hbooks : p'.broker.executions = p.broker.executions)
  /-- Without a stop price, or for want of margin. -/
  | refused (bar : Row α) (hbar : p.barFor feeds o = some bar)
      (hrefused : ∀ price, p.broker.matchOrder o bar = .fill price → p.broker.affords o price bar.datetime = false)
      (hkept : p'.stillPending = p.stillPending) (hbooks : p'.broker.executions = p.broker.executions)
  | filled (bar : Row α) (price : α) (x : Execution α) (hbar : p.barFor feeds o = some bar)
      (hmatch : p.broker.matchOrder o bar = .fill price) (hafford : p.broker.affords o price bar.datetime = true)
      (horder : Order.Same o x.order) (hprice : x.price = price) (hkept : p'.stillPending = p.stillPending)
      (hbooks : p'.broker.executions = p.broker.executions ++ [x])

variable {h : Hooks α W} {feeds : List (DataFeed α)} {p p' : Pass α W} {b b' : BackBroker α W} {i : Nat} {o e : Order α}
  {bar : Row α}

omit [Arith α] in
theorem barFor_eq_some (hbar : p.barFor feeds o = some bar) :
    o.isAlive = true ∧ held p.broker o = false ∧ expired p.broker o = false := by
  unfold barFor at hbar
  split_ifs at hbar with hopen
  simpa [and_assoc] using hopen

theorem Carries.same (hc : p.Carries feeds o e) : Order.Same o e := by
  cases hc with
  | waits _ _ _ htrack => exact htrack.toSame
  | misses _ _ _ hsame => exact hsame

omit [Arith α] in
@[simp] theorem stillPending_afterFill (p : Pass α W) (i : Nat) : (afterFill h p i).stillPending = p.stillPending := by
  unfold afterFill
  dsimp only
  split
  · rfl
  · split_ifs <;> rfl

omit [Arith α] in
theorem stillPending_keep (ho : p.broker.pendingOrders[i]? = some o) : (p.keep i).stillPending = p.stillPending ++ [o] := by
  unfold keep
  rw [ho]

omit [Arith α] in
theorem executions_keep (p : Pass α W) (i : Nat) : (p.keep i).broker.executions = p.broker.executions := by rw [keep_broker]

/-- An order that is not matched is left with the level that follows the bar. -/
theorem followed_kept (ho : b.pendingOrders[i]? = some o) (bar : Row α) :
    ∃ e, (if isTrail o then updateTrailStop bar b i else b).pendingOrders[i]? = some e ∧ Order.Same o e ∧
      e.trailStopPrice = followed o bar := by
  unfold followed
  split_ifs with htrail
  · unfold updateTrailStop
    rw [ho]
    dsimp only
    cases hnew : newTrailStop o bar with
    | none => exact ⟨o, ho, .refl o, rfl⟩
    | some level =>
      refine ⟨{ o with trailStopPrice := level }, ?_, ⟨rfl, rfl, rfl, rfl, rfl, rfl, rfl, rfl, rfl, rfl, rfl, rfl⟩, rfl⟩
      rw [pendingOrders_sync]
      show (b.pendingOrders.modify i _)[i]? = _
      rw [List.getElem?_modify_eq, ho]
      rfl
  · exact ⟨o, ho, .refl o, rfl⟩

theorem followed_track (ht : Order.Track o e) (bar : Row α) : followed e bar = followed o bar := by
  unfold followed isTrail newTrailStop
  rw [ht.type, ht.side, ht.trailPercent, ht.trailAmount, ht.trailStopPrice]

omit [Arith α] in
theorem isTrail_same (hs : Order.Same o e) : isTrail e = isTrail o := by
  unfold isTrail
  rw [hs.type]

/-- The end of a turn, from the order as the callbacks have left it. -/
theorem match'_turned (hh : Tame h) (feed : DataFeed α) (hbar : p.barFor feeds o = some bar)
    (hb : SameBooks p.broker b) (he : b.pendingOrders[i]? = some e) (ht : Order.Track o e) :
    Turned feeds p (match' h feed bar { p with broker := b } i (isTrail o)) o := by
  have hmatch : b.matchOrder e bar = p.broker.matchOrder o bar := by
    rw [hb.settings, BrokerSettings.matchOrder_track _ ht]
  have hrefuse : ∀ s, SameBooks p.broker (afterFill h { p with broker := (b.edit i fun o => o.setStatus s).sync i } i).broker :=
    fun s => (frames_books hh p.broker).afterFill (p := { p with broker := (b.edit i fun o => o.setStatus s).sync i }) i
      (hb.trans ((Quiet.edit b i _).trans (.sync _ i)).books)
  have haffords : ∀ price, b.affords e price bar.datetime = p.broker.affords o price bar.datetime := fun price =>
    affords_track hb.settings hb.cash ht price _
  unfold match'
  cases hm : p.broker.matchOrder o bar with
  | none =>
    have htry : b.tryFillOrder h feed bar i = (false, b) := by
      unfold tryFillOrder
      simp only [he, hmatch, hm]
    simp only [htry, Bool.false_eq_true, if_false]
    obtain ⟨e', he', hs, hl⟩ := followed_kept he bar
    rw [isTrail_same ht.toSame] at he'
    rw [followed_track ht] at hl
    have htrail : SameBooks p.broker (if isTrail o then updateTrailStop bar b i else b) := by
      split_ifs
      exacts [(frames_books hh p.broker).updateTrailStop bar i hb, hb]
    exact .carried e' (.misses bar hbar hm (ht.toSame.trans hs) hl) (stillPending_keep he')
      ((executions_keep _ i).trans htrail.executions)
  | noStopPrice =>
    have htry : b.tryFillOrder h feed bar i = (true, (b.edit i Order.reject).sync i) := by
      unfold tryFillOrder
      simp only [he, hmatch, hm]
    simp only [htry, if_true]
    refine .refused bar hbar (fun price hp => ?_) (stillPending_afterFill _ i) (hrefuse .Rejected).executions
    rw [hm] at hp
    cases hp
  | fill price =>
    cases hafford : p.broker.affords o price bar.datetime with
    | true =>
      have htry : b.tryFillOrder h feed bar i = (true, b.book h feed bar i e price) := by
        unfold tryFillOrder
        simp only [he, hmatch, hm, haffords, hafford, if_true]
      simp only [htry, if_true]
      have hbook : (b.book h feed bar i e price).executions = b.executions ++ [b.fillOf feed e price] := by
        rw [(enter_books hh feed bar b i e price).executions, enter_executions]
        rfl
      have hafter : SameBooks (b.book h feed bar i e price)
          (afterFill h { p with broker := b.book h feed bar i e price } i).broker :=
        (frames_books hh _).afterFill (p := { p with broker := b.book h feed bar i e price }) i (.refl _)
      exact .filled bar price (b.fillOf feed e price) hbar hm hafford (ht.toSame.trans (same_fillOf feed b e price)) rfl
        (stillPending_afterFill _ i) (hafter.executions.trans (hbook.trans (by rw [hb.executions])))
    | false =>
      have htry : b.tryFillOrder h feed bar i = (true, (b.edit i Order.margin).sync i) := by
        unfold tryFillOrder
        simp only [he, hmatch, hm, haffords, hafford, Bool.false_eq_true, if_false]
      simp only [htry, if_true]
      refine .refused bar hbar (fun price' hp => ?_) (stillPending_afterFill _ i) (hrefuse .Margin).executions
      rw [hm] at hp
      cases hp
      exact hafford

omit [Arith α] in
@[simp] theorem expired_release (b : BackBroker α W) (i : Nat) (o o' : Order α) :
    expired (release b i o) o' = expired b o' := by
  unfold release
  split_ifs <;> rfl

/-- `visit` of a pending order, with the tests read off the broker as it is when the turn begins. -/
theorem visit_eq (ho : p.broker.pendingOrders[i]? = some o) :
    visit h feeds p i =
      let q : Pass α W := { p with broker := { p.broker with turn := i + 1 } }
      let b := release q.broker i o
      if o.isAlive = false then q
      else if held p.broker o then q.keep i
      else
        match feeds[o.dataIndex]? with
        | none => drop h Order.reject q b i
        | some feed =>
          match feed.current? with
          | none => { q with broker := b }.keep i
          | some bar =>
            if expired p.broker o then drop h Order.expire q b i
            else match' h feed bar { q with broker := submitAccept h b i o } i (isTrail o) := by
  unfold visit
  dsimp only
  rw [ho]
  simp only [Bool.not_eq_true', expired_release]
  rfl

/-- The turn of a pending order. -/
theorem visit_turned (hh : Tame h) (hk : ∀ o b, Lined Order.core b (h.orderNotify o b))
    (ho : p.broker.pendingOrders[i]? = some o) : Turned feeds p (visit h feeds p i) o := by
  have hturn : SameBooks p.broker { p.broker with turn := i + 1 } := .of_eq rfl rfl rfl rfl rfl rfl rfl
  rw [visit_eq ho]
  generalize hb₁ : ({ p.broker with turn := i + 1 } : BackBroker α W) = b₁ at *
  have ho₁ : b₁.pendingOrders[i]? = some o := hb₁ ▸ ho
  dsimp only
  have hrel : SameBooks p.broker (release b₁ i o) := by
    unfold release
    split_ifs
    exacts [hturn.trans (Quiet.edit b₁ i _).books, hturn]
  obtain ⟨o₂, ho₂, hcore₂⟩ := (core_tracks.release b₁ i o).get? ho₁
  have hdrop : ∀ s, SameBooks p.broker (BackBroker.notify h (((release b₁ i o).edit i fun o => o.setStatus s).sync i) i) :=
    fun s => (frames_books hh p.broker).publish i _ hrel
  cases halive : o.isAlive with
  | false =>
    rw [if_pos rfl]
    exact .dropped (by simp [barFor, halive]) rfl hturn.executions
  | true =>
  rw [if_neg nofun]
  cases hheld : held p.broker o with
  | true =>
    rw [if_pos rfl]
    exact .carried o (.waits halive (by simp [stuck, hheld]) (by simp [barFor, hheld]) (.refl o)) (stillPending_keep ho₁)
      ((executions_keep _ i).trans hturn.executions)
  | false =>
  rw [if_neg Bool.false_ne_true]
  cases hfeed : feeds[o.dataIndex]? with
  | none => exact .dropped (by simp [barFor, hfeed]) rfl (hdrop .Rejected).executions
  | some feed =>
    dsimp only
    cases hcur : feed.current? with
    | none =>
      exact .carried o₂ (.waits halive (by simp [stuck, hfeed, hcur]) (by simp [barFor, hfeed, hcur]) (.of_core hcore₂))
        (stillPending_keep ho₂) ((executions_keep _ i).trans hrel.executions)
    | some bar =>
      dsimp only
      cases hexp : expired p.broker o with
      | true =>
        rw [if_pos rfl]
        exact .dropped (by simp [barFor, hexp]) rfl (hdrop .Expired).executions
      | false =>
        rw [if_neg Bool.false_ne_true]
        obtain ⟨e, he, hcore⟩ := (core_tracks.submitAccept hk (release b₁ i o) i o).get? ho₂
        exact match'_turned hh feed (by simp [barFor, halive, hheld, hexp, hfeed, hcur])
          ((frames_books hh p.broker).submitAccept i o hrel) he ((Order.Track.of_core hcore₂).trans (.of_core hcore))

end Pass

/-! ### The other orders -/

namespace BackBroker
variable {h : Hooks α W} {feeds : List (DataFeed α)} {b b' : BackBroker α W} {i j : Nat} {o e : Order α}

/-- The pending orders keep their places and cores, but for one. -/
def Elsewhere (i : Nat) (b b' : BackBroker α W) : Prop :=
  ∀ j o, j ≠ i → b.pendingOrders[j]? = some o → ∃ o', b'.pendingOrders[j]? = some o' ∧ o'.core = o.core

omit [Arith α] in
theorem Elsewhere.trans {b'' : BackBroker α W} (h : Elsewhere i b b') (h' : Elsewhere i b' b'') : Elsewhere i b b'' := by
  intro j o hj ho
  obtain ⟨o', ho', hcore⟩ := h j o hj ho
  obtain ⟨o'', ho'', hcore'⟩ := h' j o' hj ho'
  exact ⟨o'', ho'', hcore'.trans hcore⟩

omit [Arith α] in
theorem Lined.elsewhere (h : Lined Order.core b b') : Elsewhere i b b' := fun _ _ _ ho => h.get? ho

theorem elsewhere_tracks (i : Nat) : Tracks (α := α) (W := W) (Elsewhere i) where
  trans := Elsewhere.trans
  same hp hn hd := (core_tracks.same hp hn hd).elsewhere
  change hf := (core_tracks.change hf).elsewhere
  changeAll hf := (core_tracks.changeAll hf).elsewhere
  push hid ht := (core_tracks.push hid ht).elsewhere

theorem updateTrailStop_elsewhere (b : BackBroker α W) (bar : Row α) : Elsewhere i b (updateTrailStop bar b i) := by
  intro j o hj ho
  refine ⟨o, ?_, rfl⟩
  unfold updateTrailStop
  split
  · exact ho
  · split
    · exact ho
    · rw [pendingOrders_sync, edit, List.getElem?_modify_ne _ _ hj.symm]
      exact ho

theorem clock_tracks : Tracks (α := α) (W := W) fun b b' => b'.dataBarIndex = b.dataBarIndex where
  trans h h' := h'.trans h
  same _ _ hd := hd
  change _ := rfl
  changeAll _ := rfl
  push _ _ := rfl

theorem updateTrailStop_clock (b : BackBroker α W) (bar : Row α) (i : Nat) :
    (updateTrailStop bar b i).dataBarIndex = b.dataBarIndex := by
  unfold updateTrailStop
  split
  · rfl
  · split
    · rfl
    · exact ((Quiet.edit b i _).trans (.sync _ i)).dataBarIndex

/-! ### A pass -/

theorem passAt_succ (h : Hooks α W) (feeds : List (DataFeed α)) (b : BackBroker α W) (i : Nat) :
    b.passAt h feeds (i + 1) = Pass.visit h feeds (b.passAt h feeds i) i := by
  rw [passAt, List.range_succ, List.foldl_append]
  rfl

section
variable (hk : Tracked h (Lined Order.core))
include hk

/-- The orders whose turn is still to come have kept their places and cores. -/
theorem passAt_place (feeds : List (DataFeed α)) (ho : b.pendingOrders[j]? = some o) :
    ∀ i ≤ j, ∃ o', (b.passAt h feeds i).broker.pendingOrders[j]? = some o' ∧ o'.core = o.core := by
  intro i hi
  induction i with
  | zero => exact ⟨o, ho, rfl⟩
  | succ i ih =>
    obtain ⟨o', ho', hcore⟩ := ih (Nat.le_of_succ_le hi)
    have hk' : Tracked h (Elsewhere i) := ⟨fun o b => (hk.order o b).elsewhere, fun t orig b => (hk.trade t orig b).elsewhere⟩
    have hv := (elsewhere_tracks i).visit hk' (fun b bar => updateTrailStop_elsewhere b bar) feeds (b.passAt h feeds i)
    obtain ⟨o'', ho'', hcore'⟩ := hv j o' (Nat.ne_of_gt hi) ho'
    rw [passAt_succ]
    exact ⟨o'', ho'', hcore'.trans hcore⟩

variable (hh : Tame h)
include hh

/-- What a pass has kept, it has carried at its turn. -/
theorem passAt_kept (feeds : List (DataFeed α)) : ∀ i ≤ b.pendingOrders.length, ∀ e ∈ (b.passAt h feeds i).stillPending,
    ∃ j < i, ∃ o, (b.passAt h feeds j).broker.pendingOrders[j]? = some o ∧ (b.passAt h feeds j).Carries feeds o e := by
  intro i hi
  induction i with
  | zero => intro e he; cases he
  | succ i ih =>
    intro e he
    obtain ⟨o, ho, -⟩ := passAt_place hk feeds (List.getElem?_eq_getElem hi) i le_rfl
    have hold : e ∈ (b.passAt h feeds i).stillPending → ∃ j < i + 1, ∃ o,
        (b.passAt h feeds j).broker.pendingOrders[j]? = some o ∧ (b.passAt h feeds j).Carries feeds o e := fun he => by
      obtain ⟨j, hj, hjo⟩ := ih (Nat.le_of_succ_le hi) e he
      exact ⟨j, Nat.lt_succ_of_lt hj, hjo⟩
    rw [passAt_succ] at he
    cases @Pass.visit_turned _ _ _ h feeds _ _ _ hh hk.order ho with
    | dropped _ hkept | refused _ _ _ hkept | filled _ _ _ _ _ _ _ _ hkept => exact hold (hkept ▸ he)
    | carried e' hc hkept =>
      rw [hkept] at he
      rcases List.mem_append.1 he with he | he
      · exact hold he
      · rw [List.mem_singleton] at he
        subst he
        exact ⟨i, Nat.lt_succ_self i, o, ho, hc⟩

/-- What a pass has executed is what its turns have filled. -/
theorem passAt_filled (feeds : List (DataFeed α)) : ∀ i ≤ b.pendingOrders.length, ∃ xs,
    (b.passAt h feeds i).broker.executions = b.executions ++ xs ∧
    (∀ x ∈ xs, ∃ j < i, ∃ o, (b.passAt h feeds j).broker.pendingOrders[j]? = some o ∧
      (b.passAt h feeds j).Fills feeds o x.price ∧ Order.Same o x.order) ∧
    ∀ j < i, ∀ o price, (b.passAt h feeds j).broker.pendingOrders[j]? = some o → (b.passAt h feeds j).Fills feeds o price →
      ∃ x ∈ xs, x.price = price ∧ Order.Same o x.order := by
  intro i hi
  induction i with
  | zero => exact ⟨[], (List.append_nil _).symm, fun x hx => absurd hx List.not_mem_nil, fun j hj => absurd hj (Nat.not_lt_zero j)⟩
  | succ i ih =>
    obtain ⟨o, ho, -⟩ := passAt_place hk feeds (List.getElem?_eq_getElem hi) i le_rfl
    obtain ⟨xs, hxs, hof, hall⟩ := ih (Nat.le_of_succ_le hi)
    have hold : ∀ x ∈ xs, ∃ j < i + 1, ∃ o, (b.passAt h feeds j).broker.pendingOrders[j]? = some o ∧
        (b.passAt h feeds j).Fills feeds o x.price ∧ Order.Same o x.order := fun x hx => by
      obtain ⟨j, hj, hjo⟩ := hof x hx
      exact ⟨j, Nat.lt_succ_of_lt hj, hjo⟩
    -- this turn fills nothing, or its own order at its own price
    have hturn : ∀ ys, (∀ price, (b.passAt h feeds i).Fills feeds o price → ∃ x ∈ xs ++ ys, x.price = price ∧ Order.Same o x.order) →
        ∀ j < i + 1, ∀ o price, (b.passAt h feeds j).broker.pendingOrders[j]? = some o →
          (b.passAt h feeds j).Fills feeds o price → ∃ x ∈ xs ++ ys, x.price = price ∧ Order.Same o x.order := by
      intro ys hys j hj o' price ho' hfill
      rcases Nat.lt_succ_iff_lt_or_eq.1 hj with hj | rfl
      · obtain ⟨x, hx, hxo⟩ := hall j hj o' price ho' hfill
        exact ⟨x, List.mem_append_left _ hx, hxo⟩
      · cases ho.symm.trans ho'
        exact hys price hfill
    rw [passAt_succ]
    cases @Pass.visit_turned _ _ _ h feeds _ _ _ hh hk.order ho with
    | dropped hbar _ hbooks =>
      refine ⟨xs, hbooks.trans hxs, hold, List.append_nil xs ▸ hturn [] fun price ⟨bar, hb, _⟩ => ?_⟩
      cases hbar.symm.trans hb
    | carried e hc _ hbooks =>
      refine ⟨xs, hbooks.trans hxs, hold, List.append_nil xs ▸ hturn [] fun price ⟨bar, hb, hm, _⟩ => ?_⟩
      cases hc with
      | waits _ _ hbar => cases hbar.symm.trans hb
      | misses bar' hbar hmatch =>
        cases hbar.symm.trans hb
        cases hmatch.symm.trans hm
    | refused bar hbar hrefused _ hbooks =>
      refine ⟨xs, hbooks.trans hxs, hold, List.append_nil xs ▸ hturn [] fun price ⟨bar', hb, hm, ha⟩ => ?_⟩
      cases hbar.symm.trans hb
      cases (hrefused price hm).symm.trans ha
    | filled bar price x hbar hmatch hafford horder hprice _ hbooks =>
      refine ⟨xs ++ [x], by rw [hbooks, hxs, List.append_assoc], fun y hy => ?_, hturn [x] fun price' ⟨bar', hb, hm, _⟩ => ?_⟩
      · rcases List.mem_append.1 hy with hy | hy
        · exact hold y hy
        · rw [List.mem_singleton] at hy
          subst hy
          exact ⟨i, Nat.lt_succ_self i, o, ho, ⟨bar, hbar, hprice ▸ hmatch, hprice ▸ hafford⟩, horder⟩
      · cases hbar.symm.trans hb
        cases hmatch.symm.trans hm
        exact ⟨x, List.mem_append_right _ (List.mem_singleton_self x), hprice, horder⟩

end

theorem passAt_clock (hk : Tracked h fun b b' => b'.dataBarIndex = b.dataBarIndex) (feeds : List (DataFeed α))
    (b : BackBroker α W) (i : Nat) : (b.passAt h feeds i).broker.dataBarIndex = b.dataBarIndex := by
  induction i with
  | zero => rfl
  | succ i ih =>
    rw [passAt_succ]
    exact (clock_tracks.visit hk (fun b bar => updateTrailStop_clock b bar i) feeds (b.passAt h feeds i)).trans ih

omit [Arith α] in
/-- The second pass only cancels. -/
theorem cancelOcoSiblings_kept (h : Hooks α W) (p : Pass α W) :
    ∀ e ∈ (Pass.cancelOcoSiblings h p).stillPending, ∃ e₀ ∈ p.stillPending, e.core = e₀.core := by
  unfold Pass.cancelOcoSiblings
  split
  · exact fun e he => ⟨e, he, rfl⟩
  · intro e he
    refine Fold.foldl_ind (fun q : Pass α W => ∀ e ∈ q.stillPending, ∃ e₀ ∈ p.stillPending, e.core = e₀.core) _ p
      (fun e he => ⟨e, he, rfl⟩) (fun q j _ hq e he => ?_) e (List.mem_filter.1 he).1
    unfold Pass.cancelOco at he
    split at he
    · exact hq e he
    · next o ho =>
      split at he
      · rcases List.mem_or_eq_of_mem_set he with he | rfl
        · exact hq e he
        · obtain ⟨e₀, he₀, hcore⟩ := hq o (List.mem_of_getElem? ho)
          exact ⟨e₀, he₀, (o.core_setStatus _).trans hcore⟩
      · exact hq e he

/-- What is pending after a pass has been carried at its turn. -/
theorem processOrders_kept (hk : Tracked h (Lined Order.core)) (hh : Tame h) (feeds : List (DataFeed α))
    (b : BackBroker α W) : ∀ e ∈ (b.processOrders h feeds).pendingOrders, ∃ i o₀ o e₀, b.pendingOrders[i]? = some o₀ ∧
      (b.passAt h feeds i).broker.pendingOrders[i]? = some o ∧ o.core = o₀.core ∧
      (b.passAt h feeds i).Carries feeds o e₀ ∧ e.core = e₀.core := by
  intro e he
  obtain ⟨e₀, he₀, hcore⟩ := cancelOcoSiblings_kept h _ e he
  obtain ⟨i, hi, o, ho, hc⟩ := passAt_kept hk hh feeds _ le_rfl e₀ he₀
  obtain ⟨o', ho', hcore'⟩ := passAt_place hk feeds (List.getElem?_eq_getElem hi) i le_rfl
  cases ho.symm.trans ho'
  exact ⟨i, _, o, e₀, List.getElem?_eq_getElem hi, ho, hcore', hc, hcore⟩

/-- What a pass executes is what its turns fill. -/
theorem processOrders_filled (hk : Tracked h (Lined Order.core)) (hh : Tame h) (feeds : List (DataFeed α))
    (b : BackBroker α W) : ∃ xs, (b.processOrders h feeds).executions = b.executions ++ xs ∧
      (∀ x ∈ xs, ∃ i < b.pendingOrders.length, ∃ o, (b.passAt h feeds i).broker.pendingOrders[i]? = some o ∧
        (b.passAt h feeds i).Fills feeds o x.price ∧ Order.Same o x.order) ∧
      ∀ i < b.pendingOrders.length, ∀ o price, (b.passAt h feeds i).broker.pendingOrders[i]? = some o →
        (b.passAt h feeds i).Fills feeds o price → ∃ x ∈ xs, x.price = price ∧ Order.Same o x.order := by
  obtain ⟨xs, hxs, hall⟩ := passAt_filled hk hh feeds (b := b) _ le_rfl
  refine ⟨xs, ?_, hall⟩
  let p := b.passAt h feeds b.pendingOrders.length
  have hoco : SameBooks p.broker (p.cancelOcoSiblings h).broker := (frames_books hh p.broker).cancelOcoSiblings (.refl _)
  exact hoco.executions.trans hxs

end BackBroker

end StratForge
