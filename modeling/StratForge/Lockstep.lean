import StratForge.Lined

/-!
# Two brokers in lockstep

Two brokers that differ in what their callbacks capture, and their callbacks with them, stay together when
the callbacks and the fills keep them together (`Lockstep`): whatever else a command or a pass does is the
same on both sides. The feeds of the two passes may differ where no order is matched against them. A run may
also be given up: once it is `lost` it stays so, and nothing is said of the other one any more.
-/

namespace StratForge

variable {α W V : Type}

/-- The broker with something else captured. -/
def BackBroker.capture (b : BackBroker α W) (v : V) : BackBroker α V := { b with world := v }

namespace BackBroker
variable [Arith α]

/-- The pending orders keep their places and their data indices; new ones come behind. -/
def Indexed (b b' : BackBroker α W) : Prop := b.pendingOrders.map (·.dataIndex) <+: b'.pendingOrders.map (·.dataIndex)

theorem indexed_tracks : Tracks (α := α) (W := W) Indexed := lined_tracks fun _ _ h => (Order.Track.of_core h).dataIndex

theorem react_indexed (L : Listener α W) (n : Nat) (ev : Event α) (b : BackBroker α W) : Indexed b (L.react n ev b) :=
  indexed_tracks.react L n ev b

/-! ### Lockstep -/

/-- What a pass takes from the feed of a data index. -/
def quote (feeds : List (DataFeed α)) (k : Nat) : Option (Option (Row α) × Nat) :=
  feeds[k]?.map fun f => (f.current?, f.index)

/-- `R` relates brokers that are the same but for what is captured, unless the first is lost; callbacks and fills
keep it. `Q` are the data indices on which orders may be filled. -/
structure Lockstep (h : Hooks α W) (h' : Hooks α V) (Q : Nat → Prop) (lost : BackBroker α W → Prop)
    (R : BackBroker α W → BackBroker α V → Prop) : Prop where
  stays : Stays h lost
  ofLost : ∀ {b b'}, lost b → R b b'
  capture : ∀ {b b'}, R b b' → lost b ∨ b' = b.capture b'.world
  frame : ∀ {b b' b1}, R b b' → SameBooks b b1 → b1.world = b.world → R b1 (b1.capture b'.world)
  order : ∀ o {b b'}, R b b' → R (h.orderNotify o b) (h'.orderNotify o b')
  indexed : ∀ o b, Indexed b (h.orderNotify o b)
  hook : ∀ side size k {b b'}, R b b' →
    (lost { b with world := (h.preOrderHook side size k b).2 } ∨
      (h'.preOrderHook side size k b').1 = (h.preOrderHook side size k b).1) ∧
    R { b with world := (h.preOrderHook side size k b).2 } { b' with world := (h'.preOrderHook side size k b').2 }
  book : ∀ feed feed' bar i o price {b b'}, R b b' → feed'.index = feed.index → Q o.dataIndex →
    R (b.book h feed bar i o price) (b'.book h' feed' bar i o price)

namespace Lockstep
variable {h : Hooks α W} {h' : Hooks α V} {Q : Nat → Prop} {lost : BackBroker α W → Prop}
  {R : BackBroker α W → BackBroker α V → Prop} {b : BackBroker α W} {b' : BackBroker α V}

theorem same (hL : Lockstep h h' Q lost R) (hR : R b b') : lost b ∨ ∃ v, b' = b.capture v :=
  (hL.capture hR).imp id fun h => ⟨_, h⟩

/-- What is written that no callback captures. -/
theorem write (hL : Lockstep h h' Q lost R) (hR : R b b') (g : BackBroker α W → BackBroker α W)
    (g' : BackBroker α V → BackBroker α V) (hs : SameBooks b (g b)) (hw : (g b).world = b.world)
    (hg : ∀ v, g' (b.capture v) = (g b).capture v) : R (g b) (g' b') := by
  rcases hL.capture hR with hl | hc
  · exact hL.ofLost (hL.stays.frame hs hw hl)
  · rw [hc, hg]
    exact hL.frame hR hs hw

variable (hL : Lockstep h h' Q lost R)
include hL

theorem edit (hR : R b b') (i : Nat) (f : Order α → Order α) : R (b.edit i f) (b'.edit i f) :=
  hL.write hR (·.edit i f) (·.edit i f) (Quiet.edit b i f).books rfl fun _ => rfl

theorem note (hR : R b b') {n : Note α} (hn : n.execution? = none) : R (b.note n) (b'.note n) :=
  hL.write hR (·.note n) (·.note n) (Quiet.note b hn).books rfl fun _ => rfl

theorem syncOrder (hR : R b b') (o : Order α) : R (b.syncOrder o) (b'.syncOrder o) :=
  hL.write hR (·.syncOrder o) (·.syncOrder o) (Quiet.syncOrder b o).books rfl fun _ => rfl

theorem sync (hR : R b b') (i : Nat) : R (b.sync i) (b'.sync i) := by
  rcases hL.same hR with hl | ⟨v, rfl⟩
  · exact hL.ofLost (hL.stays.sync i hl)
  · unfold BackBroker.sync
    rw [show (b.capture v).pendingOrders = b.pendingOrders from rfl]
    cases b.pendingOrders[i]? with
    | none => exact hR
    | some order => exact hL.syncOrder hR order

theorem notify (hR : R b b') (i : Nat) : R (BackBroker.notify h b i) (BackBroker.notify h' b' i) := by
  rcases hL.same hR with hl | ⟨v, rfl⟩
  · exact hL.ofLost (hL.stays.notify i hl)
  · unfold BackBroker.notify
    rw [show (b.capture v).pendingOrders = b.pendingOrders from rfl]
    cases b.pendingOrders[i]? with
    | none => exact hR
    | some order => exact hL.order order hR

/-- A pending order is written, its record overwritten, and the callback told. -/
theorem publish (hR : R b b') (i : Nat) (f : Order α → Order α) :
    R (BackBroker.notify h ((b.edit i f).sync i) i) (BackBroker.notify h' ((b'.edit i f).sync i) i) :=
  hL.notify (hL.sync (hL.edit hR i f) i) i

theorem pushOrder (hR : R b b') (o : Order α) : R (b.pushOrder o) (b'.pushOrder o) :=
  hL.write hR (·.pushOrder o) (·.pushOrder o) (Quiet.pushOrder b o).books rfl fun _ => rfl

theorem linkChildren (hR : R b b') (id : Nat) (ids : List Nat) : R (b.linkChildren id ids) (b'.linkChildren id ids) :=
  hL.write hR (·.linkChildren id ids) (·.linkChildren id ids) (Quiet.linkChildren b id ids).books rfl fun _ => rfl

theorem ensurePosition (hR : R b b') (k : Nat) : R (b.ensurePosition k) (b'.ensurePosition k) :=
  hL.write hR (·.ensurePosition k) (·.ensurePosition k) (Quiet.ensurePosition b k).books rfl fun _ => rfl

theorem nextGroup (hR : R b b') : R { b with nextOcoGroupId := b.nextOcoGroupId + 1 }
    { b' with nextOcoGroupId := b'.nextOcoGroupId + 1 } :=
  hL.write hR (fun b => { b with nextOcoGroupId := b.nextOcoGroupId + 1 })
    (fun b => { b with nextOcoGroupId := b.nextOcoGroupId + 1 }) (.of_eq rfl rfl rfl rfl rfl rfl rfl) rfl fun _ => rfl

/-! ### Commands -/

theorem cancelPending (hR : R b b') (p : Order α → Bool) (byUser : Bool) :
    R (b.cancelPending h p byUser) (b'.cancelPending h' p byUser) := by
  have hstep : ∀ (b : BackBroker α W) (b' : BackBroker α V) i, R b b' → R (b.cancelAt h p byUser i) (b'.cancelAt h' p byUser i) := by
    intro b b' i hR
    rcases hL.same hR with hl | ⟨v, rfl⟩
    · exact hL.ofLost (hL.stays.cancelAt p byUser i hl)
    unfold cancelAt
    rw [show (b.capture v).pendingOrders = b.pendingOrders from rfl]
    cases b.pendingOrders[i]? with
    | none => exact hR
    | some order =>
      dsimp only
      rw [show (b.capture v).turn = b.turn from rfl]
      split_ifs
      exacts [hL.publish (hL.note hR rfl) i _, hL.publish hR i _, hR]
  rcases hL.same hR with hl | ⟨v, rfl⟩
  · exact hL.ofLost (hL.stays.cancelPending p byUser hl)
  unfold BackBroker.cancelPending
  rw [show (b.capture v).pendingOrders = b.pendingOrders from rfl]
  exact List.foldl_rel hR fun i _ b b' hR => hstep b b' i hR

theorem submitOrderExt (hR : R b b') (side : OrderSide) (size : α) (params : OrderParams α) :
    (lost (b.submitOrderExt h side size params).2 ∨
      (b'.submitOrderExt h' side size params).1 = (b.submitOrderExt h side size params).1) ∧
    R (b.submitOrderExt h side size params).2 (b'.submitOrderExt h' side size params).2 := by
  rcases hL.same hR with hl | ⟨v, rfl⟩
  · have hl' := hL.stays.submitOrderExt side size params hl
    exact ⟨.inl hl', hL.ofLost hl'⟩
  obtain ⟨hpor, hworld⟩ := hL.hook side size params.dataIndex hR
  rcases hpor with hl | hpor
  · have hl' : lost (b.submitOrderExt h side size params).2 := by
      unfold BackBroker.submitOrderExt
      dsimp only
      split_ifs
      exacts [hl, hL.stays.frame (Quiet.pushOrder _ _).books rfl hl]
    exact ⟨.inl hl', hL.ofLost hl'⟩
  · unfold BackBroker.submitOrderExt
    dsimp only
    rw [hpor]
    split_ifs
    exacts [⟨.inr rfl, hworld⟩, ⟨.inr rfl, hL.pushOrder hworld _⟩]

theorem bracket (hR : R b b') (mainSide legSide : OrderSide) (size limitPrice stopPrice : α) (k : Nat) :
    R (b.bracket h mainSide legSide size limitPrice stopPrice k).2 (b'.bracket h' mainSide legSide size limitPrice stopPrice k).2 := by
  rcases hL.same hR with hl | ⟨v, rfl⟩
  · exact hL.ofLost (hL.stays.bracket mainSide legSide size limitPrice stopPrice k hl)
  have hsub : ∀ {b : BackBroker α W} {b' : BackBroker α V} side params, R b b' → _ := fun side params hR =>
    hL.submitOrderExt hR side size params
  have hlose := fun {b} side params hl => hL.stays.submitOrderExt (b := b) side size params hl
  have hlink : ∀ {b} id ids, lost b → lost (b.linkChildren id ids) := fun id ids hl =>
    hL.stays.frame (Quiet.linkChildren _ id ids).books rfl hl
  have h0 := hL.nextGroup hR
  unfold BackBroker.bracket submitOrder
  rw [show (b.capture v).nextOcoGroupId = b.nextOcoGroupId from rfl] at h0 ⊢
  -- an identifier that differs means that the run is lost, and it stays lost to the end
  obtain ⟨hid | hid, h1⟩ := hsub mainSide
    { OrderParams.default with type := .Market, price := 0, stopPrice := none, dataIndex := k } h0
  · exact hL.ofLost (hlink _ _ (hlose _ _ (hlose _ _ hid)))
  dsimp only
  rw [hid]
  obtain ⟨hid | hid, h2⟩ := hsub legSide (tpParams limitPrice k _ b.nextOcoGroupId) h1
  · exact hL.ofLost (hlink _ _ (hlose _ _ hid))
  rw [hid]
  obtain ⟨hid | hid, h3⟩ := hsub legSide (slParams stopPrice k _ b.nextOcoGroupId) h2
  · exact hL.ofLost (hlink _ _ hid)
  rw [hid]
  exact hL.linkChildren h3 _ _

theorem close (hR : R b b') (k : Nat) : R (b.close h k).2 (b'.close h' k).2 := by
  rcases hL.same hR with hl | ⟨v, rfl⟩
  · exact hL.ofLost (hL.stays.close k hl)
  have h0 := hL.ensurePosition hR k
  have hpos : ((b.capture v).ensurePosition k).position k = (b.ensurePosition k).position k := rfl
  unfold BackBroker.close submitOrder
  dsimp only
  rw [hpos]
  split_ifs
  exacts [h0, (hL.submitOrderExt h0 ..).2, (hL.submitOrderExt h0 ..).2]

theorem exec (hR : R b b') (c : Cmd α) : R (b.exec h c) (b'.exec h' c) := by
  cases c with
  | buy | sell | buyExt | sellExt => exact (hL.submitOrderExt hR ..).2
  | buyBracket | sellBracket => exact hL.bracket hR ..
  | close k => exact hL.close hR k
  | cancelOrder id => exact hL.cancelPending hR ..
  | nextOcoGroup => exact hL.nextGroup hR

/-! ### Passes -/

theorem tryFillOrder (hR : R b b') (feed feed' : DataFeed α) (hf : feed'.index = feed.index) (bar : Row α) (i : Nat)
    (hQ : ∀ o, b.pendingOrders[i]? = some o → Q o.dataIndex) :
    (lost (b.tryFillOrder h feed bar i).2 ∨ (b'.tryFillOrder h' feed' bar i).1 = (b.tryFillOrder h feed bar i).1) ∧
    R (b.tryFillOrder h feed bar i).2 (b'.tryFillOrder h' feed' bar i).2 := by
  rcases hL.same hR with hl | ⟨v, rfl⟩
  · have hl' := hL.stays.tryFillOrder feed bar i hl
    exact ⟨.inl hl', hL.ofLost hl'⟩
  unfold BackBroker.tryFillOrder
  rw [show (b.capture v).pendingOrders = b.pendingOrders from rfl]
  cases ho : b.pendingOrders[i]? with
  | none => exact ⟨.inr rfl, hR⟩
  | some order =>
    dsimp only
    rw [show (b.capture v).matchOrder order bar = b.matchOrder order bar from rfl]
    cases b.matchOrder order bar with
    | none => exact ⟨.inr rfl, hR⟩
    | noStopPrice => exact ⟨.inr rfl, hL.sync (hL.edit hR i _) i⟩
    | fill price =>
      dsimp only
      rw [show (b.capture v).affords order price bar.datetime = b.affords order price bar.datetime from rfl]
      split_ifs
      exacts [⟨.inr rfl, hL.book feed feed' bar i order price hR hf (hQ order ho)⟩, ⟨.inr rfl, hL.sync (hL.edit hR i _) i⟩]

theorem updateTrailStop (hR : R b b') (bar : Row α) (i : Nat) : R (b.updateTrailStop bar i) (b'.updateTrailStop bar i) := by
  rcases hL.same hR with hl | ⟨v, rfl⟩
  · exact hL.ofLost (hL.stays.updateTrailStop bar i hl)
  unfold BackBroker.updateTrailStop
  rw [show (b.capture v).pendingOrders = b.pendingOrders from rfl]
  cases b.pendingOrders[i]? with
  | none => exact hR
  | some order =>
    dsimp only
    cases newTrailStop order bar with
    | none => exact hR
    | some level => exact hL.sync (hL.edit hR i _) i

theorem submitAccept (hR : R b b') (i : Nat) (o : Order α) :
    R (Pass.submitAccept h b i o) (Pass.submitAccept h' b' i o) := by
  unfold Pass.submitAccept
  split_ifs
  exacts [hL.publish (hL.publish hR i _) i _, hR]

theorem submitAccept_indexed (b : BackBroker α W) (i : Nat) (o : Order α) :
    Indexed b (Pass.submitAccept h (Pass.release b i o) i o) :=
  indexed_tracks.trans (indexed_tracks.release b i o) (indexed_tracks.submitAccept hL.indexed _ i o)

/-- Two passes over brokers in lockstep, with the same local vectors. -/
def Together (lost : BackBroker α W → Prop) (R : BackBroker α W → BackBroker α V → Prop) (p : Pass α W) (p' : Pass α V) :
    Prop :=
  lost p.broker ∨ R p.broker p'.broker ∧ p'.stillPending = p.stillPending ∧ p'.filledOcoGroups = p.filledOcoGroups

theorem keep {p : Pass α W} {p' : Pass α V} (hp : Together lost R p p') (i : Nat) :
    Together lost R (p.keep i) (p'.keep i) := by
  rcases hp with hl | ⟨hR, hk, hg⟩
  · exact .inl (by rw [keep_broker]; exact hl)
  rcases hL.capture hR with hl | hc
  · exact .inl (by rw [keep_broker]; exact hl)
  have hpend : p'.broker.pendingOrders = p.broker.pendingOrders := by rw [hc]; rfl
  unfold Pass.keep
  rw [hpend]
  cases p.broker.pendingOrders[i]? with
  | none => exact .inr ⟨hR, hk, hg⟩
  | some order => exact .inr ⟨hR, by rw [hk], hg⟩

theorem afterFill {p : Pass α W} {p' : Pass α V} (hp : Together lost R p p') (i : Nat) :
    Together lost R (Pass.afterFill h p i) (Pass.afterFill h' p' i) := by
  rcases hp with hl | ⟨hR, hk, hg⟩
  · exact .inl (hL.stays.afterFill i hl)
  have hn := hL.notify hR i
  by_cases hl : lost (Pass.afterFill h p i).broker
  · exact .inl hl
  rcases hL.capture hn with hln | hc
  · exact absurd (hL.stays.afterNotify i hln) hl
  have hpend : (BackBroker.notify h' p'.broker i).pendingOrders = (BackBroker.notify h p.broker i).pendingOrders := by
    rw [hc]; rfl
  have hactivate : ∀ {b b'} id, R b b' → R (b.activateBracketChildren id) (b'.activateBracketChildren id) := fun id hR =>
    hL.write hR (·.activateBracketChildren id) (·.activateBracketChildren id) (activate_books _ id) rfl fun _ => rfl
  unfold Pass.afterFill
  dsimp only
  rw [hpend]
  cases (BackBroker.notify h p.broker i).pendingOrders[i]? with
  | none => exact .inr ⟨hn, hk, hg⟩
  | some order =>
    dsimp only
    rw [hk, hg]
    split_ifs
    all_goals
      refine .inr ⟨?_, rfl, rfl⟩
      first
        | exact hn
        | exact hactivate _ hn
        | exact hL.cancelPending hn ..
        | exact hL.cancelPending (hactivate _ hn) ..

theorem match' {p : Pass α W} {p' : Pass α V} (hp : Together lost R p p') (feed feed' : DataFeed α)
    (hf : feed'.index = feed.index) (bar : Row α) (i : Nat) (trail : Bool)
    (hQ : ∀ o, p.broker.pendingOrders[i]? = some o → Q o.dataIndex) :
    Together lost R (Pass.match' h feed bar p i trail) (Pass.match' h' feed' bar p' i trail) := by
  rcases hp with hl | ⟨hR, hk, hg⟩
  · exact .inl (hL.stays.match' feed bar i trail hl)
  obtain ⟨hfilled | hfilled, hR'⟩ := hL.tryFillOrder hR feed feed' hf bar i hQ
  · exact .inl (hL.stays.afterTry feed bar i trail hfilled)
  unfold Pass.match'
  dsimp only
  rw [hfilled, hk, hg]
  split_ifs
  · exact hL.afterFill (.inr ⟨hR', rfl, rfl⟩) i
  · exact hL.keep (.inr ⟨hL.updateTrailStop hR' bar i, rfl, rfl⟩) i
  · exact hL.keep (.inr ⟨hR', rfl, rfl⟩) i

/-- What a turn of the pass may look at: an order that is alive and not held is on a data index whose feeds quote
the same. -/
def Served (feeds feeds' : List (DataFeed α)) (Q : Nat → Prop) (b : BackBroker α W) (i : Nat) : Prop :=
  ∀ o, b.pendingOrders[i]? = some o → o.isAlive = true → Pass.held b o = false →
    quote feeds' o.dataIndex = quote feeds o.dataIndex ∧ Q o.dataIndex

theorem visit {p : Pass α W} {p' : Pass α V} (hp : Together lost R p p') {feeds feeds' : List (DataFeed α)} (i : Nat)
    (hserved : Served feeds feeds' Q p.broker i) :
    Together lost R (Pass.visit h feeds p i) (Pass.visit h' feeds' p' i) := by
  rcases hp with hl | ⟨hR, hk, hg⟩
  · exact .inl (hL.stays.visit feeds i hl)
  rcases hL.same hR with hl | ⟨v, hv⟩
  · exact .inl (hL.stays.visit feeds i hl)
  let b : BackBroker α W := { p.broker with turn := i + 1 }
  have hb : R b (b.capture v) := by
    have := hL.write hR (fun b => { b with turn := i + 1 }) (fun b => { b with turn := i + 1 })
      (.of_eq rfl rfl rfl rfl rfl rfl rfl) rfl fun _ => rfl
    rwa [hv] at this
  obtain ⟨broker', kept, groups⟩ := p'
  cases hv
  cases hk
  cases hg
  have hbp : Together lost R { p with broker := b } ⟨b.capture v, p.stillPending, p.filledOcoGroups⟩ := .inr ⟨hb, rfl, rfl⟩
  unfold Pass.visit
  dsimp only
  cases ho : p.broker.pendingOrders[i]? with
  | none => exact hbp
  | some order =>
    have hrel : R (Pass.release b i order) (Pass.release (b.capture v) i order) := by
      unfold Pass.release
      split_ifs
      exacts [hL.edit hb i _, hb]
    have hdrop : ∀ f, Together lost R (Pass.drop h f { p with broker := b } (Pass.release b i order) i)
        (Pass.drop h' f ⟨b.capture v, p.stillPending, p.filledOcoGroups⟩ (Pass.release (b.capture v) i order) i) := fun f =>
      .inr ⟨hL.publish hrel i f, rfl, rfl⟩
    have hexp : Pass.expired (Pass.release (b.capture v) i order) order = Pass.expired (Pass.release b i order) order := by
      unfold Pass.release
      split <;> rfl
    show Together lost R (if (!order.isAlive) = true then _ else if Pass.held b order = true then _ else _)
      (if (!order.isAlive) = true then _ else if Pass.held b order = true then _ else _)
    by_cases halive : (!order.isAlive) = true
    · rw [if_pos halive, if_pos halive]; exact hbp
    rw [if_neg halive, if_neg halive]
    by_cases hh : Pass.held b order = true
    · rw [if_pos hh, if_pos hh]; exact hL.keep hbp i
    rw [if_neg hh, if_neg hh]
    obtain ⟨hquote, hQ⟩ := hserved order ho (by simpa using halive) (Bool.not_eq_true _ ▸ hh)
    unfold quote at hquote
    cases hf : feeds[order.dataIndex]? with
    | none =>
      rw [hf, Option.map_none, Option.map_eq_none_iff] at hquote
      rw [hquote]
      exact hdrop _
    | some feed =>
      rw [hf, Option.map_some, Option.map_eq_some_iff] at hquote
      obtain ⟨feed', hf', heq⟩ := hquote
      obtain ⟨hcur, hidx⟩ := Prod.mk.injEq .. ▸ heq
      rw [hf']
      dsimp only
      rw [hcur]
      cases feed.current? with
      | none => exact hL.keep (.inr ⟨hrel, rfl, rfl⟩) i
      | some bar =>
        show Together lost R (if Pass.expired (Pass.release b i order) order = true then _ else _)
          (if Pass.expired (Pass.release (b.capture v) i order) order = true then _ else _)
        rw [hexp]
        split_ifs
        · exact hdrop _
        · refine hL.match' (.inr ⟨hL.submitAccept hrel i order, rfl, rfl⟩) feed feed' hidx bar i _ fun o ho' => ?_
          rwa [Lined.get (hL.submitAccept_indexed b i order) ho ho']

theorem cancelOco {p : Pass α W} {p' : Pass α V} (hp : Together lost R p p') (j : Nat) :
    Together lost R (Pass.cancelOco h p j) (Pass.cancelOco h' p' j) := by
  rcases hp with hl | ⟨hR, hk, hg⟩
  · exact .inl (hL.stays.cancelOco j hl)
  unfold Pass.cancelOco
  rw [hk]
  cases p.stillPending[j]? with
  | none => exact .inr ⟨hR, hk, hg⟩
  | some order =>
    dsimp only
    simp only [hg]
    split_ifs
    exacts [.inr ⟨hL.order _ (hL.syncOrder hR _), rfl, rfl⟩, .inr ⟨hR, hk, hg⟩]

theorem cancelOcoSiblings {p : Pass α W} {p' : Pass α V} (hp : Together lost R p p') :
    Together lost R (Pass.cancelOcoSiblings h p) (Pass.cancelOcoSiblings h' p') := by
  rcases hp with hl | ⟨hR, hk, hg⟩
  · exact .inl (hL.stays.cancelOcoSiblings hl)
  have hf : Together lost R ((List.range p.stillPending.length).foldl (Pass.cancelOco h) p)
      ((List.range p.stillPending.length).foldl (Pass.cancelOco h') p') :=
    List.foldl_rel (.inr ⟨hR, hk, hg⟩) fun j _ p p' hp => hL.cancelOco hp j
  unfold Pass.cancelOcoSiblings
  rw [hk, hg]
  split_ifs
  · exact .inr ⟨hR, hk, hg⟩
  · exact hf.imp id fun ⟨hR, hk, hg⟩ => ⟨hR, congrArg (List.filter Order.isAlive) hk, hg⟩

/-- A pass reaches orders only where the feeds serve them. -/
def Serves (h : Hooks α W) (feeds feeds' : List (DataFeed α)) (Q : Nat → Prop) (b : BackBroker α W) : Prop :=
  ∀ i < b.pendingOrders.length, Served feeds feeds' Q (b.passAt h feeds i).broker i

theorem processOrders (hR : R b b') {feeds feeds' : List (DataFeed α)} (hserves : Serves h feeds feeds' Q b) :
    R (b.processOrders h feeds) (b'.processOrders h' feeds') := by
  rcases hL.same hR with hl | ⟨v, rfl⟩
  · exact hL.ofLost (hL.stays.processOrders feeds hl)
  have hpass : ∀ i ≤ b.pendingOrders.length, Together lost R (b.passAt h feeds i) ((b.capture v).passAt h' feeds' i) := by
    intro i hi
    induction i with
    | zero => exact .inr ⟨hR, rfl, rfl⟩
    | succ i ih =>
      unfold passAt
      rw [List.range_succ, List.foldl_append, List.foldl_append]
      exact hL.visit (ih (by omega)) i (hserves i hi)
  have hfinal := hL.cancelOcoSiblings (hpass _ (le_refl _))
  unfold BackBroker.processOrders
  rw [show (b.capture v).pendingOrders = b.pendingOrders from rfl]
  generalize Pass.cancelOcoSiblings h (b.passAt h feeds b.pendingOrders.length) = p at hfinal
  generalize Pass.cancelOcoSiblings h' ((b.capture v).passAt h' feeds' b.pendingOrders.length) = p' at hfinal
  rcases hfinal with hl | ⟨hR1, hk, -⟩
  · exact hL.ofLost (hL.stays.frame (b := p.broker) (.of_eq rfl rfl rfl rfl rfl rfl rfl) rfl hl)
  · unfold Pass.finish
    rw [hk]
    exact hL.write hR1 (fun b => { b with pendingOrders := p.stillPending, turn := 0 })
      (fun b => { b with pendingOrders := p.stillPending, turn := 0 }) (.of_eq rfl rfl rfl rfl rfl rfl rfl) rfl fun _ => rfl

theorem setBarIndex (hR : R b b') (idx : Nat) : R (b.setBarIndex idx) (b'.setBarIndex idx) :=
  hL.write hR (·.setBarIndex idx) (·.setBarIndex idx) (.of_eq rfl rfl rfl rfl rfl rfl rfl) rfl fun _ => rfl

end Lockstep
end BackBroker
end StratForge
