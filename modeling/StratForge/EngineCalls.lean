import StratForge.LiveEngine
import StratForge.LiveFill

/-!
# What a call does to the live engine

`Goes` says what a call of the engine or of its broker can do, whatever the strategy, the connector and
the user's callbacks do inside it: positions move by the bookings that are noted and by nothing else, an
order is offered to the connector once it is in the vectors (unless it belongs to a bracket), and the
limits stay. `owed` are the orders in the vectors that have not been offered yet.

`Sound` is what holds of the engine between any two steps, inside a call or not.
-/

namespace StratForge

variable {α W : Type} [Arith α]

/-- What a note does to the position of a data index. -/
def LiveNote.move (k : Nat) (size : α) : LiveNote α → α
  | .booking o prev t =>
    let size' := size + (t.size - (prev.map Trade.size).getD 0)
    if o.dataIndex = k then (if Arith.abs size' < 1e-10 then 0 else size') else size
  | _ => size

/-- The position of a data index as the notes have moved it. -/
def replay (k : Nat) (size : α) (notes : List (LiveNote α)) : α := notes.foldl (LiveNote.move k) size

@[simp] theorem replay_nil (k : Nat) (size : α) : replay k size [] = size := rfl

@[simp] theorem replay_append (k : Nat) (size : α) (ns ns' : List (LiveNote α)) :
    replay k size (ns ++ ns') = replay k (replay k size ns) ns' := List.foldl_append ..

namespace LiveEngine

/-- A closing order, of the `i`-th run of `flatten_positions`: `close` has read the position after that run
had begun and before anything of the order could be booked. -/
def Closing (hook : EngineHook α W) (e : LiveEngine α W) (o : Order α) (i : Nat) : Prop :=
  ∃ began ns, e.engine.flattens[i]? = some began ∧ ns <+: e.world.events ∧ began ≤ ns.length ∧
    (∀ o' prev t, LiveNote.booking o' prev t ∈ ns → o'.id < o.id) ∧
    o.side = (if 1e-10 < replay o.dataIndex 0 ns then .Sell else .Buy) ∧
    ∃ e', o.size = (hook o.side (Arith.abs (replay o.dataIndex 0 ns)) o.dataIndex e').1.finalSize

theorem Closing.mono {hook : EngineHook α W} {e e' : LiveEngine α W} {o : Order α} {i : Nat} (h : Closing hook e o i)
    (hf : e.engine.flattens <+: e'.engine.flattens) (hev : e.world.events <+: e'.world.events) :
    Closing hook e' o i := by
  obtain ⟨began, ns, hi, hns, h⟩ := h
  obtain ⟨l, hl⟩ := hf
  refine ⟨began, ns, ?_, hns.trans hev, h⟩
  rw [← hl, List.getElem?_append_left (List.getElem?_eq_some_iff.1 hi).1]
  exact hi

structure Sound (hook : EngineHook α W) (e : LiveEngine α W) : Prop where
  next_pos : 0 < e.nextOrderId
  lt : ∀ o ∈ e.allOrders, o.id < e.nextOrderId
  booked : ∀ o prev t, LiveNote.booking o prev t ∈ e.world.events → o.id < e.nextOrderId
  positions : ∀ k, (e.holding k).size = replay k 0 e.world.events
  closing : ∀ f ∈ e.engine.offers, ∀ i, f.own = some i → Closing hook e f.order i
  sorted : e.engine.flattens.Pairwise (· ≤ ·)
  began : ∀ m ∈ e.engine.flattens, m ≤ e.world.events.length

/-- What a call does. -/
structure Goes (hook : EngineHook α W) (owed : List Nat) (e e' : LiveEngine α W) : Prop where
  limits : e'.engine.limits = e.engine.limits
  next_le : e.nextOrderId ≤ e'.nextOrderId
  ids : e'.allOrders.map Order.id =
    e.allOrders.map Order.id ++ List.range' e.nextOrderId (e'.nextOrderId - e.nextOrderId)
  events : ∃ ns, e'.world.events = e.world.events ++ ns ∧ ∀ k, (e'.holding k).size = replay k (e.holding k).size ns
  flattens : e.engine.flattens <+: e'.engine.flattens
  offers : ∃ fs, e'.engine.offers = e.engine.offers ++ fs ∧
    (∀ f ∈ fs, f.passed = e.engine.limits.admits f.killed f.flattening f.recent) ∧
    ((∀ n, LiveNote.bracket n ∈ e'.world.events → n = 0) →
      (owed ++ fs.map (·.order.id)).Perm (List.range' e.nextOrderId (e'.nextOrderId - e.nextOrderId)))
  sound : Sound hook e → Sound hook e'

variable {hook : EngineHook α W} {owed : List Nat} {e e' e'' : LiveEngine α W}

omit [Arith α] in
theorem range'_split {a b c : Nat} (hab : a ≤ b) (hbc : b ≤ c) :
    List.range' a (c - a) = List.range' a (b - a) ++ List.range' b (c - b) := by
  have h1 : c - a = (b - a) + (c - b) := by omega
  have h2 : a + (b - a) = b := by omega
  rw [h1, ← List.range'_append_1, h2]

theorem Goes.prefix_events (h : Goes hook owed e e') : e.world.events <+: e'.world.events :=
  let ⟨ns, hns, _⟩ := h.events
  ⟨ns, hns.symm⟩

theorem Goes.trans (h : Goes hook owed e e') (h' : Goes hook [] e' e'') : Goes hook owed e e'' where
  limits := h'.limits.trans h.limits
  next_le := h.next_le.trans h'.next_le
  ids := by rw [h'.ids, h.ids, List.append_assoc, ← range'_split h.next_le h'.next_le]
  events := by
    obtain ⟨ns, hns, hpos⟩ := h.events
    obtain ⟨ns', hns', hpos'⟩ := h'.events
    exact ⟨ns ++ ns', by rw [hns', hns, List.append_assoc], fun k => by rw [hpos', hpos, replay_append]⟩
  flattens := h.flattens.trans h'.flattens
  offers := by
    obtain ⟨fs, hfs, hadm, hperm⟩ := h.offers
    obtain ⟨fs', hfs', hadm', hperm'⟩ := h'.offers
    refine ⟨fs ++ fs', by rw [hfs', hfs, List.append_assoc], fun f hf => ?_, fun hbr => ?_⟩
    · rcases List.mem_append.1 hf with hf | hf
      exacts [hadm f hf, h.limits ▸ hadm' f hf]
    · rw [List.map_append, ← List.append_assoc, range'_split h.next_le h'.next_le]
      exact (hperm fun n hn => hbr n (h'.prefix_events.mem hn)).append (hperm' hbr)
  sound hs := h'.sound (h.sound hs)

/-- A change that submits and offers nothing: the vectors keep their ids, and the positions move with the
notes that are made. -/
theorem Goes.frame (ns : List (LiveNote α)) (hids : e'.allOrders.map Order.id = e.allOrders.map Order.id)
    (hnext : e'.nextOrderId = e.nextOrderId) (hev : e'.world.events = e.world.events ++ ns)
    (hpos : ∀ k, (e'.holding k).size = replay k (e.holding k).size ns)
    (hbook : Sound hook e → ∀ o prev t, LiveNote.booking o prev t ∈ ns → o.id < e.nextOrderId)
    (hlim : e'.engine.limits = e.engine.limits) (hoff : e'.engine.offers = e.engine.offers)
    (hfl : e'.engine.flattens = e.engine.flattens) : Goes hook [] e e' where
  limits := hlim
  next_le := hnext.ge
  ids := by rw [hids, hnext, Nat.sub_self, List.range'_zero, List.append_nil]
  events := ⟨ns, hev, hpos⟩
  flattens := hfl ▸ List.prefix_rfl
  offers := ⟨[], by rw [hoff, List.append_nil], by simp, fun _ => by rw [hnext, Nat.sub_self]; exact .refl _⟩
  sound hs := by
    refine ⟨hnext ▸ hs.next_pos, fun o ho => ?_, fun o prev t ho => ?_, fun k => ?_, fun f hf i hi => ?_,
      hfl ▸ hs.sorted, fun m hm => ?_⟩
    · obtain ⟨o', ho', heq⟩ := List.mem_map.1 (hids ▸ List.mem_map_of_mem ho : o.id ∈ e.allOrders.map Order.id)
      rw [hnext, ← heq]
      exact hs.lt o' ho'
    · rw [hnext]
      rw [hev] at ho
      rcases List.mem_append.1 ho with ho | ho
      exacts [hs.booked o prev t ho, hbook hs o prev t ho]
    · rw [hpos, hs.positions, hev, replay_append]
    · exact (hs.closing f (hoff ▸ hf) i hi).mono (hfl ▸ List.prefix_rfl) ⟨ns, hev.symm⟩
    · rw [hev, List.length_append]
      exact (hs.began m (hfl ▸ hm)).trans (Nat.le_add_right ..)

/-- A change to none of this. -/
theorem Goes.same (hids : e'.allOrders.map Order.id = e.allOrders.map Order.id)
    (hnext : e'.nextOrderId = e.nextOrderId) (hev : e'.world.events = e.world.events)
    (hpos : ∀ k, e'.holding k = e.holding k) (hlim : e'.engine.limits = e.engine.limits)
    (hoff : e'.engine.offers = e.engine.offers) (hfl : e'.engine.flattens = e.engine.flattens) : Goes hook [] e e' :=
  .frame [] hids hnext (by rw [hev, List.append_nil]) (fun k => by rw [hpos]; rfl) (by simp) hlim hoff hfl

theorem Goes.refl (e : LiveEngine α W) : Goes hook [] e e := .same rfl rfl rfl (fun _ => rfl) rfl rfl rfl

theorem Goes.setBusy (e : LiveEngine α W) (ids : List Nat) : Goes hook [] e (e.setBusy ids) :=
  .same rfl rfl rfl (fun _ => rfl) rfl rfl rfl

theorem Goes.set (e : LiveEngine α W) {f : Engine α W → Engine α W} (hlim : (f e.engine).limits = e.engine.limits)
    (hoff : (f e.engine).offers = e.engine.offers) (hfl : (f e.engine).flattens = e.engine.flattens) :
    Goes hook [] e (modify f e) := .same rfl rfl rfl (fun _ => rfl) hlim hoff hfl

theorem Goes.captured (e : LiveEngine α W) (captured : W) :
    Goes hook [] e (LiveEngine.modify ({ · with captured }) e) := .set e rfl rfl rfl

/-- `flatten_positions` begins. -/
theorem Goes.begin (e : LiveEngine α W) : Goes hook [] e (LiveEngine.modify (fun g =>
    { g with flattening := true, flattens := g.flattens ++ [e.world.events.length] }) e) := by
  have h : Goes hook [] e (LiveEngine.modify ({ · with flattening := true }) e) := .set e rfl rfl rfl
  refine ⟨h.limits, h.next_le, h.ids, h.events, List.prefix_append .., h.offers, fun hs => ?_⟩
  refine ⟨hs.next_pos, hs.lt, hs.booked, hs.positions, fun f hf i hi =>
    (hs.closing f hf i hi).mono (List.prefix_append ..) List.prefix_rfl, ?_, fun m hm => ?_⟩
  · show (e.engine.flattens ++ [e.world.events.length]).Pairwise (· ≤ ·)
    rw [List.pairwise_append]
    refine ⟨hs.sorted, List.pairwise_singleton .., fun m hm m' hm' => ?_⟩
    rw [List.mem_singleton.1 hm']
    exact hs.began m hm
  · rcases List.mem_append.1 (show m ∈ e.engine.flattens ++ [e.world.events.length] from hm) with hm | hm
    exacts [hs.began m hm, (List.mem_singleton.1 hm).le]

/-- A note that is not of a booking. -/
theorem Goes.note (e : LiveEngine α W) {n : LiveNote α} (hn : ∀ o prev t, n ≠ .booking o prev t) :
    Goes hook [] e (e.liveNote n) := by
  refine .frame [n] rfl rfl rfl (fun k => ?_) (fun _ o prev t ho => ?_) rfl rfl rfl
  · cases n with
    | booking o prev t => exact absurd rfl (hn o prev t)
    | bracket _ => rfl
    | cancelled _ _ => rfl
  · exact absurd (List.mem_singleton.1 ho).symm (hn o prev t)

/-! ### The broker's commands -/

theorem Goes.push (h : Goes hook owed e e') {o : Order α} (hid : o.id = e'.nextOrderId) :
    Goes hook (o.id :: owed) e (e'.pushOrder o) := by
  have hsub : e'.nextOrderId + 1 - e.nextOrderId = (e'.nextOrderId - e.nextOrderId) + 1 := by
    have := h.next_le
    omega
  have hlast : e.nextOrderId + (e'.nextOrderId - e.nextOrderId) = o.id := by
    have := h.next_le
    omega
  have hrange : List.range' e.nextOrderId (e'.nextOrderId + 1 - e.nextOrderId) =
      List.range' e.nextOrderId (e'.nextOrderId - e.nextOrderId) ++ [o.id] := by
    rw [hsub, ← List.range'_append_1, hlast]; rfl
  constructor
  case limits => exact h.limits
  case next_le => exact h.next_le.trans (Nat.le_succ _)
  case ids =>
    show (e'.allOrders ++ [o]).map Order.id = _
    rw [List.map_append, h.ids, List.append_assoc]
    exact congrArg _ hrange.symm
  case events => exact h.events
  case flattens => exact h.flattens
  case offers =>
    obtain ⟨fs, hfs, hadm, hperm⟩ := h.offers
    refine ⟨fs, hfs, hadm, fun hbr => ?_⟩
    show (o.id :: owed ++ fs.map (·.order.id)).Perm (List.range' e.nextOrderId (e'.nextOrderId + 1 - e.nextOrderId))
    rw [hrange]
    exact ((hperm hbr).cons o.id).trans (List.perm_append_singleton ..).symm
  case sound =>
    intro hs
    have hs' := h.sound hs
    refine ⟨Nat.succ_pos _, fun x hx => ?_, fun x prev t hx => Nat.lt_succ_of_lt (hs'.booked x prev t hx), hs'.positions,
      fun f hf i hi => (hs'.closing f hf i hi).mono List.prefix_rfl List.prefix_rfl, hs'.sorted, hs'.began⟩
    show x.id < e'.nextOrderId + 1
    rcases List.mem_append.1 (show x ∈ e'.allOrders ++ [o] from hx) with hx | hx
    · exact Nat.lt_succ_of_lt (hs'.lt x hx)
    · rw [List.mem_singleton.1 hx, hid]
      exact Nat.lt_succ_self _

/-- An order that was owed is offered. -/
theorem Goes.offer {o : Order α} (h : Goes hook (o.id :: owed) e e') {f : Offer α} (hf : f.order = o)
    (hadm : f.passed = e.engine.limits.admits f.killed f.flattening f.recent)
    (hown : ∀ i, f.own = some i → Sound hook e → Closing hook e' o i) :
    Goes hook owed e (modify (fun g => { g with offers := g.offers ++ [f] }) e') := by
  refine ⟨h.limits, h.next_le, h.ids, h.events, h.flattens, ?_, fun hs => ?_⟩
  · obtain ⟨fs, hfs, hadm', hperm⟩ := h.offers
    refine ⟨fs ++ [f], ?_, fun f' hf' => ?_, fun hbr => ?_⟩
    · show e'.engine.offers ++ [f] = _
      rw [hfs, List.append_assoc]
    · rcases List.mem_append.1 hf' with hf' | hf'
      · exact hadm' f' hf'
      · rw [List.mem_singleton.1 hf', hadm]
    · refine List.Perm.trans ?_ (hperm hbr)
      rw [List.map_append, ← List.append_assoc, List.map_singleton, hf]
      exact List.perm_append_singleton ..
  · have hs' := h.sound hs
    refine ⟨hs'.next_pos, hs'.lt, hs'.booked, hs'.positions, fun f' hf' i hi => ?_, hs'.sorted, hs'.began⟩
    rcases List.mem_append.1 (show f' ∈ e'.engine.offers ++ [f] from hf') with hf' | hf'
    · exact (hs'.closing f' hf' i hi).mono List.prefix_rfl List.prefix_rfl
    · obtain rfl := List.mem_singleton.1 hf'
      exact hf ▸ (hown i hi hs).mono List.prefix_rfl List.prefix_rfl

/-- A world that does what calls do. -/
def EngineTame (env : Env α W) : Prop := ∀ ev e, Goes env.preOrderHook [] e (env.call ev e)

/-- The connector's `submit_order`, which takes an order that is owed. -/
def Submits (hook : EngineHook α W) (own : Option Nat) (submit : Order α → LiveEngine α W → LiveEngine α W) : Prop :=
  ∀ o e e', Goes hook [o.id] e e' → (∀ i, own = some i → Sound hook e → Closing hook e' o i) →
    Goes hook [] e (submit o e')

section
variable {env : Env α W} {submit : Order α → LiveEngine α W → LiveEngine α W} {own : Option Nat}

theorem syncBoth_goes (e : LiveEngine α W) (o : Order α) : Goes hook [] e (e.syncBoth o) :=
  .same (Keyed.map_key_modify_findIdx fun _ _ => rfl) rfl rfl (fun _ => rfl) rfl rfl rfl

theorem announce_goes (hc : EngineTame env) (o : Order α) (e : LiveEngine α W) :
    Goes env.preOrderHook [] e (e.announce (hooksWith env submit) o) :=
  (((syncBoth_goes e _).trans (hc _ _)).trans (syncBoth_goes _ _)).trans (hc _ _)

/-- A submission throws, is rejected by the hook, or hands an order with a new id to the connector. -/
theorem submitLiveOrder_cases (hc : EngineTame env) (side : OrderSide) (size : α) (params : OrderParams α)
    (e : LiveEngine α W) :
    (∃ err, BackBroker.submitLiveOrder (hooksWith env submit) side size params e = .error err) ∨
    (∃ captured, BackBroker.submitLiveOrder (hooksWith env submit) side size params e =
      .ok (0, modify ({ · with captured }) e)) ∨
    ∃ o e', BackBroker.submitLiveOrder (hooksWith env submit) side size params e = .ok (o.id, submit o e') ∧
      Goes env.preOrderHook [o.id] e e' ∧ o.id = e.nextOrderId ∧ o.side = side ∧ o.dataIndex = params.dataIndex ∧
      o.size = (env.preOrderHook side size params.dataIndex e).1.finalSize := by
  unfold BackBroker.submitLiveOrder
  split
  · exact .inl ⟨_, rfl⟩
  · let por := (env.preOrderHook side size params.dataIndex e).1
    let captured := (env.preOrderHook side size params.dataIndex e).2
    rw [show (hooksWith env submit).preOrderHook side size params.dataIndex e =
      (por, { e.world with rest := { e.world.rest with captured } }) from rfl]
    dsimp only
    split
    · exact .inr (.inl ⟨captured, rfl⟩)
    · let e1 : LiveEngine α W := modify ({ · with captured }) e
      let o := BackBroker.newOrder e1 side por params
      have hs : o.SameFill o.submit.accept := (Order.SameFill.setStatus o _).trans (.setStatus o.submit _)
      have hpush : Goes env.preOrderHook [o.id] e (((e1.pushOrder o).setBusy (o.id :: e1.world.busy))) :=
        ((Goes.set e rfl rfl rfl).push rfl).trans (.same rfl rfl rfl (fun _ => rfl) rfl rfl rfl)
      have hcalls : Goes env.preOrderHook [o.id] e
          (BackBroker.announce (hooksWith env submit) o ((e1.pushOrder o).setBusy (o.id :: e1.world.busy))) :=
        hpush.trans (announce_goes hc o _)
      have hann := hcalls.trans (.setBusy _ e1.world.busy)
      exact .inr (.inr ⟨o.submit.accept, _, by rw [hs.id]; rfl, hs.id ▸ hann, hs.id, hs.side, hs.dataIndex, hs.size⟩)

/-- `buy`, `sell` and their `_ext` variants. -/
theorem submitLiveOrder_goes (hc : EngineTame env) (hsub : Submits env.preOrderHook none submit) (side : OrderSide)
    (size : α) (params : OrderParams α) (e : LiveEngine α W) : Goes env.preOrderHook [] e
      (e.orUnchanged ((BackBroker.submitLiveOrder (hooksWith env submit) side size params e).map Prod.snd)) := by
  rcases @submitLiveOrder_cases _ _ _ env submit hc side size params e with ⟨err, h⟩ | ⟨captured, h⟩ | ⟨o, e', h, hgoes, -⟩
  · rw [h]
    exact .refl e
  · rw [h]
    exact .captured e captured
  · rw [h]
    exact hsub o e e' hgoes (fun i hi => nomatch hi)

/-- `close`, also when `flatten_positions` calls it. -/
theorem closeLive_goes (hc : EngineTame env) (hsub : Submits env.preOrderHook own submit) (k : Nat) (e : LiveEngine α W)
    (hown : ∀ i, own = some i → ∃ began, e.engine.flattens[i]? = some began ∧ began ≤ e.world.events.length) :
    Goes env.preOrderHook [] e (BackBroker.closeLive (hooksWith env submit) k e).1 := by
  let e1 : LiveEngine α W := e.ensurePosition k
  have h1 : Goes env.preOrderHook [] e e1 :=
    .same rfl rfl rfl (@BackBroker.holding_ensured _ _ _ e e1 rfl ⟨[k], rfl⟩) rfl rfl rfl
  unfold BackBroker.closeLive BackBroker.liveOrder
  dsimp only
  split
  · exact h1
  · let side := if (e1.position k).isLong then OrderSide.Sell else .Buy
    let params : OrderParams α := { OrderParams.default with type := .Market, price := 0, stopPrice := none, dataIndex := k }
    rcases @submitLiveOrder_cases _ _ _ env submit hc side (Arith.abs (e1.position k).size) params e1 with
      ⟨err, h⟩ | ⟨captured, h⟩ | ⟨o, e', h, hgoes, hid, hside, hk, hsize⟩
    · rw [h]
      exact h1
    · rw [h]
      exact h1.trans (.captured e1 captured)
    · rw [h]
      refine h1.trans (hsub o e1 e' hgoes fun i hi hs => ?_)
      obtain ⟨began, hbegan, hle⟩ := hown i hi
      have hpos : (e1.position k).size = replay o.dataIndex 0 e1.world.events := by
        rw [BackBroker.position_size, hs.positions, hk]
      refine (show Closing env.preOrderHook e1 o i from ⟨began, e1.world.events, hbegan, List.prefix_rfl, hle,
        fun o' prev t ho' => hid ▸ hs.booked o' prev t ho', ?_, e1, ?_⟩).mono hgoes.flattens hgoes.prefix_events
      · rw [hside, ← hpos]
        simp only [side, Position.isLong, decide_eq_true_eq]
      · rw [hsize, hside, ← hpos, hk]

theorem cancelLiveOrder_goes (hc : EngineTame env) (id : Nat) (e : LiveEngine α W) : Goes env.preOrderHook [] e
    (e.orUnchanged (BackBroker.cancelLiveOrder (hooksWith env submit) id e)) := by
  unfold BackBroker.cancelLiveOrder
  split
  · exact .refl e
  · have h1 := hc (.cancelOrder id) e
    dsimp only
    split
    · exact h1
    · rename_i r _
      have h2 : Goes env.preOrderHook [] e (if r.isAlive then (env.call (.cancelOrder id) e).liveNote
          (.cancelled id (env.call (.cancelOrder id) e).world.busy) else env.call (.cancelOrder id) e) := by
        split
        · exact h1.trans (.note _ fun _ _ _ hn => nomatch hn)
        · exact h1
      exact (h2.trans (syncBoth_goes _ _)).trans (hc _ _)

theorem submitOrderExt_goes (side : OrderSide) (size : α) (params : OrderParams α) (h : Goes env.preOrderHook owed e e') :
    ∃ owed', Goes env.preOrderHook owed' e
      (BackBroker.submitOrderExt (hooksWith env submit).toHooks side size params e').2 := by
  let por := (env.preOrderHook side size params.dataIndex e').1
  let captured := (env.preOrderHook side size params.dataIndex e').2
  have h1 : Goes env.preOrderHook owed e (modify ({ · with captured }) e') := h.trans (.captured e' captured)
  unfold BackBroker.submitOrderExt
  rw [show (hooksWith env submit).preOrderHook side size params.dataIndex e' =
    (por, { e'.world with rest := { e'.world.rest with captured } }) from rfl]
  dsimp only
  split
  · exact ⟨owed, h1⟩
  · exact ⟨_, h1.push rfl⟩

/-- A bracket that has put orders in the vectors has said so, and owes nothing. -/
theorem Goes.bracket (h : Goes hook owed e e') :
    Goes hook [] e (e'.liveNote (.bracket (e'.nextOrderId - e.nextOrderId))) := by
  have hn := h.trans (.note e' (n := .bracket (e'.nextOrderId - e.nextOrderId)) fun _ _ _ hn => nomatch hn)
  refine ⟨hn.limits, hn.next_le, hn.ids, hn.events, hn.flattens, ?_, hn.sound⟩
  obtain ⟨fs, hfs, hadm, hperm⟩ := hn.offers
  refine ⟨fs, hfs, hadm, fun hbr => ?_⟩
  have hzero : e'.nextOrderId - e.nextOrderId = 0 := hbr _ (List.mem_append_right _ (List.mem_singleton_self _))
  have hnil := hperm hbr
  rw [show List.range' e.nextOrderId ((e'.liveNote (.bracket (e'.nextOrderId - e.nextOrderId))).nextOrderId -
    e.nextOrderId) = [] from congrArg (List.range' e.nextOrderId) hzero, List.perm_nil, List.append_eq_nil_iff] at hnil
  rw [hnil.2, show List.range' e.nextOrderId ((e'.liveNote (.bracket (e'.nextOrderId - e.nextOrderId))).nextOrderId -
    e.nextOrderId) = [] from congrArg (List.range' e.nextOrderId) hzero]
  exact .refl _

theorem linkChildren_goes (e : LiveEngine α W) (id : Nat) (ids : List Nat) : Goes hook [] e (e.linkChildren id ids) :=
  .same (Keyed.map_key_modify_findIdx fun _ h => h) rfl rfl (fun _ => rfl) rfl rfl rfl

theorem bracketLive_goes (mainSide legSide : OrderSide) (size limitPrice stopPrice : α) (k : Nat)
    (e : LiveEngine α W) : Goes env.preOrderHook [] e
      (BackBroker.bracketLive (hooksWith env submit) mainSide legSide size limitPrice stopPrice k e) := by
  have h0 : Goes env.preOrderHook [] e { e with nextOcoGroupId := e.nextOcoGroupId + 1 } :=
    .same rfl rfl rfl (fun _ => rfl) rfl rfl rfl
  have submits : ∀ {e'} side size params, (∃ owed, Goes env.preOrderHook owed e e') →
      ∃ owed, Goes env.preOrderHook owed e (BackBroker.submitOrderExt (hooksWith env submit).toHooks side size params e').2 :=
    fun side size params ⟨_, h⟩ => submitOrderExt_goes side size params h
  have ends : ∀ {e' : LiveEngine α W} id ids, (∃ owed, Goes env.preOrderHook owed e e') → Goes env.preOrderHook [] e
      ((e'.linkChildren id ids).liveNote (.bracket ((e'.linkChildren id ids).nextOrderId - e.nextOrderId))) :=
    fun id ids ⟨_, h⟩ => (h.trans (linkChildren_goes _ id ids)).bracket
  unfold BackBroker.bracketLive BackBroker.bracket BackBroker.submitOrder
  dsimp only
  exact ends _ _ (submits _ _ _ (submits _ _ _ (submits _ _ _ ⟨[], h0⟩)))

theorem execLive_goes (hc : EngineTame env) (hsub : Submits env.preOrderHook none submit) (c : Cmd α)
    (e : LiveEngine α W) : Goes env.preOrderHook [] e (e.execLive (hooksWith env submit) c) := by
  cases c with
  | buy | sell => exact submitLiveOrder_goes hc hsub ..
  | buyExt | sellExt => exact submitLiveOrder_goes hc hsub ..
  | buyBracket | sellBracket => exact bracketLive_goes ..
  | close k => exact closeLive_goes hc hsub k e fun i hi => nomatch hi
  | cancelOrder id => exact cancelLiveOrder_goes hc id e
  | nextOcoGroup => exact .same rfl rfl rfl (fun _ => rfl) rfl rfl rfl

/-! ### Fills -/

theorem updateTrades_goes (hc : EngineTame env) (k : Nat) (old s p c : α) (bar : Nat) (dt : DateTime) (cand : Nat)
    (e : LiveEngine α W) :
    Goes env.preOrderHook [] e (e.updateTrades (hooksWith env submit).toHooks k old s p c bar dt cand) := by
  have hsame : ∀ e' : LiveEngine α W, e'.allOrders = e.allOrders → e'.nextOrderId = e.nextOrderId → e'.world = e.world →
      e'.positions = e.positions → e'.toBrokerSettings = e.toBrokerSettings → Goes env.preOrderHook [] e e' := by
    intro e' ha hn hw hp hs
    have hpos : ∀ k, e'.holding k = e.holding k := BackBroker.holding_ensured hs ⟨[], hp⟩
    exact .same (by rw [ha]) hn (by rw [hw]) hpos (congrArg (·.rest.limits) hw) (congrArg (·.rest.offers) hw)
      (by unfold engine; rw [hw])
  have hretire : ∀ i t orig, Goes env.preOrderHook [] e (e.retireTrade (hooksWith env submit).toHooks i t orig) := by
    intro i t orig
    have h1 := hsame { e with openTrades := e.openTrades.set i (t, orig), closedTrades := e.closedTrades ++ [(t, orig)] }
      rfl rfl rfl rfl rfl
    exact (h1.trans (hc _ _)).trans (.same rfl rfl rfl (fun _ => rfl) rfl rfl rfl)
  have hopen : ∀ {e'} s p c, Goes env.preOrderHook [] e e' →
      Goes env.preOrderHook [] e (e'.openTrade k s p c bar dt cand) := fun s p c h =>
    h.trans (.same rfl rfl rfl (fun _ => rfl) rfl rfl rfl)
  unfold BackBroker.updateTrades
  dsimp only
  split_ifs
  · exact hopen _ _ _ (hsame _ rfl rfl rfl rfl rfl)
  · exact hsame _ rfl rfl rfl rfl rfl
  · split
    · exact hsame _ rfl rfl rfl rfl rfl
    · split_ifs
      · exact hopen _ _ _ (hretire ..)
      · exact hretire ..
      · exact hsame _ rfl rfl rfl rfl rfl

theorem recordLiveFill_goes (hc : EngineTame env) (t : Trade α) (e : LiveEngine α W) :
    Goes env.preOrderHook [] e (e.recordLiveFill (hooksWith env submit) t) := by
  have hsnap : ∀ {e' : LiveEngine α W} v, Goes env.preOrderHook [] e e' → Goes env.preOrderHook [] e (e'.setSnapshot t.id v) :=
    fun v h => h.trans (.same rfl rfl rfl (fun _ => rfl) rfl rfl rfl)
  unfold BackBroker.recordLiveFill
  split
  · exact .refl e
  · rename_i o hf
    dsimp only
    split
    · exact hsnap _ (.refl e)
    · -- the booking moves the position as its note says
      let prev := e.world.snapshots t.id
      let Δ := t.size - (prev.map Trade.size).getD 0
      let p := BackBroker.liveFillPrice prev t
      let comm := t.commission - (prev.map Trade.commission).getD 0
      let e1 : LiveEngine α W := ((((e.liveNote (.booking o prev t)).setBusy (o.id :: e.world.busy)).pay
        (e.settleCcy o.dataIndex) (Δ * p + comm)).ensurePosition o.dataIndex).updatePosition o.dataIndex Δ p
      have h1 : Goes env.preOrderHook [] e e1 := by
        refine .frame [.booking o prev t] rfl rfl rfl (fun k => ?_) (fun hs o' prev' t' ho' => ?_) rfl rfl rfl
        · have hk := BackBroker.holding_updatePosition (((e.liveNote (.booking o prev t)).setBusy (o.id :: e.world.busy)).pay
            (e.settleCcy o.dataIndex) (Δ * p + comm)) o.dataIndex Δ p k
          rw [show e1.holding k = _ from hk]
          show _ = LiveNote.move k (e.holding k).size (.booking o prev t)
          unfold LiveNote.move
          by_cases hk : k = o.dataIndex
          · rw [if_pos hk]
            dsimp only
            rw [if_pos hk.symm, Position.size_update]
            rfl
          · rw [if_neg hk]
            dsimp only
            rw [if_neg (Ne.symm hk)]
            rfl
        · cases List.mem_singleton.1 ho'
          exact hs.lt o (BackBroker.mem_of_findOrder hf).1
      have happ : Goes env.preOrderHook [] e ((e.liveNote (.booking o prev t)).applyLiveExecution
          (hooksWith env submit) o Δ p comm t) := by
        have h2 := h1.trans (@updateTrades_goes _ _ _ env submit hc o.dataIndex
          (((((e.liveNote (.booking o prev t)).setBusy (o.id :: e.world.busy)).pay
            (e.settleCcy o.dataIndex) (Δ * p + comm)).ensurePosition o.dataIndex).position o.dataIndex).size Δ p comm
          e1.dataBarIndex (if t.isClosed then t.exitTime else t.entryTime) o.candidateId e1)
        unfold BackBroker.applyLiveExecution BackBroker.bookLive
        dsimp only
        have h3 := h2.trans (.setBusy _ e.world.busy)
        split
        · exact h3
        · have h4 := fun x => (h3.trans (syncBoth_goes _ x)).trans (hc (.order x) _)
          split
          · exact (h4 _).trans (.same rfl rfl rfl (fun _ => rfl) rfl rfl rfl)
          · exact h4 _
      split
      · exact hsnap _ (hsnap _ happ)
      · exact hsnap _ happ

/-! ### The wrapper and the kill switch -/

/-- A trigger does what calls do. -/
def TriggerGoes (hook : EngineHook α W) (trigger : Trigger α W) : Prop :=
  ∀ reason e, Goes hook [] e (trigger reason e).1

variable {trigger : Trigger α W}

theorem checkOrderRate_goes (ht : TriggerGoes hook trigger) (e : LiveEngine α W) :
    Goes hook [] e (checkOrderRate trigger e).2.1 := by
  have hstamps : Goes hook [] e (modify ({ · with orderTimestamps := window e }) e) :=
    .set e rfl rfl rfl
  unfold checkOrderRate
  split
  · exact .refl e
  · dsimp only
    split_ifs
    · exact .refl e
    · exact hstamps.trans (ht _ _)
    · exact hstamps.trans (.same rfl rfl rfl (fun _ => rfl) rfl rfl rfl)

theorem submitOrder_submits (hc : EngineTame env) (ht : TriggerGoes env.preOrderHook trigger) (own : Option Nat) :
    Submits env.preOrderHook own (submitOrder env trigger own) := by
  intro o e e' h hown
  have hrate := @checkOrderRate_goes _ _ _ _ trigger ht e'
  have hfst := checkOrderRate_fst trigger e'
  unfold submitOrder
  rcases hr : checkOrderRate trigger e' with ⟨passed, e1, raised⟩
  rw [hr] at hrate hfst
  dsimp only at hrate hfst ⊢
  have hoffer := (h.trans hrate).offer (f := ⟨o, own, e'.engine.killSwitchTriggered, e'.engine.flattening,
    (window e').length, passed, e'.engine.now⟩) rfl (by rw [← h.limits]; exact hfst)
    fun i hi hs => (hown i hi hs).mono hrate.flattens hrate.prefix_events
  refine Goes.trans (?_ : Goes env.preOrderHook [] e _) (.set _ rfl rfl rfl)
  split
  · exact hoffer.trans (hc _ _)
  · exact hoffer

theorem closeFrom_goes (hc : EngineTame env) (hsub : Submits env.preOrderHook own submit) :
    ∀ fuel k (e : LiveEngine α W),
      (∀ i, own = some i → ∃ began, e.engine.flattens[i]? = some began ∧ began ≤ e.world.events.length) →
      Goes env.preOrderHook [] e (closeFrom (hooksWith env submit) k fuel e).1
  | 0, _, e, _ => .refl e
  | fuel + 1, k, e, hown => by
    unfold closeFrom
    split
    · exact .refl e
    · split
      · exact closeFrom_goes hc hsub fuel (k + 1) e hown
      · have h1 : Goes env.preOrderHook [] e (modify ({ · with raised := none }) e) := .set e rfl rfl rfl
        have h2 := h1.trans (closeLive_goes hc hsub k (modify ({ · with raised := none }) e) hown)
        rcases hr : BackBroker.closeLive (hooksWith env submit) k (modify ({ · with raised := none }) e) with ⟨e2, _ | err⟩
        · rw [hr] at h2
          dsimp only
          split
          · exact h2
          · refine h2.trans (closeFrom_goes hc hsub fuel (k + 1) e2 fun i hi => ?_)
            obtain ⟨began, hbegan, hle⟩ := hown i hi
            obtain ⟨l, hl⟩ := h2.flattens
            refine ⟨began, ?_, hle.trans h2.prefix_events.length_le⟩
            rw [← hl, List.getElem?_append_left (List.getElem?_eq_some_iff.1 hbegan).1]
            exact hbegan
        · rw [hr] at h2
          exact h2

theorem flattenPositions_goes (hc : EngineTame env) (ht : TriggerGoes env.preOrderHook trigger) (e : LiveEngine α W) :
    Goes env.preOrderHook [] e (flattenPositions env trigger e).1 := by
  let e1 : LiveEngine α W :=
    modify (fun g => { g with flattening := true, flattens := g.flattens ++ [e.world.events.length] }) e
  have h1 : Goes env.preOrderHook [] e e1 := .begin e
  have h2 := h1.trans (closeFrom_goes hc (submitOrder_submits hc ht (some e.engine.flattens.length))
    (e1.engine.feeds.length + env.spare) 0 e1 fun i hi => by
      obtain rfl := Option.some.inj hi
      exact ⟨e.world.events.length, by simp [e1, modify, engine, BackBroker.setRest], le_refl _⟩)
  unfold flattenPositions
  dsimp only
  split
  · rename_i hr
    rw [hr] at h2
    exact h2
  · rename_i hr
    rw [hr] at h2
    exact h2.trans (.same rfl rfl rfl (fun _ => rfl) rfl rfl rfl)

theorem triggerKillSwitch_goes (hc : EngineTame env) : TriggerGoes env.preOrderHook (triggerKillSwitch env) := by
  intro reason e
  have h1 : Goes env.preOrderHook [] e
      (modify ({ · with killSwitchTriggered := true, killSwitchReason := reason }) e) := .set e rfl rfl rfl
  unfold triggerKillSwitch
  dsimp only
  split_ifs
  · exact .refl e
  · exact h1.trans (flattenPositions_goes hc (fun _ e => .refl e) _)
  · exact h1

theorem hooks_submits (hc : EngineTame env) :
    Submits env.preOrderHook none (submitOrder env (triggerKillSwitch env) none) :=
  submitOrder_submits hc (triggerKillSwitch_goes hc) none

theorem evaluateRiskLimits_goes (hc : EngineTame env) (e : LiveEngine α W) :
    Goes env.preOrderHook [] e (evaluateRiskLimits env e) := by
  unfold evaluateRiskLimits
  split
  · exact .refl e
  · split
    · exact .set e rfl rfl rfl
    · rename_i value _
      have h1 : ∀ peak, Goes env.preOrderHook [] e (modify ({ · with peakPortfolioValue := peak }) e) :=
        fun peak => .set e rfl rfl rfl
      dsimp only
      generalize (if e.engine.peakPortfolioValue < value then value else e.engine.peakPortfolioValue) = peak
      split_ifs
      · exact (h1 peak).trans (triggerKillSwitch_goes hc _ _)
      · exact (h1 peak).trans (triggerKillSwitch_goes hc _ _)
      · exact h1 peak

/-! ### Handlers and runs -/

theorem setSymbols_goes (e : LiveEngine α W) (feeds : List (String × DataFeed α)) :
    Goes hook [] e (setSymbols (modify ({ · with feeds }) e)) :=
  .same rfl rfl rfl (fun _ => rfl) rfl rfl rfl

theorem ensureFeed_goes (hc : EngineTame env) (symbol : String) (e : LiveEngine α W) :
    Goes env.preOrderHook [] e (ensureFeed env symbol e) := by
  unfold ensureFeed
  split
  · exact .refl e
  · dsimp only
    split
    · exact (setSymbols_goes e _).trans (hc _ _)
    · exact setSymbols_goes e _

/-- A snapshot has come in. -/
def received (e : LiveEngine α W) : LiveEngine α W :=
  modify (fun g => { g with lastMarketDataTime := g.now, reconnectAttempts := 0, links := g.links ++ [.snapshot] }) e

theorem handleMarketData_goes (hc : EngineTame env) (s : MarketDataSnapshot α) (e : LiveEngine α W) :
    Goes env.preOrderHook [] e (handleMarketData env s e) := by
  have hshown : ∀ (e1 : LiveEngine α W) i n, Goes env.preOrderHook [] e1 (BackBroker.setBarIndex
      (modify (fun g => { g with feeds := g.feeds.modify i fun x => (x.1, x.2.pushSnapshot s) }) e1) n) := fun e1 i n =>
    .same rfl rfl rfl (fun _ => rfl) rfl rfl rfl
  have h1 : Goes env.preOrderHook [] e (ensureFeed env s.symbol (received e)) :=
    (Goes.set e rfl rfl rfl).trans (ensureFeed_goes hc s.symbol _)
  have h2 := fun i n => h1.trans (hshown _ i n)
  unfold handleMarketData
  refine Goes.trans (?_ : Goes env.preOrderHook [] e _) (evaluateRiskLimits_goes hc _)
  dsimp only
  split_ifs
  · exact (h2 _ _).trans (hc _ _)
  · exact ((h2 _ _).trans (hc _ _)).trans (.set _ rfl rfl rfl)
  · exact (h2 _ _).trans (hc _ _)

theorem subscribeAll_goes (hc : EngineTame env) (e : LiveEngine α W) : Goes env.preOrderHook [] e (subscribeAll env e) :=
  Fold.foldl_ind (Goes env.preOrderHook [] e) e.engine.feeds e (.refl e) fun _ _ _ h => h.trans (hc _ _)

theorem tryReconnect_goes (hc : EngineTame env) (e : LiveEngine α W) : Goes env.preOrderHook [] e (tryReconnect env e) := by
  unfold tryReconnect
  dsimp only
  split_ifs
  · exact .refl e
  · exact triggerKillSwitch_goes hc _ _
  · exact ((Goes.set e rfl rfl rfl).trans (hc _ _)).trans (subscribeAll_goes hc _)

theorem handleConnectorState_goes (hc : EngineTame env) (s : ConnectorState) (e : LiveEngine α W) :
    Goes env.preOrderHook [] e (handleConnectorState env s e) := by
  unfold handleConnectorState
  dsimp only
  split_ifs
  · exact (hc _ _).trans (tryReconnect_goes hc _)
  · exact (hc _ _).trans (triggerKillSwitch_goes hc _ _)
  · exact hc _ _

theorem checkHeartbeat_goes (hc : EngineTame env) (now : Int) (e : LiveEngine α W) :
    Goes env.preOrderHook [] e (checkHeartbeat env now e) := by
  unfold checkHeartbeat
  split
  · exact .refl e
  · split_ifs
    · exact .refl e
    · exact triggerKillSwitch_goes hc _ _
    · exact .refl e

theorem start_goes (hc : EngineTame env) (e : LiveEngine α W) : Goes env.preOrderHook [] e (start env e) := by
  have h1 : Goes env.preOrderHook [] e (setSymbols (modify ({ · with live := true }) e)) :=
    .same rfl rfl rfl (fun _ => rfl) rfl rfl rfl
  unfold start
  split
  · exact .refl e
  · exact (((((h1.trans (hc _ _)).trans (hc _ _)).trans (.set _ rfl rfl rfl)).trans (hc _ _)).trans
      (subscribeAll_goes hc _)).trans (.set _ rfl rfl rfl)

theorem stop_goes (hc : EngineTame env) (e : LiveEngine α W) : Goes env.preOrderHook [] e (stop env e) := by
  have hflat := @flattenPositions_goes _ _ _ env (triggerKillSwitch env) hc (triggerKillSwitch_goes hc) e
  have hend : ∀ {e'}, Goes env.preOrderHook [] e e' → Goes env.preOrderHook [] e
      (modify ({ · with started := false, active := false }) (env.call .disconnect (env.call (.strategy .stop) e'))) :=
    fun h => ((h.trans (hc _ _)).trans (hc _ _)).trans (.set _ rfl rfl rfl)
  unfold stop
  split
  · exact .refl e
  · split_ifs
    · rcases hr : flattenPositions env (triggerKillSwitch env) e with ⟨e', _ | err⟩ <;> rw [hr] at hflat
      exacts [hend hflat, hflat]
    · exact hend (.refl e)

theorem exec_goes (hc : EngineTame env) (c : EngineCmd α) (e : LiveEngine α W) :
    Goes env.preOrderHook [] e (exec env c e) := by
  unfold exec
  split
  · exact .refl e
  · cases c with
    | broker c =>
      dsimp only
      split
      exacts [execLive_goes hc (hooks_submits hc) c e, .refl e]
    | marketData s =>
      dsimp only
      split
      exacts [handleMarketData_goes hc s e, .refl e]
    | fill t =>
      dsimp only
      split
      exacts [(recordLiveFill_goes hc t e).trans (evaluateRiskLimits_goes hc _), .refl e]
    | connectorState s =>
      dsimp only
      split
      exacts [handleConnectorState_goes hc s e, .refl e]
    | subscribe symbol =>
      dsimp only [subscribe]
      split_ifs
      · exact hc _ _
      · exact .refl e
      · exact (setSymbols_goes e _).trans (hc _ _)
      · exact setSymbols_goes e _
    | start => exact start_goes hc e
    | stop => exact stop_goes hc e
    | replaceStrategy =>
      dsimp only [replaceStrategy]
      split_ifs
      · exact .refl e
      · exact (((hc _ _).trans (hc _ _)).trans (hc _ _)).trans (.set _ rfl rfl rfl)
    | checkHeartbeat now => exact checkHeartbeat_goes hc now e
    | tryReconnect => exact tryReconnect_goes hc e
    | tick d => exact .set e rfl rfl rfl

theorem run_goes (hc : EngineTame env) (cs : List (EngineCmd α)) (e : LiveEngine α W) :
    Goes env.preOrderHook [] e (run env e cs) :=
  Fold.foldl_ind (Goes env.preOrderHook [] e) cs e (.refl e) fun _ _ _ h => h.trans (exec_goes hc _ _)

end

theorem Unstarted.sound (h : e.Unstarted) : Sound hook e := by
  refine ⟨by rw [h.nextOrderId]; exact Nat.one_pos, fun o ho => ?_, fun o prev t ho => ?_, fun k => ?_, fun f hf => ?_,
    by rw [h.flattens]; exact .nil, by simp [h.flattens]⟩
  · rw [h.allOrders] at ho
    cases ho
  · rw [h.events] at ho
    cases ho
  · unfold BackBroker.holding BackBroker.findPosition
    rw [h.positions, h.events]
    rfl
  · rw [h.offers] at hf
    cases hf

end LiveEngine

/-- By induction on the bound on the callbacks. -/
theorem EngineListener.react_goes (L : EngineListener α W) :
    ∀ n ev e, LiveEngine.Goes L.preOrderHook [] e (L.react n ev e)
  | 0, _, e => .refl e
  | n + 1, ev, e => by
    unfold EngineListener.react
    rcases L.act ev e with ⟨captured, _ | c⟩
    · exact .captured e captured
    · have hc : LiveEngine.EngineTame (L.envOf (L.react n)) := react_goes L n
      exact ((LiveEngine.Goes.captured e captured).trans (LiveEngine.exec_goes hc c _)).trans (react_goes L n ev _)

theorem EngineListener.tame (L : EngineListener α W) (fuel : Nat) : LiveEngine.EngineTame (L.env fuel) :=
  L.react_goes fuel

end StratForge
