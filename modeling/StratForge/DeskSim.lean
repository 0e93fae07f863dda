import StratForge.Callbacks
import StratForge.DeskBack
import StratForge.Fold

/-!
# The broker refines the desk

`BackBroker.desk` reads the desk off a broker. `react_reach`: whatever the callbacks do is a sequence
of `Desk.Call`s and leaves the books alone (`Quiet`). `processOrders_path`: a pass is a sequence of
`Desk.Move`s. Both hold for every listener and every bound on its callbacks.
-/

namespace StratForge
open Relation

variable {α W : Type}

/-- Where the broker is: between operations, or in a pass over the first `n` pending orders that is done
with the first `c`. -/
inductive Place (α : Type)
  | between
  | inPass (c n : Nat) (kept : List (Order α)) (groups : List Nat) (phase : Phase)

def Place.Fits (b : BackBroker α W) : Place α → Prop
  | .between => b.turn = 0
  | .inPass c n _ _ phase => c ≤ n ∧ n ≤ b.pendingOrders.length ∧ c ≤ b.turn ∧ 0 < b.turn ∧
      (phase ≠ .idle → c < b.turn)

namespace BackBroker
variable {b b' b'' : BackBroker α W} {i id lo : Nat} {e o : Order α} {f : Order α → Order α}

def desk (b : BackBroker α W) : Place α → Desk α
  | .between =>
    { ids := b.allOrders.map Order.id, record := b.findOrder, stale := [], kept := [], rest := b.pendingOrders, late := [],
      nextOrderId := b.nextOrderId, groups := [], phase := .idle, journal := b.journal }
  | .inPass c n kept groups phase =>
    { ids := b.allOrders.map Order.id, record := b.findOrder, stale := b.pendingOrders.take c, kept,
      rest := (b.pendingOrders.take n).drop c, late := b.pendingOrders.drop n,
      nextOrderId := b.nextOrderId, groups, phase, journal := b.journal }

theorem take_drop_append {τ : Type} (l : List τ) {c n : Nat} (h : c ≤ n) :
    l.take c ++ (l.take n).drop c ++ l.drop n = l := by
  have : l.take c = (l.take n).take c := by rw [List.take_take, min_eq_left h]
  rw [this, List.take_append_drop, List.take_append_drop]

theorem desk_pending {pl : Place α} (h : pl.Fits b) : (b.desk pl).pending = b.pendingOrders := by
  cases pl with
  | between => simp [desk, Desk.pending]
  | inPass c n kept groups phase => exact take_drop_append _ h.1

@[simp] theorem desk_record (b : BackBroker α W) (pl : Place α) : (b.desk pl).record = b.findOrder := by
  cases pl <;> rfl

@[simp] theorem desk_nextOrderId (b : BackBroker α W) (pl : Place α) :
    (b.desk pl).nextOrderId = b.nextOrderId := by
  cases pl <;> rfl

@[simp] theorem desk_journal (b : BackBroker α W) (pl : Place α) : (b.desk pl).journal = b.journal := by
  cases pl <;> rfl

/-! ### The primitives on the desk -/

theorem desk_edit {pl : Place α} (hnd : (b.pendingOrders.map Order.id).Nodup)
    (hi : b.pendingOrders[i]? = some e) : (b.edit i f).desk pl = (b.desk pl).edit e.id f := by
  have hmod : b.pendingOrders.modify i f = Keyed.update Order.id e.id f b.pendingOrders :=
    Keyed.modify_eq hnd hi
  cases pl with
  | between =>
    show Desk.mk _ _ _ _ (b.pendingOrders.modify i f) _ _ _ _ _ = _
    rw [hmod]; rfl
  | inPass c n kept groups phase =>
    show Desk.mk _ _ ((b.pendingOrders.modify i f).take c) _ (((b.pendingOrders.modify i f).take n).drop c)
      ((b.pendingOrders.modify i f).drop n) _ _ _ _ = _
    rw [hmod]
    simp only [Keyed.update, ← List.map_take, ← List.map_drop]
    rfl

theorem findOrder_syncOrder (b : BackBroker α W) (o : Order α) (k : Nat) :
    (b.syncOrder o).findOrder k = if k = o.id then (b.findOrder o.id).map (fun _ => o) else b.findOrder k :=
  Keyed.find?_modify_findIdx (fun _ _ => rfl) k

theorem desk_syncOrder {pl : Place α} {r : Order α} (hr : b.findOrder o.id = some r) :
    (b.syncOrder o).desk pl = (b.desk pl).file o := by
  have hrec : (b.syncOrder o).findOrder = fun k => if k = o.id then some o else b.findOrder k := by
    funext k
    rw [findOrder_syncOrder, hr]; rfl
  have hids : (b.syncOrder o).allOrders.map Order.id = b.allOrders.map Order.id :=
    Keyed.map_key_modify_findIdx fun _ _ => rfl
  cases pl <;> simp only [desk, hrec, hids] <;> rfl

@[simp] theorem pendingOrders_syncOrder (b : BackBroker α W) (o : Order α) :
    (b.syncOrder o).pendingOrders = b.pendingOrders := rfl

@[simp] theorem pendingOrders_sync (b : BackBroker α W) (i : Nat) :
    (b.sync i).pendingOrders = b.pendingOrders := by
  unfold sync; split <;> rfl

@[simp] theorem nextOrderId_sync (b : BackBroker α W) (i : Nat) : (b.sync i).nextOrderId = b.nextOrderId := by
  unfold sync; split <;> rfl

@[simp] theorem turn_sync (b : BackBroker α W) (i : Nat) : (b.sync i).turn = b.turn := by
  unfold sync; split <;> rfl

@[simp] theorem pendingOrders_edit (b : BackBroker α W) (i : Nat) (f : Order α → Order α) :
    (b.edit i f).pendingOrders = b.pendingOrders.modify i f := rfl

/-- A pending order stands at one position only. -/
theorem pos_unique {pl : Place α} (hfit : pl.Fits b) (hok : (b.desk pl).Ok) {j : Nat}
    (hi : b.pendingOrders[i]? = some e) (hj : b.pendingOrders[j]? = some e) : i = j := by
  have hnd : (b.pendingOrders.map Order.id).Nodup := by
    have := hok.nodup
    rwa [desk_pending hfit] at this
  obtain ⟨hli, hgi⟩ := List.getElem?_eq_some_iff.1 hi
  exact (List.getElem?_inj hli hnd.of_map).1 (hi.trans hj.symm)

/-- The note of `cancel_order` about an order the pass has reached says so. -/
theorem pos_lt_turn {pl : Place α} (hfit : pl.Fits b) (hok : (b.desk pl).Ok)
    (hi : b.pendingOrders[i]? = some e)
    (he : e ∈ (b.desk pl).stale ∨ ((b.desk pl).phase ≠ .idle ∧ (b.desk pl).rest.head? = some e)) :
    i < b.turn := by
  cases pl with
  | between =>
    rcases he with he | ⟨he, -⟩
    · cases he
    · exact absurd rfl he
  | inPass c n kept groups phase =>
    have huniq : ∀ j, b.pendingOrders[j]? = some e → i = j := fun _ hj => pos_unique hfit hok hi hj
    obtain ⟨hc, hn, hct, -, hph⟩ := hfit
    rcases he with he | ⟨hp, he⟩
    · obtain ⟨j, hj⟩ := List.mem_iff_getElem?.1 (show e ∈ b.pendingOrders.take c from he)
      rw [List.getElem?_take] at hj
      split at hj
      · rename_i hjc
        rw [huniq j hj]; omega
      · cases hj
    · replace he : ((b.pendingOrders.take n).drop c).head? = some e := he
      rw [List.head?_drop, List.getElem?_take] at he
      split at he
      · rw [huniq c he]; exact hph hp
      · cases he

/-- A write through a position, with its record. -/
theorem desk_touch {pl : Place α} (hfit : pl.Fits b) (hok : (b.desk pl).Ok)
    (hi : b.pendingOrders[i]? = some e) (hf : (f e).id = e.id) :
    ((b.edit i f).sync i).desk pl = (b.desk pl).write (f e) := by
  have hnd : (b.pendingOrders.map Order.id).Nodup := by
    have := hok.nodup
    rwa [desk_pending hfit] at this
  have hget : (b.edit i f).pendingOrders[i]? = some (f e) := by
    simp [edit, hi]
  have he : e ∈ (b.desk pl).copies :=
    Desk.mem_copies.2 (.inl (by rw [desk_pending hfit]; exact List.mem_of_getElem? hi))
  obtain ⟨r, hr, -⟩ := hok.known e he
  have hrec : (b.edit i f).findOrder (f e).id = some r := by
    rw [hf]; rwa [desk_record] at hr
  rw [sync, hget]
  show ((b.edit i f).syncOrder (f e)).desk pl = _
  rw [desk_syncOrder hrec, desk_edit hnd hi, Desk.write, hf]
  congr 1
  have key : ∀ l : List (Order α), (∀ x ∈ l, x ∈ (b.desk pl).pending) →
      Keyed.update Order.id e.id f l = Keyed.update Order.id e.id (fun _ => f e) l := by
    intro l hl
    refine Keyed.update_congr fun x hx hxe => ?_
    have : x ∈ b.pendingOrders := by rw [← desk_pending hfit]; exact hl x hx
    rw [Keyed.eq_of_key hnd this (List.mem_of_getElem? hi) hxe]
  unfold Desk.edit
  rw [key _ fun x hx => Desk.mem_pending.2 (.inl hx), key _ fun x hx => Desk.mem_pending.2 (.inr (.inl hx)),
    key _ fun x hx => Desk.mem_pending.2 (.inr (.inr hx))]

/-- No record has the next id yet. -/
theorem findOrder_new {pl : Place α} (hok : (b.desk pl).Ok) (hid : o.id = b.nextOrderId) : b.findOrder o.id = none := by
  cases h : b.findOrder o.id with
  | none => rfl
  | some r =>
    have := (hok.record o.id r (by rwa [desk_record])).2.2
    rw [desk_nextOrderId, hid] at this
    exact absurd this (lt_irrefl _)

theorem findOrder_pushOrder (hnone : b.findOrder o.id = none) (k : Nat) :
    (b.pushOrder o).findOrder k = if k = o.id then some o else b.findOrder k :=
  Keyed.find?_append_singleton hnone k

theorem findOrder_linkChildren (b : BackBroker α W) (id : Nat) (ids : List Nat) (k : Nat) :
    (b.linkChildren id ids).findOrder k =
      if k = id then (b.findOrder id).map (fun o => { o with childIds := ids }) else b.findOrder k :=
  @Keyed.find?_modify_findIdx _ _ Order.id id (fun o => { o with childIds := ids }) b.allOrders _ (fun _ hx => hx) k

theorem desk_pushOrder (hok : (b.desk .between).Ok) (hid : o.id = b.nextOrderId) (ht : b.turn = 0) :
    (b.pushOrder o).desk .between = (b.desk .between).submit o (b.seen o.dataIndex) := by
  have hrec := funext (findOrder_pushOrder (findOrder_new hok hid))
  simp only [desk, hrec]
  simp [BackBroker.pushOrder, note, Desk.submit, Desk.log, ht]

theorem desk_linkChildren {pl : Place α} (hfit : pl.Fits b) (hok : (b.desk pl).Ok) (id : Nat) (ids : List Nat) :
    (b.linkChildren id ids).desk pl = (b.desk pl).link id ids := by
  have hnd : (b.pendingOrders.map Order.id).Nodup := by
    have := hok.nodup
    rwa [desk_pending hfit] at this
  have hpend : modifyById id (fun o => { o with childIds := ids }) b.pendingOrders =
      Keyed.update Order.id id (fun o => { o with childIds := ids }) b.pendingOrders :=
    Keyed.modify_findIdx hnd
  have hrec := funext (findOrder_linkChildren b id ids)
  have hids : (b.linkChildren id ids).allOrders.map Order.id = b.allOrders.map Order.id :=
    @Keyed.map_key_modify_findIdx _ _ Order.id id (fun o => { o with childIds := ids })
      b.allOrders _ fun _ hx => hx
  cases pl with
  | between =>
    simp only [desk, hrec, hids]
    simp [linkChildren, hpend, Desk.link, Desk.edit]
  | inPass c n kept groups phase =>
    simp only [desk, hrec, hids]
    simp [linkChildren, hpend, Desk.link, Desk.edit, Keyed.update]

theorem fits_mono {pl : Place α} (h : pl.Fits b) (ht : b'.turn = b.turn)
    (hl : b.pendingOrders.length ≤ b'.pendingOrders.length) : pl.Fits b' := by
  cases pl with
  | between => exact ht.trans h
  | inPass c n kept groups phase =>
    obtain ⟨h1, h2, h3, h4, h5⟩ := h
    exact ⟨h1, h2.trans hl, ht ▸ h3, ht ▸ h4, ht ▸ h5⟩

/-- `cancel_order` reaches a pending order. -/
theorem desk_cancel {pl : Place α} (hfit : pl.Fits b) (hok : (b.desk pl).Ok) (hi : b.pendingOrders[i]? = some e) :
    (((b.note (.cancelled e.id i b.turn)).edit i Order.cancel).sync i).desk pl =
      ((b.desk pl).log (.cancelled e.id i b.turn)).write e.cancel := by
  have hfit' : pl.Fits (b.note (.cancelled e.id i b.turn)) := fits_mono hfit rfl le_rfl
  have hlog : (b.note (.cancelled e.id i b.turn)).desk pl = (b.desk pl).log (.cancelled e.id i b.turn) := by
    cases pl <;> rfl
  rw [@desk_touch _ _ _ i e Order.cancel pl hfit' (by rw [hlog]; exact hok.log _) hi (Order.same_setStatus e _).id, hlog]

/-- The desk has moved by calls only. -/
structure Drift (b b' : BackBroker α W) : Prop where
  turn : b'.turn = b.turn
  length_le : b.pendingOrders.length ≤ b'.pendingOrders.length
  next_le : b.nextOrderId ≤ b'.nextOrderId
  calls : ∀ (pl : Place α) lo, pl.Fits b → (b.desk pl).Ok → lo ≤ b.nextOrderId →
    ReflTransGen (Desk.Call lo) (b.desk pl) (b'.desk pl)

namespace Drift

theorem fits (h : Drift b b') {pl : Place α} (hfit : pl.Fits b) : pl.Fits b' :=
  fits_mono hfit h.turn h.length_le

theorem ok (h : Drift b b') {pl : Place α} (hfit : pl.Fits b) (hok : (b.desk pl).Ok) : (b'.desk pl).Ok :=
  hok.calls (h.calls pl 0 hfit hok (Nat.zero_le _))

theorem refl (b : BackBroker α W) : Drift b b := ⟨rfl, le_rfl, le_rfl, fun _ _ _ _ _ => .refl⟩

theorem trans (h : Drift b b') (h' : Drift b' b'') : Drift b b'' :=
  ⟨h'.turn.trans h.turn, h.length_le.trans h'.length_le, h.next_le.trans h'.next_le,
    fun pl lo hfit hok hlo => (h.calls pl lo hfit hok hlo).trans
      (h'.calls pl lo (h.fits hfit) (h.ok hfit hok) (hlo.trans h.next_le))⟩

/-- A change that the desk does not see. -/
theorem of_desk_eq (ht : b'.turn = b.turn) (hd : ∀ pl, b'.desk pl = b.desk pl) : Drift b b' := by
  have hp : b'.pendingOrders = b.pendingOrders := congrArg Desk.rest (hd .between)
  have hn : b'.nextOrderId = b.nextOrderId := congrArg Desk.nextOrderId (hd .between)
  exact ⟨ht, hp ▸ le_rfl, hn ▸ le_rfl, fun pl lo _ _ _ => hd pl ▸ .refl⟩

end Drift

/-! ### What no callback touches -/

variable [Arith α]

/-- The books and the settings are the same, up to flat positions. -/
structure Quiet (b b' : BackBroker α W) : Prop where
  settings : b'.toBrokerSettings = b.toBrokerSettings
  cash : b'.cash = b.cash
  nextTradeId : b'.nextTradeId = b.nextTradeId
  dataBarIndex : b'.dataBarIndex = b.dataBarIndex
  openTrades : b'.openTrades = b.openTrades
  closedTrades : b'.closedTrades = b.closedTrades
  turn : b'.turn = b.turn
  seen : b'.seen = b.seen
  executions : b'.executions = b.executions
  positions : ∃ ks : List Nat, b'.positions = ks.foldl (Position.ensure b.instrumentMap) b.positions

namespace Quiet

theorem refl (b : BackBroker α W) : Quiet b b := ⟨rfl, rfl, rfl, rfl, rfl, rfl, rfl, rfl, rfl, [], rfl⟩

theorem trans (h : Quiet b b') (h' : Quiet b' b'') : Quiet b b'' := by
  obtain ⟨ks, hks⟩ := h.positions
  obtain ⟨ks', hks'⟩ := h'.positions
  refine ⟨h'.settings.trans h.settings, h'.cash.trans h.cash, h'.nextTradeId.trans h.nextTradeId,
    h'.dataBarIndex.trans h.dataBarIndex, h'.openTrades.trans h.openTrades,
    h'.closedTrades.trans h.closedTrades, h'.turn.trans h.turn, h'.seen.trans h.seen,
    h'.executions.trans h.executions, ks ++ ks', ?_⟩
  rw [hks', hks, List.foldl_append, h.settings]

theorem ensurePosition (b : BackBroker α W) (k : Nat) : Quiet b (b.ensurePosition k) :=
  ⟨rfl, rfl, rfl, rfl, rfl, rfl, rfl, rfl, rfl, [k], rfl⟩

theorem note (b : BackBroker α W) {n : Note α} (hn : n.execution? = none) : Quiet b (b.note n) := by
  refine ⟨rfl, rfl, rfl, rfl, rfl, rfl, rfl, rfl, ?_, [], rfl⟩
  simp [BackBroker.executions, BackBroker.note, hn]

theorem edit (b : BackBroker α W) (i : Nat) (f : Order α → Order α) : Quiet b (b.edit i f) :=
  ⟨rfl, rfl, rfl, rfl, rfl, rfl, rfl, rfl, rfl, [], rfl⟩

theorem syncOrder (b : BackBroker α W) (o : Order α) : Quiet b (b.syncOrder o) := by
  refine ⟨rfl, rfl, rfl, rfl, rfl, rfl, rfl, rfl, ?_, [], rfl⟩
  simp [BackBroker.executions, BackBroker.syncOrder, BackBroker.note, Note.execution?]

theorem sync (b : BackBroker α W) (i : Nat) : Quiet b (b.sync i) := by
  unfold BackBroker.sync
  split
  exacts [syncOrder b _, refl b]

theorem pushOrder (b : BackBroker α W) (o : Order α) : Quiet b (b.pushOrder o) := by
  refine ⟨rfl, rfl, rfl, rfl, rfl, rfl, rfl, rfl, ?_, [], rfl⟩
  simp [BackBroker.executions, BackBroker.pushOrder, BackBroker.note, Note.execution?]

theorem linkChildren (b : BackBroker α W) (id : Nat) (ids : List Nat) : Quiet b (b.linkChildren id ids) :=
  ⟨rfl, rfl, rfl, rfl, rfl, rfl, rfl, rfl, rfl, [], rfl⟩

end Quiet

/-! ### Commands and callbacks -/

/-- What the callbacks have done between two brokers. -/
structure Reach (b b' : BackBroker α W) : Prop extends Drift b b' where
  quiet : Quiet b b'

namespace Reach

theorem refl (b : BackBroker α W) : Reach b b := ⟨.refl b, .refl b⟩

theorem trans (h : Reach b b') (h' : Reach b' b'') : Reach b b'' :=
  ⟨h.toDrift.trans h'.toDrift, h.quiet.trans h'.quiet⟩

theorem of_desk_eq (hq : Quiet b b') (hd : ∀ pl, b'.desk pl = b.desk pl) : Reach b b' :=
  ⟨.of_desk_eq hq.turn hd, hq⟩

theorem world (b : BackBroker α W) (w : W) : Reach b { b with world := w } :=
  of_desk_eq ⟨rfl, rfl, rfl, rfl, rfl, rfl, rfl, rfl, rfl, [], rfl⟩ fun pl => by cases pl <;> rfl

theorem nextOco (b : BackBroker α W) (k : Nat) : Reach b { b with nextOcoGroupId := k } :=
  of_desk_eq ⟨rfl, rfl, rfl, rfl, rfl, rfl, rfl, rfl, rfl, [], rfl⟩ fun pl => by cases pl <;> rfl

theorem ensurePosition (b : BackBroker α W) (k : Nat) : Reach b (b.ensurePosition k) :=
  of_desk_eq (.ensurePosition b k) fun pl => by cases pl <;> rfl

theorem pushOrder (hnew : Desk.New o b.nextOrderId) : Reach b (b.pushOrder o) := by
  refine ⟨⟨rfl, by simp [BackBroker.pushOrder, note], Nat.le_succ _, fun pl lo hfit hok _ => ?_⟩, .pushOrder b o⟩
  have hnew' : Desk.New o (b.desk pl).nextOrderId := by rwa [desk_nextOrderId]
  cases pl with
  | between =>
    refine .single ?_
    rw [desk_pushOrder hok hnew.id hfit]
    exact .submit _ hnew' rfl
  | inPass c n kept groups phase =>
    have hrec := funext (findOrder_pushOrder (findOrder_new hok hnew.id))
    obtain ⟨hc, hn, -, ht, -⟩ := hfit
    refine .single ?_
    have heq : (b.pushOrder o).desk (.inPass c n kept groups phase) =
        (b.desk (.inPass c n kept groups phase)).submitLate o b.turn (b.seen o.dataIndex) := by
      simp only [desk, hrec]
      simp [BackBroker.pushOrder, note, Desk.submitLate, Desk.log, List.take_append_of_le_length,
        List.drop_append_of_le_length, hn, hc.trans hn]
    rw [heq]
    exact .submitLate _ _ hnew' ht

theorem link (h : Reach b b') {ids : List Nat} (hid : id = 0 ∨ b.nextOrderId ≤ id) :
    Reach b (b'.linkChildren id ids) := by
  refine ⟨⟨h.turn, ?_, h.next_le, fun pl lo hfit hok hlo => ?_⟩, h.quiet.trans (.linkChildren b' id ids)⟩
  · simpa [linkChildren, modifyById] using h.length_le
  · refine (h.calls pl lo hfit hok hlo).tail ?_
    rw [desk_linkChildren (h.fits hfit) (h.ok hfit hok)]
    exact .link id ids (hid.imp_right hlo.trans)

end Reach

/-- Hooks whose callbacks do no more than issue commands. -/
structure Tame (h : Hooks α W) : Prop where
  order : ∀ o b, Reach b (h.orderNotify o b)
  trade : ∀ t s b, Reach b (h.tradeNotify t s b)

variable {h : Hooks α W}

theorem Tame.notify (hh : Tame h) (b : BackBroker α W) (i : Nat) : Reach b (notify h b i) := by
  unfold BackBroker.notify
  split
  exacts [hh.order _ _, .refl b]

theorem submitOrderExt_reach (h : Hooks α W) (side : OrderSide) (size : α) (params : OrderParams α)
    (b : BackBroker α W) : Reach b (submitOrderExt h side size params b).2 := by
  unfold submitOrderExt
  rcases h.preOrderHook side size params.dataIndex b with ⟨por, w⟩
  dsimp only
  split
  · exact .world b w
  · exact (Reach.world b w).trans (.pushOrder ⟨rfl, rfl, rfl⟩)

/-- A submission returns 0 or the id that was the next. -/
theorem submitOrderExt_id (h : Hooks α W) (side : OrderSide) (size : α) (params : OrderParams α)
    (b : BackBroker α W) :
    (submitOrderExt h side size params b).1 = 0 ∨ (submitOrderExt h side size params b).1 = b.nextOrderId := by
  unfold submitOrderExt
  rcases h.preOrderHook side size params.dataIndex b with ⟨por, w⟩
  dsimp only
  split
  exacts [.inl rfl, .inr rfl]

theorem bracket_reach (h : Hooks α W) (mainSide legSide : OrderSide) (size limitPrice stopPrice : α)
    (dataIndex : Nat) (b : BackBroker α W) :
    Reach b (bracket h mainSide legSide size limitPrice stopPrice dataIndex b).2 := by
  unfold bracket
  dsimp only
  have h0 := Reach.nextOco b (b.nextOcoGroupId + 1)
  refine Reach.link (((h0.trans (submitOrderExt_reach h ..)).trans (submitOrderExt_reach h ..)).trans
    (submitOrderExt_reach h ..)) ?_
  refine (submitOrderExt_id h _ _ _ _).imp_right fun hid => ?_
  exact le_of_le_of_eq h0.next_le hid.symm

theorem cancelAt_user_reach (hh : Tame h) (p : Order α → Bool) (b : BackBroker α W) (i : Nat) :
    Reach b (cancelAt h p true b i) := by
  unfold cancelAt
  cases hi : b.pendingOrders[i]? with
  | none => exact .refl b
  | some e =>
    dsimp only
    by_cases hp : (p e && e.isAlive) = true
    swap
    · rw [if_neg hp]; exact .refl b
    rw [if_pos hp, if_pos rfl]
    have halive : e.isAlive = true := by rw [Bool.and_eq_true] at hp; exact hp.2
    refine Reach.trans ⟨⟨?_, ?_, ?_, fun pl lo hfit hok hlo => ?_⟩,
      ((Quiet.note b rfl).trans (.edit _ i _)).trans (.sync _ i)⟩ (hh.notify _ i)
    · rw [turn_sync]; rfl
    · simp [note]
    · rw [nextOrderId_sync]; exact le_rfl
    · rw [desk_cancel hfit hok hi]
      refine .single (.cancel i b.turn ?_ halive (pos_lt_turn hfit hok hi))
      rw [desk_pending hfit]; exact List.mem_of_getElem? hi

theorem cancelOrder_reach (hh : Tame h) (id : Nat) (b : BackBroker α W) : Reach b (cancelOrder h id b) :=
  Fold.foldl_ind (Reach b) _ b (.refl b) fun b' i _ hb => hb.trans (cancelAt_user_reach hh _ b' i)

theorem close_reach (h : Hooks α W) (k : Nat) (b : BackBroker α W) : Reach b (close h k b).2 := by
  unfold close
  dsimp only
  have h0 := Reach.ensurePosition b k
  split
  · exact h0
  split <;> exact h0.trans (submitOrderExt_reach h ..)

theorem exec_reach (hh : Tame h) (c : Cmd α) (b : BackBroker α W) : Reach b (exec h c b) := by
  cases c with
  | buy | sell | buyExt | sellExt => exact submitOrderExt_reach h ..
  | buyBracket | sellBracket => exact bracket_reach h ..
  | close k => exact close_reach h k b
  | cancelOrder id => exact cancelOrder_reach hh id b
  | nextOcoGroup => exact .nextOco b _

/-- The callbacks of a listener are tame, by induction on their bound. -/
theorem react_reach (L : Listener α W) : ∀ n ev (b : BackBroker α W), Reach b (L.react n ev b)
  | 0, _, b => .refl b
  | n + 1, ev, b => by
    unfold Listener.react
    rcases L.act ev b with ⟨w, _ | c⟩
    · exact .world b w
    · have hh : Tame (L.hooksOf (L.react n)) :=
        ⟨fun o => react_reach L n (.order o), fun t s => react_reach L n (.trade t s)⟩
      exact ((Reach.world b w).trans (exec_reach hh c _)).trans (react_reach L n ev _)

theorem tame_hooks (L : Listener α W) (fuel : Nat) : Tame (L.hooks fuel) :=
  ⟨fun o => react_reach L fuel (.order o), fun t s => react_reach L fuel (.trade t s)⟩

end BackBroker

end StratForge
