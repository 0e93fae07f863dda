import Mathlib.Data.List.InsertIdx
import StratForge.Callbacks
import StratForge.TradeBook

/-!
# Brokers that differ in candidate ids

`candidate_id` of an order goes into its trades and is read by nothing else in the broker. Two brokers that are the same
but for it, and for what their callbacks capture, stay the same under every command and every pass (`Hooks.Sim`) if the
callbacks keep them so.
-/

namespace StratForge

variable {α W V : Type}

def Order.linked (o : Order α) (id : Nat) : Order α := { o with candidateId := id }

def Trade.linked (t : Trade α) (id : Nat) : Trade α := { t with candidateId := id }

def Execution.linked (x : Execution α) (id : Nat) : Execution α := { x with order := x.order.linked id }

def Note.linked (id : Nat) : Note α → Note α
  | .submitted order turn seen => .submitted (order.linked id) turn seen
  | .cancelled i pos turn => .cancelled i pos turn
  | .recorded order => .recorded (order.linked id)
  | .executed x => .executed (x.linked id)

def Event.linked (id : Nat) : Event α → Event α
  | .order o => .order (o.linked id)
  | .trade t origSize => .trade (t.linked id) origSize

/-- The broker without its candidate ids, and without what its callbacks capture. -/
def BackBroker.unlinked (b : BackBroker α W) : BackBroker α Unit :=
  { b with
    allOrders := b.allOrders.map (·.linked 0)
    pendingOrders := b.pendingOrders.map (·.linked 0)
    openTrades := b.openTrades.map fun x => (x.1.linked 0, x.2)
    closedTrades := b.closedTrades.map fun x => (x.1.linked 0, x.2)
    world := ()
    journal := b.journal.map (Note.linked 0) }

theorem Order.eq_linked {o o' : Order α} (h : o'.linked 0 = o.linked 0) : o' = o.linked o'.candidateId := by
  cases o
  cases o'
  cases h
  rfl

theorem Trade.eq_linked {t t' : Trade α} (h : t'.linked 0 = t.linked 0) : t' = t.linked t'.candidateId := by
  cases t
  cases t'
  cases h
  rfl

theorem Order.linked_setStatus (o : Order α) (s : OrderStatus) (id : Nat) : (o.setStatus s).linked id = (o.linked id).setStatus s := by
  unfold setStatus
  show _ = if o.isAlive then _ else _
  split_ifs <;> rfl

theorem Order.linked_execute (o : Order α) (p s c : α) (id : Nat) : (o.execute p s c).linked id = (o.linked id).execute p s c := by
  unfold execute
  show _ = if o.isAlive then _ else _
  split_ifs <;> rfl

theorem Trade.linked_update [Arith α] (t : Trade α) (s p c : α) (bar : Nat) (dt : DateTime) (id : Nat) :
    (t.update s p c bar dt).linked id = (t.linked id).update s p c bar dt := by
  have hstamp : ∀ (t : Trade α) old, (t.stampEntry old bar dt).linked id = (t.linked id).stampEntry old bar dt := fun t old =>
    apply_ite (Trade.linked · id) ..
  have hreprice : ∀ (t : Trade α) old, (t.reprice old s p).linked id = (t.linked id).reprice old s p := by
    intro t old
    unfold reprice
    rw [apply_ite (Trade.linked · id), apply_ite (Trade.linked · id)]
    rfl
  have henter : ∀ t : Trade α, (t.enterAt p).linked id = (t.linked id).enterAt p := fun t => apply_ite (Trade.linked · id) ..
  have hfinish : ∀ t : Trade α, (t.finish p bar dt).linked id = (t.linked id).finish p bar dt := fun t =>
    apply_ite (Trade.linked · id) ..
  by_cases h : Arith.abs s < 1e-10
  · rw [update_negligible t s p c bar dt h, update_negligible _ s p c bar dt h]
  · rw [update_eq t s p c bar dt h, update_eq _ s p c bar dt h, hfinish, henter]
    refine congrArg (fun t => (t.settle.enterAt p).finish p bar dt) ((hreprice _ _).trans ?_)
    exact congrArg (fun u => (Trade.flag u t.size bar).reprice t.size s p) (hstamp _ _)

namespace BackBroker

theorem map_modify {A B : Type} {u : A → B} {f : A → A} {g : B → B} (h : ∀ x, u (f x) = g (u x)) (l : List A) (i : Nat) :
    (l.modify i f).map u = (l.map u).modify i g := by
  refine List.ext_getElem? fun j => ?_
  rw [List.getElem?_map, List.getElem?_modify, List.getElem?_modify, List.getElem?_map]
  cases l[j]? with
  | none => rfl
  | some x => by_cases hij : i = j <;> simp [hij, h]

theorem map_modifyById {f g : Order α → Order α} {n : Nat} (h : ∀ o : Order α, (f o).linked n = g (o.linked n)) (id : Nat)
    (os : List (Order α)) : (modifyById id f os).map (·.linked n) = modifyById id g (os.map (·.linked n)) := by
  unfold modifyById
  rw [map_modify h, List.findIdx_map]
  rfl

/-! ### Writes -/

section
variable (b : BackBroker α W)

theorem unlinked_note (n : Note α) : (b.note n).unlinked = b.unlinked.note (n.linked 0) := by
  unfold note unlinked
  rw [List.map_append]
  rfl

theorem unlinked_edit {f g : Order α → Order α} (hf : ∀ o : Order α, (f o).linked 0 = g (o.linked 0)) (i : Nat) :
    (b.edit i f).unlinked = b.unlinked.edit i g := by
  unfold edit unlinked
  dsimp only
  rw [map_modify hf]

theorem unlinked_syncOrder (o : Order α) : (b.syncOrder o).unlinked = b.unlinked.syncOrder (o.linked 0) := by
  unfold syncOrder
  rw [unlinked_note]
  unfold unlinked
  dsimp only
  rw [map_modifyById (g := fun _ => o.linked 0) fun _ => rfl]
  rfl

theorem unlinked_sync (i : Nat) : (b.sync i).unlinked = b.unlinked.sync i := by
  unfold sync
  rw [show b.unlinked.pendingOrders[i]? = b.pendingOrders[i]?.map (·.linked 0) from List.getElem?_map ..]
  cases b.pendingOrders[i]? with
  | none => rfl
  | some o => exact b.unlinked_syncOrder o

theorem unlinked_pushOrder (o : Order α) : (b.pushOrder o).unlinked = b.unlinked.pushOrder (o.linked 0) := by
  unfold pushOrder
  rw [unlinked_note]
  unfold unlinked
  dsimp only
  rw [List.map_append, List.map_append]
  rfl

theorem unlinked_linkChildren (id : Nat) (ids : List Nat) :
    (b.linkChildren id ids).unlinked = b.unlinked.linkChildren id ids := by
  have hlink : ∀ os : List (Order α), (modifyById id (fun o => { o with childIds := ids }) os).map (·.linked 0) =
      modifyById id (fun o => { o with childIds := ids }) (os.map (·.linked 0)) := map_modifyById (fun _ => rfl) id
  unfold linkChildren unlinked
  dsimp only
  rw [hlink, hlink]

theorem unlinked_activate (id : Nat) : (b.activateBracketChildren id).unlinked = b.unlinked.activateBracketChildren id := by
  unfold activateBracketChildren unlinked
  dsimp only
  rw [List.map_map, List.map_map]
  congr 1
  refine List.map_congr_left fun o _ => ?_
  exact apply_ite (Order.linked · 0) ..

variable [Arith α]

theorem unlinked_openTrade (k : Nat) (s p c : α) (bar : Nat) (dt : DateTime) (cand : Nat) :
    (b.openTrade k s p c bar dt cand).unlinked = b.unlinked.openTrade k s p c bar dt 0 := by
  unfold openTrade unlinked
  dsimp only
  rw [List.map_append, List.map_singleton, Trade.linked_update]
  rfl

end

/-! ### Brokers that are paired -/

/-- The brokers are the same up to candidate ids, and `S` relates what their callbacks capture. -/
structure Paired (S : W → V → Prop) (b : BackBroker α W) (b' : BackBroker α V) : Prop where
  books : b'.unlinked = b.unlinked
  world : S b.world b'.world

end BackBroker

theorem Order.getElem?_linked {os os' : List (Order α)} (h : os'.map (·.linked 0) = os.map (·.linked 0)) (i : Nat) :
    os[i]? = none ∧ os'[i]? = none ∨ ∃ o id, os[i]? = some o ∧ os'[i]? = some (o.linked id) := by
  have hi : os'[i]?.map (·.linked 0) = os[i]?.map (·.linked 0) := by rw [← List.getElem?_map, h, List.getElem?_map]
  cases ho : os[i]? with
  | none =>
    rw [ho] at hi
    exact .inl ⟨rfl, Option.map_eq_none_iff.1 hi⟩
  | some o =>
    rw [ho] at hi
    obtain ⟨o', ho', heq⟩ := Option.map_eq_some_iff.1 hi
    exact .inr ⟨o, o'.candidateId, rfl, by rw [ho', ← Order.eq_linked heq]⟩

/-- What two sets of callbacks have in common: they keep brokers paired, and the hooks let the same through. -/
structure Hooks.Sim (h : Hooks α W) (h' : Hooks α V) (S : W → V → Prop) : Prop where
  order : ∀ o id {b b'}, BackBroker.Paired S b b' → BackBroker.Paired S (h.orderNotify o b) (h'.orderNotify (o.linked id) b')
  trade : ∀ t id s {b b'}, BackBroker.Paired S b b' → BackBroker.Paired S (h.tradeNotify t s b) (h'.tradeNotify (t.linked id) s b')
  hook : ∀ side size k {b b'}, BackBroker.Paired S b b' →
    (∃ id, (h'.preOrderHook side size k b').1 = { (h.preOrderHook side size k b).1 with candidateId := id }) ∧
      S (h.preOrderHook side size k b).2 (h'.preOrderHook side size k b').2

namespace BackBroker
namespace Paired
variable {S : W → V → Prop} {b b₁ : BackBroker α W} {b' b₁' : BackBroker α V}

/-- What is written that no callback captures. -/
theorem write (hp : Paired S b b') (g : BackBroker α Unit → BackBroker α Unit) (h : b₁.unlinked = g b.unlinked)
    (h' : b₁'.unlinked = g b'.unlinked) (hw : b₁.world = b.world) (hw' : b₁'.world = b'.world) : Paired S b₁ b₁' :=
  ⟨by rw [h, h', hp.books], by rw [hw, hw']; exact hp.world⟩

/-- What is read of the brokers that no candidate id is part of. -/
theorem read {A : Type} (hp : Paired S b b') (g : BackBroker α Unit → A) : g b'.unlinked = g b.unlinked := congrArg g hp.books

theorem pending (hp : Paired S b b') (i : Nat) : b.pendingOrders[i]? = none ∧ b'.pendingOrders[i]? = none ∨
    ∃ o id, b.pendingOrders[i]? = some o ∧ b'.pendingOrders[i]? = some (o.linked id) :=
  Order.getElem?_linked (hp.read (·.pendingOrders)) i

theorem length_pending (hp : Paired S b b') : b'.pendingOrders.length = b.pendingOrders.length := by
  simpa [unlinked] using hp.read (·.pendingOrders.length)

theorem edit (hp : Paired S b b') {f : Order α → Order α} (hf : ∀ o : Order α, (f o).linked 0 = f (o.linked 0)) (i : Nat) :
    Paired S (b.edit i f) (b'.edit i f) := hp.write (·.edit i f) (b.unlinked_edit hf i) (b'.unlinked_edit hf i) rfl rfl

theorem put (hp : Paired S b b') (i : Nat) (o : Order α) (id : Nat) :
    Paired S (b.edit i fun _ => o) (b'.edit i fun _ => o.linked id) :=
  hp.write (·.edit i fun _ => o.linked 0) (b.unlinked_edit (fun _ => rfl) i) (b'.unlinked_edit (fun _ => rfl) i) rfl rfl

theorem note (hp : Paired S b b') (n : Note α) (id : Nat) : Paired S (b.note n) (b'.note (n.linked id)) :=
  hp.write (·.note (n.linked 0)) (b.unlinked_note n) ((b'.unlinked_note _).trans (by cases n <;> rfl)) rfl rfl

theorem syncOrder (hp : Paired S b b') (o : Order α) (id : Nat) : Paired S (b.syncOrder o) (b'.syncOrder (o.linked id)) :=
  hp.write (·.syncOrder (o.linked 0)) (b.unlinked_syncOrder o) (b'.unlinked_syncOrder _) rfl rfl

theorem world_sync (b : BackBroker α W) (i : Nat) : (b.sync i).world = b.world := by
  unfold BackBroker.sync
  split <;> rfl

theorem sync (hp : Paired S b b') (i : Nat) : Paired S (b.sync i) (b'.sync i) :=
  hp.write (·.sync i) (b.unlinked_sync i) (b'.unlinked_sync i) (world_sync b i) (world_sync b' i)

theorem pushOrder (hp : Paired S b b') (o : Order α) (id : Nat) : Paired S (b.pushOrder o) (b'.pushOrder (o.linked id)) :=
  hp.write (·.pushOrder (o.linked 0)) (b.unlinked_pushOrder o) (b'.unlinked_pushOrder _) rfl rfl

theorem linkChildren (hp : Paired S b b') (id : Nat) (ids : List Nat) :
    Paired S (b.linkChildren id ids) (b'.linkChildren id ids) :=
  hp.write (·.linkChildren id ids) (b.unlinked_linkChildren id ids) (b'.unlinked_linkChildren id ids) rfl rfl

theorem activate (hp : Paired S b b') (id : Nat) :
    Paired S (b.activateBracketChildren id) (b'.activateBracketChildren id) :=
  hp.write (·.activateBracketChildren id) (b.unlinked_activate id) (b'.unlinked_activate id) rfl rfl

theorem nextGroup (hp : Paired S b b') : Paired S { b with nextOcoGroupId := b.nextOcoGroupId + 1 }
    { b' with nextOcoGroupId := b'.nextOcoGroupId + 1 } :=
  hp.write (fun b => { b with nextOcoGroupId := b.nextOcoGroupId + 1 }) rfl rfl rfl rfl

/-- The callbacks have changed what they capture. -/
theorem worlds (hp : Paired S b b') {w : W} {v : V} (h : S w v) : Paired S { b with world := w } { b' with world := v } :=
  ⟨hp.books, h⟩

theorem openTradeIdx (hp : Paired S b b') (k : Nat) : b'.openTradeIdx k = b.openTradeIdx k := by
  have hread : ∀ {U : Type} (b : BackBroker α U), b.unlinked.openTradeIdx k = b.openTradeIdx k := fun b => List.findIdx_map ..
  rw [← hread b', ← hread b, hp.books]

section
variable [Arith α]

theorem ensurePosition (hp : Paired S b b') (k : Nat) : Paired S (b.ensurePosition k) (b'.ensurePosition k) :=
  hp.write (·.ensurePosition k) rfl rfl rfl rfl

theorem pay (hp : Paired S b b') (ccy : Currency) (amount : α) : Paired S (b.pay ccy amount) (b'.pay ccy amount) :=
  hp.write (·.pay ccy amount) rfl rfl rfl rfl

theorem updatePosition (hp : Paired S b b') (k : Nat) (s p : α) : Paired S (b.updatePosition k s p) (b'.updatePosition k s p) :=
  hp.write (·.updatePosition k s p) rfl rfl rfl rfl

theorem openTrade (hp : Paired S b b') (k : Nat) (s p c : α) (bar : Nat) (dt : DateTime) (cand cand' : Nat) :
    Paired S (b.openTrade k s p c bar dt cand) (b'.openTrade k s p c bar dt cand') :=
  hp.write (·.openTrade k s p c bar dt 0) (b.unlinked_openTrade k s p c bar dt cand)
    (b'.unlinked_openTrade k s p c bar dt cand') rfl rfl

end

theorem tradeAt (hp : Paired S b b') (i : Nat) : b.openTrades[i]? = none ∧ b'.openTrades[i]? = none ∨
    ∃ t orig id, b.openTrades[i]? = some (t, orig) ∧ b'.openTrades[i]? = some (t.linked id, orig) := by
  have hi : b'.openTrades[i]?.map (fun x => (x.1.linked 0, x.2)) = b.openTrades[i]?.map fun x => (x.1.linked 0, x.2) := by
    rw [← List.getElem?_map, ← List.getElem?_map]
    exact hp.read (·.openTrades[i]?)
  cases hx : b.openTrades[i]? with
  | none =>
    rw [hx] at hi
    exact .inl ⟨rfl, Option.map_eq_none_iff.1 hi⟩
  | some x =>
    rw [hx] at hi
    obtain ⟨x', hx', heq⟩ := Option.map_eq_some_iff.1 hi
    obtain ⟨ht, ho⟩ := Prod.mk.injEq .. ▸ heq
    refine .inr ⟨x.1, x.2, x'.1.candidateId, rfl, ?_⟩
    rw [hx', ← Trade.eq_linked ht, ← ho]

/-- A trade is written in its place. -/
theorem setTrade (hp : Paired S b b') (i : Nat) (t : Trade α) (orig : α) (id : Nat) :
    Paired S { b with openTrades := b.openTrades.set i (t, orig) } { b' with openTrades := b'.openTrades.set i (t.linked id, orig) } := by
  refine hp.write (fun b => { b with openTrades := b.openTrades.set i (t.linked 0, orig) }) ?_ ?_ rfl rfl
  · unfold unlinked
    dsimp only
    rw [List.map_set]
  · unfold unlinked
    dsimp only
    rw [List.map_set]
    rfl

end Paired
end BackBroker

/-! ### Commands -/

namespace Hooks.Sim
open BackBroker
variable {h : Hooks α W} {h' : Hooks α V} {S : W → V → Prop} {b : BackBroker α W} {b' : BackBroker α V}
  (hS : h.Sim h' S)
include hS

theorem notify (hp : Paired S b b') (i : Nat) : Paired S (BackBroker.notify h b i) (BackBroker.notify h' b' i) := by
  unfold BackBroker.notify
  rcases hp.pending i with ⟨hb, hb'⟩ | ⟨o, id, hb, hb'⟩ <;> rw [hb, hb']
  exacts [hp, hS.order o id hp]

/-- A pending order is written, its record overwritten, and the callback told. -/
theorem publish (hp : Paired S b b') {f : Order α → Order α} (hf : ∀ o : Order α, (f o).linked 0 = f (o.linked 0)) (i : Nat) :
    Paired S (BackBroker.notify h ((b.edit i f).sync i) i) (BackBroker.notify h' ((b'.edit i f).sync i) i) :=
  hS.notify ((hp.edit hf i).sync i) i

theorem cancelAt (hp : Paired S b b') {p : Order α → Bool} (hread : ∀ (o : Order α) id, p (o.linked id) = p o) (byUser : Bool)
    (i : Nat) : Paired S (b.cancelAt h p byUser i) (b'.cancelAt h' p byUser i) := by
  unfold BackBroker.cancelAt
  rcases hp.pending i with ⟨hb, hb'⟩ | ⟨o, id, hb, hb'⟩ <;> rw [hb, hb']
  · exact hp
  have hturn : b'.turn = b.turn := hp.read (·.turn)
  have hcancel : ∀ o : Order α, o.cancel.linked 0 = (o.linked 0).cancel := fun o => o.linked_setStatus _ 0
  dsimp only
  rw [hread o id, hturn]
  show Paired S (if (p o && o.isAlive) = true then _ else b) (if (p o && o.isAlive) = true then _ else b')
  split_ifs
  · exact hS.publish (hp.note (.cancelled o.id i b.turn) id) hcancel i
  · exact hS.publish hp hcancel i
  · exact hp

theorem cancelPending (hp : Paired S b b') {p : Order α → Bool} (hread : ∀ (o : Order α) id, p (o.linked id) = p o)
    (byUser : Bool) : Paired S (b.cancelPending h p byUser) (b'.cancelPending h' p byUser) := by
  unfold BackBroker.cancelPending
  rw [hp.length_pending]
  exact List.foldl_rel hp fun i _ b b' hp => hS.cancelAt hp hread byUser i

variable [Arith α]

theorem submitOrderExt (hp : Paired S b b') (side : OrderSide) (size : α) (params : OrderParams α) :
    (b'.submitOrderExt h' side size params).1 = (b.submitOrderExt h side size params).1 ∧
      Paired S (b.submitOrderExt h side size params).2 (b'.submitOrderExt h' side size params).2 := by
  obtain ⟨⟨id, hpor⟩, hworld⟩ := hS.hook side size params.dataIndex hp
  have hnext : b'.nextOrderId = b.nextOrderId := hp.read (·.nextOrderId)
  have hw := hp.worlds hworld
  have hplace : ∀ {o o' : Order α}, o' = o.linked id →
      Paired S (pushOrder { b with world := (h.preOrderHook side size params.dataIndex b).2 } o)
        (pushOrder { b' with world := (h'.preOrderHook side size params.dataIndex b').2 } o') := fun ho =>
    ho ▸ hw.pushOrder _ id
  unfold BackBroker.submitOrderExt
  dsimp only
  rw [hpor]
  dsimp only
  split_ifs
  · exact ⟨rfl, hw⟩
  · exact ⟨hnext, hplace (by rw [hnext]; rfl)⟩

theorem bracket (hp : Paired S b b') (mainSide legSide : OrderSide) (size limitPrice stopPrice : α) (k : Nat) :
    Paired S (b.bracket h mainSide legSide size limitPrice stopPrice k).2
      (b'.bracket h' mainSide legSide size limitPrice stopPrice k).2 := by
  have h0 := hp.nextGroup
  unfold BackBroker.bracket submitOrder
  rw [show b'.nextOcoGroupId = b.nextOcoGroupId from hp.read (·.nextOcoGroupId)] at h0 ⊢
  obtain ⟨hid, h1⟩ := hS.submitOrderExt h0 mainSide size
    { OrderParams.default with type := .Market, price := 0, stopPrice := .none, dataIndex := k }
  dsimp only
  rw [hid]
  obtain ⟨hid, h2⟩ := hS.submitOrderExt h1 legSide size (tpParams limitPrice k _ b.nextOcoGroupId)
  rw [hid]
  obtain ⟨hid, h3⟩ := hS.submitOrderExt h2 legSide size (slParams stopPrice k _ b.nextOcoGroupId)
  rw [hid]
  exact h3.linkChildren _ _

theorem close (hp : Paired S b b') (k : Nat) : Paired S (b.close h k).2 (b'.close h' k).2 := by
  have h0 := hp.ensurePosition k
  have hpos : (b'.ensurePosition k).position k = (b.ensurePosition k).position k := h0.read (·.position k)
  unfold BackBroker.close submitOrder
  dsimp only
  rw [hpos]
  split_ifs
  exacts [h0, (hS.submitOrderExt h0 ..).2, (hS.submitOrderExt h0 ..).2]

theorem exec (hp : Paired S b b') (c : Cmd α) : Paired S (b.exec h c) (b'.exec h' c) := by
  cases c with
  | buy | sell | buyExt | sellExt => exact (hS.submitOrderExt hp ..).2
  | buyBracket | sellBracket => exact hS.bracket hp ..
  | close k => exact hS.close hp k
  | cancelOrder id => exact hS.cancelPending hp (fun _ _ => rfl) true
  | nextOcoGroup => exact hp.nextGroup

/-! ### Fills -/

omit [Arith α] in
theorem retireTrade (hp : Paired S b b') (i : Nat) (t : Trade α) (orig : α) (id : Nat) :
    Paired S (b.retireTrade h i t orig) (b'.retireTrade h' i (t.linked id) orig) := by
  have hclosed : Paired S { b with openTrades := b.openTrades.set i (t, orig), closedTrades := b.closedTrades ++ [(t, orig)] }
      { b' with openTrades := b'.openTrades.set i (t.linked id, orig), closedTrades := b'.closedTrades ++ [(t.linked id, orig)] } := by
    refine (hp.setTrade i t orig id).write (fun b => { b with closedTrades := b.closedTrades ++ [(t.linked 0, orig)] }) ?_ ?_ rfl rfl
    · unfold unlinked
      dsimp only
      rw [List.map_append]
      rfl
    · unfold unlinked
      dsimp only
      rw [List.map_append]
      rfl
  have herase : ∀ {U : Type} (b : BackBroker α U), unlinked { b with openTrades := b.openTrades.eraseIdx i } =
      { b.unlinked with openTrades := b.unlinked.openTrades.eraseIdx i } := fun b => by
    unfold unlinked
    dsimp only
    rw [List.eraseIdx_map]
  exact (hS.trade t id orig hclosed).write (fun b => { b with openTrades := b.openTrades.eraseIdx i }) (herase _) (herase _) rfl rfl

theorem updateTrades (hp : Paired S b b') (k : Nat) (old s p c : α) (bar : Nat) (dt : DateTime) (cand cand' : Nat) :
    Paired S (b.updateTrades h k old s p c bar dt cand) (b'.updateTrades h' k old s p c bar dt cand') := by
  unfold BackBroker.updateTrades
  dsimp only
  rw [hp.openTradeIdx k]
  split_ifs with hnew hgrows
  · exact hp.openTrade ..
  · let grow (x : Trade α × α) : Trade α × α := (x.1.update s p c bar dt, x.2 + s)
    have hgrow : ∀ {U : Type} (b : BackBroker α U) i, unlinked { b with openTrades := b.openTrades.modify i grow } =
        { b.unlinked with openTrades := b.unlinked.openTrades.modify i grow } := by
      intro U b i
      unfold unlinked
      dsimp only
      rw [map_modify fun x => ?_]
      exact Prod.ext (x.1.linked_update s p c bar dt 0) rfl
    exact hp.write (fun u => { u with openTrades := u.openTrades.modify (b.openTradeIdx k) grow }) (hgrow _ _) (hgrow _ _)
      rfl rfl
  · rcases hp.tradeAt (b.openTradeIdx k) with ⟨hb, hb'⟩ | ⟨t, orig, id, hb, hb'⟩ <;> rw [hb, hb']
    · exact hp
    have hupdate : ∀ s c, (t.linked id).update s p c bar dt = (t.update s p c bar dt).linked id := fun s c =>
      (t.linked_update s p c bar dt id).symm
    dsimp only
    rw [hupdate, hupdate]
    show Paired S (if Arith.abs t.size < Arith.abs s then _ else if (t.update s p c bar dt).isClosed = true then _ else _)
      (if Arith.abs t.size < Arith.abs s then _ else if (t.update s p c bar dt).isClosed = true then _ else _)
    split_ifs
    · exact (hS.retireTrade hp _ _ _ id).openTrade ..
    · exact hS.retireTrade hp _ _ _ id
    · exact hp.setTrade _ _ _ id

theorem book (hp : Paired S b b') (feed : DataFeed α) (bar : Row α) (i : Nat) (o : Order α) (id : Nat) (price : α) :
    Paired S (b.book h feed bar i o price) (b'.book h' feed bar i (o.linked id) price) := by
  let executed := o.execute price o.size (b.fillCommission o price)
  have hpaid := ((hp.put i executed id).pay (b.settleCcy o.dataIndex) (o.signedSize * price + b.fillCommission o price)).ensurePosition
    o.dataIndex
  have hnoted := (hpaid.updatePosition o.dataIndex o.signedSize price).note
    (.executed ⟨executed, price, o.signedSize, b.fillCommission o price, b.settleCcy o.dataIndex, b.dataBarIndex, feed.index⟩) id
  -- the second broker computes the numbers of the first
  have hsame : ∀ (comm : α) (settle : Currency) (old : α) (n : Nat), comm = b.fillCommission o price →
      settle = b.settleCcy o.dataIndex → old = ((b.ensurePosition o.dataIndex).position o.dataIndex).size → n = b.dataBarIndex →
      Paired S (b.book h feed bar i o price)
        (((((((b'.edit i fun _ => (o.linked id).execute price o.size comm).pay settle (o.signedSize * price + comm)).ensurePosition
          o.dataIndex).updatePosition o.dataIndex o.signedSize price).note
            (.executed ⟨(o.linked id).execute price o.size comm, price, o.signedSize, comm, settle, n, feed.index⟩)).updateTrades h'
              o.dataIndex old o.signedSize price comm n bar.datetime id).sync i) := by
    rintro _ _ _ _ rfl rfl rfl rfl
    rw [← o.linked_execute price o.size _ id]
    exact (hS.updateTrades hnoted o.dataIndex _ o.signedSize price _ b.dataBarIndex bar.datetime o.candidateId id).sync i
  exact hsame _ _ _ _ (hp.read (·.fillCommission o price)) (hp.read (·.settleCcy o.dataIndex))
    (hp.read fun u => ((u.ensurePosition o.dataIndex).position o.dataIndex).size) (hp.read (·.dataBarIndex))

theorem tryFillOrder (hp : Paired S b b') (feed : DataFeed α) (bar : Row α) (i : Nat) :
    (b'.tryFillOrder h' feed bar i).1 = (b.tryFillOrder h feed bar i).1 ∧
      Paired S (b.tryFillOrder h feed bar i).2 (b'.tryFillOrder h' feed bar i).2 := by
  have hrefuse : ∀ s, Paired S ((b.edit i (·.setStatus s)).sync i) ((b'.edit i (·.setStatus s)).sync i) := fun s =>
    (hp.edit (fun o => o.linked_setStatus s 0) i).sync i
  unfold BackBroker.tryFillOrder
  rcases hp.pending i with ⟨hb, hb'⟩ | ⟨o, id, hb, hb'⟩ <;> rw [hb, hb']
  · exact ⟨rfl, hp⟩
  dsimp only
  rw [show b'.matchOrder (o.linked id) bar = b.matchOrder o bar from hp.read (·.matchOrder o bar)]
  cases b.matchOrder o bar with
  | none => exact ⟨rfl, hp⟩
  | noStopPrice => exact ⟨rfl, hrefuse .Rejected⟩
  | fill price =>
    dsimp only
    rw [show b'.affords (o.linked id) price bar.datetime = b.affords o price bar.datetime from
      hp.read (·.affords o price bar.datetime)]
    split_ifs
    exacts [⟨rfl, hS.book hp feed bar i o id price⟩, ⟨rfl, hrefuse .Margin⟩]

omit hS in
theorem updateTrailStop (hp : Paired S b b') (bar : Row α) (i : Nat) : Paired S (b.updateTrailStop bar i) (b'.updateTrailStop bar i) := by
  unfold BackBroker.updateTrailStop
  rcases hp.pending i with ⟨hb, hb'⟩ | ⟨o, id, hb, hb'⟩ <;> rw [hb, hb']
  · exact hp
  dsimp only
  rw [show newTrailStop (o.linked id) bar = newTrailStop o bar from rfl]
  cases newTrailStop o bar with
  | none => exact hp
  | some level => exact (hp.edit (fun _ => rfl) i).sync i

end Hooks.Sim

/-! ### Passes -/

/-- Two passes over paired brokers, with the same local vectors up to candidate ids. -/
structure Pass.Paired (S : W → V → Prop) (p : Pass α W) (p' : Pass α V) : Prop where
  broker : p.broker.Paired S p'.broker
  kept : p'.stillPending.map (·.linked 0) = p.stillPending.map (·.linked 0)
  groups : p'.filledOcoGroups = p.filledOcoGroups

theorem Pass.Paired.withBroker {S : W → V → Prop} {p : Pass α W} {p' : Pass α V} {b : BackBroker α W} {b' : BackBroker α V}
    (hp : p.Paired S p') (hb : b.Paired S b') : Pass.Paired S { p with broker := b } { p' with broker := b' } :=
  ⟨hb, hp.kept, hp.groups⟩

theorem Pass.Paired.ite {S : W → V → Prop} {c : Prop} [Decidable c] {p q : Pass α W} {p' q' : Pass α V} (h : p.Paired S p')
    (h' : q.Paired S q') : (if c then p else q).Paired S (if c then p' else q') := by
  split_ifs
  exacts [h, h']

namespace Hooks.Sim
open BackBroker
variable {h : Hooks α W} {h' : Hooks α V} {S : W → V → Prop} {b : BackBroker α W} {b' : BackBroker α V}
  {p : Pass α W} {p' : Pass α V} (hS : h.Sim h' S)

theorem keep (hp : p.Paired S p') (i : Nat) : (p.keep i).Paired S (p'.keep i) := by
  unfold Pass.keep
  rcases hp.broker.pending i with ⟨hb, hb'⟩ | ⟨o, id, hb, hb'⟩ <;> rw [hb, hb']
  · exact hp
  · refine ⟨hp.broker, ?_, hp.groups⟩
    dsimp only
    rw [List.map_append, List.map_append, hp.kept]
    rfl

theorem isParentFilled (hp : Paired S b b') (id : Nat) : b'.isParentFilled id = b.isParentFilled id := by
  have hread : ∀ {U : Type} (b : BackBroker α U), b.unlinked.isParentFilled id = b.isParentFilled id := fun b => by
    unfold BackBroker.isParentFilled findOrder unlinked
    rw [List.find?_map]
    cases hfind : b.allOrders.find? (·.id == id) <;> simp [Function.comp_def, Order.linked, hfind]
  rw [← hread b', ← hread b, hp.books]

theorem held (hp : Paired S b b') (o : Order α) (id : Nat) : Pass.held b' (o.linked id) = Pass.held b o := by
  unfold Pass.held
  rw [show (o.linked id).parentId = o.parentId from rfl, isParentFilled hp]
  rfl

theorem expired (hp : Paired S b b') (o : Order α) (id : Nat) : Pass.expired b' (o.linked id) = Pass.expired b o :=
  hp.read (Pass.expired · o)

theorem release (hp : Paired S b b') (i : Nat) (o : Order α) (id : Nat) :
    Paired S (Pass.release b i o) (Pass.release b' i (o.linked id)) := by
  unfold Pass.release
  show Paired S (if (!o.transmit && o.parentId != 0) = true then _ else b) (if (!o.transmit && o.parentId != 0) = true then _ else b')
  split_ifs
  exacts [hp.edit (fun _ => rfl) i, hp]

include hS

theorem submitAccept (hp : Paired S b b') (i : Nat) (o : Order α) (id : Nat) :
    Paired S (Pass.submitAccept h b i o) (Pass.submitAccept h' b' i (o.linked id)) := by
  unfold Pass.submitAccept
  show Paired S (if o.status = .Created then _ else b) (if o.status = .Created then _ else b')
  split_ifs
  · exact hS.publish (hS.publish hp (fun o => o.linked_setStatus _ 0) i) (fun o => o.linked_setStatus _ 0) i
  · exact hp

theorem afterFill (hp : p.Paired S p') (i : Nat) : (Pass.afterFill h p i).Paired S (Pass.afterFill h' p' i) := by
  have hn := hS.notify hp.broker i
  have hgroups := hp.groups
  unfold Pass.afterFill
  dsimp only
  rcases hn.pending i with ⟨hb, hb'⟩ | ⟨o, id, hb, hb'⟩ <;> rw [hb, hb']
  · exact hp.withBroker hn
  have hgroup : ∀ {q : Pass α W} {q' : Pass α V}, q.Paired S q' →
      Pass.Paired S { q with filledOcoGroups := q.filledOcoGroups ++ [o.ocoGroupId] }
        { q' with filledOcoGroups := q'.filledOcoGroups ++ [o.ocoGroupId] } := fun hq =>
    ⟨hq.broker, hq.kept, by rw [hq.groups]⟩
  have hactivate : ∀ {q : Pass α W} {q' : Pass α V}, q.Paired S q' →
      Pass.Paired S { q with broker := q.broker.activateBracketChildren o.id }
        { q' with broker := q'.broker.activateBracketChildren o.id } := fun hq => hq.withBroker (hq.broker.activate o.id)
  have hcancel : ∀ {q : Pass α W} {q' : Pass α V}, q.Paired S q' →
      Pass.Paired S { q with broker := q.broker.cancelBracketChildren h o.id }
        { q' with broker := q'.broker.cancelBracketChildren h' o.id } := fun hq =>
    hq.withBroker (hS.cancelPending hq.broker (fun _ _ => rfl) false)
  have h1 := hp.withBroker hn
  have h2 := Pass.Paired.ite (c := (o.ocoGroupId != 0 && o.status = .Completed) = true) (hgroup h1) h1
  have h3 := Pass.Paired.ite (c := (o.status = .Completed && !o.childIds.isEmpty) = true) (hactivate h2) h2
  exact Pass.Paired.ite (c := (o.parentId == 0 && !o.childIds.isEmpty && Pass.refused o) = true) (hcancel h3) h3

theorem drop (hp : p.Paired S p') (hb : Paired S b b') {f : Order α → Order α}
    (hf : ∀ o : Order α, (f o).linked 0 = f (o.linked 0)) (i : Nat) : (Pass.drop h f p b i).Paired S (Pass.drop h' f p' b' i) :=
  hp.withBroker (hS.publish hb hf i)

theorem cancelOco (hp : p.Paired S p') (j : Nat) : (Pass.cancelOco h p j).Paired S (Pass.cancelOco h' p' j) := by
  unfold Pass.cancelOco
  rcases Order.getElem?_linked hp.kept j with ⟨hb, hb'⟩ | ⟨o, id, hb, hb'⟩ <;> rw [hb, hb']
  · exact hp
  have hcancel : (o.linked id).cancel = o.cancel.linked id := (o.linked_setStatus _ id).symm
  dsimp only
  rw [hp.groups, hcancel]
  show Pass.Paired S (if (o.ocoGroupId != 0 && o.isAlive && p.filledOcoGroups.contains o.ocoGroupId) = true then _ else p)
    (if (o.ocoGroupId != 0 && o.isAlive && p.filledOcoGroups.contains o.ocoGroupId) = true then _ else p')
  split_ifs
  · refine ⟨hS.order _ id (hp.broker.syncOrder o.cancel id), ?_, rfl⟩
    rw [List.map_set, List.map_set, hp.kept]
    rfl
  · exact hp

theorem cancelOcoSiblings (hp : p.Paired S p') : (Pass.cancelOcoSiblings h p).Paired S (Pass.cancelOcoSiblings h' p') := by
  have hlen : p'.stillPending.length = p.stillPending.length := by simpa using congrArg List.length hp.kept
  unfold Pass.cancelOcoSiblings
  rw [hp.groups, hlen]
  split_ifs
  · exact hp
  · have hf : ((List.range p.stillPending.length).foldl (Pass.cancelOco h) p).Paired S
        ((List.range p.stillPending.length).foldl (Pass.cancelOco h') p') :=
      List.foldl_rel hp fun j _ p p' hp => hS.cancelOco hp j
    refine ⟨hf.broker, ?_, hf.groups⟩
    have hfilter : ∀ os : List (Order α), (os.filter Order.isAlive).map (·.linked 0) = (os.map (·.linked 0)).filter Order.isAlive :=
      fun os => by rw [List.filter_map]; rfl
    rw [hfilter, hfilter, hf.kept]

variable [Arith α]

theorem match' (hp : p.Paired S p') (feed : DataFeed α) (bar : Row α) (i : Nat) (trail : Bool) :
    (Pass.match' h feed bar p i trail).Paired S (Pass.match' h' feed bar p' i trail) := by
  obtain ⟨hfilled, hb⟩ := hS.tryFillOrder hp.broker feed bar i
  unfold Pass.match'
  dsimp only
  rw [hfilled]
  split_ifs
  · exact hS.afterFill (hp.withBroker hb) i
  · exact keep (hp.withBroker (updateTrailStop hb bar i)) i
  · exact keep (hp.withBroker hb) i

theorem visit (hp : p.Paired S p') (feeds : List (DataFeed α)) (i : Nat) :
    (Pass.visit h feeds p i).Paired S (Pass.visit h' feeds p' i) := by
  have hturn : Paired S { p.broker with turn := i + 1 } { p'.broker with turn := i + 1 } :=
    hp.broker.write (fun b => { b with turn := i + 1 }) rfl rfl rfl rfl
  unfold Pass.visit
  dsimp only
  rcases hp.broker.pending i with ⟨hb, hb'⟩ | ⟨o, id, hb, hb'⟩ <;> rw [hb, hb']
  · exact hp.withBroker hturn
  have hrel := release hturn i o id
  dsimp only
  rw [show (o.linked id).isAlive = o.isAlive from rfl, show (o.linked id).dataIndex = o.dataIndex from rfl, held hturn]
  refine .ite (hp.withBroker hturn) (.ite (keep (hp.withBroker hturn) i) ?_)
  cases feeds[o.dataIndex]? with
  | none => exact hS.drop (hp.withBroker hturn) hrel (fun o => o.linked_setStatus _ 0) i
  | some feed =>
    dsimp only
    cases feed.current? with
    | none => exact keep (hp.withBroker hrel) i
    | some bar =>
      dsimp only
      rw [expired hrel]
      refine .ite (hS.drop (hp.withBroker hturn) hrel (fun o => o.linked_setStatus _ 0) i) ?_
      exact hS.match' (hp.withBroker (hS.submitAccept hrel i o id)) feed bar i _

theorem processOrders (hp : Paired S b b') (feeds : List (DataFeed α)) :
    Paired S (b.processOrders h feeds) (b'.processOrders h' feeds) := by
  have hstart : Pass.Paired S { broker := b } { broker := b' } := ⟨hp, rfl, rfl⟩
  have hvisits : ((List.range b.pendingOrders.length).foldl (Pass.visit h feeds) { broker := b }).Paired S
      ((List.range b.pendingOrders.length).foldl (Pass.visit h' feeds) { broker := b' }) :=
    List.foldl_rel hstart fun i _ p p' hp => hS.visit hp feeds i
  have hfinal := hS.cancelOcoSiblings hvisits
  unfold BackBroker.processOrders passAt
  rw [hp.length_pending]
  generalize Pass.cancelOcoSiblings h ((List.range b.pendingOrders.length).foldl (Pass.visit h feeds) { broker := b }) = p at hfinal
  generalize Pass.cancelOcoSiblings h' ((List.range b.pendingOrders.length).foldl (Pass.visit h' feeds) { broker := b' }) = p' at hfinal
  refine hfinal.broker.write (fun u => { u with pendingOrders := p.stillPending.map (·.linked 0), turn := 0 }) rfl ?_ rfl rfl
  rw [← hfinal.kept]
  rfl

end Hooks.Sim

/-! ### Callbacks -/

/-- Two listeners that answer paired brokers with the same command, and whose hooks let the same through. -/
structure Listener.Sim (L : Listener α W) (L' : Listener α V) (S : W → V → Prop) : Prop where
  act : ∀ ev id {b b'}, BackBroker.Paired S b b' →
    (L'.act (ev.linked id) b').2 = (L.act ev b).2 ∧ S (L.act ev b).1 (L'.act (ev.linked id) b').1
  hook : ∀ side size k {b b'}, BackBroker.Paired S b b' →
    (∃ id, (L'.preOrderHook side size k b').1 = { (L.preOrderHook side size k b).1 with candidateId := id }) ∧
      S (L.preOrderHook side size k b).2 (L'.preOrderHook side size k b').2

namespace Listener.Sim
open BackBroker
variable {L : Listener α W} {L' : Listener α V} {S : W → V → Prop} (hL : L.Sim L' S)
include hL

theorem hooksOf {r : Event α → BackBroker α W → BackBroker α W} {r' : Event α → BackBroker α V → BackBroker α V}
    (hr : ∀ ev id {b b'}, Paired S b b' → Paired S (r ev b) (r' (ev.linked id) b')) : (L.hooksOf r).Sim (L'.hooksOf r') S where
  order o id _ _ hp := hr (.order o) id hp
  trade t id s _ _ hp := hr (.trade t s) id hp
  hook := hL.hook

variable [Arith α]

theorem react (n : Nat) (ev : Event α) (id : Nat) {b : BackBroker α W} {b' : BackBroker α V} (hp : Paired S b b') :
    Paired S (L.react n ev b) (L'.react n (ev.linked id) b') := by
  induction n generalizing ev id b b' with
  | zero => exact hp
  | succ n ih =>
    obtain ⟨hcmd, hworld⟩ := hL.act ev id hp
    unfold Listener.react
    generalize L.act ev b = r at hcmd hworld
    generalize L'.act (ev.linked id) b' = r' at hcmd hworld
    obtain ⟨w, cmd⟩ := r
    obtain ⟨v, cmd'⟩ := r'
    cases hcmd
    cases cmd with
    | none => exact hp.worlds hworld
    | some c => exact ih ev id ((hL.hooksOf fun ev id _ _ hp => ih ev id hp).exec (hp.worlds hworld) c)

theorem hooks (fuel : Nat) : (L.hooks fuel).Sim (L'.hooks fuel) S := hL.hooksOf fun ev id _ _ hp => hL.react fuel ev id hp

end Listener.Sim

end StratForge
