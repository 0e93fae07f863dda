import StratForge.DeskSim
import StratForge.Live

/-!
# What the callbacks do to a live broker

`react_calls`: whatever the callbacks and the connector do while the broker calls out, they book
nothing, store no snapshot, and an order that was there before has kept its fill; its status is the
same unless it has been cancelled, and then there is a note of it.

`Settled` is the law of terminal states as the record writes so far have kept it: no write to a record
after a terminal one has another status. The callbacks keep it as long as no order is cancelled while
its own submission or booking is under way (`LiveNote.Orderly`).
-/

namespace StratForge

variable {α W : Type}

/-- Two copies of an order that also agree on what has been filled of it. -/
structure Order.SameFill (o o' : Order α) : Prop extends Order.Same o o' where
  executedPrice : o'.executedPrice = o.executedPrice
  executedSize : o'.executedSize = o.executedSize
  commission : o'.commission = o.commission

namespace Order.SameFill
variable {o o' o'' : Order α}

theorem refl (o : Order α) : SameFill o o := ⟨.refl o, rfl, rfl, rfl⟩

theorem trans (h : SameFill o o') (h' : SameFill o' o'') : SameFill o o'' :=
  ⟨h.toSame.trans h'.toSame, h'.executedPrice.trans h.executedPrice, h'.executedSize.trans h.executedSize,
    h'.commission.trans h.commission⟩

theorem setStatus (o : Order α) (s : OrderStatus) : SameFill o (o.setStatus s) := by
  refine ⟨same_setStatus o s, ?_, ?_, ?_⟩ <;> unfold Order.setStatus <;> split <;> rfl

theorem withChildren (o : Order α) (ids : List Nat) : SameFill o { o with childIds := ids } :=
  ⟨⟨rfl, rfl, rfl, rfl, rfl, rfl, rfl, rfl, rfl, rfl, rfl, rfl⟩, rfl, rfl, rfl⟩

end Order.SameFill

/-- No order is cancelled while it is being submitted or booked. -/
def LiveNote.Orderly : LiveNote α → Prop
  | .cancelled id busy => id ∉ busy
  | _ => True

/-- The later of two writes to a record does not leave a terminal state. -/
def Note.Settles (n n' : Note α) : Prop :=
  ∀ o o', n = .recorded o → n' = .recorded o' → o'.id = o.id → o.isAlive = false → o'.status = o.status

namespace BackBroker

/-- Ids are given out in order and once. -/
structure Numbered (b : BackBroker α W) : Prop where
  pos : 0 < b.nextOrderId
  nodup : (b.allOrders.map Order.id).Nodup
  lt : ∀ o ∈ b.allOrders, 0 < o.id ∧ o.id < b.nextOrderId

/-- Every record has the status of the last terminal write to it, and no write came after that one with
another status. -/
structure Settled (b : BackBroker α W) : Prop where
  pairwise : b.journal.Pairwise Note.Settles
  last : ∀ o, .recorded o ∈ b.journal → o.isAlive = false →
    ∃ r, b.findOrder o.id = some r ∧ r.status = o.status

section
variable {b b' : BackBroker α W} {o r : Order α} {id k : Nat}

theorem mem_of_findOrder (h : b.findOrder id = some r) : r ∈ b.allOrders ∧ r.id = id :=
  ⟨List.mem_of_find?_eq_some h, by simpa using List.find?_some h⟩

theorem Numbered.findOrder_next (h : b.Numbered) : b.findOrder b.nextOrderId = none := by
  cases hf : b.findOrder b.nextOrderId with
  | none => rfl
  | some r =>
    obtain ⟨hr, hid⟩ := mem_of_findOrder hf
    exact absurd (hid ▸ (h.lt r hr).2) (lt_irrefl _)

theorem Numbered.of_ids (h : b.Numbered) (hn : b'.nextOrderId = b.nextOrderId)
    (hids : b'.allOrders.map Order.id = b.allOrders.map Order.id) : b'.Numbered := by
  refine ⟨hn ▸ h.pos, hids ▸ h.nodup, fun o ho => ?_⟩
  have hmem : o.id ∈ b.allOrders.map Order.id := hids ▸ List.mem_map_of_mem ho
  obtain ⟨o', ho', heq⟩ := List.mem_map.1 hmem
  rw [hn, ← heq]
  exact h.lt o' ho'

theorem Numbered.pushOrder (h : b.Numbered) (hid : o.id = b.nextOrderId) : (b.pushOrder o).Numbered := by
  refine ⟨Nat.succ_pos _, ?_, fun x hx => ?_⟩
  · show ((b.allOrders ++ [o]).map Order.id).Nodup
    rw [List.map_append, List.nodup_append]
    refine ⟨h.nodup, List.nodup_singleton _, ?_⟩
    rintro i hi j hj rfl
    obtain ⟨x, hx, rfl⟩ := List.mem_map.1 hi
    have hxo : x.id = o.id := by simpa using hj
    have := (h.lt x hx).2
    omega
  · show _ ∧ _ < b.nextOrderId + 1
    rcases List.mem_append.1 (show x ∈ b.allOrders ++ [o] from hx) with hx | hx
    · exact ⟨(h.lt x hx).1, Nat.lt_succ_of_lt (h.lt x hx).2⟩
    · obtain rfl := List.mem_singleton.1 hx
      have := h.pos
      omega

theorem Numbered.syncOrder (h : b.Numbered) (o : Order α) : (b.syncOrder o).Numbered :=
  h.of_ids rfl (Keyed.map_key_modify_findIdx fun _ _ => rfl)

theorem Numbered.linkChildren (h : b.Numbered) (id : Nat) (ids : List Nat) : (b.linkChildren id ids).Numbered :=
  h.of_ids rfl (Keyed.map_key_modify_findIdx fun _ hx => hx)

theorem Numbered.of_fresh (h : b.Fresh) : b.Numbered := by
  refine ⟨by rw [h.nextOrderId]; exact Nat.one_pos, by simp [h.allOrders], fun o ho => ?_⟩
  rw [h.allOrders] at ho
  cases ho

@[simp] theorem findOrder_syncBoth (b : BackBroker α W) (o : Order α) (k : Nat) :
    (b.syncBoth o).findOrder k = if k = o.id then (b.findOrder o.id).map (fun _ => o) else b.findOrder k :=
  findOrder_syncOrder b o k

/-! ### The law of terminal states, write by write -/

theorem Settled.mono (h : b.Settled) (ns : List (Note α)) (hj : b'.journal = b.journal ++ ns)
    (hns : ∀ n ∈ ns, ∀ o, n ≠ .recorded o)
    (hr : ∀ id r, b.findOrder id = some r → ∃ r', b'.findOrder id = some r' ∧ r'.status = r.status) : b'.Settled := by
  constructor
  · rw [hj, List.pairwise_append]
    refine ⟨h.pairwise, List.pairwise_of_forall_mem_list fun n hn n' hn' o o' he _ _ _ => ?_,
      fun n _ n' hn' o o' _ he' _ _ => ?_⟩
    · exact absurd he (hns n hn o)
    · exact absurd he' (hns n' hn' o')
  · intro o ho hdead
    rw [hj] at ho
    rcases List.mem_append.1 ho with ho | ho
    · obtain ⟨r, hf, hs⟩ := h.last o ho hdead
      obtain ⟨r', hf', hs'⟩ := hr _ r hf
      exact ⟨r', hf', hs'.trans hs⟩
    · exact absurd rfl (hns _ ho o)

/-- A write to a record keeps the law if it keeps the status of a terminal one. -/
theorem Settled.syncOrder (h : b.Settled) (hf : b.findOrder o.id = some r)
    (hs : r.isAlive = false → o.status = r.status) : (b.syncOrder o).Settled := by
  have hlast : ∀ o', Note.recorded o' ∈ b.journal → o'.isAlive = false → o'.id = o.id → o.status = o'.status := by
    intro o' ho' hdead hid
    obtain ⟨r', hf', hs'⟩ := h.last o' ho' hdead
    rw [hid, hf] at hf'
    obtain rfl := Option.some.inj hf'
    have hrdead : r.isAlive = false := by
      show r.status.isAlive = false
      rw [hs']; exact hdead
    exact (hs hrdead).trans hs'
  constructor
  · show (b.journal ++ [Note.recorded o]).Pairwise Note.Settles
    rw [List.pairwise_append]
    refine ⟨h.pairwise, List.pairwise_singleton .., fun n hn n' hn' o₁ o₂ he he' hid hdead => ?_⟩
    obtain rfl := List.mem_singleton.1 hn'
    obtain rfl := Note.recorded.inj he'
    subst he
    exact hlast o₁ hn hdead hid.symm
  · intro o' ho' hdead
    rw [findOrder_syncOrder]
    rcases List.mem_append.1 (show Note.recorded o' ∈ b.journal ++ [.recorded o] from ho') with ho' | ho'
    · by_cases hid : o'.id = o.id
      · exact ⟨o, by rw [if_pos hid, hf]; rfl, hlast o' ho' hdead hid⟩
      · rw [if_neg hid]
        exact h.last o' ho' hdead
    · obtain rfl := Note.recorded.inj (List.mem_singleton.1 ho')
      exact ⟨o', by rw [if_pos rfl, hf]; rfl, rfl⟩

end

/-! ### What a call leaves -/

variable [Arith α]

/-- What becomes of the orders between two live brokers while none is filled. -/
structure KeepsOrders (b b' : BackBroker α (Live α W)) : Prop where
  numbered : b'.Numbered
  snapshots : b'.world.snapshots = b.world.snapshots
  busy : b'.world.busy = b.world.busy
  next_le : b.nextOrderId ≤ b'.nextOrderId
  journal : b.journal <+: b'.journal
  events : b.world.events <+: b'.world.events
  /-- An order that was there is still there, and has been cancelled or left in its status. -/
  record : ∀ id r, b.findOrder id = some r → ∃ r', b'.findOrder id = some r' ∧ r.SameFill r' ∧
    (r'.status = r.status ∨ r.isAlive = true ∧ r'.status = .Canceled ∧
      ∃ busy, b.world.busy ⊆ busy ∧ LiveNote.cancelled id busy ∈ b'.world.events)
  /-- An order that was not there has been submitted, and nothing of it is filled. -/
  new : ∀ id r', b'.findOrder id = some r' → b.findOrder id = none → r'.executedSize = 0 ∧
    (∃ o turn seen, Note.submitted o turn seen ∈ b'.journal ∧ r'.size = o.size) ∧
    (r'.status = .Canceled → ∃ busy, LiveNote.cancelled id busy ∈ b'.world.events)
  logged : ∀ o turn seen, Note.submitted o turn seen ∈ b'.journal →
    Note.submitted o turn seen ∈ b.journal ∨ ∃ r, b'.findOrder o.id = some r ∧ r.size = o.size
  settled : (∀ n ∈ b'.world.events, n.Orderly) → b.Settled → b'.Settled

/-- What commands, callbacks and the connector have done between two live brokers. -/
structure Calls (b b' : BackBroker α (Live α W)) : Prop extends KeepsOrders b b' where
  quiet : Quiet b b'

namespace KeepsOrders
variable {b b' b'' : BackBroker α (Live α W)}

theorem trans (h : KeepsOrders b b') (h' : KeepsOrders b' b'') : KeepsOrders b b'' where
  numbered := h'.numbered
  snapshots := h'.snapshots.trans h.snapshots
  busy := h'.busy.trans h.busy
  next_le := h.next_le.trans h'.next_le
  journal := h.journal.trans h'.journal
  events := h.events.trans h'.events
  record id r hf := by
    obtain ⟨r', hf', hs, hst⟩ := h.record id r hf
    obtain ⟨r'', hf'', hs', hst'⟩ := h'.record id r' hf'
    refine ⟨r'', hf'', hs.trans hs', ?_⟩
    rcases hst' with heq' | ⟨halive', hc', busy, hsub, hmem⟩
    · rcases hst with heq | ⟨halive, hc, busy, hsub, hmem⟩
      · exact .inl (heq'.trans heq)
      · exact .inr ⟨halive, heq'.trans hc, busy, hsub, h'.events.mem hmem⟩
    · rcases hst with heq | ⟨-, hc, -⟩
      · refine .inr ⟨?_, hc', busy, h.busy ▸ hsub, hmem⟩
        rwa [Order.isAlive, heq] at halive'
      · rw [Order.isAlive, hc] at halive'; cases halive'
  new id r'' hf'' hnone := by
    cases hf' : b'.findOrder id with
    | none => exact h'.new id r'' hf'' hf'
    | some r' =>
      obtain ⟨hx, ⟨o, turn, seen, ho, hsz⟩, hc⟩ := h.new id r' hf' hnone
      obtain ⟨x, hx', hs, hst⟩ := h'.record id r' hf'
      obtain rfl := Option.some.inj (hx'.symm.trans hf'')
      refine ⟨hs.executedSize.trans hx, ⟨o, turn, seen, h'.journal.mem ho, hs.size.trans hsz⟩, fun hcan => ?_⟩
      rcases hst with heq | ⟨-, -, busy, -, hmem⟩
      · obtain ⟨busy, hmem⟩ := hc (heq.symm.trans hcan)
        exact ⟨busy, h'.events.mem hmem⟩
      · exact ⟨busy, hmem⟩
  logged o turn seen ho := by
    rcases h'.logged o turn seen ho with ho | hr
    · rcases h.logged o turn seen ho with ho | ⟨r, hf, hsz⟩
      · exact .inl ho
      · obtain ⟨r', hf', hs, -⟩ := h'.record _ r hf
        exact .inr ⟨r', hf', hs.size.trans hsz⟩
    · exact .inr hr
  settled hev hb := h'.settled hev (h.settled (fun n hn => hev n (h'.events.mem hn)) hb)

/-- A change that leaves the orders and what has been noted. -/
theorem of_same (hn : b.Numbered) (ha : b'.allOrders = b.allOrders)
    (hnext : b'.nextOrderId = b.nextOrderId) (hj : b'.journal = b.journal)
    (hs : b'.world.snapshots = b.world.snapshots) (hbusy : b'.world.busy = b.world.busy)
    (hev : b.world.events <+: b'.world.events) : KeepsOrders b b' where
  numbered := hn.of_ids hnext (by rw [ha])
  snapshots := hs
  busy := hbusy
  next_le := hnext.ge
  journal := hj ▸ List.prefix_rfl
  events := hev
  record id r hf := ⟨r, by rwa [findOrder, ha], .refl r, .inl rfl⟩
  new id r' hf' hnone := by
    rw [findOrder, ha] at hf'
    rw [findOrder, hf'] at hnone
    cases hnone
  logged o turn seen ho := .inl (hj ▸ ho)
  settled _ h := h.mono [] (by rw [hj, List.append_nil]) (by simp) fun id r hf => ⟨r, by rwa [findOrder, ha], rfl⟩

/-- Less may be busy than is. -/
theorem setBusy (h : KeepsOrders b b') {busy : List Nat} (hsub : busy ⊆ b.world.busy) :
    KeepsOrders (b.setBusy busy) (b'.setBusy busy) where
  numbered := ⟨h.numbered.pos, h.numbered.nodup, h.numbered.lt⟩
  snapshots := h.snapshots
  busy := rfl
  next_le := h.next_le
  journal := h.journal
  events := h.events
  record id r hf := by
    obtain ⟨r', hf', hs, hst⟩ := h.record id r hf
    refine ⟨r', hf', hs, hst.imp_right ?_⟩
    rintro ⟨halive, hc, busy', hsub', hmem⟩
    exact ⟨halive, hc, busy', List.Subset.trans hsub hsub', hmem⟩
  new := h.new
  logged := h.logged
  settled hev hb := h.settled hev (hb.mono [] (List.append_nil _).symm (by simp) fun id r hf => ⟨r, hf, rfl⟩) |>.mono []
    (List.append_nil _).symm (by simp) fun id r hf => ⟨r, hf, rfl⟩

end KeepsOrders

namespace Calls
variable {b b' b'' : BackBroker α (Live α W)} {o r : Order α}

theorem trans (h : Calls b b') (h' : Calls b' b'') : Calls b b'' :=
  ⟨h.toKeepsOrders.trans h'.toKeepsOrders, h.quiet.trans h'.quiet⟩

theorem of_same (hn : b.Numbered) (hq : Quiet b b') (ha : b'.allOrders = b.allOrders)
    (hnext : b'.nextOrderId = b.nextOrderId) (hj : b'.journal = b.journal)
    (hs : b'.world.snapshots = b.world.snapshots) (hbusy : b'.world.busy = b.world.busy)
    (hev : b.world.events <+: b'.world.events) : Calls b b' :=
  ⟨.of_same hn ha hnext hj hs hbusy hev, hq⟩

theorem refl (hn : b.Numbered) : Calls b b := of_same hn (.refl b) rfl rfl rfl rfl rfl List.prefix_rfl

theorem rest (hn : b.Numbered) (w : W) : Calls b (b.setRest w) :=
  of_same hn ⟨rfl, rfl, rfl, rfl, rfl, rfl, rfl, rfl, rfl, [], rfl⟩ rfl rfl rfl rfl rfl List.prefix_rfl

theorem nextOco (hn : b.Numbered) (k : Nat) : Calls b { b with nextOcoGroupId := k } :=
  of_same hn ⟨rfl, rfl, rfl, rfl, rfl, rfl, rfl, rfl, rfl, [], rfl⟩ rfl rfl rfl rfl rfl List.prefix_rfl

theorem ensurePosition (hn : b.Numbered) (k : Nat) : Calls b (b.ensurePosition k) :=
  of_same hn (.ensurePosition b k) rfl rfl rfl rfl rfl List.prefix_rfl

theorem liveNote (hn : b.Numbered) (n : LiveNote α) : Calls b (b.liveNote n) :=
  of_same hn ⟨rfl, rfl, rfl, rfl, rfl, rfl, rfl, rfl, rfl, [], rfl⟩ rfl rfl rfl rfl rfl (List.prefix_append ..)

theorem setBusy (h : Calls b b') {busy : List Nat} (hsub : busy ⊆ b.world.busy) :
    Calls (b.setBusy busy) (b'.setBusy busy) :=
  ⟨h.toKeepsOrders.setBusy hsub, h.quiet.settings, h.quiet.cash, h.quiet.nextTradeId, h.quiet.dataBarIndex,
    h.quiet.openTrades, h.quiet.closedTrades, h.quiet.turn, h.quiet.seen, h.quiet.executions, h.quiet.positions⟩

theorem pushOrder (hn : b.Numbered) (hid : o.id = b.nextOrderId) (hx : o.executedSize = 0)
    (hs : o.status = .Created) : Calls b (b.pushOrder o) where
  numbered := hn.pushOrder hid
  quiet := .pushOrder b o
  snapshots := rfl
  busy := rfl
  next_le := Nat.le_succ _
  journal := List.prefix_append ..
  events := List.prefix_rfl
  record id r hf := by
    have hne : id ≠ o.id := by
      rintro rfl
      rw [hid, hn.findOrder_next] at hf
      cases hf
    exact ⟨r, by rw [findOrder_pushOrder (hid ▸ hn.findOrder_next), if_neg hne]; exact hf, .refl r, .inl rfl⟩
  new id r' hf' hnone := by
    rw [findOrder_pushOrder (hid ▸ hn.findOrder_next)] at hf'
    split at hf'
    · obtain rfl := Option.some.inj hf'
      refine ⟨hx, ⟨o, b.turn, b.seen o.dataIndex, List.mem_append_right _ (List.mem_singleton_self _), rfl⟩, ?_⟩
      rw [hs]
      rintro ⟨⟩
    · rw [hf'] at hnone
      cases hnone
  logged o' turn seen ho' := by
    rcases List.mem_append.1 (show _ ∈ b.journal ++ _ from ho') with ho' | ho'
    · exact .inl ho'
    · cases List.mem_singleton.1 ho'
      exact .inr ⟨o, by rw [findOrder_pushOrder (hid ▸ hn.findOrder_next), if_pos rfl], rfl⟩
  settled _ h := by
    refine h.mono [.submitted o b.turn (b.seen o.dataIndex)] rfl ?_ fun id r hf => ?_
    · rintro n hn o' rfl
      simp at hn
    · have hne : id ≠ o.id := by
        rintro rfl
        rw [hid, hn.findOrder_next] at hf
        cases hf
      exact ⟨r, by rw [findOrder_pushOrder (hid ▸ hn.findOrder_next), if_neg hne]; exact hf, rfl⟩

/-- A write to the record of an order that was not there before. -/
theorem write (h : Calls b b') (hnone : b.findOrder o.id = none) (hf : b'.findOrder o.id = some r)
    (hx : o.executedSize = r.executedSize) (hsz : o.size = r.size) (hs : o.status ≠ .Canceled)
    (hdead : (∀ n ∈ b'.world.events, n.Orderly) → r.isAlive = false → o.status = r.status) :
    Calls b (b'.syncBoth o) where
  numbered := (h.numbered.syncOrder o).of_ids rfl rfl
  quiet :=
    have hq := h.quiet.trans (.syncOrder b' o)
    ⟨hq.settings, hq.cash, hq.nextTradeId, hq.dataBarIndex, hq.openTrades, hq.closedTrades, hq.turn, hq.seen,
      hq.executions, hq.positions⟩
  snapshots := h.snapshots
  busy := h.busy
  next_le := h.next_le
  journal := h.journal.trans (List.prefix_append ..)
  events := h.events
  record id r₀ hf₀ := by
    have hne : id ≠ o.id := by
      rintro rfl
      rw [hnone] at hf₀
      cases hf₀
    obtain ⟨r', hf', hr⟩ := h.record id r₀ hf₀
    exact ⟨r', by rw [findOrder_syncBoth, if_neg hne]; exact hf', hr⟩
  new id r' hf' hnone' := by
    rw [findOrder_syncBoth] at hf'
    split at hf'
    · rename_i hid
      subst hid
      obtain ⟨hx₀, ⟨o', turn, seen, ho', hsz'⟩, -⟩ := h.new _ r hf hnone
      rw [hf] at hf'
      obtain rfl := Option.some.inj hf'
      exact ⟨hx.trans hx₀, ⟨o', turn, seen, List.mem_append_left _ ho', hsz.trans hsz'⟩, fun hc => absurd hc hs⟩
    · obtain ⟨hx₀, ⟨o', turn, seen, ho', hsz'⟩, hc⟩ := h.new id r' hf' hnone'
      exact ⟨hx₀, ⟨o', turn, seen, List.mem_append_left _ ho', hsz'⟩, hc⟩
  logged o' turn seen ho' := by
    have ho' : Note.submitted o' turn seen ∈ b'.journal := by
      rcases List.mem_append.1 (show _ ∈ b'.journal ++ _ from ho') with ho' | ho'
      · exact ho'
      · cases List.mem_singleton.1 ho'
    refine (h.logged o' turn seen ho').imp_right ?_
    rintro ⟨r', hf', hsz'⟩
    rw [findOrder_syncBoth]
    split
    · rename_i hid
      rw [hid, hf] at hf'
      obtain rfl := Option.some.inj hf'
      exact ⟨o, by rw [hf]; rfl, hsz.trans hsz'⟩
    · exact ⟨r', hf', hsz'⟩
  settled hev hb := by
    have hset := (h.settled hev hb).syncOrder hf (hdead hev)
    exact hset.mono [] (List.append_nil _).symm (by simp) fun id r hf => ⟨r, hf, rfl⟩

end Calls

/-- Hooks whose callbacks do no more than issue commands, and a connector that does no more. -/
structure LiveTame (h : LiveHooks α W) : Prop where
  order : ∀ o b, b.Numbered → Calls b (h.orderNotify o b)
  trade : ∀ t s b, b.Numbered → Calls b (h.tradeNotify t s b)
  submit : ∀ o b, b.Numbered → Calls b (h.submit o b)
  cancel : ∀ id b, b.Numbered → Calls b (h.cancel id b)
  hook : ∀ side size k b, ∃ rest, (h.preOrderHook side size k b).2 = { b.world with rest }

variable {h : LiveHooks α W} {b : BackBroker α (Live α W)}

theorem LiveTame.hook_calls (hh : LiveTame h) (side : OrderSide) (size : α) (k : Nat) (hn : b.Numbered) :
    Calls b { b with world := (h.preOrderHook side size k b).2 } := by
  obtain ⟨rest, hrest⟩ := hh.hook side size k b
  rw [hrest]
  exact .rest hn rest

/-- The two announcements of a new order, which is busy. -/
theorem announce_calls (hh : LiveTame h) (hn : b.Numbered) {o : Order α} (hid : o.id = b.nextOrderId)
    (hx : o.executedSize = 0) (hs : o.status = .Created) (hbusy : o.id ∈ b.world.busy) :
    Calls b ((b.pushOrder o).announce h o) := by
  have hnone : b.findOrder o.id = none := hid ▸ hn.findOrder_next
  have halive : o.isAlive = true := by rw [Order.isAlive, hs]; rfl
  have hsub : o.submit.status = .Submitted := Order.status_setStatus halive _
  have halive' : o.submit.isAlive = true := by rw [Order.isAlive, hsub]; rfl
  have hacc : o.submit.accept.status = .Accepted := Order.status_setStatus halive' _
  have hfill : o.SameFill o.submit := .setStatus o _
  have hfill' : o.submit.SameFill o.submit.accept := .setStatus o.submit _
  have h1 : Calls b (b.pushOrder o) := .pushOrder hn hid hx hs
  have hf1 : (b.pushOrder o).findOrder o.id = some o := by rw [findOrder_pushOrder (hid ▸ hn.findOrder_next), if_pos rfl]
  have h2 : Calls b ((b.pushOrder o).syncBoth o.submit) := by
    refine h1.write (r := o) (hfill.id ▸ hnone) (hfill.id ▸ hf1) hfill.executedSize hfill.size ?_ fun _ hdead => ?_
    · rw [hsub]; rintro ⟨⟩
    · rw [halive] at hdead; cases hdead
  have hf2 : ((b.pushOrder o).syncBoth o.submit).findOrder o.id = some o.submit := by
    rw [findOrder_syncBoth, if_pos hfill.id.symm, hfill.id, hf1]; rfl
  have h3 := hh.order o.submit _ h2.numbered
  obtain ⟨r, hf3, hr, hst⟩ := h3.record _ _ hf2
  have hid' : o.submit.accept.id = o.id := hfill'.id.trans hfill.id
  have h4 : Calls b ((h.orderNotify o.submit ((b.pushOrder o).syncBoth o.submit)).syncBoth o.submit.accept) := by
    refine (h2.trans h3).write (r := r) (hid' ▸ hnone) (hid' ▸ hf3) (hfill'.executedSize.trans hr.executedSize.symm)
      (hfill'.size.trans hr.size.symm) ?_ fun hev hdead => ?_
    · rw [hacc]; rintro ⟨⟩
    · -- the callback has not cancelled the order, which is busy
      rcases hst with heq | ⟨-, -, busy, hsub', hmem⟩
      · rw [Order.isAlive, heq, hsub] at hdead; cases hdead
      · exact absurd (hsub' (h2.busy ▸ hbusy)) (hev _ hmem)
  exact h4.trans (hh.order _ _ h4.numbered)

theorem submitLiveOrder_calls (hh : LiveTame h) (hn : b.Numbered) {side : OrderSide} {size : α}
    {params : OrderParams α} {id : Nat} {b' : BackBroker α (Live α W)}
    (hr : submitLiveOrder h side size params b = .ok (id, b')) : Calls b b' := by
  have h1 := hh.hook_calls side size params.dataIndex hn
  unfold submitLiveOrder at hr
  split at hr
  · cases hr
  · rcases hp : h.preOrderHook side size params.dataIndex b with ⟨por, world⟩
    rw [hp] at hr h1
    dsimp only at hr h1
    split at hr
    · cases hr; exact h1
    · cases hr
      let b1 : BackBroker α (Live α W) := { b with world }
      let o := b1.newOrder side por params
      have hann : Calls (b1.setBusy (o.id :: b1.world.busy))
          (((b1.setBusy (o.id :: b1.world.busy)).pushOrder o).announce h o) :=
        announce_calls hh (show (b1.setBusy (o.id :: b1.world.busy)).Numbered from
          ⟨h1.numbered.pos, h1.numbered.nodup, h1.numbered.lt⟩) rfl rfl rfl (List.mem_cons_self ..)
      have h2 : Calls b1 ((((b1.setBusy (o.id :: b1.world.busy)).pushOrder o).announce h o).setBusy b1.world.busy) :=
        hann.setBusy (List.subset_cons_self ..)
      have h3 := h1.trans h2
      exact h3.trans (hh.submit _ _ h3.numbered)

theorem liveOrder_calls (hh : LiveTame h) (hn : b.Numbered) {side : OrderSide} {size price : α} {stopPrice : Option α}
    {type : OrderType} {k id : Nat} {b' : BackBroker α (Live α W)}
    (hr : liveOrder h side size price stopPrice type k b = .ok (id, b')) : Calls b b' :=
  submitLiveOrder_calls hh hn hr

theorem orUnchanged_calls (hn : b.Numbered) {r : Except Error (Nat × BackBroker α (Live α W))}
    (hr : ∀ id b', r = .ok (id, b') → Calls b b') : Calls b (b.orUnchanged (r.map Prod.snd)) := by
  rcases r with e | ⟨id, b'⟩
  · exact .refl hn
  · exact hr id b' rfl

theorem closeLive_calls (hh : LiveTame h) (k : Nat) (hn : b.Numbered) : Calls b (closeLive h k b).1 := by
  have h0 : Calls b (b.ensurePosition k) := .ensurePosition hn k
  unfold closeLive
  dsimp only
  split
  · exact h0
  · split
    · rename_i hr
      exact h0.trans (liveOrder_calls hh h0.numbered hr)
    · exact h0

/-- The cancellation of a record, noted when it is alive. -/
theorem cancelRecord_calls (hn : b.Numbered) {id : Nat} {r : Order α} (hf : b.findOrder id = some r) :
    Calls b ((if r.isAlive then b.liveNote (.cancelled id b.world.busy) else b).syncBoth r.cancel) := by
  have hcid : r.cancel.id = id := (Order.id_cancel r).trans (mem_of_findOrder hf).2
  have hfill : r.SameFill r.cancel := .setStatus r _
  have hkeep : r.isAlive = false → r.cancel.status = r.status := fun hd =>
    congrArg Order.status (Order.setStatus_of_dead hd _)
  generalize hb2 : (if r.isAlive then b.liveNote (.cancelled id b.world.busy) else b) = b2
  have h2 : Calls b b2 := by
    subst hb2
    split
    exacts [.liveNote hn _, .refl hn]
  have hall : ∀ k, b2.findOrder k = b.findOrder k := by
    subst hb2
    split <;> exact fun _ => rfl
  refine ⟨?_, ?quiet⟩
  case quiet =>
    have hq := h2.quiet.trans (.syncOrder b2 r.cancel)
    exact ⟨hq.settings, hq.cash, hq.nextTradeId, hq.dataBarIndex, hq.openTrades, hq.closedTrades, hq.turn, hq.seen,
      hq.executions, hq.positions⟩
  constructor
  case numbered => exact (h2.numbered.syncOrder _).of_ids rfl rfl
  case snapshots => exact h2.snapshots
  case busy => exact h2.busy
  case next_le => exact h2.next_le
  case journal => exact h2.journal.trans (List.prefix_append ..)
  case events => exact h2.events
  case record =>
    intro id' r' hf'
    rw [findOrder_syncBoth, hcid, hall, hall]
    by_cases hk : id' = id
    · subst hk
      obtain rfl : r = r' := Option.some.inj (hf.symm.trans hf')
      refine ⟨r.cancel, by rw [if_pos rfl, hf]; rfl, hfill, ?_⟩
      cases halive : r.isAlive with
      | true =>
        refine .inr ⟨rfl, Order.status_setStatus halive _, b.world.busy, List.Subset.refl _, ?_⟩
        show _ ∈ b2.world.events
        rw [← hb2, if_pos halive]
        exact List.mem_append_right _ (List.mem_singleton_self _)
      | false => exact .inl (hkeep halive)
    · exact ⟨r', by rw [if_neg hk]; exact hf', .refl r', .inl rfl⟩
  case new =>
    intro id' r' hf' hnone
    rw [findOrder_syncBoth, hcid, hall, hall] at hf'
    split at hf'
    · rename_i hk
      rw [hk, hf] at hnone
      cases hnone
    · rw [hf'] at hnone
      cases hnone
  case logged =>
    intro o' turn seen ho'
    rcases List.mem_append.1 (show _ ∈ b2.journal ++ _ from ho') with ho' | ho'
    · rcases h2.logged o' turn seen ho' with ho' | ⟨r', hf', hsz'⟩
      · exact .inl ho'
      · refine .inr ?_
        rw [findOrder_syncBoth, hcid, hall, hall]
        rw [hall] at hf'
        split
        · rename_i hk
          rw [hk, hf] at hf'
          obtain rfl := Option.some.inj hf'
          exact ⟨r.cancel, by rw [hf]; rfl, hfill.size.trans hsz'⟩
        · exact ⟨r', hf', hsz'⟩
    · cases List.mem_singleton.1 ho'
  case settled =>
    intro hev hset
    have := (h2.settled hev hset).syncOrder (o := r.cancel) (by rw [hcid, hall]; exact hf) hkeep
    exact this.mono [] (List.append_nil _).symm (by simp) fun id r hf => ⟨r, hf, rfl⟩

theorem cancelLiveOrder_calls (hh : LiveTame h) (id : Nat) (hn : b.Numbered) :
    Calls b (b.orUnchanged (cancelLiveOrder h id b)) := by
  unfold cancelLiveOrder
  split
  · exact .refl hn
  · have h1 := hh.cancel id b hn
    dsimp only
    split
    · exact h1
    · rename_i r hf
      have h2 := h1.trans (cancelRecord_calls h1.numbered hf)
      exact h2.trans (hh.order _ _ h2.numbered)

theorem submitOrderExt_calls (hh : LiveTame h) (hn : b.Numbered) (side : OrderSide) (size : α)
    (params : OrderParams α) : Calls b (submitOrderExt h.toHooks side size params b).2 := by
  have h1 := hh.hook_calls side size params.dataIndex hn
  unfold submitOrderExt
  rcases hp : h.preOrderHook side size params.dataIndex b with ⟨por, world⟩
  rw [hp] at h1
  dsimp only
  split
  · exact h1
  · exact h1.trans (.pushOrder h1.numbered rfl rfl rfl)

theorem linkChildren_calls (hn : b.Numbered) (id : Nat) (ids : List Nat) : Calls b (b.linkChildren id ids) := by
  have hrec : ∀ k r, b.findOrder k = some r → ∃ r', (b.linkChildren id ids).findOrder k = some r' ∧
      r.SameFill r' ∧ r'.status = r.status := by
    intro k r hf
    rw [findOrder_linkChildren]
    split
    · rename_i hk
      subst hk
      exact ⟨{ r with childIds := ids }, by rw [hf]; rfl, .withChildren r ids, rfl⟩
    · exact ⟨r, hf, .refl r, rfl⟩
  refine ⟨⟨hn.linkChildren id ids, rfl, rfl, Nat.le_refl _, List.prefix_rfl, List.prefix_rfl,
    fun k r hf => ?_, fun k r' hf' hnone => ?_, fun _ _ _ ho => .inl ho, fun _ hset => ?_⟩, .linkChildren b id ids⟩
  · obtain ⟨r', hf', hs, hst⟩ := hrec k r hf
    exact ⟨r', hf', hs, .inl hst⟩
  · rw [findOrder_linkChildren] at hf'
    split at hf'
    · rename_i hk
      rw [← hk, hnone] at hf'
      cases hf'
    · rw [hf'] at hnone
      cases hnone
  · exact hset.mono [] (List.append_nil _).symm (by simp) fun k r hf =>
      let ⟨r', hf', _, hst⟩ := hrec k r hf
      ⟨r', hf', hst⟩

theorem bracketLive_calls (hh : LiveTame h) (hn : b.Numbered) (mainSide legSide : OrderSide)
    (size limitPrice stopPrice : α) (k : Nat) :
    Calls b (bracketLive h mainSide legSide size limitPrice stopPrice k b) := by
  unfold bracketLive bracket submitOrder
  dsimp only
  have submit : ∀ {b'} side size params, Calls b b' → Calls b (submitOrderExt h.toHooks side size params b').2 :=
    fun side size params h' => h'.trans (submitOrderExt_calls hh h'.numbered side size params)
  have link : ∀ {b'} id ids, Calls b b' → Calls b (b'.linkChildren id ids) :=
    fun id ids h' => h'.trans (linkChildren_calls h'.numbered id ids)
  have note : ∀ {b'} n, Calls b b' → Calls b (b'.liveNote n) := fun n h' => h'.trans (.liveNote h'.numbered n)
  exact note _ (link _ _ (submit _ _ _ (submit _ _ _ (submit _ _ _ (.nextOco hn _)))))

theorem execLive_calls (hh : LiveTame h) (c : Cmd α) (hn : b.Numbered) : Calls b (execLive h c b) := by
  cases c with
  | buy | sell => exact orUnchanged_calls hn fun _ _ hr => liveOrder_calls hh hn hr
  | buyExt | sellExt => exact orUnchanged_calls hn fun _ _ hr => submitLiveOrder_calls hh hn hr
  | buyBracket | sellBracket => exact bracketLive_calls hh hn ..
  | close k => exact closeLive_calls hh k hn
  | cancelOrder id => exact cancelLiveOrder_calls hh id hn
  | nextOcoGroup => exact .nextOco hn _

end BackBroker

variable [Arith α]

/-- By induction on the bound on the callbacks. -/
theorem LiveListener.react_calls (L : LiveListener α W) : ∀ n ev (b : BackBroker α (Live α W)), b.Numbered →
    BackBroker.Calls b (L.react n ev b)
  | 0, _, _, hn => .refl hn
  | n + 1, ev, b, hn => by
    unfold LiveListener.react
    rcases L.act ev b with ⟨rest, _ | c⟩
    · exact .rest hn rest
    · have hh : BackBroker.LiveTame (L.hooksOf (L.react n)) :=
        ⟨fun o => react_calls L n (.order o), fun t s => react_calls L n (.trade t s),
          fun o => react_calls L n (.submit o), fun id => react_calls L n (.cancel id),
          fun side size k b => ⟨(L.preOrderHook side size k b).2, rfl⟩⟩
      have h0 := BackBroker.Calls.rest hn rest
      have h1 := h0.trans (BackBroker.execLive_calls hh c h0.numbered)
      exact h1.trans (react_calls L n ev _ h1.numbered)

theorem LiveListener.tame_hooks (L : LiveListener α W) (fuel : Nat) : BackBroker.LiveTame (L.hooks fuel) :=
  ⟨fun o => react_calls L fuel (.order o), fun t s => react_calls L fuel (.trade t s),
    fun o => react_calls L fuel (.submit o), fun id => react_calls L fuel (.cancel id),
    fun side size k b => ⟨(L.preOrderHook side size k b).2, rfl⟩⟩

end StratForge
