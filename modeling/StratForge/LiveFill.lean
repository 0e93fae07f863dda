import StratForge.Books
import StratForge.LiveCalls

/-!
# What a fill report does

`record_live_fill` looks the order up, subtracts the stored snapshot from the report and books the
difference. `recordLiveFill_unknown`, `recordLiveFill_repeated` and `recordLiveFill_books` are its
three cases; `Filled` says everything the last one does to the books, to the records and to the
snapshots, whatever the callbacks do in the middle of it.
-/

namespace StratForge

variable {α W : Type} [Arith α]

/-- The size that the broker has booked for the report's order, by the stored snapshot. -/
def BackBroker.bookedSize (b : BackBroker α (Live α W)) (id : Nat) : α :=
  ((b.world.snapshots id).map Trade.size).getD 0

/-- The commission that the broker has charged for the report's order, by the stored snapshot. -/
def BackBroker.bookedCommission (b : BackBroker α (Live α W)) (id : Nat) : α :=
  ((b.world.snapshots id).map Trade.commission).getD 0

/-- The report adds nothing to what has been booked. -/
def BackBroker.Repeats (b : BackBroker α (Live α W)) (trade : Trade α) : Prop :=
  Arith.abs (trade.size - b.bookedSize trade.id) < 1e-12

instance (b : BackBroker α (Live α W)) (trade : Trade α) : Decidable (b.Repeats trade) :=
  inferInstanceAs (Decidable (_ < _))

namespace BackBroker
variable {h : LiveHooks α W} {b b' : BackBroker α (Live α W)} {trade : Trade α} {o : Order α}

theorem recordLiveFill_unknown (hf : b.findOrder trade.id = none) : b.recordLiveFill h trade = b := by
  unfold recordLiveFill
  rw [hf]

theorem recordLiveFill_repeated (hf : b.findOrder trade.id = some o) (hr : b.Repeats trade) :
    b.recordLiveFill h trade = b.setSnapshot trade.id (some trade) := by
  unfold recordLiveFill
  rw [hf]
  exact if_pos hr

/-- What booking the report `trade` on the record `o` does. -/
structure Filled (b b' : BackBroker α (Live α W)) (o : Order α) (trade : Trade α) : Prop where
  numbered : b'.Numbered
  settings : b'.toBrokerSettings = b.toBrokerSettings
  cash : b'.cash = fun c =>
    if c = b.settleCcy o.dataIndex then
      b.cash c - ((trade.size - b.bookedSize trade.id) * liveFillPrice (b.world.snapshots trade.id) trade +
        (trade.commission - b.bookedCommission trade.id))
    else b.cash c
  holding : ∀ k, b'.holding k =
    if k = o.dataIndex then
      (b.holding k).update (trade.size - b.bookedSize trade.id) (liveFillPrice (b.world.snapshots trade.id) trade)
    else b.holding k
  snapshots : b'.world.snapshots = fun k =>
    if k = trade.id then (if liveTerminal o trade then none else some trade) else b.world.snapshots k
  busy : b'.world.busy = b.world.busy
  next_le : b.nextOrderId ≤ b'.nextOrderId
  journal : b.journal <+: b'.journal
  events : b.world.events <+: b'.world.events
  booking : LiveNote.booking o (b.world.snapshots trade.id) trade ∈ b'.world.events
  /-- The record of the order; a callback may cancel an order that is not finished. -/
  record : ∃ r, b'.findOrder trade.id = some r ∧ Order.Same o r ∧
    r.executedSize = o.executedSize + Arith.abs (trade.size - b.bookedSize trade.id) ∧
    r.commission = o.commission + (trade.commission - b.bookedCommission trade.id) ∧
    (r.status = (if liveTerminal o trade then .Completed else .Partial) ∨
      liveTerminal o trade = false ∧ r.status = .Canceled ∧
        ∃ busy, LiveNote.cancelled trade.id busy ∈ b'.world.events)
  /-- The other orders. -/
  other : ∀ id r, id ≠ trade.id → b.findOrder id = some r → ∃ r', b'.findOrder id = some r' ∧ r.SameFill r' ∧
    (r'.status = r.status ∨ r.isAlive = true ∧ r'.status = .Canceled ∧
      ∃ busy, LiveNote.cancelled id busy ∈ b'.world.events)
  new : ∀ id r', b'.findOrder id = some r' → b.findOrder id = none → r'.executedSize = 0 ∧
    (∃ o turn seen, Note.submitted o turn seen ∈ b'.journal ∧ r'.size = o.size) ∧
    (r'.status = .Canceled → ∃ busy, LiveNote.cancelled id busy ∈ b'.world.events)
  logged : ∀ o turn seen, Note.submitted o turn seen ∈ b'.journal →
    Note.submitted o turn seen ∈ b.journal ∨ ∃ r, b'.findOrder o.id = some r ∧ r.size = o.size
  settled : (∀ n ∈ b'.world.events, n.Orderly) → o.isAlive = true → b.Settled → b'.Settled

/-! ### The booking -/

/-- The books but for the trades, up to flat positions. -/
structure SamePositions (b b' : BackBroker α (Live α W)) : Prop where
  settings : b'.toBrokerSettings = b.toBrokerSettings
  cash : b'.cash = b.cash
  positions : ∃ ks : List Nat, b'.positions = ks.foldl (Position.ensure b.instrumentMap) b.positions

theorem Quiet.samePositions (h : Quiet b b') : SamePositions b b' := ⟨h.settings, h.cash, h.positions⟩

theorem SamePositions.refl (b : BackBroker α (Live α W)) : SamePositions b b := (Quiet.refl b).samePositions

/-- A change of the trades only, but for what the trade callback does. -/
structure OnlyTrades (b b' : BackBroker α (Live α W)) : Prop extends KeepsOrders b b', SamePositions b b'

theorem retireTrade_onlyTrades (hh : LiveTame h) (hn : b.Numbered) (i : Nat) (t : Trade α) (orig : α) :
    OnlyTrades b (b.retireTrade h.toHooks i t orig) := by
  let b1 : BackBroker α (Live α W) :=
    { b with openTrades := b.openTrades.set i (t, orig), closedTrades := b.closedTrades ++ [(t, orig)] }
  have h1 : KeepsOrders b b1 := .of_same hn rfl rfl rfl rfl rfl List.prefix_rfl
  have h2 := hh.trade t orig b1 h1.numbered
  have h3 : KeepsOrders (h.tradeNotify t orig b1) (b.retireTrade h.toHooks i t orig) :=
    .of_same h2.numbered rfl rfl rfl rfl rfl List.prefix_rfl
  exact ⟨h1.trans (h2.toKeepsOrders.trans h3), h2.quiet.settings, h2.quiet.cash, h2.quiet.positions⟩

theorem openTrade_onlyTrades (hb : OnlyTrades b b') (k : Nat) (s p c : α) (bar : Nat) (dt : DateTime) (cand : Nat) :
    OnlyTrades b (b'.openTrade k s p c bar dt cand) :=
  ⟨hb.toKeepsOrders.trans (.of_same hb.numbered rfl rfl rfl rfl rfl List.prefix_rfl), hb.settings, hb.cash,
    hb.positions⟩

theorem updateTrades_onlyTrades (hh : LiveTame h) (hn : b.Numbered) (k : Nat) (old s p c : α) (bar : Nat)
    (dt : DateTime) (cand : Nat) : OnlyTrades b (b.updateTrades h.toHooks k old s p c bar dt cand) := by
  have hset : ∀ os, OnlyTrades b { b with openTrades := os } := fun os =>
    ⟨.of_same hn rfl rfl rfl rfl rfl List.prefix_rfl, rfl, rfl, [], rfl⟩
  unfold updateTrades
  dsimp only
  split_ifs
  · exact openTrade_onlyTrades (hset b.openTrades) ..
  · exact hset _
  · split
    · exact hset b.openTrades
    · split_ifs
      · exact openTrade_onlyTrades (retireTrade_onlyTrades hh hn ..) ..
      · exact retireTrade_onlyTrades hh hn ..
      · exact hset _

theorem bookLive_spec (hh : LiveTame h) (hn : b.Numbered) (o : Order α) (s p c : α) (t : Trade α) :
    KeepsOrders b (b.bookLive h o s p c t) ∧
    (b.bookLive h o s p c t).toBrokerSettings = b.toBrokerSettings ∧
    (b.bookLive h o s p c t).cash =
      (fun ccy => if ccy = b.settleCcy o.dataIndex then b.cash ccy - (s * p + c) else b.cash ccy) ∧
    ∀ k, (b.bookLive h o s p c t).holding k =
      if k = o.dataIndex then (b.holding k).update s p else b.holding k := by
  let b1 := ((b.pay (b.settleCcy o.dataIndex) (s * p + c)).ensurePosition o.dataIndex).updatePosition o.dataIndex s p
  have h1 : KeepsOrders b b1 := .of_same hn rfl rfl rfl rfl rfl List.prefix_rfl
  have h2 : OnlyTrades b1 (b.bookLive h o s p c t) := updateTrades_onlyTrades hh h1.numbered ..
  refine ⟨h1.trans h2.toKeepsOrders, h2.settings, h2.cash, fun k => ?_⟩
  rw [holding_ensured h2.settings h2.positions]
  exact holding_updatePosition (b.pay _ _) ..

theorem liveExecuted_same (r : Order α) (s p c : α) (terminal : Bool) :
    Order.Same r (liveExecuted r s p c terminal) :=
  ⟨rfl, rfl, rfl, rfl, rfl, rfl, rfl, rfl, rfl, rfl, rfl, rfl⟩

/-- The other orders, when the record of one is written and its callback has run. -/
theorem KeepsOrders.other (h : KeepsOrders b b') {x : Order α} {b'' : BackBroker α (Live α W)}
    (hc : Calls (b'.syncBoth x) b'') {id : Nat} {r : Order α} (hne : id ≠ x.id) (hf : b.findOrder id = some r) :
    ∃ r', b''.findOrder id = some r' ∧ r.SameFill r' ∧ (r'.status = r.status ∨
      r.isAlive = true ∧ r'.status = .Canceled ∧ ∃ busy, LiveNote.cancelled id busy ∈ b''.world.events) := by
  obtain ⟨r₁, hf₁, hs₁, hst₁⟩ := h.record id r hf
  obtain ⟨r₂, hf₂, hs₂, hst₂⟩ := hc.record id r₁ (by rw [findOrder_syncBoth, if_neg hne]; exact hf₁)
  refine ⟨r₂, hf₂, hs₁.trans hs₂, ?_⟩
  rcases hst₂ with heq₂ | ⟨halive, hcan, busy, -, hmem⟩
  · rcases hst₁ with heq₁ | ⟨halive, hcan, busy, -, hmem⟩
    · exact .inl (heq₂.trans heq₁)
    · exact .inr ⟨halive, heq₂.trans hcan, busy, hc.events.mem hmem⟩
  · rcases hst₁ with heq₁ | ⟨-, hcan₁, -⟩
    · exact .inr ⟨by rwa [Order.isAlive, heq₁] at halive, hcan, busy, hmem⟩
    · rw [Order.isAlive, hcan₁] at halive; cases halive

/-- The new orders, likewise. -/
theorem KeepsOrders.new_of_write (h : KeepsOrders b b') {x : Order α} {b'' : BackBroker α (Live α W)}
    (hc : Calls (b'.syncBoth x) b'') {id : Nat} {r : Order α} (hne : id ≠ x.id) (hf : b''.findOrder id = some r)
    (hnone : b.findOrder id = none) : r.executedSize = 0 ∧
    (∃ o turn seen, Note.submitted o turn seen ∈ b''.journal ∧ r.size = o.size) ∧
    (r.status = .Canceled → ∃ busy, LiveNote.cancelled id busy ∈ b''.world.events) := by
  cases hf₁ : (b'.syncBoth x).findOrder id with
  | none => exact hc.new id r hf hf₁
  | some r₁ =>
    have hf₁' : b'.findOrder id = some r₁ := by rwa [findOrder_syncBoth, if_neg hne] at hf₁
    obtain ⟨hx₁, ⟨o', turn, seen, ho', hsz⟩, hc₁⟩ := h.new id r₁ hf₁' hnone
    obtain ⟨r₂, hf₂, hs₂, hst₂⟩ := hc.record id r₁ hf₁
    obtain rfl := Option.some.inj (hf₂.symm.trans hf)
    refine ⟨hs₂.executedSize.trans hx₁, ⟨o', turn, seen, hc.journal.mem (List.mem_append_left _ ho'),
      hs₂.size.trans hsz⟩, fun hcan => ?_⟩
    rcases hst₂ with heq₂ | ⟨-, -, busy, -, hmem⟩
    · obtain ⟨busy, hmem⟩ := hc₁ (heq₂.symm.trans hcan)
      exact ⟨busy, hc.events.mem hmem⟩
    · exact ⟨busy, hmem⟩

/-- What the journal says of the records, likewise. -/
theorem KeepsOrders.logged_of_write (h : KeepsOrders b b') {x r : Order α} {b'' : BackBroker α (Live α W)}
    (hc : Calls (b'.syncBoth x) b'') (hr : b'.findOrder x.id = some r) (hsz : x.size = r.size) {o' : Order α} {turn}
    {seen} (ho' : Note.submitted o' turn seen ∈ b''.journal) :
    Note.submitted o' turn seen ∈ b.journal ∨ ∃ r', b''.findOrder o'.id = some r' ∧ r'.size = o'.size := by
  rcases hc.logged o' turn seen ho' with ho' | hr'
  · rcases List.mem_append.1 (show _ ∈ b'.journal ++ _ from ho') with ho' | ho'
    · refine (h.logged o' turn seen ho').imp_right ?_
      rintro ⟨r₁, hf₁, hsz₁⟩
      have hf₃ : ∃ r₃, (b'.syncBoth x).findOrder o'.id = some r₃ ∧ r₃.size = o'.size := by
        rw [findOrder_syncBoth, hr, hf₁]
        split_ifs with hid
        · rw [hid, hr] at hf₁
          obtain rfl := Option.some.inj hf₁
          exact ⟨x, rfl, hsz.trans hsz₁⟩
        · exact ⟨r₁, rfl, hsz₁⟩
      obtain ⟨r₃, hf₃, hsz₃⟩ := hf₃
      obtain ⟨r₄, hf₄, hs₄, -⟩ := hc.record _ r₃ hf₃
      exact ⟨r₄, hf₄, hs₄.size.trans hsz₃⟩
    · cases List.mem_singleton.1 ho'
  · exact .inr hr'

/-- Writing the record of an order that is alive keeps the journal settled. -/
theorem KeepsOrders.settled_of_write (h : KeepsOrders b b') {x r : Order α} {b'' : BackBroker α (Live α W)}
    (hc : Calls (b'.syncBoth x) b'') (hr : b'.findOrder x.id = some r) (halive : r.isAlive = true)
    (hord : ∀ n ∈ b''.world.events, n.Orderly) (hs : b.Settled) : b''.Settled := by
  have hs' : b'.Settled := h.settled (fun n hn => hord n (hc.events.mem hn)) hs
  have hs₁ := hs'.syncOrder (o := x) hr fun hd => by rw [halive] at hd; cases hd
  have hs₂ : (b'.syncBoth x).Settled := hs₁.mono [] (List.append_nil _).symm (by simp) fun k r hf => ⟨r, hf, rfl⟩
  exact hc.settled hord hs₂

/-- The broker once the books of a report are written: the mark on the order is taken off again. -/
def liveBooked (h : LiveHooks α W) (b : BackBroker α (Live α W)) (o : Order α) (trade : Trade α) :
    BackBroker α (Live α W) :=
  let noted := b.liveNote (.booking o (b.world.snapshots trade.id) trade)
  ((noted.setBusy (o.id :: noted.world.busy)).bookLive h o (trade.size - b.bookedSize trade.id)
    (liveFillPrice (b.world.snapshots trade.id) trade) (trade.commission - b.bookedCommission trade.id) trade).setBusy
    noted.world.busy

/-- The record that the report makes of `r`. -/
def liveRecord (b : BackBroker α (Live α W)) (o r : Order α) (trade : Trade α) : Order α :=
  liveExecuted r (trade.size - b.bookedSize trade.id) (liveFillPrice (b.world.snapshots trade.id) trade)
    (trade.commission - b.bookedCommission trade.id) (liveTerminal o trade)

/-- The broker once the record is written and its callback has run. -/
def liveHeard (h : LiveHooks α W) (b : BackBroker α (Live α W)) (o r : Order α) (trade : Trade α) :
    BackBroker α (Live α W) :=
  h.orderNotify (b.liveRecord o r trade) ((b.liveBooked h o trade).syncBoth (b.liveRecord o r trade))

/-- The report's last step: a finished order leaves the list, and the snapshot is stored or dropped. -/
def liveClosed (b : BackBroker α (Live α W)) (o : Order α) (trade : Trade α) (id : Nat) : BackBroker α (Live α W) :=
  if liveTerminal o trade then
    ((b.erasePending id).setSnapshot trade.id (some trade)).setSnapshot trade.id none
  else b.setSnapshot trade.id (some trade)

theorem recordLiveFill_eq {r : Order α} (hf : b.findOrder trade.id = some o) (hr : ¬ b.Repeats trade)
    (hf' : (b.liveBooked h o trade).findOrder trade.id = some r) :
    b.recordLiveFill h trade = (b.liveHeard h o r trade).liveClosed o trade (b.liveRecord o r trade).id := by
  have hid : o.id = trade.id := (mem_of_findOrder hf).2
  let b0 := b.liveNote (.booking o (b.world.snapshots trade.id) trade)
  let x := b.liveRecord o r trade
  let b4 := b.liveHeard h o r trade
  have happ : b0.applyLiveExecution h o (trade.size - b.bookedSize trade.id)
      (liveFillPrice (b.world.snapshots trade.id) trade) (trade.commission - b.bookedCommission trade.id) trade =
        if liveTerminal o trade then b4.erasePending x.id else b4 := by
    unfold applyLiveExecution
    dsimp only
    have hfo : (b.liveBooked h o trade).findOrder o.id = some r := by rw [hid]; exact hf'
    rw [show (BackBroker.setBusy _ _).findOrder o.id = some r from hfo]
    rfl
  unfold recordLiveFill
  rw [hf]
  dsimp only
  refine (if_neg hr).trans ?_
  refine Eq.trans (congrArg (fun c => if liveTerminal o trade then
    (c.setSnapshot trade.id (some trade)).setSnapshot trade.id none else c.setSnapshot trade.id (some trade)) happ) ?_
  unfold liveClosed
  split_ifs <;> rfl

/-- The last step touches neither the records nor the books. -/
theorem liveClosed_same (b : BackBroker α (Live α W)) (o : Order α) (trade : Trade α) (id : Nat) :
    (b.liveClosed o trade id).allOrders = b.allOrders ∧ (b.liveClosed o trade id).nextOrderId = b.nextOrderId ∧
    (b.liveClosed o trade id).journal = b.journal ∧ (b.liveClosed o trade id).world.events = b.world.events ∧
    (b.liveClosed o trade id).toBrokerSettings = b.toBrokerSettings ∧ (b.liveClosed o trade id).cash = b.cash ∧
    (b.liveClosed o trade id).positions = b.positions ∧ (b.liveClosed o trade id).world.busy = b.world.busy := by
  unfold liveClosed
  split_ifs <;> exact ⟨rfl, rfl, rfl, rfl, rfl, rfl, rfl, rfl⟩

theorem liveClosed_snapshots (b : BackBroker α (Live α W)) (o : Order α) (trade : Trade α) (id : Nat) :
    (b.liveClosed o trade id).world.snapshots = fun k =>
      if k = trade.id then (if liveTerminal o trade then none else some trade) else b.world.snapshots k := by
  unfold liveClosed
  funext k
  split_ifs with hterm hk hk <;> simp [setSnapshot, erasePending, hk]

theorem recordLiveFill_books (hh : LiveTame h) (hn : b.Numbered) (hf : b.findOrder trade.id = some o)
    (hr : ¬ b.Repeats trade) : Filled b (b.recordLiveFill h trade) o trade := by
  have hid : o.id = trade.id := (mem_of_findOrder hf).2
  -- the books, in which the trade callback fires
  let b0 := b.liveNote (.booking o (b.world.snapshots trade.id) trade)
  let b2 := b.liveBooked h o trade
  have h0 : KeepsOrders b b0 := (Calls.liveNote hn _).toKeepsOrders
  obtain ⟨h1, hset1, hcash1, hhold1⟩ := bookLive_spec hh
    (show (b0.setBusy (o.id :: b0.world.busy)).Numbered from ⟨hn.pos, hn.nodup, hn.lt⟩) o
    (trade.size - b.bookedSize trade.id) (liveFillPrice (b.world.snapshots trade.id) trade)
    (trade.commission - b.bookedCommission trade.id) trade
  have h2 : KeepsOrders b b2 := h0.trans (h1.setBusy (List.subset_cons_self ..))
  have hset2 : b2.toBrokerSettings = b.toBrokerSettings := hset1
  have hcash2 : b2.cash = _ := hcash1
  obtain ⟨r, hf2, hsr, hst⟩ := h1.record trade.id o hf
  have hf2 : b2.findOrder trade.id = some r := hf2
  -- the record, and the callback that hears of it
  let x := b.liveRecord o r trade
  let b4 := b.liveHeard h o r trade
  have hxid : x.id = trade.id := hsr.id.trans hid
  have hfx : b2.findOrder x.id = some r := hxid ▸ hf2
  have hsx : Order.Same o x := hsr.toSame.trans (liveExecuted_same ..)
  have h4 : Calls (b2.syncBoth x) b4 := hh.order x _ ((h2.numbered.syncOrder x).of_ids rfl rfl)
  obtain ⟨hall, hnext, hj, hev, hset, hcash, hpos, hbusy⟩ := liveClosed_same b4 o trade x.id
  have hfind : ∀ k, (b4.liveClosed o trade x.id).findOrder k = b4.findOrder k := fun k => by
    rw [findOrder, hall]; rfl
  rw [recordLiveFill_eq hf hr hf2]
  constructor
  case numbered => exact h4.numbered.of_ids hnext (by rw [hall])
  case settings => exact hset.trans (h4.quiet.settings.trans hset2)
  case cash => rw [hcash, h4.quiet.cash]; exact hcash2
  case holding =>
    intro k
    have hk : b4.holding k = b2.holding k := holding_ensured h4.quiet.settings h4.quiet.positions k
    have hk' : (b4.liveClosed o trade x.id).holding k = b4.holding k := by
      unfold holding findPosition
      rw [hpos, congrArg BrokerSettings.instrumentMap hset]
    rw [hk', hk]
    exact hhold1 k
  case snapshots =>
    have h4s : b4.world.snapshots = b.world.snapshots := h4.snapshots.trans h2.snapshots
    rw [liveClosed_snapshots, h4s]
  case busy => exact hbusy.trans (h4.busy.trans h2.busy)
  case next_le => rw [hnext]; exact h2.next_le.trans h4.next_le
  case journal => rw [hj]; exact h2.journal.trans ((List.prefix_append ..).trans h4.journal)
  case events => rw [hev]; exact h2.events.trans h4.events
  case booking =>
    rw [hev]
    exact h4.events.mem (h1.events.mem (List.mem_append_right _ (List.mem_singleton_self _)))
  case record =>
    obtain ⟨r', hf', hs', hst'⟩ := h4.record trade.id x (by rw [findOrder_syncBoth, hxid, if_pos rfl, hf2]; rfl)
    refine ⟨r', by rw [hfind]; exact hf', hsx.trans hs'.toSame, ?_, ?_, ?_⟩
    · rw [hs'.executedSize]
      show r.executedSize + _ = _
      rw [hsr.executedSize]
    · rw [hs'.commission]
      show r.commission + _ = _
      rw [hsr.commission]
    · have hxs : x.status = if liveTerminal o trade then .Completed else .Partial := rfl
      rcases hst' with heq | ⟨halive, hc, busy, -, hmem⟩
      · exact .inl (heq.trans hxs)
      · refine .inr ⟨?_, hc, busy, by rw [hev]; exact hmem⟩
        by_contra hne
        have htrue : liveTerminal o trade = true := by simpa using hne
        rw [Order.isAlive, hxs, htrue] at halive
        cases halive
  case other =>
    intro id r₀ hne hf₀
    obtain ⟨r', hf', hs', hst'⟩ := h2.other h4 (hxid ▸ hne) hf₀
    exact ⟨r', by rw [hfind]; exact hf', hs', by rw [hev]; exact hst'⟩
  case new =>
    intro id r' hf' hnone
    have hne : id ≠ trade.id := by
      rintro rfl
      rw [hf] at hnone; cases hnone
    rw [hfind] at hf'
    rw [hj, hev]
    exact h2.new_of_write h4 (hxid ▸ hne) hf' hnone
  case logged =>
    intro o' turn seen ho'
    rw [hj] at ho'
    rw [hfind]
    exact h2.logged_of_write h4 hfx rfl ho'
  case settled =>
    intro hord halive hset0
    rw [hev] at hord
    have hrs : r.status = o.status := by
      rcases hst with heq | ⟨-, -, busy, hsub, hmem⟩
      · exact heq
      · exact absurd (hid ▸ hsub (List.mem_cons_self ..)) (hord _ (h4.events.mem hmem))
    have hs4 : b4.Settled := h2.settled_of_write h4 hfx (by rwa [Order.isAlive, hrs]) hord hset0
    exact hs4.mono [] (by rw [hj, List.append_nil]) (by simp) fun k r hf => ⟨r, by rw [hfind]; exact hf, rfl⟩

/-! ### Runs -/

/-- The steps of a session: commands, reports that are booked, reports that repeat what has been booked,
and those that the broker ignores. -/
theorem liveStep_cases (hh : LiveTame h) (hn : b.Numbered) (op : LiveOp α) :
    (∃ c, op = .cmd c ∧ Calls b (b.liveStep h op)) ∨
    (∃ t o, op = .fill t ∧ b.findOrder t.id = some o ∧ ¬ b.Repeats t ∧ Filled b (b.liveStep h op) o t) ∨
    (∃ t o, op = .fill t ∧ b.findOrder t.id = some o ∧ b.Repeats t ∧
      b.liveStep h op = b.setSnapshot t.id (some t)) ∨
    (∃ t, op = .fill t ∧ b.findOrder t.id = none ∧ b.liveStep h op = b) ∨
    ∃ idx, op = .setBarIndex idx ∧ b.liveStep h op = b.setBarIndex idx := by
  cases op with
  | cmd c => exact .inl ⟨c, rfl, execLive_calls hh c hn⟩
  | setBarIndex idx => exact .inr (.inr (.inr (.inr ⟨idx, rfl, rfl⟩)))
  | fill t =>
    cases hf : b.findOrder t.id with
    | none => exact .inr (.inr (.inr (.inl ⟨t, rfl, hf, recordLiveFill_unknown hf⟩)))
    | some o =>
      by_cases hr : b.Repeats t
      · exact .inr (.inr (.inl ⟨t, o, rfl, hf, hr, recordLiveFill_repeated hf hr⟩))
      · exact .inr (.inl ⟨t, o, rfl, hf, hr, recordLiveFill_books hh hn hf hr⟩)

theorem liveStep_numbered (hh : LiveTame h) (hn : b.Numbered) (op : LiveOp α) : (b.liveStep h op).Numbered := by
  rcases liveStep_cases hh hn op with ⟨_, _, hc⟩ | ⟨_, _, _, _, _, hc⟩ | ⟨t, _, _, _, _, heq⟩ | ⟨_, _, _, heq⟩ |
    ⟨_, _, heq⟩
  · exact hc.numbered
  · exact hc.numbered
  · rw [heq]; exact ⟨hn.pos, hn.nodup, hn.lt⟩
  · rw [heq]; exact hn
  · rw [heq]; exact ⟨hn.pos, hn.nodup, hn.lt⟩

theorem liveRun_numbered (hh : LiveTame h) (hn : b.Numbered) (ops : List (LiveOp α)) : (b.liveRun h ops).Numbered :=
  Fold.foldl_ind Numbered _ b hn fun _ op _ hn' => liveStep_numbered hh hn' op

theorem liveStep_events (hh : LiveTame h) (hn : b.Numbered) (op : LiveOp α) :
    b.world.events <+: (b.liveStep h op).world.events := by
  rcases liveStep_cases hh hn op with ⟨_, _, hc⟩ | ⟨_, _, _, _, _, hc⟩ | ⟨t, _, _, _, _, heq⟩ | ⟨_, _, _, heq⟩ |
    ⟨_, _, heq⟩
  · exact hc.events
  · exact hc.events
  · rw [heq]; exact List.prefix_rfl
  · rw [heq]
  · rw [heq]; exact List.prefix_rfl

/-- Nothing that has been noted is forgotten. -/
theorem liveRun_events (hh : LiveTame h) (hn : b.Numbered) (ops : List (LiveOp α)) :
    b.world.events <+: (b.liveRun h ops).world.events := by
  induction ops generalizing b with
  | nil => exact List.prefix_rfl
  | cons op ops ih => exact (liveStep_events hh hn op).trans (ih (liveStep_numbered hh hn op))

end BackBroker

end StratForge
