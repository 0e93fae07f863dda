import StratForge.LiveFill

/-!
# Terminal states in live mode

`record_live_fill` writes the status of a record without asking for the one it has, and the local
order of a submission overwrites the record twice. `live_terminal_absorbing`: where every report that
is booked finds its record alive, and no order is cancelled while it is being submitted or booked, a
terminal status is final, inside the operations and between them. `cancel_order` leaves the order in
`pending_orders_`; if it never meets a live record, no cancelled order is ever there.
-/

namespace StratForge

variable {α W : Type} [Arith α]

/-- A report is booked on a record that is alive, and an order is not cancelled while it is being
submitted or booked. -/
def LiveNote.Final : LiveNote α → Prop
  | .cancelled id busy => id ∉ busy
  | .booking order _ _ => order.isAlive = true
  | .bracket _ => True

omit [Arith α] in
instance : DecidablePred (LiveNote.Final (α := α))
  | .cancelled id busy => inferInstanceAs (Decidable (id ∉ busy))
  | .booking order _ _ => inferInstanceAs (Decidable (order.isAlive = true))
  | .bracket _ => .isTrue trivial

omit [Arith α] in
theorem LiveNote.Final.orderly {n : LiveNote α} (h : n.Final) : n.Orderly := by
  cases n <;> first | exact h | trivial

namespace BackBroker
variable {h : LiveHooks α W} {b b' b'' : BackBroker α (Live α W)}

/-- Terminal records keep their status. -/
def Retains (b b' : BackBroker α (Live α W)) : Prop :=
  ∀ id r, b.findOrder id = some r → r.isAlive = false → ∃ r', b'.findOrder id = some r' ∧ r'.status = r.status

omit [Arith α] in
theorem Retains.trans (h : Retains b b') (h' : Retains b' b'') : Retains b b'' := by
  intro id r hf hdead
  obtain ⟨r', hf', hs⟩ := h id r hf hdead
  obtain ⟨r'', hf'', hs'⟩ := h' id r' hf' (by rwa [Order.isAlive, hs])
  exact ⟨r'', hf'', hs'.trans hs⟩

omit [Arith α] in
theorem Retains.of_allOrders (h : b'.allOrders = b.allOrders) : Retains b b' := fun id r hf _ =>
  ⟨r, by rwa [findOrder, h], rfl⟩

omit [Arith α] in
theorem Retains.refl (b : BackBroker α (Live α W)) : Retains b b := .of_allOrders rfl

theorem KeepsOrders.retains (h : KeepsOrders b b') : Retains b b' := by
  intro id r hf hdead
  obtain ⟨r', hf', -, hst⟩ := h.record id r hf
  refine ⟨r', hf', hst.resolve_right fun hc => ?_⟩
  rw [hdead] at hc
  cases hc.1

theorem Filled.retains {o : Order α} {t : Trade α} (h : Filled b b' o t) (hf : b.findOrder t.id = some o)
    (halive : o.isAlive = true) : Retains b b' := by
  intro id r hf' hdead
  by_cases hid : id = t.id
  · subst hid
    obtain rfl := Option.some.inj (hf.symm.trans hf')
    rw [halive] at hdead
    cases hdead
  · obtain ⟨r', hr', -, hst⟩ := h.other id r hid hf'
    refine ⟨r', hr', hst.resolve_right fun hc => ?_⟩
    rw [hdead] at hc
    cases hc.1

/-- One step: the law so far is kept, and so is every terminal record. -/
theorem liveStep_settled (hh : LiveTame h) (hn : b.Numbered) (op : LiveOp α)
    (hfinal : ∀ n ∈ (b.liveStep h op).world.events, n.Final) (hset : b.Settled) :
    (b.liveStep h op).Settled ∧ Retains b (b.liveStep h op) := by
  have hord : ∀ n ∈ (b.liveStep h op).world.events, n.Orderly := fun n hn => (hfinal n hn).orderly
  have hsame : ∀ {b'}, b'.allOrders = b.allOrders → b'.journal = b.journal → b'.Settled ∧ Retains b b' :=
    fun ha hj => ⟨hset.mono [] (by rw [hj, List.append_nil]) (by simp) fun id r hf => ⟨r, by rwa [findOrder, ha], rfl⟩,
      .of_allOrders ha⟩
  rcases liveStep_cases hh hn op with ⟨c, _, hc⟩ | ⟨t, o, _, hf, _, hc⟩ | ⟨t, o, _, _, _, heq⟩ | ⟨t, _, _, heq⟩ |
    ⟨idx, _, heq⟩
  · exact ⟨hc.settled hord hset, hc.retains⟩
  · have halive : o.isAlive = true := hfinal _ hc.booking
    exact ⟨hc.settled hord halive hset, hc.retains hf halive⟩
  · rw [heq]; exact hsame rfl rfl
  · rw [heq]; exact ⟨hset, .refl b⟩
  · rw [heq]; exact hsame rfl rfl

theorem liveRun_settled (hh : LiveTame h) (hn : b.Numbered) (ops : List (LiveOp α))
    (hfinal : ∀ n ∈ (b.liveRun h ops).world.events, n.Final) (hset : b.Settled) :
    (b.liveRun h ops).Settled ∧ Retains b (b.liveRun h ops) := by
  induction ops generalizing b with
  | nil => exact ⟨hset, .refl b⟩
  | cons op ops ih =>
    have hn' := liveStep_numbered hh hn op
    obtain ⟨hset', hret⟩ := liveStep_settled hh hn op
      (fun n hmem => hfinal n ((liveRun_events hh hn' ops).mem hmem)) hset
    obtain ⟨hset'', hret'⟩ := ih hn' hfinal hset'
    exact ⟨hset'', hret.trans hret'⟩

/-- A record that is `Canceled` has been cancelled alive. -/
def Noted (b : BackBroker α (Live α W)) : Prop :=
  ∀ id r, b.findOrder id = some r → r.status = .Canceled → ∃ busy, LiveNote.cancelled id busy ∈ b.world.events

theorem liveStep_noted (hh : LiveTame h) (hn : b.Numbered) (op : LiveOp α) (hb : b.Noted) : (b.liveStep h op).Noted := by
  have hev := liveStep_events hh hn op
  -- what becomes of a record that was there, when it has been cancelled or left in its status
  have old : ∀ id r (r' : Order α) busy', b.findOrder id = some r → r'.status = .Canceled →
      (r'.status = r.status ∨ LiveNote.cancelled id busy' ∈ (b.liveStep h op).world.events) →
      ∃ busy, LiveNote.cancelled id busy ∈ (b.liveStep h op).world.events := by
    rintro id r r' busy' hf hc (heq | hmem)
    · obtain ⟨busy, hmem⟩ := hb id r hf (heq.symm.trans hc)
      exact ⟨busy, hev.mem hmem⟩
    · exact ⟨busy', hmem⟩
  intro id r' hf' hc
  rcases liveStep_cases hh hn op with ⟨c, _, hk⟩ | ⟨t, o, _, hf, _, hk⟩ | ⟨t, o, _, _, _, heq⟩ | ⟨t, _, _, heq⟩ |
    ⟨idx, _, heq⟩
  · cases hf : b.findOrder id with
    | none => exact (hk.new id r' hf' hf).2.2 hc
    | some r =>
      obtain ⟨x, hx, -, hst⟩ := hk.record id r hf
      obtain rfl := Option.some.inj (hx.symm.trans hf')
      rcases hst with heq | ⟨-, -, busy, -, hmem⟩
      · exact old id r x [] hf hc (.inl heq)
      · exact ⟨busy, hmem⟩
  · by_cases hid : id = t.id
    · subst hid
      obtain ⟨x, hx, -, -, -, hst⟩ := hk.record
      obtain rfl := Option.some.inj (hx.symm.trans hf')
      rcases hst with heq | ⟨-, -, busy, hmem⟩
      · rw [hc] at heq
        split at heq <;> cases heq
      · exact ⟨busy, hmem⟩
    · cases hf : b.findOrder id with
      | none => exact (hk.new id r' hf' hf).2.2 hc
      | some r =>
        obtain ⟨x, hx, -, hst⟩ := hk.other id r hid hf
        obtain rfl := Option.some.inj (hx.symm.trans hf')
        rcases hst with heq | ⟨-, -, busy, hmem⟩
        · exact old id r x [] hf hc (.inl heq)
        · exact ⟨busy, hmem⟩
  · rw [heq] at hf' ⊢; exact hb id r' hf' hc
  · rw [heq] at hf' ⊢; exact hb id r' hf' hc
  · rw [heq] at hf' ⊢; exact hb id r' hf' hc

theorem liveRun_noted (hh : LiveTame h) (hn : b.Numbered) (ops : List (LiveOp α)) (hb : b.Noted) :
    (b.liveRun h ops).Noted := by
  induction ops generalizing b with
  | nil => exact hb
  | cons op ops ih => exact ih (liveStep_numbered hh hn op) (liveStep_noted hh hn op hb)

end BackBroker

open BackBroker in
/-- Over any session from a fresh broker along which reports are booked on live records only and no
order is cancelled while it is being submitted or booked: no write to a record after a terminal one has
another status, a record that is terminal at some time has the same status at every later time, and as
long as no live order is cancelled, no cancelled order is pending. -/
theorem live_terminal_absorbing (L : LiveListener α W) (fuel : Nat) {b₀ : BackBroker α (Live α W)} (hfresh : b₀.FreshLive)
    (ops : List (LiveOp α)) (hfinal : ∀ n ∈ (b₀.liveRun (L.hooks fuel) ops).world.events, n.Final) :
    (b₀.liveRun (L.hooks fuel) ops).journal.Pairwise Note.Settles ∧
    (∀ before after, ops = before ++ after → ∀ id r, (b₀.liveRun (L.hooks fuel) before).findOrder id = some r →
      r.isAlive = false → ∃ r', (b₀.liveRun (L.hooks fuel) ops).findOrder id = some r' ∧ r'.status = r.status) ∧
    ((∀ id busy, LiveNote.cancelled id busy ∉ (b₀.liveRun (L.hooks fuel) ops).world.events) →
      ∀ p ∈ (b₀.liveRun (L.hooks fuel) ops).pendingOrders, ∀ r,
        (b₀.liveRun (L.hooks fuel) ops).findOrder p.id = some r → r.status ≠ .Canceled) := by
  have hh := L.tame_hooks fuel
  have hn := Numbered.of_fresh hfresh.toFresh
  have hset : b₀.Settled := ⟨by rw [hfresh.journal]; exact .nil, by rw [hfresh.journal]; simp⟩
  have hnone : ∀ id, b₀.findOrder id = none := fun id => by rw [findOrder, hfresh.allOrders]; rfl
  refine ⟨(liveRun_settled hh hn ops hfinal hset).1.pairwise, ?_, ?_⟩
  · rintro before after rfl id r hf hdead
    rw [liveRun_append] at hfinal ⊢
    have hn' := liveRun_numbered hh hn before
    have hset' := (liveRun_settled hh hn before
      (fun n hmem => hfinal n ((liveRun_events hh hn' after).mem hmem)) hset).1
    exact (liveRun_settled hh hn' after hfinal hset').2 id r hf hdead
  · intro hnever p _ r hf hc
    have hnoted : b₀.Noted := fun id r hf => by rw [hnone] at hf; cases hf
    obtain ⟨busy, hmem⟩ := liveRun_noted hh hn ops hnoted p.id r hf hc
    exact hnever p.id busy hmem

/-- An order that is filled and asked to be cancelled afterwards. -/
theorem live_terminal_absorbing_filled :
    BackBroker.liveFunded.FreshLive ∧
    (∀ n ∈ (BackBroker.liveFunded.liveRun (LiveListener.silent.hooks 1)
      [.cmd (.buy 1 0 none .Market 0), .fill (.ofFill 1 1 100 0), .cmd (.cancelOrder 1)]).world.events, n.Final) ∧
    (BackBroker.liveFunded.liveRun (LiveListener.silent.hooks 1)
      [.cmd (.buy 1 0 none .Market 0), .fill (.ofFill 1 1 100 0), .cmd (.cancelOrder 1)]).journal.Pairwise Note.Settles :=
  ⟨BackBroker.freshLive_liveFunded, by decide +kernel,
    (live_terminal_absorbing .silent 1 BackBroker.freshLive_liveFunded _ (by decide +kernel)).1⟩

/-- A cancelled order stays pending, and the report of a fill completes it. -/
theorem cancelled_order_completes :
    ((BackBroker.liveFunded.liveRun (LiveListener.silent.hooks 1)
      [.cmd (.buy 1 0 none .Market 0), .cmd (.cancelOrder 1)]).findOrder 1).map Order.status = some .Canceled ∧
    (BackBroker.liveFunded.liveRun (LiveListener.silent.hooks 1)
      [.cmd (.buy 1 0 none .Market 0), .cmd (.cancelOrder 1)]).pendingOrders.map Order.status = [.Canceled] ∧
    ((BackBroker.liveFunded.liveRun (LiveListener.silent.hooks 1)
      [.cmd (.buy 1 0 none .Market 0), .cmd (.cancelOrder 1), .fill (.ofFill 1 1 100 0)]).findOrder 1).map
        Order.status = some .Completed := by
  decide +kernel

end StratForge
