import StratForge.FreshFills
import StratForge.SameData

/-!
# What has not been delivered

Two runs over feeds that agree on all that has been delivered, for agents that read no more than that, do the same as
long as no order comes to a feed that has delivered nothing (`undelivered_unseen`). `process_orders` takes such an order to
the first bar of its feed all the same, whose content is then seen in the fill.
-/

namespace StratForge

variable {α W : Type} [Arith α]

namespace Cerebro
variable {c : Cerebro α W} {feeds feeds' : DataFeed α × List (DataFeed α)} {b b' : BackBroker α W} {n : Nat}
  {e e' : CerebroState α W}

/-- Agents that read nothing but what has been delivered. -/
structure ReadsDelivered (c : Cerebro α W) : Prop where
  act : ∀ {clock clock' : Clock α}, clock.Alike clock' → clock.Upright → ∀ ev {b : BackBroker α W}, b.OpenOn clock.Delivering →
    (c.listener clock').act ev b = (c.listener clock).act ev b
  hook : ∀ {clock clock' : Clock α}, clock.Alike clock' → clock.Upright → ∀ side size k {b : BackBroker α W},
    b.OpenOn clock.Delivering → (c.listener clock').preOrderHook side size k b = (c.listener clock).preOrderHook side size k b
  call : ∀ {clock clock' : Clock α}, clock.Alike clock' → clock.Upright → ∀ ph si {b : BackBroker α W},
    b.OpenOn clock.Delivering → c.call ph clock' si b = c.call ph clock si b
  closing : ∀ {clock clock' : Clock α}, clock.Alike clock' → clock.Upright → ∀ n {b : BackBroker α W},
    b.OpenOn clock.Delivering → c.closing n clock' b = c.closing n clock b

theorem ReadsDelivered.sees (hc : c.ReadsDelivered) {clock clock' : Clock α} (halike : clock.Alike clock') (hup : clock.Upright) :
    c.Sees (fun _ => False) Eq clock clock' where
  listener :=
    { act := fun ev b w _ hw hopen => by
        have hact := hc.act halike hup ev hopen
        rw [← hw]
        exact ⟨congrArg Prod.snd hact, (congrArg Prod.fst hact).symm⟩
      hook := fun side size k b w _ hw hopen => by
        have hhook := hc.hook halike hup side size k hopen
        rw [← hw]
        exact .inr ⟨congrArg Prod.fst hhook, (congrArg Prod.snd hhook).symm⟩
      act_lost := fun _ _ => id
      hook_lost := fun _ _ _ _ => id }
  call ph si b w _ hw hopen := by
    have hcall := hc.call halike hup ph si hopen
    rw [← hw]
    exact ⟨congrArg Prod.snd hcall, (congrArg Prod.fst hcall).symm⟩
  call_lost _ _ _ := id
  minimumPeriod _ _ hw := by rw [hw]

theorem ReadsDelivered.steady (hc : c.ReadsDelivered) (halike : e.clock.Alike e'.clock) (hup : e.clock.Upright)
    (hworld : e.broker.world = e'.broker.world) (hserves : c.Serves e) : c.Steady Eq n e e' where
  sees := by
    refine ⟨fun _ => False, Eq, hworld, hc.sees halike hup, id, fun b w hw hopen => ?_⟩
    rw [← hw]
    exact (hc.closing halike hup n hopen).symm
  serves := hserves

/-- On every bar of two runs whose data show the same so far, for agents that read nothing but what has been delivered, the
orders, the fills, the cash and the portfolio values are the same, if the runs took no order to a feed that had delivered
nothing. -/
theorem undelivered_unseen (hflat : Arith.abs (0 : α) < 1e-10) (hc : c.ReadsDelivered) (hb : b.positions = [])
    (hsame : SameUpTo (n + 1) feeds feeds') (hserves : ∀ m ≤ n, ∀ e, c.gated feeds b m = .ok e → c.Serves e)
    (h : c.gated feeds b n = .ok e) (hn : n < feeds.1.size) (h' : c.gated feeds' b n = .ok e') (hn' : n < feeds'.1.size) :
    (c.trade n e').broker = (c.trade n e).broker ∧ (c.trade n e').entered = (c.trade n e).entered ∧
      (c.trade n e').broker.portfolioValue e'.clock.feeds = (c.trade n e).broker.portfolioValue e.clock.feeds ∧
      ∀ «at», (c.trade n e').broker.portfolioValueAt «at» e'.clock.feeds = (c.trade n e).broker.portfolioValueAt «at» e.clock.feeds := by
  obtain ⟨e₀, h₀, -⟩ := c.gated_broker h
  obtain ⟨e₀', h₀', -⟩ := c.gated_broker h'
  have hsteady : ∀ m ≤ n, ∀ e e', c.gated feeds b m = .ok e → c.gated feeds' b m = .ok e' →
      e.broker.world = e'.broker.world → c.Steady Eq m e e' := by
    intro m hm e e' he he' hworld
    have halike := alike_gated (hsame.mono (Nat.succ_le_succ hm)) he (lt_of_le_of_lt hm hn) he' (lt_of_le_of_lt hm hn')
    exact hc.steady halike (upright_gated he (lt_of_le_of_lt hm hn)) hworld (hserves m hm e he)
  have hstart : ∀ e e', c.start feeds b = .ok e → c.start feeds' b = .ok e' → Tied Eq (DeliveredBy feeds 0) e e' := fun e e' he he' =>
    start_together hflat (hc.sees (alike_start (hsame.mono (Nat.zero_le _))) (upright_start feeds)) (fun _ _ hw => by rw [hw])
      (fun _ => id) rfl rfl hb he he' id
  have hR := runs_together (S := fun _ => Eq) hflat (hsame.mono (Nat.le_succ n)) hstart
    (fun m hm => hsteady m hm.le) h₀ hn.le h₀' hn'.le
  have htied := trade_together hflat hsame h hn h' hn' h₀ h₀' hR (hsteady n le_rfl e e' h h')
  have hbroker : (c.trade n e').broker = (c.trade n e).broker := htied.broker.trans (by rw [← htied.world]; rfl)
  have halike := alike_gated hsame h hn h' hn'
  have hup := upright_gated h hn
  rw [hbroker]
  exact ⟨rfl, htied.entered, htied.opened.portfolioValue_alike halike hup, htied.opened.portfolioValueAt_alike halike hup⟩

theorem readsDelivered_buysOn (bar : Nat) : (buysOn bar).ReadsDelivered where
  act _ _ _ _ _ := rfl
  hook _ _ _ _ _ _ _ := rfl
  call halike _ _ _ _ _ := by
    show ((), if _ then _ else _) = ((), if _ then _ else _)
    rw [halike.master.index]
  closing _ _ _ _ _ := rfl

/-- An order that comes to a day that has closed does not show the one that has not. -/
theorem undelivered_unseen_midnight :
    let b : BackBroker ℚ Unit := .init .USD 1000 none ()
    let feeds := aroundMidnight true
    let feeds' : DataFeed ℚ × List (DataFeed ℚ) := (feeds.1, [.timed ⟨.Days, 1⟩ [0]])
    ∃ e e', (buysOn 1).gated feeds b 2 = .ok e ∧ (buysOn 1).gated feeds' b 2 = .ok e' ∧
      ((buysOn 1).trade 2 e).broker.executions.map (fun x => (x.order.dataIndex, x.cursor)) = [(1, 0)] ∧
      ((buysOn 1).trade 2 e').broker = ((buysOn 1).trade 2 e).broker ∧
      ((buysOn 1).trade 2 e').broker.portfolioValue e'.clock.feeds = ((buysOn 1).trade 2 e).broker.portfolioValue e.clock.feeds := by
  intro b feeds feeds'
  have hrun : ((buysOn 1).gated feeds b 2).toOption.map (fun e =>
      ((buysOn 1).trade 2 e).broker.executions.map fun x => (x.order.dataIndex, x.cursor)) = some [(1, 0)] := by decide +kernel
  have hrun' : ((buysOn 1).gated feeds' b 2).toOption.map (fun _ => ()) = some () := by decide +kernel
  have hpending : ∀ m < 3, ((buysOn 1).gated feeds b m).toOption.map (fun e =>
      (e.broker.pendingOrders.length, (e.broker.passAt ((buysOn 1).hooks e.clock) e.clock.feeds 0).broker.pendingOrders.map
        (·.dataIndex))) = some (if m = 2 then (1, [1]) else (0, [])) := by decide +kernel
  obtain ⟨e, he, hfills⟩ := ok_of_toOption hrun
  obtain ⟨e', he', -⟩ := ok_of_toOption hrun'
  have hsame : SameUpTo 3 feeds feeds' := ⟨rfl, rfl, .cons ⟨rfl, by decide +kernel, by decide +kernel⟩ .nil⟩
  have hserves : ∀ m ≤ 2, ∀ e, (buysOn 1).gated feeds b m = .ok e → (buysOn 1).Serves e := by
    intro m hm e hg i hi o ho _ _
    obtain ⟨e', he', heq⟩ := ok_of_toOption (hpending m (Nat.lt_succ_of_le hm))
    cases hg.symm.trans he'
    split_ifs at heq with hm2
    · obtain ⟨hlen, hpend⟩ := Prod.mk.inj heq
      obtain rfl : i = 0 := by rw [hlen] at hi; simpa using hi
      have hdata : o.dataIndex ∈ [1] := hpend ▸ List.mem_map_of_mem (List.mem_of_getElem? ho)
      rw [List.mem_singleton.1 hdata, delivering_gated hg (lt_of_le_of_lt hm (by decide)), hm2]
      exact fun _ _ => by decide +kernel
    · rw [(Prod.mk.inj heq).1] at hi
      exact absurd hi (Nat.not_lt_zero i)
  obtain ⟨hbroker, -, hvalue, -⟩ := @undelivered_unseen _ _ _ (buysOn 1) feeds feeds' b 2 e e' (by decide +kernel) (readsDelivered_buysOn 1)
    rfl hsame hserves he (by decide) he' (by decide)
  exact ⟨e, e', he, he', hfills, hbroker, hvalue⟩

/-- Evening hours, and the day they belong to. -/
def evening (price : ℚ) : DataFeed ℚ × List (DataFeed ℚ) :=
  let hour : Int := 3600 * nsPerSecond
  (.timed ⟨.Minutes, 60⟩ [20 * hour, 21 * hour, 22 * hour],
    [{ lines := { data := [⟨0, price, price, price, price, 1, 0⟩] }, timeframe := ⟨.Days, 1⟩ }])

/-- What a day costs that has not closed. -/
theorem undelivered_seen : ¬ ∀ (c : Cerebro ℚ Unit) (feeds feeds' : DataFeed ℚ × List (DataFeed ℚ)) (b : BackBroker ℚ Unit) (n : Nat)
    (e e' : CerebroState ℚ Unit), c.ReadsDelivered → b.Fresh → SameUpTo (n + 1) feeds feeds' → n < feeds.1.size → n < feeds'.1.size →
    c.gated feeds b n = .ok e → c.gated feeds' b n = .ok e' →
    (c.trade n e').broker.cash .USD = (c.trade n e).broker.cash .USD := by
  intro hall
  let b : BackBroker ℚ Unit := .init .USD 1000 none ()
  have hrun : ∀ price ∈ [(1 : ℚ), 2], ((buysOn 0).gated (evening price) b 1).toOption.map
      (fun e => ((buysOn 0).trade 1 e).broker.cash .USD) = some (1000 - price) := by decide +kernel
  obtain ⟨e, he, hcash⟩ := ok_of_toOption (hrun 1 (by simp))
  obtain ⟨e', he', hcash'⟩ := ok_of_toOption (hrun 2 (by simp))
  have hsame : SameUpTo 2 (evening 1) (evening 2) :=
    ⟨rfl, rfl, .cons ⟨rfl, by decide +kernel, by decide +kernel⟩ .nil⟩
  have heq := hall (buysOn 0) (evening 1) (evening 2) b 1 e e' (readsDelivered_buysOn 0) (BackBroker.fresh_init ..) hsame (by decide)
    (by decide) he he'
  rw [hcash, hcash'] at heq
  norm_num at heq

end Cerebro

end StratForge
