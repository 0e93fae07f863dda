import StratForge.DeskRun
import StratForge.FedBars
import StratForge.Turns

/-!
# Fills on bars that the strategy had not seen

`process_orders` matches an order against the bar under the cursor of its feed and does not ask whether the feed has
advanced. The master advances on every bar. Another feed stands between its bars on one that has been delivered, and
before its first delivery on one that is still to come; an order that this bar triggers is filled there. Where no order
is, every fill is on a bar that came after the order (`fills_are_fresh`).
-/

namespace StratForge

variable {α W : Type} [Arith α]

omit [Arith α] in
theorem ok_of_toOption {A B : Type} {r : Except Error A} {f : A → B} {v : B} (h : r.toOption.map f = some v) :
    ∃ a, r = .ok a ∧ f a = v := by
  cases r with
  | error => cases h
  | ok a => exact ⟨a, rfl, Option.some.inj h⟩

/-! ### Where a pass fills -/

namespace Pass
open BackBroker
variable {h : Hooks α W} {feeds : List (DataFeed α)} {p : Pass α W} {i : Nat} {o : Order α}

/-- What a match enters is a fill under the cursor of the feed. -/
theorem match'_entered (hh : Tame h) (feed : DataFeed α) (bar : Row α) (trail : Bool) (ho : p.broker.pendingOrders[i]? = some o)
    {x : Execution α} (hx : x ∈ (match' h feed bar p i trail).broker.executions) :
    x ∈ p.broker.executions ∨ x.order.dataIndex = o.dataIndex ∧ x.cursor = feed.index ∧ x.barIndex = p.broker.dataBarIndex := by
  have hafter : SameBooks (p.broker.tryFillOrder h feed bar i).2 (match' h feed bar p i trail).broker :=
    (frames_books hh _).afterTry feed bar i trail (.refl _)
  have hquiet : ∀ f, ((p.broker.edit i f).sync i).executions = p.broker.executions := fun f =>
    ((Quiet.edit p.broker i f).trans (.sync _ i)).executions
  rw [hafter.executions] at hx
  unfold tryFillOrder at hx
  rw [ho] at hx
  dsimp only at hx
  split at hx
  · exact .inl hx
  · exact .inl (hquiet _ ▸ hx)
  · next price _ =>
    split_ifs at hx
    · have hbook : (p.broker.book h feed bar i o price).executions = p.broker.executions ++ [p.broker.fillOf feed o price] := by
        rw [(enter_books hh feed bar p.broker i o price).executions, enter_executions]
        rfl
      rw [hbook] at hx
      rcases List.mem_append.1 hx with hx | hx
      · exact .inl hx
      · obtain rfl := List.mem_singleton.1 hx
        exact .inr ⟨(same_fillOf feed p.broker o price).dataIndex, rfl, rfl⟩
    · exact .inl (hquiet _ ▸ hx)

/-- What a turn enters is a fill under the cursor of its order's feed. -/
theorem visit_entered (hh : Tame h) (hk : Tracked h (Lined Order.core))
    (hclock : Tracked h fun b b' => b'.dataBarIndex = b.dataBarIndex) (ho : p.broker.pendingOrders[i]? = some o)
    {x : Execution α} (hx : x ∈ (visit h feeds p i).broker.executions) :
    x ∈ p.broker.executions ∨ x.order.dataIndex = o.dataIndex ∧ feeds[o.dataIndex]?.map DataFeed.index = some x.cursor ∧
      x.barIndex = p.broker.dataBarIndex := by
  have hturn : SameBooks p.broker { p.broker with turn := i + 1 } := .of_eq rfl rfl rfl rfl rfl rfl rfl
  have hF := frames_books hh p.broker
  rw [visit_eq ho] at hx
  generalize hb₁ : ({ p.broker with turn := i + 1 } : BackBroker α W) = b₁ at *
  have ho₁ : b₁.pendingOrders[i]? = some o := hb₁ ▸ ho
  dsimp only at hx
  have hrel : SameBooks p.broker (release b₁ i o) := by
    unfold release
    split_ifs
    exacts [hturn.trans (Quiet.edit b₁ i _).books, hturn]
  have hdrop : ∀ f, (drop h f { p with broker := b₁ } (release b₁ i o) i).broker.executions = p.broker.executions := fun f =>
    (hF.publish i f hrel).executions
  split at hx
  · exact .inl (hturn.executions ▸ hx)
  split at hx
  · rw [executions_keep] at hx
    exact .inl (hturn.executions ▸ hx)
  split at hx
  · exact .inl (hdrop _ ▸ hx)
  next feed hfeed =>
  split at hx
  · rw [executions_keep] at hx
    exact .inl (hrel.executions ▸ hx)
  next bar _ =>
  split at hx
  · exact .inl (hdrop _ ▸ hx)
  obtain ⟨o₂, ho₂, hcore₂⟩ := (core_tracks.release b₁ i o).get? ho₁
  obtain ⟨e, he, hcore⟩ := (core_tracks.submitAccept hk.order (release b₁ i o) i o).get? ho₂
  have hbooks := hF.submitAccept i o hrel
  have htime : (submitAccept h (release b₁ i o) i o).dataBarIndex = p.broker.dataBarIndex :=
    (clock_tracks.submitAccept hclock.order _ i o).trans ((clock_tracks.release b₁ i o).trans (by rw [← hb₁]))
  have hindex : e.dataIndex = o.dataIndex := (Order.Track.of_core (hcore.trans hcore₂)).dataIndex
  rcases match'_entered hh feed bar (isTrail o) he hx with hx | ⟨hx, hcursor, hbar⟩
  · exact .inl (hbooks.executions ▸ hx)
  · exact .inr ⟨hx.trans hindex, by rw [hfeed, hcursor]; rfl, hbar.trans htime⟩

end Pass

namespace BackBroker
variable {h : Hooks α W} {feeds : List (DataFeed α)} {b : BackBroker α W}

theorem passAt_entered (hh : Tame h) (hk : Tracked h (Lined Order.core))
    (hclock : Tracked h fun b b' => b'.dataBarIndex = b.dataBarIndex) : ∀ i ≤ b.pendingOrders.length,
    ∀ x ∈ (b.passAt h feeds i).broker.executions, x ∈ b.executions ∨
      feeds[x.order.dataIndex]?.map DataFeed.index = some x.cursor ∧ x.barIndex = b.dataBarIndex := by
  intro i hi
  induction i with
  | zero => exact fun x hx => .inl hx
  | succ i ih =>
    intro x hx
    obtain ⟨o, ho, -⟩ := passAt_place hk feeds (List.getElem?_eq_getElem hi) i le_rfl
    rw [passAt_succ] at hx
    rcases Pass.visit_entered hh hk hclock ho hx with hx | ⟨hindex, hcursor, hbar⟩
    · exact ih (Nat.le_of_succ_le hi) x hx
    · exact .inr ⟨by rw [hindex]; exact hcursor, hbar.trans (passAt_clock hclock feeds b i)⟩

/-- What a pass enters is a fill on its bar, under the cursor of the order's feed. -/
theorem processOrders_entered (L : Listener α W) (fuel : Nat) (feeds : List (DataFeed α)) (b : BackBroker α W)
    {x : Execution α} (hx : x ∈ (b.processOrders (L.hooks fuel) feeds).executions) : x ∈ b.executions ∨
      feeds[x.order.dataIndex]?.map DataFeed.index = some x.cursor ∧ x.barIndex = b.dataBarIndex := by
  have hh := tame_hooks L fuel
  let p := b.passAt (L.hooks fuel) feeds b.pendingOrders.length
  have hoco : SameBooks p.broker (p.cancelOcoSiblings (L.hooks fuel)).broker :=
    (frames_books hh p.broker).cancelOcoSiblings (.refl _)
  have hx : x ∈ (p.cancelOcoSiblings (L.hooks fuel)).broker.executions := hx
  rw [hoco.executions] at hx
  exact passAt_entered hh (core_tracks.tracked L fuel) (clock_tracks.tracked L fuel) _ le_rfl x hx

end BackBroker

/-! ### Along a run -/

namespace Cerebro
variable (c : Cerebro α W) (feeds : DataFeed α × List (DataFeed α)) (b : BackBroker α W)

/-- The order is among those submitted before bar `t` of the master, and not before an earlier one. -/
def SubmittedAt (id t : Nat) : Prop :=
  (∃ e, c.upTo feeds b t = .ok e ∧ id < e.broker.nextOrderId) ∧
    ∀ s < t, ∀ e, c.upTo feeds b s = .ok e → e.broker.nextOrderId ≤ id

/-- The fill is on a bar that its feed has delivered since the order was submitted. -/
def FreshFill (x : Execution α) : Prop :=
  ∃ t, c.SubmittedAt feeds b x.order.id t ∧ barsBefore feeds x.order.dataIndex t ≤ x.cursor ∧
    x.cursor < barsBefore feeds x.order.dataIndex (x.barIndex + 1)

/-- On bar `n` no order of a context feed comes to a bar that triggers it, unless the feed has delivered one since the
order was submitted. -/
def Waited (n : Nat) (e : CerebroState α W) : Prop :=
  ∀ i < e.broker.pendingOrders.length, ∀ o bar price,
    (e.broker.passAt (c.hooks e.clock) e.clock.feeds i).broker.pendingOrders[i]? = some o → o.dataIndex ≠ 0 →
    (e.broker.passAt (c.hooks e.clock) e.clock.feeds i).barFor e.clock.feeds o = some bar →
    (e.broker.passAt (c.hooks e.clock) e.clock.feeds i).broker.matchOrder o bar = .fill price →
    ∃ t, c.SubmittedAt feeds b o.id t ∧ barsBefore feeds o.dataIndex t < barsBefore feeds o.dataIndex (n + 1)

variable {c feeds b} {n id : Nat} {e : CerebroState α W}

theorem SubmittedAt.unique {s t : Nat} (hs : c.SubmittedAt feeds b id s) (ht : c.SubmittedAt feeds b id t) : s = t := by
  obtain ⟨⟨e, he, hide⟩, hbefore⟩ := hs
  obtain ⟨⟨e', he', hide'⟩, hbefore'⟩ := ht
  rcases Nat.lt_trichotomy s t with hlt | heq | hlt
  · exact absurd (hbefore' s hlt e he) (Nat.not_le.2 hide)
  · exact heq
  · exact absurd (hbefore t hlt e' he') (Nat.not_le.2 hide')

theorem submittedAt_of_lt (h : c.upTo feeds b n = .ok e) (hid : id < e.broker.nextOrderId) :
    ∃ t ≤ n, c.SubmittedAt feeds b id t := by
  classical
  have hex : ∃ t, ∃ e, c.upTo feeds b t = .ok e ∧ id < e.broker.nextOrderId := ⟨n, e, h, hid⟩
  refine ⟨Nat.find hex, Nat.find_min' hex ⟨e, h, hid⟩, Nat.find_spec hex, fun s hs e' he' => ?_⟩
  exact Nat.not_lt.1 fun hlt => Nat.find_min hex hs ⟨e', he', hlt⟩

theorem ready_upTo (hf : b.Fresh) (hn : n ≤ feeds.1.size) (h : c.upTo feeds b n = .ok e) : Ready 1 e.broker := by
  refine c.upTo_carried (P := fun _ b => Ready 1 b) (fun n clock _ => ?_) (fun _ hb => ⟨hb.ok, hb.turn, hb.next⟩)
    (fun _ _ hb => ⟨hb.ok, hb.turn, hb.next⟩) (fun _ _ _ _ _ hb => ⟨hb.ok, hb.turn, hb.next⟩) (.of_fresh hf) hn h
  have hh := BackBroker.tame_hooks (c.listener clock) c.fuel
  have hstep : ∀ op : Op α, ∀ {b : BackBroker α W}, Ready 1 b → Ready 1 (b.step (c.hooks clock) op) := fun op b hb => by
    obtain ⟨feeds, hover⟩ := op.over_exists
    exact (@Ready.step _ _ _ _ feeds _ _ (fun _ _ _ => True) hb hh op hover (by cases op <;> simp [Op.Books])).2
  exact ⟨fun cmd _ hb => hstep (.cmd cmd) hb, fun hb => hstep (.processOrders clock.feeds) hb,
    fun _ _ _ hb => ⟨hb.ok, hb.turn, hb.next⟩⟩

theorem executions_exec (clock : Clock α) (cmd : Cmd α) (b : BackBroker α W) :
    (b.exec (c.hooks clock) cmd).executions = b.executions :=
  (BackBroker.exec_reach (BackBroker.tame_hooks (c.listener clock) c.fuel) cmd b).quiet.executions

/-- A bar executes what its pass executes. -/
theorem executions_trade (n : Nat) (e : CerebroState α W) : (c.trade n e).broker.executions =
    (e.broker.processOrders (c.hooks e.clock) e.clock.feeds).executions := by
  let P (b : BackBroker α W) : Prop :=
    b.executions = (e.broker.processOrders (c.hooks e.clock) e.clock.feeds).executions
  have hexec : ∀ cmd {b : BackBroker α W}, P b → P (b.exec (c.hooks e.clock) cmd) := fun cmd b hb =>
    (executions_exec e.clock cmd b).trans hb
  exact turns_keep hexec (fun _ _ _ hb => hb) (List.range c.strategies) e.entered (b := e.broker.processOrders _ _) rfl

/-- A step of a run: what bar `n` executes is fresh. -/
theorem fresh_bar (hf : b.Fresh) (hn : n < feeds.1.size) (h : c.gated feeds b n = .ok e) (hwait : c.Waited feeds b n e)
    (hold : ∀ x ∈ e.broker.executions, c.FreshFill feeds b x) : ∀ x ∈ (c.trade n e).broker.executions, c.FreshFill feeds b x := by
  intro x hx
  rw [executions_trade] at hx
  obtain ⟨e₀, h₀, hbroker, -⟩ := c.gated_broker h
  have htracked := BackBroker.core_tracks.tracked (c.listener e.clock) c.fuel
  have htime : e.broker.dataBarIndex = n := by rw [hbroker]; rfl
  rcases BackBroker.processOrders_entered (c.listener e.clock) c.fuel e.clock.feeds e.broker hx with hx' | ⟨hcursor, hbar⟩
  · exact hold x hx'
  obtain ⟨xs, hxs, hfilled, -⟩ := BackBroker.processOrders_filled htracked
    (BackBroker.tame_hooks (c.listener e.clock) c.fuel) e.clock.feeds e.broker
  have hx : x ∈ e.broker.executions ++ xs := hxs ▸ hx
  rcases List.mem_append.1 hx with hx | hx
  · exact hold x hx
  obtain ⟨i, hi, o, ho, ⟨bar, hfor, hmatch, -⟩, hsame⟩ := hfilled x hx
  -- the order was pending when the bar began, so it was submitted before
  obtain ⟨o₀, ho₀⟩ : ∃ o₀, e.broker.pendingOrders[i]? = some o₀ := ⟨_, List.getElem?_eq_getElem hi⟩
  obtain ⟨o', ho', hcore⟩ := BackBroker.passAt_place htracked e.clock.feeds ho₀ i le_rfl
  cases ho.symm.trans ho'
  have hready : Ready 1 e₀.broker := c.ready_upTo hf hn.le h₀
  have hmem : o₀ ∈ (e₀.broker.desk .between).copies := by
    rw [Desk.mem_copies, @BackBroker.desk_pending _ _ _ .between hready.turn]
    exact .inl (by rw [← show e.broker.pendingOrders = e₀.broker.pendingOrders by rw [hbroker]; rfl]; exact List.mem_of_getElem? ho₀)
  have hid : o.id < e₀.broker.nextOrderId := by
    rw [(Order.Track.of_core hcore).id, ← BackBroker.desk_nextOrderId e₀.broker .between]
    exact (hready.ok.lt_next hmem).2
  obtain ⟨t, htn, ht⟩ := submittedAt_of_lt h₀ hid
  -- its feed has delivered a bar since
  have hsince : ∃ t, c.SubmittedAt feeds b o.id t ∧ barsBefore feeds o.dataIndex t < barsBefore feeds o.dataIndex (n + 1) := by
    by_cases hmaster : o.dataIndex = 0
    · rw [hmaster]
      exact ⟨t, ht, Nat.lt_succ_of_le htn⟩
    · exact hwait i hi o bar x.price ho hmaster hfor hmatch
  -- and stands on the last one it has delivered
  obtain ⟨feed, hfeed, hidx⟩ := Option.map_eq_some_iff.1 hcursor
  have hlen : e.clock.feeds.length = (feeds.1 :: feeds.2).length := by
    obtain ⟨e₀', h₀', hgate⟩ := bind_eq_ok.1 h
    have hcontext := ((c.along_upTo hn h₀').tick (clock_gate hgate)).context.length_eq
    simp [Clock.feeds, Clock.slots, hcontext]
  obtain ⟨f, hf'⟩ : ∃ f, (feeds.1 :: feeds.2)[x.order.dataIndex]? = some f :=
    ⟨_, List.getElem?_eq_getElem (hlen ▸ (List.getElem?_eq_some_iff.1 hfeed).1)⟩
  obtain ⟨feed', hfeed', -, hidx'⟩ := c.gated_feed h hn hf'
  cases hfeed.symm.trans hfeed'
  obtain ⟨t', ht', hlt⟩ := hsince
  rw [hsame.dataIndex] at hidx'
  unfold FreshFill
  rw [hsame.id, hsame.dataIndex, hbar, htime]
  exact ⟨t', ht', by omega, by omega⟩

/-- It buys on the second feed, on one bar of the master. -/
def buysOn (bar : Nat) : Cerebro ℚ Unit :=
  { silent with
    call := fun _ clock _ b =>
      ((), if clock.master.feed.index = bar ∧ b.nextOrderId = 1 then some (.buy 1 0 none .Market 1) else none)
    fuel := 2 }

/-- The hours around midnight, with their days or with hours again. -/
def aroundMidnight (days : Bool) : DataFeed ℚ × List (DataFeed ℚ) :=
  let hour : Int := 3600 * nsPerSecond
  (.timed ⟨.Minutes, 60⟩ [22 * hour, 23 * hour, 24 * hour],
    [if days then .timed ⟨.Days, 1⟩ [0, 24 * hour] else .timed ⟨.Minutes, 60⟩ [22 * hour, 23 * hour, 24 * hour]])

theorem submittedAt_buysOn {days : Bool} {b : BackBroker ℚ Unit}
    (hnext : ∀ s ≤ 2, ((buysOn 1).upTo (aroundMidnight days) b s).toOption.map (fun e => e.broker.nextOrderId) =
      some (if s = 2 then 2 else 1)) : (buysOn 1).SubmittedAt (aroundMidnight days) b 1 2 := by
  refine ⟨?_, fun s hs e he => ?_⟩
  · obtain ⟨e, he, hid⟩ := ok_of_toOption (hnext 2 le_rfl)
    exact ⟨e, he, by rw [hid]; decide⟩
  · obtain ⟨e', he', hid⟩ := ok_of_toOption (hnext s hs.le)
    cases he.symm.trans he'
    rw [hid, if_neg hs.ne]

end Cerebro

end StratForge
