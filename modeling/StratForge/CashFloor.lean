import StratForge.DeskRun
import StratForge.FillRange

/-!
# Cash without instruments

Only a buy is checked against the cash, at the price and with the commission it is then charged; a sell
at a price that is not negative brings in at least its commission. So the cash of the base currency
stays where a run cannot take it below zero (`cash_nonneg`), after every single fill.
-/

namespace StratForge

/-- No instruments, a commission that is a share of the value of the fill, and no fill outside the bar. -/
structure BrokerSettings.Plain (b : BrokerSettings ℚ) : Prop where
  instruments : ∀ k, b.instrumentMap k = none
  type : b.legacyCommission.type = .Percentage
  rate_nonneg : 0 ≤ b.legacyCommission.commission
  rate_le_one : b.legacyCommission.commission ≤ 1
  minimum : b.legacyCommission.minCommission = 0
  slipOut : b.slipOut = false

/-- The bar opens inside its range, at prices that are not negative. -/
structure Row.Sane (bar : Row ℚ) : Prop where
  nonneg : 0 ≤ bar.low
  low_le : bar.low ≤ bar.open
  le_high : bar.open ≤ bar.high

/-! ### Every fill is of a submitted order -/

namespace Desk
variable {α : Type} {d d' : Desk α} {lo : Nat} {feeds : List (DataFeed α)} {B : List Nat → Order α → Prop}

/-- The journal knows the order as it was submitted. -/
def Submitted (d : Desk α) (o : Order α) : Prop :=
  ∃ o' turn seen, .submitted o' turn seen ∈ d.journal ∧ Order.Same o' o

structure Sourced (d : Desk α) : Prop where
  record : ∀ id q, d.record id = some q → d.Submitted q
  executed : ∀ x, .executed x ∈ d.journal → d.Submitted x.order

theorem Submitted.mono {o o' : Order α} (h : d.Submitted o) (hj : d.journal <+: d'.journal) (hs : Order.Same o o') :
    d'.Submitted o' := by
  obtain ⟨o₀, turn, seen, hm, hs₀⟩ := h
  exact ⟨o₀, turn, seen, hj.subset hm, hs₀.trans hs⟩

theorem Sourced.move (h : d.Sourced) (hok : d.Ok) (hm : Move lo feeds B d d') : d'.Sourced := by
  have hj := hm.journal_le
  refine ⟨fun id q' hq' => ?_, fun x hx => ?_⟩
  · rcases hok.record_back hm hq' with ⟨q, hq, hs⟩ | ⟨turn, seen, -, hnew⟩
    · exact (h.record id q hq).mono hj hs
    · exact ⟨q', turn, seen, by simp [hnew], .refl q'⟩
  · obtain ⟨ns, hns⟩ := hj
    rw [← hns] at hx
    rcases List.mem_append.1 hx with hx | hx
    · exact (h.executed x hx).mono hm.journal_le (.refl _)
    · obtain ⟨e, r, -, hr, -, -, ⟨p, q, k, he⟩, -⟩ := hm.executed_back hns.symm hx
      obtain ⟨r₀, hr₀, hs⟩ := hok.known e (mem_copies.2 (.inl (head_mem_pending hr)))
      rw [he]
      exact (h.record _ _ hr₀).mono hm.journal_le (hs.trans (Order.same_execute e p q k))

end Desk

namespace BackBroker
variable {α W : Type} [Arith α]

/-- Whatever a run executes has been submitted in it. -/
theorem executed_submitted {b : BackBroker α W} (hf : b.Fresh) {h : Hooks α W} (hh : Tame h) (ops : List (Op α))
    {x : Execution α} (hx : x ∈ (b.run h ops).executions) :
    ∃ o turn seen, .submitted o turn seen ∈ (b.run h ops).journal ∧ Order.Same o x.order := by
  have hready := Ready.of_fresh hf
  have hstart : (b.desk .between).Sourced := by
    refine ⟨fun id q hq => ?_, fun x hx => ?_⟩
    · simp [desk, findOrder, hf.allOrders] at hq
    · simp [desk, hf.journal] at hx
  have hrun := hready.run_of_notes hh (fun feeds d d' hok hm (_ : ∀ n ∈ d'.journal, True) hI => hI.move hok hm)
    hstart ops (fun _ _ => trivial)
  have hexec := hrun.executed x (by rw [desk_journal]; exact executed_of_mem hx)
  rwa [Desk.Submitted, desk_journal] at hexec

end BackBroker

/-! ### The cash after every fill -/

namespace BackBroker
variable {W : Type} {b : BackBroker ℚ W} {h : Hooks ℚ W}

/-- What a fill costs is there. -/
theorem cost_le {o : Order ℚ} {bar : Row ℚ} {price : ℚ} (hs : b.toBrokerSettings.Plain) (hbar : bar.Sane)
    (hsize : 0 ≤ o.size) (hcash : 0 ≤ b.cash b.baseCcy) (hprice : b.matchOrder o bar = .fill price)
    (hafford : b.affords o price bar.datetime = true) :
    o.signedSize * price + b.fillCommission o price ≤ b.cash b.baseCcy := by
  have hp : 0 ≤ price := hbar.nonneg.trans
    (BrokerSettings.matchOrder_mem hs.slipOut hbar.low_le hbar.le_high hprice).1
  cases hside : o.side with
  | Buy =>
    unfold affords at hafford
    rw [hside] at hafford
    dsimp only at hafford
    rw [hs.instruments] at hafford
    simpa using hafford
  | Sell =>
    have hcomm : b.fillCommission o price ≤ o.size * price := by
      have hvalue : 0 ≤ o.size * price := mul_nonneg hsize hp
      unfold BrokerSettings.fillCommission CommissionInfo.calculate
      rw [hs.instruments]
      dsimp only
      rw [hs.type, hs.minimum, Arith.max_rat, Arith.abs_rat, abs_of_nonneg hsize]
      exact max_le (mul_le_of_le_one_right hvalue hs.rate_le_one) hvalue
    have hsigned : o.signedSize = -o.size := by rw [Order.signedSize, if_pos hside]
    rw [hsigned]
    linarith

/-- The cash is what the fills leave of `cash`, and as long as no size is negative it is never below zero. -/
structure Floored (s : BrokerSettings ℚ) (cash : Currency → ℚ) (b : BackBroker ℚ W) : Prop where
  settings : b.toBrokerSettings = s
  replay : b.cash = replayCash cash b.executions
  nonneg : (∀ x ∈ b.executions, 0 ≤ x.order.size) →
    ∀ xs, xs <+: b.executions → 0 ≤ replayCash cash xs s.baseCcy

theorem settleCcy_plain (hs : b.toBrokerSettings.Plain) (k : Nat) : b.settleCcy k = b.baseCcy := by
  unfold BrokerSettings.settleCcy
  rw [hs.instruments]

theorem fills_floored (hh : Tame h) {s : BrokerSettings ℚ} (hs : s.Plain) (cash : Currency → ℚ) :
    Fills h Row.Sane (Floored s cash : BackBroker ℚ W → Prop) where
  frame hsame _ hb := ⟨hsame.settings.trans hb.settings, by rw [hsame.cash, hsame.executions, hb.replay],
    by rw [hsame.executions]; exact hb.nonneg⟩
  order o b hb := by
    have hq := (hh.order o b).quiet.books
    exact ⟨hq.settings.trans hb.settings, by rw [hq.cash, hq.executions, hb.replay],
      by rw [hq.executions]; exact hb.nonneg⟩
  hook _ _ _ _ hb := ⟨hb.settings, hb.replay, hb.nonneg⟩
  book feed bar i o price b hbar ho hprice hafford hb := by
    have hbooks := enter_books hh feed bar b i o price
    have hplain : b.toBrokerSettings.Plain := hb.settings ▸ hs
    have hexec : (b.book h feed bar i o price).executions = b.executions ++ [b.fillOf feed o price] := by
      rw [hbooks.executions, enter_executions]
      rfl
    have hcash : (b.book h feed bar i o price).cash = replayCash cash (b.executions ++ [b.fillOf feed o price]) := by
      rw [hbooks.cash, enter_cash, replayCash, List.foldl_append]
      show (fun c => if c = _ then b.cash c - _ else b.cash c) = _
      rw [hb.replay]
      rfl
    refine ⟨hbooks.settings.trans ((enter_settings ..).trans hb.settings), by rw [hexec, hcash], ?_⟩
    rw [hexec]
    intro hsizes xs hxs
    have hsize : 0 ≤ o.size := by
      have := hsizes (b.fillOf feed o price) (by simp)
      rwa [(same_fillOf feed b o price).size] at this
    have hold := hb.nonneg fun x hx => hsizes x (List.mem_append_left _ hx)
    rcases List.prefix_concat_iff.1 hxs with rfl | hxs
    · have hnow : 0 ≤ b.cash b.baseCcy := by
        rw [hb.replay, hb.settings]
        exact hold _ List.prefix_rfl
      have hcost := cost_le hplain hbar hsize hnow hprice hafford
      rw [← hcash, hbooks.cash, enter_cash]
      have hccy : (b.fillOf feed o price).currency = s.baseCcy :=
        (settleCcy_plain hplain o.dataIndex).trans (congrArg BrokerSettings.baseCcy hb.settings)
      have hbase : b.baseCcy = s.baseCcy := congrArg BrokerSettings.baseCcy hb.settings
      show 0 ≤ if s.baseCcy = (b.fillOf feed o price).currency then
        b.cash s.baseCcy - (o.signedSize * price + b.fillCommission o price) else b.cash s.baseCcy
      rw [if_pos hccy.symm, ← hbase]
      exact sub_nonneg.2 hcost
    · exact hold xs hxs

/-- In a run over sane bars, with sizes that are not negative, the cash of the base currency is not
negative after the run or after any of its fills. -/
theorem cash_nonneg (L : Listener ℚ W) (fuel : Nat) (hf : b.Fresh) (hs : b.toBrokerSettings.Plain)
    (hcash : 0 ≤ b.cash b.baseCcy) (ops : List (Op ℚ))
    (hbars : ∀ feeds, .processOrders feeds ∈ ops → ∀ feed ∈ feeds, ∀ bar, feed.current? = some bar → bar.Sane)
    (hsizes : ∀ o turn seen, .submitted o turn seen ∈ (b.run (L.hooks fuel) ops).journal → 0 ≤ o.size) :
    0 ≤ (b.run (L.hooks fuel) ops).cash b.baseCcy ∧
      ∀ xs, xs <+: (b.run (L.hooks fuel) ops).executions → 0 ≤ replayCash b.cash xs b.baseCcy := by
  have hh := tame_hooks L fuel
  have hfills := fills_floored hh hs b.cash
  have hstart : Floored b.toBrokerSettings b.cash b := by
    have hnone : b.executions = [] := by rw [executions, hf.journal]; rfl
    refine ⟨rfl, by rw [hnone]; rfl, fun _ xs hxs => ?_⟩
    rw [hnone, List.prefix_nil] at hxs
    rw [hxs]
    exact hcash
  have hrun : Floored b.toBrokerSettings b.cash (b.run (L.hooks fuel) ops) := by
    refine Fold.foldl_ind (Floored b.toBrokerSettings b.cash) _ b hstart fun b' op hop hb' => ?_
    cases op with
    | cmd c => exact hfills.exec c hb'
    | processOrders feeds => exact hfills.processOrders (hbars feeds hop) hb'
    | setBarIndex k => exact ⟨hb'.settings, hb'.replay, hb'.nonneg⟩
  have hall := hrun.nonneg fun x hx => by
    obtain ⟨o, turn, seen, hm, hsame⟩ := executed_submitted hf hh ops hx
    rw [hsame.size]
    exact hsizes o turn seen hm
  refine ⟨?_, hall⟩
  rw [hrun.replay]
  exact hall _ List.prefix_rfl

/-- A buy of five, a sell of eight and a bar for each, at one per cent. -/
def frugal : BackBroker ℚ Unit := { funded with legacyCommission := ⟨.Percentage, 1 / 100, 0⟩ }

def frugalOps : List (Op ℚ) :=
  [.cmd (.buy 5 0 none .Market 0), .processOrders [.ofBar 100 110 90 100], .cmd (.sell 8 0 none .Market 0),
    .processOrders [.ofBar 95 110 90 100]]

def notShort : Note ℚ → Bool
  | .submitted o _ _ => decide (0 ≤ o.size)
  | _ => true

theorem cash_nonneg_frugal :
    let b := frugal.run (Listener.silent.hooks 0) frugalOps
    b.executions.length = 2 ∧ 0 ≤ b.cash .USD ∧
      ∀ xs, xs <+: b.executions → 0 ≤ replayCash frugal.cash xs .USD := by
  have hf : frugal.Fresh := ⟨rfl, rfl, rfl, rfl, rfl, rfl, rfl, rfl⟩
  have hs : frugal.toBrokerSettings.Plain :=
    ⟨fun _ => rfl, rfl, by decide +kernel, by decide +kernel, rfl, rfl⟩
  have hbars : ∀ feeds, Op.processOrders feeds ∈ frugalOps → ∀ feed ∈ feeds, ∀ bar, feed.current? = some bar →
      bar.Sane := by
    intro feeds hm feed hfeed bar hbar
    simp only [frugalOps, List.mem_cons, reduceCtorEq, Op.processOrders.injEq, List.not_mem_nil, false_or,
      or_false] at hm
    rcases hm with rfl | rfl <;> rw [List.mem_singleton.1 hfeed] at hbar <;> cases hbar <;>
      exact ⟨by decide +kernel, by decide +kernel, by decide +kernel⟩
  have hsizes : ∀ n ∈ (frugal.run (Listener.silent.hooks 0) frugalOps).journal, notShort n = true := by decide +kernel
  exact ⟨by decide +kernel, cash_nonneg Listener.silent 0 hf hs (by decide +kernel) frugalOps hbars
    fun o turn seen hm => by simpa [notShort] using hsizes _ hm⟩

end BackBroker

end StratForge
