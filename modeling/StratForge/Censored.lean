import StratForge.EveryOutcome

/-!
# The record of an open trade (`corrective/candidate_collector.hpp`)

At the end of a run the collector records every open trade that has a candidate as if it were sold at the close. It
takes the open part of the trade alone: what the trade has realized before, in partial closes, is left out. So the record
is what liquidating the trade gives if and only if the trade has realized nothing (`censored_liquidates_iff`), as in every
run in which no fill takes a part of a position (`realized_nothing`).
-/

namespace StratForge
variable {α V W : Type}

/-! ### What a trade has realized -/

/-- A clean fill that does not leave a smaller position of the same side. -/
def Whole (size fill : ℚ) : Prop :=
  Clean size fill ∧ ((0 < size ∧ 0 < fill) ∨ (size < 0 ∧ fill < 0) ∨ |size + fill| < 1e-10 ∨ |size| < |fill|)

instance (size fill : ℚ) : Decidable (Whole size fill) := inferInstanceAs (Decidable (_ ∧ _))

namespace Trade

theorem pnl_fresh (id k cand : Nat) (s p c : ℚ) (bar : Nat) (dt : DateTime) :
    ((fresh id k cand).update s p c bar dt).pnl = 0 := by
  by_cases hs : Arith.abs s < 1e-10
  · rw [update_negligible _ s p c bar dt hs]
    rfl
  · refine (updated _ s p c bar dt hs).pnl.trans ?_
    split
    · rfl
    · exact if_neg (show ¬ (1e-10 : ℚ) ≤ |0| by norm_num)

end Trade

namespace BackBroker
variable {b b₀ : BackBroker ℚ W} {k : Nat} {pos : Position ℚ} {s p c : ℚ}

def RealizedNothing (b : BackBroker ℚ W) : Prop := ∀ x ∈ b.openTrades, x.1.pnl = 0

theorem RealizedNothing.opens (h : b.RealizedNothing) (k : Nat) (s p c : ℚ) (bar : Nat) (dt : DateTime) (cand : Nat) :
    (b.openTrade k s p c bar dt cand).RealizedNothing := by
  intro x hx
  rcases List.mem_append.1 (show x ∈ b.openTrades ++ [_] from hx) with hx | hx
  · exact h x hx
  · rw [List.mem_singleton.1 hx]
    exact Trade.pnl_fresh ..

theorem RealizedNothing.retires (h : b.RealizedNothing) (i : Nat) (t : Trade ℚ) (orig : ℚ) :
    (b.retireTrade Hooks.none i t orig).RealizedNothing := by
  intro x hx
  have hx : x ∈ (b.openTrades.set i (t, orig)).eraseIdx i := hx
  rw [List.eraseIdx_set_eq] at hx
  exact h x (List.mem_of_mem_eraseIdx hx)

/-- Such a fill realizes nothing in a trade that stays open. -/
theorem RealizedNothing.updateTrades (h : b.RealizedNothing) (hl : Lots k pos (b.openOf k)) (hw : Whole pos.size s)
    (p c : ℚ) (bar : Nat) (dt : DateTime) (cand : Nat) :
    (b.updateTrades Hooks.none k pos.size s p c bar dt cand).RealizedNothing := by
  have hlot : ¬ Arith.abs pos.size < 1e-10 → ∃ t orig, b.openTrades[b.openTradeIdx k]? = some (t, orig) ∧ OneLot k pos t := by
    intro hflat
    rcases hl.cases with ⟨-, h0, -⟩ | ⟨t, orig, hone, ht⟩
    · exact absurd (by rw [h0, Arith.abs_rat, abs_zero]; norm_num) hflat
    · obtain ⟨l, l', hlist, hidx, -⟩ := openTradeIdx_of_openOf hone ht.status
      exact ⟨t, orig, by rw [hidx, hlist]; simp, ht⟩
  unfold BackBroker.updateTrades
  dsimp only
  split_ifs with hflat hside
  · exact h.opens _ _ _ _ _ _ _
  · obtain ⟨t, orig, hget, ht⟩ := hlot hflat
    intro x hx
    rcases Fold.mem_modify hx with hx | ⟨y, hy, rfl⟩
    · exact h x hx
    · rw [hget, Option.some.injEq] at hy
      subst hy
      have hs : ¬ Arith.abs s < 1e-10 := by
        rcases hw.1 with ⟨rfl, -⟩ | ⟨hs, -⟩
        · simp at hside
        · exact not_lt.2 hs
      obtain ⟨-, -, -, hpnl⟩ := (Trade.updated t s p c bar dt hs).grows (ht.size ▸ ht.big) (ht.size ▸ hside)
      exact hpnl.trans (h _ (List.mem_of_getElem? hget))
  · obtain ⟨t, orig, hget, ht⟩ := hlot hflat
    rw [hget]
    dsimp only
    split_ifs with hflip hclosed
    · exact (h.retires _ _ _).opens _ _ _ _ _ _ _
    · exact h.retires _ _ _
    · -- it would have to close the trade
      exfalso
      rw [ht.size] at hflip
      have hle : |s| ≤ |pos.size| := not_lt.1 hflip
      rcases hw.2 with hsame | hsame | hsmall | hbeyond
      · exact hside (Or.inl hsame)
      · exact hside (Or.inr hsame)
      · have hs : 1e-10 ≤ |s| := by
          rcases hw.1 with ⟨rfl, hbig⟩ | ⟨hs, -⟩
          · rw [add_zero] at hsmall
            exact absurd hsmall (not_lt.2 hbig)
          · exact hs
        have hopp := opposite_of ht.ne (abs_pos.1 (lt_of_lt_of_le (by norm_num) hs)) hside
        obtain ⟨-, -, -, hcloses⟩ := ht.shrinks p c hs hopp hle bar dt
        exact hclosed (decide_eq_true (hcloses hsmall).1)
      · exact absurd hbeyond (not_lt.2 hle)

/-- In a run of whole fills nothing is realized in a trade that is open. -/
theorem kept_realizedNothing (b₀ : BackBroker ℚ W) : Kept fun b : BackBroker ℚ W =>
    Replayed b₀ b ∧ (FillsMeet b₀.instrumentMap Whole b.executions → b.Balanced ∧ b.RealizedNothing) where
  same b b' hs h := by
    refine ⟨(kept_replayed b₀).same b b' hs h.1, fun hc => ?_⟩
    obtain ⟨hbal, hpnl⟩ := h.2 (hs.executions ▸ hc)
    refine ⟨hs.balanced hbal, ?_⟩
    unfold RealizedNothing
    rw [hs.openTrades]
    exact hpnl
  enter b x dt hx h := by
    refine ⟨(kept_replayed b₀).enter b x dt hx h.1, fun hc => ?_⟩
    rw [enter_executions] at hc
    obtain ⟨hbefore, hwhole⟩ := hc.of_append
    rw [← h.1.holding] at hwhole
    obtain ⟨hbal, hpnl⟩ := h.2 hbefore
    refine ⟨(hbal.enter x dt hwhole.1).1, ?_⟩
    rw [enter_eq_updateTrades]
    let b' : BackBroker ℚ W := (((b.pay x.currency (x.size * x.price + x.commission)).ensurePosition
      x.order.dataIndex).updatePosition x.order.dataIndex x.size x.price).note (.executed x)
    have hpnl : b'.RealizedNothing := hpnl
    exact hpnl.updateTrades (hbal.lots x.order.dataIndex) hwhole _ _ _ _ _

end BackBroker

/-! ### The record -/

theorem forall₂_iff_of_iff {β γ : Type} {R : β → γ → Prop} {P : β → Prop} {l : List β} {l' : List γ}
    (h : List.Forall₂ (fun x y => R x y ↔ P x) l l') : List.Forall₂ R l l' ↔ ∀ x ∈ l, P x := by
  induction h with
  | nil => simp
  | cons hxy _ ih => rw [List.forall₂_cons, List.forall_mem_cons, hxy, ih]

namespace Collector
variable [Floating ℚ]

/-- The record gives what selling the trade at the close would. -/
structure Liquidates (feeds : List (DataFeed ℚ)) (t : Trade ℚ) (r : OutcomeRecord ℚ) : Prop where
  gross : ∃ close, closeAt feeds t.dataIndex 0 = .ok close ∧ r.grossPnl = t.pnl + t.size * (close - t.entryPrice)
  net : r.netPnl = r.grossPnl - t.commission

omit [Floating ℚ] in
theorem censorTrade_liquidates_iff {feeds : List (DataFeed ℚ)} {t : Trade ℚ} {r : OutcomeRecord ℚ}
    (h : censorTrade feeds t = .ok r) : r.candidateId = t.candidateId ∧ r.outcomeType = .kCensored ∧
      (Liquidates feeds t r ↔ t.pnl = 0) := by
  obtain ⟨close, hclose, h⟩ := bind_eq_ok.1 h
  obtain ⟨ts, -, h⟩ := bind_eq_ok.1 h
  cases h
  refine ⟨rfl, rfl, fun hl => ?_, fun h0 => ⟨⟨close, hclose, ?_⟩, rfl⟩⟩
  · obtain ⟨close', hclose', hgross⟩ := hl.gross
    rw [hclose] at hclose'
    cases hclose'
    dsimp only at hgross
    linarith
  · rw [h0, zero_add, mul_comm]

/-- The open trades that have a candidate. -/
def candidateTrades {W : Type} (broker : BackBroker ℚ W) : List (Trade ℚ × ℚ) :=
  broker.openTrades.filter fun (t, _) => t.isOpen && t.candidateId != 0

omit [Floating ℚ] in
/-- `on_stop`: one record for each of them, in their order. -/
theorem onStop_liquidates_iff {W : Type} {cl cl' : Collector ℚ} {feeds : List (DataFeed ℚ)} {broker : BackBroker ℚ W}
    (h : cl.onStop feeds broker = .ok cl') (hon : cl.isEnabled = true) :
    ∃ censored shadows, cl'.outcomes = cl.outcomes ++ censored ++ shadows ∧
      List.Forall₂ (fun x r => r.candidateId = x.1.candidateId ∧ r.outcomeType = .kCensored ∧
        (Liquidates feeds x.1 r ↔ x.1.pnl = 0)) (candidateTrades broker) censored := by
  unfold onStop at h
  rw [hon, if_neg (by simp)] at h
  obtain ⟨censored, hcensored, h⟩ := bind_eq_ok.1 h
  obtain ⟨shadows, -, h⟩ := bind_eq_ok.1 h
  cases h
  exact ⟨censored, shadows, rfl, (Fold.mapM_ok hcensored).imp fun x r hr => censorTrade_liquidates_iff hr⟩

end Collector

namespace Cerebro
variable [Floating ℚ] (c : Cerebro ℚ V) {feeds : DataFeed ℚ × List (DataFeed ℚ)}

/-- At the end of every run: the records of the open trades are what liquidating them gives if and only if none of them
has realized anything, as when no fill has taken a part of a position. -/
theorem censored_liquidates_iff (config : CollectorConfig ℚ)
    (infer : Option (Nat → Vector ℚ kPopFeatureCountV1 → ℚ → InferenceResult ℚ)) {b : BackBroker ℚ V} (hb : b.Fresh)
    {e : CerebroState ℚ (V × Collector ℚ)}
    (hrun : c.collecting.run feeds (b.capture (b.world, .start config infer (feeds.2.length + 1))) = .ok e)
    (hon : e.broker.world.2.isEnabled = true) {cl : Collector ℚ}
    (hstop : e.broker.world.2.onStop e.clock.feeds e.broker = .ok cl) :
    ∃ censored shadows, cl.outcomes = e.broker.world.2.outcomes ++ censored ++ shadows ∧
      List.Forall₂ (fun x r => r.candidateId = x.1.candidateId ∧ r.outcomeType = .kCensored)
        (Collector.candidateTrades e.broker) censored ∧
      (List.Forall₂ (fun x r => Collector.Liquidates e.clock.feeds x.1 r) (Collector.candidateTrades e.broker) censored ↔
        ∀ x ∈ Collector.candidateTrades e.broker, x.1.pnl = 0) ∧
      (BackBroker.FillsMeet b.instrumentMap Whole e.broker.executions →
        ∀ x ∈ Collector.candidateTrades e.broker, x.1.pnl = 0) := by
  obtain ⟨censored, shadows, hout, hall⟩ := Collector.onStop_liquidates_iff hstop hon
  have hiff := hall.imp fun x r hr => hr.2.2
  refine ⟨censored, shadows, hout, hall.imp fun x r hr => ⟨hr.1, hr.2.1⟩, forall₂_iff_of_iff hiff, fun hwhole x hx => ?_⟩
  have hx : x ∈ e.broker.openTrades := (List.mem_filter.1 hx).1
  unfold run at hrun
  split_ifs at hrun with hsize
  · -- no bar was dispatched, and no trade opened
    cases hrun
    have hx : x ∈ b.openTrades := hx
    rw [hb.openTrades] at hx
    cases hx
  · let b₀ := b.capture (b.world, Collector.start config infer (feeds.2.length + 1))
    have hfresh : b₀.Fresh := ⟨hb.nextOrderId, hb.allOrders, hb.pendingOrders, hb.positions, hb.openTrades, hb.closedTrades,
      hb.turn, hb.journal⟩
    have hnothing : b₀.RealizedNothing := fun y hy => by
      rw [hfresh.openTrades] at hy
      cases hy
    obtain ⟨-, hbooks⟩ := kept_upTo (BackBroker.kept_realizedNothing b₀) ⟨.of_fresh hfresh, fun _ => ⟨.of_fresh hfresh, hnothing⟩⟩
      (le_refl _) hrun
    exact (hbooks hwhole).2 x hx

end Cerebro

/-- It buys two, and sells one of them as soon as it holds both. -/
def sellsOneOfTwo : Cerebro ℚ Unit :=
  { Cerebro.silent with
    call := fun _ _ _ b => ((), if b.nextOrderId = 1 then some (.buy 2 0 none .Market 0) else
      if b.nextOrderId = 2 ∧ (b.holding 0).size = 2 then some (.sell 1 0 none .Market 0) else none)
    fuel := 3 }

/-- Three minutes of a price that rises. -/
def rising : DataFeed ℚ × List (DataFeed ℚ) :=
  ({ lines := { data := [⟨0, 1, 1, 1, 1, 1, 0⟩, ⟨60 * nsPerSecond, 3, 3, 3, 3, 1, 0⟩, ⟨120 * nsPerSecond, 5, 5, 5, 5, 1, 0⟩] },
     timeframe := ⟨.Minutes, 1⟩ }, [])

/-- The run of `sellsOneOfTwo`, with a collector. -/
def soldOneOfTwo : Except Error (CerebroState ℚ (Unit × Collector ℚ)) :=
  sellsOneOfTwo.collecting.run rising
    ((BackBroker.init .USD 1000 none ()).capture ((), Collector.start collecting none (rising.2.length + 1)))

/-- The trade has realized 2, and is worth 4 more at the close. The record has the 4 alone. -/
theorem sold_without_realized : soldOneOfTwo.toOption.bind (fun e =>
      (e.broker.world.2.onStop e.clock.feeds e.broker).toOption.map fun cl => (e.broker.world.2.isEnabled,
        (Collector.candidateTrades e.broker).map (·.1.pnl), cl.outcomes.map (·.grossPnl))) = some (true, [2], [4]) := by
  decide +kernel

theorem not_censored_liquidates : ¬ ∀ (e : CerebroState ℚ (Unit × Collector ℚ)) (cl : Collector ℚ),
    soldOneOfTwo = .ok e → e.broker.world.2.onStop e.clock.feeds e.broker = .ok cl →
    ∀ x ∈ Collector.candidateTrades e.broker, ∀ r ∈ cl.outcomes, r.candidateId = x.1.candidateId →
      Collector.Liquidates e.clock.feeds x.1 r := by
  intro hclaim
  obtain ⟨e, he⟩ := isOk_eq_true (r := soldOneOfTwo) (by decide +kernel)
  have hsold := sold_without_realized
  rw [he] at hsold
  cases hcl : e.broker.world.2.onStop e.clock.feeds e.broker with
  | error err =>
    simp [Except.toOption, hcl] at hsold
  | ok cl =>
    simp only [Except.toOption, hcl, Option.bind_some, Option.map_some, Option.some.injEq, Prod.mk.injEq] at hsold
    obtain ⟨hon, hpnls, -⟩ := hsold
    obtain ⟨x, hx, hpnl⟩ := List.map_eq_singleton_iff.1 hpnls
    obtain ⟨censored, shadows, hout, hall⟩ := Collector.onStop_liquidates_iff hcl hon
    rw [hx] at hall
    obtain ⟨r, l, ⟨hid, -, hiff⟩, -, rfl⟩ := List.forall₂_cons_left_iff.1 hall
    have hzero := hiff.1 (hclaim e cl he hcl x (by simp [hx]) r (by simp [hout]) hid)
    rw [hpnl] at hzero
    norm_num at hzero

theorem censored_liquidates_iff_sold : ∃ e cl, soldOneOfTwo = .ok e ∧ e.broker.world.2.onStop e.clock.feeds e.broker = .ok cl ∧
    ∃ censored shadows, cl.outcomes = e.broker.world.2.outcomes ++ censored ++ shadows ∧
      List.Forall₂ (fun x r => r.candidateId = x.1.candidateId ∧ r.outcomeType = .kCensored)
        (Collector.candidateTrades e.broker) censored ∧
      (List.Forall₂ (fun x r => Collector.Liquidates e.clock.feeds x.1 r) (Collector.candidateTrades e.broker) censored ↔
        ∀ x ∈ Collector.candidateTrades e.broker, x.1.pnl = 0) ∧
      (BackBroker.FillsMeet (fun _ => none) Whole e.broker.executions →
        ∀ x ∈ Collector.candidateTrades e.broker, x.1.pnl = 0) := by
  obtain ⟨e, he⟩ := isOk_eq_true (r := soldOneOfTwo) (by decide +kernel)
  have hstop : soldOneOfTwo.toOption.all (fun e =>
      e.broker.world.2.isEnabled && (e.broker.world.2.onStop e.clock.feeds e.broker).toOption.isSome) = true := by
    decide +kernel
  rw [he] at hstop
  obtain ⟨hon, hstop⟩ := Bool.and_eq_true_iff.1 hstop
  obtain ⟨cl, hcl⟩ := isOk_eq_true hstop
  exact ⟨e, cl, he, hcl, sellsOneOfTwo.censored_liquidates_iff collecting none (BackBroker.fresh_init ..) he hon hcl⟩

end StratForge
