import StratForge.Holdings
import StratForge.TradeBook

/-!
# The ledger

Without instruments, what the cash has lost is what the open trades are worth, less what the closed ones
have earned (`Reconciled`). Each fill keeps it: it charges the cash with what it adds to the worth of the
trades (`Balanced.enter`). With one trade for each position, the value of the portfolio is then the cash it
started with, what has been realized, and what the open trades have gained at the closes.
-/

namespace StratForge

/-- A fill that is not negligible, and neither is what it leaves of the position. -/
def Coarse (size fill : ℚ) : Prop := 1e-10 ≤ |fill| ∧ (size + fill = 0 ∨ 1e-9 ≤ |size + fill|)

instance (size fill : ℚ) : Decidable (Coarse size fill) :=
  inferInstanceAs (Decidable (1e-10 ≤ |fill| ∧ (size + fill = 0 ∨ 1e-9 ≤ |size + fill|)))

theorem Coarse.clean {size fill : ℚ} (h : Coarse size fill) : Clean size fill := by
  refine .inr ⟨h.1, fun hlt => ?_⟩
  rcases h.2 with h0 | hbig
  · rw [eq_neg_of_add_eq_zero_left h0, abs_neg] at hlt
    exact absurd hlt (lt_irrefl _)
  · exact le_trans (by norm_num) hbig

theorem worth_append (l l' : List (Trade ℚ × ℚ)) : worth (l ++ l') = worth l + worth l' := by
  simp [worth]

theorem worth_perm {l l' : List (Trade ℚ × ℚ)} (h : l.Perm l') : worth l = worth l' :=
  (h.map _).sum_eq

namespace BackBroker
variable {W : Type} {b b₀ : BackBroker ℚ W}

/-- What the closed trades have earned. -/
def realized (b : BackBroker ℚ W) : ℚ := (b.closedTrades.map (·.1.pnlcomm)).sum

def Reconciled (b₀ b : BackBroker ℚ W) : Prop :=
  b.cash b.baseCcy = b₀.cash b₀.baseCcy + b.realized + worth b.openTrades

theorem Reconciled.enter (h : Reconciled b₀ b) (hb : b.Balanced) {x : Execution ℚ} (dt : DateTime)
    (hccy : x.currency = b.baseCcy) (hc : Coarse (b.holding x.order.dataIndex).size x.size) :
    Reconciled b₀ (b.enter x dt) := by
  obtain ⟨-, new, closed, hperm, hclosed, hworth⟩ := hb.enter x dt hc.clean
  have hsum := hworth hc.1 (hc.2.imp_right fun hbig => le_trans (by norm_num) hbig)
  have hsplit : worth b.openTrades = worth (b.openOf x.order.dataIndex) + worth (b.openElsewhere x.order.dataIndex) := by
    rw [← worth_append, worth_perm (b.openOf_append_perm x.order.dataIndex)]
  have hbase : (b.enter x dt).baseCcy = b.baseCcy := congrArg BrokerSettings.baseCcy (b.enter_settings x dt)
  have hrealized : (b.enter x dt).realized = b.realized + (closed.map (·.1.pnlcomm)).sum := by
    unfold realized
    rw [hclosed]
    simp
  unfold Reconciled at h ⊢
  rw [hbase, enter_cash, hrealized, worth_perm hperm, worth_append]
  simp only [hccy, if_true]
  linarith

theorem kept_reconciled (b₀ : BackBroker ℚ W) (him : b₀.instrumentMap = fun _ => none) :
    Kept fun b : BackBroker ℚ W => Replayed b₀ b ∧
      (FillsMeet b₀.instrumentMap Coarse b.executions → b.Balanced ∧ Reconciled b₀ b) where
  same b b' hs h := by
    refine ⟨(kept_replayed b₀).same b b' hs h.1, fun hc => ?_⟩
    obtain ⟨hb, hr⟩ := h.2 (hs.executions ▸ hc)
    refine ⟨hs.balanced hb, ?_⟩
    unfold Reconciled realized at hr ⊢
    rw [hs.cash, hs.closedTrades, hs.openTrades, show b'.baseCcy = b.baseCcy from
      congrArg BrokerSettings.baseCcy hs.settings]
    exact hr
  enter b x dt hx h := by
    refine ⟨(kept_replayed b₀).enter b x dt hx h.1, fun hc => ?_⟩
    rw [enter_executions] at hc
    obtain ⟨hbefore, hcoarse⟩ := hc.of_append
    rw [← h.1.holding] at hcoarse
    obtain ⟨hb, hr⟩ := h.2 hbefore
    have hccy : x.currency = b.baseCcy := by
      have : b.instrumentMap = fun _ => none := (congrArg BrokerSettings.instrumentMap h.1.settings).trans him
      rw [hx.currency]
      unfold BrokerSettings.settleCcy
      rw [this]
    exact ⟨(hb.enter x dt hcoarse.clean).1, hr.enter hb dt hccy hcoarse⟩

/-! ### Positions and open trades -/

namespace Balanced
variable (hb : b.Balanced)
include hb

theorem nodup_openTrades : (b.openTrades.map (·.1.dataIndex)).Nodup := by
  rw [List.nodup_iff_count_le_one]
  intro k
  have hone : (b.openOf k).length ≤ 1 := by
    rcases (hb.lots k).cases with ⟨-, -, hnil⟩ | ⟨t, orig, hone, -⟩
    · simp [hnil]
    · simp [hone]
  rw [List.count, List.countP_map, List.countP_eq_length_filter]
  exact hone

/-- Open trades are what is held. -/
theorem held_perm (hf : b.Filed) :
    (b.held.map fun p => (p.dataIndex, p.size)).Perm (b.openTrades.map fun x => (x.1.dataIndex, x.1.size)) := by
  have hheld : (b.held.map (·.dataIndex)).Nodup := hf.nodup.sublist (List.filter_sublist.map _)
  refine (List.perm_ext_iff_of_nodup (.of_map Prod.fst (by rw [List.map_map]; exact hheld))
    (.of_map Prod.fst (by rw [List.map_map]; exact hb.nodup_openTrades))).2 fun ⟨k, size⟩ => ?_
  constructor
  · intro h
    obtain ⟨p, hp, heq⟩ := List.mem_map.1 h
    obtain ⟨hmem, hflat⟩ := List.mem_filter.1 hp
    have hpos := hf.holding_of_mem hmem
    have hl := hb.lots p.dataIndex
    rw [hpos] at hl
    rcases hl.cases with ⟨-, h0, -⟩ | ⟨t, orig, hone, ht⟩
    · simp [Position.isFlat, h0] at hflat
      norm_num at hflat
    · have hin : (t, orig) ∈ b.openTrades := (List.mem_filter.1 (hone ▸ List.mem_singleton_self _)).1
      exact List.mem_map.2 ⟨(t, orig), hin, by rw [← heq, ht.dataIndex, ht.size]⟩
  · intro h
    obtain ⟨⟨t, orig⟩, hin, heq⟩ := List.mem_map.1 h
    have hopen : (t, orig) ∈ b.openOf t.dataIndex := List.mem_filter.2 ⟨hin, by simp⟩
    rcases (hb.lots t.dataIndex).cases with ⟨-, -, hnil⟩ | ⟨t', orig', hone, ht⟩
    · rw [hnil] at hopen; cases hopen
    · rw [hone] at hopen
      cases List.mem_singleton.1 hopen
      obtain ⟨hmem, hk⟩ := Filed.mem_of_holding ht.ne
      refine List.mem_map.2 ⟨b.holding t.dataIndex, List.mem_filter.2 ⟨hmem, ?_⟩, by rw [hk, ← ht.size]; exact heq⟩
      simpa [Position.isFlat] using ht.big

end Balanced

/-- What the open trades have realized, and what they would gain at the marks. -/
theorem sum_openTrades (l : List (Trade ℚ × ℚ)) (mark : Nat → ℚ) :
    worth l + (l.map fun x => x.1.size * mark x.1.dataIndex).sum =
      (l.map fun x => x.1.pnl - x.1.commission).sum + (l.map fun x => x.1.size * (mark x.1.dataIndex - x.1.price)).sum := by
  induction l with
  | nil => simp [worth]
  | cons x l ih =>
    simp only [worth, List.map_cons, List.sum_cons, Trade.worth] at ih ⊢
    linarith

/-- Without instruments, every run of coarse fills reconciles: the cash with the trades, the trades with the
positions, and so the value of the portfolio with what has been realized and what the open trades gain. -/
theorem ledger_reconciles (L : Listener ℚ W) (fuel : Nat) (b : BackBroker ℚ W) (hf : b.Fresh)
    (him : b.instrumentMap = fun _ => none) (ops : List (Op ℚ))
    (hc : FillsMeet b.instrumentMap Coarse (b.run (L.hooks fuel) ops).executions) :
    let b' := b.run (L.hooks fuel) ops
    b'.cash b'.baseCcy = b.cash b.baseCcy + b'.realized + worth b'.openTrades ∧
    (∀ k, (b'.openOf k).length ≤ 1 ∧ ∀ x ∈ b'.openOf k,
      x.1.size = (b'.position k).size ∧ x.1.price = (b'.position k).avgPrice) ∧
    ∀ feeds (mark : Nat → ℚ), (∀ x ∈ b'.openTrades, MarkedAt feeds x.1.dataIndex (mark x.1.dataIndex)) →
      b'.portfolioValue feeds = .ok (b.cash b.baseCcy +
        (b'.realized + (b'.openTrades.map fun x => x.1.pnl - x.1.commission).sum) +
        (b'.openTrades.map fun x => x.1.size * (mark x.1.dataIndex - x.1.price)).sum) := by
  intro b'
  have hstart : Reconciled b b := by simp [Reconciled, realized, worth, hf.closedTrades, hf.openTrades]
  obtain ⟨hrep, hkept⟩ := (kept_reconciled b him).run (tame_hooks L fuel) ops
    ⟨.of_fresh hf, fun _ => ⟨.of_fresh hf, hstart⟩⟩
  obtain ⟨hb, hcash⟩ := hkept hc
  have hfiled : b'.Filed := kept_filed.run (tame_hooks L fuel) ops (.of_fresh hf)
  refine ⟨hcash, fun k => ?_, fun feeds mark hm => ?_⟩
  · have havg : (b'.position k).avgPrice = (b'.holding k).avgPrice := by
      unfold position holding
      cases b'.findPosition k <;> rfl
    rw [position_size, havg]
    rcases (hb.lots k).cases with ⟨-, -, hnil⟩ | ⟨t, orig, hone, ht⟩
    · rw [show b'.openOf k = [] from hnil]
      simp
    · rw [show b'.openOf k = [(t, orig)] from hone]
      refine ⟨le_rfl, fun x hx => ?_⟩
      rw [List.mem_singleton.1 hx]
      exact ⟨ht.size, ht.avgPrice⟩
  · have hperm := hb.held_perm hfiled
    have hmarks : ∀ p ∈ b'.held, MarkedAt feeds p.dataIndex (mark p.dataIndex) := by
      intro p hp
      obtain ⟨x, hx, heq⟩ := List.mem_map.1 (hperm.subset (List.mem_map_of_mem hp))
      rw [← show x.1.dataIndex = p.dataIndex from congrArg Prod.fst heq]
      exact hm x hx
    have hworth : ∀ p ∈ b'.held, p.worth (mark p.dataIndex) = p.size * mark p.dataIndex := by
      intro p hp
      have : p.instrument = none := by
        rw [hfiled.instrument p (List.mem_filter.1 hp).1,
          show b'.instrumentMap = b.instrumentMap from congrArg BrokerSettings.instrumentMap hrep.settings, him]
      rw [Position.worth, this]
    have hsum := (hperm.map fun kv : Nat × ℚ => kv.2 * mark kv.1).sum_eq
    simp only [List.map_map, Function.comp_def] at hsum
    have htrades := sum_openTrades b'.openTrades mark
    rw [portfolioValue_eq hmarks, List.map_congr_left hworth, hsum]
    have hcash : b'.cash b'.baseCcy = _ := hcash
    rw [hcash]
    congr 1
    linarith

/-- A position that is opened, reduced and reversed. -/
theorem ledger_reconciles_reversal :
    let b' := funded.run (Listener.silent.hooks 0) [.cmd (.buy 5 0 none .Market 0), .cmd (.sell 2 0 none .Market 0),
      .cmd (.sell 10 0 none .Market 0), .processOrders [.ofBar 10 11 9 10]]
    b'.cash b'.baseCcy = 1000 + b'.realized + worth b'.openTrades :=
  (ledger_reconciles Listener.silent 0 funded (fresh_init ..) rfl _ (by decide +kernel)).1

/-- A fill that the trade ignores and the position does not. -/
theorem small_fill_is_not_reconciled :
    let b' := funded.run (Listener.silent.hooks 0) [.cmd (.buy 5 0 none .Market 0), .cmd (.buy 1e-11 0 none .Market 0),
      .processOrders [.ofBar 10 11 9 10]]
    FillsMeet (fun _ => none) (fun size fill => fill ≠ 0 ∧ (size + fill = 0 ∨ 1e-9 ≤ |size + fill|)) b'.executions ∧
    b'.openTrades.map (·.1.size) = [5] ∧ (b'.position 0).size = 5 + 1e-11 ∧
    b'.cash b'.baseCcy ≠ 1000 + b'.realized + worth b'.openTrades := by
  decide +kernel

end BackBroker
end StratForge
