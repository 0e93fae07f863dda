import StratForge.TradeBook
import StratForge.Lockstep

/-!
# Trade notifications

`Hooks.recording` are callbacks that note every trade they are told of and otherwise do what they did
(`run_told`). The broker tells of a trade when it goes to `closedTrades` and at no other time, so the note
is `closedTrades`, whatever the callbacks submit and cancel meanwhile.
-/

namespace StratForge

variable {α W V : Type}

/-- The callbacks, with a note of the trades they are told of. -/
def Hooks.recording (h : Hooks α W) : Hooks α (W × List (Trade α × α)) where
  orderNotify o b :=
    let b' := h.orderNotify o (b.capture b.world.1)
    b'.capture (b'.world, b.world.2)
  tradeNotify t size b :=
    let b' := h.tradeNotify t size (b.capture b.world.1)
    b'.capture (b'.world, b.world.2 ++ [(t, size)])
  preOrderHook side size k b :=
    let (por, world) := h.preOrderHook side size k (b.capture b.world.1)
    (por, world, b.world.2)

namespace BackBroker

/-- The broker, with callbacks that have been told of the closed trades. -/
def told (b : BackBroker α W) : BackBroker α (W × List (Trade α × α)) := b.capture (b.world, b.closedTrades)

/-! ### Callbacks -/

variable [Arith α] {h : Hooks α W}

section
variable (hh : Tame h) (b : BackBroker α W)
include hh

theorem orderNotify_told (o : Order α) : h.recording.orderNotify o b.told = (h.orderNotify o b).told := by
  have hc : (h.orderNotify o b).closedTrades = b.closedTrades := (hh.order o b).quiet.closedTrades
  unfold told
  rw [hc]
  rfl

/-- The callback for a trade that has just been added to the closed ones. -/
theorem tradeNotify_told {t : Trade α} {orig : α} {closed : List (Trade α × α)} (hc : b.closedTrades = closed ++ [(t, orig)]) :
    h.recording.tradeNotify t orig (b.capture (b.world, closed)) = (h.tradeNotify t orig b).told := by
  have hc' : (h.tradeNotify t orig b).closedTrades = closed ++ [(t, orig)] :=
    (hh.trade t orig b).quiet.closedTrades.trans hc
  unfold told
  rw [hc']
  rfl

/-! ### Fills -/

/-- Where a trade goes to the closed ones and is told of. -/
theorem retireTrade_told (i : Nat) (t : Trade α) (orig : α) :
    b.told.retireTrade h.recording i t orig = (b.retireTrade h i t orig).told := by
  let b1 : BackBroker α W :=
    { b with openTrades := b.openTrades.set i (t, orig), closedTrades := b.closedTrades ++ [(t, orig)] }
  have hn : h.recording.tradeNotify t orig (b1.capture (b.world, b.closedTrades)) = (h.tradeNotify t orig b1).told :=
    tradeNotify_told hh b1 rfl
  show ({ h.recording.tradeNotify t orig (b1.capture (b.world, b.closedTrades)) with openTrades := _ } : BackBroker α _) = _
  rw [hn]
  rfl

theorem updateTrades_told (k : Nat) (old s p c : α) (bar : Nat) (dt : DateTime) (cand : Nat) :
    b.told.updateTrades h.recording k old s p c bar dt cand = (b.updateTrades h k old s p c bar dt cand).told := by
  have hget : b.told.openTrades[b.told.openTradeIdx k]? = b.openTrades[b.openTradeIdx k]? := rfl
  unfold updateTrades
  dsimp only
  rw [hget]
  split_ifs
  · rfl
  · rfl
  · cases b.openTrades[b.openTradeIdx k]? with
    | none => rfl
    | some x =>
      obtain ⟨t, orig⟩ := x
      dsimp only
      split_ifs
      · rw [show b.told.openTradeIdx k = b.openTradeIdx k from rfl, retireTrade_told hh]; rfl
      · exact retireTrade_told hh ..
      · rfl

omit [Arith α] hh in
theorem sync_told (i : Nat) : b.told.sync i = (b.sync i).told := by
  unfold sync
  rw [show b.told.pendingOrders = b.pendingOrders from rfl]
  cases b.pendingOrders[i]? <;> rfl

theorem book_told (feed : DataFeed α) (bar : Row α) (i : Nat) (o : Order α) (price : α) :
    b.told.book h.recording feed bar i o price = (b.book h feed bar i o price).told := by
  unfold book
  dsimp only
  rw [← sync_told, ← updateTrades_told hh]
  rfl

end

/-! ### Runs -/

theorem lockstep_told (L : Listener α W) (fuel : Nat) :
    Lockstep (L.hooks fuel) (L.hooks fuel).recording (fun _ => True) (fun _ => False) fun b b' => b' = b.told where
  stays := .never _
  ofLost := False.elim
  capture := by rintro b _ rfl; exact .inr rfl
  frame := by
    rintro b _ b1 rfl hs hw
    show b1.capture (b.world, b.closedTrades) = b1.capture (b1.world, b1.closedTrades)
    rw [hs.closedTrades, hw]
  order := by rintro o b _ rfl; exact orderNotify_told (tame_hooks L fuel) b o
  indexed o b := react_indexed L fuel (.order o) b
  hook := by rintro side size k b _ rfl; exact ⟨.inr rfl, rfl⟩
  book := by
    rintro feed feed' bar i o price b _ rfl hf -
    rw [← book_told (tame_hooks L fuel)]
    unfold book
    rw [hf]

/-- In every run, callbacks that note the trades they are told of do what they did, and are told of the
closed trades. -/
theorem run_told (L : Listener α W) (fuel : Nat) (ops : List (Op α)) (b : BackBroker α W) :
    b.told.run (L.hooks fuel).recording ops = (b.run (L.hooks fuel) ops).told := by
  have hL := lockstep_told L fuel
  refine List.foldl_hom told fun b op => ?_
  cases op with
  | cmd c => exact hL.exec rfl c
  | processOrders feeds => exact hL.processOrders rfl fun _ _ _ _ _ _ => ⟨rfl, trivial⟩
  | setBarIndex k => rfl

/-! ### The book of every run -/

/-- The trades a run tells of. -/
def toldOf (h : Hooks α W) (b : BackBroker α W) (ops : List (Op α)) : List (Trade α × α) :=
  ((b.capture (b.world, [])).run h.recording ops).world.2

/-- Open trades add up to positions, one each, and closed trades are closed. -/
structure TradesMatch (b : BackBroker ℚ W) : Prop where
  one : ∀ k, (b.openOf k).length ≤ 1
  sizes : ∀ k, ((b.openOf k).map (·.1.size)).sum = (b.position k).size
  flat : ∀ k, (b.position k).isFlat → b.openOf k = []
  closed : ∀ x ∈ b.closedTrades, x.1.status = .Closed

theorem Balanced.tradesMatch {b : BackBroker ℚ W} (h : b.Balanced) : b.TradesMatch where
  one k := by
    rcases (h.lots k).cases with ⟨-, -, hnil⟩ | ⟨t, orig, hone, -⟩
    · simp [hnil]
    · simp [hone]
  sizes k := by
    rw [position_size]
    rcases (h.lots k).cases with ⟨-, h0, hnil⟩ | ⟨t, orig, hone, ht⟩
    · simp [hnil, h0]
    · simp [hone, ht.size]
  flat k hflat := by
    have hsmall : |(b.position k).size| < 1e-10 := of_decide_eq_true hflat
    rw [position_size] at hsmall
    rcases (h.lots k).cases with ⟨-, -, hnil⟩ | ⟨t, orig, -, ht⟩
    · exact hnil
    · exact absurd hsmall (not_lt.2 ht.big)
  closed := h.closed

/-- In every run whose fills are clean, the trades match the positions, and each closed trade has been told of
once, as closed. -/
theorem trades_match (L : Listener ℚ W) (fuel : Nat) (b : BackBroker ℚ W) (hf : b.Fresh) (ops : List (Op ℚ))
    (hc : FillsMeet b.instrumentMap Clean (b.run (L.hooks fuel) ops).executions) :
    (b.run (L.hooks fuel) ops).TradesMatch ∧
    toldOf (L.hooks fuel) b ops = (b.run (L.hooks fuel) ops).closedTrades := by
  have hb : Replayed b b ∧ (FillsMeet b.instrumentMap Clean b.executions → b.Balanced) :=
    ⟨.of_fresh hf, fun _ => .of_fresh hf⟩
  refine ⟨(((kept_balanced b).run (tame_hooks L fuel) ops hb).2 hc).tradesMatch, ?_⟩
  have htold : b.capture (b.world, []) = b.told := by rw [told, hf.closedTrades]
  rw [toldOf, htold, run_told L fuel]
  rfl

/-- A position opened, added to and reversed. -/
theorem trades_match_reversal :
    let ops : List (Op ℚ) := [.cmd (.buy 5 0 none .Market 0), .cmd (.buy 2 0 none .Market 0),
      .cmd (.sell 10 0 none .Market 0), .processOrders [.ofBar 10 11 9 10]]
    (funded.run (Listener.silent.hooks 0) ops).TradesMatch ∧
    toldOf (Listener.silent.hooks 0) funded ops = (funded.run (Listener.silent.hooks 0) ops).closedTrades :=
  trades_match Listener.silent 0 funded (fresh_init ..) _ (by decide +kernel)

/-- `AllInSizer`: what the cash buys, or all of the position. -/
def allInSize (b : BackBroker α W) (side : OrderSide) (price : α) (k : Nat) : α :=
  if price ≤ 0 then 0
  else match side with
    | .Buy => b.cash b.baseCcy / price
    | .Sell => Arith.abs (b.position k).size

/-- Selling all of nothing: the trade that this opens is later taken for the one to close. -/
theorem zero_fill_corrupts :
    let b := funded.run (Listener.silent.hooks 0) [.cmd (.sell (funded.allInSize .Sell 10 0) 0 none .Market 0),
      .processOrders [.ofBar 10 11 9 10], .cmd (.buy 5 0 none .Market 0), .cmd (.sell 5 0 none .Market 0),
      .processOrders [.ofBar 10 11 9 10]]
    (b.position 0).isFlat = true ∧ (b.openOf 0).map (·.1.size) = [5, -5] ∧
    b.closedTrades.map (·.1.status) = [.Open] ∧ ¬ b.TradesMatch := by
  intro b
  have hstatus : b.closedTrades.map (·.1.status) = [.Open] := by decide +kernel
  refine ⟨by decide +kernel, by decide +kernel, hstatus, fun h => ?_⟩
  have hmem : TradeStatus.Open ∈ b.closedTrades.map (·.1.status) := by rw [hstatus]; simp
  obtain ⟨x, hx, hst⟩ := List.mem_map.1 hmem
  exact absurd (hst.symm.trans (h.closed x hx)) (by decide)

end BackBroker
end StratForge
