import StratForge.EveryOutcome
import StratForge.FillNotices

/-!
# The marks of buys and sells (`observers/buy_sell.hpp`)

An observer hears of orders and trades behind everything else and is called at the end of a bar. `BuySellObserver` gathers
the prices of completed orders and writes a mark for each side and bar. In every run the marks of a bar are those of the fills
that the broker has on its books for that bar (`buySell_upTo`).
-/

namespace StratForge

variable {α W X : Type}

/-- `Observer`: what its methods do to its members. An exception of `next` ends the run. -/
structure Observer (α X : Type) where
  start : X → X
  /-- `notify_order` and `notify_trade`. -/
  notify : Event α → X → X
  next : BackBroker α X → List (DataFeed α) → X → Except Error X

/-- The engine `c` with the observer behind everything else; what is captured holds the exception of the observer, if there
has been one. -/
def Cerebro.observed (c : Cerebro α W) (o : Observer α X) : Cerebro α (W × Except Error X) :=
  { listener := fun clock =>
      { act := fun ev b =>
          let (w, cmd) := (c.listener clock).act ev (b.capture b.world.1)
          match cmd with
          | none => ((w, b.world.2.map (o.notify ev)), none)
          | some cmd => ((w, b.world.2), some cmd)
        preOrderHook := fun side size dataIndex b =>
          let (por, w) := (c.listener clock).preOrderHook side size dataIndex (b.capture b.world.1)
          (por, (w, b.world.2)) }
    strategies := c.strategies
    call := fun ph clock si b =>
      let (w, cmd) := c.call ph clock si (b.capture b.world.1)
      ((w, b.world.2), cmd)
    minimumPeriod := fun w => c.minimumPeriod w.1
    opening := fun w => (c.opening w.1, w.2.map o.start)
    closing := fun bar clock b =>
      (c.closing bar clock (b.capture b.world.1), b.world.2.bind fun x => o.next (b.capture x) clock.feeds x)
    fuel := c.fuel }

/-! ### The observer -/

structure BuySellConfig (α : Type) where
  barplot : Bool
  bardist : α
  dataIndex : Nat

structure BuySellObserver (α : Type) extends BuySellConfig α where
  pendingBuys : List α := []
  pendingSells : List α := []
  buy : Line α := {}
  sell : Line α := {}

namespace BuySellObserver

def pending (s : BuySellObserver α) : OrderSide → List α
  | .Buy => s.pendingBuys
  | .Sell => s.pendingSells

def line (s : BuySellObserver α) : OrderSide → Line α
  | .Buy => s.buy
  | .Sell => s.sell

def start (s : BuySellObserver α) : BuySellObserver α := { s with pendingBuys := [], pendingSells := [] }

variable [Arith α]

/-- The orders whose price is taken. -/
def heeds (config : BuySellConfig α) (order : Order α) : Bool :=
  order.status = .Completed && !(order.executedSize == 0) && order.dataIndex == config.dataIndex

def notifyOrder (order : Order α) (s : BuySellObserver α) : BuySellObserver α :=
  if heeds s.toBuySellConfig order then
    match order.side with
    | .Buy => { s with pendingBuys := s.pendingBuys ++ [order.executedPrice] }
    | .Sell => { s with pendingSells := s.pendingSells ++ [order.executedPrice] }
  else s

def average (values : List α) : α := values.foldl (· + ·) 0 / Arith.ofCount values.length

/-- Below the low for buys, above the high for sells. -/
def barPrice (config : BuySellConfig α) (feed : DataFeed α) : OrderSide → Except Error α
  | .Buy => return (← feed.low.at' 0) * (1 - config.bardist)
  | .Sell => return (← feed.high.at' 0) * (1 + config.bardist)

/-- What is written for a side on a bar. -/
def mark [Floating α] (config : BuySellConfig α) (side : OrderSide) (feeds : List (DataFeed α)) (pending : List α) :
    Except Error α :=
  if pending.isEmpty then .ok Floating.nan
  else if config.barplot then
    match feeds[config.dataIndex]? with
    | some feed => barPrice config feed side
    | none => .ok (average pending)
  else .ok (average pending)

def next [Floating α] (feeds : List (DataFeed α)) (s : BuySellObserver α) : Except Error (BuySellObserver α) := do
  let buyValue ← mark s.toBuySellConfig .Buy feeds s.pendingBuys
  let sellValue ← mark s.toBuySellConfig .Sell feeds s.pendingSells
  return { s with buy := s.buy.forward buyValue, sell := s.sell.forward sellValue, pendingBuys := [], pendingSells := [] }

def observer [Floating α] : Observer α (BuySellObserver α) where
  start := start
  notify
    | .order order => notifyOrder order
    | .trade _ _ => id
  next _ feeds := next feeds

/-- The prices of the fills of a bar that are taken for a side, in the order of the books. -/
def prices (config : BuySellConfig α) (xs : List (Execution α)) (side : OrderSide) (bar : Nat) : List α :=
  (xs.filter fun x => x.barIndex == bar && heeds config x.order && x.order.side = side).map fun x => x.order.executedPrice

/-! ### One fill, one notification -/

theorem prices_append (config : BuySellConfig α) (xs : List (Execution α)) (x : Execution α) (side : OrderSide) (bar : Nat) :
    prices config (xs ++ [x]) side bar = prices config xs side bar ++
      if x.barIndex == bar && heeds config x.order && x.order.side = side then [x.order.executedPrice] else [] := by
  unfold prices
  rw [List.filter_append, List.map_append]
  congr 1
  cases hx : (x.barIndex == bar && heeds config x.order && decide (x.order.side = side)) <;> simp [hx]

theorem heeds_of_filling {o o' : Order α} (config : BuySellConfig α) (h : o'.filling = o.filling) :
    heeds config o' = heeds config o := by
  injection h with hstatus h
  injection h with hside h
  injection h with hdata h
  injection h with hprice hsize
  unfold heeds
  rw [hstatus, hdata, hsize]

theorem not_heeds {o : Order α} (config : BuySellConfig α) (h : o.status ≠ .Completed) : heeds config o = false := by
  unfold heeds
  rw [decide_eq_false h]
  rfl

theorem notifyOrder_quiet {o : Order α} (h : o.status ≠ .Completed) (s : BuySellObserver α) : s.notifyOrder o = s := by
  unfold notifyOrder
  rw [not_heeds _ h]
  rfl

/-- The price of the fill is taken for its side. -/
theorem pending_notifyOrder (s : BuySellObserver α) {o : Order α} {x : Execution α} (h : o.filling = x.order.filling)
    (side : OrderSide) : (s.notifyOrder o).pending side = s.pending side ++
      if heeds s.toBuySellConfig x.order && x.order.side = side then [x.order.executedPrice] else [] := by
  have hheeds := heeds_of_filling s.toBuySellConfig h
  injection h with hstatus h
  injection h with hside h
  injection h with hdata h
  injection h with hprice hsize
  unfold notifyOrder
  rw [hheeds, hside, hprice]
  cases heeds s.toBuySellConfig x.order with
  | false => simp
  | true => cases x.order.side <;> cases side <;> simp [pending]

theorem notifyOrder_rest (s : BuySellObserver α) (o : Order α) :
    (s.notifyOrder o).toBuySellConfig = s.toBuySellConfig ∧ ∀ side, (s.notifyOrder o).line side = s.line side := by
  unfold notifyOrder
  split_ifs
  · cases o.side <;> exact ⟨rfl, fun side => by cases side <;> rfl⟩
  · exact ⟨rfl, fun _ => rfl⟩

end BuySellObserver

/-! ### Runs -/

namespace Cerebro
section
variable (c : Cerebro α W) (o : Observer α X)

/-- Every callback on a completed order is done before the fuel is spent. -/
def FillCallbacksEnd [Arith α] : Prop :=
  ∀ clock (order : Order α) b, order.status = .Completed → ((c.observed o).listener clock).Ends c.fuel (.order order) b

/-- The observer hears of an event when everything else is done with it. -/
theorem act_observed (clock : Clock α) (ev : Event α) (b : BackBroker α (W × Except Error X)) :
    ((((c.observed o).listener clock).act ev b).2 ≠ none → (((c.observed o).listener clock).act ev b).1.2 = b.world.2) ∧
    ((((c.observed o).listener clock).act ev b).2 = none →
      (((c.observed o).listener clock).act ev b).1.2 = b.world.2.map (o.notify ev)) := by
  unfold observed
  dsimp only
  split
  · exact ⟨fun h => absurd rfl h, fun _ => rfl⟩
  · exact ⟨fun _ => rfl, fun h => absurd h (Option.some_ne_none _)⟩

end

variable [Arith α] [Floating α] {c : Cerebro α W} {config : BuySellConfig α} {view : Nat → List (DataFeed α) → Prop}
  {n : Nat} {xs : List (Execution α)}
open BuySellObserver

/-- The line of a side has the marks of so many bars. -/
structure Marks (config : BuySellConfig α) (view : Nat → List (DataFeed α) → Prop) (xs : List (Execution α))
    (side : OrderSide) (n : Nat) (line : Line α) : Prop where
  length : line.data.length = n
  mark : ∀ m < n, ∃ feeds v, view m feeds ∧ line.data[m]? = some v ∧
    mark config side feeds (prices config xs side m) = .ok v

/-- Bar `n` has not been written yet, and what is pending are its fills. -/
structure Marked (config : BuySellConfig α) (view : Nat → List (DataFeed α) → Prop) (n : Nat) (xs : List (Execution α))
    (s : BuySellObserver α) : Prop where
  same : s.toBuySellConfig = config
  pending : ∀ side, s.pending side = prices config xs side n
  lines : ∀ side, Marks config view xs side n (s.line side)

theorem Marks.append {side : OrderSide} {line : Line α} (h : Marks config view xs side n line) {x : Execution α}
    (hx : x.barIndex = n) : Marks config view (xs ++ [x]) side n line := by
  refine ⟨h.length, fun m hm => ?_⟩
  have hother : (x.barIndex == m) = false := by simp [hx, hm.ne']
  rw [prices_append, hother, Bool.false_and, Bool.false_and, if_neg Bool.false_ne_true, List.append_nil]
  exact h.mark m hm

/-- The observer is told of a fill. -/
theorem Marked.notifyOrder {s : BuySellObserver α} (h : Marked config view n xs s) {x : Execution α} {o : Order α}
    (hx : x.barIndex = n) (ho : o.filling = x.order.filling) : Marked config view n (xs ++ [x]) (s.notifyOrder o) := by
  obtain ⟨hconfig, hline⟩ := s.notifyOrder_rest o
  refine ⟨hconfig.trans h.same, fun side => ?_, fun side => ?_⟩
  · rw [pending_notifyOrder s ho, h.pending, prices_append, h.same, beq_iff_eq.2 hx, Bool.true_and]
  · rw [hline]
    exact (h.lines side).append hx

theorem Marked.unheard {s : BuySellObserver α} (h : Marked config view n xs s) {x : Execution α} (hx : x.barIndex = n)
    (hstatus : x.order.status ≠ .Completed) : Marked config view n (xs ++ [x]) s := by
  refine ⟨h.same, fun side => ?_, fun side => (h.lines side).append hx⟩
  rw [prices_append, not_heeds config hstatus, Bool.and_false, Bool.false_and, if_neg Bool.false_ne_true, List.append_nil]
  exact h.pending side

omit [Floating α] in
/-- Nothing has been filled on a bar yet. -/
theorem prices_later (config : BuySellConfig α) (hxs : ∀ x ∈ xs, x.barIndex < n) (side : OrderSide) :
    prices config xs side n = [] := by
  unfold prices
  rw [List.map_eq_nil_iff, List.filter_eq_nil_iff]
  intro x hx
  simp [(hxs x hx).ne]

/-- The end of a bar. -/
theorem Marked.next {s s' : BuySellObserver α} (h : Marked config view n xs s) (hxs : ∀ x ∈ xs, x.barIndex ≤ n)
    {feeds : List (DataFeed α)} (hview : view n feeds) (hnext : s.next feeds = .ok s') : Marked config view (n + 1) xs s' := by
  obtain ⟨buyValue, hbuy, hnext⟩ := bind_eq_ok.1 hnext
  obtain ⟨sellValue, hsell, hnext⟩ := bind_eq_ok.1 hnext
  obtain rfl := Except.ok.inj hnext
  have hlater : ∀ side, prices config xs side (n + 1) = [] := prices_later config fun x hx => Nat.lt_succ_of_le (hxs x hx)
  have hforward : ∀ {side : OrderSide} {line : Line α} {v : α}, Marks config view xs side n line →
      mark config side feeds (prices config xs side n) = .ok v → Marks config view xs side (n + 1) (line.forward v) := by
    intro side line v hline hv
    refine ⟨?_, fun m hm => ?_⟩
    · show (line.data ++ [v]).length = n + 1
      rw [List.length_append, hline.length]
      rfl
    · show ∃ feeds w, view m feeds ∧ (line.data ++ [v])[m]? = some w ∧ _
      rcases Nat.lt_succ_iff_lt_or_eq.1 hm with hm | rfl
      · obtain ⟨fs, w, hfs, hw, hmark⟩ := hline.mark m hm
        exact ⟨fs, w, hfs, by rw [List.getElem?_append_left (hline.length ▸ hm), hw], hmark⟩
      · refine ⟨feeds, v, hview, ?_, hv⟩
        rw [List.getElem?_append_right hline.length.le, hline.length, Nat.sub_self]
        rfl
  have hbuys : s.pendingBuys = prices config xs .Buy n := h.pending .Buy
  have hsells : s.pendingSells = prices config xs .Sell n := h.pending .Sell
  rw [h.same, hbuys] at hbuy
  rw [h.same, hsells] at hsell
  refine ⟨h.same, fun side => ?_, fun side => ?_⟩
  · rw [hlater]
    cases side <;> rfl
  · cases side
    exacts [hforward (h.lines .Buy) hbuy, hforward (h.lines .Sell) hsell]

/-- What is captured, while bar `n` is traded with these fills. -/
structure Watched (config : BuySellConfig α) (view : Nat → List (DataFeed α) → Prop) (n : Nat) (xs : List (Execution α))
    (w : W × Except Error (BuySellObserver α)) : Prop where
  bars : ∀ x ∈ xs, x.barIndex ≤ n
  marked : ∀ s, w.2 = .ok s → Marked config view n xs s
  lasts : config.barplot = false → ∃ s, w.2 = .ok s

theorem Watched.same {w w' : W × Except Error (BuySellObserver α)} (h : Watched config view n xs w) (hw : w'.2 = w.2) :
    Watched config view n xs w' :=
  ⟨h.bars, fun s hs => h.marked s (hw ▸ hs), fun hplot => hw ▸ h.lasts hplot⟩

/-- The observer is told of something. -/
theorem Watched.map {xs xs' : List (Execution α)} {w w' : W × Except Error (BuySellObserver α)} (h : Watched config view n xs w)
    (hbars : ∀ x ∈ xs', x.barIndex ≤ n) {f : BuySellObserver α → BuySellObserver α} (hw : w'.2 = w.2.map f)
    (hf : ∀ s, Marked config view n xs s → Marked config view n xs' (f s)) : Watched config view n xs' w' := by
  refine ⟨hbars, fun s hs => ?_, fun hplot => ?_⟩
  · rw [hw] at hs
    cases hw₂ : w.2 with
    | error e =>
      rw [hw₂] at hs
      cases hs
    | ok s' =>
      rw [hw₂] at hs
      cases hs
      exact hf s' (h.marked s' hw₂)
  · obtain ⟨s, hs⟩ := h.lasts hplot
    rw [hw, hs]
    exact ⟨f s, rfl⟩

theorem Watched.bars_append {w : W × Except Error (BuySellObserver α)} (h : Watched config view n xs w) {x : Execution α}
    (hx : x.barIndex = n) : ∀ y ∈ xs ++ [x], y.barIndex ≤ n := by
  intro y hy
  rcases List.mem_append.1 hy with hy | hy
  · exact h.bars y hy
  · rw [List.mem_singleton.1 hy, hx]

theorem notify_quiet {ev : Event α} (h : ev.Quiet) (s : BuySellObserver α) : observer.notify ev s = s := by
  cases ev with
  | order o => exact notifyOrder_quiet (h o rfl) s
  | trade t size => rfl

/-- The observer, told of one fill after the other. -/
theorem fillsTold_observed (hends : c.FillCallbacksEnd (observer (α := α))) (clock : Clock α) (n : Nat) :
    BackBroker.FillsTold ((c.observed observer).hooks clock) n (Watched (W := W) config view n) := by
  have hact : ∀ {xs} ev (b : BackBroker α (W × Except Error (BuySellObserver α))), ev.Quiet →
      Watched config view n xs b.world → Watched config view n xs (((c.observed observer).listener clock).act ev b).1 := by
    intro xs ev b hev hb
    obtain ⟨hgo, hend⟩ := c.act_observed observer clock ev b
    by_cases hcmd : (((c.observed observer).listener clock).act ev b).2 = none
    · exact hb.map hb.bars (hend hcmd) fun s hs => (notify_quiet hev s).symm ▸ hs
    · exact hb.same (hgo hcmd)
  have hhook : ∀ {xs} side size k (b : BackBroker α (W × Except Error (BuySellObserver α))),
      Watched config view n xs b.world → Watched config view n xs (((c.observed observer).listener clock).preOrderHook side size k b).2 :=
    fun side size k b hb => hb.same rfl
  refine ⟨fun o b hstatus hQ => ?_, fun {xs} x o b hx hstatus hfilling hQ => ?_, fun x _ hx hstatus hQ => ?_,
    fun t s b hQ => ?_, fun side size k b hQ => hhook side size k b hQ⟩
  · exact Listener.react_quiet hact hhook _ (.order o) b (fun o' h => by cases h; exact hstatus) hQ
  · have hcompleted : o.status = .Completed := (Order.status_eq_of_filling hfilling).trans hstatus
    refine Listener.react_ends (P := Watched config view n xs) hact hhook (fun b hb hgo => ?_) (fun b hb hend => ?_) _ b
      (hends clock o b hcompleted) hQ
    · exact hb.same ((c.act_observed observer clock (.order o) b).1 hgo)
    · exact hb.map (hb.bars_append hx) ((c.act_observed observer clock (.order o) b).2 hend) fun s hs => hs.notifyOrder hx hfilling
  · exact ⟨hQ.bars_append hx, fun s hs => (hQ.marked s hs).unheard hx hstatus, hQ.lasts⟩
  · exact Listener.react_quiet hact hhook _ (.trade t s) b (fun o' h => by cases h) hQ

/-- What a bar keeps. -/
theorem carries_observed (hends : c.FillCallbacksEnd (observer (α := α))) (clock : Clock α) (n : Nat) :
    (c.observed observer).Carries clock fun b =>
      b.dataBarIndex = n ∧ BackBroker.OnBooks (Watched (W := W) config view n) b := by
  have hh : BackBroker.Tame ((c.observed (observer (α := α))).hooks clock) := BackBroker.tame_hooks _ _
  have hT : BackBroker.FillsTold ((c.observed observer).hooks clock) n (Watched (W := W) config view n) :=
    fillsTold_observed hends clock n
  refine ⟨fun cmd b hb => ⟨?_, hT.exec hh cmd hb.2⟩, fun {b} hb => ⟨?_, ?_⟩, fun ph si b hb => ⟨hb.1, hb.2.same rfl⟩⟩
  · exact (BackBroker.clock_tracks.exec (BackBroker.tracked_clock hh).order cmd b).trans hb.1
  · exact (BackBroker.processOrders_clock hh clock.feeds b).trans hb.1
  · exact hT.processOrders hh (BackBroker.staying_hooks _ _) clock.feeds hb.1 hb.2

/-- Nothing of bar `n` has been traded yet. -/
structure Before (config : BuySellConfig α) (view : Nat → List (DataFeed α) → Prop) (n : Nat)
    (b : BackBroker α (W × Except Error (BuySellObserver α))) : Prop where
  bars : ∀ x ∈ b.executions, x.barIndex < n
  watched : Watched config view n b.executions b.world

theorem Marked.start {s : BuySellObserver α} (h : Marked config view 0 [] s) : Marked config view 0 [] s.start := by
  obtain ⟨hsame, -, hlines⟩ := h
  refine ⟨hsame, fun side => ?_, fun side => ?_⟩
  · cases side <;> rfl
  · cases side
    exacts [hlines .Buy, hlines .Sell]

theorem marked_first (config : BuySellConfig α) : Marked config view 0 [] { toBuySellConfig := config } := by
  have hnone : ∀ side, Marks config view [] side 0 {} := fun side => ⟨rfl, fun m hm => absurd hm (Nat.not_lt_zero m)⟩
  refine ⟨rfl, fun side => ?_, fun side => ?_⟩
  · cases side <;> rfl
  · cases side
    exacts [hnone .Buy, hnone .Sell]

variable {feeds : DataFeed α × List (DataFeed α)} {b : BackBroker α W}
  {e : CerebroState α (W × Except Error (BuySellObserver α))}

/-- The broker of a run with a new observer. -/
def unmarked (config : BuySellConfig α) (b : BackBroker α W) : BackBroker α (W × Except Error (BuySellObserver α)) :=
  b.capture (b.world, .ok { toBuySellConfig := config })

theorem start_observed (hends : c.FillCallbacksEnd (observer (α := α))) (hb : b.executions = [])
    (h : (c.observed observer).start feeds (unmarked config b) = .ok e) : Before config view 0 e.broker := by
  have hh : BackBroker.Tame ((c.observed (observer (α := α))).hooks (Clock.start feeds)) := BackBroker.tame_hooks _ _
  have hT : BackBroker.FillsTold ((c.observed observer).hooks (Clock.start feeds)) 0 (Watched (W := W) config view 0) :=
    fillsTold_observed hends (Clock.start feeds) 0
  have hfirst : Watched config view 0 (unmarked config b).executions (unmarked config b).world := by
    show Watched config view 0 b.executions _
    rw [hb]
    refine ⟨fun x hx => absurd hx List.not_mem_nil, fun s hs => ?_, fun _ => ⟨_, rfl⟩⟩
    cases hs
    exact marked_first config
  -- no command fills anything
  obtain ⟨b', ⟨hexec, hwatched⟩, heq⟩ := start_keeps (c := c.observed observer)
    (P := fun b' => b'.executions = [] ∧ BackBroker.OnBooks (Watched config view 0) b')
    (fun cmd b' hb' => ⟨(BackBroker.exec_reach hh cmd b').quiet.executions.trans hb'.1, hT.exec hh cmd hb'.2⟩)
    (fun ph si b' hb' => ⟨hb'.1, hb'.2.same rfl⟩) ⟨hb, hfirst⟩ h
  unfold BackBroker.OnBooks at hwatched
  rw [hexec] at hwatched
  have hopened : Watched config view 0 [] ((c.observed observer).opening b'.world) :=
    hwatched.map hwatched.bars rfl fun s hs => hs.start
  rw [heq]
  refine ⟨fun x hx => ?_, ?_⟩
  · replace hx : x ∈ b'.executions := hx
    rw [hexec] at hx
    cases hx
  · show Watched config view 0 b'.executions _
    rw [hexec]
    exact hopened

theorem mark_lasts (hplot : config.barplot = false) (side : OrderSide)
    (feeds : List (DataFeed α)) (pending : List α) :
    mark config side feeds pending = .ok (if pending = [] then Floating.nan else average pending) := by
  unfold mark
  rw [hplot]
  cases pending <;> rfl

/-- The feeds as they stand on a bar of the run. -/
def Shown (c : Cerebro α W) (feeds : DataFeed α × List (DataFeed α)) (b : BackBroker α W) (config : BuySellConfig α) (m : Nat)
    (fs : List (DataFeed α)) : Prop :=
  ∃ e, (c.observed observer).gated feeds (unmarked config b) m = .ok e ∧ e.clock.feeds = fs

theorem before_upTo (hends : c.FillCallbacksEnd (observer (α := α))) (hb : b.executions = [])
    (h : (c.observed observer).upTo feeds (unmarked config b) n = .ok e) : Before config (Shown c feeds b config) n e.broker := by
  induction n generalizing e with
  | zero => exact start_observed hends hb h
  | succ n ih =>
    obtain ⟨e₁, h₁, hbroker, -, -⟩ := (c.observed observer).upTo_succ h
    obtain ⟨e₀, h₀, heq, -⟩ := (c.observed observer).gated_broker h₁
    have hbefore := ih h₀
    have hfirst : e₁.broker.dataBarIndex = n ∧ BackBroker.OnBooks (Watched config (Shown c feeds b config) n) e₁.broker := by
      rw [heq]
      exact ⟨rfl, hbefore.watched⟩
    obtain ⟨b', ⟨-, hwatched⟩, htrade⟩ := (carries_observed hends e₁.clock n).trade (n := n) hfirst
    have hshown : Shown c feeds b config n e₁.clock.feeds := ⟨e₁, h₁, rfl⟩
    rw [hbroker, htrade]
    refine ⟨fun x hx => Nat.lt_succ_of_le (hwatched.bars x hx), fun x hx => (hwatched.bars x hx).trans (Nat.le_succ n),
      fun s hs => ?_, fun hplot => ?_⟩
    · obtain ⟨s', hs', hnext⟩ := bind_eq_ok.1 hs
      exact (hwatched.marked s' hs').next hwatched.bars hshown hnext
    · obtain ⟨s, hs⟩ := hwatched.lasts hplot
      have hsame := (hwatched.marked s hs).same
      show ∃ s', (b'.world.2.bind fun x => x.next e₁.clock.feeds) = .ok s'
      rw [hs]
      show ∃ s', s.next e₁.clock.feeds = .ok s'
      unfold BuySellObserver.next
      rw [hsame, mark_lasts hplot, mark_lasts hplot]
      exact ⟨_, rfl⟩

end Cerebro

end StratForge
