import StratForge.SignalEntry
import StratForge.Transparent

/-!
# Strategies that only look on (`strategy/observer_strategy.hpp`, `strategy/ai_libero_strategy.hpp`,
`strategy/regime_detector_strategy.hpp`)

Some base classes advance their indicators, look at a bar and order nothing. Behind the strategies of an engine such a one
changes nothing but its own members: on every bar the engine with it stands where the engine without it stands
(`upTo_watched`).
-/

namespace StratForge

variable {α W V : Type}

/-! ### Brokers that differ in what is captured -/

/-- What a fill writes before the trades are told of it. -/
def BackBroker.paid [Arith α] (b : BackBroker α W) (i : Nat) (x : Execution α) : BackBroker α W :=
  ((((b.edit i fun _ => x.order).pay x.currency (x.size * x.price + x.commission)).ensurePosition x.order.dataIndex).updatePosition
    x.order.dataIndex x.size x.price).note (.executed x)

/-- The two brokers are one but for what their callbacks capture, which `S` relates. -/
def Alongside (S : W → V → Prop) (b : BackBroker α W) (b' : BackBroker α V) : Prop :=
  b' = b.capture b'.world ∧ S b.world b'.world

namespace Alongside
variable {S : W → V → Prop} {b : BackBroker α W} {b' : BackBroker α V}

theorem write (h : Alongside S b b') (g : BackBroker α W → BackBroker α W) (g' : BackBroker α V → BackBroker α V)
    (hg : ∀ v, g' (b.capture v) = (g b).capture v) (hw : (g b).world = b.world) : Alongside S (g b) (g' b') := by
  obtain ⟨heq, hS⟩ := h
  rw [heq, hg]
  exact ⟨rfl, hw ▸ hS⟩

theorem worlds (h : Alongside S b b') {w : W} {v : V} (hS : S w v) : Alongside S { b with world := w } { b' with world := v } := by
  refine ⟨?_, hS⟩
  rw [h.1]
  rfl

theorem sync (hb : Alongside S b b') (i : Nat) : Alongside S (b.sync i) (b'.sync i) := by
  refine hb.write (·.sync i) (·.sync i) (fun v => ?_) ?_
  · unfold BackBroker.sync
    rw [show (b.capture v).pendingOrders = b.pendingOrders from rfl]
    cases b.pendingOrders[i]? <;> rfl
  · unfold BackBroker.sync
    cases b.pendingOrders[i]? <;> rfl

variable [Arith α] {h : Hooks α W} {h' : Hooks α V}
  (htrade : ∀ t s {b : BackBroker α W} {b' : BackBroker α V}, Alongside S b b' →
    Alongside S (h.tradeNotify t s b) (h'.tradeNotify t s b'))
include htrade

omit [Arith α] in
theorem retireTrade (hb : Alongside S b b') (i : Nat) (t : Trade α) (orig : α) :
    Alongside S (b.retireTrade h i t orig) (b'.retireTrade h' i t orig) := by
  have hclosed : Alongside S
      { b with openTrades := b.openTrades.set i (t, orig), closedTrades := b.closedTrades ++ [(t, orig)] }
      { b' with openTrades := b'.openTrades.set i (t, orig), closedTrades := b'.closedTrades ++ [(t, orig)] } :=
    hb.write (fun b => { b with openTrades := b.openTrades.set i (t, orig), closedTrades := b.closedTrades ++ [(t, orig)] })
      (fun b => { b with openTrades := b.openTrades.set i (t, orig), closedTrades := b.closedTrades ++ [(t, orig)] })
      (fun _ => rfl) rfl
  exact (htrade t orig hclosed).write (fun b => { b with openTrades := b.openTrades.eraseIdx i })
    (fun b => { b with openTrades := b.openTrades.eraseIdx i }) (fun _ => rfl) rfl

theorem updateTrades (hb : Alongside S b b') (k : Nat) (old s p c : α) (bar : Nat) (dt : DateTime) (cand : Nat) :
    Alongside S (b.updateTrades h k old s p c bar dt cand) (b'.updateTrades h' k old s p c bar dt cand) := by
  have hidx : b'.openTradeIdx k = b.openTradeIdx k := by rw [hb.1]; rfl
  have hget : b'.openTrades[b.openTradeIdx k]? = b.openTrades[b.openTradeIdx k]? := by rw [hb.1]; rfl
  have hopen : ∀ {b : BackBroker α W} {b' : BackBroker α V} s c, Alongside S b b' →
      Alongside S (b.openTrade k s p c bar dt cand) (b'.openTrade k s p c bar dt cand) := fun s c hb =>
    hb.write (·.openTrade k s p c bar dt cand) (·.openTrade k s p c bar dt cand) (fun _ => rfl) rfl
  unfold BackBroker.updateTrades
  dsimp only
  rw [hidx, hget]
  generalize b.openTradeIdx k = n
  by_cases hnew : Arith.abs old < 1e-10
  · rw [if_pos hnew, if_pos hnew]
    exact hopen s c hb
  rw [if_neg hnew, if_neg hnew]
  by_cases hgrows : (0 < old ∧ 0 < s) ∨ (old < 0 ∧ s < 0)
  · rw [if_pos hgrows, if_pos hgrows]
    exact hb.write (fun b => { b with openTrades := b.openTrades.modify n fun x => (x.1.update s p c bar dt, x.2 + s) })
      (fun b => { b with openTrades := b.openTrades.modify n fun x => (x.1.update s p c bar dt, x.2 + s) }) (fun _ => rfl) rfl
  rw [if_neg hgrows, if_neg hgrows]
  cases b.openTrades[n]? with
  | none => exact hb
  | some x =>
    dsimp only
    split_ifs
    · exact hopen _ _ (retireTrade htrade hb _ _ _)
    · exact retireTrade htrade hb _ _ _
    · exact hb.write (fun b => { b with openTrades := b.openTrades.set n (x.1.update s p c bar dt, x.2) })
        (fun b => { b with openTrades := b.openTrades.set n (x.1.update s p c bar dt, x.2) }) (fun _ => rfl) rfl

/-- A fill is booked the same. -/
theorem book (hb : Alongside S b b') {feed feed' : DataFeed α} (hf : feed'.index = feed.index) (bar : Row α) (i : Nat) (o : Order α)
    (price : α) : Alongside S (b.book h feed bar i o price) (b'.book h' feed' bar i o price) := by
  let x := b.fillOf feed o price
  have hpaid : Alongside S (b.paid i x) (b'.paid i x) := hb.write (·.paid i x) (·.paid i x) (fun _ => rfl) rfl
  have hbooked := (updateTrades htrade hpaid o.dataIndex ((b.ensurePosition o.dataIndex).position o.dataIndex).size o.signedSize price
    x.commission b.dataBarIndex bar.datetime o.candidateId).sync i
  have hdata : x.order.dataIndex = o.dataIndex := (BackBroker.same_fillOf feed b o price).dataIndex
  have heq : ∀ {U : Type} (h : Hooks α U) (u : U), (b.capture u).book h feed' bar i o price =
      (((b.capture u).paid i x).updateTrades h o.dataIndex ((b.ensurePosition o.dataIndex).position o.dataIndex).size o.signedSize
        price x.commission b.dataBarIndex bar.datetime o.candidateId).sync i := by
    intro U h u
    unfold BackBroker.paid
    rw [hdata]
    unfold BackBroker.book
    rw [hf]
    rfl
  rw [show b.book h feed bar i o price = (b.capture b.world).book h feed' bar i o price by unfold BackBroker.book; rw [hf]; rfl,
    hb.1, heq h b.world, heq h' b'.world, ← hb.1]
  exact hbooked

end Alongside

/-! ### Listeners -/

/-- On brokers that differ in what is captured, the listeners answer the same. -/
structure Listener.Alongside (L : Listener α W) (L' : Listener α V) (S : W → V → Prop) : Prop where
  act : ∀ ev (b : BackBroker α W) (v : V), S b.world v → (L'.act ev (b.capture v)).2 = (L.act ev b).2 ∧
    S (L.act ev b).1 (L'.act ev (b.capture v)).1
  hook : ∀ side size k (b : BackBroker α W) (v : V), S b.world v →
    (L'.preOrderHook side size k (b.capture v)).1 = (L.preOrderHook side size k b).1 ∧
    S (L.preOrderHook side size k b).2 (L'.preOrderHook side size k (b.capture v)).2

namespace Listener.Alongside
variable [Arith α] {L : Listener α W} {L' : Listener α V} {S : W → V → Prop} (hL : L.Alongside L' S)
include hL

theorem lockstep_of_react {n : Nat} (hreact : ∀ ev {b : BackBroker α W} {b' : BackBroker α V}, StratForge.Alongside S b b' →
    StratForge.Alongside S (L.react n ev b) (L'.react n ev b')) :
    BackBroker.Lockstep (L.hooksOf (L.react n)) (L'.hooksOf (L'.react n)) (fun _ => True) (fun _ => False)
      (StratForge.Alongside S) where
  stays := .never _
  ofLost := False.elim
  capture hR := .inr hR.1
  frame hR _ hw := ⟨rfl, hw ▸ hR.2⟩
  order o _ _ hR := hreact (.order o) hR
  indexed o b := BackBroker.react_indexed L n (.order o) b
  hook side size k b b' hR := by
    obtain ⟨hfst, hsnd⟩ := hL.hook side size k b b'.world hR.2
    rw [← hR.1] at hfst hsnd
    exact ⟨.inr hfst, hR.worlds hsnd⟩
  book feed feed' bar i o price b b' hR hidx _ := hR.book (fun t s _ _ hR => hreact (.trade t s) hR) hidx bar i o price

theorem react (n : Nat) (ev : Event α) {b : BackBroker α W} {b' : BackBroker α V} (hb : StratForge.Alongside S b b') :
    StratForge.Alongside S (L.react n ev b) (L'.react n ev b') := by
  induction n generalizing ev b b' with
  | zero => exact hb
  | succ n ih =>
    obtain ⟨hcmd, hworld⟩ := hL.act ev b b'.world hb.2
    rw [← hb.1] at hcmd hworld
    unfold Listener.react
    generalize L.act ev b = r at hcmd hworld
    generalize L'.act ev b' = r' at hcmd hworld
    obtain ⟨w, cmd⟩ := r
    obtain ⟨v, cmd'⟩ := r'
    cases hcmd
    cases cmd with
    | none => exact hb.worlds hworld
    | some c => exact ih ev ((hL.lockstep_of_react fun ev _ _ => ih ev).exec (hb.worlds hworld) c)

theorem lockstep (fuel : Nat) : BackBroker.Lockstep (L.hooks fuel) (L'.hooks fuel) (fun _ => True) (fun _ => False)
    (StratForge.Alongside S) := hL.lockstep_of_react fun ev _ _ => hL.react fuel ev

theorem processOrders (fuel : Nat) (feeds : List (DataFeed α)) {b : BackBroker α W} {b' : BackBroker α V}
    (hb : StratForge.Alongside S b b') :
    StratForge.Alongside S (b.processOrders (L.hooks fuel) feeds) (b'.processOrders (L'.hooks fuel) feeds) :=
  (hL.lockstep fuel).processOrders hb fun _ _ _ _ _ _ => ⟨rfl, trivial⟩

end Listener.Alongside

/-! ### A strategy that looks on -/

/-- A strategy that orders nothing: what its methods and its notifications do to its members. -/
structure Onlooker (α V : Type) where
  call : Lifecycle → Clock α → BackBroker α V → V
  hear : Event α → BackBroker α V → V
  minimumPeriod : V → Nat → Nat

/-- The warm-up of the onlooker fits the data. -/
def Onlooker.Fits (o : Onlooker α V) (feeds : DataFeed α × List (DataFeed α)) : Prop :=
  ∀ v k f, (feeds.1 :: feeds.2)[k]? = some f → o.minimumPeriod v k ≤ f.size

/-- What the base classes have in common that only look on, `S` the members of the derived class; `init()` has been run. -/
structure LookingStrategy (α S : Type) where
  /-- `update_indicators(feed_index)`. -/
  updateIndicators : Nat → List (DataFeed α) → S → S
  /-- `notify_order` and `notify_trade`. -/
  notify : Event α → BackBroker α S → S
  /-- The minimum periods that `init()` has left. -/
  minPeriods : List Nat

namespace LookingStrategy
variable {S : Type} (s : LookingStrategy α S)

/-- `advance_generated_indicators`, with the flags that the engine has published. -/
def advanceGeneratedIndicators (clock : Clock α) (user : S) : S :=
  (List.range clock.slots.length).foldl (fun user k =>
    if (clock.slots[k]?.map (·.feedAdvanced)).getD false then s.updateIndicators k clock.feeds user else user) user

/-- The lifecycle with this `next()`. -/
def onlooker (next : Clock α → BackBroker α S → S) : Onlooker α S where
  call ph clock b :=
    match ph with
    | .init | .start => b.world
    | .prenext => s.advanceGeneratedIndicators clock b.world
    | .nextstart | .next => next clock b
  hear := s.notify
  minimumPeriod _ k := minimumPeriod s.minPeriods k

end LookingStrategy

structure ObserverStrategy (α S : Type) extends LookingStrategy α S where
  checkPrecondition : List (DataFeed α) → BackBroker α S → S → Bool × S

namespace ObserverStrategy
variable {S : Type} (s : ObserverStrategy α S)

def next (clock : Clock α) (b : BackBroker α S) : S :=
  let user := s.advanceGeneratedIndicators clock b.world
  (s.checkPrecondition clock.feeds (b.capture user) user).2

def onlooker : Onlooker α S := s.toLookingStrategy.onlooker s.next

end ObserverStrategy

structure AILiberoStrategy (α S : Type) extends LookingStrategy α S where
  getIndicatorValues : List (DataFeed α) → BackBroker α S → S → List (String × α) × S

namespace AILiberoStrategy
variable {S : Type} (s : AILiberoStrategy α S)

def next (clock : Clock α) (b : BackBroker α S) : S :=
  let user := s.advanceGeneratedIndicators clock b.world
  (s.getIndicatorValues clock.feeds (b.capture user) user).2

def onlooker : Onlooker α S := s.toLookingStrategy.onlooker s.next

end AILiberoStrategy

inductive RegimeState
  | Unknown | Trending | RangeBound | HighVolatility | LowVolatility
deriving DecidableEq, Repr

/-- The members of a detector. -/
structure Detecting (S : Type) where
  user : S
  currentState : RegimeState := .Unknown

structure RegimeDetectorStrategy (α S : Type) extends LookingStrategy α (Detecting S) where
  calculateTrendStrength : List (DataFeed α) → BackBroker α (Detecting S) → Detecting S → α × S
  calculateRangeStrength : List (DataFeed α) → BackBroker α (Detecting S) → Detecting S → α × S
  getVolatilityState : List (DataFeed α) → BackBroker α (Detecting S) → Detecting S → Bool × S

namespace RegimeDetectorStrategy
variable {S : Type} [Arith α] (s : RegimeDetectorStrategy α S)

def next (clock : Clock α) (b : BackBroker α (Detecting S)) : Detecting S :=
  let w := s.advanceGeneratedIndicators clock b.world
  let (trend, user) := s.calculateTrendStrength clock.feeds (b.capture w) w
  let w := { w with user }
  let (range, user) := s.calculateRangeStrength clock.feeds (b.capture w) w
  let w := { w with user }
  let (highVol, user) := s.getVolatilityState clock.feeds (b.capture w) w
  { user
    currentState :=
      if highVol then .HighVolatility
      else if range < trend then .Trending
      else if trend < range then .RangeBound
      else .LowVolatility }

def onlooker : Onlooker α (Detecting S) := s.toLookingStrategy.onlooker s.next

end RegimeDetectorStrategy

namespace Fold

theorem forM_congr {ε A : Type} {f g : A → Except ε Unit} {xs : List A} (h : ∀ x ∈ xs, f x = g x) : xs.forM f = xs.forM g := by
  induction xs with
  | nil => rfl
  | cons x xs ih =>
    show (f x >>= fun _ => xs.forM f) = (g x >>= fun _ => xs.forM g)
    rw [h x (List.mem_cons_self ..), ih fun y hy => h y (List.mem_cons_of_mem _ hy)]

/-- A last check that passes. -/
theorem forM_snoc_ok {ε A : Type} {f : A → Except ε Unit} (xs : List A) {x : A} (h : f x = .ok ()) :
    (xs ++ [x]).forM f = xs.forM f := by
  induction xs with
  | nil =>
    show (f x >>= fun _ => .ok ()) = .ok ()
    rw [h]
    rfl
  | cons y xs ih =>
    show (f y >>= fun _ => (xs ++ [x]).forM f) = (f y >>= fun _ => xs.forM f)
    rw [ih]

end Fold

namespace Cerebro
variable (c : Cerebro α W) (o : Onlooker α V)

/-- The engine `c` with the onlooker behind its strategies. -/
def watched : Cerebro α (W × V) :=
  { listener := fun clock =>
      { act := fun ev b =>
          let (w, cmd) := (c.listener clock).act ev (b.capture b.world.1)
          match cmd with
          | none => ((w, o.hear ev (b.capture b.world.2)), none)
          | some cmd => ((w, b.world.2), some cmd)
        preOrderHook := fun side size dataIndex b =>
          let (por, w) := (c.listener clock).preOrderHook side size dataIndex (b.capture b.world.1)
          (por, (w, b.world.2)) }
    strategies := c.strategies + 1
    call := fun ph clock si b =>
      if si = c.strategies then ((b.world.1, o.call ph clock (b.capture b.world.2)), none)
      else
        let (w, cmd) := c.call ph clock si (b.capture b.world.1)
        ((w, b.world.2), cmd)
    minimumPeriod := fun w si k => if si = c.strategies then o.minimumPeriod w.2 k else c.minimumPeriod w.1 si k
    opening := fun w => (c.opening w.1, w.2)
    closing := fun bar clock b => (c.closing bar clock (b.capture b.world.1), b.world.2)
    fuel := c.fuel }

variable [Arith α] {c o} {clock : Clock α} {b : BackBroker α W} {b' : BackBroker α (W × V)}

/-- The brokers are one but for the onlooker's members. -/
def Beside (w : W) (wv : W × V) : Prop := wv.1 = w

omit [Arith α] in
theorem listener_watched (c : Cerebro α W) (o : Onlooker α V) (clock : Clock α) :
    (c.listener clock).Alongside ((c.watched o).listener clock) Beside where
  act ev b wv hw := by
    have hcap : (b.capture wv).capture (b.capture wv).world.1 = b := by
      show b.capture wv.1 = b
      rw [show wv.1 = b.world from hw]
      rfl
    unfold watched
    dsimp only
    rw [hcap]
    split
    · next heq => exact ⟨heq.symm, rfl⟩
    · next heq => exact ⟨heq.symm, rfl⟩
  hook side size k b wv hw := by
    have hcap : (b.capture wv).capture (b.capture wv).world.1 = b := by
      show b.capture wv.1 = b
      rw [show wv.1 = b.world from hw]
      rfl
    unfold watched
    dsimp only
    rw [hcap]
    exact ⟨rfl, rfl⟩

/-- The same clock, the same broker but for the onlooker's members, and the same strategies in `next` before it. -/
structure WatchedBy (e : CerebroState α W) (e' : CerebroState α (W × V)) (n : Nat) : Prop where
  clock : e'.clock = e.clock
  broker : Alongside Beside e.broker e'.broker
  entered : ∃ x, e'.entered = e.entered ++ [x]
  length : e.entered.length = n

theorem drive_watched (ph : Lifecycle) {si : Nat} (hsi : si < c.strategies) (n : Nat) (hb : Alongside Beside b b') :
    Alongside Beside ((c.listener clock).drive c.fuel (c.call ph clock si) n b)
      (((c.watched o).listener clock).drive c.fuel ((c.watched o).call ph clock si) n b') := by
  induction n generalizing b b' with
  | zero => exact hb
  | succ n ih =>
    have hcap : b'.capture b'.world.1 = b := by
      rw [hb.2, hb.1]
      rfl
    have hcall : (c.watched o).call ph clock si b' = (((c.call ph clock si b).1, b'.world.2), (c.call ph clock si b).2) := by
      show (if si = c.strategies then _ else _) = _
      rw [if_neg hsi.ne, hcap]
    unfold Listener.drive
    rw [hcall]
    cases c.call ph clock si b with
    | mk w cmd =>
      cases cmd with
      | none => exact hb.worlds rfl
      | some cmd => exact ih (((c.listener_watched o clock).lockstep c.fuel).exec (hb.worlds rfl) cmd)

/-- The onlooker's own methods leave the broker alone. -/
theorem drive_onlooker (ph : Lifecycle) (n : Nat) (hb : Alongside Beside b b') :
    Alongside Beside b (((c.watched o).listener clock).drive c.fuel ((c.watched o).call ph clock c.strategies) n b') := by
  cases n with
  | zero => exact hb
  | succ n =>
    have hcall : (c.watched o).call ph clock c.strategies b' =
        ((b'.world.1, o.call ph clock (b'.capture b'.world.2)), none) := if_pos rfl
    unfold Listener.drive
    rw [hcall]
    exact ⟨by rw [hb.1]; rfl, hb.2⟩

omit [Arith α] in
theorem ready_watched {si : Nat} (hsi : si < c.strategies) (hb : Alongside Beside b b') :
    (c.watched o).ready clock b'.world si = c.ready clock b.world si := by
  unfold ready
  have hmin : (c.watched o).minimumPeriod b'.world si = c.minimumPeriod b.world si := by
    funext k
    show (if si = c.strategies then _ else _) = _
    rw [if_neg hsi.ne, hb.2]
  rw [hmin]

theorem turn_watched (o : Onlooker α V) (clock : Clock α) {si : Nat} (hsi : si < c.strategies) {entered : List Bool} (hlen : entered.length = c.strategies) (x : Bool)
    (hb : Alongside Beside b b') :
    Alongside Beside (c.turn clock (b, entered) si).1 ((c.watched o).turn clock (b', entered ++ [x]) si).1 ∧
      ((c.watched o).turn clock (b', entered ++ [x]) si).2 = (c.turn clock (b, entered) si).2 ++ [x] ∧
      (c.turn clock (b, entered) si).2.length = c.strategies := by
  have hget : (entered ++ [x])[si]? = entered[si]? := List.getElem?_append_left (hlen ▸ hsi)
  have hset : (entered ++ [x]).set si true = entered.set si true ++ [x] := List.set_append_left _ _ (hlen ▸ hsi)
  have hphase : ∀ ph, Alongside Beside (c.phase ph clock b si) ((c.watched o).phase ph clock b' si) := fun ph =>
    drive_watched ph hsi c.fuel hb
  unfold Cerebro.turn
  dsimp only
  rw [hget, hset, ready_watched hsi hb]
  split_ifs
  exacts [⟨hphase .next, rfl, hlen⟩, ⟨hphase .nextstart, rfl, by rw [List.length_set, hlen]⟩, ⟨hphase .prenext, rfl, hlen⟩]

theorem turns_watched (o : Onlooker α V) (clock : Clock α) {entered : List Bool} (hlen : entered.length = c.strategies) (x : Bool) (hb : Alongside Beside b b') (n : Nat)
    (hn : n ≤ c.strategies) :
    Alongside Beside ((List.range n).foldl (c.turn clock) (b, entered)).1
        ((List.range n).foldl ((c.watched o).turn clock) (b', entered ++ [x])).1 ∧
      ((List.range n).foldl ((c.watched o).turn clock) (b', entered ++ [x])).2 =
        ((List.range n).foldl (c.turn clock) (b, entered)).2 ++ [x] ∧
      ((List.range n).foldl (c.turn clock) (b, entered)).2.length = c.strategies := by
  induction n with
  | zero => exact ⟨hb, rfl, hlen⟩
  | succ n ih =>
    obtain ⟨hbeside, hentered, hlen⟩ := ih (Nat.le_of_succ_le hn)
    rw [List.range_succ, List.foldl_append, List.foldl_append]
    have hturn := turn_watched o clock hn hlen x hbeside
    rw [← hentered] at hturn
    exact hturn

/-- The last turn is the onlooker's. -/
theorem turn_onlooker (o : Onlooker α V) (clock : Clock α) {entered : List Bool} (hlen : entered.length = c.strategies) (x : Bool) (hb : Alongside Beside b b') :
    Alongside Beside b ((c.watched o).turn clock (b', entered ++ [x]) c.strategies).1 ∧
      ∃ y, ((c.watched o).turn clock (b', entered ++ [x]) c.strategies).2 = entered ++ [y] := by
  have hphase : ∀ ph, Alongside Beside b ((c.watched o).phase ph clock b' c.strategies) := fun ph => drive_onlooker ph c.fuel hb
  have hset : (entered ++ [x]).set c.strategies true = entered ++ [true] := by
    rw [← hlen, List.set_append_right _ _ le_rfl, Nat.sub_self]
    rfl
  unfold Cerebro.turn
  dsimp only
  rw [hset]
  split_ifs
  exacts [⟨hphase .next, x, rfl⟩, ⟨hphase .nextstart, true, rfl⟩, ⟨hphase .prenext, x, rfl⟩]

/-- All turns of a bar. -/
theorem all_turns (o : Onlooker α V) (clock : Clock α) {entered : List Bool} (hlen : entered.length = c.strategies) (x : Bool) (hb : Alongside Beside b b') :
    ∃ b₁ b₁' entered₁ y, (List.range c.strategies).foldl (c.turn clock) (b, entered) = (b₁, entered₁) ∧
      (List.range (c.strategies + 1)).foldl ((c.watched o).turn clock) (b', entered ++ [x]) = (b₁', entered₁ ++ [y]) ∧
      Alongside Beside b₁ b₁' ∧ entered₁.length = c.strategies := by
  obtain ⟨hbeside, hentered, hlen'⟩ := turns_watched o clock hlen x hb c.strategies le_rfl
  obtain ⟨hbeside', y, hy⟩ := turn_onlooker o clock hlen' x hbeside
  rw [← hentered] at hbeside' hy
  refine ⟨_, _, _, y, rfl, ?_, hbeside', hlen'⟩
  rw [List.range_succ, List.foldl_append]
  exact Prod.ext rfl hy

theorem trade_watched {e : CerebroState α W} {e' : CerebroState α (W × V)} (bar : Nat) (h : WatchedBy e e' c.strategies) :
    WatchedBy (c.trade bar e) ((c.watched o).trade bar e') c.strategies := by
  obtain ⟨x, hx⟩ := h.entered
  have hpass := (c.listener_watched o e.clock).processOrders c.fuel e.clock.feeds h.broker
  obtain ⟨b₁, b₁', entered, y, hturns, hturns', hb, hlen⟩ := all_turns o e.clock h.length x hpass
  have hcap : b₁'.capture b₁'.world.1 = b₁ := by
    rw [hb.2, hb.1]
    rfl
  unfold Cerebro.trade Cerebro.hooks
  rw [h.clock, hx, show (c.watched o).strategies = c.strategies + 1 from rfl, show (c.watched o).fuel = c.fuel from rfl]
  dsimp only
  rw [hturns, hturns']
  refine ⟨rfl, hb.worlds ?_, ⟨y, rfl⟩, hlen⟩
  show c.closing bar e.clock (b₁'.capture b₁'.world.1) = c.closing bar e.clock b₁
  rw [hcap]

variable {feeds : DataFeed α × List (DataFeed α)}

omit [Arith α] in
theorem checkWarmup_watched (hfits : o.Fits feeds) (w : W) (v : V) :
    (c.watched o).checkWarmup (Clock.start feeds) (w, v) = c.checkWarmup (Clock.start feeds) w := by
  have hslots : ∀ k s, (Clock.start feeds).slots[k]? = some s → o.minimumPeriod v k ≤ s.feed.size := by
    intro k s hs
    have hmap : (Clock.start feeds).slots = (feeds.1 :: feeds.2).map fun f => { feed := f.home } := rfl
    rw [hmap, List.getElem?_map] at hs
    obtain ⟨f, hf, rfl⟩ := Option.map_eq_some_iff.1 hs
    have hfit := hfits v k f hf
    rwa [DataFeed.size_eq] at hfit ⊢
  unfold checkWarmup
  rw [show (c.watched o).strategies = c.strategies + 1 from rfl, List.range_succ, Fold.forM_snoc_ok]
  · refine Fold.forM_congr fun si hsi => ?_
    have hmin : (c.watched o).minimumPeriod (w, v) si = c.minimumPeriod w si := funext fun k => if_neg (List.mem_range.1 hsi).ne
    rw [hmin]
  · refine Fold.forM_eq_ok.2 fun k _ => ?_
    have hmin : (c.watched o).minimumPeriod (w, v) c.strategies k = o.minimumPeriod v k := if_pos rfl
    rw [hmin]
    cases hs : (Clock.start feeds).slots[k]? with
    | none => rfl
    | some s => exact if_neg (not_lt.2 (hslots k s hs))

theorem start_watched (hfits : o.Fits feeds) (b : BackBroker α W) (v : V) :
    SameEnd (fun e e' => WatchedBy e e' c.strategies) (c.start feeds b) ((c.watched o).start feeds (b.capture (b.world, v))) := by
  have hphases : ∀ (ph : Lifecycle) (si : Nat) {b : BackBroker α W} {b' : BackBroker α (W × V)}, si < c.strategies →
      Alongside Beside b b' → Alongside Beside (c.phase ph (Clock.start feeds) b si) ((c.watched o).phase ph (Clock.start feeds) b' si) :=
    fun ph si _ _ hsi hb => drive_watched ph hsi c.fuel hb
  have hb : Alongside Beside
      ((List.range c.strategies).foldl (fun b si => c.phase .start (Clock.start feeds) (c.phase .init (Clock.start feeds) b si) si) b)
      ((List.range (c.strategies + 1)).foldl (fun b si => (c.watched o).phase .start (Clock.start feeds)
        ((c.watched o).phase .init (Clock.start feeds) b si) si) (b.capture (b.world, v))) := by
    rw [List.range_succ, List.foldl_append]
    refine drive_onlooker .start c.fuel (drive_onlooker .init c.fuel ?_)
    exact List.foldl_rel ⟨rfl, rfl⟩ fun si hsi b b' hb =>
      hphases .start si (List.mem_range.1 hsi) (hphases .init si (List.mem_range.1 hsi) hb)
  have hworld : ∀ {b : BackBroker α W} {b' : BackBroker α (W × V)}, Alongside Beside b b' →
      (c.watched o).checkWarmup (Clock.start feeds) b'.world = c.checkWarmup (Clock.start feeds) b.world := fun {_ b'} hb =>
    (checkWarmup_watched hfits b'.world.1 b'.world.2).trans (congrArg _ hb.2)
  unfold Cerebro.start
  rw [show (c.watched o).strategies = c.strategies + 1 from rfl]
  dsimp only
  refine (SameEnd.refl _).bind fun _ _ _ _ => ?_
  rw [hworld hb]
  refine (SameEnd.refl _).bind fun _ _ _ _ => ?_
  refine ⟨rfl, hb.worlds (congrArg c.opening hb.2), ⟨false, ?_⟩, List.length_replicate⟩
  exact List.replicate_succ'

omit [Arith α] in
theorem gate_watched {e : CerebroState α W} {e' : CerebroState α (W × V)} (bar n : Nat) (h : WatchedBy e e' n) :
    SameEnd (fun e e' => WatchedBy e e' n) (Cerebro.gate bar e) (Cerebro.gate bar e') := by
  unfold Cerebro.gate
  rw [h.clock]
  refine (SameEnd.refl _).bind fun clock _ _ heq => ?_
  cases heq
  exact ⟨rfl, h.broker.write (·.setBarIndex bar) (·.setBarIndex bar) (fun _ => rfl) rfl, h.entered, h.length⟩

/-- Bar by bar an onlooker changes nothing: both runs throw the same, or both stand alike but for its members. -/
theorem upTo_watched (c : Cerebro α W) (hfits : o.Fits feeds) (b : BackBroker α W) (v : V) (n : Nat) :
    SameEnd (fun e e' => WatchedBy e e' c.strategies) (c.upTo feeds b n)
      ((c.watched o).upTo feeds (b.capture (b.world, v)) n) := by
  induction n with
  | zero => exact start_watched hfits b v
  | succ n ih =>
    refine ih.bind fun e e' _ h => ?_
    refine (gate_watched n c.strategies h).bind fun e₁ e₁' _ h => ?_
    have htrade := trade_watched (o := o) n h
    show WatchedBy _ _ c.strategies
    rw [htrade.clock]
    split_ifs
    exacts [⟨rfl, htrade.broker, htrade.entered, htrade.length⟩, htrade]

end Cerebro

/-- It counts the bars on which a position is open, for examples. -/
def countsHeld : ObserverStrategy ℚ Nat where
  updateIndicators _ _ user := user
  notify _ b := b.world
  minPeriods := [1]
  checkPrecondition _ b user := (true, if (b.position 0).size == 0 then user else user + 1)

theorem upTo_watched_countsHeld :
    ∃ e e', buysTwice.upTo threeMinutes (.init .USD 1000 none ()) 3 = .ok e ∧
      (buysTwice.watched countsHeld.onlooker).upTo threeMinutes (.init .USD 1000 none ((), 0)) 3 = .ok e' ∧
      e'.broker.world.2 = 3 ∧ e'.broker.executions.length = 2 ∧ Cerebro.WatchedBy e e' 1 := by
  have hfits : countsHeld.onlooker.Fits threeMinutes := by
    intro v k f hf
    have hk : k = 0 := by
      have := (List.getElem?_eq_some_iff.1 hf).1
      simpa [threeMinutes] using this
    subst hk
    cases hf
    show 1 ≤ threeMinutes.1.size
    decide
  have hend := Cerebro.upTo_watched buysTwice hfits (.init .USD 1000 none ()) 0 3
  have hrun : ((buysTwice.watched countsHeld.onlooker).upTo threeMinutes (.init .USD 1000 none ((), 0)) 3).toOption.map
      (fun e => (e.broker.world.2, e.broker.executions.length)) = some (3, 2) := by decide +kernel
  rcases hend.cases with ⟨e, e', h, h', hwatched⟩ | ⟨err, -, h'⟩
  · replace h' : (buysTwice.watched countsHeld.onlooker).upTo threeMinutes (.init .USD 1000 none ((), 0)) 3 = .ok e' := h'
    rw [h'] at hrun
    obtain ⟨hcount, hfills⟩ := Prod.mk.inj (Option.some.inj hrun)
    exact ⟨e, e', h, h', hcount, hfills, hwatched⟩
  · replace h' : (buysTwice.watched countsHeld.onlooker).upTo threeMinutes (.init .USD 1000 none ((), 0)) 3 = .error err := h'
    rw [h'] at hrun
    cases hrun

end StratForge
