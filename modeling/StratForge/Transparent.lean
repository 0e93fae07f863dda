import StratForge.EveryOutcome
import StratForge.Shadows
import StratForge.Unlinked

/-!
# A collector that only collects

In collect-only mode, or without an inference context, the collector lets every order pass with its size, and with bars
in every feed nothing that it reads throws. A strategy that cannot tell candidate ids apart (`Blind`) then does the same
with the collector as without: bar by bar the two engines are twins (`Sim.upTo`), with the same books up to candidate ids.
-/

namespace StratForge

variable {α V W : Type}

/-- Both throw the same, or both return, and `R` relates what they return. -/
def SameEnd {ε A B : Type} (R : A → B → Prop) : Except ε A → Except ε B → Prop
  | .ok a, .ok b => R a b
  | .error e, .error e' => e' = e
  | _, _ => False

namespace SameEnd
variable {ε A B A' B' : Type} {R : A → B → Prop} {Q : A' → B' → Prop} {x : Except ε A} {x' : Except ε B}

theorem cases (h : SameEnd R x x') : (∃ a b, x = .ok a ∧ x' = .ok b ∧ R a b) ∨ ∃ e, x = .error e ∧ x' = .error e := by
  cases x with
  | error e =>
    cases x' with
    | error e' => exact .inr ⟨e, rfl, congrArg _ h⟩
    | ok b => exact h.elim
  | ok a =>
    cases x' with
    | error e' => exact h.elim
    | ok b => exact .inl ⟨a, b, rfl, rfl, h⟩

theorem bind (h : SameEnd R x x') {f : A → Except ε A'} {f' : B → Except ε B'}
    (hf : ∀ a b, x = .ok a → R a b → SameEnd Q (f a) (f' b)) : SameEnd Q (x >>= f) (x' >>= f') := by
  rcases h.cases with ⟨a, b, rfl, rfl, h⟩ | ⟨e, rfl, rfl⟩
  exacts [hf a b rfl h, rfl]

theorem imp (h : SameEnd R x x') {Q : A → B → Prop} (hQ : ∀ a b, R a b → Q a b) : SameEnd Q x x' := by
  rcases h.cases with ⟨a, b, rfl, rfl, h⟩ | ⟨e, rfl, rfl⟩
  exacts [hQ a b h, rfl]

theorem refl (x : Except ε A) : SameEnd Eq x x := by
  cases x with
  | error e => exact rfl
  | ok a => exact rfl

end SameEnd

namespace Cerebro
open BackBroker

/-! ### Engines that are the same up to candidate ids -/

/-- Two engines whose strategies and callbacks do the same with paired brokers, on the clocks `K`. -/
structure Sim (c : Cerebro α W) (c' : Cerebro α V) (S : W → V → Prop) (K : Clock α → Prop) : Prop where
  listener : ∀ {clock}, K clock → (c.listener clock).Sim (c'.listener clock) S
  call : ∀ ph {clock} si {b b'}, K clock → Paired S b b' →
    (c'.call ph clock si b').2 = (c.call ph clock si b).2 ∧ S (c.call ph clock si b).1 (c'.call ph clock si b').1
  closing : ∀ n {clock b b'}, K clock → Paired S b b' → S (c.closing n clock b) (c'.closing n clock b')
  opening : ∀ {w v}, S w v → S (c.opening w) (c'.opening v)
  minimumPeriod : ∀ {w v}, S w v → c'.minimumPeriod v = c.minimumPeriod w
  strategies : c'.strategies = c.strategies
  fuel : c'.fuel = c.fuel

/-- The same clock, paired brokers, and the same strategies in `next`. -/
structure Twins (S : W → V → Prop) (e : CerebroState α W) (e' : CerebroState α V) : Prop where
  clock : e'.clock = e.clock
  broker : Paired S e.broker e'.broker
  entered : e'.entered = e.entered

namespace Sim
variable [Arith α] {c : Cerebro α W} {c' : Cerebro α V} {S : W → V → Prop} {K : Clock α → Prop} {clock : Clock α}
  {feeds : DataFeed α × List (DataFeed α)}
  {b : BackBroker α W} {b' : BackBroker α V} {e : CerebroState α W} {e' : CerebroState α V} (hS : c.Sim c' S K)
include hS

theorem drive (hK : K clock) (ph : Lifecycle) (si n : Nat) (hp : Paired S b b') :
    Paired S ((c.listener clock).drive c.fuel (c.call ph clock si) n b)
      ((c'.listener clock).drive c'.fuel (c'.call ph clock si) n b') := by
  induction n generalizing b b' with
  | zero => exact hp
  | succ n ih =>
    obtain ⟨hcmd, hworld⟩ := hS.call ph si hK hp
    unfold Listener.drive
    generalize c.call ph clock si b = r at hcmd hworld
    generalize c'.call ph clock si b' = r' at hcmd hworld
    obtain ⟨w, cmd⟩ := r
    obtain ⟨v, cmd'⟩ := r'
    cases hcmd
    cases cmd with
    | none => exact hp.worlds hworld
    | some cmd =>
      refine ih ?_
      rw [hS.fuel]
      exact ((hS.listener hK).hooks c.fuel).exec (hp.worlds hworld) cmd

theorem phase (hK : K clock) (ph : Lifecycle) (si : Nat) (hp : Paired S b b') :
    Paired S (c.phase ph clock b si) (c'.phase ph clock b' si) := by
  have h := hS.drive hK ph si c.fuel hp
  unfold Cerebro.phase
  rwa [hS.fuel] at h ⊢

theorem turn (hK : K clock) (si : Nat) (entered : List Bool) (hp : Paired S b b') :
    ∃ b₁ b₁' entered', c.turn clock (b, entered) si = (b₁, entered') ∧ c'.turn clock (b', entered) si = (b₁', entered') ∧
      Paired S b₁ b₁' := by
  have hready : c'.ready clock b'.world si = c.ready clock b.world si := by
    unfold ready
    rw [hS.minimumPeriod hp.world]
  have hphase := fun ph => hS.phase hK ph si hp
  unfold Cerebro.turn
  dsimp only
  rw [hready]
  split_ifs
  exacts [⟨_, _, _, rfl, rfl, hphase .next⟩, ⟨_, _, _, rfl, rfl, hphase .nextstart⟩, ⟨_, _, _, rfl, rfl, hphase .prenext⟩]

theorem turns (hK : K clock) (is : List Nat) (entered : List Bool) (hp : Paired S b b') :
    ∃ b₁ b₁' entered', is.foldl (c.turn clock) (b, entered) = (b₁, entered') ∧
      is.foldl (c'.turn clock) (b', entered) = (b₁', entered') ∧ Paired S b₁ b₁' := by
  induction is generalizing b b' entered with
  | nil => exact ⟨b, b', entered, rfl, rfl, hp⟩
  | cons si is ih =>
    obtain ⟨b₁, b₁', entered₁, h, h', hp⟩ := hS.turn hK si entered hp
    rw [List.foldl_cons, List.foldl_cons, h, h']
    exact ih entered₁ hp

theorem trade (n : Nat) (hK : K e.clock) (ht : Twins S e e') : Twins S (c.trade n e) (c'.trade n e') := by
  have hpass := ((hS.listener hK).hooks c.fuel).processOrders ht.broker e.clock.feeds
  obtain ⟨b₁, b₁', entered, h, h', hp⟩ := hS.turns hK (List.range c.strategies) e.entered hpass
  unfold Cerebro.trade Cerebro.hooks
  rw [ht.clock, ht.entered, hS.strategies, hS.fuel]
  dsimp only
  rw [h, h']
  exact ⟨rfl, hp.worlds (hS.closing n hK hp), rfl⟩

theorem start (hK : K (Clock.start feeds)) (hp : Paired S b b') : SameEnd (Twins S) (c.start feeds b) (c'.start feeds b') := by
  have hwarm : ∀ {w v}, S w v → c'.checkWarmup (Clock.start feeds) v = c.checkWarmup (Clock.start feeds) w := fun hw => by
    unfold checkWarmup
    rw [hS.strategies, hS.minimumPeriod hw]
  have hb := List.foldl_rel (l := List.range c.strategies) hp fun si _ b b' hp =>
    hS.phase hK .start si (hS.phase hK .init si hp)
  unfold Cerebro.start
  rw [hS.strategies]
  dsimp only
  refine (SameEnd.refl _).bind fun _ _ _ _ => ?_
  rw [hwarm hb.world]
  refine (SameEnd.refl _).bind fun _ _ _ _ => ?_
  exact ⟨rfl, hb.worlds (hS.opening hb.world), rfl⟩

omit hS [Arith α] in
theorem gate (n : Nat) (ht : Twins S e e') : SameEnd (Twins S) (Cerebro.gate n e) (Cerebro.gate n e') := by
  unfold Cerebro.gate
  rw [ht.clock]
  refine (SameEnd.refl _).bind fun clock _ _ heq => ?_
  cases heq
  exact ⟨rfl, ht.broker.write (·.setBarIndex n) rfl rfl rfl rfl, ht.entered⟩

/-- Bar by bar the two runs are in states that are twins, or have ended with the same error. -/
theorem upTo (hK : ∀ t clock, clock.Along feeds t → K clock) (hp : Paired S b b') {n : Nat} (hn : n ≤ feeds.1.size) :
    SameEnd (Twins S) (c.upTo feeds b n) (c'.upTo feeds b' n) := by
  induction n with
  | zero => exact hS.start (hK 0 _ (Clock.along_start feeds)) hp
  | succ n ih =>
    refine (ih (by omega)).bind fun e e' he ht => ?_
    refine (gate n ht).bind fun e₁ e₁' he₁ ht => ?_
    have hgated : c.gated feeds b n = .ok e₁ := by
      unfold gated
      rw [he]
      exact he₁
    have htrade := hS.trade n (hK n _ (c.along_gated hgated hn)) ht
    show Twins S _ _
    rw [htrade.clock]
    split_ifs
    exacts [⟨rfl, htrade.broker, htrade.entered⟩, htrade]

end Sim
end Cerebro

/-! ### A collector that only collects -/

namespace Collector
variable [Arith α] {cl : Collector α} {feeds : List (DataFeed α)}

/-- It does not ask the inference context, and has not thrown. -/
structure Passive (cl : Collector α) : Prop where
  mode : cl.config.corrective.state = .kCollectOnly ∨ cl.infer = none
  returned : cl.failed = false

variable (hcl : cl.Passive)
include hcl

theorem Passive.judge (id : Nat) (features : Vector α kPopFeatureCountV1) (size : α) :
    cl.judge id features size = ⟨-1, .kCollectOnly, size⟩ := by
  unfold Collector.judge
  rcases hcl.mode with h | h
  · rw [if_pos h]
  · rw [h]
    exact ite_self _

theorem Passive.onTradeClosed (t : Trade α) : (cl.onTradeClosed t).Passive := by
  rcases cl.onTradeClosed_cases t with h | ⟨-, -, h⟩ <;> rw [h]
  exacts [hcl, ⟨hcl.mode, hcl.returned⟩]

theorem Passive.hear (ev : Event α) (answer : Option (Cmd α)) : (cl.hear ev answer).Passive := by
  rcases hear_cases ev answer with heq | ⟨-, t, -, -, -, heq⟩ <;> rw [heq]
  exacts [hcl, hcl.onTradeClosed t]

variable [Floating α] (hfeeds : ∀ f ∈ feeds, f.lines.data ≠ []) (broker : BackBroker α W)
include hfeeds

omit hcl in
theorem build_returns (p : PopFeatureBuilder α) (side : OrderSide) (size : α) (k : Nat) :
    ∃ features, p.build side size k feeds broker = .ok features := by
  obtain ⟨pv, hpv⟩ := BackBroker.portfolioValue_returns_iff.2 (BackBroker.marked_of_nonempty hfeeds broker)
  unfold PopFeatureBuilder.build
  split
  · next feed fi _ hfeed _ =>
    obtain ⟨px, hpx⟩ := BackBroker.close_returns_iff.2 (hfeeds feed (List.mem_of_getElem? hfeed))
    rw [hpx, hpv]
    exact ⟨_, rfl⟩
  · exact ⟨_, rfl⟩

theorem Passive.snapshot (side : OrderSide) (size : α) (k : Nat) : ∃ snap, cl.snapshot side size k feeds broker = .ok snap ∧
    snap.gateVerdict = .kCollectOnly ∧ snap.finalSize = size := by
  obtain ⟨asOf, hasOf⟩ := ShadowLedger.timestampAt_returns hfeeds k
  obtain ⟨features, hfeatures⟩ := build_returns hfeeds broker cl.featureBuilder side size k
  have hjudge := hcl.judge cl.nextCandidateId features size
  unfold Collector.snapshot
  rw [hasOf, hfeatures]
  exact ⟨_, rfl, by rw [hjudge], by rw [hjudge]⟩

/-- Every order passes with its size. -/
theorem Passive.preOrderHook (side : OrderSide) (size : α) (k : Nat) :
    (∃ id, (cl.preOrderHook side size k feeds broker).1 = ⟨id, size, false⟩) ∧
      (cl.preOrderHook side size k feeds broker).2.Passive := by
  obtain ⟨snap, hsnap, hverdict, hsize⟩ := hcl.snapshot hfeeds broker side size k
  have hpre : cl.onPreOrder side size k feeds broker = .ok (⟨0, size, false⟩, cl) ∨
      cl.onPreOrder side size k feeds broker = .ok (⟨snap.candidateId, size, false⟩, cl.issue snap k []) := by
    unfold onPreOrder
    rw [hsnap]
    dsimp only [bind, Except.bind]
    rw [if_neg (show snap.gateVerdict ≠ .kReject by rw [hverdict]; decide), hsize]
    split_ifs
    exacts [.inl rfl, .inl rfl, .inr rfl]
  unfold Collector.preOrderHook
  rcases hpre with h | h <;> rw [h]
  exacts [⟨⟨0, rfl⟩, hcl⟩, ⟨⟨_, rfl⟩, hcl.mode, hcl.returned⟩]

theorem Passive.onBar : (cl.orFailed (cl.onBar feeds broker)).Passive := by
  obtain ⟨pv, hpv⟩ := BackBroker.portfolioValue_returns_iff.2 (BackBroker.marked_of_nonempty hfeeds broker)
  obtain ⟨closed, htick, -⟩ := ShadowLedger.tick_splits hfeeds cl.shadowLedger
  unfold Collector.onBar
  rw [hpv, htick]
  split_ifs
  exacts [hcl, ⟨hcl.mode, hcl.returned⟩]

omit [Floating α] in
theorem Passive.onStop : ∃ cl', cl.onStop feeds broker = .ok cl' ∧ cl'.Passive := by
  have hcensor : ∀ trades : List (Trade α × α), ∃ rs, trades.mapM (fun x => censorTrade feeds x.1) = .ok rs := fun trades => by
    refine Fold.mapM_returns fun x _ => ?_
    obtain ⟨px, hpx⟩ := ShadowLedger.closeAt_returns hfeeds x.1.dataIndex 0
    obtain ⟨ts, hts⟩ := ShadowLedger.timestampAt_returns hfeeds x.1.dataIndex
    unfold censorTrade
    rw [hpx, hts]
    exact ⟨_, rfl⟩
  obtain ⟨shadows, hshadows, -⟩ := ShadowLedger.flush_all hfeeds cl.shadowLedger
  unfold Collector.onStop
  split_ifs
  · exact ⟨cl, rfl, hcl⟩
  · obtain ⟨rs, hrs⟩ := hcensor (broker.openTrades.filter _)
    exact ⟨_, bind_eq_ok.2 ⟨rs, hrs, bind_eq_ok.2 ⟨shadows, hshadows, rfl⟩⟩, hcl.mode, hcl.returned⟩

end Collector

/-! ### The two runs -/

namespace Cerebro
open BackBroker
variable [Arith α] {c : Cerebro α V} {S : V → V → Prop}

/-- The strategies, the analyzers and the observers do the same with brokers that differ in candidate ids only. They may
keep orders and trades with their ids: `S` relates what they capture. -/
structure Blind (c : Cerebro α V) (S : V → V → Prop) : Prop where
  act : ∀ clock ev id {b b' : BackBroker α V}, Paired S b b' →
    ((c.listener clock).act (ev.linked id) b').2 = ((c.listener clock).act ev b).2 ∧
      S ((c.listener clock).act ev b).1 ((c.listener clock).act (ev.linked id) b').1
  call : ∀ ph clock si {b b' : BackBroker α V}, Paired S b b' →
    (c.call ph clock si b').2 = (c.call ph clock si b).2 ∧ S (c.call ph clock si b).1 (c.call ph clock si b').1
  closing : ∀ n clock {b b' : BackBroker α V}, Paired S b b' → S (c.closing n clock b) (c.closing n clock b')
  opening : ∀ {w v}, S w v → S (c.opening w) (c.opening v)
  minimumPeriod : ∀ {w v}, S w v → c.minimumPeriod v = c.minimumPeriod w

/-- The engine `c` without a collector. -/
def bare (c : Cerebro α V) : Cerebro α V :=
  { c with listener := fun clock => { c.listener clock with preOrderHook := Listener.acceptAll } }

omit [Arith α] in
/-- What the strategies see of the broker with a collector. -/
theorem seen {b : BackBroker α (V × Collector α)} {b' : BackBroker α V} (hp : Paired (fun w v => S w.1 v ∧ w.2.Passive) b b') :
    Paired S (b.capture b.world.1) b' := ⟨hp.books, hp.world.1⟩

/-- A collector that only collects is not noticed. -/
theorem Blind.sim [Floating α] (hc : c.Blind S) : c.collecting.Sim c.bare (fun w v => S w.1 v ∧ w.2.Passive)
    fun clock => ∀ f ∈ clock.feeds, f.lines.data ≠ [] where
  listener {clock} hfeeds := by
    constructor
    · intro ev id b b' hp
      obtain ⟨hcmd, hS⟩ := hc.act clock ev id (seen hp)
      rw [act_collecting]
      exact ⟨hcmd, hS, hp.world.2.hear ev _⟩
    · intro side size k b b' hp
      obtain ⟨⟨id, hid⟩, hpassive⟩ := hp.world.2.preOrderHook hfeeds b side size k
      refine ⟨⟨0, ?_⟩, hp.world.1, hpassive⟩
      show _ = { (b.world.2.preOrderHook side size k clock.feeds b).1 with candidateId := 0 }
      rw [hid]
      rfl
  call ph clock si b b' _ hp := by
    obtain ⟨hcmd, hS⟩ := hc.call ph clock si (seen hp)
    exact ⟨hcmd, hS, hp.world.2⟩
  closing n clock b b' hfeeds hp := ⟨hc.closing n clock (seen hp), hp.world.2.onBar hfeeds b⟩
  opening h := ⟨hc.opening h.1, h.2⟩
  minimumPeriod h := hc.minimumPeriod h.1
  strategies := rfl
  fuel := rfl

/-- The run with the collector has the clock, and the broker up to candidate ids, of the run without: its orders with their
statuses, fills, positions, trades, cash and journal, and the value of the portfolio. -/
structure Transparent (e : CerebroState α (V × Collector α)) (e' : CerebroState α V) : Prop where
  clock : e'.clock = e.clock
  books : e'.broker.unlinked = e.broker.unlinked
  entered : e'.entered = e.entered
  value : ∀ feeds, e'.broker.portfolioValue feeds = e.broker.portfolioValue feeds
  valueAt : ∀ feeds dt, e'.broker.portfolioValueAt dt feeds = e.broker.portfolioValueAt dt feeds
  returned : e.broker.world.2.failed = false

theorem Twins.transparent {e : CerebroState α (V × Collector α)} {e' : CerebroState α V}
    (ht : Twins (fun w v => S w.1 v ∧ w.2.Passive) e e') : Transparent e e' where
  clock := ht.clock
  books := ht.broker.books
  entered := ht.entered
  value feeds := ht.broker.read (·.portfolioValue feeds)
  valueAt feeds dt := ht.broker.read (·.portfolioValueAt dt feeds)
  returned := ht.broker.world.2.returned

/-- Collecting only is transparent: bar by bar, and at the end. -/
theorem collect_only_transparent [Floating α] (hc : c.Blind S) (config : CollectorConfig α)
    (infer : Option (Nat → Vector α kPopFeatureCountV1 → α → InferenceResult α)) (feeds : DataFeed α × List (DataFeed α))
    (b : BackBroker α V) (hmode : config.corrective.state = .kCollectOnly ∨ infer = none)
    (hfeeds : ∀ f ∈ feeds.1 :: feeds.2, f.lines.data ≠ []) (hb : S b.world b.world) :
    (∀ n ≤ feeds.1.size, SameEnd Transparent
      (c.collecting.upTo feeds (b.capture (b.world, .start config infer (feeds.2.length + 1))) n) (c.bare.upTo feeds b n)) ∧
    SameEnd Transparent (c.collect config infer feeds b) (c.bare.run feeds b) := by
  have hK : ∀ t (clock : Clock α), clock.Along feeds t → ∀ f ∈ clock.feeds, f.lines.data ≠ [] := by
    intro t clock hal f hf
    obtain ⟨f', hf', hdata⟩ := hal.mem_feeds hf
    rw [hdata]
    exact hfeeds f' hf'
  have hp : Paired (fun w v => S w.1 v ∧ w.2.Passive) (b.capture (b.world, Collector.start config infer (feeds.2.length + 1))) b :=
    ⟨rfl, hb, hmode, rfl⟩
  have hruns : ∀ n ≤ feeds.1.size, _ := fun n hn => hc.sim.upTo hK hp hn
  refine ⟨fun n hn => ?_, ?_⟩
  · exact (hruns n hn).imp fun e e' ht => ht.transparent
  · have hsize : feeds.1.size ≠ 0 := fun h =>
      hfeeds feeds.1 (List.mem_cons_self ..) (List.length_eq_zero_iff.1 (feeds.1.size_eq ▸ h))
    unfold collect run
    rw [if_neg hsize, if_neg hsize, ← bind_pure (c.bare.upTo feeds b feeds.1.size)]
    refine (hruns _ le_rfl).bind fun e e' he ht => ?_
    obtain ⟨t, hal⟩ := c.collecting.along_run he le_rfl hsize
    obtain ⟨cl, hstop, hcl⟩ := ht.broker.world.2.onStop (hK t _ hal) e.broker
    rw [if_neg hsize, ht.broker.world.2.returned, if_neg Bool.false_ne_true, hstop]
    exact Twins.transparent ⟨ht.clock, ht.broker.worlds ⟨ht.broker.world.1, hcl⟩, ht.entered⟩

end Cerebro

theorem buysTwice_blind : buysTwice.Blind Eq where
  act _ _ _ _ _ _ := ⟨rfl, rfl⟩
  call _ _ _ _ _ hp := ⟨hp.read fun b => if b.nextOrderId ≤ 2 then some (Cmd.buy 1 0 none .Market 0) else none, rfl⟩
  closing _ _ _ _ _ := rfl
  opening _ := rfl
  minimumPeriod _ := rfl

/-- Both runs place the two orders and fill them. -/
theorem collect_only_transparent_twice :
    ∃ e e', buysTwice.collect collecting none threeMinutes (.init .USD 1000 none ()) = .ok e ∧
      buysTwice.bare.run threeMinutes (.init .USD 1000 none ()) = .ok e' ∧ e'.broker.executions.length = 2 ∧
      Cerebro.Transparent e e' := by
  obtain ⟨-, hend⟩ := Cerebro.collect_only_transparent buysTwice_blind collecting none threeMinutes (.init .USD 1000 none ()) (.inl rfl)
    (by simp [threeMinutes, DataFeed.timed]) rfl
  have hfills : (buysTwice.bare.run threeMinutes (.init .USD 1000 none ())).toOption.map (·.broker.executions.length) = some 2 := by
    decide +kernel
  rcases hend.cases with ⟨e, e', he, he', ht⟩ | ⟨err, -, he'⟩ <;> rw [he'] at hfills
  · exact ⟨e, e', he, he', Option.some.inj hfills, ht⟩
  · cases hfills

/-- It buys a second time if the first order is a candidate. -/
def buysCandidates : Cerebro ℚ Unit :=
  { Cerebro.silent with
    call := fun _ _ _ b => ((),
      if b.nextOrderId = 1 ∨ b.nextOrderId = 2 ∧ b.allOrders.any (·.candidateId ≠ 0) then some (.buy 1 0 none .Market 0)
      else none)
    fuel := 3 }

/-- A strategy that looks at candidate ids sees whether they are collected. -/
theorem not_transparent_to_every : ¬ ∀ (c : Cerebro ℚ Unit) (config : CollectorConfig ℚ)
    (infer : Option (Nat → Vector ℚ kPopFeatureCountV1 → ℚ → InferenceResult ℚ)) (feeds : DataFeed ℚ × List (DataFeed ℚ))
    (b : BackBroker ℚ Unit), config.corrective.state = .kCollectOnly ∨ infer = none → feeds.2 = [] → feeds.1.lines.data ≠ [] →
      SameEnd Cerebro.Transparent (c.collect config infer feeds b) (c.bare.run feeds b) := by
  intro h
  have hend := h buysCandidates collecting none threeMinutes (.init .USD 1000 none ()) (.inl rfl) rfl
    (by simp [threeMinutes, DataFeed.timed])
  have hcollect : (buysCandidates.collect collecting none threeMinutes (.init .USD 1000 none ())).toOption.map
      (·.broker.allOrders.length) = some 2 := by decide +kernel
  have hbare : (buysCandidates.bare.run threeMinutes (.init .USD 1000 none ())).toOption.map
      (·.broker.allOrders.length) = some 1 := by decide +kernel
  rcases hend.cases with ⟨e, e', he, he', ht⟩ | ⟨err, he, -⟩ <;> rw [he] at hcollect
  · rw [he'] at hbare
    have hlength : e'.broker.allOrders.length = e.broker.allOrders.length := by
      simpa [BackBroker.unlinked] using congrArg (·.allOrders.length) ht.books
    have htwo : e.broker.allOrders.length = 2 := Option.some.inj hcollect
    have hone : e'.broker.allOrders.length = 1 := Option.some.inj hbare
    omega
  · cases hcollect

end StratForge
