import StratForge.EngineCalls

/-!
# What a live engine keeps

`EngineFrames` is the rule for the broker's part of a call: what is called out to keeps the property, and so does a
change of the orders and of the notes. `EngineSteps` is the rule for a whole call, with what its own steps do to the
registers of the engine asked one by one. A property of the positions, of the feeds and of what is captured does not see
the registers (`EngineStays`). A fill and a feed are asked about where they come in.
-/

namespace StratForge

variable {α W : Type} [Arith α]

namespace LiveEngine

/-- No position is opened, and the trades, the feeds and what is captured are as they were. -/
structure Unmoved (e e' : LiveEngine α W) : Prop where
  positions : ∀ p ∈ e'.positions, p ∈ e.positions ∨ p.size = 0
  openTrades : e'.openTrades = e.openTrades
  closedTrades : e'.closedTrades = e.closedTrades
  feeds : e'.engine.feeds = e.engine.feeds
  captured : e'.engine.captured = e.engine.captured
  aborted : e'.engine.aborted = e.engine.aborted

theorem Unmoved.of_eq {e e' : LiveEngine α W} (hp : e'.positions = e.positions)
    (ho : e'.openTrades = e.openTrades) (hcl : e'.closedTrades = e.closedTrades)
    (hf : e'.engine.feeds = e.engine.feeds) (hc : e'.engine.captured = e.engine.captured)
    (ha : e'.engine.aborted = e.engine.aborted) : Unmoved e e' :=
  ⟨fun _ h => .inl (hp ▸ h), ho, hcl, hf, hc, ha⟩

theorem Unmoved.ensurePosition (e : LiveEngine α W) (k : Nat) : Unmoved e (e.ensurePosition k) := by
  refine ⟨fun p hp => ?_, rfl, rfl, rfl, rfl, rfl⟩
  unfold BackBroker.ensurePosition Position.ensure at hp
  dsimp only at hp
  split at hp
  · exact .inl hp
  · rcases List.mem_append.1 hp with hp | hp
    · exact .inl hp
    · obtain rfl := List.mem_singleton.1 hp
      exact .inr rfl

/-- What the limiter, the kill switch and the reconnection read and write. -/
def regs (e : LiveEngine α W) : LiveRiskLimits α × Bool × Int × List Int × List (Offer α) × Nat × List Link :=
  (e.engine.limits, e.engine.killSwitchTriggered, e.engine.now, e.engine.orderTimestamps, e.engine.offers,
    e.engine.reconnectAttempts, e.engine.links)

/-- The registers of the reconnection. -/
def contact (e : LiveEngine α W) : LiveRiskLimits α × Nat × List Link :=
  (e.engine.limits, e.engine.reconnectAttempts, e.engine.links)

omit [Arith α] in
theorem contact_eq {e e' : LiveEngine α W} (h : e'.regs = e.regs) : e'.contact = e.contact := by
  unfold regs at h
  simp only [Prod.mk.injEq] at h
  obtain ⟨hl, -, -, -, -, ha, hls⟩ := h
  unfold contact
  rw [hl, ha, hls]

/-- One more attempt to connect. -/
def redialled (e : LiveEngine α W) : LiveEngine α W :=
  modify (fun g => { g with reconnectAttempts := g.reconnectAttempts + 1, links := g.links ++ [.reconnect] }) e

/-- A new feed, with no bar yet. -/
def addFeed (symbol : String) (e : LiveEngine α W) : LiveEngine α W :=
  setSymbols (modify (fun g => { g with feeds := g.feeds ++ [(symbol, {})] }) e)

/-- A bar for the `i`-th feed. -/
def pushBar (i : Nat) (s : MarketDataSnapshot α) (e : LiveEngine α W) : LiveEngine α W :=
  modify (fun g => { g with feeds := g.feeds.modify i fun (n, f) => (n, f.pushSnapshot s) }) e

/-- What a snapshot reports filled, beyond the stored one. -/
def fillSize (t : Trade α) (e : LiveEngine α W) : α := t.size - ((e.world.snapshots t.id).map Trade.size).getD 0

/-- A fill on the position, before anything is called. -/
def moved (o : Order α) (t : Trade α) (e : LiveEngine α W) : LiveEngine α W :=
  let prev := e.world.snapshots t.id
  let delta := t.size - (prev.map Trade.size).getD 0
  let price := BackBroker.liveFillPrice prev t
  let comm := t.commission - (prev.map Trade.commission).getD 0
  ((((e.liveNote (.booking o prev t)).setBusy (o.id :: e.world.busy)).pay (e.settleCcy o.dataIndex)
    (delta * price + comm)).ensurePosition o.dataIndex).updatePosition o.dataIndex delta price

/-- A fill on the position and on the trades. -/
def booked (hooks : LiveHooks α (Engine α W)) (o : Order α) (t : Trade α) (e : LiveEngine α W) : LiveEngine α W :=
  let prev := e.world.snapshots t.id
  ((e.liveNote (.booking o prev t)).setBusy (o.id :: e.world.busy)).bookLive hooks o (fillSize t e)
    (BackBroker.liveFillPrice prev t) (t.commission - (prev.map Trade.commission).getD 0) t

/-- What is true of an engine before each call-out is true after it, and nothing else touches it but the registers. -/
structure EngineFrames (env : Env α W) (P : LiveEngine α W → Prop) : Prop where
  frame : ∀ {e e'}, Unmoved e e' → e'.regs = e.regs → P e → P e'
  call : ∀ ev {e}, ev ≠ .connect → P e → P (env.call ev e)
  hook : ∀ side size k {e}, P e → P (modify ({ · with captured := (env.preOrderHook side size k e).2 }) e)

namespace EngineFrames
variable {env : Env α W} {P : LiveEngine α W → Prop} (hS : EngineFrames env P) {e : LiveEngine α W}
  {submit : Order α → LiveEngine α W → LiveEngine α W} {trigger : Trigger α W}
include hS

/-- A change of the orders, of the broker's notes or of the engine's other flags. -/
theorem same {e' : LiveEngine α W} (he : P e) (hp : e'.positions = e.positions) (ho : e'.openTrades = e.openTrades)
    (hcl : e'.closedTrades = e.closedTrades) (hf : e'.engine.feeds = e.engine.feeds)
    (hc : e'.engine.captured = e.engine.captured) (ha : e'.engine.aborted = e.engine.aborted) (hr : e'.regs = e.regs) : P e' :=
  hS.frame (.of_eq hp ho hcl hf hc ha) hr he

theorem announce (o : Order α) (he : P e) : P (BackBroker.announce (hooksWith env submit) o e) := by
  have hwrite : ∀ {e : LiveEngine α W} (o : Order α), P e → P (e.syncBoth o) := fun o he => hS.same he rfl rfl rfl rfl rfl rfl rfl
  exact hS.call _ nofun (hwrite _ (hS.call _ nofun (hwrite _ he)))

/-! ### The broker's commands -/

theorem submitLiveOrder (hsub : ∀ o {e}, P e → P (submit o e)) (side : OrderSide) (size : α) (params : OrderParams α)
    (he : P e) {id : Nat} {e' : LiveEngine α W}
    (h : BackBroker.submitLiveOrder (hooksWith env submit) side size params e = .ok (id, e')) : P e' := by
  unfold BackBroker.submitLiveOrder at h
  split at h
  · cases h
  · have h1 := hS.hook side size params.dataIndex he
    rw [show (hooksWith env submit).preOrderHook side size params.dataIndex e =
      ((env.preOrderHook side size params.dataIndex e).1, (modify ({ · with captured :=
        (env.preOrderHook side size params.dataIndex e).2 }) e : LiveEngine α W).world) from rfl] at h
    dsimp only at h
    split at h
    · cases h
      exact h1
    · cases h
      have h2 : ∀ (o : Order α) ids, P (((modify ({ · with captured := (env.preOrderHook side size params.dataIndex e).2 }) e :
          LiveEngine α W).pushOrder o).setBusy ids) := fun o ids => hS.same h1 rfl rfl rfl rfl rfl rfl rfl
      have h3 : ∀ (o : Order α) ids, P (BackBroker.announce (hooksWith env submit) o (((modify ({ · with
          captured := (env.preOrderHook side size params.dataIndex e).2 }) e : LiveEngine α W).pushOrder o).setBusy ids)) :=
        fun o ids => hS.announce o (h2 o ids)
      exact hsub _ (hS.same (h3 _ _) rfl rfl rfl rfl rfl rfl rfl)

theorem orUnchanged (hsub : ∀ o {e}, P e → P (submit o e)) (side : OrderSide) (size : α) (params : OrderParams α)
    (he : P e) : P (e.orUnchanged ((BackBroker.submitLiveOrder (hooksWith env submit) side size params e).map Prod.snd)) := by
  cases h : BackBroker.submitLiveOrder (hooksWith env submit) side size params e with
  | error err => exact he
  | ok r => exact hS.submitLiveOrder hsub side size params he h

theorem closeLive (hsub : ∀ o {e}, P e → P (submit o e)) (k : Nat) (he : P e) :
    P (BackBroker.closeLive (hooksWith env submit) k e).1 := by
  have h1 : P (e.ensurePosition k) := hS.frame (.ensurePosition e k) rfl he
  unfold BackBroker.closeLive BackBroker.liveOrder
  dsimp only
  split
  · exact h1
  · split
    · rename_i h
      exact hS.submitLiveOrder hsub _ _ _ h1 h
    · exact h1

theorem cancelLiveOrder (id : Nat) (he : P e) :
    P (e.orUnchanged (BackBroker.cancelLiveOrder (hooksWith env submit) id e)) := by
  unfold BackBroker.cancelLiveOrder
  split
  · exact he
  · have h1 := hS.call (.cancelOrder id) nofun he
    dsimp only
    split
    · exact h1
    · refine hS.call _ nofun (hS.same h1 ?_ ?_ ?_ ?_ ?_ ?_ ?_) <;> split <;> rfl

theorem submitOrderExt (side : OrderSide) (size : α) (params : OrderParams α) (he : P e) :
    P (BackBroker.submitOrderExt (hooksWith env submit).toHooks side size params e).2 := by
  have h1 := hS.hook side size params.dataIndex he
  unfold BackBroker.submitOrderExt
  rw [show (hooksWith env submit).preOrderHook side size params.dataIndex e =
    ((env.preOrderHook side size params.dataIndex e).1, (modify ({ · with captured :=
      (env.preOrderHook side size params.dataIndex e).2 }) e : LiveEngine α W).world) from rfl]
  dsimp only
  split
  · exact h1
  · exact hS.same h1 rfl rfl rfl rfl rfl rfl rfl

theorem bracketLive (mainSide legSide : OrderSide) (size limitPrice stopPrice : α) (k : Nat) (he : P e) :
    P (BackBroker.bracketLive (hooksWith env submit) mainSide legSide size limitPrice stopPrice k e) := by
  have h0 : P { e with nextOcoGroupId := e.nextOcoGroupId + 1 } := hS.same he rfl rfl rfl rfl rfl rfl rfl
  have hlink : ∀ {e : LiveEngine α W} id ids, P e → P (e.linkChildren id ids) := fun id ids he => hS.same he rfl rfl rfl rfl rfl rfl rfl
  have hnote : ∀ {e : LiveEngine α W} n, P e → P (e.liveNote n) := fun n he => hS.same he rfl rfl rfl rfl rfl rfl rfl
  unfold BackBroker.bracketLive BackBroker.bracket BackBroker.submitOrder
  exact hnote _ (hlink _ _ (hS.submitOrderExt _ _ _ (hS.submitOrderExt _ _ _ (hS.submitOrderExt _ _ _ h0))))

theorem execLive (hsub : ∀ o {e}, P e → P (submit o e)) (c : Cmd α) (he : P e) :
    P (e.execLive (hooksWith env submit) c) := by
  cases c with
  | buy | sell | buyExt | sellExt => exact hS.orUnchanged hsub _ _ _ he
  | buyBracket | sellBracket => exact hS.bracketLive _ _ _ _ _ _ he
  | close k => exact hS.closeLive hsub k he
  | cancelOrder id => exact hS.cancelLiveOrder id he
  | nextOcoGroup => exact hS.same he rfl rfl rfl rfl rfl rfl rfl

/-! ### Fills -/

/-- What a fill does to the trades, where they are not looked at. -/
theorem updateTrades (hblind : ∀ {e e' : LiveEngine α W}, P e → e'.positions = e.positions → e'.world = e.world → P e')
    (k : Nat) (old s p c : α) (bar : Nat) (dt : DateTime) (cand : Nat) (he : P e) :
    P (e.updateTrades (hooksWith env submit).toHooks k old s p c bar dt cand) := by
  have hretire : ∀ i t orig, P (e.retireTrade (hooksWith env submit).toHooks i t orig) := by
    intro i t orig
    have h1 : P { e with openTrades := e.openTrades.set i (t, orig), closedTrades := e.closedTrades ++ [(t, orig)] } :=
      hblind he rfl rfl
    exact hblind (hS.call (.trade t orig) nofun h1) rfl rfl
  have hopen : ∀ {e' : LiveEngine α W} s p c, P e' → P (e'.openTrade k s p c bar dt cand) := fun s p c h => hblind h rfl rfl
  unfold BackBroker.updateTrades
  dsimp only
  split_ifs
  · exact hopen _ _ _ he
  · exact hblind he rfl rfl
  · split
    · exact he
    · split_ifs
      · exact hopen _ _ _ (hretire ..)
      · exact hretire ..
      · exact hblind he rfl rfl

/-- A fill whose move of the position is right is booked right, where the trades are not looked at. -/
theorem of_moved (hblind : ∀ {e e' : LiveEngine α W}, P e → e'.positions = e.positions → e'.world = e.world → P e')
    (o : Order α) (t : Trade α) (h : P (moved o t e)) : P (booked (hooksWith env submit) o t e) := by
  unfold booked BackBroker.bookLive
  exact hS.updateTrades hblind _ _ _ _ _ _ _ _ h

theorem applyLiveExecution (o : Order α) (s p c : α) (t : Trade α)
    (h : P ((e.setBusy (o.id :: e.world.busy)).bookLive (hooksWith env submit) o s p c t)) :
    P (e.applyLiveExecution (hooksWith env submit) o s p c t) := by
  have hcall : ∀ {e : LiveEngine α W} (x : Order α), P e → P (env.call (.order x) (e.syncBoth x)) := fun x he =>
    hS.call _ nofun (hS.same he rfl rfl rfl rfl rfl rfl rfl)
  have herase : ∀ {e : LiveEngine α W} id, P e → P (e.erasePending id) := fun id he => hS.same he rfl rfl rfl rfl rfl rfl rfl
  have hbusy : P (((e.setBusy (o.id :: e.world.busy)).bookLive (hooksWith env submit) o s p c t).setBusy e.world.busy) :=
    hS.same h rfl rfl rfl rfl rfl rfl rfl
  unfold BackBroker.applyLiveExecution
  dsimp only
  split
  · exact hbusy
  · split
    · exact herase _ (hcall _ hbusy)
    · exact hcall _ hbusy

theorem recordLiveFill (t : Trade α) (hbook : ∀ o, e.findOrder t.id = some o → ¬ Arith.abs (fillSize t e) < 1e-12 →
    P (booked (hooksWith env submit) o t e)) (he : P e) : P (e.recordLiveFill (hooksWith env submit) t) := by
  have hsnap : ∀ {e : LiveEngine α W} v, P e → P (e.setSnapshot t.id v) := fun v he => hS.same he rfl rfl rfl rfl rfl rfl rfl
  unfold BackBroker.recordLiveFill
  split
  · exact he
  · rename_i o hf
    dsimp only
    split
    · exact hsnap _ he
    · rename_i hsize
      have happ : P ((e.liveNote (.booking o (e.world.snapshots t.id) t)).applyLiveExecution (hooksWith env submit) o
          (fillSize t e) (BackBroker.liveFillPrice (e.world.snapshots t.id) t)
          (t.commission - ((e.world.snapshots t.id).map Trade.commission).getD 0) t) :=
        hS.applyLiveExecution o _ _ _ t (hbook o hf hsize)
      split
      · exact hsnap _ (hsnap _ happ)
      · exact hsnap _ happ

/-! ### The kill switch and the feeds -/

theorem closeFrom (hsub : ∀ o {e}, P e → P (submit o e)) : ∀ fuel k {e}, P e →
    P (closeFrom (hooksWith env submit) k fuel e).1
  | 0, _, _, he => he
  | fuel + 1, k, e, he => by
    unfold LiveEngine.closeFrom
    split
    · exact he
    · split
      · exact closeFrom hsub fuel (k + 1) he
      · have h1 : P (modify ({ · with raised := none }) e) := hS.same he rfl rfl rfl rfl rfl rfl rfl
        have h2 := hS.closeLive hsub k h1
        rcases hr : BackBroker.closeLive (hooksWith env submit) k (modify ({ · with raised := none }) e) with ⟨e2, _ | err⟩
        · rw [hr] at h2
          dsimp only
          split
          · exact h2
          · exact closeFrom hsub fuel (k + 1) h2
        · rw [hr] at h2
          exact h2

theorem flattenPositions (hsub : ∀ own o {e}, P e → P (submitOrder env trigger own o e)) (he : P e) :
    P (flattenPositions env trigger e).1 := by
  have h1 : P (modify (fun g => { g with flattening := true, flattens := g.flattens ++ [e.world.events.length] }) e) :=
    hS.same he rfl rfl rfl rfl rfl rfl rfl
  have h2 := hS.closeFrom (hsub (some e.engine.flattens.length))
    (e.engine.feeds.length + env.spare) 0 h1
  unfold LiveEngine.flattenPositions
  dsimp only
  split
  · rename_i hr
    exact (congrArg (P ·.1) hr).mp h2
  · rename_i hr
    exact hS.same ((congrArg (P ·.1) hr).mp h2) rfl rfl rfl rfl rfl rfl rfl

theorem ensureFeed (symbol : String) (hadd : e.engine.feeds.any (·.1 == symbol) = false → P (addFeed symbol e)) (he : P e) :
    P (ensureFeed env symbol e) := by
  unfold LiveEngine.ensureFeed
  split
  · exact he
  · rename_i hnew
    have hadded := hadd (Bool.eq_false_iff.2 hnew)
    dsimp only
    split
    · exact hS.call _ (fun h => by cases h) hadded
    · exact hadded

theorem subscribeAll (he : P e) : P (subscribeAll env e) :=
  Fold.foldl_ind P e.engine.feeds e he fun _ _ _ h => hS.call _ nofun h

/-! ### The limiter, where it is not looked at -/

theorem submitOrder (hblind : ∀ {e e' : LiveEngine α W}, P e → Unmoved e e' → e'.contact = e.contact → P e')
    (ht : ∀ reason {e}, P e → P (trigger reason e).1) (own : Option Nat) (o : Order α) (he : P e) :
    P (submitOrder env trigger own o e) := by
  have hrate : P (checkOrderRate trigger e).2.1 := by
    have hstamps : P (modify ({ · with orderTimestamps := window e }) e) :=
      hblind he (.of_eq rfl rfl rfl rfl rfl rfl) rfl
    unfold checkOrderRate
    split
    · exact he
    · dsimp only
      split_ifs
      · exact he
      · exact ht _ hstamps
      · exact hblind hstamps (.of_eq rfl rfl rfl rfl rfl rfl) rfl
  unfold LiveEngine.submitOrder
  rcases hr : checkOrderRate trigger e with ⟨passed, e1, raised⟩
  rw [hr] at hrate
  dsimp only at hrate ⊢
  have hoffer : P (modify (fun g => { g with offers := g.offers ++ [⟨o, own, e.engine.killSwitchTriggered,
      e.engine.flattening, (window e).length, passed, e.engine.now⟩] }) e1) :=
    hblind hrate (.of_eq rfl rfl rfl rfl rfl rfl) rfl
  split
  · exact hS.same (hS.call (.submitOrder o) nofun hoffer) rfl rfl rfl rfl rfl rfl rfl
  · exact hS.same hoffer rfl rfl rfl rfl rfl rfl rfl

theorem triggerKillSwitch (hblind : ∀ {e e' : LiveEngine α W}, P e → Unmoved e e' → e'.contact = e.contact → P e')
    (reason : String) (he : P e) : P (triggerKillSwitch env reason e).1 := by
  have h1 : P (modify ({ · with killSwitchTriggered := true, killSwitchReason := reason }) e) :=
    hblind he (.of_eq rfl rfl rfl rfl rfl rfl) rfl
  unfold LiveEngine.triggerKillSwitch
  dsimp only
  split_ifs
  · exact he
  · exact hS.flattenPositions (fun own o _ h => hS.submitOrder hblind (fun _ _ h => h) own o h) h1
  · exact h1

end EngineFrames

/-! ### Calls -/

/-- What has to be asked of a call: that it may book its fill, and that it may add its feed. -/
structure EngineStays.Asks (env : Env α W) (P : LiveEngine α W → Prop) (c : EngineCmd α) (e : LiveEngine α W) : Prop where
  fill : ∀ t o, c = .fill t → e.engine.aborted = false → e.engine.active = true → e.findOrder t.id = some o →
    ¬ Arith.abs (fillSize t e) < 1e-12 → P (booked (hooks env) o t e)
  feed : ∀ symbol, c = .subscribe symbol ∨ (∃ s : MarketDataSnapshot α, c = .marketData s ∧ s.symbol = symbol) →
    e.engine.feeds.any (·.1 == symbol) = false → P (addFeed symbol e)

/-- The steps of the engine that write a register keep the property. -/
structure EngineSteps (env : Env α W) (P : LiveEngine α W → Prop) : Prop extends EngineFrames env P where
  submit : ∀ own o {e}, P e → P (submitOrder env (triggerKillSwitch env) own o e)
  trigger : ∀ reason {e}, P e → P (triggerKillSwitch env reason e).1
  reconnect : ∀ {e}, e.engine.reconnectAttempts < e.engine.limits.maxReconnectAttempts → P e →
    P (env.call .connect (redialled e))
  tick : ∀ (d : Nat) {e}, P e → P (modify (fun g => { g with now := g.now + d }) e)

/-- Where the limiter is not looked at, the reconnection is all that has to be. -/
theorem EngineFrames.steps {env : Env α W} {P : LiveEngine α W → Prop} (hS : EngineFrames env P)
    (hblind : ∀ {e e' : LiveEngine α W}, P e → Unmoved e e' → e'.contact = e.contact → P e')
    (hredial : ∀ {e}, e.engine.reconnectAttempts < e.engine.limits.maxReconnectAttempts → P e →
      P (env.call .connect (redialled e))) : EngineSteps env P where
  toEngineFrames := hS
  submit own o _ h := hS.submitOrder hblind (fun reason _ h => hS.triggerKillSwitch hblind reason h) own o h
  trigger reason _ h := hS.triggerKillSwitch hblind reason h
  reconnect := hredial
  tick _ _ h := hblind h (.of_eq rfl rfl rfl rfl rfl rfl) rfl

namespace EngineSteps
variable {env : Env α W} {P : LiveEngine α W → Prop} (hS : EngineSteps env P) {e : LiveEngine α W}
include hS

/-- Where the portfolio has no value, the engine aborts. -/
theorem evaluateRiskLimits (habort : ∀ {e err}, P e → e.portfolioValue (e.engine.feeds.map Prod.snd) = .error err → P (abort e))
    (he : P e) : P (evaluateRiskLimits env e) := by
  unfold LiveEngine.evaluateRiskLimits
  split
  · exact he
  · split
    · rename_i hv
      exact habort he hv
    have h1 : ∀ peak, P (modify ({ · with peakPortfolioValue := peak }) e) := fun peak => hS.same he rfl rfl rfl rfl rfl rfl rfl
    dsimp only
    split_ifs <;> first | exact hS.trigger _ (h1 _) | exact h1 _

theorem handleMarketData (habort : ∀ {e err}, P e → e.portfolioValue (e.engine.feeds.map Prod.snd) = .error err → P (abort e))
    (hpush : ∀ i s {e}, P e → P (pushBar i s e)) (s : MarketDataSnapshot α) (hsnap : ∀ {e}, P e → P (received e))
    (hadd : e.engine.feeds.any (·.1 == s.symbol) = false → P (addFeed s.symbol e)) (he : P e) :
    P (handleMarketData env s e) := by
  have h0 : P (received e) := hsnap he
  have h1 : P (LiveEngine.ensureFeed env s.symbol (received e)) :=
    hS.ensureFeed s.symbol (fun hnew => hsnap (hadd hnew)) h0
  have h2 : ∀ i n, P (BackBroker.setBarIndex (pushBar i s (LiveEngine.ensureFeed env s.symbol (received e))) n) := fun i n =>
    hS.same (hpush i s h1) rfl rfl rfl rfl rfl rfl rfl
  unfold LiveEngine.handleMarketData
  refine hS.evaluateRiskLimits habort ?_
  dsimp only
  split_ifs
  · exact hS.call _ nofun (h2 _ _)
  · exact hS.same (hS.call (.strategy .nextstart) nofun (h2 _ _)) rfl rfl rfl rfl rfl rfl rfl
  · exact hS.call _ nofun (h2 _ _)

theorem tryReconnect (he : P e) : P (tryReconnect env e) := by
  unfold LiveEngine.tryReconnect
  dsimp only
  split_ifs
  · exact he
  · exact hS.trigger _ he
  · next hmax => exact hS.subscribeAll (hS.reconnect (Nat.lt_of_not_le hmax) he)

theorem handleConnectorState (s : ConnectorState) (he : P e) : P (handleConnectorState env s e) := by
  unfold LiveEngine.handleConnectorState
  dsimp only
  split_ifs
  · exact hS.tryReconnect (hS.call _ nofun he)
  · exact hS.trigger _ (hS.call _ nofun he)
  · exact hS.call _ nofun he

theorem checkHeartbeat (now : Int) (he : P e) : P (checkHeartbeat env now e) := by
  unfold LiveEngine.checkHeartbeat
  split
  · exact he
  · split_ifs
    · exact he
    · exact hS.trigger _ he
    · exact he

theorem start (hconnect : ∀ {e}, P e → P (env.call .connect e)) (he : P e) : P (start env e) := by
  have h1 : P (setSymbols (modify ({ · with live := true }) e)) := hS.same he rfl rfl rfl rfl rfl rfl rfl
  have h2 := hS.call (.strategy .start) nofun (hS.call (.strategy .init) nofun h1)
  have h3 : ∀ {e}, P e → P (modify ({ · with active := true }) e) := fun h => hS.same h rfl rfl rfl rfl rfl rfl rfl
  have h4 : ∀ {e}, P e → P (modify (fun g => { g with lastMarketDataTime := g.now, started := true }) e) := fun h =>
    hS.same h rfl rfl rfl rfl rfl rfl rfl
  unfold LiveEngine.start
  split
  · exact he
  · exact h4 (hS.subscribeAll (hconnect (h3 h2)))

theorem stop (he : P e) : P (stop env e) := by
  have hflat : P (LiveEngine.flattenPositions env (LiveEngine.triggerKillSwitch env) e).1 :=
    hS.flattenPositions hS.submit he
  have hend : ∀ {e}, P e → P (modify ({ · with started := false, active := false })
      (env.call .disconnect (env.call (.strategy .stop) e))) :=
    fun h => hS.same (hS.call .disconnect nofun (hS.call (.strategy .stop) nofun h)) rfl rfl rfl rfl rfl rfl rfl
  unfold LiveEngine.stop
  split
  · exact he
  · split_ifs
    · rcases hr : LiveEngine.flattenPositions env (LiveEngine.triggerKillSwitch env) e with ⟨e', _ | err⟩ <;> rw [hr] at hflat
      exacts [hend hflat, hflat]
    · exact hend he

theorem exec (habort : ∀ {e err}, P e → e.portfolioValue (e.engine.feeds.map Prod.snd) = .error err → P (abort e))
    (hpush : ∀ i s {e}, P e → P (pushBar i s e)) (c : EngineCmd α)
    (hc : EngineStays.Asks env P c e) (hconnect : c = .start → ∀ {e}, P e → P (env.call .connect e))
    (hsnap : ∀ s, c = .marketData s → ∀ {e}, P e → P (received e)) (he : P e) :
    P (exec env c e) := by
  unfold LiveEngine.exec
  split
  · exact he
  · cases c with
    | broker c =>
      dsimp only
      split
      exacts [hS.execLive (hS.submit none) c he, he]
    | marketData s =>
      dsimp only
      split
      exacts [hS.handleMarketData habort hpush s (hsnap s rfl) (hc.feed _ (.inr ⟨s, rfl, rfl⟩)) he, he]
    | fill t =>
      dsimp only
      split
      · rename_i hrun hactive
        exact hS.evaluateRiskLimits habort
          (hS.recordLiveFill t (hc.fill t · rfl (Bool.eq_false_iff.2 hrun) hactive) he)
      · exact he
    | connectorState s =>
      dsimp only
      split
      exacts [hS.handleConnectorState s he, he]
    | subscribe symbol =>
      have hadd := fun h => hc.feed symbol (.inl rfl) (Bool.eq_false_iff.2 h)
      dsimp only [subscribe]
      split_ifs with hknown
      · exact hS.call _ (fun h => by cases h) he
      · exact he
      · exact hS.call _ (fun h => by cases h) (hadd hknown)
      · exact hadd hknown
    | start => exact hS.start (hconnect rfl) he
    | stop => exact hS.stop he
    | replaceStrategy =>
      dsimp only [replaceStrategy]
      split_ifs
      · exact he
      · have hrole : ∀ m {e : LiveEngine α W}, P e → P (env.call (.strategy m) e) := fun m _ he =>
          hS.call _ (fun h => by cases h) he
        exact hS.same (hrole .start (hrole .init (hrole .stop he))) rfl rfl rfl rfl rfl rfl rfl
    | checkHeartbeat now => exact hS.checkHeartbeat now he
    | tryReconnect => exact hS.tryReconnect he
    | tick d => exact hS.tick d he

end EngineSteps

/-! ### What does not see the registers -/

/-- What is true of an engine before each call-out is true after it. -/
structure EngineStays (env : Env α W) (P : LiveEngine α W → Prop) : Prop where
  frame : ∀ {e e'}, Unmoved e e' → P e → P e'
  call : ∀ ev {e}, P e → P (env.call ev e)
  hook : ∀ side size k {e}, P e → P (modify ({ · with captured := (env.preOrderHook side size k e).2 }) e)

namespace EngineStays
variable {env : Env α W} {P : LiveEngine α W → Prop} (hS : EngineStays env P) {e : LiveEngine α W}
  {submit : Order α → LiveEngine α W → LiveEngine α W} {trigger : Trigger α W}
include hS

theorem frames : EngineFrames env P := ⟨fun h _ => hS.frame h, fun ev _ _ h => hS.call ev h, hS.hook⟩

/-- A change of the orders, of the broker's notes or of the engine's own flags. -/
theorem same {e' : LiveEngine α W} (he : P e) (hp : e'.positions = e.positions) (ho : e'.openTrades = e.openTrades)
    (hcl : e'.closedTrades = e.closedTrades) (hf : e'.engine.feeds = e.engine.feeds)
    (hc : e'.engine.captured = e.engine.captured) (ha : e'.engine.aborted = e.engine.aborted) : P e' :=
  hS.frame (.of_eq hp ho hcl hf hc ha) he

theorem blind {e' : LiveEngine α W} (he : P e) (hu : Unmoved e e') (_ : e'.contact = e.contact) : P e' := hS.frame hu he

theorem submitOrder (ht : ∀ reason {e}, P e → P (trigger reason e).1) (own : Option Nat) (o : Order α) (he : P e) :
    P (submitOrder env trigger own o e) := hS.frames.submitOrder hS.blind ht own o he

theorem triggerKillSwitch (reason : String) (he : P e) : P (triggerKillSwitch env reason e).1 :=
  hS.frames.triggerKillSwitch hS.blind reason he

theorem hooks_submit (o : Order α) (he : P e) : P (LiveEngine.submitOrder env (LiveEngine.triggerKillSwitch env) none o e) :=
  hS.submitOrder (fun reason _ h => hS.triggerKillSwitch reason h) none o he

theorem steps : EngineSteps env P :=
  hS.frames.steps hS.blind fun _ h => hS.call _ (hS.same h rfl rfl rfl rfl rfl rfl)

theorem execLive (hsub : ∀ o {e}, P e → P (submit o e)) (c : Cmd α) (he : P e) :
    P (e.execLive (hooksWith env submit) c) := hS.frames.execLive hsub c he

theorem of_moved (hblind : ∀ {e e' : LiveEngine α W}, P e → e'.positions = e.positions → e'.world = e.world → P e')
    (o : Order α) (t : Trade α) (h : P (moved o t e)) : P (booked (hooksWith env submit) o t e) :=
  hS.frames.of_moved hblind o t h

theorem ensureFeed (symbol : String) (hadd : e.engine.feeds.any (·.1 == symbol) = false → P (addFeed symbol e)) (he : P e) :
    P (ensureFeed env symbol e) := hS.frames.ensureFeed symbol hadd he

theorem evaluateRiskLimits (habort : ∀ {e err}, P e → e.portfolioValue (e.engine.feeds.map Prod.snd) = .error err → P (abort e))
    (he : P e) : P (evaluateRiskLimits env e) := hS.steps.evaluateRiskLimits habort he

theorem exec (habort : ∀ {e err}, P e → e.portfolioValue (e.engine.feeds.map Prod.snd) = .error err → P (abort e))
    (hpush : ∀ i s {e}, P e → P (pushBar i s e)) (c : EngineCmd α) (hc : Asks env P c e) (he : P e) :
    P (exec env c e) := hS.steps.exec habort hpush c hc (fun _ _ h => hS.call _ h) (fun _ _ _ h => hS.same h rfl rfl rfl rfl rfl rfl) he

end EngineStays

/-! ### What sees nothing but the registers -/

/-- What is true of an engine before each call-out is true after it, and is told by the registers. -/
theorem EngineFrames.of_regs {env : Env α W} {P : LiveEngine α W → Prop}
    (hregs : ∀ {e e' : LiveEngine α W}, P e → e'.regs = e.regs → P e')
    (hcall : ∀ ev {e}, P e → P (env.call ev e)) : EngineFrames env P :=
  ⟨fun _ h he => hregs he h, fun ev _ _ h => hcall ev h, fun _ _ _ _ h => hregs h rfl⟩

/-- The steps that write a register are all that has to be looked at. -/
theorem EngineSteps.exec_regs {env : Env α W} {P : LiveEngine α W → Prop} (hS : EngineSteps env P)
    (hregs : ∀ {e e' : LiveEngine α W}, P e → e'.regs = e.regs → P e') (c : EngineCmd α)
    (hconnect : c = .start → ∀ {e}, P e → P (env.call .connect e))
    (hsnap : ∀ s, c = .marketData s → ∀ {e}, P e → P (received e)) {e : LiveEngine α W} (he : P e) :
    P (LiveEngine.exec env c e) := by
  have hblind : ∀ {e e' : LiveEngine α W}, P e → e'.positions = e.positions → e'.world = e.world → P e' := by
    intro e e' he _ hw
    refine hregs he ?_
    unfold regs engine
    rw [hw]
  refine hS.exec (fun h _ => hregs h rfl) (fun i s _ h => hregs h rfl) c ⟨?_, ?_⟩ hconnect hsnap he
  · intro t o _ _ _ _ _
    exact hS.of_moved hblind o t (hregs he rfl)
  · intro symbol _ _
    exact hregs he rfl

end LiveEngine

namespace EngineListener
open LiveEngine
variable {P : LiveEngine α W → Prop} (L : EngineListener α W)

/-- What the steps keep, every call-out keeps. Where one of them handles a snapshot, that has to keep it as well. -/
theorem react_regs (hregs : ∀ {e e' : LiveEngine α W}, P e → e'.regs = e.regs → P e')
    (hsteps : ∀ n, (∀ ev {e}, P e → P (L.react n ev e)) → EngineSteps (L.env n) P)
    (hsnap : ∀ ev e s, (L.act ev e).2 = some (.marketData s) → ∀ {e}, P e → P (received e)) :
    ∀ n ev {e}, P e → P (L.react n ev e)
  | 0, _, _, he => he
  | n + 1, ev, e, he => by
    have ih := fun ev {e} => react_regs hregs hsteps hsnap n ev (e := e)
    unfold react
    rcases hact : L.act ev e with ⟨captured, _ | c⟩
    · exact hregs he rfl
    · refine ih ev ((hsteps n ih).exec_regs hregs c (fun _ _ h => ih .connect h) ?_ (hregs he rfl))
      rintro s rfl
      exact hsnap ev e s (by rw [hact])

/-- What the steps and every snapshot keep, every run keeps. -/
theorem run_regs (hregs : ∀ {e e' : LiveEngine α W}, P e → e'.regs = e.regs → P e')
    (hsteps : ∀ n, (∀ ev {e}, P e → P (L.react n ev e)) → EngineSteps (L.env n) P)
    (hsnap : ∀ {e}, P e → P (received e)) (fuel : Nat) {e : LiveEngine α W} (he : P e) (cs : List (EngineCmd α)) :
    P (run (L.env fuel) e cs) := by
  have hcall := fun ev {e} => L.react_regs hregs hsteps (fun _ _ _ _ => hsnap) fuel ev (e := e)
  exact Fold.foldl_ind P cs e he fun _ c _ h =>
    (hsteps fuel hcall).exec_regs hregs c (fun _ _ h => hcall .connect h) (fun _ _ => hsnap) h

end EngineListener

end StratForge
