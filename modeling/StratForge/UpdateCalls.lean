import StratForge.Schedule
import StratForge.SignalEntry

/-!
# The calls of `update_indicators`

Every bar of the master advances the indicators of the feeds whose flag is up, once. A context feed that delivers
two bars on one master bar raises its flag once, so one of them is lost to its indicators (`each_bar_once_iff`).
-/

namespace StratForge

variable {α W S : Type} [Arith α]

/-! ### What callbacks keep -/

namespace Listener
variable {L : Listener α W} {P : W → Prop}

theorem react_keeps (hact : ∀ ev b, P b.world → P (L.act ev b).1)
    (hhook : ∀ side size k b, P b.world → P (L.preOrderHook side size k b).2) :
    ∀ n ev (b : BackBroker α W), P b.world → P (L.react n ev b).world
  | 0, _, _, hb => hb
  | n + 1, ev, b, hb => by
    have ih := react_keeps hact hhook n
    have hstays : BackBroker.Stays (L.hooksOf (L.react n)) fun b => P b.world :=
      BackBroker.stays_lost (fun o => ih _) (fun t s => ih _) hhook
    have ha := hact ev b hb
    unfold react
    split
    · rename_i world heq
      rwa [heq] at ha
    · rename_i world c heq
      rw [heq] at ha
      exact ih ev _ (hstays.exec c (b := { b with world }) ha)

/-- What every callback keeps of what it captures. -/
theorem stays (hact : ∀ ev b, P b.world → P (L.act ev b).1)
    (hhook : ∀ side size k b, P b.world → P (L.preOrderHook side size k b).2) (fuel : Nat) :
    BackBroker.Stays (L.hooks fuel) fun b => P b.world :=
  BackBroker.stays_lost (fun _ => react_keeps hact hhook fuel _) (fun _ _ => react_keeps hact hhook fuel _) hhook

end Listener

namespace SignalEntryStrategy
variable {s : SignalEntryStrategy α S} {P Q : SignalState S → Prop} {clock : Clock α} {b : BackBroker α (SignalState S)}
  {fuel n : Nat}

/-- What neither a command that `next()` issues nor a callback touches. -/
structure Steady (s : SignalEntryStrategy α S) (P : SignalState S → Prop) : Prop where
  stage : ∀ w stage, P w → P { w with stage }
  notify : ∀ ev (b : BackBroker α (SignalState S)), P b.world → P { b.world with user := (s.notify ev b).1 }

theorem Steady.stays (hP : s.Steady P) (fuel : Nat) (clock : Clock α) :
    BackBroker.Stays ((s.cerebro fuel).hooks clock) fun b => P b.world :=
  Listener.stays hP.notify (fun _ _ _ _ hb => hb) _

/-! ### One bar of the strategy -/

theorem Steady.and_stage (hP : s.Steady P) (stage : NextStage) (fuel : Nat) (clock : Clock α) :
    BackBroker.Stays ((s.cerebro fuel).hooks clock) fun b => P b.world ∧ b.world.stage = stage :=
  Listener.stays (P := fun w => P w ∧ w.stage = stage) (fun ev b hb => ⟨hP.notify ev b hb.1, hb.2⟩)
    (fun _ _ _ _ hb => hb) _

theorem next_closing (h : b.world.stage = .closing) : s.next clock b = s.openPosition clock.feeds b := by
  unfold next
  rw [h]

/-- `next()` with the commands it issues, `n` of them at most. -/
def drive (s : SignalEntryStrategy α S) (fuel : Nat) (clock : Clock α) (n : Nat) (b : BackBroker α (SignalState S)) :
    BackBroker α (SignalState S) :=
  ((s.cerebro fuel).listener clock).drive (fuel + 3) (s.next clock) n b

/-- The rest of `next()` after a command that opens a position. -/
theorem drive_opening (hQ : s.Steady Q) (hstage : b.world.stage = .opening) (hb : Q b.world) :
    Q (s.drive fuel clock (n + 1) b).world ∧ (s.drive fuel clock (n + 1) b).world.stage = .enter := by
  unfold drive Listener.drive next
  rw [hstage]
  exact ⟨hQ.stage _ _ hb, rfl⟩

theorem openPosition_stage (feeds : List (DataFeed α)) (b : BackBroker α (SignalState S)) :
    (s.openPosition feeds b).2 = none ∧ (s.openPosition feeds b).1.stage = .enter ∨
      ∃ c, (s.openPosition feeds b).2 = some c ∧ (s.openPosition feeds b).1.stage = .opening := by
  unfold openPosition
  dsimp only
  split_ifs
  exacts [.inr ⟨_, rfl, rfl⟩, .inr ⟨_, rfl, rfl⟩, .inl ⟨rfl, rfl⟩]

/-- `next()` from the open conditions on. -/
theorem drive_openPosition (hQ : s.Steady Q) (b' : BackBroker α (SignalState S))
    (hnext : s.next clock b = s.openPosition clock.feeds b') (hb : Q (s.openPosition clock.feeds b').1) :
    Q (s.drive fuel clock (n + 2) b).world ∧ (s.drive fuel clock (n + 2) b).world.stage = .enter := by
  unfold drive Listener.drive
  rw [hnext]
  rcases openPosition_stage (s := s) clock.feeds b' with ⟨hnone, hstage⟩ | ⟨c, hsome, hstage⟩
  · rw [← Prod.eta (s.openPosition clock.feeds b'), hnone]
    exact ⟨hb, hstage⟩
  · rw [← Prod.eta (s.openPosition clock.feeds b'), hsome]
    have hexec := (hQ.and_stage .opening fuel clock).exec c
      (b := { b with world := (s.openPosition clock.feeds b').1 }) ⟨hb, hstage⟩
    exact drive_opening hQ hexec.2 hexec.1

/-- All of `next()`: `P` once the indicators are advanced, `Q` once the open conditions are checked. -/
theorem drive_next (fuel n : Nat) (hP : s.Steady P) (hQ : s.Steady Q)
    (hclose : ∀ b : BackBroker α (SignalState S), P b.world →
      P { b.world with user := (s.checkCloseConditions clock.feeds b b.world.user).2 })
    (hopen : ∀ b : BackBroker α (SignalState S), P b.world → Q (s.openPosition clock.feeds b).1)
    (hstage : b.world.stage = .enter) (hb : P (s.advanceOn clock b.world)) :
    Q (s.drive fuel clock (n + 3) b).world ∧ (s.drive fuel clock (n + 3) b).world.stage = .enter := by
  let b₁ : BackBroker α (SignalState S) := { b with world := s.advanceOn clock b.world }
  by_cases hpos : ((b₁.position 0).size != 0) = true
  · let user := (s.checkCloseConditions clock.feeds b₁ b₁.world.user).2
    let b₂ : BackBroker α (SignalState S) := { b₁ with world := { b₁.world with user } }
    by_cases hsig : (s.checkCloseConditions clock.feeds b₁ b₁.world.user).1 = true
    · -- the position is closed first
      have hnext : s.next clock b = ({ b₂.world with stage := .closing }, some (.close 0)) := by
        unfold next
        rw [hstage]
        exact (if_pos hpos).trans (if_pos hsig)
      have hexec := (hP.and_stage .closing fuel clock).exec (.close 0)
        (b := { b with world := { b₂.world with stage := .closing } }) ⟨hP.stage _ _ (hclose b₁ hb), rfl⟩
      unfold drive Listener.drive
      rw [hnext]
      exact drive_openPosition hQ _ (next_closing hexec.2) (hopen _ hexec.1)
    · refine drive_openPosition hQ b₂ ?_ (hopen b₂ (hclose b₁ hb))
      unfold next
      rw [hstage]
      exact (if_pos hpos).trans (if_neg hsig)
  · refine drive_openPosition hQ b₁ ?_ (hopen b₁ hb)
    unfold next
    rw [hstage]
    exact if_neg hpos

/-! ### What a bar advances -/

omit [Arith α] in
theorem advanceOn_calls (w : SignalState S) (k : Nat) : (s.advanceOn clock w).calls k =
    w.calls k ++ match clock.slots[k]? with
      | some slot => if slot.feedAdvanced then [slot.feed.index] else []
      | none => [] := by
  have hfold : ∀ n, ((List.range n).foldl (fun w k => if (clock.slots.map (·.feedAdvanced))[k]?.getD false
      then s.callUpdate clock.feeds w k else w) w).calls k = w.calls k ++ if k < n then (match clock.slots[k]? with
        | some slot => if slot.feedAdvanced then [slot.feed.index] else []
        | none => []) else [] := by
    intro n
    induction n with
    | zero => simp
    | succ n ih =>
      rw [List.range_succ, List.foldl_append, List.foldl_cons, List.foldl_nil]
      generalize List.foldl _ w (List.range n) = w' at ih ⊢
      by_cases hk : k = n
      · subst hk
        rw [if_neg (lt_irrefl k), List.append_nil] at ih
        cases hslot : clock.slots[k]? with
        | none => simp [ih, hslot]
        | some slot =>
          cases hflag : slot.feedAdvanced
          · simp [ih, hslot, hflag]
          · simp [callUpdate, Clock.feeds, ih, hslot, hflag]
      · have hlt : k < n + 1 ↔ k < n := by omega
        split_ifs with hflag h1 h2 <;> simp_all [callUpdate]
  have hne : (clock.slots.map (·.feedAdvanced)).isEmpty = false := rfl
  unfold advanceOn advanceGeneratedIndicators
  rw [hne, if_neg Bool.false_ne_true, hfold, List.length_map]
  split_ifs with hk
  · rfl
  · rw [List.getElem?_eq_none (not_lt.1 hk)]

omit [Arith α] in
theorem advanceOn_same (w : SignalState S) : (s.advanceOn clock w).stage = w.stage ∧
    (s.advanceOn clock w).minPeriods = w.minPeriods ∧ (s.advanceOn clock w).signals = w.signals := by
  unfold advanceOn advanceGeneratedIndicators
  split_ifs
  · exact ⟨rfl, rfl, rfl⟩
  · refine Fold.foldl_ind (fun w' : SignalState S => w'.stage = w.stage ∧ w'.minPeriods = w.minPeriods ∧
      w'.signals = w.signals) _ w ⟨rfl, rfl, rfl⟩ fun w' k _ hw => ?_
    split_ifs
    exacts [hw, hw]

/-- Whether the strategy is past its warm-up on a bar. -/
def isReady (s : SignalEntryStrategy α S) (fuel : Nat) (e : CerebroState α (SignalState S)) : Bool :=
  e.entered[0]?.getD false ||
    (s.cerebro fuel).ready e.clock (e.broker.processOrders ((s.cerebro fuel).hooks e.clock) e.clock.feeds).world 0

/-- A bar is traded by one of two methods. -/
theorem broker_trade (bar : Nat) (e : CerebroState α (SignalState S)) : ((s.cerebro fuel).trade bar e).broker =
    let b := e.broker.processOrders ((s.cerebro fuel).hooks e.clock) e.clock.feeds
    if s.isReady fuel e then s.drive fuel e.clock (fuel + 3) b
    else { b with world := (s.prenext e.clock b).1 } := by
  unfold Cerebro.trade isReady
  show (((s.cerebro fuel).turn e.clock (_, e.entered) 0).1) = _
  unfold Cerebro.turn
  dsimp only
  cases e.entered[0]?.getD false with
  | true => rfl
  | false =>
    rw [if_neg Bool.false_ne_true, Bool.false_or]
    split_ifs <;> rfl

theorem entered_trade (bar : Nat) (e : CerebroState α (SignalState S)) (hlen : e.entered.length = 1) :
    ((s.cerebro fuel).trade bar e).entered = [s.isReady fuel e] := by
  obtain ⟨x, hx⟩ := List.length_eq_one_iff.1 hlen
  unfold Cerebro.trade isReady
  show (((s.cerebro fuel).turn e.clock (_, e.entered) 0).2) = _
  unfold Cerebro.turn
  dsimp only
  rw [hx]
  cases x with
  | true => rfl
  | false =>
    show (if false = true then _ else _ : BackBroker α (SignalState S) × List Bool).2 = _
    rw [if_neg Bool.false_ne_true]
    show _ = [false || _]
    rw [Bool.false_or]
    split_ifs with hready
    · rw [hready]; rfl
    · rw [Bool.not_eq_true] at hready; rw [hready]

omit [Arith α] in
theorem steady_calls (s : SignalEntryStrategy α S) (calls : Nat → List Nat) : s.Steady fun w => w.calls = calls :=
  ⟨fun _ _ h => h, fun _ _ h => h⟩

/-- A bar calls `update_indicators` once for each feed whose flag is up. -/
theorem calls_trade (fuel bar : Nat) {e : CerebroState α (SignalState S)} (hstage : e.broker.world.stage = .enter) :
    ((s.cerebro fuel).trade bar e).broker.world.calls = (s.advanceOn e.clock e.broker.world).calls ∧
      ((s.cerebro fuel).trade bar e).broker.world.stage = .enter := by
  have hproc := ((steady_calls s e.broker.world.calls).and_stage .enter fuel e.clock).processOrders e.clock.feeds
    (b := e.broker) ⟨rfl, hstage⟩
  have hadv : (s.advanceOn e.clock (e.broker.processOrders ((s.cerebro fuel).hooks e.clock) e.clock.feeds).world).calls =
      (s.advanceOn e.clock e.broker.world).calls := by
    funext k
    rw [advanceOn_calls, advanceOn_calls]
    exact congrArg (· ++ _) (congrFun hproc.1 k)
  rw [broker_trade]
  dsimp only
  split_ifs
  · refine drive_next _ _ (steady_calls s _) (steady_calls s _) (fun b hb => hb) (fun b hb => ?_) hproc.2 hadv
    rw [← hb]
    unfold openPosition
    dsimp only
    split_ifs <;> rfl
  · exact ⟨hadv, advanceOn_same _ |>.1.trans hproc.2⟩

/-! ### Runs -/

variable {feeds : DataFeed α × List (DataFeed α)} {e : CerebroState α (SignalState S)}

/-- The calls of a run are those that the flags of the schedule make. -/
theorem calls_upTo (hb : b.world.stage = .enter) (hcalls : b.world.calls = fun _ => []) :
    ∀ {n} {e : CerebroState α (SignalState S)}, (s.cerebro fuel).upTo feeds b n = .ok e → n ≤ feeds.1.size →
      e.broker.world.stage = .enter ∧ e.broker.world.calls 0 = List.range n ∧
      ∀ k f, feeds.2[k]? = some f → e.broker.world.calls (k + 1) = flagged (delivered feeds.1 f) n := by
  intro n
  induction n with
  | zero =>
    intro e h _
    obtain ⟨-, -, h⟩ := bind_eq_ok.1 h
    obtain ⟨-, -, h⟩ := bind_eq_ok.1 h
    cases h
    show b.world.stage = _ ∧ b.world.calls 0 = _ ∧ ∀ k f, _ → b.world.calls (k + 1) = _
    rw [hcalls]
    exact ⟨hb, rfl, fun _ _ _ => rfl⟩
  | succ n ih =>
    intro e h hn
    obtain ⟨e₁, h₁, hbroker, -⟩ := (s.cerebro fuel).upTo_succ h
    obtain ⟨e₀, h₀, hbroker₁, -⟩ := (s.cerebro fuel).gated_broker h₁
    obtain ⟨hstage, hmaster, hcontext⟩ := ih h₀ (by omega)
    have hworld : e₁.broker.world = e₀.broker.world := by rw [hbroker₁]; rfl
    obtain ⟨hcalls', hstage'⟩ := calls_trade (s := s) fuel n (e := e₁) (by rw [hworld]; exact hstage)
    rw [hbroker]
    refine ⟨hstage', ?_, fun k f hf => ?_⟩
    · obtain ⟨-, hidx, -, hflag⟩ := (s.cerebro fuel).gated_master h₁ (by omega)
      rw [hcalls', advanceOn_calls, hworld, hmaster, List.range_succ, show e₁.clock.slots[0]? = some e₁.clock.master from rfl]
      dsimp only
      rw [if_pos hflag, hidx]
    · obtain ⟨slot, hslot, -, -, hidx, hflag⟩ := (s.cerebro fuel).gated_schedule h₁ (by omega) hf
      rw [hcalls', advanceOn_calls, hworld, hcontext k f hf, show e₁.clock.slots[k + 1]? = some slot from hslot, flagged]
      dsimp only
      rw [hidx]
      simp only [hflag]

/-- Every bar delivered so far has reached the indicators of its feed once, in its turn. -/
def EachBarOnce (e : CerebroState α (SignalState S)) : Prop :=
  ∀ k slot, e.clock.slots[k]? = some slot → e.broker.world.calls k = List.range slot.barsDelivered

theorem master_upTo (h : (s.cerebro fuel).upTo feeds b n = .ok e) (hn : n ≤ feeds.1.size) :
    e.clock.master.barsDelivered = n := by
  cases n with
  | zero =>
    obtain ⟨-, -, h⟩ := bind_eq_ok.1 h
    obtain ⟨-, -, h⟩ := bind_eq_ok.1 h
    cases h
    rfl
  | succ n =>
    obtain ⟨e₀, h₀, h⟩ := bind_eq_ok.1 h
    obtain ⟨e₁, h₁, hclock⟩ := (s.cerebro fuel).bar_ok h
    obtain ⟨-, -, hd, -⟩ := (s.cerebro fuel).gated_master (bind_eq_ok.2 ⟨e₀, h₀, h₁⟩) (by omega)
    rw [hclock]
    split_ifs <;> exact hd

/-- After `n` bars of the master every bar that has been delivered has been given to the indicators once, if and only
if no bar of the master has released two bars of one context feed. -/
theorem each_bar_once_iff (s : SignalEntryStrategy α S) (fuel : Nat) {b : BackBroker α Unit} {user : S}
    (h : s.upTo fuel feeds b user n = .ok e) (hn : n ≤ feeds.1.size) :
    EachBarOnce e ↔ ∀ f ∈ feeds.2, ∀ m < n, delivered feeds.1 f (m + 1) ≤ delivered feeds.1 f m + 1 := by
  obtain ⟨-, -, h⟩ := bind_eq_ok.1 h
  obtain ⟨world, hinit, h⟩ := bind_eq_ok.1 h
  obtain ⟨hstage, hcalls⟩ : world.stage = .enter ∧ world.calls = fun _ => [] := by
    obtain ⟨_, -, hinit⟩ := bind_eq_ok.1 hinit
    cases hinit
    exact ⟨rfl, rfl⟩
  obtain ⟨-, hmaster, hcontext⟩ := calls_upTo (b := b.capture world) hstage hcalls h hn
  have hflags : ∀ k f, feeds.2[k]? = some f → ∃ slot, e.clock.slots[k + 1]? = some slot ∧
      (e.broker.world.calls (k + 1) = List.range slot.barsDelivered ↔
        ∀ m < n, delivered feeds.1 f (m + 1) ≤ delivered feeds.1 f m + 1) := by
    intro k f hf
    obtain ⟨slot, hslot, hd⟩ := (s.cerebro fuel).upTo_slot h hn hf
    refine ⟨slot, hslot, ?_⟩
    rw [hcontext k f hf, hd]
    exact flagged_eq_range rfl (delivered_le_succ feeds.1 f) n
  constructor
  · intro honce f hf
    obtain ⟨k, hk⟩ := List.mem_iff_getElem?.1 hf
    obtain ⟨slot, hslot, hiff⟩ := hflags k f hk
    exact hiff.1 (honce _ _ hslot)
  · intro hreleased k slot hslot
    cases k with
    | zero =>
      cases hslot
      rw [hmaster, master_upTo h hn]
    | succ k =>
      have hk : k < feeds.2.length := by
        rw [← (s.cerebro fuel).context_upTo h hn]
        exact Nat.lt_of_succ_lt_succ (List.getElem?_eq_some_iff.1 hslot).1
      obtain ⟨slot', hslot', hiff⟩ := hflags k _ (List.getElem?_eq_getElem hk)
      rw [hslot] at hslot'
      cases hslot'
      exact hiff.2 (hreleased _ (List.getElem_mem hk))

/-- A strategy that signals nothing, for examples. -/
def idle : SignalEntryStrategy ℚ Unit where
  initializeIndicators _ user periods := (user, periods)
  checkOpenConditions _ _ user := ({}, user)
  checkCloseConditions _ _ user := (false, user)
  getsizing _ _ _ _ := 1
  notify _ b := (b.world.user, none)

theorem each_bar_once_iff_hours :
    let hour : Int := 3600 * nsPerSecond
    let feeds : DataFeed ℚ × List (DataFeed ℚ) := (.timed ⟨.Minutes, 60⟩ [0, hour, 2 * hour], [.timed ⟨.Minutes, 60⟩ [0, hour]])
    ∃ e, idle.upTo 0 feeds .funded () 3 = .ok e ∧
      (EachBarOnce e ↔ ∀ f ∈ feeds.2, ∀ m < 3, delivered feeds.1 f (m + 1) ≤ delivered feeds.1 f m + 1) := by
  intro hour feeds
  have hok : (idle.upTo 0 feeds .funded () 3).isOk = true := by decide +kernel
  cases h : idle.upTo 0 feeds .funded () 3 with
  | error err => rw [h] at hok; cases hok
  | ok e => exact ⟨e, rfl, each_bar_once_iff idle 0 h (by decide +kernel)⟩

/-- Two bars of the context feed have closed before the first bar of the master does: the first of them is skipped. -/
theorem history_skips_a_bar :
    let hour : Int := 3600 * nsPerSecond
    ∃ e, idle.upTo 0 (.timed ⟨.Minutes, 60⟩ [2 * hour], [.timed ⟨.Minutes, 60⟩ [0, hour]]) .funded () 1 = .ok e ∧
      ¬ EachBarOnce e := by
  intro hour
  have hrun : ((idle.upTo 0 (.timed ⟨.Minutes, 60⟩ [2 * hour], [.timed ⟨.Minutes, 60⟩ [0, hour]]) .funded () 1).toOption.map
      fun e => (e.broker.world.calls 1, e.clock.slots[1]?.map (·.barsDelivered))) = some ([1], some 2) := by
    decide +kernel
  cases h : idle.upTo 0 (.timed ⟨.Minutes, 60⟩ [2 * hour], [.timed ⟨.Minutes, 60⟩ [0, hour]]) .funded () 1 with
  | error err => rw [h] at hrun; cases hrun
  | ok e =>
    rw [h] at hrun
    obtain ⟨hcalls, hslot⟩ := Prod.mk.inj (Option.some.inj hrun)
    obtain ⟨slot, hslot, hd⟩ := Option.map_eq_some_iff.1 hslot
    refine ⟨e, rfl, fun honce => ?_⟩
    have := honce 1 slot hslot
    rw [hd, hcalls] at this
    exact absurd this (by decide)

end SignalEntryStrategy

end StratForge
