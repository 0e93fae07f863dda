import StratForge.Collector
import StratForge.UpdateCalls

/-!
# The engine with a collector

`collecting` wires a collector into the engine: it answers the pre-order hook, it hears of a closed trade when the
strategies have been told, and it comes last on a bar. `Carries` is the rule for what a run keeps.

The indicators of a feed are advanced at the end of every bar of the master, wherever the feed stands then
(`indicators_upTo`). The candidates of a bar read them before that, so what they read is what each delivered bar once
would give only where the feed has delivered one bar on each bar of the master before and none on this one
(`candidates_read_iff`).
-/

namespace StratForge

variable {α V W : Type}

namespace Cerebro

/-! ### What a run keeps -/

section
variable [Arith α] (c : Cerebro α W) {feeds : DataFeed α × List (DataFeed α)} {b : BackBroker α W} {clock : Clock α}

/-- What every command, every pass and every method of a strategy keeps while the clock stands. -/
structure Carries (clock : Clock α) (P : BackBroker α W → Prop) : Prop where
  exec : ∀ cmd {b}, P b → P (b.exec (c.hooks clock) cmd)
  pass : ∀ {b}, P b → P (b.processOrders (c.hooks clock) clock.feeds)
  call : ∀ ph si {b}, P b → P { b with world := (c.call ph clock si b).1 }

variable {c} {P : BackBroker α W → Prop}

theorem Carries.of_stays (hS : BackBroker.Stays (c.hooks clock) P)
    (hcall : ∀ ph si {b}, P b → P { b with world := (c.call ph clock si b).1 }) : c.Carries clock P :=
  ⟨fun cmd _ hb => hS.exec cmd hb, fun hb => hS.processOrders clock.feeds hb, hcall⟩

section
variable (hexec : ∀ cmd {b : BackBroker α W}, P b → P (b.exec (c.hooks clock) cmd))
  (hcall : ∀ ph si {b : BackBroker α W}, P b → P { b with world := (c.call ph clock si b).1 })
include hexec hcall

/-- What every command keeps, a method of a strategy keeps. -/
theorem drive_keeps (ph : Lifecycle) (si n : Nat) (hb : P b) : P ((c.listener clock).drive c.fuel (c.call ph clock si) n b) := by
  induction n generalizing b with
  | zero => exact hb
  | succ n ih =>
    have hcalled := hcall ph si hb
    unfold Listener.drive
    split
    · rename_i world heq
      rwa [heq] at hcalled
    · rename_i world cmd heq
      rw [heq] at hcalled
      exact ih (hexec cmd hcalled)

theorem turns_keep (is : List Nat) (entered : List Bool) (hb : P b) : P (is.foldl (c.turn clock) (b, entered)).1 := by
  refine Fold.foldl_ind (fun st : BackBroker α W × List Bool => P st.1) is (b, entered) hb fun st si _ hst => ?_
  unfold Cerebro.turn
  split_ifs <;> exact drive_keeps hexec hcall _ _ _ hst

end

namespace Carries
variable (hC : c.Carries clock P)
include hC

theorem drive (ph : Lifecycle) (si n : Nat) (hb : P b) : P ((c.listener clock).drive c.fuel (c.call ph clock si) n b) :=
  drive_keeps hC.exec hC.call ph si n hb

theorem turns (is : List Nat) (entered : List Bool) (hb : P b) : P (is.foldl (c.turn clock) (b, entered)).1 :=
  turns_keep hC.exec hC.call is entered hb

end Carries

theorem Carries.trade {n : Nat} {e : CerebroState α W} (hC : c.Carries e.clock P) (hb : P e.broker) :
    ∃ b, P b ∧ (c.trade n e).broker = { b with world := c.closing n e.clock b } :=
  ⟨_, hC.turns _ _ (hC.pass hb), rfl⟩

/-- The phases before the first bar execute nothing, and keep what the commands keep. -/
theorem start_keeps {e : CerebroState α W}
    (hexec : ∀ cmd {b : BackBroker α W}, P b → P (b.exec (c.hooks (Clock.start feeds)) cmd))
    (hcall : ∀ ph si {b : BackBroker α W}, P b → P { b with world := (c.call ph (Clock.start feeds) si b).1 }) (hb : P b)
    (h : c.start feeds b = .ok e) : ∃ b, P b ∧ e.broker = { b with world := c.opening b.world } := by
  obtain ⟨-, -, h⟩ := bind_eq_ok.1 h
  obtain ⟨-, -, h⟩ := bind_eq_ok.1 h
  cases h
  have hphases : ∀ si {b : BackBroker α W}, P b → P (c.phase .start (Clock.start feeds) (c.phase .init (Clock.start feeds) b si) si) :=
    fun si _ hb => drive_keeps hexec hcall .start si _ (drive_keeps hexec hcall .init si _ hb)
  exact ⟨_, Fold.foldl_ind P _ b hb fun b si _ hb => hphases si hb, rfl⟩

theorem start_carried {e : CerebroState α W} (hC : c.Carries (Clock.start feeds) P) (hb : P b) (h : c.start feeds b = .ok e) :
    ∃ b, P b ∧ e.broker = { b with world := c.opening b.world } := start_keeps hC.exec hC.call hb h

/-- What the phases before the first bar keep, and every bar after it. -/
theorem upTo_carried {P : Nat → BackBroker α W → Prop}
    (hC : ∀ n clock, clock.context.length = feeds.2.length → c.Carries clock (P n))
    (hopen : ∀ b, P 0 b → P 0 { b with world := c.opening b.world }) (hbar : ∀ n b, P n b → P n (b.setBarIndex n))
    (hclose : ∀ n e b', n < feeds.1.size → c.gated feeds b n = .ok e → P n b' →
      P (n + 1) { b' with world := c.closing n e.clock b' }) (h0 : P 0 b) {n : Nat} {e : CerebroState α W}
    (hn : n ≤ feeds.1.size) (h : c.upTo feeds b n = .ok e) : P n e.broker := by
  induction n generalizing e with
  | zero =>
    obtain ⟨b', hb', heq⟩ := start_carried (hC 0 _ (List.length_map _)) h0 h
    rw [heq]
    exact hopen b' hb'
  | succ n ih =>
    obtain ⟨e₁, h₁, hbroker, -, hcontext⟩ := c.upTo_succ h
    obtain ⟨e₀, h₀, heq, -⟩ := c.gated_broker h₁
    have hb₁ : P n e₁.broker := heq ▸ hbar n _ (ih (by omega) h₀)
    obtain ⟨b', hb', htrade⟩ := (hC n e₁.clock (hcontext ▸ c.context_upTo h hn)).trade (n := n) hb₁
    rw [hbroker, htrade]
    exact hclose n e₁ b' hn h₁ hb'

end

/-! ### The collector in the engine -/

variable [Arith α] [Floating α] (c : Cerebro α V)

/-- The engine `c` with a collector. -/
def collecting : Cerebro α (V × Collector α) :=
  { listener := fun clock =>
      { act := fun ev b =>
          let (v, cmd) := (c.listener clock).act ev (b.capture b.world.1)
          match ev, cmd with
          | .trade t _, none => ((v, if t.isClosed then b.world.2.onTradeClosed t else b.world.2), none)
          | _, cmd => ((v, b.world.2), cmd)
        preOrderHook := fun side size dataIndex b =>
          let (por, cl) := b.world.2.preOrderHook side size dataIndex clock.feeds b
          (por, (b.world.1, cl)) }
    strategies := c.strategies
    call := fun ph clock si b =>
      let (v, cmd) := c.call ph clock si (b.capture b.world.1)
      ((v, b.world.2), cmd)
    minimumPeriod := fun w => c.minimumPeriod w.1
    opening := fun w => (c.opening w.1, w.2)
    closing := fun bar clock b =>
      (c.closing bar clock (b.capture b.world.1), b.world.2.orFailed (b.world.2.onBar clock.feeds b))
    fuel := c.fuel }

/-- The run of an engine with a new collector, after `on_stop`. -/
def collect (config : CollectorConfig α) (infer : Option (Nat → Vector α kPopFeatureCountV1 → α → InferenceResult α))
    (feeds : DataFeed α × List (DataFeed α)) (b : BackBroker α V) : Except Error (CerebroState α (V × Collector α)) := do
  let e ← c.collecting.run feeds (b.capture (b.world, .start config infer (feeds.2.length + 1)))
  if feeds.1.size = 0 then return e
  else if e.broker.world.2.failed then .error (.outOfRange "Line index out of range")
  else
    let cl ← e.broker.world.2.onStop e.clock.feeds e.broker
    return { e with broker := { e.broker with world := (e.broker.world.1, cl) } }

end Cerebro

/-! ### What the calls do to a collector -/

namespace Collector
variable [Arith α] [Floating α] {cl : Collector α} {side : OrderSide} {size : α} {k : Nat} {feeds : List (DataFeed α)}
  {broker : BackBroker α W}

/-- What the hook may do: let an order pass without a candidate, give the run up, issue a candidate, or reject it. -/
theorem preOrderHook_cases (cl : Collector α) (side : OrderSide) (size : α) (k : Nat) (feeds : List (DataFeed α))
    (broker : BackBroker α W) :
    cl.preOrderHook side size k feeds broker = (⟨0, size, false⟩, cl) ∨
    cl.preOrderHook side size k feeds broker = (⟨0, size, true⟩, { cl with failed := true }) ∨
    cl.isEnabled = true ∧ ∃ snap, cl.snapshot side size k feeds broker = .ok snap ∧
      (snap.gateVerdict ≠ .kReject ∧
        cl.preOrderHook side size k feeds broker = (⟨snap.candidateId, snap.finalSize, false⟩, cl.issue snap k []) ∨
      snap.gateVerdict = .kReject ∧ ∃ shadows, cl.shadowOf side size k feeds snap = .ok shadows ∧
        cl.preOrderHook side size k feeds broker = (⟨snap.candidateId, 0, true⟩, cl.issue snap k shadows)) := by
  unfold preOrderHook onPreOrder
  dsimp only
  by_cases hon : cl.isEnabled = true
  swap
  · rw [Bool.not_eq_true] at hon
    rw [hon]
    exact .inl rfl
  rw [hon, if_neg (by simp)]
  split_ifs with hreduce
  · exact .inl rfl
  · refine .inr ?_
    cases hsnap : cl.snapshot side size k feeds broker with
    | error err => exact .inl rfl
    | ok snap =>
      dsimp only [bind, Except.bind]
      split_ifs with hreject
      · cases hsh : cl.shadowOf side size k feeds snap with
        | error err => exact .inl rfl
        | ok shadows => exact .inr ⟨rfl, snap, rfl, .inr ⟨hreject, shadows, hsh, rfl⟩⟩
      · exact .inr ⟨rfl, snap, rfl, .inl ⟨hreject, rfl⟩⟩

theorem snapshot_candidateId {snap : CandidateSnapshot α} (h : cl.snapshot side size k feeds broker = .ok snap) :
    snap.candidateId = cl.nextCandidateId := by
  obtain ⟨asOf, -, h⟩ := bind_eq_ok.1 h
  obtain ⟨features, -, h⟩ := bind_eq_ok.1 h
  cases h
  rfl

omit [Floating α] in
theorem onTradeClosed_cases (cl : Collector α) (t : Trade α) : cl.onTradeClosed t = cl ∨
    cl.isEnabled = true ∧ t.candidateId ≠ 0 ∧ cl.onTradeClosed t =
      { cl with outcomes := cl.outcomes ++ [actualOutcome t], featureBuilder := cl.featureBuilder.recordTrade } := by
  unfold onTradeClosed
  split_ifs with hoff hzero
  · exact .inl rfl
  · exact .inl rfl
  · exact .inr ⟨by simpa using hoff, hzero, rfl⟩

/-- What a collector hears of an event that the strategies have answered. -/
def hear (cl : Collector α) (ev : Event α) (answer : Option (Cmd α)) : Collector α :=
  match ev, answer with
  | .trade t _, none => if t.isClosed then cl.onTradeClosed t else cl
  | _, _ => cl

omit [Floating α] in
theorem hear_cases (ev : Event α) (answer : Option (Cmd α)) : (∀ cl : Collector α, cl.hear ev answer = cl) ∨
    answer = none ∧ ∃ t s, ev = .trade t s ∧ t.isClosed = true ∧ ∀ cl : Collector α, cl.hear ev answer = cl.onTradeClosed t := by
  unfold hear
  split
  · next t s =>
    by_cases hclosed : t.isClosed = true
    · exact .inr ⟨rfl, t, s, rfl, hclosed, fun cl => if_pos hclosed⟩
    · exact .inl fun cl => if_neg hclosed
  · exact .inl fun cl => rfl

/-- What the end of a bar may do: nothing, give the run up, or advance the indicators and tick the ledger. -/
theorem onBar_cases (cl : Collector α) (feeds : List (DataFeed α)) (broker : BackBroker α W) :
    cl.isEnabled = false ∧ cl.orFailed (cl.onBar feeds broker) = cl ∨
    cl.orFailed (cl.onBar feeds broker) = { cl with failed := true } ∨
    ∃ pv closed still, ShadowLedger.tick feeds cl.shadowLedger = .ok (closed, still) ∧
      cl.orFailed (cl.onBar feeds broker) =
        { cl with featureBuilder := (cl.featureBuilder.advance feeds).updateEquityPeak pv, shadowLedger := still,
                  outcomes := cl.outcomes ++ closed } := by
  unfold onBar
  by_cases hon : cl.isEnabled = true
  swap
  · rw [Bool.not_eq_true] at hon
    rw [hon]
    exact .inl ⟨rfl, rfl⟩
  rw [hon, if_neg (by simp)]
  refine .inr ?_
  cases broker.portfolioValue feeds with
  | error err => exact .inl rfl
  | ok pv =>
    cases htick : ShadowLedger.tick feeds cl.shadowLedger with
    | error err => exact .inl rfl
    | ok r => exact .inr ⟨pv, r.1, r.2, rfl, rfl⟩

/-- The end of a bar issues nothing. -/
theorem onBar_candidates (cl : Collector α) (feeds : List (DataFeed α)) (broker : BackBroker α W)
    (h : (cl.orFailed (cl.onBar feeds broker)).failed = false) :
    cl.failed = false ∧ (cl.orFailed (cl.onBar feeds broker)).candidates = cl.candidates := by
  rcases cl.onBar_cases feeds broker with ⟨-, heq⟩ | heq | ⟨pv, closed, still, -, heq⟩ <;> rw [heq] at h ⊢
  · exact ⟨h, rfl⟩
  · cases h
  · exact ⟨h, rfl⟩

/-- A property that a candidate's issue, a closed trade and a read that throws keep, the hook keeps. -/
theorem preOrderHook_keeps {P : Collector α → Prop} (hfail : P cl → P { cl with failed := true })
    (hissue : ∀ snap shadows, cl.isEnabled = true → cl.snapshot side size k feeds broker = .ok snap →
      snap.gateVerdict ≠ .kReject ∧ shadows = [] ∨
        snap.gateVerdict = .kReject ∧ cl.shadowOf side size k feeds snap = .ok shadows →
      P cl → P (cl.issue snap k shadows)) (hcl : P cl) :
    P (cl.preOrderHook side size k feeds broker).2 := by
  rcases cl.preOrderHook_cases side size k feeds broker with
    h | h | ⟨hon, snap, hsnap, ⟨hpass, h⟩ | ⟨hreject, shadows, hsh, h⟩⟩ <;> rw [h]
  exacts [hcl, hfail hcl, hissue snap [] hon hsnap (.inl ⟨hpass, rfl⟩) hcl,
    hissue snap shadows hon hsnap (.inr ⟨hreject, hsh⟩) hcl]

end Collector

namespace Cerebro
variable [Arith α] [Floating α] {c : Cerebro α V} {clock : Clock α} {P : Collector α → Prop}

theorem act_collecting (ev : Event α) (b : BackBroker α (V × Collector α)) : (c.collecting.listener clock).act ev b =
    let r := (c.listener clock).act ev (b.capture b.world.1)
    ((r.1, b.world.2.hear ev r.2), r.2) := by
  unfold collecting Collector.hear
  dsimp only
  split
  · next heq => rw [heq]
  · rfl

/-- What the hook and a closed trade keep of the collector, everything keeps that happens while the clock stands. -/
theorem collecting_carries (hclosed : ∀ cl (t : Trade α), P cl → P (cl.onTradeClosed t))
    (hhook : ∀ cl side size k (b : BackBroker α (V × Collector α)), P cl →
      P (cl.preOrderHook side size k clock.feeds b).2) : c.collecting.Carries clock fun b => P b.world.2 := by
  have hact : ∀ ev (b : BackBroker α (V × Collector α)), P b.world.2 → P ((c.collecting.listener clock).act ev b).1.2 := by
    intro ev b hb
    rw [act_collecting]
    show P (b.world.2.hear ev _)
    rcases Collector.hear_cases ev ((c.listener clock).act ev (b.capture b.world.1)).2 with heq | ⟨-, t, -, -, -, heq⟩ <;> rw [heq]
    exacts [hb, hclosed _ t hb]
  have hS : BackBroker.Stays (c.collecting.hooks clock) fun b : BackBroker α (V × Collector α) => P b.world.2 :=
    Listener.stays (P := fun w : V × Collector α => P w.2) hact (fun side size k b hb => hhook _ side size k b hb) _
  exact .of_stays hS fun ph si b hb => hb

/-- A run that ends has no bars, or it goes through all of them and settles what is open. -/
theorem collect_cases {config : CollectorConfig α} {infer : Option (Nat → Vector α kPopFeatureCountV1 → α → InferenceResult α)}
    {feeds : DataFeed α × List (DataFeed α)} {b : BackBroker α V} {e : CerebroState α (V × Collector α)}
    (h : c.collect config infer feeds b = .ok e) :
    feeds.1.size = 0 ∧ e.broker = b.capture (b.world, .start config infer (feeds.2.length + 1)) ∨
    ∃ e₀ cl, c.collecting.upTo feeds (b.capture (b.world, .start config infer (feeds.2.length + 1))) feeds.1.size = .ok e₀ ∧
      e₀.broker.world.2.failed = false ∧ e₀.broker.world.2.onStop e₀.clock.feeds e₀.broker = .ok cl ∧
      e.broker = { e₀.broker with world := (e₀.broker.world.1, cl) } := by
  obtain ⟨e₀, hrun, h⟩ := bind_eq_ok.1 h
  unfold run at hrun
  split_ifs at h hrun with hsize hfailed
  · cases hrun
    cases h
    exact .inl ⟨hsize, rfl⟩
  · obtain ⟨cl, hstop, h⟩ := bind_eq_ok.1 h
    cases h
    exact .inr ⟨e₀, cl, hrun, by simpa using hfailed, hstop, rfl⟩

end Cerebro

end StratForge
