import StratForge.EngineStays

/-!
# Replacing the strategy (`LiveEngine::replace_strategy`)

The old strategy is stopped, the new one initialised and started against the engine's broker and feeds, and only
then installed. Here the engine knows which strategy is installed, and its methods may throw. What a strategy that
throws has submitted stays submitted, and the old one, which goes on, has been stopped (`replaceStrategy_not_atomic`).

`calls` is not in the source: it is the record of the methods that have been called, each with its strategy.
-/

namespace StratForge

/-- What the surroundings of an engine capture, with `strategy_`. -/
structure Seat (W ι : Type) where
  rest : W
  strategy : ι
  calls : List (ι × StrategyCall)

inductive ReplaceError (ε : Type)
  | logicError (what : String)
  | invalidArgument (what : String)
  | thrown (x : ε)
deriving DecidableEq, Repr

/-- The strategies that an engine can be given, the connector and the callbacks. A method changes what it changes,
orders and declared periods included, and may throw after that. -/
structure Troupe (α W ι ε : Type) where
  method : ι → StrategyCall → LiveEngine α (Seat W ι) → LiveEngine α (Seat W ι) × Option ε
  other : EngineEvent α → LiveEngine α (Seat W ι) → LiveEngine α (Seat W ι)
  preOrderHook : EngineHook α (Seat W ι)
  minimumPeriod : ι → LiveEngine α (Seat W ι) → Nat → Nat
  spare : Nat

variable {α W ι ε : Type}

def LiveEngine.seat (e : LiveEngine α (Seat W ι)) : Seat W ι := e.engine.captured

open LiveEngine

namespace Troupe
variable (T : Troupe α W ι ε)

/-- A method of a strategy, and its entry in the record. -/
def invoke (i : ι) (c : StrategyCall) (e : LiveEngine α (Seat W ι)) : LiveEngine α (Seat W ι) × Option ε :=
  T.method i c (modify (fun g => { g with captured := { g.captured with calls := g.captured.calls ++ [(i, c)] } }) e)

/-- The surroundings as the engine calls them: strategy methods go to the strategy that is installed. -/
def env : Env α (Seat W ι) where
  call ev e :=
    match ev with
    | .strategy c => (T.invoke e.seat.strategy c e).1
    | ev => T.other ev e
  preOrderHook := T.preOrderHook
  minimumPeriod e := T.minimumPeriod e.seat.strategy e
  spare := T.spare

/-- `replace_strategy`, with what it throws; `none` is the null pointer. -/
def replaceStrategy (new : Option ι) (e : LiveEngine α (Seat W ι)) :
    LiveEngine α (Seat W ι) × Option (ReplaceError ε) :=
  if !e.engine.started then (e, some (.logicError "cannot reload strategy on a stopped engine"))
  else
    match new with
    | none => (e, some (.invalidArgument "replacement strategy must not be null"))
    | some new =>
      match T.invoke e.seat.strategy .stop e with
      | (e, some x) => (e, some (.thrown x))
      | (e, none) =>
        match T.invoke new .init e with
        | (e, some x) => (e, some (.thrown x))
        | (e, none) =>
          match T.invoke new .start e with
          | (e, some x) => (e, some (.thrown x))
          | (e, none) =>
            (modify (fun g => { g with captured := { g.captured with strategy := new }, nextstartFired := false }) e, none)

/-- Nobody edits the record. -/
structure Records : Prop where
  method : ∀ i c e, e.seat.calls <+: (T.method i c e).1.seat.calls
  other : ∀ ev e, e.seat.calls <+: (T.other ev e).seat.calls
  hook : ∀ side size k e, e.seat.calls <+: (T.preOrderHook side size k e).2.calls

/-- Nobody else installs a strategy. -/
structure Loyal : Prop where
  method : ∀ i c e, (T.method i c e).1.seat.strategy = e.seat.strategy
  other : ∀ ev e, (T.other ev e).seat.strategy = e.seat.strategy
  hook : ∀ side size k e, (T.preOrderHook side size k e).2.strategy = e.seat.strategy


variable {T : Troupe α W ι ε} {e : LiveEngine α (Seat W ι)} {new : ι} {x : ReplaceError ε}

theorem Records.invoke (hT : T.Records) (i : ι) (c : StrategyCall) (e : LiveEngine α (Seat W ι)) :
    e.seat.calls ++ [(i, c)] <+: (T.invoke i c e).1.seat.calls :=
  hT.method i c (modify (fun g => { g with captured := { g.captured with calls := g.captured.calls ++ [(i, c)] } }) e)

theorem Records.invoke_grows (hT : T.Records) (i : ι) (c : StrategyCall) (e : LiveEngine α (Seat W ι)) :
    e.seat.calls <+: (T.invoke i c e).1.seat.calls := (List.prefix_append ..).trans (hT.invoke i c e)

/-- The new strategy is installed, or one of the three methods has thrown and the engine is as that one has left it. -/
theorem replaceStrategy_cases (T : Troupe α W ι ε) (hs : e.engine.started = true) (new : ι) :
    let e₁ := (T.invoke e.seat.strategy .stop e).1
    let e₂ := (T.invoke new .init e₁).1
    let e₃ := (T.invoke new .start e₂).1
    ((∃ x, (T.replaceStrategy (some new) e).2 = some (.thrown x)) ∧
      ((T.replaceStrategy (some new) e).1 = e₁ ∨ (T.replaceStrategy (some new) e).1 = e₂ ∨
        (T.replaceStrategy (some new) e).1 = e₃)) ∨
    T.replaceStrategy (some new) e =
      (modify (fun g => { g with captured := { g.captured with strategy := new }, nextstartFired := false }) e₃, none) := by
  unfold replaceStrategy
  rw [if_neg (by simp [hs])]
  dsimp only
  rcases T.invoke e.seat.strategy .stop e with ⟨e₁, _ | x₁⟩
  · dsimp only
    rcases T.invoke new .init e₁ with ⟨e₂, _ | x₂⟩
    · dsimp only
      rcases T.invoke new .start e₂ with ⟨e₃, _ | x₃⟩
      · exact .inr rfl
      · exact .inl ⟨⟨x₃, rfl⟩, .inr (.inr rfl)⟩
    · exact .inl ⟨⟨x₂, rfl⟩, .inr (.inl rfl)⟩
  · exact .inl ⟨⟨x₁, rfl⟩, .inl rfl⟩

/-- Whatever comes of it, the strategy that was installed has been stopped. -/
theorem replaceStrategy_stops (hT : T.Records) (hs : e.engine.started = true) (new : ι) :
    e.seat.calls ++ [(e.seat.strategy, .stop)] <+: (T.replaceStrategy (some new) e).1.seat.calls := by
  have hstop := hT.invoke e.seat.strategy .stop e
  have hinit := hstop.trans (hT.invoke_grows new .init _)
  have hstart := hinit.trans (hT.invoke_grows new .start _)
  rcases replaceStrategy_cases T hs new with ⟨-, h | h | h⟩ | h <;> rw [h]
  exacts [hstop, hinit, hstart, hstart]

/-- A replacement that fails is not installed. -/
theorem replaceStrategy_installed (hL : T.Loyal) (hs : e.engine.started = true)
    (h : (T.replaceStrategy (some new) e).2 = some x) :
    (T.replaceStrategy (some new) e).1.seat.strategy = e.seat.strategy := by
  have hinvoke : ∀ i c e, (T.invoke i c e).1.seat.strategy = e.seat.strategy := fun i c e => hL.method i c _
  rcases replaceStrategy_cases T hs new with ⟨-, h' | h' | h'⟩ | h'
  · rw [h', hinvoke]
  · rw [h', hinvoke, hinvoke]
  · rw [h', hinvoke, hinvoke, hinvoke]
  · rw [h'] at h
    cases h

variable [Arith α]

/-- Since the record stood at `calls`, strategy `i` has been called with a bar. -/
def Heard (i : ι) (calls : List (ι × StrategyCall)) (e : LiveEngine α (Seat W ι)) : Prop :=
  ∃ l c, e.seat.calls = calls ++ l ∧ (i, c) ∈ l ∧ c ∈ [StrategyCall.prenext, .nextstart, .next]

/-- The engine goes on as if `replace_strategy` had not been called. -/
structure Unreplaced (T : Troupe α W ι ε) (e e' : LiveEngine α (Seat W ι)) : Prop where
  installed : e'.seat.strategy = e.seat.strategy
  notStopped : ∀ l, e'.seat.calls = e.seat.calls ++ l → (e.seat.strategy, .stop) ∉ l
  hears : ∀ s, Heard e.seat.strategy e'.seat.calls (exec T.env (.marketData s) e')
  broker : e' = e.setRest e'.engine

/-- A replacement that throws is not installed, and it is never undone. -/
theorem replaceStrategy_not_atomic (hT : T.Records) (hs : e.engine.started = true)
    (h : (T.replaceStrategy (some new) e).2 = some x) :
    (T.Loyal → (T.replaceStrategy (some new) e).1.seat.strategy = e.seat.strategy) ∧
      ¬ T.Unreplaced e (T.replaceStrategy (some new) e).1 := by
  refine ⟨fun hL => replaceStrategy_installed hL hs h, fun hu => ?_⟩
  obtain ⟨l, hl⟩ := replaceStrategy_stops hT hs new
  refine hu.notStopped ((e.seat.strategy, .stop) :: l) ?_ (List.mem_cons_self ..)
  rw [← hl, List.append_assoc]
  rfl

/-! ### The strategy that stays -/

/-- The installed strategy stays, and the record grows. -/
theorem Loyal.stays (hL : T.Loyal) (hT : T.Records) {P : LiveEngine α (Seat W ι) → Prop}
    (hP : ∀ {e e' : LiveEngine α (Seat W ι)}, P e → e'.seat.strategy = e.seat.strategy → e.seat.calls <+: e'.seat.calls → P e') :
    EngineStays T.env P where
  frame hm he := hP he (congrArg Seat.strategy hm.captured) ((congrArg Seat.calls hm.captured).symm ▸ List.prefix_rfl)
  call ev e he := by
    cases ev with
    | strategy c => exact hP he (hL.method ..) (hT.invoke_grows ..)
    | _ => exact hP he (hL.other ..) (hT.other ..)
  hook side size k e he := hP he (hL.hook side size k e) (hT.hook side size k e)

/-- A bar is for the strategy that is installed. -/
theorem heard_marketData (hL : T.Loyal) (hT : T.Records) (hactive : e.engine.active = true)
    (hrun : e.engine.aborted = false) (s : MarketDataSnapshot α) :
    Heard e.seat.strategy e.seat.calls (exec T.env (.marketData s) e) := by
  let P : LiveEngine α (Seat W ι) → Prop := fun e' => e'.seat.strategy = e.seat.strategy ∧ e.seat.calls <+: e'.seat.calls
  have hP : EngineStays T.env P := hL.stays hT fun h hs hc => ⟨hs.trans h.1, h.2.trans hc⟩
  have hH : EngineStays T.env (Heard e.seat.strategy e.seat.calls) := hL.stays hT fun ⟨l, c, hl, hc⟩ _ ⟨l', hl'⟩ =>
    ⟨l ++ l', c, by rw [← hl', hl, List.append_assoc], List.mem_append_left _ hc.1, hc.2⟩
  have hcall : ∀ c ∈ [StrategyCall.prenext, .nextstart, .next], ∀ {e'}, P e' →
      Heard e.seat.strategy e.seat.calls (T.env.call (.strategy c) e') := by
    intro c hc e' ⟨hs, l, hl⟩
    obtain ⟨l', hl'⟩ := hT.invoke e'.seat.strategy c e'
    refine ⟨l ++ [(e'.seat.strategy, c)] ++ l', c, ?_, by simp [hs], hc⟩
    rw [← List.append_assoc, ← List.append_assoc, hl]
    exact hl'.symm
  have hstart : P (ensureFeed T.env s.symbol (received e)) :=
    hP.ensureFeed s.symbol (fun _ => ⟨rfl, List.prefix_rfl⟩) ⟨rfl, List.prefix_rfl⟩
  unfold exec
  rw [if_neg (by simp [hrun])]
  dsimp only
  rw [if_pos hactive]
  unfold handleMarketData
  refine hH.evaluateRiskLimits (fun hh _ => hh) ?_
  dsimp only
  split_ifs
  · exact hcall _ (by simp) hstart
  · exact hcall .nextstart (by simp) hstart
  · exact hcall _ (by simp) hstart

end Troupe

/-! ### A strategy that buys before it throws -/

/-- Surroundings that do nothing. -/
def Env.idle : Env ℚ (Seat Unit Bool) :=
  { call := fun _ e => e, preOrderHook := fun _ size _ e => (⟨0, size, false⟩, e.seat), minimumPeriod := fun _ _ => 0, spare := 0 }

/-- Strategy `true` buys in `init` and throws; everything else does nothing. -/
def Troupe.hasty : Troupe ℚ Unit Bool String where
  method i c e :=
    if i && c = .init then (e.execLive (hooks Env.idle) (.buy 1 0 none .Market 0), some "no data") else (e, none)
  other := Env.idle.call
  preOrderHook := Env.idle.preOrderHook
  minimumPeriod _ := Env.idle.minimumPeriod
  spare := 0

/-- A running engine with strategy `false`. -/
def LiveEngine.seated : LiveEngine ℚ (Seat Unit Bool) :=
  .init .USD 1000 none
    { symbols := ["PRIMARY"], snapshots := fun _ => none, busy := [], events := [],
      rest := { (LiveEngine.funded (.rate none)).engine with
        live := true, started := true, active := true, feeds := [("PRIMARY", {})],
        captured := { rest := (), strategy := false, calls := [] } } }

theorem Troupe.records_hasty : Troupe.hasty.Records where
  method i c e := by
    have hS : EngineStays Env.idle fun e' => e.seat.calls <+: e'.seat.calls :=
      ⟨fun hm h => (congrArg Seat.calls hm.captured).symm ▸ h, fun _ _ h => h, fun _ _ _ _ h => h⟩
    unfold Troupe.hasty
    dsimp only
    split_ifs
    · exact hS.execLive (fun o => hS.hooks_submit o) _ List.prefix_rfl
    · exact List.prefix_rfl
  other _ _ := List.prefix_rfl
  hook _ _ _ _ := List.prefix_rfl

theorem Troupe.replaceStrategy_not_atomic_hasty :
    let r := Troupe.hasty.replaceStrategy (some true) .seated
    (Troupe.hasty.Loyal → r.1.seat.strategy = false) ∧ ¬ Troupe.hasty.Unreplaced .seated r.1 :=
  replaceStrategy_not_atomic (x := .thrown "no data") records_hasty rfl (by decide +kernel)

/-- The old strategy is installed and has been stopped, and the order of the new one stays. -/
theorem Troupe.stopped_by_a_failed_replacement :
    let r := Troupe.hasty.replaceStrategy (some true) .seated
    r.2 = some (.thrown "no data") ∧ r.1.seat.strategy = false ∧ r.1.seat.calls = [(false, .stop), (true, .init)] ∧
      r.1.allOrders.length = 1 ∧ ¬ Troupe.hasty.Unreplaced .seated r.1 :=
  ⟨by decide +kernel, by decide +kernel, by decide +kernel, by decide +kernel, fun h =>
    h.notStopped [(false, .stop), (true, .init)] (by decide +kernel) (List.mem_cons_self ..)⟩

end StratForge
