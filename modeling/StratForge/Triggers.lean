import Mathlib.Tactic.Linarith
import Mathlib.Tactic.NormNum
import StratForge.Books

/-!
# What an order is filled at

The limit is applied before the slippage, so it bounds what is executed only where the slippage leaves it alone
(`limit_protection_iff`). A stop that is touched is not remembered: stop and limit are both asked of the one bar
(`stop_limit_matches`). And the limit orders among the stop orders trade at the open of the bar that triggers them, also
where the open comes before the trigger (`no_fill_before_trigger_iff`).
-/

namespace StratForge

/-! ### Fills -/

namespace BackBroker
variable {α W : Type} [Arith α] {h : Hooks α W} {b : BackBroker α W} {i : Nat} {o : Order α}

/-- A fill of `try_fill_order` is one at the matched price, and the order is left executed at it. -/
theorem tryFillOrder_fill (hh : Tame h) (feed : DataFeed α) (bar : Row α) (ho : b.pendingOrders[i]? = some o)
    (x : Execution α) : (b.tryFillOrder h feed bar i).2.executions = b.executions ++ [x] ↔
      ∃ price, b.matchOrder o bar = .fill price ∧ b.affords o price bar.datetime = true ∧ x = b.fillOf feed o price := by
  have hnone : ∀ b' : BackBroker α W, b'.executions = b.executions → ¬ b'.executions = b.executions ++ [x] := by
    intro b' heq h
    simpa using heq.symm.trans h
  have hquiet : ∀ f, (((b.edit i f).sync i).executions) = b.executions := fun f =>
    ((Quiet.edit b i f).trans (.sync _ i)).executions
  unfold tryFillOrder
  rw [ho]
  dsimp only
  cases hmatch : b.matchOrder o bar with
  | none => exact iff_of_false (hnone b rfl) (by rintro ⟨price, heq, -⟩; cases heq)
  | noStopPrice => exact iff_of_false (hnone _ (hquiet _)) (by rintro ⟨price, heq, -⟩; cases heq)
  | fill price =>
    dsimp only
    split_ifs with hafford
    · have hbook : (b.book h feed bar i o price).executions = b.executions ++ [b.fillOf feed o price] := by
        rw [(enter_books hh feed bar b i o price).executions, enter_executions]
        rfl
      show (b.book h feed bar i o price).executions = _ ↔ _
      rw [hbook]
      constructor
      · intro heq
        exact ⟨price, rfl, hafford, (List.singleton_injective (List.append_cancel_left heq)).symm⟩
      · rintro ⟨price', heq, -, rfl⟩
        cases heq
        rfl
    · refine iff_of_false (hnone _ (hquiet _)) ?_
      rintro ⟨price', heq, hafford', -⟩
      cases heq
      exact hafford hafford'

theorem executedPrice_fillOf (feed : DataFeed α) (halive : o.isAlive = true) (price : α) :
    (b.fillOf feed o price).order.executedPrice = price := by
  show (o.execute _ _ _).executedPrice = price
  rw [Order.execute, if_pos halive]

end BackBroker

/-! ### Limits -/

/-- A price that is no worse than the limit. -/
def Order.Within (o : Order ℚ) (price : ℚ) : Prop :=
  match o.side with
  | .Buy => price ≤ o.price
  | .Sell => o.price ≤ price

/-- What the bar gives a limit order that it touches, before slippage. -/
def Order.atLimit (o : Order ℚ) (bar : Row ℚ) : ℚ :=
  match o.side with
  | .Buy => min o.price bar.open
  | .Sell => max o.price bar.open

/-- The end of the bar that is worse for the order. -/
def Order.worstOf (o : Order ℚ) (bar : Row ℚ) : ℚ :=
  match o.side with
  | .Buy => bar.high
  | .Sell => bar.low

/-- The price with the slippage, before the bar is asked. -/
def BrokerSettings.slipped (b : BrokerSettings ℚ) (rawPrice : ℚ) (side : OrderSide) : ℚ :=
  if b.slipPerc ≠ 0 then rawPrice * (if side = .Buy then 1 + b.slipPerc else 1 - b.slipPerc)
  else if b.slipFixed ≠ 0 then rawPrice + (if side = .Buy then b.slipFixed else -b.slipFixed)
  else rawPrice

theorem BrokerSettings.slipped_none {b : BrokerSettings ℚ} (hperc : b.slipPerc = 0) (hfixed : b.slipFixed = 0) (raw : ℚ)
    (side : OrderSide) : b.slipped raw side = raw := by
  unfold slipped
  rw [if_neg (not_not.2 hperc), if_neg (not_not.2 hfixed)]

/-- The slipped price is taken as it is, or moved to the near end of the bar. -/
theorem BrokerSettings.applySlippage_cases {b : BrokerSettings ℚ} {raw p : ℚ} {side : OrderSide} {bar : Row ℚ}
    (h : b.applySlippage raw side bar = some p) (hbar : bar.low ≤ bar.high) :
    b.slipOut = true ∧ p = b.slipped raw side ∨
      b.slipOut = false ∧ p = max bar.low (min bar.high (b.slipped raw side)) := by
  have hadjusted : b.slipped raw side = if b.slipPerc != 0 then raw * (if side = .Buy then 1 + b.slipPerc else 1 - b.slipPerc)
      else if b.slipFixed != 0 then raw + (if side = .Buy then b.slipFixed else -b.slipFixed) else raw := by
    unfold slipped
    simp only [bne_iff_ne]
  unfold applySlippage at h
  rw [← hadjusted] at h
  dsimp only at h
  split_ifs at h with hout hin hmatch
  · cases h
    exact .inl ⟨hout, rfl⟩
  · cases h
    rw [min_eq_right hin.2, max_eq_right hin.1]
    exact .inr ⟨by simpa using hout, rfl⟩
  · cases h
    refine .inr ⟨by simpa using hout, ?_⟩
    unfold Arith.clamp
    split_ifs with hlow hhigh
    · rw [min_eq_right (hlow.le.trans hbar), max_eq_left hlow.le]
    · rw [min_eq_left hhigh.le, max_eq_right hbar]
    · rw [min_eq_right (not_lt.1 hhigh), max_eq_right (not_lt.1 hlow)]

/-- A limit order that is matched is touched by the bar. -/
theorem Order.rawMatch_limit {o : Order ℚ} {bar : Row ℚ} {raw : ℚ} (htype : o.type.appliesLimitSlippage = true)
    (h : o.rawMatch bar = .fill raw) : limitTouch o.side o.price bar = some raw := by
  have hof : ∀ x : Option ℚ, Match.ofOption x = .fill raw → x = some raw := by
    intro x hx
    cases x <;> cases hx
    rfl
  unfold rawMatch at h
  cases ht : o.type with
  | Market | Stop | StopTrail =>
    rw [ht] at htype
    cases htype
  | Limit =>
    rw [ht] at h
    exact hof _ h
  | StopLimit =>
    rw [ht] at h
    dsimp only at h
    split at h
    · cases h
    · split at h
      · cases h
      · exact hof _ h
  | StopTrailLimit =>
    rw [ht] at h
    dsimp only at h
    split_ifs at h
    split at h
    · cases h
    · exact hof _ h

/-- The bar reaches the limit, and so the order trades at the limit or at a better open. -/
theorem Order.limitTouch_spec {o : Order ℚ} {bar : Row ℚ} {raw : ℚ} (h : limitTouch o.side o.price bar = some raw) :
    raw = o.atLimit bar ∧ match o.side with
      | .Buy => bar.low ≤ o.price
      | .Sell => o.price ≤ bar.high := by
  unfold limitTouch at h
  unfold atLimit
  cases hs : o.side <;> rw [hs] at h <;> dsimp only at h ⊢ <;> split_ifs at h with htouch <;> cases h
  · exact ⟨Arith.min_rat _ _, htouch⟩
  · exact ⟨Arith.max_rat _ _, htouch⟩

theorem Order.within_atLimit (o : Order ℚ) (bar : Row ℚ) : o.Within (o.atLimit bar) := by
  unfold Within atLimit
  cases o.side
  exacts [min_le_left _ _, le_max_left _ _]

/-- A price held to a bar that reaches the limit. -/
theorem Order.within_clamp {o : Order ℚ} {bar : Row ℚ} (p : ℚ) (htouch : match o.side with
      | .Buy => bar.low ≤ o.price
      | .Sell => o.price ≤ bar.high) :
    o.Within (max bar.low (min bar.high p)) ↔ o.Within p ∨ o.Within (o.worstOf bar) := by
  unfold Within worstOf
  cases hs : o.side <;> rw [hs] at htouch <;> dsimp only at htouch ⊢
  · rw [max_le_iff, min_le_iff, and_iff_right htouch, or_comm]
  · rw [le_max_iff, le_min_iff]
    constructor
    · rintro (h | ⟨-, h⟩)
      exacts [.inr h, .inl h]
    · rintro (h | h)
      exacts [.inr ⟨htouch, h⟩, .inl h]

/-- The price of a limit order: the one at the limit, with the slippage if limit orders have any. -/
theorem BrokerSettings.matchOrder_limit {b : BrokerSettings ℚ} {o : Order ℚ} {bar : Row ℚ} {p : ℚ}
    (htype : o.type.appliesLimitSlippage = true) (h : b.matchOrder o bar = .fill p) :
    ∃ raw, o.rawMatch bar = .fill raw ∧
      (b.slipLimit = false ∧ p = raw ∨ b.slipLimit = true ∧ b.applySlippage raw o.side bar = some p) := by
  unfold matchOrder at h
  cases hraw : o.rawMatch bar with
  | none => rw [hraw] at h; cases h
  | noStopPrice => rw [hraw] at h; cases h
  | fill raw =>
    rw [hraw] at h
    dsimp only at h
    have hopen : o.type.appliesOpenSlippage = false := by
      cases ht : o.type <;> rw [ht] at htype <;> cases htype <;> rfl
    rw [hopen, htype, Bool.false_and, Bool.false_or, Bool.true_and] at h
    refine ⟨raw, rfl, ?_⟩
    split_ifs at h with hslip
    · refine .inr ⟨hslip, ?_⟩
      cases happ : b.applySlippage raw o.side bar with
      | none => rw [happ] at h; cases h
      | some q => rw [happ] at h; cases h; rfl
    · cases h
      exact .inl ⟨by simpa using hslip, rfl⟩

namespace BackBroker
variable {W : Type} {b : BackBroker ℚ W} {i : Nat} {o : Order ℚ}

/-- When a limit order is filled, its limit is kept if limit orders have no slippage, if the slipped price keeps it, or
if the price is held to a bar that lies within the limit, and otherwise not; without any slippage it is always kept. -/
theorem limit_protection_iff (L : Listener ℚ W) (fuel : Nat) (feed : DataFeed ℚ) {bar : Row ℚ} (hlow : bar.low ≤ bar.open)
    (hhigh : bar.open ≤ bar.high) (ho : b.pendingOrders[i]? = some o) (halive : o.isAlive = true)
    (htype : o.type.appliesLimitSlippage = true) {x : Execution ℚ}
    (hfill : (b.tryFillOrder (L.hooks fuel) feed bar i).2.executions = b.executions ++ [x]) :
    (o.Within x.order.executedPrice ↔ b.slipLimit = false ∨ o.Within (b.slipped (o.atLimit bar) o.side) ∨
      b.slipOut = false ∧ o.Within (o.worstOf bar)) ∧
    (b.slipPerc = 0 → b.slipFixed = 0 → o.Within x.order.executedPrice) := by
  obtain ⟨p, hmatch, -, rfl⟩ := (tryFillOrder_fill (tame_hooks L fuel) feed bar ho x).1 hfill
  rw [executedPrice_fillOf feed halive]
  obtain ⟨raw, hraw, hslip⟩ := BrokerSettings.matchOrder_limit htype hmatch
  obtain ⟨rfl, htouch⟩ := Order.limitTouch_spec (Order.rawMatch_limit htype hraw)
  have hlimit := o.within_atLimit bar
  have hiff : o.Within p ↔ b.slipLimit = false ∨ o.Within (b.slipped (o.atLimit bar) o.side) ∨
      b.slipOut = false ∧ o.Within (o.worstOf bar) := by
    rcases hslip with ⟨hoff, rfl⟩ | ⟨hon, happ⟩
    · exact iff_of_true hlimit (.inl hoff)
    · rcases BrokerSettings.applySlippage_cases happ (hlow.trans hhigh) with ⟨hout, rfl⟩ | ⟨hout, rfl⟩
      · simp [hon, hout]
      · rw [Order.within_clamp _ htouch]
        simp [hon, hout]
  refine ⟨hiff, fun hperc hfixed => hiff.2 (.inr (.inl ?_))⟩
  rw [BrokerSettings.slipped_none hperc hfixed]
  exact hlimit

/-- Slippage of a hundredth, and a buy at 100. -/
def slippery : BackBroker ℚ Unit :=
  { funded with slipPerc := 0.01 }.exec (Listener.silent.hooks 0) (.buy 1 100 none .Limit 0)

/-- From an open above the limit the price comes down to it; the buy pays the slippage on top of the limit. -/
theorem limit_not_protected :
    let bar : Row ℚ := ⟨0, 101, 105, 99, 100, 0, 0⟩
    slippery.pendingOrders.map (fun o => (o.type, o.side, o.isAlive, o.price)) = [(.Limit, .Buy, true, 100)] ∧
      (slippery.tryFillOrder (Listener.silent.hooks 0) (.ofBar 101 105 99 100) bar 0).2.executions.map
        (fun x => (x.order.status, x.order.executedPrice)) = [(.Completed, 101)] := by
  decide +kernel

theorem limit_protection_iff_slippery :
    let bar : Row ℚ := ⟨0, 101, 105, 99, 100, 0, 0⟩
    ∃ o x, slippery.pendingOrders[0]? = some o ∧
      (slippery.tryFillOrder (Listener.silent.hooks 0) (.ofBar 101 105 99 100) bar 0).2.executions =
        slippery.executions ++ [x] ∧
      ((o.Within x.order.executedPrice ↔ slippery.slipLimit = false ∨ o.Within (slippery.slipped (o.atLimit bar) o.side) ∨
        slippery.slipOut = false ∧ o.Within (o.worstOf bar)) ∧
      (slippery.slipPerc = 0 → slippery.slipFixed = 0 → o.Within x.order.executedPrice)) := by
  intro bar
  obtain ⟨o, ho⟩ := List.length_eq_one_iff.1 (show slippery.pendingOrders.length = 1 by decide +kernel)
  obtain ⟨x, hx⟩ := List.length_eq_one_iff.1 (show (slippery.tryFillOrder (Listener.silent.hooks 0)
    (.ofBar 101 105 99 100) bar 0).2.executions.length = 1 by decide +kernel)
  have hlimit : ∀ o ∈ slippery.pendingOrders, o.isAlive = true ∧ o.type.appliesLimitSlippage = true := by decide +kernel
  obtain ⟨halive, htype⟩ := hlimit o (by rw [ho]; exact List.mem_singleton_self o)
  have hget : slippery.pendingOrders[0]? = some o := by rw [ho]; rfl
  have hnone : slippery.executions = [] := by decide +kernel
  have hfill : (slippery.tryFillOrder (Listener.silent.hooks 0) (.ofBar 101 105 99 100) bar 0).2.executions =
      slippery.executions ++ [x] := by rw [hnone]; exact hx
  exact ⟨o, x, hget, hfill, limit_protection_iff Listener.silent 0 _ (by decide) (by decide) hget halive htype hfill⟩

end BackBroker

/-! ### Stops -/

namespace Order
variable {α : Type} [Arith α]

/-- The stop level of an order that has one by now. -/
def stopLevel (o : Order α) : Option α :=
  match o.type with
  | .Market | .Limit => none
  | .Stop | .StopLimit => o.stopPrice
  | .StopTrail | .StopTrailLimit => if o.trailStopPrice == 0 then none else some o.trailStopPrice

/-- The bar touches the stop level. -/
def Touches (o : Order α) (bar : Row α) : Prop :=
  ∃ s, o.stopLevel = some s ∧ match o.side with
    | .Buy => s ≤ bar.high
    | .Sell => bar.low ≤ s

/-- The order without its stop. -/
def plainLimit (o : Order α) : Order α := { o with type := .Limit }

theorem stopTouch_eq_some (o : Order α) (s : α) (bar : Row α) :
    (∃ p, stopTouch o.side s bar = some p) ↔ match o.side with
      | .Buy => s ≤ bar.high
      | .Sell => bar.low ≤ s := by
  unfold stopTouch
  cases o.side <;> dsimp only <;> split_ifs with h <;> simp [h]

theorem touches_of_level {o : Order α} {s : α} (h : o.stopLevel = some s) (bar : Row α) :
    o.Touches bar ↔ ∃ q, stopTouch o.side s bar = some q := by
  rw [stopTouch_eq_some]
  unfold Touches
  rw [h]
  simp

/-- Stop and limit are asked of the same bar. -/
theorem rawMatch_stopLimit {o : Order α} (htype : o.type = .StopLimit ∨ o.type = .StopTrailLimit) (bar : Row α) (p : α) :
    o.rawMatch bar = .fill p ↔ o.Touches bar ∧ o.plainLimit.rawMatch bar = .fill p := by
  have hlimit : o.plainLimit.rawMatch bar = .ofOption (limitTouch o.side o.price bar) := rfl
  rw [hlimit]
  rcases htype with ht | ht
  · cases hs : o.stopPrice with
    | none => simp [rawMatch, Touches, stopLevel, ht, hs]
    | some s =>
      have hlevel : o.stopLevel = some s := by rw [stopLevel, ht]; exact hs
      rw [touches_of_level hlevel]
      unfold rawMatch
      rw [ht, hs]
      dsimp only
      cases stopTouch o.side s bar <;> simp
  · by_cases hzero : (o.trailStopPrice == 0) = true
    · simp [rawMatch, Touches, stopLevel, ht, hzero]
    · have hlevel : o.stopLevel = some o.trailStopPrice := by rw [stopLevel, ht]; exact if_neg hzero
      rw [touches_of_level hlevel]
      unfold rawMatch
      rw [ht]
      dsimp only
      rw [if_neg hzero]
      cases stopTouch o.side o.trailStopPrice bar <;> simp

end Order

namespace BrokerSettings
variable {α : Type} [Arith α]

/-- What a match becomes of depends on the limit only through the price. -/
theorem matchOrder_stopLimit (b : BrokerSettings α) {o : Order α} (htype : o.type = .StopLimit ∨ o.type = .StopTrailLimit)
    (bar : Row α) (p : α) : b.matchOrder o bar = .fill p ↔ o.Touches bar ∧ b.matchOrder o.plainLimit bar = .fill p := by
  have hslip : ((o.type.appliesOpenSlippage && b.slipOpen) || (o.type.appliesLimitSlippage && b.slipLimit)) = b.slipLimit := by
    rcases htype with ht | ht <;> rw [ht] <;> simp [OrderType.appliesOpenSlippage, OrderType.appliesLimitSlippage]
  have hfill : ∀ o' : Order α, b.matchOrder o' bar = .fill p ↔ ∃ raw, o'.rawMatch bar = .fill raw ∧
      (if ((o'.type.appliesOpenSlippage && b.slipOpen) || (o'.type.appliesLimitSlippage && b.slipLimit)) = true then
        Match.ofOption (b.applySlippage raw o'.side bar) else .fill raw) = .fill p := by
    intro o'
    unfold matchOrder
    cases o'.rawMatch bar <;> simp
  rw [hfill, hfill, hslip]
  simp only [Order.rawMatch_stopLimit htype]
  constructor
  · rintro ⟨raw, ⟨htouch, hraw⟩, hp⟩
    exact ⟨htouch, raw, hraw, hp⟩
  · rintro ⟨htouch, raw, hraw, hp⟩
    exact ⟨raw, ⟨htouch, hraw⟩, hp⟩

end BrokerSettings

namespace BackBroker

/-- Whatever the bars before have touched, a stop-limit order is filled on a bar exactly when this bar touches the stop
level that the order has by now and a plain limit order in its place would be filled on it, at the same price. -/
theorem stop_limit_matches {α W : Type} [Arith α] (L : Listener α W) (fuel : Nat) (b : BackBroker α W) (feed : DataFeed α)
    (bar : Row α) {i : Nat} {o : Order α} (ho : b.pendingOrders[i]? = some o)
    (htype : o.type = .StopLimit ∨ o.type = .StopTrailLimit) (price : α) :
    (∃ x, (b.tryFillOrder (L.hooks fuel) feed bar i).2.executions = b.executions ++ [x] ∧ x.price = price) ↔
      o.Touches bar ∧ ∃ x, ((b.edit i Order.plainLimit).tryFillOrder (L.hooks fuel) feed bar i).2.executions =
        b.executions ++ [x] ∧ x.price = price := by
  have hplain : (b.edit i Order.plainLimit).pendingOrders[i]? = some o.plainLimit := by
    show (b.pendingOrders.modify i _)[i]? = _
    rw [List.getElem?_modify_eq, ho]
    rfl
  -- with its stop or without it, what is filled at a price is what is matched at it and afforded
  have hiff : ∀ (b' : BackBroker α W) o', b'.pendingOrders[i]? = some o' →
      ((∃ x, (b'.tryFillOrder (L.hooks fuel) feed bar i).2.executions = b'.executions ++ [x] ∧ x.price = price) ↔
        b'.matchOrder o' bar = .fill price ∧ b'.affords o' price bar.datetime = true) := by
    intro b' o' ho'
    simp only [tryFillOrder_fill (tame_hooks L fuel) feed bar ho']
    constructor
    · rintro ⟨x, ⟨p, hmatch, hafford, rfl⟩, rfl⟩
      exact ⟨hmatch, hafford⟩
    · rintro ⟨hmatch, hafford⟩
      exact ⟨_, ⟨price, hmatch, hafford, rfl⟩, rfl⟩
  have hwithout := hiff (b.edit i Order.plainLimit) o.plainLimit hplain
  rw [hiff b o ho, b.matchOrder_stopLimit htype, and_assoc]
  exact and_congr_right fun _ => hwithout.symm

/-- A buy with its stop at 110 and its limit at 100. -/
def breakout : BackBroker ℚ Unit :=
  funded.exec (Listener.silent.hooks 0) (.buyExt 1 { OrderParams.default with type := .StopLimit, price := 100, stopPrice := some 110 })

/-- The first bar touches the stop, the second one the limit: nothing is filled, and the plain limit order would be. -/
theorem trigger_not_remembered :
    let first : DataFeed ℚ := .ofBar 108 112 105 106
    let second : DataFeed ℚ := .ofBar 104 104 99 101
    let b := breakout.run (Listener.silent.hooks 0) [.processOrders [first]]
    (∀ o ∈ breakout.pendingOrders, o.stopLevel = some 110) ∧ b.pendingOrders.length = 1 ∧
      (b.step (Listener.silent.hooks 0) (.processOrders [second])).executions = [] ∧
      ((b.edit 0 Order.plainLimit).step (Listener.silent.hooks 0) (.processOrders [second])).executions.map (·.price) = [100] := by
  decide +kernel

theorem stop_limit_matches_breakout :
    let bar : Row ℚ := ⟨0, 108, 112, 99, 106, 0, 0⟩
    ∃ o, breakout.pendingOrders[0]? = some o ∧
      ((∃ x, (breakout.tryFillOrder (Listener.silent.hooks 0) (.ofBar 108 112 99 106) bar 0).2.executions =
        breakout.executions ++ [x] ∧ x.price = 100) ↔ o.Touches bar ∧
      ∃ x, ((breakout.edit 0 Order.plainLimit).tryFillOrder (Listener.silent.hooks 0) (.ofBar 108 112 99 106) bar 0).2.executions =
        breakout.executions ++ [x] ∧ x.price = 100) := by
  intro bar
  obtain ⟨o, ho⟩ := List.length_eq_one_iff.1 (show breakout.pendingOrders.length = 1 by decide +kernel)
  have htype : ∀ o ∈ breakout.pendingOrders, o.type = .StopLimit := by decide +kernel
  have hget : breakout.pendingOrders[0]? = some o := by rw [ho]; rfl
  exact ⟨o, hget, stop_limit_matches Listener.silent 0 breakout _ bar hget
    (.inl (htype o (by rw [ho]; exact List.mem_singleton_self o))) 100⟩

end BackBroker

/-! ### Triggers -/

/-- A price on the triggered side of the level. -/
def Order.Beyond (o : Order ℚ) (s price : ℚ) : Prop :=
  match o.side with
  | .Buy => s ≤ price
  | .Sell => price ≤ s

/-- Without slippage the price is what the bar gives, which lies in it. -/
theorem BrokerSettings.matchOrder_none {b : BrokerSettings ℚ} {o : Order ℚ} {bar : Row ℚ} {p : ℚ} (hperc : b.slipPerc = 0)
    (hfixed : b.slipFixed = 0) (h : b.matchOrder o bar = .fill p) :
    ∃ raw, o.rawMatch bar = .fill raw ∧ (bar.low ≤ raw → raw ≤ bar.high → p = raw) := by
  unfold matchOrder at h
  cases hraw : o.rawMatch bar with
  | none => rw [hraw] at h; cases h
  | noStopPrice => rw [hraw] at h; cases h
  | fill raw =>
    rw [hraw] at h
    dsimp only at h
    refine ⟨raw, rfl, fun hlow hhigh => ?_⟩
    split_ifs at h
    · cases happ : b.applySlippage raw o.side bar with
      | none => rw [happ] at h; cases h
      | some q =>
        rw [happ] at h
        cases h
        rcases applySlippage_cases happ (hlow.trans hhigh) with ⟨-, rfl⟩ | ⟨-, rfl⟩ <;> rw [slipped_none hperc hfixed]
        rw [min_eq_right hhigh, max_eq_right hlow]
    · cases h
      rfl

/-- A stop order that is matched is touched by the bar. -/
theorem Order.rawMatch_stop {o : Order ℚ} {bar : Row ℚ} {raw s : ℚ} (htype : o.type = .Stop ∨ o.type = .StopTrail)
    (hs : o.stopLevel = some s) (h : o.rawMatch bar = .fill raw) : stopTouch o.side s bar = some raw := by
  have hof : ∀ x : Option ℚ, Match.ofOption x = .fill raw → x = some raw := by
    intro x hx
    cases x <;> cases hx
    rfl
  unfold rawMatch at h
  unfold stopLevel at hs
  rcases htype with ht | ht <;> rw [ht] at h hs <;> dsimp only at h hs
  · rw [hs] at h
    exact hof _ h
  · split_ifs at h hs
    cases hs
    exact hof _ h

namespace BackBroker
variable {W : Type} {b : BackBroker ℚ W} {i : Nat} {o : Order ℚ}

/-- Without slippage, an order that a bar triggers from an open on the other side of the stop trades beyond the stop if
it has no limit, and before the trigger, at the open, if it has one. -/
theorem no_fill_before_trigger_iff (L : Listener ℚ W) (fuel : Nat) (feed : DataFeed ℚ) {bar : Row ℚ}
    (hlow : bar.low ≤ bar.open) (hhigh : bar.open ≤ bar.high) (hperc : b.slipPerc = 0) (hfixed : b.slipFixed = 0)
    (ho : b.pendingOrders[i]? = some o) (halive : o.isAlive = true) {s : ℚ} (hs : o.stopLevel = some s)
    (hlimit : o.type.appliesLimitSlippage = true → o.Beyond s o.price) (huntriggered : ¬ o.Beyond s bar.open) {x : Execution ℚ}
    (hfill : (b.tryFillOrder (L.hooks fuel) feed bar i).2.executions = b.executions ++ [x]) :
    o.Beyond s x.order.executedPrice ↔ o.type = .Stop ∨ o.type = .StopTrail := by
  obtain ⟨p, hmatch, -, rfl⟩ := (tryFillOrder_fill (tame_hooks L fuel) feed bar ho x).1 hfill
  rw [executedPrice_fillOf feed halive]
  obtain ⟨raw, hraw, hp⟩ := BrokerSettings.matchOrder_none hperc hfixed hmatch
  by_cases htype : o.type = .Stop ∨ o.type = .StopTrail
  · -- the order trades at the level itself
    refine iff_of_true ?_ htype
    have htouch := Order.rawMatch_stop htype hs hraw
    unfold Order.stopTouch at htouch
    unfold Order.Beyond at huntriggered ⊢
    cases hside : o.side <;> rw [hside] at htouch huntriggered <;> dsimp only at htouch huntriggered ⊢ <;>
      rw [not_le] at huntriggered <;> split_ifs at htouch with hreach <;> cases htouch
    · rw [Arith.max_rat, max_eq_left huntriggered.le] at hp
      rw [hp (hlow.trans huntriggered.le) hreach]
    · rw [Arith.min_rat, min_eq_left huntriggered.le] at hp
      rw [hp hreach (huntriggered.le.trans hhigh)]
  · -- the limit is beyond the level, so the open is better
    refine iff_of_false ?_ htype
    have hkind : o.type.appliesLimitSlippage = true := by
      unfold Order.stopLevel at hs
      cases ht : o.type <;> rw [ht] at hs htype <;> first
        | cases hs
        | rfl
        | simp at htype
    have hprice := hlimit hkind
    obtain ⟨rfl, -⟩ := Order.limitTouch_spec (Order.rawMatch_limit hkind hraw)
    unfold Order.Beyond at huntriggered hprice ⊢
    unfold Order.atLimit at hp
    cases hside : o.side <;> rw [hside] at hp huntriggered hprice <;> dsimp only at hp huntriggered hprice ⊢ <;>
      rw [not_le] at huntriggered ⊢
    · rw [min_eq_right (huntriggered.le.trans hprice)] at hp
      rw [hp hlow hhigh]
      exact huntriggered
    · rw [max_eq_right (hprice.trans huntriggered.le)] at hp
      rw [hp hlow hhigh]
      exact huntriggered

/-- A buy of one order type, with its stop at 110 and its limit at 115. -/
def stopBuy (type : OrderType) : BackBroker ℚ Unit :=
  funded.exec (Listener.silent.hooks 0) (.buyExt 1 { OrderParams.default with type, price := 115, stopPrice := some 110 })

/-- The stop order trades at its stop, the stop-limit order at an open that comes before the trigger. -/
theorem filled_before_trigger :
    let bar : Row ℚ := ⟨0, 105, 112, 104, 111, 0, 0⟩
    let executed (type : OrderType) := ((stopBuy type).tryFillOrder (Listener.silent.hooks 0) (.ofBar 105 112 104 111)
      bar 0).2.executions.map fun x => (x.order.status, x.order.executedPrice)
    (∀ o ∈ (stopBuy .StopLimit).pendingOrders, o.stopLevel = some 110 ∧ o.price = 115) ∧
      executed .StopLimit = [(.Completed, 105)] ∧ executed .Stop = [(.Completed, 110)] := by
  decide +kernel

theorem no_fill_before_trigger_iff_stop :
    let bar : Row ℚ := ⟨0, 105, 112, 104, 111, 0, 0⟩
    ∃ o x, (stopBuy .Stop).pendingOrders[0]? = some o ∧
      ((stopBuy .Stop).tryFillOrder (Listener.silent.hooks 0) (.ofBar 105 112 104 111) bar 0).2.executions =
        (stopBuy .Stop).executions ++ [x] ∧
      (o.Beyond 110 x.order.executedPrice ↔ o.type = .Stop ∨ o.type = .StopTrail) := by
  intro bar
  obtain ⟨o, ho⟩ := List.length_eq_one_iff.1 (show (stopBuy .Stop).pendingOrders.length = 1 by decide +kernel)
  obtain ⟨x, hx⟩ := List.length_eq_one_iff.1 (show ((stopBuy .Stop).tryFillOrder (Listener.silent.hooks 0)
    (.ofBar 105 112 104 111) bar 0).2.executions.length = 1 by decide +kernel)
  have hstop : ∀ o ∈ (stopBuy .Stop).pendingOrders, o.isAlive = true ∧ o.stopLevel = some 110 ∧
      o.type.appliesLimitSlippage = false ∧ o.side = .Buy := by decide +kernel
  obtain ⟨halive, hs, hkind, hside⟩ := hstop o (by rw [ho]; exact List.mem_singleton_self o)
  have hget : (stopBuy .Stop).pendingOrders[0]? = some o := by rw [ho]; rfl
  have hnone : (stopBuy .Stop).executions = [] := by decide +kernel
  have hfill : ((stopBuy .Stop).tryFillOrder (Listener.silent.hooks 0) (.ofBar 105 112 104 111) bar 0).2.executions =
      (stopBuy .Stop).executions ++ [x] := by rw [hnone]; exact hx
  have huntriggered : ¬ o.Beyond 110 bar.open := by
    unfold Order.Beyond
    rw [hside]
    decide
  exact ⟨o, x, hget, hfill, no_fill_before_trigger_iff Listener.silent 0 _ (by decide) (by decide) rfl rfl hget halive hs
    (fun h => absurd (hkind.symm.trans h) Bool.false_ne_true) huntriggered hfill⟩

end BackBroker

end StratForge
