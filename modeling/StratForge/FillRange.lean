import StratForge.Triggers

/-!
# Fills inside the bar (`try_fill_order`, `apply_slippage`)

The price before slippage lies in every bar that triggers the order, and slippage that is not let out
of the bar keeps it there (`matchOrder_mem`). Slippage that matches at the end of the bar never
refuses, so that what is matched is what is triggered (`matchOrder_iff_triggered`).
-/

namespace StratForge

namespace Order

/-- The bar comes to the limit. -/
def ReachesLimit (o : Order ℚ) (bar : Row ℚ) : Prop :=
  match o.side with
  | .Buy => bar.low ≤ o.price
  | .Sell => o.price ≤ bar.high

/-- The trigger condition of the order's type; the trailing types have their level for a stop. -/
def Triggered (o : Order ℚ) (bar : Row ℚ) : Prop :=
  match o.type with
  | .Market => True
  | .Limit => o.ReachesLimit bar
  | .Stop | .StopTrail => o.Touches bar
  | .StopLimit | .StopTrailLimit => o.Touches bar ∧ o.ReachesLimit bar

variable {o : Order ℚ} {bar : Row ℚ} {raw : ℚ}

theorem ofOption_eq_fill {x : Option ℚ} {p : ℚ} : Match.ofOption x = .fill p ↔ x = some p := by
  cases x <;> simp [Match.ofOption]

theorem limitTouch_eq_some (o : Order ℚ) (bar : Row ℚ) :
    (∃ p, limitTouch o.side o.price bar = some p) ↔ o.ReachesLimit bar := by
  unfold limitTouch ReachesLimit
  cases o.side <;> dsimp only <;> split_ifs with h <;> simp [h]

/-- At the limit or at a better open: in a bar that reaches the limit. -/
theorem limitTouch_mem (hlow : bar.low ≤ bar.open) (hhigh : bar.open ≤ bar.high)
    (h : limitTouch o.side o.price bar = some raw) : bar.low ≤ raw ∧ raw ≤ bar.high := by
  obtain ⟨rfl, htouch⟩ := limitTouch_spec h
  unfold atLimit
  cases hs : o.side <;> rw [hs] at htouch <;> dsimp only at htouch ⊢
  · exact ⟨le_min htouch hlow, (min_le_right _ _).trans hhigh⟩
  · exact ⟨hlow.trans (le_max_right _ _), max_le htouch hhigh⟩

/-- At the stop or at an open beyond it: in a bar that reaches the stop. -/
theorem stopTouch_mem {side : OrderSide} {s : ℚ} (hlow : bar.low ≤ bar.open) (hhigh : bar.open ≤ bar.high)
    (h : stopTouch side s bar = some raw) : bar.low ≤ raw ∧ raw ≤ bar.high := by
  unfold stopTouch at h
  cases side <;> dsimp only at h <;> split_ifs at h with htouch <;> cases h
  · rw [Arith.max_rat]
    exact ⟨hlow.trans (le_max_right _ _), max_le htouch hhigh⟩
  · rw [Arith.min_rat]
    exact ⟨le_min htouch hlow, (min_le_right _ _).trans hhigh⟩

theorem rawMatch_mem (hlow : bar.low ≤ bar.open) (hhigh : bar.open ≤ bar.high)
    (h : o.rawMatch bar = .fill raw) : bar.low ≤ raw ∧ raw ≤ bar.high := by
  by_cases hlimit : o.type.appliesLimitSlippage = true
  · exact limitTouch_mem hlow hhigh (rawMatch_limit hlimit h)
  unfold rawMatch at h
  cases ht : o.type with
  | Market =>
    rw [ht] at h
    cases h
    exact ⟨hlow, hhigh⟩
  | Stop =>
    rw [ht] at h
    cases hs : o.stopPrice with
    | none => rw [hs] at h; cases h
    | some s =>
      rw [hs] at h
      exact stopTouch_mem hlow hhigh (ofOption_eq_fill.1 h)
  | StopTrail =>
    rw [ht] at h
    dsimp only at h
    split_ifs at h
    exact stopTouch_mem hlow hhigh (ofOption_eq_fill.1 h)
  | Limit => rw [ht] at hlimit; exact absurd rfl hlimit
  | StopLimit => rw [ht] at hlimit; exact absurd rfl hlimit
  | StopTrailLimit => rw [ht] at hlimit; exact absurd rfl hlimit

theorem plainLimit_iff : (∃ p, o.plainLimit.rawMatch bar = .fill p) ↔ o.ReachesLimit bar := by
  rw [← limitTouch_eq_some]
  exact exists_congr fun p => ofOption_eq_fill

theorem rawMatch_iff_triggered : (∃ p, o.rawMatch bar = .fill p) ↔ o.Triggered bar := by
  unfold Triggered
  cases ht : o.type with
  | Market => simp [rawMatch, ht]
  | Limit =>
    rw [← limitTouch_eq_some]
    simp only [rawMatch, ht, ofOption_eq_fill]
  | Stop =>
    unfold rawMatch Touches stopLevel
    rw [ht]
    dsimp only
    cases o.stopPrice with
    | none => simp
    | some s => simp [ofOption_eq_fill, stopTouch_eq_some]
  | StopTrail =>
    unfold rawMatch Touches stopLevel
    rw [ht]
    dsimp only
    split_ifs
    · simp
    · simp [ofOption_eq_fill, stopTouch_eq_some]
  | StopLimit =>
    simp only [rawMatch_stopLimit (.inl ht), exists_and_left, plainLimit_iff]
  | StopTrailLimit =>
    simp only [rawMatch_stopLimit (.inr ht), exists_and_left, plainLimit_iff]

end Order

namespace BrokerSettings
variable {b : BrokerSettings ℚ} {o : Order ℚ} {bar : Row ℚ} {p : ℚ}

/-- A match is the price before slippage, or that price slipped. -/
theorem matchOrder_cases (h : b.matchOrder o bar = .fill p) :
    ∃ raw, o.rawMatch bar = .fill raw ∧ (p = raw ∨ b.applySlippage raw o.side bar = some p) := by
  unfold matchOrder at h
  cases hraw : o.rawMatch bar with
  | none => rw [hraw] at h; cases h
  | noStopPrice => rw [hraw] at h; cases h
  | fill raw =>
    rw [hraw] at h
    dsimp only at h
    split_ifs at h
    · exact ⟨raw, rfl, .inr (Order.ofOption_eq_fill.1 h)⟩
    · cases h
      exact ⟨_, rfl, .inl rfl⟩

theorem matchOrder_mem (hout : b.slipOut = false) (hlow : bar.low ≤ bar.open) (hhigh : bar.open ≤ bar.high)
    (h : b.matchOrder o bar = .fill p) : bar.low ≤ p ∧ p ≤ bar.high := by
  obtain ⟨raw, hraw, heq | hslip⟩ := matchOrder_cases h
  · rw [heq]
    exact Order.rawMatch_mem hlow hhigh hraw
  · rcases applySlippage_cases hslip (hlow.trans hhigh) with ⟨hon, -⟩ | ⟨-, rfl⟩
    · rw [hout] at hon; cases hon
    · exact ⟨le_max_left _ _, max_le (hlow.trans hhigh) (min_le_left _ _)⟩

/-- Slippage that may match at the end of the bar does not refuse. -/
theorem applySlippage_returns (hmatch : b.slipMatch = true) (raw : ℚ) (side : OrderSide) (bar : Row ℚ) :
    ∃ p, b.applySlippage raw side bar = some p := by
  rw [← Option.isSome_iff_exists]
  unfold applySlippage
  simp only [hmatch, Bool.not_true, Bool.false_eq_true, if_false]
  split_ifs <;> rfl

theorem matchOrder_iff_triggered (hmatch : b.slipMatch = true) :
    (∃ p, b.matchOrder o bar = .fill p) ↔ o.Triggered bar := by
  rw [← Order.rawMatch_iff_triggered]
  constructor
  · rintro ⟨p, hp⟩
    obtain ⟨raw, hraw, -⟩ := matchOrder_cases hp
    exact ⟨raw, hraw⟩
  · rintro ⟨raw, hraw⟩
    obtain ⟨p, hp⟩ := applySlippage_returns hmatch raw o.side bar
    unfold matchOrder
    rw [hraw]
    dsimp only
    split_ifs
    · exact ⟨p, Order.ofOption_eq_fill.2 hp⟩
    · exact ⟨raw, rfl⟩

end BrokerSettings

namespace BackBroker
variable {W : Type} {b : BackBroker ℚ W} {i : Nat} {o : Order ℚ}

/-- An order that is matched at a price it cannot pay is left refused for margin. -/
theorem tryFillOrder_margin (h : Hooks ℚ W) (feed : DataFeed ℚ) {bar : Row ℚ} (ho : b.pendingOrders[i]? = some o)
    (halive : o.isAlive = true) {p : ℚ} (hp : b.matchOrder o bar = .fill p)
    (hafford : b.affords o p bar.datetime = false) :
    ((b.tryFillOrder h feed bar i).2.pendingOrders[i]?).map Order.status = some .Margin := by
  have htry : (b.tryFillOrder h feed bar i).2 = (b.edit i Order.margin).sync i := by
    unfold tryFillOrder
    rw [ho]
    dsimp only
    rw [hp]
    dsimp only
    rw [hafford, if_neg Bool.false_ne_true]
  have hget : (b.edit i Order.margin).pendingOrders[i]? = some o.margin := by
    show (b.pendingOrders.modify i Order.margin)[i]? = _
    rw [List.getElem?_modify_eq, ho]
    rfl
  rw [htry, sync, hget]
  show ((b.edit i Order.margin).pendingOrders[i]?).map Order.status = some .Margin
  rw [hget]
  exact congrArg some (Order.status_setStatus halive _)

/-- With slippage that stays in the bar every fill lies in the bar; with slippage that may match at
the end of the bar, an order that is not refused for margin is completed exactly when the bar meets the
trigger condition of its type. -/
theorem fill_in_bar_iff_triggered (L : Listener ℚ W) (fuel : Nat) (feed : DataFeed ℚ) {bar : Row ℚ}
    (hlow : bar.low ≤ bar.open) (hhigh : bar.open ≤ bar.high) (ho : b.pendingOrders[i]? = some o)
    (halive : o.isAlive = true) :
    (b.slipOut = false → ∀ x, (b.tryFillOrder (L.hooks fuel) feed bar i).2.executions = b.executions ++ [x] →
      x.order.status = .Completed ∧ bar.low ≤ x.order.executedPrice ∧ x.order.executedPrice ≤ bar.high) ∧
    (b.slipMatch = true →
      ((b.tryFillOrder (L.hooks fuel) feed bar i).2.pendingOrders[i]?).map Order.status ≠ some .Margin →
      ((∃ x, (b.tryFillOrder (L.hooks fuel) feed bar i).2.executions = b.executions ++ [x]) ↔ o.Triggered bar)) := by
  refine ⟨fun hout x hfill => ?_, fun hmatch hmargin => ?_⟩
  · obtain ⟨p, hp, -, rfl⟩ := (tryFillOrder_fill (tame_hooks L fuel) feed bar ho x).1 hfill
    refine ⟨?_, ?_⟩
    · show (o.execute _ _ _).status = _
      rw [Order.execute, if_pos halive]
    · rw [executedPrice_fillOf feed halive]
      exact BrokerSettings.matchOrder_mem hout hlow hhigh hp
  · rw [← BrokerSettings.matchOrder_iff_triggered hmatch]
    simp only [tryFillOrder_fill (tame_hooks L fuel) feed bar ho]
    constructor
    · rintro ⟨-, p, hp, -⟩
      exact ⟨p, hp⟩
    · rintro ⟨p, hp⟩
      refine ⟨_, p, hp, ?_, rfl⟩
      by_contra hafford
      exact hmargin (tryFillOrder_margin _ feed ho halive hp (by simpa using hafford))

/-- From an open above the limit the slipped price is 101, which the bar has. -/
theorem fill_in_bar_iff_triggered_slippery :
    let bar : Row ℚ := ⟨0, 101, 105, 99, 100, 0, 0⟩
    let after := (slippery.tryFillOrder (Listener.silent.hooks 0) (.ofBar 101 105 99 100) bar 0).2
    slippery.slipOut = false ∧ slippery.slipMatch = true ∧
    after.pendingOrders.map Order.status = [.Completed] ∧ ∃ o, slippery.pendingOrders[0]? = some o ∧
      (slippery.slipOut = false → ∀ x, after.executions = slippery.executions ++ [x] →
        x.order.status = .Completed ∧ bar.low ≤ x.order.executedPrice ∧ x.order.executedPrice ≤ bar.high) ∧
      (slippery.slipMatch = true → (after.pendingOrders[0]?).map Order.status ≠ some .Margin →
        ((∃ x, after.executions = slippery.executions ++ [x]) ↔ o.Triggered bar)) := by
  intro bar after
  obtain ⟨o, ho⟩ := List.length_eq_one_iff.1 (show slippery.pendingOrders.length = 1 by decide +kernel)
  have halive : ∀ o ∈ slippery.pendingOrders, o.isAlive = true := by decide +kernel
  have hget : slippery.pendingOrders[0]? = some o := by rw [ho]; rfl
  exact ⟨rfl, rfl, by decide +kernel, o, hget, fill_in_bar_iff_triggered Listener.silent 0 _ (by decide)
    (by decide) hget (halive o (by rw [ho]; exact List.mem_singleton_self o))⟩

end BackBroker

end StratForge
