import StratForge.EngineCalls

/-!
# What the kill switch stops

The switch is asked for in one place only, the rate limiter, and only when there is a limit. So an order
that comes to the wrapper after the switch is on is held back if and only if `max_orders_per_second` is set
and no position is being flattened.
-/

namespace StratForge

open LiveEngine in
/-- After the switch no order reaches the connector but those of `flatten_positions`, if and only if every
other order that has come to the wrapper since then has met a limit and `flattening_` down. -/
theorem kill_switch_final_iff {α W : Type} [Arith α] (L : EngineListener α W) (fuel : Nat) {e₀ : LiveEngine α W}
    (hstart : e₀.Unstarted) (cs : List (EngineCmd α)) :
    (∀ f ∈ (run (L.env fuel) e₀ cs).engine.offers, f.killed = true → f.passed = true → f.own.isSome = true) ↔
    ∀ f ∈ (run (L.env fuel) e₀ cs).engine.offers, f.killed = true → f.own = none →
      e₀.engine.limits.maxOrdersPerSecond.isSome = true ∧ f.flattening = false := by
  obtain ⟨fs, hfs, hadm, -⟩ := (run_goes (L.tame fuel) cs e₀).offers
  have hpassed : ∀ f ∈ (run (L.env fuel) e₀ cs).engine.offers, f.killed = true →
      (f.passed = false ↔ e₀.engine.limits.maxOrdersPerSecond.isSome = true ∧ f.flattening = false) := by
    intro f hf hk
    rw [hfs, hstart.offers, List.nil_append] at hf
    rw [hadm f hf, LiveRiskLimits.admits, hk]
    cases e₀.engine.limits.maxOrdersPerSecond <;> simp
  refine forall₂_congr fun f hf => forall_congr' fun hk => ?_
  rw [← hpassed f hf hk, Option.isSome_iff_ne_none, Bool.eq_false_iff]
  tauto

/-- With a limit, the order that follows a lost connection is held back. -/
theorem kill_switch_final_iff_disconnected :
    let e := LiveEngine.run (EngineListener.silent.env 1) (.funded (.rate (some 5)))
      [.subscribe "PRIMARY", .start, .connectorState .Disconnected, .broker (.buy 1 0 none .Market 0)]
    e.engine.offers.map (·.killed) = [true] ∧
    ∀ f ∈ e.engine.offers, f.killed = true → f.passed = true → f.own.isSome = true :=
  ⟨by decide +kernel, (kill_switch_final_iff .silent 1 (LiveEngine.unstarted_funded _) _).2 (by decide +kernel)⟩

/-- Without one it goes out: the switch is on, and the strategy buys. -/
theorem killed_engine_buys :
    ¬ ∀ f ∈ (LiveEngine.run (EngineListener.silent.env 1) (.funded (.rate none))
      [.subscribe "PRIMARY", .start, .connectorState .Disconnected, .broker (.buy 1 0 none .Market 0)]).engine.offers,
      f.killed = true → f.passed = true → f.own.isSome = true := by decide +kernel

end StratForge
