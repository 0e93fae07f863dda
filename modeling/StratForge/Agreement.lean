import StratForge.EngineCalls

/-!
# Broker and connector

Every order that the broker records in live mode goes to the wrapper once, unless a bracket has put it in
the vectors. The wrapper may drop it, and then the record stays as it is: alive.
-/

namespace StratForge

namespace LiveEngine
variable {α W : Type} [Arith α]

/-- An order that is alive has gone to the connector once, and one that was dropped is not alive. -/
def Agrees (e : LiveEngine α W) : Prop :=
  (∀ o ∈ e.allOrders, o.isAlive = true → e.engine.offers.countP (fun f => f.passed && f.order.id == o.id) = 1) ∧
  ∀ f ∈ e.engine.offers, f.passed = false → ∀ o ∈ e.allOrders, o.id = f.order.id → o.isAlive = false

variable {hook : EngineHook α W} {e₀ e : LiveEngine α W}

/-- From the start, the orders offered are the orders recorded, if there is no bracket. -/
theorem Goes.offered (h : Goes hook [] e₀ e) (hstart : e₀.Unstarted)
    (hbr : ∀ n, LiveNote.bracket n ∈ e.world.events → n = 0) :
    (e.engine.offers.map (·.order.id)).Perm (e.allOrders.map Order.id) ∧ (e.allOrders.map Order.id).Nodup := by
  obtain ⟨fs, hfs, -, hperm⟩ := h.offers
  rw [hfs, h.ids, hstart.offers, hstart.allOrders]
  exact ⟨hperm hbr, List.nodup_range'⟩

theorem Goes.agrees (h : Goes hook [] e₀ e) (hstart : e₀.Unstarted)
    (hbr : ∀ n, LiveNote.bracket n ∈ e.world.events → n = 0)
    (hadm : ∀ f ∈ e.engine.offers, e₀.engine.limits.admits f.killed f.flattening f.recent = true) : Agrees e := by
  obtain ⟨hperm, hnodup⟩ := h.offered hstart hbr
  have hpassed : ∀ f ∈ e.engine.offers, f.passed = true := by
    intro f hf
    obtain ⟨fs, hfs, hlaw, -⟩ := h.offers
    rw [← hadm f hf]
    rw [hfs, hstart.offers, List.nil_append] at hf
    exact hlaw f hf
  refine ⟨fun o ho _ => ?_, fun f hf hdrop => ?_⟩
  · have hcount : (e.engine.offers.map (·.order.id)).count o.id = 1 := by
      rw [hperm.count_eq]
      exact List.count_eq_one_of_mem hnodup (List.mem_map_of_mem ho)
    rw [List.count, List.countP_map] at hcount
    rw [← hcount]
    refine List.countP_congr fun f hf => ?_
    simp [hpassed f hf]
  · rw [hpassed f hf] at hdrop
    cases hdrop

end LiveEngine

open LiveEngine in
/-- In a run in which no bracket call puts an order in the vectors and the limiter lets every order through
that it is asked about, broker and connector agree after every call. -/
theorem broker_connector_agree {α W : Type} [Arith α] (L : EngineListener α W) (fuel : Nat) {e₀ : LiveEngine α W}
    (hstart : e₀.Unstarted) (cs : List (EngineCmd α))
    (hbr : ∀ n, LiveNote.bracket n ∈ (run (L.env fuel) e₀ cs).world.events → n = 0)
    (hadm : ∀ f ∈ (run (L.env fuel) e₀ cs).engine.offers,
      e₀.engine.limits.admits f.killed f.flattening f.recent = true) :
    ∀ cs', cs' <+: cs → Agrees (run (L.env fuel) e₀ cs') := by
  rintro cs' ⟨rest, rfl⟩
  have hrest : Goes L.preOrderHook [] (run (L.env fuel) e₀ cs') (run (L.env fuel) e₀ (cs' ++ rest)) := by
    rw [run_append]
    exact run_goes (L.tame fuel) rest _
  obtain ⟨fs, hfs, -⟩ := hrest.offers
  exact (run_goes (L.tame fuel) cs' e₀).agrees hstart (fun n hn => hbr n (hrest.prefix_events.mem hn))
    fun f hf => hadm f (hfs ▸ List.mem_append_left _ hf)

/-- A buy and a sell within the limit. -/
theorem broker_connector_agree_twoOrders :
    LiveEngine.Agrees (LiveEngine.run (EngineListener.silent.env 1) (.funded (.rate (some 5)))
      [.subscribe "PRIMARY", .start, .broker (.buy 1 0 none .Market 0), .broker (.sell 2 0 none .Market 0)]) :=
  broker_connector_agree .silent 1 (LiveEngine.unstarted_funded _) _
    (fun n hn => absurd hn (by
      have h : (LiveEngine.run (EngineListener.silent.env 1) (.funded (.rate (some 5))) [.subscribe "PRIMARY", .start,
        .broker (.buy 1 0 none .Market 0), .broker (.sell 2 0 none .Market 0)]).world.events = [] := by decide +kernel
      rw [h]; exact List.not_mem_nil)) (by decide +kernel) _ List.prefix_rfl

/-- A bracket is recorded and never goes to the connector; the order beyond the limit is accepted and dropped. -/
theorem bracket_is_not_passed :
    ¬ LiveEngine.Agrees (LiveEngine.run (EngineListener.silent.env 1) (.funded (.rate none))
      [.subscribe "PRIMARY", .start, .broker (.buyBracket 1 110 90 0)]) ∧
    ¬ LiveEngine.Agrees (LiveEngine.run (EngineListener.silent.env 1) (.funded (.rate (some 0)))
      [.subscribe "PRIMARY", .start, .broker (.buy 1 0 none .Market 0)]) := by
  unfold LiveEngine.Agrees
  decide +kernel

end StratForge
