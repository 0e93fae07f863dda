import StratForge.EngineStays
import StratForge.Schedule

/-!
# Where a portfolio has a value

`portfolio_value` reads the close under the cursor of the feed of every position that is not flat, and must not
throw. It has a value when none of these feeds is empty (`portfolioValue_returns_iff`). A Cerebro run keeps its
feeds; in a live engine a feed is empty from its subscription to its first tick, and fills can come before that.
-/

namespace StratForge

variable {α W : Type} [Arith α]

namespace BackBroker

/-- No position that is not flat belongs to a feed without bars. -/
def Marked (b : BackBroker α W) (feeds : List (DataFeed α)) : Prop :=
  ∀ p ∈ b.positions, p.isFlat = false → ∀ f, feeds[p.dataIndex]? = some f → f.lines.data ≠ []

omit [Arith α] in
theorem close_returns_iff {f : DataFeed α} : (∃ px, f.close.at' 0 = .ok px) ↔ f.lines.data ≠ [] := by
  have hnil : f.close.current? = none ↔ f.lines.data = [] := Line.current?_eq_none.trans List.map_eq_nil_iff
  rw [Line.at'_zero, ne_eq, ← hnil]
  cases f.close.current? with
  | none => exact ⟨fun ⟨_, h⟩ => (nomatch h), fun h => absurd rfl h⟩
  | some px => exact ⟨fun _ h => (nomatch h), fun _ => ⟨px, rfl⟩⟩

theorem portfolioValue_returns_iff {b : BackBroker α W} {feeds : List (DataFeed α)} :
    (∃ v, b.portfolioValue feeds = .ok v) ↔ b.Marked feeds := by
  refine Fold.foldlM_returns_iff (fun value p => ?_) _
  cases hflat : p.isFlat with
  | true => exact ⟨fun _ h => (nomatch h), fun _ => ⟨value, rfl⟩⟩
  | false =>
    cases hf : feeds[p.dataIndex]? with
    | none => exact ⟨fun _ _ f h => (nomatch h), fun _ => ⟨value, rfl⟩⟩
    | some f =>
      rw [if_neg Bool.false_ne_true]
      dsimp only
      constructor
      · rintro ⟨v, hv⟩ - f' hf'
        cases hf'
        obtain ⟨px, hpx, -⟩ := bind_eq_ok.1 hv
        exact close_returns_iff.1 ⟨px, hpx⟩
      · intro h
        obtain ⟨px, hpx⟩ := close_returns_iff.2 (h rfl f rfl)
        rw [hpx]
        cases p.instrument <;> exact ⟨_, rfl⟩

theorem mem_updatePosition {b : BackBroker α W} {k : Nat} {s px : α} {p : Position α}
    (h : p ∈ (b.updatePosition k s px).positions) :
    p ∈ b.positions ∨ ∃ q ∈ b.positions, q.dataIndex = k ∧ p = q.update s px := by
  rcases Fold.mem_modify h with h | ⟨q, hq, rfl⟩
  · exact .inl h
  · obtain ⟨hlt, rfl⟩ := List.getElem?_eq_some_iff.1 hq
    exact .inr ⟨_, List.getElem_mem hlt, by simpa using List.findIdx_getElem (w := hlt), rfl⟩

theorem marked_of_nonempty {feeds : List (DataFeed α)} (h : ∀ f ∈ feeds, f.lines.data ≠ []) (b : BackBroker α W) :
    b.Marked feeds := fun _ _ _ f hf => h f (List.mem_of_getElem? hf)

end BackBroker

/-! ### In a Cerebro run -/

namespace Clock

omit [Arith α] in
/-- The feeds keep their bars. -/
theorem Along.mem_feeds {feeds : DataFeed α × List (DataFeed α)} {t : Nat} {c : Clock α} (h : c.Along feeds t)
    {f : DataFeed α} (hf : f ∈ c.feeds) : ∃ f' ∈ feeds.1 :: feeds.2, f.lines.data = f'.lines.data := by
  obtain ⟨s, hs, rfl⟩ := List.mem_map.1 hf
  rcases List.mem_cons.1 hs with rfl | hs
  · exact ⟨feeds.1, List.mem_cons_self .., h.data⟩
  · obtain ⟨f', hf', hholds⟩ := Fold.forall₂_mem h.context hs
    exact ⟨f', List.mem_cons_of_mem _ hf', hholds.data⟩

end Clock

namespace Cerebro
variable (c : Cerebro α W) {feeds : DataFeed α × List (DataFeed α)} {b : BackBroker α W} {e : CerebroState α W} {n : Nat}

theorem along_gated (h : c.gated feeds b n = .ok e) (hn : n < feeds.1.size) : e.clock.Along feeds n := by
  obtain ⟨e₀, h₀, h⟩ := bind_eq_ok.1 h
  exact (c.along_upTo hn h₀).tick (clock_gate h)

/-- After the last bar the master stays on it. -/
theorem along_run (h : c.upTo feeds b n = .ok e) (hn : n ≤ feeds.1.size) (hne : feeds.1.size ≠ 0) :
    ∃ t, e.clock.Along feeds t := by
  rcases hn.lt_or_eq with hn | rfl
  · exact ⟨n, c.along_upTo hn h⟩
  · obtain ⟨t, ht⟩ := Nat.exists_eq_succ_of_ne_zero hne
    rw [ht] at h
    obtain ⟨e₀, h₀, h⟩ := bind_eq_ok.1 h
    obtain ⟨e₁, h₁, h⟩ := c.bar_ok h
    have hal := (c.along_upTo (by omega) h₀).tick (clock_gate h₁)
    refine ⟨t, ?_⟩
    rw [h, if_neg]
    · exact hal
    · rw [DataFeed.size_eq, hal.data, ← DataFeed.size_eq, ht]
      omega

end Cerebro

/-! ### In a live engine -/

namespace LiveEngine

/-- Every position has a bar to be valued at. -/
def Quoted (e : LiveEngine α W) : Prop := e.Marked (e.engine.feeds.map Prod.snd)

/-- A call that leaves no position without a bar: it reports no fill of an order whose feed has none yet, and
it adds no feed that something is held of. -/
structure Tradable (c : EngineCmd α) (e : LiveEngine α W) : Prop where
  fill : ∀ t o, c = .fill t → e.findOrder t.id = some o → ∀ f, (e.engine.feeds.map Prod.snd)[o.dataIndex]? = some f →
    f.lines.data ≠ []
  feed : ∀ symbol, (c = .subscribe symbol ∨ ∃ s : MarketDataSnapshot α, c = .marketData s ∧ s.symbol = symbol) →
    e.engine.feeds.any (·.1 == symbol) = false → ∀ p ∈ e.positions, p.dataIndex = e.engine.feeds.length → p.isFlat = true

variable {e e' : LiveEngine α W} {c : EngineCmd α}

theorem Tradable.captured (h : Tradable c e) (w : W) : Tradable c (modify ({ · with captured := w }) e) :=
  ⟨h.fill, h.feed⟩

/-- Where every feed has bars and nothing is held of a feed to come, every call is one. -/
theorem tradable_of_nonempty (hf : ∀ f ∈ e.engine.feeds, f.2.lines.data ≠ [])
    (hp : ∀ p ∈ e.positions, p.dataIndex ≠ e.engine.feeds.length) : Tradable c e where
  fill _ _ _ _ f h := by
    obtain ⟨x, hx, rfl⟩ := List.mem_map.1 (List.mem_of_getElem? h)
    exact hf x hx
  feed _ _ _ p hmem h := absurd h (hp p hmem)

theorem Quoted.frame (hzero : Arith.abs (0 : α) < 1e-10) (h : e.Quoted) (hm : Unmoved e e') : e'.Quoted := by
  intro p hp hflat f hf
  rw [hm.feeds] at hf
  rcases hm.positions p hp with hp | hsize
  · exact h p hp hflat f hf
  · unfold Position.isFlat at hflat
    rw [hsize, decide_eq_true hzero] at hflat
    cases hflat

theorem Quoted.moved (hzero : Arith.abs (0 : α) < 1e-10) (h : e.Quoted) {o : Order α} (t : Trade α)
    (ho : ∀ f, (e.engine.feeds.map Prod.snd)[o.dataIndex]? = some f → f.lines.data ≠ []) : (moved o t e).Quoted := by
  intro p hp hflat f hf
  rcases BackBroker.mem_updatePosition hp with hp | ⟨q, -, hkey, rfl⟩
  · exact h.frame hzero (.ensurePosition e o.dataIndex) p hp hflat f hf
  · rw [Position.dataIndex_update, hkey] at hf
    exact ho f hf

theorem Quoted.addFeed (h : e.Quoted) (symbol : String)
    (hnew : ∀ p ∈ e.positions, p.dataIndex = e.engine.feeds.length → p.isFlat = true) : (addFeed symbol e).Quoted := by
  intro p hp hflat f hf
  have hf' : (e.engine.feeds.map Prod.snd ++ [({} : DataFeed α)])[p.dataIndex]? = some f := by
    rw [← hf]
    refine congrArg (·[p.dataIndex]?) ?_
    show _ ++ List.map Prod.snd [(symbol, ({} : DataFeed α))] = _
    exact List.map_append.symm
  rcases Nat.lt_trichotomy p.dataIndex e.engine.feeds.length with hlt | heq | hgt
  · rw [List.getElem?_append_left (by rw [List.length_map]; exact hlt)] at hf'
    exact h p hp hflat f hf'
  · rw [hnew p hp heq] at hflat
    cases hflat
  · rw [List.getElem?_eq_none (by simp; omega)] at hf'
    cases hf'

theorem Quoted.pushBar (h : e.Quoted) (i : Nat) (s : MarketDataSnapshot α) : (pushBar i s e).Quoted := by
  intro p hp hflat f hf
  obtain ⟨⟨n, f'⟩, hn, rfl⟩ := Option.map_eq_some_iff.1 ((List.getElem?_map ..).symm.trans hf)
  have hmod : (e.engine.feeds.modify i fun x => (x.1, x.2.pushSnapshot s))[p.dataIndex]? = some (n, f') := hn
  rw [List.getElem?_modify] at hmod
  split_ifs at hmod with hi
  · obtain ⟨⟨n₀, f₀⟩, -, heq⟩ := Option.map_eq_some_iff.1 hmod
    cases heq
    exact List.append_ne_nil_of_right_ne_nil _ (List.cons_ne_nil _ _)
  · refine h p hp hflat f' ?_
    rw [List.getElem?_map]
    exact congrArg (Option.map Prod.snd) (by simpa using hmod)

theorem run_concat (env : Env α W) (e : LiveEngine α W) (cs : List (EngineCmd α)) (c : EngineCmd α) :
    run env e (cs ++ [c]) = exec env c (run env e cs) := run_append env e cs [c]

/-- In a state where everything has a value nothing aborts, and the surroundings have kept their word. -/
structure Safe (Q : W → Prop) (e : LiveEngine α W) : Prop where
  quoted : e.Quoted
  running : e.engine.aborted = false
  word : Q e.engine.captured

theorem Safe.books {Q : W → Prop} (h : Safe Q e) (hp : e'.positions = e.positions) (hw : e'.world = e.world) : Safe Q e' := by
  refine ⟨fun p hmem hflat f hf => ?_, ?_, ?_⟩
  · refine h.quoted p (hp ▸ hmem) hflat f ?_
    rwa [engine, hw] at hf
  · rw [engine, hw]
    exact h.running
  · rw [engine, hw]
    exact h.word

theorem Safe.asks (hzero : Arith.abs (0 : α) < 1e-10) {Q : W → Prop} {env : Env α W} (hS : EngineStays env (Safe Q))
    (h : Safe Q e) (hc : Tradable c e) : EngineStays.Asks env (Safe Q) c e where
  fill t o heq _ _ hf _ := hS.of_moved (fun h hp hw => h.books hp hw) o t
    ⟨h.quoted.moved hzero t (hc.fill t o heq hf), h.running, h.word⟩
  feed symbol heq hnew := ⟨h.quoted.addFeed symbol (hc.feed symbol heq hnew), h.running, h.word⟩

theorem Safe.value {Q : W → Prop} (h : Safe Q e) : ∃ v, e.portfolioValue (e.engine.feeds.map Prod.snd) = .ok v :=
  BackBroker.portfolioValue_returns_iff.2 h.quoted

theorem Safe.captured {Q : W → Prop} (h : Safe Q e) {w : W} (hw : Q w) :
    Safe Q (modify ({ · with captured := w }) e) := ⟨h.quoted, h.running, hw⟩

theorem Safe.exec (hzero : Arith.abs (0 : α) < 1e-10) {Q : W → Prop} {env : Env α W} (hS : EngineStays env (Safe Q))
    (h : Safe Q e) (hc : Tradable c e) : Safe Q (exec env c e) :=
  hS.exec (fun h hv => absurd (h.value) fun ⟨v, h⟩ => by rw [hv] at h; cases h) (fun i s _ h => ⟨h.quoted.pushBar i s, h.running, h.word⟩) c (h.asks hzero hS hc) h

end LiveEngine

open LiveEngine

/-- Strategy, connector and callbacks, called where everything has a value, keep `Q` and make no call that leaves
something without one. -/
structure EngineListener.Disciplined (L : EngineListener α W) (Q : W → Prop) : Prop where
  act : ∀ ev e, Safe Q e → Q (L.act ev e).1
  calls : ∀ ev e c, Safe Q e → (L.act ev e).2 = some c → Tradable c e
  hook : ∀ side size k e, Safe Q e → Q (L.preOrderHook side size k e).2

namespace EngineListener
variable {L : EngineListener α W} {Q : W → Prop}

/-- By induction on the bound on the callbacks. -/
theorem Disciplined.react (hzero : Arith.abs (0 : α) < 1e-10) (hL : L.Disciplined Q) :
    ∀ n ev {e}, Safe Q e → Safe Q (L.react n ev e)
  | 0, _, _, he => he
  | n + 1, ev, e, he => by
    have hS : EngineStays (L.envOf (L.react n)) (Safe Q) :=
      ⟨fun hm h => ⟨h.quoted.frame hzero hm, hm.aborted.trans h.running, hm.captured ▸ h.word⟩,
        fun ev _ h => react hzero hL n ev h, fun side size k _ h => h.captured (hL.hook side size k _ h)⟩
    have hact := hL.act ev e he
    have hcalls := hL.calls ev e
    unfold EngineListener.react
    rcases hr : L.act ev e with ⟨captured, _ | c⟩ <;> rw [hr] at hact hcalls
    · exact he.captured hact
    · exact react hzero hL n ev ((he.captured hact).exec hzero hS ((hcalls c he rfl).captured _))

theorem Disciplined.stays (hzero : Arith.abs (0 : α) < 1e-10) (hL : L.Disciplined Q) (fuel : Nat) :
    EngineStays (L.env fuel) (Safe Q) :=
  ⟨fun hm h => ⟨h.quoted.frame hzero hm, hm.aborted.trans h.running, hm.captured ▸ h.word⟩,
    fun ev _ h => hL.react hzero fuel ev h, fun side size k _ h => h.captured (hL.hook side size k _ h)⟩

end EngineListener

theorem LiveEngine.Unstarted.safe {e : LiveEngine α W} (h : e.Unstarted) {Q : W → Prop} (hQ : Q e.engine.captured) :
    Safe Q e :=
  ⟨fun p hp => absurd (h.positions ▸ hp : p ∈ []) List.not_mem_nil, h.aborted, hQ⟩

/-- The portfolio has a value in every state of a live run, at every call-out included (`Q` is what the surroundings
make of it), as long as no call leaves a position on a feed without bars; and in every Cerebro run over feeds that are not
empty, whatever the broker holds. -/
theorem portfolio_has_value (hzero : Arith.abs (0 : α) < 1e-10) :
    (∀ (L : EngineListener α W) (Q : W → Prop) (fuel : Nat) (e₀ : LiveEngine α W) (cs : List (EngineCmd α)),
      L.Disciplined Q → e₀.Unstarted → Q e₀.engine.captured →
      (∀ i c, cs[i]? = some c → Tradable c (run (L.env fuel) e₀ (cs.take i))) →
      let e := run (L.env fuel) e₀ cs
      (∃ v, e.portfolioValue (e.engine.feeds.map Prod.snd) = .ok v) ∧ e.engine.aborted = false ∧ Q e.engine.captured) ∧
    ∀ (c : Cerebro α W) (feeds : DataFeed α × List (DataFeed α)) (b : BackBroker α W),
      (∀ f ∈ feeds.1 :: feeds.2, f.size ≠ 0) → ∀ clock,
      (clock = Clock.start feeds ∨ ∃ n e, e.clock = clock ∧
        (c.upTo feeds b n = .ok e ∧ n ≤ feeds.1.size ∨ c.gated feeds b n = .ok e ∧ n < feeds.1.size)) →
      ∀ b' : BackBroker α W, ∃ v, b'.portfolioValue clock.feeds = .ok v := by
  refine ⟨fun L Q fuel e₀ cs hL hstart hQ hcs => ?_, fun c feeds b hne clock h b' => ?_⟩
  · have hsafe : Safe Q (LiveEngine.run (L.env fuel) e₀ cs) := by
      induction cs using List.reverseRecOn with
      | nil => exact LiveEngine.Unstarted.safe hstart hQ
      | append_singleton cs c ih =>
        have hprev := ih fun i c' hi => by
          have hlt := (List.getElem?_eq_some_iff.1 hi).1
          have := hcs i c' (by rw [List.getElem?_append_left hlt]; exact hi)
          rwa [List.take_append_of_le_length hlt.le] at this
        have hlast := hcs cs.length c (by rw [List.getElem?_append_right (le_refl _), Nat.sub_self]; rfl)
        rw [List.take_left] at hlast
        rw [run_concat]
        exact hprev.exec hzero (hL.stays hzero fuel) hlast
    exact ⟨hsafe.value, hsafe.running, hsafe.word⟩
  · have hal : ∃ t, clock.Along feeds t := by
      rcases h with rfl | ⟨n, e, rfl, ⟨h, hn⟩ | ⟨h, hn⟩⟩
      · exact ⟨0, Clock.along_start feeds⟩
      · exact c.along_run h hn (hne _ (List.mem_cons_self ..))
      · exact ⟨n, c.along_gated h hn⟩
    obtain ⟨t, hal⟩ := hal
    refine BackBroker.portfolioValue_returns_iff.2 (BackBroker.marked_of_nonempty (fun f hf => ?_) b')
    obtain ⟨f', hf', hdata⟩ := hal.mem_feeds hf
    rw [hdata]
    intro hnil
    exact hne f' hf' (by rw [DataFeed.size_eq, hnil]; rfl)

/-- A symbol with a tick, an order and its fill; and a run over one bar. -/
theorem portfolio_has_value_ticked :
    let cs : List (EngineCmd ℚ) := [.subscribe "PRIMARY", .start, .marketData ⟨"PRIMARY", 100, 1, 0⟩,
      .broker (.buy 1 0 none .Market 0), .fill (.ofFill 1 1 100 0)]
    let e := LiveEngine.run (EngineListener.silent.env 1) (.funded (.rate none)) cs
    let feeds : DataFeed ℚ × List (DataFeed ℚ) := (.timed {} [0], [])
    ((∃ v, e.portfolioValue (e.engine.feeds.map Prod.snd) = .ok v) ∧ e.engine.aborted = false ∧ True) ∧
    ∃ v, BackBroker.funded.portfolioValue (Clock.start feeds).feeds = .ok v := by
  have hdisc : EngineListener.silent.Disciplined (α := ℚ) fun _ => True :=
    ⟨fun _ _ _ => trivial, fun _ _ _ _ h => (nomatch h), fun _ _ _ _ _ => trivial⟩
  have hvalue := @portfolio_has_value ℚ Unit _ (by norm_num)
  refine ⟨hvalue.1 _ _ 1 _ _ hdisc (LiveEngine.unstarted_funded _) trivial fun i c hi => ?_,
    hvalue.2 .silent _ .funded (by simp [DataFeed.timed, DataFeed.size_eq]) _ (.inl rfl) _⟩
  rcases i with _ | _ | _ | _ | _ | i <;> cases hi
  · exact tradable_of_nonempty (fun _ h => nomatch h) fun _ h => nomatch h
  · exact ⟨fun _ _ h => (nomatch h), fun _ h => by rcases h with h | ⟨_, h, -⟩ <;> cases h⟩
  · refine ⟨fun _ _ h => (nomatch h), fun symbol h hnew => ?_⟩
    rcases h with h | ⟨_, h, rfl⟩ <;> cases h
    exact absurd hnew (by decide +kernel)
  · exact ⟨fun _ _ h => (nomatch h), fun _ h => by rcases h with h | ⟨_, h, -⟩ <;> cases h⟩
  · exact tradable_of_nonempty (by decide +kernel) (by decide +kernel)

/-- A fill that comes before the first tick of its symbol ends the process. -/
theorem filled_before_first_tick :
    let e := LiveEngine.run (EngineListener.silent.env 1) (.funded (.rate none))
      [.subscribe "PRIMARY", .start, .broker (.buy 1 0 none .Market 0), .fill (.ofFill 1 1 100 0)]
    e.engine.aborted = true ∧ (e.portfolioValue (e.engine.feeds.map Prod.snd)).toOption = none := by decide +kernel

end StratForge
