import StratForge.Collecting

/-!
# What the indicators of a feed are fed

The collector advances the indicators of every feed at the end of each bar of the master, wherever the feed stands then
(`fedTo_upTo`). A candidate of that bar has read them before. So the bars they have been fed are the delivered ones, each
once, only where the feed has delivered one bar on every earlier bar of the master and none on this one: never for the
master itself (`candidates_read_iff`).
-/

namespace StratForge

variable {α V W : Type}

/-- The bars that the `k`-th feed has delivered before bar `n` of the master. -/
def barsBefore (feeds : DataFeed α × List (DataFeed α)) (k n : Nat) : Nat :=
  match k with
  | 0 => n
  | k + 1 =>
    match feeds.2[k]? with
    | some f => delivered feeds.1 f n
    | none => 0

/-- Where a feed stands at the end of each of the bars before bar `n`, if it has delivered `d n` bars before bar `n`. -/
def stands (d : Nat → Nat) (n : Nat) : List Nat := (List.range n).map fun m => d (m + 1) - 1

theorem stands_succ (d : Nat → Nat) (n : Nat) : stands d (n + 1) = stands d n ++ [d (n + 1) - 1] := by
  unfold stands
  rw [List.range_succ, List.map_append]
  rfl

/-- What has been delivered up to bar `n` is where the feed has stood at the end of the bars before. -/
theorem stands_eq_range_iff (d : Nat → Nat) (n : Nat) : stands d n = List.range (d (n + 1)) ↔
    (∀ m < n, max 1 (d (m + 1)) = m + 1) ∧ d (n + 1) = n := by
  have hlen : (stands d n).length = n := by rw [stands, List.length_map, List.length_range]
  have hget : ∀ m < n, (stands d n)[m]? = some (d (m + 1) - 1) := fun m hm => by
    rw [stands, List.getElem?_map, List.getElem?_range hm]
    rfl
  constructor
  · intro h
    have hn : d (n + 1) = n := by rw [h, List.length_range] at hlen; exact hlen
    refine ⟨fun m hm => ?_, hn⟩
    have heq := hget m hm
    rw [h, List.getElem?_range (by omega)] at heq
    have := Option.some.inj heq
    omega
  · rintro ⟨hd, hn⟩
    refine List.ext_getElem? fun m => ?_
    rw [hn]
    rcases Nat.lt_or_ge m n with hm | hm
    · rw [hget m hm, List.getElem?_range hm]
      have := hd m hm
      exact congrArg some (by omega)
    · rw [List.getElem?_eq_none (by omega), List.getElem?_eq_none (by rw [List.length_range]; omega)]

/-! ### Where the feeds stand -/

section
variable [Arith α] (c : Cerebro α W) {feeds : DataFeed α × List (DataFeed α)} {b : BackBroker α W} {n k : Nat}
  {e : CerebroState α W} {f : DataFeed α}

/-- A feed after the gate of a bar. -/
theorem Cerebro.gated_feed (h : c.gated feeds b n = .ok e) (hn : n < feeds.1.size) (hf : (feeds.1 :: feeds.2)[k]? = some f) :
    ∃ feed, e.clock.feeds[k]? = some feed ∧ feed.lines.data = f.lines.data ∧ feed.index = barsBefore feeds k (n + 1) - 1 := by
  cases k with
  | zero =>
    cases hf
    obtain ⟨hdata, hidx, -, -⟩ := c.gated_master h hn
    exact ⟨_, rfl, hdata, hidx⟩
  | succ k =>
    have hf : feeds.2[k]? = some f := hf
    obtain ⟨s, hs, hdata, -, hidx, -⟩ := c.gated_schedule h hn hf
    refine ⟨s.feed, ?_, hdata, ?_⟩
    · show (e.clock.context.map (·.feed))[k]? = _
      rw [List.getElem?_map, hs]
      rfl
    · rw [hidx, barsBefore, hf]

end

variable [Arith α] [Floating α]

theorem FeedIndicators.fed_append (rows : List (Row α)) (ps : List Nat) (i : Nat) :
    fed rows (ps ++ [i]) = (fed rows ps).advanceAt rows i := List.foldl_append ..

namespace Collector

/-- Unless the run is given up, the indicators of every feed are those of the bars where it has stood. -/
def FedTo (feeds : DataFeed α × List (DataFeed α)) (n : Nat) (cl : Collector α) : Prop :=
  cl.failed = true ∨ (cl.isEnabled = true → cl.featureBuilder.initialized = true ∧
    ∀ k f, (feeds.1 :: feeds.2)[k]? = some f →
      cl.featureBuilder.feedIndicators[k]? = some (FeedIndicators.fed f.lines.data (stands (barsBefore feeds k) n)))

variable {cl : Collector α} {feeds : DataFeed α × List (DataFeed α)} {n : Nat}

theorem FedTo.issue (h : cl.FedTo feeds n) (snap : CandidateSnapshot α) (k : Nat) (shadows : List (ShadowEntry α)) :
    (cl.issue snap k shadows).FedTo feeds n := h

theorem FedTo.onTradeClosed (h : cl.FedTo feeds n) (t : Trade α) : (cl.onTradeClosed t).FedTo feeds n := by
  rcases cl.onTradeClosed_cases t with heq | ⟨-, -, heq⟩ <;> rw [heq] <;> exact h

theorem fedTo_start (config : CollectorConfig α)
    (infer : Option (Nat → Vector α kPopFeatureCountV1 → α → InferenceResult α)) (feeds : DataFeed α × List (DataFeed α)) :
    (start config infer (feeds.2.length + 1)).FedTo feeds 0 := by
  refine .inr fun _ => ⟨rfl, fun k f hf => ?_⟩
  have hk : k < feeds.2.length + 1 := (List.getElem?_eq_some_iff.1 hf).1
  show (List.replicate _ _)[k]? = _
  rw [List.getElem?_replicate, if_pos hk]
  rfl

/-- The end of a bar on which the feeds stand at what they have delivered. -/
theorem FedTo.onBar (h : cl.FedTo feeds n) {now : List (DataFeed α)} (broker : BackBroker α W)
    (hnow : ∀ k f, (feeds.1 :: feeds.2)[k]? = some f → ∃ feed, now[k]? = some feed ∧ feed.lines.data = f.lines.data ∧
      feed.index = barsBefore feeds k (n + 1) - 1) : (cl.orFailed (cl.onBar now broker)).FedTo feeds (n + 1) := by
  rcases cl.onBar_cases now broker with ⟨hoff, heq⟩ | heq | ⟨pv, closed, still, -, heq⟩ <;> rw [heq]
  · exact .inr fun hon => absurd (hoff.symm.trans hon) Bool.false_ne_true
  · exact .inl rfl
  rcases h with h | h
  · exact .inl h
  -- the equity peak is not what the indicators are about
  have hpeak : ∀ p : PopFeatureBuilder α, (p.updateEquityPeak pv).initialized = p.initialized ∧
      (p.updateEquityPeak pv).feedIndicators = p.feedIndicators := fun p => by
    unfold PopFeatureBuilder.updateEquityPeak
    split_ifs <;> exact ⟨rfl, rfl⟩
  refine .inr fun hon => ?_
  obtain ⟨hinit, hfed⟩ := h hon
  refine ⟨(hpeak _).1.trans hinit, fun k f hf => ?_⟩
  obtain ⟨feed, hfeed, hdata, hidx⟩ := hnow k f hf
  show ((cl.featureBuilder.advance now).updateEquityPeak pv).feedIndicators[k]? = _
  rw [(hpeak _).2]
  show (List.zipWith FeedIndicators.advance now cl.featureBuilder.feedIndicators)[k]? = _
  rw [List.getElem?_zipWith, hfeed, hfed k f hf]
  show some (FeedIndicators.advanceAt feed.lines.data feed.index _) = _
  rw [hdata, hidx, stands_succ, FeedIndicators.fed_append]

end Collector

namespace Cerebro
variable (c : Cerebro α V) {feeds : DataFeed α × List (DataFeed α)} {b : BackBroker α (V × Collector α)} {n : Nat}
  {e : CerebroState α (V × Collector α)}

/-- Between two bars of every run. -/
theorem fedTo_upTo (hb : b.world.2.FedTo feeds 0) (hn : n ≤ feeds.1.size) (h : c.collecting.upTo feeds b n = .ok e) :
    e.broker.world.2.FedTo feeds n := by
  refine upTo_carried (P := fun n b => b.world.2.FedTo feeds n) (fun n clock _ => ?_) (fun b hb => hb) (fun n b hb => hb)
    (fun n e b' hn hg hb' => ?_) hb hn h
  · exact collecting_carries (fun cl t hcl => hcl.onTradeClosed t)
      fun cl side size k b hcl => Collector.preOrderHook_keeps (fun _ => .inl rfl) (fun snap sh _ _ _ hcl => hcl.issue snap _ sh) hcl
  · exact hb'.onBar b' fun k f hf => c.collecting.gated_feed hg hn hf

end Cerebro

/-! ### What a candidate reads -/

/-- The features of a candidate that come from the indicators of its feed. -/
structure CandidateSnapshot.Reads (snap : CandidateSnapshot α) (feed : DataFeed α) (fi : FeedIndicators α) : Prop where
  atrRatio : ∃ close, feed.close.at' 0 = .ok close ∧
    snap.featureVector[3] = PopFeatureBuilder.safeFloat (if 0 < close then fi.atrVal / close else 0)
  volatilityZ : snap.featureVector[4] = PopFeatureBuilder.safeFloat (fi.volatilityZ feed)
  rsi14 : snap.featureVector[5] = PopFeatureBuilder.safeFloat fi.rsiVal
  bbPercentB : snap.featureVector[6] = PopFeatureBuilder.safeFloat fi.bbPctbVal
  macdHistogram : snap.featureVector[7] = PopFeatureBuilder.safeFloat fi.macdHistoVal
  volumeRatio : snap.featureVector[8] = PopFeatureBuilder.safeFloat (fi.volumeRatio feed)

/-- The candidate is one for the data index `k`; a feed there stands at `pos`, and its indicators have been fed the
bars `ps`. -/
structure CandidateSnapshot.FedFrom (snap : CandidateSnapshot α) (feeds : DataFeed α × List (DataFeed α)) (k pos : Nat)
    (ps : List Nat) : Prop where
  symbol : snap.symbolId = toUint32 k
  reads : ∀ f, (feeds.1 :: feeds.2)[k]? = some f → ∃ feed, feed.lines.data = f.lines.data ∧ feed.index = pos ∧
    snap.Reads feed (.fed f.lines.data ps)

namespace Collector
variable {cl : Collector α} {side : OrderSide} {size : α} {k n : Nat} {feeds : DataFeed α × List (DataFeed α)}
  {now : List (DataFeed α)} {broker : BackBroker α W} {snap : CandidateSnapshot α}

theorem snapshot_reads {feed : DataFeed α} {fi : FeedIndicators α}
    (h : cl.snapshot side size k now broker = .ok snap) (hinit : cl.featureBuilder.initialized = true)
    (hfeed : now[k]? = some feed) (hfi : cl.featureBuilder.feedIndicators[k]? = some fi) : snap.Reads feed fi := by
  obtain ⟨asOf, -, h⟩ := bind_eq_ok.1 h
  obtain ⟨features, hfeatures, h⟩ := bind_eq_ok.1 h
  cases h
  unfold PopFeatureBuilder.build at hfeatures
  rw [hinit, hfeed, hfi] at hfeatures
  obtain ⟨close, hclose, hfeatures⟩ := bind_eq_ok.1 hfeatures
  obtain ⟨pv, -, hfeatures⟩ := bind_eq_ok.1 hfeatures
  cases hfeatures
  exact ⟨⟨close, hclose, rfl⟩, rfl, rfl, rfl, rfl, rfl⟩

theorem snapshot_symbolId (h : cl.snapshot side size k now broker = .ok snap) : snap.symbolId = toUint32 k := by
  obtain ⟨asOf, -, h⟩ := bind_eq_ok.1 h
  obtain ⟨features, -, h⟩ := bind_eq_ok.1 h
  cases h
  rfl

theorem FedTo.snapshot (hcl : cl.FedTo feeds n) (hfailed : cl.failed = false) (hon : cl.isEnabled = true) {pos : Nat}
    (hnow : ∀ f, (feeds.1 :: feeds.2)[k]? = some f → ∃ feed, now[k]? = some feed ∧ feed.lines.data = f.lines.data ∧
      feed.index = pos) (h : cl.snapshot side size k now broker = .ok snap) :
    snap.FedFrom feeds k pos (stands (barsBefore feeds k) n) := by
  refine ⟨snapshot_symbolId h, fun f hf => ?_⟩
  rcases hcl with hcl | hcl
  · rw [hfailed] at hcl; cases hcl
  obtain ⟨hinit, hfed⟩ := hcl hon
  obtain ⟨feed, hfeed, hdata, hidx⟩ := hnow f hf
  exact ⟨feed, hdata, hidx, snapshot_reads h hinit hfeed (hfed k f hf)⟩

/-- Unless the run is given up, the candidates since `old` are as `Q` says. -/
def IssuedSince (old : List (CandidateSnapshot α)) (Q : CandidateSnapshot α → Prop) (cl : Collector α) : Prop :=
  cl.failed = true ∨ ∃ new, cl.candidates = old ++ new ∧ ∀ snap ∈ new, Q snap

omit [Floating α] in
theorem IssuedSince.onTradeClosed {old : List (CandidateSnapshot α)} {Q : CandidateSnapshot α → Prop}
    (h : cl.IssuedSince old Q) (t : Trade α) : (cl.onTradeClosed t).IssuedSince old Q := by
  rcases cl.onTradeClosed_cases t with heq | ⟨-, -, heq⟩ <;> rw [heq] <;> exact h

end Collector

namespace Cerebro
variable (c : Cerebro α V) {feeds : DataFeed α × List (DataFeed α)} {clock : Clock α}

/-- While the clock stands, the candidates that are issued have read what the indicators have been fed so far. -/
theorem issued_carries (n : Nat) (pos : Nat → Nat) (old : List (CandidateSnapshot α))
    (hnow : ∀ k f, (feeds.1 :: feeds.2)[k]? = some f → ∃ feed, clock.feeds[k]? = some feed ∧
      feed.lines.data = f.lines.data ∧ feed.index = pos k) :
    c.collecting.Carries clock fun b => b.world.2.FedTo feeds n ∧
      b.world.2.IssuedSince old fun snap => ∃ k, snap.FedFrom feeds k (pos k) (stands (barsBefore feeds k) n) := by
  let P : Collector α → Prop := fun cl => cl.FedTo feeds n ∧ cl.IssuedSince old fun snap =>
    ∃ k, snap.FedFrom feeds k (pos k) (stands (barsBefore feeds k) n)
  refine collecting_carries (P := P) (fun cl t hcl => ⟨hcl.1.onTradeClosed t, hcl.2.onTradeClosed t⟩)
    fun cl side size k b hcl => Collector.preOrderHook_keeps (P := P) (fun _ => ⟨.inl rfl, .inl rfl⟩) ?_ hcl
  intro snap shadows hon hsnap _ hcl
  refine ⟨hcl.1.issue snap k shadows, ?_⟩
  rcases hcl.2 with hfailed | ⟨new, hnew, hQ⟩
  · exact .inl hfailed
  by_cases hfailed : cl.failed = true
  · exact .inl hfailed
  refine .inr ⟨new ++ [snap], ?_, fun s hs => ?_⟩
  · show cl.candidates ++ [snap] = _
    rw [hnew, List.append_assoc]
  · rcases List.mem_append.1 hs with hs | hs
    · exact hQ s hs
    · rw [List.mem_singleton.1 hs]
      exact ⟨k, hcl.1.snapshot (Bool.eq_false_iff.2 hfailed) hon (hnow k) hsnap⟩

/-- The candidates of the phases before the first bar. -/
theorem start_candidates {b : BackBroker α (V × Collector α)} {e : CerebroState α (V × Collector α)}
    (hb : b.world.2.FedTo feeds 0) (hnone : b.world.2.candidates = []) (h : c.collecting.upTo feeds b 0 = .ok e)
    (hfailed : e.broker.world.2.failed = false) :
    ∀ snap ∈ e.broker.world.2.candidates, ∃ k, snap.FedFrom feeds k 0 [] := by
  have hnow : ∀ (k : Nat) (f : DataFeed α), (feeds.1 :: feeds.2)[k]? = some f → ∃ feed : DataFeed α,
      (Clock.start feeds).feeds[k]? = some feed ∧ feed.lines.data = f.lines.data ∧ feed.index = 0 := by
    intro k f hf
    cases k with
    | zero =>
      cases hf
      exact ⟨_, rfl, rfl, rfl⟩
    | succ k =>
      refine ⟨f.home, ?_, rfl, rfl⟩
      have hf : feeds.2[k]? = some f := hf
      show ((feeds.2.map fun f => ({ feed := f.home } : Slot α)).map (·.feed))[k]? = _
      rw [List.getElem?_map, List.getElem?_map, hf]
      rfl
  obtain ⟨b', hb', heq⟩ := start_carried (c.issued_carries 0 (fun _ => 0) [] hnow) ⟨hb, .inr ⟨[], by simp [hnone]⟩⟩ h
  rw [heq] at hfailed ⊢
  rcases hb'.2 with hlost | ⟨new, hnew, hQ⟩
  · exact absurd (hfailed.symm.trans hlost) Bool.false_ne_true
  · intro snap hsnap
    have hsnap : snap ∈ b'.world.2.candidates := hsnap
    rw [hnew] at hsnap
    exact hQ snap hsnap

/-- The candidates of a bar. -/
theorem bar_candidates {b : BackBroker α (V × Collector α)} {n : Nat} {e e' : CerebroState α (V × Collector α)}
    (hb : b.world.2.FedTo feeds 0) (hn : n < feeds.1.size) (h : c.collecting.upTo feeds b n = .ok e)
    (h' : c.collecting.upTo feeds b (n + 1) = .ok e') (hfailed : e'.broker.world.2.failed = false) :
    ∃ new, e'.broker.world.2.candidates = e.broker.world.2.candidates ++ new ∧ ∀ snap ∈ new, ∃ k,
      snap.FedFrom feeds k (barsBefore feeds k (n + 1) - 1) (stands (barsBefore feeds k) n) := by
  obtain ⟨e₁, h₁, hbroker, -⟩ := c.collecting.upTo_succ h'
  obtain ⟨e₀, h₀, heq, -⟩ := c.collecting.gated_broker h₁
  rw [h] at h₀
  cases h₀
  have hfed : e₁.broker.world.2.FedTo feeds n := heq ▸ c.fedTo_upTo hb hn.le h
  have hold : e₁.broker.world.2.candidates = e.broker.world.2.candidates := by rw [heq]; rfl
  obtain ⟨b', hb', htrade⟩ := (c.issued_carries n (fun k => barsBefore feeds k (n + 1) - 1) e.broker.world.2.candidates
    fun k f hf => c.collecting.gated_feed h₁ hn hf).trade (n := n) ⟨hfed, .inr ⟨[], by simp [hold]⟩⟩
  rw [hbroker, htrade] at hfailed ⊢
  obtain ⟨hlost, hcandidates⟩ := Collector.onBar_candidates b'.world.2 e₁.clock.feeds b' hfailed
  obtain ⟨new, hnew, hQ⟩ := hb'.2.resolve_left (by rw [hlost]; simp)
  exact ⟨new, hcandidates.trans hnew, hQ⟩

/-- In every run with a collector: a candidate issued before the first bar has read indicators that have been fed
nothing; one issued on bar `n` has read, for its feed, what the bars give where the feed stood at the end of the bars
before, and these are the delivered bars, each once, if and only if every bar of the master before has delivered one
bar of the feed and this one none. -/
theorem candidates_read_iff (config : CollectorConfig α)
    (infer : Option (Nat → Vector α kPopFeatureCountV1 → α → InferenceResult α)) (feeds : DataFeed α × List (DataFeed α))
    (b : BackBroker α V) :
    (∀ e, c.collecting.upTo feeds (b.capture (b.world, .start config infer (feeds.2.length + 1))) 0 = .ok e →
      e.broker.world.2.failed = false → ∀ snap ∈ e.broker.world.2.candidates, ∃ k, snap.FedFrom feeds k 0 []) ∧
    ∀ n e e', n < feeds.1.size →
      c.collecting.upTo feeds (b.capture (b.world, .start config infer (feeds.2.length + 1))) n = .ok e →
      c.collecting.upTo feeds (b.capture (b.world, .start config infer (feeds.2.length + 1))) (n + 1) = .ok e' →
      e'.broker.world.2.failed = false →
      ∃ new, e'.broker.world.2.candidates = e.broker.world.2.candidates ++ new ∧ ∀ snap ∈ new, ∃ k,
        snap.FedFrom feeds k (barsBefore feeds k (n + 1) - 1) (stands (barsBefore feeds k) n) ∧
        (stands (barsBefore feeds k) n = List.range (barsBefore feeds k (n + 1)) ↔
          (∀ m < n, max 1 (barsBefore feeds k (m + 1)) = m + 1) ∧ barsBefore feeds k (n + 1) = n) := by
  have hfed := Collector.fedTo_start config infer feeds
  refine ⟨fun e h hfailed => c.start_candidates hfed rfl h hfailed, fun n e e' hn h h' hfailed => ?_⟩
  obtain ⟨new, hnew, hread⟩ := c.bar_candidates hfed hn h h' hfailed
  refine ⟨new, hnew, fun snap hsnap => ?_⟩
  obtain ⟨k, hk⟩ := hread snap hsnap
  exact ⟨k, hk, stands_eq_range_iff _ n⟩

end Cerebro

/-! ### A feed of bars of two minutes -/

/-- A price that rises by one a bar. -/
def DataFeed.rising (tf : TimeFrameCompression) (span : Int) (n : Nat) : DataFeed OrNan :=
  { lines := { data := (List.range n).map fun i =>
      let price : OrNan := .num (100 + (i : Nat))
      ⟨(i : Int) * span * nsPerSecond, price, price, price, price, 1, 0⟩ }, timeframe := tf }

/-- Minutes, and the same in pairs. -/
def minutesAndPairs : DataFeed OrNan × List (DataFeed OrNan) :=
  (.rising ⟨.Minutes, 1⟩ 60 18, [.rising ⟨.Minutes, 2⟩ 120 9])

/-- It buys on the second feed, on the last bar. -/
def buysAtTheEnd : Cerebro OrNan Unit :=
  { Cerebro.silent with
    call := fun _ clock _ b =>
      ((), if clock.master.feed.index = 17 ∧ b.nextOrderId = 1 then some (.buy 1 0 none .Market 1) else none)
    fuel := 2 }

def collectOnly : CollectorConfig OrNan :=
  { corrective := { state := .kCollectOnly, mode := .kGate, threshold := 0, sizingExponent := 1, shadowHorizonBars := 50 },
    shadowHorizonBars := 50 }

/-- Nine bars of the second feed have been delivered, too few for an RSI; but each of them has been absorbed twice. -/
theorem pairs_absorbed_twice :
    (buysAtTheEnd.collecting.upTo minutesAndPairs
      ((BackBroker.init .USD (.num 1000) none ()).capture ((), .start collectOnly none 2)) 18).toOption.map
        (fun e => e.broker.world.2.candidates.map fun s => (s.symbolId, s.featureVector[5])) = some [(1, .num 100)] ∧
    barsBefore minutesAndPairs 1 18 = 9 ∧
    PopFeatureBuilder.safeFloat
      (FeedIndicators.fed (DataFeed.rising ⟨.Minutes, 2⟩ 120 9).lines.data (List.range 9)).rsiVal = .num 0 := by
  decide +kernel

end StratForge
