import StratForge.Settling

/-!
# Which candidates have an outcome

An outcome comes from a trade or from a shadow. A candidate whose order adds to a position, is refused for want of
margin, is cancelled, expires or is never filled has neither, and so no outcome. In a run of clean fills those with an
outcome are the ones that the gate has rejected for a feed that there is, and those whose fill has opened a trade
(`one_outcome_iff`).
-/

namespace StratForge

variable {α V : Type} [Arith α]

/-! ### The two sources -/

namespace Collector

/-- The candidates of the trades that the collector has been told of. -/
def actual (cl : Collector α) : List Nat := (cl.outcomes.filter (·.outcomeType = .kActual)).map (·.candidateId)

/-- The candidates that have or have had a shadow, before the end of a run. -/
def counterfactual (cl : Collector α) : List Nat :=
  (cl.outcomes.filter (·.outcomeType ≠ .kActual)).map (·.candidateId) ++ cl.shadowLedger.map (·.candidateId)

/-- The collector has been told of the closed trades, except those without a candidate. -/
def Told (cs : List (Trade α × α)) (cl : Collector α) : Prop :=
  cl.isEnabled = true → ∀ id ≠ 0, id ∈ cl.actual ↔ ∃ x ∈ cs, x.1.isClosed = true ∧ x.1.candidateId = id

/-- The gate has rejected the candidate, and there is a feed to follow. -/
def Shadowed (n : Nat) (cl : Collector α) (id : Nat) : Prop :=
  ∃ p ∈ cl.candidates.zip cl.dataIndices, p.1.candidateId = id ∧ p.1.gateVerdict = .kReject ∧ p.2 < n

/-- Shadows are those of the rejected candidates. -/
structure Mirrored (n : Nat) (cl : Collector α) : Prop where
  indexed : cl.candidates.length = cl.dataIndices.length
  enabled : cl.candidates ≠ [] → cl.isEnabled = true
  shadows : ∀ id, id ∈ cl.counterfactual ↔ cl.Shadowed n id

variable {cl : Collector α} {cs : List (Trade α × α)} {n : Nat}

theorem Told.start (config : CollectorConfig α)
    (infer : Option (Nat → Vector α kPopFeatureCountV1 → α → InferenceResult α)) (n : Nat) :
    (Collector.start config infer n).Told [] := by
  intro _ id _
  simp [actual, Collector.start]

theorem Told.append (h : cl.Told cs) (t : Trade α) (s : α) :
    (if t.isClosed then cl.onTradeClosed t else cl).Told (cs ++ [(t, s)]) := by
  by_cases hclosed : t.isClosed = true
  swap
  · rw [if_neg hclosed]
    intro hon id hid
    rw [h hon id hid]
    simp [hclosed]
  rw [if_pos hclosed]
  rcases cl.onTradeClosed_cases t with heq | ⟨hon, ht, heq⟩
  · rw [heq]
    intro hon id hid
    -- the collector is on, so the trade has no candidate
    have ht : t.candidateId = 0 := by
      by_contra ht
      unfold onTradeClosed at heq
      rw [hon, if_neg (by simp), if_neg ht] at heq
      have := congrArg (·.outcomes.length) heq
      simp at this
    rw [h hon id hid]
    simp [ht, Ne.symm hid]
  · rw [heq]
    intro _ id hid
    have hactual : ({ cl with outcomes := cl.outcomes ++ [actualOutcome t], featureBuilder := cl.featureBuilder.recordTrade } :
        Collector α).actual = cl.actual ++ [t.candidateId] := by
      unfold actual
      rw [List.filter_append, List.map_append]
      rfl
    rw [hactual, List.mem_append, h hon id hid, List.mem_singleton]
    simp [hclosed, or_and_right, exists_or, @eq_comm _ id t.candidateId]

theorem Mirrored.onTradeClosed (h : cl.Mirrored n) (t : Trade α) : (cl.onTradeClosed t).Mirrored n := by
  rcases cl.onTradeClosed_cases t with heq | ⟨-, -, heq⟩ <;> rw [heq]
  · exact h
  · refine ⟨h.indexed, h.enabled, fun id => ?_⟩
    have hsame : ({ cl with outcomes := cl.outcomes ++ [actualOutcome t], featureBuilder := cl.featureBuilder.recordTrade } :
        Collector α).counterfactual = cl.counterfactual := by
      unfold counterfactual
      rw [List.filter_append]
      simp [actualOutcome]
    rw [hsame]
    exact h.shadows id

theorem Mirrored.start (config : CollectorConfig α)
    (infer : Option (Nat → Vector α kPopFeatureCountV1 → α → InferenceResult α)) (k : Nat) :
    (Collector.start config infer k).Mirrored n :=
  ⟨rfl, fun h => absurd rfl h, fun id => by simp [counterfactual, Shadowed, Collector.start]⟩

omit [Arith α] in
/-- A candidate is issued, with a shadow if it is rejected and there is a feed. -/
theorem Mirrored.issue (h : cl.Mirrored n) (hon : cl.isEnabled = true) {snap : CandidateSnapshot α} {k : Nat}
    {shadows : List (ShadowEntry α)}
    (hsh : ∀ id, id ∈ shadows.map (·.candidateId) ↔ snap.candidateId = id ∧ snap.gateVerdict = .kReject ∧ k < n) :
    (cl.issue snap k shadows).Mirrored n := by
  refine ⟨?_, fun _ => hon, fun id => ?_⟩
  · show (cl.candidates ++ [snap]).length = (cl.dataIndices ++ [k]).length
    rw [List.length_append, List.length_append, h.indexed]
    rfl
  · have hcount : (cl.issue snap k shadows).counterfactual = cl.counterfactual ++ shadows.map (·.candidateId) := by
      show _ ++ (cl.shadowLedger ++ shadows).map _ = _
      rw [List.map_append, ← List.append_assoc]
      rfl
    have hzip : (cl.issue snap k shadows).candidates.zip (cl.issue snap k shadows).dataIndices =
        cl.candidates.zip cl.dataIndices ++ [(snap, k)] := List.zip_append h.indexed
    unfold Shadowed
    rw [hcount, hzip, List.mem_append, h.shadows id, hsh id]
    unfold Shadowed
    simp [or_and_right, exists_or]

/-- The shadow of a rejected order is there if and only if there is a feed. -/
theorem mem_shadowOf {side : OrderSide} {size : α} {k : Nat} {feeds : List (DataFeed α)} {snap : CandidateSnapshot α}
    {shadows : List (ShadowEntry α)} (h : cl.shadowOf side size k feeds snap = .ok shadows) (id : Nat) :
    id ∈ shadows.map (·.candidateId) ↔ snap.candidateId = id ∧ k < feeds.length := by
  unfold shadowOf at h
  cases hk : feeds[k]? with
  | none =>
    rw [hk] at h
    cases h
    have := List.getElem?_eq_none_iff.1 hk
    simp only [List.map_nil, List.not_mem_nil, false_iff]
    omega
  | some feed =>
    rw [hk] at h
    obtain ⟨price, -, h⟩ := bind_eq_ok.1 h
    cases h
    have := (List.getElem?_eq_some_iff.1 hk).1
    simp [this, eq_comm]

/-- A tick closes shadows; it is told of no trade. -/
theorem tick_types {feeds : List (DataFeed α)} {ledger still : List (ShadowEntry α)} {closed : List (OutcomeRecord α)}
    (h : ShadowLedger.tick feeds ledger = .ok (closed, still)) : ∀ r ∈ closed, r.outcomeType = .kShadow := by
  refine Fold.foldlM_ok (fun _ (r : List (OutcomeRecord α) × List (ShadowEntry α)) => ∀ o ∈ r.1, o.outcomeType = .kShadow)
    (fun done r s r' hr hs => ?_) ledger [] ([], []) (closed, still) (fun _ h => (nomatch h)) h
  dsimp only at hs
  split_ifs at hs
  · obtain ⟨record, hrecord, hs⟩ := bind_eq_ok.1 hs
    cases hs
    intro o ho
    rcases List.mem_append.1 ho with ho | ho
    · exact hr o ho
    · rw [List.mem_singleton.1 ho]
      obtain ⟨exit, -, hrecord⟩ := bind_eq_ok.1 hrecord
      obtain ⟨ts, -, hrecord⟩ := bind_eq_ok.1 hrecord
      cases hrecord
      rfl
  · cases hs
    exact hr

/-- The end of a bar only settles shadows. -/
theorem onBar_keeps {W : Type} [Floating α] (cl : Collector α) (feeds : List (DataFeed α)) (broker : BackBroker α W) :
    (cl.Told cs → (cl.orFailed (cl.onBar feeds broker)).Told cs) ∧
      (cl.Mirrored n → (cl.orFailed (cl.onBar feeds broker)).Mirrored n) := by
  rcases cl.onBar_cases feeds broker with ⟨-, heq⟩ | heq | ⟨pv, closed, still, htick, heq⟩ <;> rw [heq]
  · exact ⟨id, id⟩
  · exact ⟨id, fun h => ⟨h.indexed, h.enabled, h.shadows⟩⟩
  have htypes := tick_types htick
  have hcount := ShadowLedger.count_tick htick
  have hnone : closed.filter (·.outcomeType = .kActual) = [] := List.filter_eq_nil_iff.2 fun r hr => by simp [htypes r hr]
  have hall : closed.filter (·.outcomeType ≠ .kActual) = closed := List.filter_eq_self.2 fun r hr => by simp [htypes r hr]
  constructor
  · intro h hon id hid
    rw [← h hon id hid]
    unfold actual
    rw [List.filter_append, hnone, List.append_nil]
  · intro h
    refine ⟨h.indexed, h.enabled, fun id => ?_⟩
    refine Iff.trans ?_ (h.shadows id)
    -- the settled and the open ones are those of the ledger
    have hids : id ∈ cl.shadowLedger.map (·.candidateId) ↔
        id ∈ closed.map (·.candidateId) ∨ id ∈ still.map (·.candidateId) := by
      rw [← List.count_pos_iff, ← List.count_pos_iff, ← List.count_pos_iff, ← hcount id]
      omega
    unfold counterfactual
    rw [List.mem_append, List.mem_append, hids, List.filter_append, hall, List.map_append, List.mem_append, or_assoc]

/-- The end of a run issues nothing. -/
theorem onStop_issued {W : Type} {cl' : Collector α} {feeds : List (DataFeed α)} {broker : BackBroker α W}
    (h : cl.onStop feeds broker = .ok cl') : cl'.candidates = cl.candidates ∧ cl'.dataIndices = cl.dataIndices := by
  unfold onStop at h
  split_ifs at h
  · cases h
    exact ⟨rfl, rfl⟩
  · obtain ⟨trades, -, h⟩ := bind_eq_ok.1 h
    obtain ⟨shadows, -, h⟩ := bind_eq_ok.1 h
    cases h
    exact ⟨rfl, rfl⟩

/-- What the end of a run records besides. -/
theorem mem_onStop {W : Type} {cl' : Collector α} {feeds : List (DataFeed α)} {broker : BackBroker α W}
    (h : cl.onStop feeds broker = .ok cl') (hon : cl.isEnabled = true) {id : Nat} (hid : id ≠ 0) :
    id ∈ cl'.outcomes.map (·.candidateId) ↔
      id ∈ cl.actual ∨ id ∈ cl.counterfactual ∨ ∃ x ∈ broker.openTrades, x.1.isOpen = true ∧ x.1.candidateId = id := by
  unfold onStop at h
  rw [hon, if_neg (by simp)] at h
  obtain ⟨trades, htrades, h⟩ := bind_eq_ok.1 h
  obtain ⟨shadows, hshadows, h⟩ := bind_eq_ok.1 h
  cases h
  have hcensored : ∀ (t : Trade α × α) r, censorTrade feeds t.1 = .ok r → r.candidateId = t.1.candidateId := by
    intro t r hr
    obtain ⟨close, -, hr⟩ := bind_eq_ok.1 hr
    obtain ⟨ts, -, hr⟩ := bind_eq_ok.1 hr
    cases hr
    rfl
  have htradeIds := mapM_ids (g := fun t : Trade α × α => t.1.candidateId) hcensored htrades
  have hshadowIds := mapM_ids (g := fun s : ShadowEntry α => s.candidateId)
    (fun s r hr => ShadowEntry.candidateId_settle hr) hshadows
  have hopen : id ∈ trades.map (·.candidateId) ↔ ∃ x ∈ broker.openTrades, x.1.isOpen = true ∧ x.1.candidateId = id := by
    rw [htradeIds]
    simp only [List.mem_map, List.mem_filter, Bool.and_eq_true, bne_iff_ne]
    constructor
    · rintro ⟨x, ⟨hx, hopen, -⟩, hxid⟩
      exact ⟨x, hx, hopen, hxid⟩
    · rintro ⟨x, hx, hopen, hxid⟩
      exact ⟨x, ⟨hx, hopen, hxid ▸ hid⟩, hxid⟩
  have hsplit : id ∈ cl.outcomes.map (·.candidateId) ↔
      id ∈ cl.actual ∨ id ∈ (cl.outcomes.filter (·.outcomeType ≠ .kActual)).map (·.candidateId) := by
    unfold actual
    simp only [List.mem_map, List.mem_filter, decide_eq_true_eq]
    constructor
    · rintro ⟨r, hr, hrid⟩
      by_cases ht : r.outcomeType = .kActual
      exacts [.inl ⟨r, ⟨hr, ht⟩, hrid⟩, .inr ⟨r, ⟨hr, ht⟩, hrid⟩]
    · rintro (⟨r, ⟨hr, -⟩, hrid⟩ | ⟨r, ⟨hr, -⟩, hrid⟩) <;> exact ⟨r, hr, hrid⟩
  show id ∈ (cl.outcomes ++ trades ++ shadows).map _ ↔ _
  unfold counterfactual
  rw [List.map_append, List.map_append, List.mem_append, List.mem_append, hopen, hshadowIds, hsplit, List.mem_append]
  simp only [or_assoc]
  exact or_congr_right (or_congr_right or_comm)

end Collector

/-! ### Runs -/

namespace Cerebro
variable [Floating α] (c : Cerebro α V) {clock : Clock α} {feeds : DataFeed α × List (DataFeed α)}

/-- What the callback on a trade captures: the collector is told when the strategies are done. -/
theorem collecting_act_trade (t : Trade α) (s : α) (b : BackBroker α (V × Collector α)) :
    (((c.collecting.listener clock).act (.trade t s) b).2 ≠ none →
      ((c.collecting.listener clock).act (.trade t s) b).1.2 = b.world.2) ∧
    (((c.collecting.listener clock).act (.trade t s) b).2 = none →
      ((c.collecting.listener clock).act (.trade t s) b).1.2 = if t.isClosed then b.world.2.onTradeClosed t else b.world.2) := by
  rw [act_collecting]
  dsimp only
  cases ((c.listener clock).act (.trade t s) (b.capture b.world.1)).2 with
  | none => exact ⟨fun h => absurd rfl h, fun _ => rfl⟩
  | some cmd => exact ⟨fun _ => rfl, fun h => absurd h (Option.some_ne_none cmd)⟩

/-- Every callback on a trade is done before the fuel is spent. -/
def TradeCallbacksEnd : Prop :=
  ∀ clock t s b, (c.collecting.listener clock).Ends c.fuel (.trade t s) b

variable {c}

theorem stays_told (hends : c.TradeCallbacksEnd) (clock : Clock α) :
    BackBroker.Stays (c.collecting.hooks clock) fun b : BackBroker α (V × Collector α) => b.world.2.Told b.closedTrades := by
  have hact : ∀ cs o (b : BackBroker α (V × Collector α)), b.world.2.Told cs →
      ((c.collecting.listener clock).act (.order o) b).1.2.Told cs := fun cs o b h => h
  have hhook : ∀ cs side size k (b : BackBroker α (V × Collector α)), b.world.2.Told cs →
      ((c.collecting.listener clock).preOrderHook side size k b).2.2.Told cs := fun cs side size k b h =>
    Collector.preOrderHook_keeps (fun h => h) (fun _ _ _ _ _ h => h) h
  refine BackBroker.stays_closing (BackBroker.tame_hooks _ _) (Q := fun cs w => w.2.Told cs)
    (fun cs o b h => Listener.react_order_keeps (P := fun w : V × Collector α => w.2.Told cs) (hact cs) (hhook cs) _ o b h)
    (fun cs t s b h => ?_) hhook
  refine Listener.react_settles (P := fun w : V × Collector α => w.2.Told cs)
    (Q := fun w : V × Collector α => w.2.Told (cs ++ [(t, s)])) (hact cs) (hhook cs) (fun b hb hgo => ?_) (fun b hb hend => ?_)
    _ b (hends clock t s b) h
  · rw [(c.collecting_act_trade t s b).1 hgo]
    exact hb
  · rw [(c.collecting_act_trade t s b).2 hend]
    exact hb.append t s

variable {b : BackBroker α (V × Collector α)} {n : Nat} {e : CerebroState α (V × Collector α)}

theorem told_upTo (hends : c.TradeCallbacksEnd) (hb : b.world.2.Told b.closedTrades) (hn : n ≤ feeds.1.size)
    (h : c.collecting.upTo feeds b n = .ok e) : e.broker.world.2.Told e.broker.closedTrades :=
  upTo_carried (P := fun _ b => b.world.2.Told b.closedTrades)
    (fun _ clock _ => .of_stays (stays_told hends clock) fun _ _ _ hb => hb) (fun _ hb => hb) (fun _ _ hb => hb)
    (fun _ e b' _ _ hb' => (b'.world.2.onBar_keeps (n := 0) e.clock.feeds b').1 hb') hb hn h

theorem mirrored_upTo (hb : b.world.2.Mirrored (feeds.2.length + 1)) (hn : n ≤ feeds.1.size)
    (h : c.collecting.upTo feeds b n = .ok e) : e.broker.world.2.Mirrored (feeds.2.length + 1) := by
  refine upTo_carried (P := fun _ b => b.world.2.Mirrored (feeds.2.length + 1)) (fun n clock hclock => ?_) (fun _ hb => hb)
    (fun _ _ hb => hb) (fun _ e b' _ _ hb' => (@Collector.onBar_keeps _ _ [] (feeds.2.length + 1) _ _ b'.world.2 e.clock.feeds b').2 hb') hb hn h
  have hfeeds : clock.feeds.length = feeds.2.length + 1 := by
    show (clock.master.feed :: clock.context.map _).length = _
    rw [List.length_cons, List.length_map, hclock]
  refine collecting_carries (P := fun cl => cl.Mirrored (feeds.2.length + 1)) (fun cl t h => h.onTradeClosed t)
    fun cl side size k b h => Collector.preOrderHook_keeps (fun h => ⟨h.indexed, h.enabled, h.shadows⟩)
      (fun snap shadows hon _ hsh h => h.issue hon fun id => ?_) h
  rcases hsh with ⟨hpass, rfl⟩ | ⟨hreject, hsh⟩
  · simp [hpass]
  · rw [Collector.mem_shadowOf hsh, hfeeds]
    simp [hreject]

/-- The data indices of a run are those of its candidates. -/
theorem collect_indexed {config : CollectorConfig α}
    {infer : Option (Nat → Vector α kPopFeatureCountV1 → α → InferenceResult α)} {b : BackBroker α V}
    {e : CerebroState α (V × Collector α)} (h : c.collect config infer feeds b = .ok e) :
    e.broker.world.2.candidates.length = e.broker.world.2.dataIndices.length := by
  rcases c.collect_cases h with ⟨-, heq⟩ | ⟨e₀, cl, hup, -, hstop, heq⟩ <;> rw [heq]
  · rfl
  · obtain ⟨hsame, hindices⟩ := Collector.onStop_issued hstop
    have hmirrored := mirrored_upTo (.start config infer _) (le_refl _) hup
    show cl.candidates.length = cl.dataIndices.length
    rw [hsame, hindices, hmirrored.indexed]

omit [Floating α] in
/-- What booking a fill keeps, runs keep. -/
theorem kept_upTo {W : Type} {c : Cerebro α W} {P : BackBroker α W → Prop} (hP : BackBroker.Kept P) {b : BackBroker α W}
    {e : CerebroState α W} (hb : P b) (hn : n ≤ feeds.1.size) (h : c.upTo feeds b n = .ok e) : P e.broker := by
  have hworld : ∀ {b} w, P b → P { b with world := w } := fun {b} w hb => hP.same b _ (.of_eq rfl rfl rfl rfl rfl rfl rfl) hb
  exact upTo_carried (P := fun _ => P)
    (fun _ clock _ => .of_stays (hP.stays (BackBroker.tame_hooks _ _)) fun _ _ _ hb => hworld _ hb)
    (fun b hb => hworld _ hb) (fun n b hb => hP.same b _ (.of_eq rfl rfl rfl rfl rfl rfl rfl) hb)
    (fun _ _ _ _ _ hb' => hworld _ hb') hb hn h

end Cerebro

/-! ### The candidates with one outcome -/

namespace Cerebro
variable {V : Type} [Floating ℚ] (c : Cerebro ℚ V) {feeds : DataFeed ℚ × List (DataFeed ℚ)}

/-- What has an outcome at the end of a run of clean fills. -/
theorem mem_outcomes_iff (hends : c.TradeCallbacksEnd) (config : CollectorConfig ℚ)
    (infer : Option (Nat → Vector ℚ kPopFeatureCountV1 → ℚ → InferenceResult ℚ)) {b : BackBroker ℚ V} (hb : b.Fresh)
    {e : CerebroState ℚ (V × Collector ℚ)} (h : c.collect config infer feeds b = .ok e)
    (hclean : BackBroker.FillsMeet b.instrumentMap Clean e.broker.executions) {id : Nat}
    (hid : id ∈ e.broker.world.2.candidates.map (·.candidateId)) (h0 : id ≠ 0) :
    id ∈ e.broker.world.2.outcomes.map (·.candidateId) ↔
      e.broker.world.2.Shadowed (feeds.2.length + 1) id ∨ BackBroker.OpenedBy b.instrumentMap e.broker.executions id := by
  rcases c.collect_cases h with ⟨-, heq⟩ | ⟨e₀, cl, hup, -, hstop, heq⟩
  · rw [heq] at hid
    cases hid
  rw [heq] at hid hclean ⊢
  let b₀ := b.capture (b.world, Collector.start config infer (feeds.2.length + 1))
  have hfresh : b₀.Fresh := ⟨hb.nextOrderId, hb.allOrders, hb.pendingOrders, hb.positions, hb.openTrades, hb.closedTrades,
    hb.turn, hb.journal⟩
  have htold : e₀.broker.world.2.Told e₀.broker.closedTrades :=
    told_upTo hends (b := b₀) (by rw [hfresh.closedTrades]; exact .start config infer _) (le_refl _) hup
  have hmirrored : e₀.broker.world.2.Mirrored (feeds.2.length + 1) :=
    mirrored_upTo (b := b₀) (.start config infer _) (le_refl _) hup
  have hstart : ∀ id, id ∈ b₀.tradeIds ↔ BackBroker.OpenedBy b₀.instrumentMap b₀.executions id := fun id => by
    rw [BackBroker.tradeIds, hfresh.openTrades, hfresh.closedTrades, BackBroker.executions, hfresh.journal]
    simp [BackBroker.OpenedBy]
  obtain ⟨-, hbooks⟩ := kept_upTo (BackBroker.kept_tradeIds b₀) ⟨.of_fresh hfresh, fun _ => ⟨.of_fresh hfresh, hstart⟩⟩
    (le_refl _) hup
  obtain ⟨hbalanced, hopened⟩ := hbooks hclean
  obtain ⟨hsame, hindices⟩ := Collector.onStop_issued hstop
  have hon : e₀.broker.world.2.isEnabled = true := hmirrored.enabled fun hnil => by
    rw [show cl.candidates = [] from hsame.trans hnil] at hid
    cases hid
  -- every trade in the books is told of when it closes, or still open at the end
  have hopen : ∀ x ∈ e₀.broker.openTrades, x.1.isOpen = true := fun x hx => by
    have hx : x ∈ e₀.broker.openOf x.1.dataIndex := List.mem_filter.2 ⟨hx, by simp⟩
    rcases (hbalanced.lots x.1.dataIndex).cases with ⟨-, -, hnil⟩ | ⟨t, orig, hone, ht⟩
    · rw [hnil] at hx
      cases hx
    · rw [hone] at hx
      rw [List.mem_singleton.1 hx]
      exact decide_eq_true ht.status
  have hclosed : ∀ x ∈ e₀.broker.closedTrades, x.1.isClosed = true := fun x hx => decide_eq_true (hbalanced.closed x hx)
  have htrades : (∃ x ∈ e₀.broker.closedTrades, x.1.isClosed = true ∧ x.1.candidateId = id) ∨
      (∃ x ∈ e₀.broker.openTrades, x.1.isOpen = true ∧ x.1.candidateId = id) ↔ id ∈ e₀.broker.tradeIds := by
    rw [BackBroker.mem_tradeIds, List.mem_map, List.mem_map, or_comm]
    refine or_congr ?_ ?_
    · exact exists_congr fun x => and_congr_right fun hx => and_iff_right (hopen x hx)
    · exact exists_congr fun x => and_congr_right fun hx => and_iff_right (hclosed x hx)
  show id ∈ cl.outcomes.map _ ↔ cl.Shadowed _ id ∨ BackBroker.OpenedBy b₀.instrumentMap e₀.broker.executions id
  unfold Collector.Shadowed
  rw [Collector.mem_onStop hstop hon h0, htold hon id h0, hmirrored.shadows id, hsame, hindices, ← hopened id, ← htrades,
    or_left_comm]
  rfl

/-- In a run of clean fills a candidate has exactly one outcome if and only if the gate has rejected it for a feed that
there is, or the fill of its order has found no position, or one of the other side that was smaller. -/
theorem one_outcome_iff (hends : c.TradeCallbacksEnd) (config : CollectorConfig ℚ)
    (infer : Option (Nat → Vector ℚ kPopFeatureCountV1 → ℚ → InferenceResult ℚ)) {b : BackBroker ℚ V} (hb : b.Fresh)
    {e : CerebroState ℚ (V × Collector ℚ)} (h : c.collect config infer feeds b = .ok e)
    (hclean : BackBroker.FillsMeet b.instrumentMap Clean e.broker.executions) :
    e.broker.world.2.candidates.length = e.broker.world.2.dataIndices.length ∧
      ∀ p ∈ e.broker.world.2.candidates.zip e.broker.world.2.dataIndices,
        ((e.broker.world.2.outcomes.map (·.candidateId)).count p.1.candidateId = 1 ↔
          (p.1.gateVerdict = .kReject ∧ p.2 < feeds.2.length + 1) ∨
            BackBroker.OpenedBy b.instrumentMap e.broker.executions p.1.candidateId) := by
  obtain ⟨hnodup, hzero, hone, -⟩ := c.collect_ids config infer hb.unlinked h
  have hlength := collect_indexed h
  refine ⟨hlength, fun p hp => ?_⟩
  have hfst : (e.broker.world.2.candidates.zip e.broker.world.2.dataIndices).map Prod.fst = e.broker.world.2.candidates :=
    List.map_fst_zip hlength.le
  have hmem : p.1.candidateId ∈ e.broker.world.2.candidates.map (·.candidateId) :=
    List.mem_map_of_mem (hfst ▸ List.mem_map_of_mem hp)
  have hshadowed : e.broker.world.2.Shadowed (feeds.2.length + 1) p.1.candidateId ↔
      p.1.gateVerdict = .kReject ∧ p.2 < feeds.2.length + 1 := by
    constructor
    · rintro ⟨q, hq, hid, hq'⟩
      have hinj : ((e.broker.world.2.candidates.zip e.broker.world.2.dataIndices).map fun p => p.1.candidateId).Nodup := by
        rw [← hfst, List.map_map] at hnodup
        exact hnodup
      rwa [List.inj_on_of_nodup_map hinj hq hp hid] at hq'
    · exact fun hp' => ⟨p, hp, rfl, hp'⟩
  rw [← hshadowed, ← c.mem_outcomes_iff hends config infer hb h hclean hmem fun h0 => hzero (h0 ▸ hmem)]
  exact ⟨fun hcount => List.count_pos_iff.1 (by omega), fun hmem => List.count_eq_one_of_mem hone hmem⟩

end Cerebro

/-- Rationals are numbers. The root is rounded down to a millionth. -/
instance : Floating ℚ where
  nan := 0
  isFinite _ := true
  isNaN _ := false
  sqrt q := Nat.sqrt (q * 10 ^ 12).floor.toNat / 10 ^ 6
  toFloat := id

/-- It places two buys at once, the second one on top of the first. -/
def buysTwice : Cerebro ℚ Unit :=
  { Cerebro.silent with
    call := fun _ _ _ b => ((), if b.nextOrderId ≤ 2 then some (.buy 1 0 none .Market 0) else none)
    fuel := 3 }

/-- Candidates are collected, and no order is rejected. -/
def collecting : CollectorConfig ℚ :=
  { corrective := { state := .kCollectOnly, mode := .kGate, threshold := 0, sizingExponent := 1, shadowHorizonBars := 50 },
    shadowHorizonBars := 50 }

/-- Three minutes of a price that stays. -/
def threeMinutes : DataFeed ℚ × List (DataFeed ℚ) :=
  (.timed ⟨.Minutes, 1⟩ [0, 60 * nsPerSecond, 120 * nsPerSecond], [])

/-- Both orders are filled; the second one adds to the position, and its candidate has no outcome. -/
theorem added_without_outcome :
    (buysTwice.collect collecting none threeMinutes (.init .USD 1000 none ())).toOption.map (fun e =>
      (e.broker.executions.map (·.order.candidateId), e.broker.world.2.candidates.map (·.candidateId),
        e.broker.world.2.outcomes.map (·.candidateId))) = some ([1, 2], [1, 2], [1]) := by
  decide +kernel

theorem one_outcome_iff_twice : ∃ e, buysTwice.collect collecting none threeMinutes (.init .USD 1000 none ()) = .ok e ∧
    e.broker.world.2.candidates.length = e.broker.world.2.dataIndices.length ∧
      ∀ p ∈ e.broker.world.2.candidates.zip e.broker.world.2.dataIndices,
        ((e.broker.world.2.outcomes.map (·.candidateId)).count p.1.candidateId = 1 ↔
          (p.1.gateVerdict = .kReject ∧ p.2 < threeMinutes.2.length + 1) ∨
            BackBroker.OpenedBy (fun _ => none) e.broker.executions p.1.candidateId) := by
  obtain ⟨e, h⟩ := isOk_eq_true (r := buysTwice.collect collecting none threeMinutes (.init .USD 1000 none ()))
    (by decide +kernel)
  have hends : buysTwice.TradeCallbacksEnd := fun clock t s b => trivial
  have hfills : (buysTwice.collect collecting none threeMinutes (.init .USD 1000 none ())).toOption.all
      (fun e => decide (BackBroker.FillsMeet (fun _ => none) Clean e.broker.executions)) = true := by decide +kernel
  rw [h] at hfills
  exact ⟨e, h, buysTwice.one_outcome_iff hends collecting none (BackBroker.fresh_init ..) h (of_decide_eq_true hfills)⟩

end StratForge
