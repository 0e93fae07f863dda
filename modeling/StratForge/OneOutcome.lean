import StratForge.FedBars
import StratForge.Tokens

/-!
# One outcome for a candidate

Outcomes are issued in four places. The candidate ids are tokens, handed out by the hook and taken back from a closed
trade; a shadow keeps its token until it is settled. So over a whole run no candidate has two outcomes
(`at_most_one_outcome`).
-/

namespace StratForge

variable {α V : Type} [Arith α]

/-! ### The ids of records -/

theorem ShadowEntry.candidateId_settle {type : OutcomeType} {status : CompletionStatus} {label : α → Int}
    {feeds : List (DataFeed α)} {s : ShadowEntry α} {r : OutcomeRecord α} (h : s.settle type status label feeds = .ok r) :
    r.candidateId = s.candidateId := by
  obtain ⟨exit, -, h⟩ := bind_eq_ok.1 h
  obtain ⟨ts, -, h⟩ := bind_eq_ok.1 h
  cases h
  rfl

/-- A tick settles a shadow or keeps it. -/
theorem ShadowLedger.count_tick {feeds : List (DataFeed α)} {ledger still : List (ShadowEntry α)}
    {closed : List (OutcomeRecord α)} (h : tick feeds ledger = .ok (closed, still)) (c : Nat) :
    (closed.map (·.candidateId)).count c + (still.map (·.candidateId)).count c =
      (ledger.map (·.candidateId)).count c := by
  refine Fold.foldlM_ok (fun done (r : List (OutcomeRecord α) × List (ShadowEntry α)) =>
    (r.1.map (·.candidateId)).count c + (r.2.map (·.candidateId)).count c = (done.map (·.candidateId)).count c)
    (fun done r s r' hr hs => ?_) ledger [] ([], []) (closed, still) rfl h
  rw [List.map_append, List.count_append, List.map_singleton]
  dsimp only at hs
  split_ifs at hs
  · obtain ⟨record, hrecord, hs⟩ := bind_eq_ok.1 hs
    cases hs
    rw [List.map_append, List.count_append, List.map_singleton, ShadowEntry.candidateId_settle hrecord]
    dsimp only
    omega
  · cases hs
    rw [List.map_append, List.count_append, List.map_singleton]
    dsimp only
    omega

omit [Arith α] in
/-- Records computed one for each element have the ids of the elements. -/
theorem mapM_ids {A : Type} {f : A → Except Error (OutcomeRecord α)} {g : A → Nat}
    (hf : ∀ x r, f x = .ok r → r.candidateId = g x) {xs : List A} {rs : List (OutcomeRecord α)} (h : xs.mapM f = .ok rs) :
    rs.map (·.candidateId) = xs.map g := by
  have hall := Fold.mapM_ok h
  clear h
  induction hall with
  | nil => rfl
  | cons hx _ ih => rw [List.map_cons, List.map_cons, hf _ _ hx, ih]

namespace Collector
variable {cl : Collector α} {feeds : List (DataFeed α)} {c : Nat}

/-- How often a candidate has an outcome or a shadow. -/
def held (cl : Collector α) (c : Nat) : Nat :=
  (cl.outcomes.map (·.candidateId)).count c + (cl.shadowLedger.map (·.candidateId)).count c

/-- A candidate that has been issued may have one. -/
def quota (cl : Collector α) (c : Nat) : Nat := if c < cl.nextCandidateId then 1 else 0

/-- At most one shadow is added, with the candidate's id. -/
theorem shadowOf_ids {side : OrderSide} {size : α} {k : Nat} {snap : CandidateSnapshot α} {shadows : List (ShadowEntry α)}
    (h : cl.shadowOf side size k feeds snap = .ok shadows) :
    shadows = [] ∨ ∃ s, shadows = [s] ∧ s.candidateId = snap.candidateId := by
  unfold shadowOf at h
  split at h
  · cases h
    exact .inl rfl
  · obtain ⟨price, -, h⟩ := bind_eq_ok.1 h
    cases h
    exact .inr ⟨_, rfl, rfl⟩

/-- Candidates are numbered from 1, and what is recorded has a number. -/
structure Numbered (cl : Collector α) : Prop where
  pos : 1 ≤ cl.nextCandidateId
  candidates : cl.candidates.map (·.candidateId) = List.range' 1 (cl.nextCandidateId - 1)
  outcomes : ∀ r ∈ cl.outcomes, r.candidateId ≠ 0
  shadows : ∀ s ∈ cl.shadowLedger, s.candidateId ≠ 0

omit [Arith α] in
theorem Numbered.issue (h : cl.Numbered) {snap : CandidateSnapshot α} (k : Nat) {shadows : List (ShadowEntry α)}
    (hsnap : snap.candidateId = cl.nextCandidateId) (hsh : shadows = [] ∨ ∃ s, shadows = [s] ∧ s.candidateId = snap.candidateId) :
    (cl.issue snap k shadows).Numbered := by
  have hpos := h.pos
  refine ⟨Nat.le_succ_of_le h.pos, ?_, h.outcomes, fun s hs => ?_⟩
  · show (cl.candidates ++ [snap]).map _ = List.range' 1 (cl.nextCandidateId + 1 - 1)
    rw [List.map_append, h.candidates, List.map_singleton, hsnap]
    rw [show cl.nextCandidateId + 1 - 1 = cl.nextCandidateId - 1 + 1 by omega, List.range'_1_concat]
    congr 2
    omega
  · rcases List.mem_append.1 hs with hs | hs
    · exact h.shadows s hs
    · rcases hsh with rfl | ⟨s', rfl, hid⟩
      · cases hs
      · rw [List.mem_singleton.1 hs, hid, hsnap]
        omega

theorem Numbered.onTradeClosed (h : cl.Numbered) (t : Trade α) : (cl.onTradeClosed t).Numbered := by
  rcases cl.onTradeClosed_cases t with heq | ⟨-, hid, heq⟩ <;> rw [heq]
  · exact h
  · refine ⟨h.pos, h.candidates, fun r hr => ?_, h.shadows⟩
    rcases List.mem_append.1 hr with hr | hr
    · exact h.outcomes r hr
    · rw [List.mem_singleton.1 hr]
      exact hid

/-- A closed trade gives its token back, and there is none that is not a number. -/
theorem held_onTradeClosed (cl : Collector α) (t : Trade α) (c : Nat) :
    (cl.onTradeClosed t).held c ≤ cl.held c + (if t.candidateId = c then 1 else 0) ∧
      (cl.onTradeClosed t).quota c = cl.quota c := by
  rcases cl.onTradeClosed_cases t with heq | ⟨-, -, heq⟩ <;> rw [heq]
  · exact ⟨Nat.le_add_right _ _, rfl⟩
  · refine ⟨?_, rfl⟩
    show ((cl.outcomes ++ [actualOutcome t]).map (·.candidateId)).count c +
      (cl.shadowLedger.map (·.candidateId)).count c ≤ _
    rw [List.map_append, List.count_append, List.map_singleton, List.count_singleton, held]
    show _ + (if (t.candidateId == c) = true then 1 else 0) + _ ≤ _
    simp only [beq_iff_eq]
    omega

theorem Numbered.start (config : CollectorConfig α)
    (infer : Option (Nat → Vector α kPopFeatureCountV1 → α → InferenceResult α)) (n : Nat) :
    (Collector.start config infer n).Numbered := ⟨le_refl 1, rfl, fun _ h => (nomatch h), fun _ h => (nomatch h)⟩

variable [Floating α]

theorem Numbered.preOrderHook {W : Type} (h : cl.Numbered) (side : OrderSide) (size : α) (k : Nat) (feeds : List (DataFeed α))
    (broker : BackBroker α W) : (cl.preOrderHook side size k feeds broker).2.Numbered :=
  preOrderHook_keeps (fun h => ⟨h.pos, h.candidates, h.outcomes, h.shadows⟩)
    (fun _ _ _ hsnap hsh h => h.issue k (snapshot_candidateId hsnap)
      (hsh.elim (fun hpass => .inl hpass.2) fun hreject => shadowOf_ids hreject.2)) h

omit [Arith α] [Floating α] in
theorem held_issue (cl : Collector α) (snap : CandidateSnapshot α) (k : Nat) (shadows : List (ShadowEntry α)) (c : Nat) :
    (cl.issue snap k shadows).held c = cl.held c + (shadows.map (·.candidateId)).count c := by
  show (cl.outcomes.map (·.candidateId)).count c + ((cl.shadowLedger ++ shadows).map (·.candidateId)).count c = _
  rw [List.map_append, List.count_append, held]
  omega

/-- The hook hands out the token of the candidate that it issues, to its order or to its shadow. -/
theorem preOrderHook_honest {W : Type} (cl : Collector α) (side : OrderSide) (size : α) (k : Nat) (feeds : List (DataFeed α))
    (broker : BackBroker α W) {c : Nat} (hc : c ≠ 0) :
    (if (cl.preOrderHook side size k feeds broker).1.rejected then 0 else
      if (cl.preOrderHook side size k feeds broker).1.candidateId = c then 1 else 0) +
      (cl.preOrderHook side size k feeds broker).2.held c + cl.quota c ≤
      cl.held c + (cl.preOrderHook side size k feeds broker).2.quota c := by
  have hquota : ∀ snap shadows, (cl.issue snap k shadows).quota c = cl.quota c + if cl.nextCandidateId = c then 1 else 0 := by
    intro snap shadows
    show (if c < cl.nextCandidateId + 1 then 1 else 0) = (if c < cl.nextCandidateId then 1 else 0) + _
    split_ifs <;> omega
  rcases cl.preOrderHook_cases side size k feeds broker with
    h | h | ⟨-, snap, hsnap, ⟨-, h⟩ | ⟨-, shadows, hsh, h⟩⟩ <;> rw [h]
  · rw [if_neg Bool.false_ne_true, if_neg (Ne.symm hc)]
    show 0 + cl.held c + cl.quota c ≤ cl.held c + cl.quota c
    omega
  · show 0 + cl.held c + cl.quota c ≤ cl.held c + cl.quota c
    omega
  · rw [if_neg Bool.false_ne_true, held_issue, hquota, snapshot_candidateId hsnap, List.map_nil, List.count_nil]
    dsimp only
    omega
  · rw [if_pos rfl, held_issue, hquota]
    rcases shadowOf_ids hsh with rfl | ⟨s, rfl, hs⟩
    · rw [List.map_nil, List.count_nil]
      omega
    · rw [List.map_singleton, List.count_singleton, hs, snapshot_candidateId hsnap]
      simp only [beq_iff_eq]
      omega

/-- The end of a bar settles shadows; their tokens stay with what is recorded. -/
theorem onBar_tokens {W : Type} (cl : Collector α) (feeds : List (DataFeed α)) (broker : BackBroker α W) :
    (cl.Numbered → (cl.orFailed (cl.onBar feeds broker)).Numbered) ∧
      ∀ c, (cl.orFailed (cl.onBar feeds broker)).held c = cl.held c ∧
        (cl.orFailed (cl.onBar feeds broker)).quota c = cl.quota c := by
  rcases cl.onBar_cases feeds broker with ⟨-, heq⟩ | heq | ⟨pv, closed, still, htick, heq⟩ <;> rw [heq]
  · exact ⟨id, fun c => ⟨rfl, rfl⟩⟩
  · exact ⟨fun h => ⟨h.pos, h.candidates, h.outcomes, h.shadows⟩, fun c => ⟨rfl, rfl⟩⟩
  have hcount := ShadowLedger.count_tick htick
  refine ⟨fun h => ?_, fun c => ⟨?_, rfl⟩⟩
  · -- an id among the settled and the open ones is one of the ledger
    have hledger : ∀ id, id ∈ closed.map (·.candidateId) ∨ id ∈ still.map (·.candidateId) → id ≠ 0 := by
      rintro id hid rfl
      have hpos : 0 < (cl.shadowLedger.map (·.candidateId)).count 0 := by
        rw [← hcount 0]
        rcases hid with hid | hid <;> have := List.count_pos_iff.2 hid <;> omega
      obtain ⟨s, hs, hs0⟩ := List.mem_map.1 (List.count_pos_iff.1 hpos)
      exact h.shadows s hs hs0
    refine ⟨h.pos, h.candidates, fun r hr => ?_, fun s hs => hledger _ (.inr (List.mem_map_of_mem hs))⟩
    rcases List.mem_append.1 hr with hr | hr
    exacts [h.outcomes r hr, hledger _ (.inl (List.mem_map_of_mem hr))]
  · show ((cl.outcomes ++ closed).map (·.candidateId)).count c + (still.map (·.candidateId)).count c = _
    have := hcount c
    rw [List.map_append, List.count_append, held]
    omega

end Collector

/-! ### The engine's hooks are honest -/

section
variable [Floating α]

namespace Cerebro
variable (c : Cerebro α V) {clock : Clock α}

/-- What a callback does to the collector. -/
theorem collecting_act (ev : Event α) (b : BackBroker α (V × Collector α)) :
    ((c.collecting.listener clock).act ev b).1.2 = b.world.2 ∨ ((c.collecting.listener clock).act ev b).2 = none ∧
      ∃ t s, ev = .trade t s ∧ t.isClosed = true ∧
        ((c.collecting.listener clock).act ev b).1.2 = b.world.2.onTradeClosed t := by
  rw [act_collecting]
  rcases Collector.hear_cases ev ((c.listener clock).act ev (b.capture b.world.1)).2 with heq | ⟨hnone, t, s, hev, hclosed, heq⟩
  · exact .inl (heq _)
  · exact .inr ⟨hnone, t, s, hev, hclosed, heq _⟩

/-- How often a candidate has an outcome or a shadow. -/
def held (w : V × Collector α) (id : Nat) : Nat := w.2.held id

def quota (w : V × Collector α) (id : Nat) : Nat := w.2.quota id

/-- The token of the trade that an event is about. -/
def eventToken : Event α → Nat → Nat
  | .order _ => BackBroker.nothing
  | .trade t _ => BackBroker.tokenOf t

/-- Callbacks give back the token of the trade they are told of, if it is closed. -/
theorem react_adds : ∀ n ev (b : BackBroker α (V × Collector α)),
    BackBroker.Adds held quota (eventToken ev) b ((c.collecting.listener clock).react n ev b)
  | 0, _, b => .refl b
  | n + 1, ev, b => by
    have hhonest : BackBroker.Honest held quota ((c.collecting.listener clock).hooksOf
        ((c.collecting.listener clock).react n)) :=
      ⟨fun o => react_adds n (.order o), fun t s => react_adds n (.trade t s), fun side size k b id hid =>
        b.world.2.preOrderHook_honest side size k clock.feeds b hid⟩
    have hact := @collecting_act _ _ _ _ c clock ev b
    have hsame : ∀ w : V × Collector α, w.2 = b.world.2 → ∀ given, BackBroker.Adds held quota given b { b with world := w } := by
      refine fun w hw given => ⟨rfl, [], (List.append_nil _).symm, fun id _ => ?_⟩
      show 0 + w.2.held id + b.world.2.quota id ≤ b.world.2.held id + w.2.quota id + given id
      rw [hw]
      omega
    unfold Listener.react
    split
    · rename_i w heq
      rw [heq] at hact
      rcases hact with hw | ⟨-, t, s, rfl, hclosed, hw⟩
      · exact hsame w hw _
      · refine ⟨rfl, [], (List.append_nil _).symm, fun id _ => ?_⟩
        obtain ⟨hheld, hquota⟩ := b.world.2.held_onTradeClosed t id
        show 0 + w.2.held id + b.world.2.quota id ≤ b.world.2.held id + w.2.quota id + BackBroker.tokenOf t id
        rw [show w.2 = _ from hw, hquota, BackBroker.tokenOf]
        simp only [hclosed, true_and]
        omega
    · rename_i w cmd heq
      rw [heq] at hact
      have hw : w.2 = b.world.2 := hact.resolve_right fun h => (nomatch h.1)
      exact ((hsame w hw _).trans (hhonest.exec cmd _)).trans (react_adds n ev _)

theorem hooks_honest (clock : Clock α) : BackBroker.Honest held quota (c.collecting.hooks clock) :=
  ⟨fun o => c.react_adds _ (.order o), fun t s => c.react_adds _ (.trade t s), fun side size k b _ hid =>
    b.world.2.preOrderHook_honest side size k clock.feeds b hid⟩

/-! ### Runs -/

variable {feeds : DataFeed α × List (DataFeed α)}

/-- Between two bars of every run the tokens are within the quota. -/
theorem solvent_upTo {b : BackBroker α (V × Collector α)} {n : Nat} {e : CerebroState α (V × Collector α)}
    (hb : b.Solvent held quota) (hnum : b.world.2.Numbered) (hn : n ≤ feeds.1.size)
    (h : c.collecting.upTo feeds b n = .ok e) : e.broker.Solvent held quota ∧ e.broker.world.2.Numbered := by
  refine upTo_carried (P := fun _ b => b.Solvent held quota ∧ b.world.2.Numbered) (fun n clock _ => ?_) (fun b hb => hb)
    (fun n b hb => hb) (fun n e b' _ _ hb' => ?_) ⟨hb, hnum⟩ hn h
  · have hN : c.collecting.Carries clock fun b : BackBroker α (V × Collector α) => b.world.2.Numbered :=
      collecting_carries (fun cl t hcl => hcl.onTradeClosed t) fun cl side size k b hcl => hcl.preOrderHook side size k _ b
    exact ⟨fun cmd _ hb => ⟨hb.1.exec (c.hooks_honest clock) cmd, hN.exec cmd hb.2⟩,
      fun hb => ⟨hb.1.processOrders (c.hooks_honest clock) _, hN.pass hb.2⟩, fun ph si _ hb => hb⟩
  · obtain ⟨hnum, htokens⟩ := b'.world.2.onBar_tokens e.clock.feeds b'
    refine ⟨fun id hid => ?_, hnum hb'.2⟩
    obtain ⟨hheld, hquota⟩ := htokens id
    have := hb'.1 id hid
    show b'.tags.count id + b'.traded id + (b'.world.2.orFailed _).held id ≤ (b'.world.2.orFailed _).quota id
    rw [hheld, hquota]
    exact this

end Cerebro

end

/-! ### The end of a run -/

/-- What is open at the end is settled, once each. -/
theorem Collector.onStop_tokens {W : Type} {cl cl' : Collector α} {feeds : List (DataFeed α)} {broker : BackBroker α W}
    (h : cl.onStop feeds broker = .ok cl') (hnum : cl.Numbered) : cl'.candidates = cl.candidates ∧
      (∀ r ∈ cl'.outcomes, r.candidateId ≠ 0) ∧
      ∀ c ≠ 0, (cl'.outcomes.map (·.candidateId)).count c ≤ broker.traded c + cl.held c := by
  unfold onStop at h
  split_ifs at h
  · cases h
    exact ⟨rfl, hnum.outcomes, fun c _ => by rw [held]; omega⟩
  obtain ⟨trades, htrades, h⟩ := bind_eq_ok.1 h
  obtain ⟨shadows, hshadows, h⟩ := bind_eq_ok.1 h
  cases h
  have hcensored : ∀ (t : Trade α × α) r, censorTrade feeds t.1 = .ok r → r.candidateId = t.1.candidateId := by
    intro t r hr
    obtain ⟨close, -, hr⟩ := bind_eq_ok.1 hr
    obtain ⟨ts, -, hr⟩ := bind_eq_ok.1 hr
    cases hr
    rfl
  have hids := mapM_ids (g := fun t : Trade α × α => t.1.candidateId) hcensored htrades
  have hshadowIds := mapM_ids (g := fun s : ShadowEntry α => s.candidateId)
    (fun s r hr => ShadowEntry.candidateId_settle hr) hshadows
  refine ⟨rfl, fun r hr => ?_, fun c hc => ?_⟩
  · rcases List.mem_append.1 hr with hr | hr
    · rcases List.mem_append.1 hr with hr | hr
      · exact hnum.outcomes r hr
      · obtain ⟨t, ht, heq⟩ := List.mem_map.1 (hids ▸ List.mem_map_of_mem hr)
        rw [← heq]
        have := (List.mem_filter.1 ht).2
        simp only [Bool.and_eq_true, bne_iff_ne] at this
        exact this.2
    · obtain ⟨s, hs, heq⟩ := List.mem_map.1 (hshadowIds ▸ List.mem_map_of_mem hr)
      rw [← heq]
      exact hnum.shadows s hs
  · have htraded : (trades.map (·.candidateId)).count c = broker.traded c := by
      rw [hids, List.count, List.countP_map, List.countP_filter]
      refine List.countP_congr fun t _ => ?_
      simp only [Function.comp, Bool.and_eq_true, beq_iff_eq, bne_iff_ne]
      exact ⟨fun h => ⟨h.2.1, h.1⟩, fun h => ⟨h.2, h.1, by rw [h.2]; exact hc⟩⟩
    show ((cl.outcomes ++ trades ++ shadows).map (·.candidateId)).count c ≤ _
    rw [List.map_append, List.map_append, List.count_append, List.count_append, htraded, hshadowIds, held]
    omega

/-- No order and no trade carries a candidate id, as before every run with a new broker. -/
structure BackBroker.Unlinked (b : BackBroker α V) : Prop where
  orders : ∀ o ∈ b.pendingOrders, o.candidateId = 0
  trades : ∀ t ∈ b.openTrades, t.1.candidateId = 0

omit [Arith α] in
theorem BackBroker.Fresh.unlinked {b : BackBroker α V} (hb : b.Fresh) : b.Unlinked :=
  ⟨by simp [hb.pendingOrders], by simp [hb.openTrades]⟩

namespace Cerebro

theorem solvent_start {b : BackBroker α V} (hb : b.Unlinked) (config : CollectorConfig α)
    (infer : Option (Nat → Vector α kPopFeatureCountV1 → α → InferenceResult α)) (n : Nat) :
    (b.capture (b.world, Collector.start config infer n)).Solvent held quota := by
  intro id hid
  have htags : b.tags.count id = 0 := List.count_eq_zero.2 fun hmem => by
    obtain ⟨o, ho, heq⟩ := List.mem_map.1 hmem
    exact hid (heq.symm.trans (hb.orders o ho))
  have htraded : b.traded id = 0 := List.countP_eq_zero.2 fun t ht => by
    simp [hb.trades t ht, Ne.symm hid]
  show b.tags.count id + b.traded id + (0 + 0) ≤ if id < 1 then 1 else 0
  omega

variable [Floating α] (c : Cerebro α V) {feeds : DataFeed α × List (DataFeed α)}

/-- The ids of a run: candidates have different ones, none of them 0, and outcomes have different ones among these. -/
theorem collect_ids (config : CollectorConfig α)
    (infer : Option (Nat → Vector α kPopFeatureCountV1 → α → InferenceResult α)) {b : BackBroker α V} (hb : b.Unlinked)
    {e : CerebroState α (V × Collector α)} (h : c.collect config infer feeds b = .ok e) :
    (e.broker.world.2.candidates.map (·.candidateId)).Nodup ∧ 0 ∉ e.broker.world.2.candidates.map (·.candidateId) ∧
      (e.broker.world.2.outcomes.map (·.candidateId)).Nodup ∧
      e.broker.world.2.outcomes.map (·.candidateId) ⊆ e.broker.world.2.candidates.map (·.candidateId) := by
  rcases c.collect_cases h with ⟨-, heq⟩ | ⟨e₀, cl, hup, -, hstop, heq⟩ <;> rw [heq]
  · exact ⟨List.nodup_nil, List.not_mem_nil, List.nodup_nil, List.Subset.refl []⟩
  obtain ⟨hsolvent, hnum⟩ := c.solvent_upTo (solvent_start hb config infer _) (.start config infer _) (le_refl _) hup
  obtain ⟨hcandidates, hne, hcount⟩ := Collector.onStop_tokens hstop hnum
  have hcandidates : cl.candidates = e₀.broker.world.2.candidates := hcandidates
  show (cl.candidates.map _).Nodup ∧ 0 ∉ cl.candidates.map _ ∧ (cl.outcomes.map _).Nodup ∧ cl.outcomes.map _ ⊆ cl.candidates.map _
  rw [hcandidates, hnum.candidates]
  have hzero : 0 ∉ cl.outcomes.map (·.candidateId) := fun hmem => by
    obtain ⟨r, hr, hr0⟩ := List.mem_map.1 hmem
    exact hne r hr hr0
  have hquota : ∀ id ≠ 0, (cl.outcomes.map (·.candidateId)).count id ≤ e₀.broker.world.2.quota id := fun id hid => by
    have h1 := hcount id hid
    have h2 : e₀.broker.tags.count id + e₀.broker.traded id + e₀.broker.world.2.held id ≤ e₀.broker.world.2.quota id :=
      hsolvent id hid
    omega
  unfold Collector.quota at hquota
  refine ⟨List.nodup_range' .., by simp [List.mem_range'_1], List.nodup_iff_count_le_one.2 fun id => ?_, fun id hmem => ?_⟩
  · rcases Nat.eq_zero_or_pos id with rfl | hid
    · rw [List.count_eq_zero.2 hzero]
      omega
    · have := hquota id (by omega)
      split_ifs at this <;> omega
  · have hid : id ≠ 0 := fun h0 => hzero (h0 ▸ hmem)
    have hpos := List.count_pos_iff.2 hmem
    have := hquota id hid
    rw [List.mem_range'_1]
    split_ifs at this <;> omega

/-- Over a run with a collector, whatever the gate's verdicts, the strategies and the bars: every outcome is one of a
candidate that the hook has issued, and no candidate has two. -/
theorem at_most_one_outcome (config : CollectorConfig α)
    (infer : Option (Nat → Vector α kPopFeatureCountV1 → α → InferenceResult α)) {b : BackBroker α V} (hb : b.Unlinked)
    {e : CerebroState α (V × Collector α)} (h : c.collect config infer feeds b = .ok e) :
    (∀ r ∈ e.broker.world.2.outcomes, ∃ snap ∈ e.broker.world.2.candidates, snap.candidateId = r.candidateId) ∧
      (e.broker.world.2.outcomes.map (·.candidateId)).Nodup := by
  obtain ⟨-, -, hnodup, hsub⟩ := c.collect_ids config infer hb h
  refine ⟨fun r hr => ?_, hnodup⟩
  obtain ⟨snap, hsnap, heq⟩ := List.mem_map.1 (hsub (List.mem_map_of_mem hr))
  exact ⟨snap, hsnap, heq⟩

end Cerebro

/-- It buys at once, and nothing more. -/
def buysAtOnce : Cerebro OrNan Unit :=
  { Cerebro.silent with
    call := fun _ _ _ b => ((), if b.nextOrderId = 1 then some (.buy 1 0 none .Market 0) else none)
    fuel := 2 }

theorem isOk_eq_true {A : Type} {r : Except Error A} (h : r.toOption.isSome = true) : ∃ a, r = .ok a := by
  cases r with
  | ok a => exact ⟨a, rfl⟩
  | error err => cases h

/-- A trade that is open at the end. -/
theorem at_most_one_outcome_open : ∃ e, buysAtOnce.collect collectOnly none (.rising ⟨.Minutes, 1⟩ 60 3, [])
    (.init .USD (.num 1000) none ()) = .ok e ∧
      (∀ r ∈ e.broker.world.2.outcomes, ∃ snap ∈ e.broker.world.2.candidates, snap.candidateId = r.candidateId) ∧
      (e.broker.world.2.outcomes.map (·.candidateId)).Nodup := by
  obtain ⟨e, h⟩ := isOk_eq_true (r := buysAtOnce.collect collectOnly none (.rising ⟨.Minutes, 1⟩ 60 3, [])
    (.init .USD (.num 1000) none ())) (by decide +kernel)
  exact ⟨e, h, buysAtOnce.at_most_one_outcome collectOnly none (BackBroker.fresh_init ..).unlinked h⟩

end StratForge
