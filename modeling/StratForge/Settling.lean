import StratForge.OneOutcome

/-!
# Trades that are opened and closed

Which fills open a trade, and what callbacks make of a trade that is closed. A fill opens a trade where there is no
position, or one of the other side that is smaller (`Opens`); the trade has the candidate id of the order, and keeps it
(`tradeIds_run`). A trade is closed while a fill is booked, and the callback is told of it once (`stays_closing`).
-/

namespace StratForge

variable {α W : Type} [Arith α]

/-! ### Callbacks -/

namespace Listener
variable (L : Listener α W)

/-- The callback is done before the fuel is spent. -/
def Ends : Nat → Event α → BackBroker α W → Prop
  | 0, _, _ => False
  | n + 1, ev, b =>
    match L.act ev b with
    | (_, none) => True
    | (world, some cmd) => Ends n ev (BackBroker.exec (L.hooksOf (L.react n)) cmd { b with world })

variable {L} {P Q : W → Prop}

/-- A command closes no trade. -/
theorem exec_keeps {r : Event α → BackBroker α W → BackBroker α W}
    (horder : ∀ o (b : BackBroker α W), P b.world → P (r (.order o) b).world)
    (hhook : ∀ side size k b, P b.world → P (L.preOrderHook side size k b).2) (cmd : Cmd α) {b : BackBroker α W}
    (hb : P b.world) : P (b.exec (L.hooksOf r) cmd).world := by
  have heq : b.exec (L.hooksOf r) cmd = b.exec { L.hooksOf r with tradeNotify := fun _ _ b => b } cmd := by
    cases cmd <;> rfl
  rw [heq]
  exact (BackBroker.stays_lost horder (fun _ _ _ hb => hb) hhook).exec cmd hb

theorem react_order_keeps (hact : ∀ o b, P b.world → P (L.act (.order o) b).1)
    (hhook : ∀ side size k b, P b.world → P (L.preOrderHook side size k b).2) :
    ∀ n o (b : BackBroker α W), P b.world → P (L.react n (.order o) b).world
  | 0, _, _, hb => hb
  | n + 1, o, b, hb => by
    have ih := react_order_keeps hact hhook n
    have ha := hact o b hb
    unfold react
    split
    · rename_i world heq
      rwa [heq] at ha
    · rename_i world cmd heq
      rw [heq] at ha
      exact ih o _ (exec_keeps ih hhook cmd (b := { b with world }) ha)

/-- A callback on a trade that ends: what its commands keep, its last step takes to `Q`. -/
theorem react_settles (hact : ∀ o b, P b.world → P (L.act (.order o) b).1)
    (hhook : ∀ side size k b, P b.world → P (L.preOrderHook side size k b).2) {t : Trade α} {s : α}
    (hgo : ∀ b, P b.world → (L.act (.trade t s) b).2 ≠ none → P (L.act (.trade t s) b).1)
    (hend : ∀ b, P b.world → (L.act (.trade t s) b).2 = none → Q (L.act (.trade t s) b).1) :
    ∀ n (b : BackBroker α W), L.Ends n (.trade t s) b → P b.world → Q (L.react n (.trade t s) b).world
  | 0, _, h, _ => h.elim
  | n + 1, b, h, hb => by
    unfold Ends at h
    unfold react
    have hstep := hgo b hb
    have hlast := hend b hb
    split
    · rename_i world heq
      rw [heq] at hlast
      exact hlast rfl
    · rename_i world cmd heq
      rw [heq] at hstep h
      exact react_settles hact hhook hgo hend n _ h
        (exec_keeps (react_order_keeps hact hhook n) hhook cmd (b := { b with world }) (hstep (Option.some_ne_none cmd)))

end Listener

namespace BackBroker
variable {h : Hooks α W}

/-- What holds of the closed trades and of what is captured: every callback keeps it, that on a trade once the trade is
among the closed ones. -/
theorem stays_closing (hh : Tame h) {Q : List (Trade α × α) → W → Prop}
    (horder : ∀ cs o (b : BackBroker α W), Q cs b.world → Q cs (h.orderNotify o b).world)
    (htrade : ∀ cs t s (b : BackBroker α W), Q cs b.world → Q (cs ++ [(t, s)]) (h.tradeNotify t s b).world)
    (hhook : ∀ cs side size k (b : BackBroker α W), Q cs b.world → Q cs (h.preOrderHook side size k b).2) :
    Stays h fun b : BackBroker α W => Q b.closedTrades b.world where
  frame hs hw hQ := by
    rw [hs.closedTrades, hw]
    exact hQ
  order o b hQ := by
    rw [(hh.order o b).quiet.closedTrades]
    exact horder _ o b hQ
  hook side size k b hQ := hhook _ side size k b hQ
  book feed bar i o price b hQ := by
    rcases book_factor feed bar b i o price with ⟨b2, -, -, hc, h2⟩ | ⟨t, orig, b1, G, -, -, hc, hG, -, h1⟩
    · have hbook : b.book h feed bar i o price = b2.capture b.world := h2 h feed b.world rfl
      rw [hbook, show (b2.capture b.world).closedTrades = b.closedTrades from hc]
      exact hQ
    · have hbook : b.book h feed bar i o price = G (h.tradeNotify t orig (b1.capture b.world)) := h1 h feed b.world rfl
      obtain ⟨hGw, -, hGc⟩ := hG (h.tradeNotify t orig (b1.capture b.world))
      rw [hbook, hGw, hGc, (hh.trade t orig _).quiet.closedTrades, show (b1.capture b.world).closedTrades = _ from hc]
      exact htrade _ t orig _ hQ

/-! ### The candidate ids of trades -/

/-- The candidate ids of all trades. -/
def tradeIds (b : BackBroker α W) : List Nat := (b.openTrades ++ b.closedTrades).map (·.1.candidateId)

omit [Arith α] in
theorem mem_tradeIds {b : BackBroker α W} {id : Nat} :
    id ∈ b.tradeIds ↔ id ∈ b.openTrades.map (·.1.candidateId) ∨ id ∈ b.closedTrades.map (·.1.candidateId) := by
  rw [tradeIds, List.map_append, List.mem_append]

/-- Whether `update_trades` opens a trade for a fill that meets a position of size `old`. -/
def OpensTrade (b : BackBroker α W) (k : Nat) (old s : α) : Prop :=
  Arith.abs old < 1e-10 ∨ ¬ ((0 < old ∧ 0 < s) ∨ (old < 0 ∧ s < 0)) ∧
    ∃ x, b.openTrades[b.openTradeIdx k]? = some x ∧ Arith.abs x.1.size < Arith.abs s

variable {b : BackBroker α W} {id i : Nat}

theorem mem_tradeIds_openTrade (k : Nat) (s p c : α) (bar : Nat) (dt : DateTime) (cand : Nat) :
    id ∈ (b.openTrade k s p c bar dt cand).tradeIds ↔ id ∈ b.tradeIds ∨ cand = id := by
  rw [mem_tradeIds, mem_tradeIds]
  show id ∈ (b.openTrades ++ [_]).map _ ∨ id ∈ b.closedTrades.map _ ↔ _
  rw [List.map_append, List.mem_append, List.map_singleton, List.mem_singleton, Trade.candidateId_update, or_right_comm]
  exact or_congr_right eq_comm

omit [Arith α] in
/-- Another trade in place of one of the same candidate. -/
theorem map_set_candidateId {xs : List (Trade α × α)} {x y : Trade α × α} (hx : xs[i]? = some x)
    (hid : y.1.candidateId = x.1.candidateId) : (xs.set i y).map (·.1.candidateId) = xs.map (·.1.candidateId) := by
  obtain ⟨l₁, l₂, rfl, rfl⟩ := split_get hx
  rw [List.set_append_right _ _ (le_refl _), Nat.sub_self, List.set_cons_zero]
  simp [hid]

omit [Arith α] in
/-- A trade that is closed stays among the trades. -/
theorem mem_tradeIds_retireTrade (t : Trade α) (orig : α) {x : Trade α × α} (hx : b.openTrades[i]? = some x)
    (hid : t.candidateId = x.1.candidateId) : id ∈ (b.retireTrade Hooks.none i t orig).tradeIds ↔ id ∈ b.tradeIds := by
  rw [mem_tradeIds, mem_tradeIds]
  show id ∈ ((b.openTrades.set i (t, orig)).eraseIdx i).map _ ∨ id ∈ (b.closedTrades ++ [(t, orig)]).map _ ↔ _
  obtain ⟨l₁, l₂, hl, hi⟩ := split_get hx
  rw [hl, ← hi, List.set_append_right _ _ (le_refl _), Nat.sub_self, List.set_cons_zero,
    List.eraseIdx_append_of_length_le (le_refl _), Nat.sub_self, List.eraseIdx_cons_zero]
  simp only [List.map_append, List.map_cons, List.map_nil, List.mem_append, List.mem_cons, List.not_mem_nil, or_false, hid]
  tauto

/-- A fill leaves the candidates their trades, and gives one to its own if it opens one. -/
theorem mem_tradeIds_updateTrades (b : BackBroker α W) (k : Nat) (old s p c : α) (bar : Nat) (dt : DateTime) (cand : Nat) :
    id ∈ (b.updateTrades Hooks.none k old s p c bar dt cand).tradeIds ↔ id ∈ b.tradeIds ∨ cand = id ∧ b.OpensTrade k old s := by
  unfold updateTrades OpensTrade
  dsimp only
  by_cases h0 : Arith.abs old < 1e-10
  · rw [if_pos h0, mem_tradeIds_openTrade]
    simp [h0]
  rw [if_neg h0]
  by_cases hsame : (0 < old ∧ 0 < s) ∨ (old < 0 ∧ s < 0)
  · rw [if_pos hsame]
    simp only [h0, hsame, not_true, false_and, or_false, and_false]
    rw [mem_tradeIds, mem_tradeIds]
    show id ∈ (b.openTrades.modify _ _).map _ ∨ id ∈ b.closedTrades.map _ ↔ _
    cases hx : b.openTrades[b.openTradeIdx k]? with
    | none => rw [List.modify_eq_self (List.getElem?_eq_none_iff.1 hx)]
    | some x =>
      rw [List.modify_eq_set_getElem?, hx]
      show id ∈ (b.openTrades.set _ _).map _ ∨ _ ↔ _
      rw [map_set_candidateId hx (Trade.candidateId_update ..)]
  rw [if_neg hsame]
  cases hx : b.openTrades[b.openTradeIdx k]? with
  | none => simp [h0]
  | some x =>
    obtain ⟨t, orig⟩ := x
    dsimp only
    by_cases hflip : Arith.abs t.size < Arith.abs s
    · rw [if_pos hflip, mem_tradeIds_openTrade, mem_tradeIds_retireTrade _ _ hx (Trade.candidateId_update ..)]
      simp [hsame, hflip]
    · rw [if_neg hflip]
      have hno : ¬ (cand = id ∧ (Arith.abs old < 1e-10 ∨ ¬ ((0 < old ∧ 0 < s) ∨ (old < 0 ∧ s < 0)) ∧
          ∃ x, some (t, orig) = some x ∧ Arith.abs x.1.size < Arith.abs s)) := by
        rintro ⟨-, h | ⟨-, x, heq, h⟩⟩
        · exact h0 h
        · cases heq
          exact hflip h
      rw [or_iff_left hno]
      split_ifs
      · exact mem_tradeIds_retireTrade _ _ hx (Trade.candidateId_update ..)
      · rw [mem_tradeIds, mem_tradeIds]
        show id ∈ (b.openTrades.set _ _).map _ ∨ id ∈ b.closedTrades.map _ ↔ _
        rw [map_set_candidateId hx (Trade.candidateId_update ..)]

end BackBroker

/-! ### The fills that open a trade -/

/-- A clean fill of a position of size `size` opens a trade. -/
def Opens (size fill : ℚ) : Prop :=
  |size| < 1e-10 ∨ ¬ ((0 < size ∧ 0 < fill) ∨ (size < 0 ∧ fill < 0)) ∧ |size| < |fill|

instance (size fill : ℚ) : Decidable (Opens size fill) :=
  inferInstanceAs (Decidable (|size| < 1e-10 ∨ ¬ ((0 < size ∧ 0 < fill) ∨ (size < 0 ∧ fill < 0)) ∧ |size| < |fill|))

namespace BackBroker

/-- One of the fills is of an order of the candidate and opens a trade. -/
def OpenedBy (im : Nat → Option (Instrument ℚ)) (xs : List (Execution ℚ)) (id : Nat) : Prop :=
  ∃ pre x post, xs = pre ++ x :: post ∧ x.order.candidateId = id ∧
    Opens (replayPosition im x.order.dataIndex pre).size x.size

variable {im : Nat → Option (Instrument ℚ)} {xs : List (Execution ℚ)} {x : Execution ℚ} {id : Nat} {b b₀ : BackBroker ℚ W}

theorem openedBy_append : OpenedBy im (xs ++ [x]) id ↔ OpenedBy im xs id ∨
    x.order.candidateId = id ∧ Opens (replayPosition im x.order.dataIndex xs).size x.size := by
  constructor
  · rintro ⟨pre, y, post, heq, hid, hopens⟩
    rcases List.eq_nil_or_concat post with rfl | ⟨post, z, rfl⟩
    · obtain ⟨rfl, hy⟩ := List.append_inj' heq rfl
      cases hy
      exact .inr ⟨hid, hopens⟩
    · rw [List.concat_eq_append, ← List.cons_append, ← List.append_assoc] at heq
      exact .inl ⟨pre, y, post, (List.append_inj' heq rfl).1, hid, hopens⟩
  · rintro (⟨pre, y, post, rfl, hid, hopens⟩ | ⟨hid, hopens⟩)
    · exact ⟨pre, y, post ++ [x], by simp, hid, hopens⟩
    · exact ⟨xs, x, [], rfl, hid, hopens⟩

/-- Where the trades are the positions, the position decides. -/
theorem Balanced.opensTrade (hb : b.Balanced) (k : Nat) (s : ℚ) :
    b.OpensTrade k (b.holding k).size s ↔ Opens (b.holding k).size s := by
  unfold OpensTrade Opens
  simp only [Arith.abs_rat]
  refine or_congr_right' fun hbig => and_congr_right fun hside => ?_
  rcases (hb.lots k).cases with ⟨-, h0, -⟩ | ⟨t, orig, hone, ht⟩
  · rw [h0, abs_zero] at hbig
    norm_num at hbig
  · obtain ⟨l, l', hlist, hidx, -⟩ := openTradeIdx_of_openOf hone ht.status
    have hget : b.openTrades[b.openTradeIdx k]? = some (t, orig) := by rw [hlist, hidx]; simp
    rw [hget]
    simp [ht.size]

theorem mem_tradeIds_enter (hb : b.Balanced) (x : Execution ℚ) (dt : DateTime) : id ∈ (b.enter x dt).tradeIds ↔
    id ∈ b.tradeIds ∨ x.order.candidateId = id ∧ Opens (b.holding x.order.dataIndex).size x.size := by
  let k := x.order.dataIndex
  let b1 := (b.pay x.currency (x.size * x.price + x.commission)).ensurePosition k
  have hold : (b1.position k).size = (b.holding k).size := by
    rw [position_size, show b1.holding k = b.holding k from
      @holding_ensured _ _ _ (b.pay x.currency (x.size * x.price + x.commission)) b1 rfl ⟨[k], rfl⟩ k]
  unfold enter
  dsimp only
  rw [mem_tradeIds_updateTrades, hold, ← hb.opensTrade]
  rfl

/-- After every run of clean fills, the candidates that have trades are those whose fill has opened one. -/
theorem kept_tradeIds (b₀ : BackBroker ℚ W) : Kept fun b : BackBroker ℚ W => Replayed b₀ b ∧
    (FillsMeet b₀.instrumentMap Clean b.executions → b.Balanced ∧
      ∀ id, id ∈ b.tradeIds ↔ OpenedBy b₀.instrumentMap b.executions id) where
  same b b' hs h := by
    refine ⟨(kept_replayed b₀).same b b' hs h.1, fun hc => ?_⟩
    obtain ⟨hb, hids⟩ := h.2 (hs.executions ▸ hc)
    refine ⟨hs.balanced hb, fun id => ?_⟩
    rw [hs.executions, tradeIds, hs.openTrades, hs.closedTrades]
    exact hids id
  enter b x dt hx h := by
    refine ⟨(kept_replayed b₀).enter b x dt hx h.1, fun hc => ?_⟩
    rw [enter_executions] at hc
    obtain ⟨hbefore, hclean⟩ := hc.of_append
    obtain ⟨hb, hids⟩ := h.2 hbefore
    rw [← h.1.holding] at hclean
    refine ⟨(hb.enter x dt hclean).1, fun id => ?_⟩
    rw [mem_tradeIds_enter hb, enter_executions, openedBy_append, hids, ← h.1.holding]

end BackBroker

end StratForge
