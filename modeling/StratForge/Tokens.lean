import StratForge.TradeBook

/-!
# Candidate ids as tokens

The pre-order hook gives an order a candidate id, and the fill of the order may give it to the trade that it opens.
Each id is a token: it is never with two orders and trades at once, and what is captured takes it back from a trade
that closes at most as often as it has handed it out. `held` is how often what is captured has a token, `quota` how
often it may be about.

`Adds` is what commands and callbacks do, `Solvent` what every run keeps.
-/

namespace StratForge

variable {α W : Type}

/-! ### What keeps the candidate id -/

@[simp] theorem Order.candidateId_setStatus (o : Order α) (s : OrderStatus) : (o.setStatus s).candidateId = o.candidateId := by
  unfold Order.setStatus
  split <;> rfl

@[simp] theorem Order.candidateId_execute (o : Order α) (p s c : α) : (o.execute p s c).candidateId = o.candidateId := by
  unfold Order.execute
  split <;> rfl

theorem Trade.candidateId_update [Arith α] (t : Trade α) (s p c : α) (bar : Nat) (dt : DateTime) :
    (t.update s p c bar dt).candidateId = t.candidateId := by
  have hstamp : ∀ (t : Trade α) old, (t.stampEntry old bar dt).candidateId = t.candidateId := fun t old => by
    unfold Trade.stampEntry
    dsimp only
    split <;> rfl
  have hreprice : ∀ (t : Trade α) old, (t.reprice old s p).candidateId = t.candidateId := fun t old => by
    unfold Trade.reprice
    split_ifs <;> rfl
  have henter : ∀ t : Trade α, (t.enterAt p).candidateId = t.candidateId := fun t => by
    unfold Trade.enterAt
    split <;> rfl
  have hfinish : ∀ t : Trade α, (t.finish p bar dt).candidateId = t.candidateId := fun t => by
    unfold Trade.finish
    split <;> rfl
  by_cases h : Arith.abs s < 1e-10
  · rw [Trade.update_negligible t s p c bar dt h]
  · rw [Trade.update_eq t s p c bar dt h, hfinish, henter]
    exact (hreprice _ _).trans (hstamp _ _)

namespace BackBroker

/-! ### Where the tokens are -/

/-- The candidate ids of the pending orders. -/
def tags (b : BackBroker α W) : List Nat := b.pendingOrders.map (·.candidateId)

/-- How many of the pending orders from `j` on carry a token. -/
def carried (b : BackBroker α W) (j c : Nat) : Nat := (b.tags.drop j).count c

/-- How many of the trades that are open have a token. -/
def traded (b : BackBroker α W) (c : Nat) : Nat := b.openTrades.countP fun t => t.1.isOpen && t.1.candidateId == c

theorem tags_modify {os : List (Order α)} {i : Nat} {f : Order α → Order α} (hf : ∀ o, (f o).candidateId = o.candidateId) :
    (os.modify i f).map (·.candidateId) = os.map (·.candidateId) := by
  refine List.ext_getElem (by simp) fun j h1 h2 => ?_
  simp only [List.getElem_map, List.getElem_modify]
  split_ifs
  exacts [hf _, rfl]

variable (held quota : W → Nat → Nat)

/-- No trade changes, and pending orders come to the end, with tokens that what is captured hands out; it may take back
`given`. -/
structure Adds (given : Nat → Nat) (b b' : BackBroker α W) : Prop where
  openTrades : b'.openTrades = b.openTrades
  pending : ∃ new : List Nat, b'.tags = b.tags ++ new ∧
    ∀ c ≠ 0, new.count c + held b'.world c + quota b.world c ≤ held b.world c + quota b'.world c + given c

/-- Nothing is taken back. -/
def nothing (_ : Nat) : Nat := 0

/-- A closed trade gives its token back. -/
def tokenOf (t : Trade α) (c : Nat) : Nat := if t.isClosed = true ∧ t.candidateId = c then 1 else 0

variable {held quota} {given : Nat → Nat} {b b' b'' : BackBroker α W}

namespace Adds

theorem of_eq (ho : b'.openTrades = b.openTrades) (hp : b'.tags = b.tags) (hw : b'.world = b.world) :
    Adds held quota given b b' := by
  refine ⟨ho, [], by rw [hp, List.append_nil], fun c _ => ?_⟩
  rw [hw, List.count_nil]
  omega

theorem refl (b : BackBroker α W) : Adds held quota given b b := of_eq rfl rfl rfl

theorem trans (h : Adds held quota nothing b b') (h' : Adds held quota given b' b'') : Adds held quota given b b'' := by
  obtain ⟨new, htags, hcount⟩ := h.pending
  obtain ⟨new', htags', hcount'⟩ := h'.pending
  refine ⟨h'.openTrades.trans h.openTrades, new ++ new', by rw [htags', htags, List.append_assoc], fun c hc => ?_⟩
  have h1 : _ ≤ _ + 0 := hcount c hc
  have h2 := hcount' c hc
  rw [List.count_append]
  omega

theorem length_le (h : Adds held quota given b b') : b.pendingOrders.length ≤ b'.pendingOrders.length := by
  obtain ⟨new, htags, -⟩ := h.pending
  have := congrArg List.length htags
  simp only [tags, List.length_append, List.length_map] at this
  omega

/-- The balance from a position on. -/
theorem carried (h : Adds held quota given b b') {j c : Nat} (hj : j ≤ b.pendingOrders.length) (hc : c ≠ 0) :
    b'.carried j c + held b'.world c + quota b.world c ≤ b.carried j c + held b.world c + quota b'.world c + given c := by
  obtain ⟨new, htags, hcount⟩ := h.pending
  have := hcount c hc
  unfold BackBroker.carried
  rw [htags, List.drop_append_of_le_length (by simpa [tags] using hj), List.count_append]
  omega

theorem traded (h : Adds held quota given b b') (c : Nat) : b'.traded c = b.traded c := by
  unfold BackBroker.traded
  rw [h.openTrades]

theorem edit (b : BackBroker α W) (i : Nat) {f : Order α → Order α} (hf : ∀ o, (f o).candidateId = o.candidateId) :
    Adds held quota given b (b.edit i f) := of_eq rfl (tags_modify hf) rfl

theorem sync (b : BackBroker α W) (i : Nat) : Adds held quota given b (b.sync i) := by
  unfold BackBroker.sync
  split
  exacts [of_eq rfl rfl rfl, refl b]

end Adds

/-! ### Commands -/

variable (held quota) in
/-- Hooks that hand out no more tokens than there are. -/
structure Honest (h : Hooks α W) : Prop where
  order : ∀ o b, Adds held quota nothing b (h.orderNotify o b)
  trade : ∀ t s b, Adds held quota (tokenOf t) b (h.tradeNotify t s b)
  hook : ∀ side size k (b : BackBroker α W), ∀ c ≠ 0,
    (if (h.preOrderHook side size k b).1.rejected then 0 else
      if (h.preOrderHook side size k b).1.candidateId = c then 1 else 0) +
      held (h.preOrderHook side size k b).2 c + quota b.world c ≤
      held b.world c + quota (h.preOrderHook side size k b).2 c

namespace Honest
variable {h : Hooks α W}

theorem publish (horder : ∀ o b, Adds held quota nothing b (h.orderNotify o b)) (b : BackBroker α W) (i : Nat)
    {f : Order α → Order α} (hf : ∀ o, (f o).candidateId = o.candidateId) :
    Adds held quota nothing b (BackBroker.notify h ((b.edit i f).sync i) i) := by
  refine ((Adds.edit b i hf).trans (.sync _ i)).trans ?_
  unfold BackBroker.notify
  split
  exacts [horder _ _, .refl _]

variable [Arith α] (hh : Honest held quota h)
include hh

omit [Arith α] in
theorem cancelAt (p : Order α → Bool) (byUser : Bool) (b : BackBroker α W) (i : Nat) :
    Adds held quota nothing b (b.cancelAt h p byUser i) := by
  have hc : ∀ o : Order α, o.cancel.candidateId = o.candidateId := fun o => o.candidateId_setStatus _
  have hnote : ∀ n, Adds held quota nothing b (b.note n) := fun n => .of_eq rfl rfl rfl
  unfold BackBroker.cancelAt
  split
  · dsimp only
    split_ifs
    · exact (hnote _).trans (publish hh.order _ i hc)
    · exact publish hh.order b i hc
    · exact .refl b
  · exact .refl b

omit [Arith α] in
theorem cancelPending (p : Order α → Bool) (byUser : Bool) (b : BackBroker α W) :
    Adds held quota nothing b (b.cancelPending h p byUser) :=
  Fold.foldl_ind (Adds held quota nothing b) _ b (.refl b) fun b' i _ hb => hb.trans (hh.cancelAt p byUser b' i)

theorem submitOrderExt (side : OrderSide) (size : α) (params : OrderParams α) (b : BackBroker α W) :
    Adds held quota nothing b (b.submitOrderExt h side size params).2 := by
  have hhook := hh.hook side size params.dataIndex b
  unfold BackBroker.submitOrderExt
  generalize h.preOrderHook side size params.dataIndex b = r at hhook ⊢
  rcases r with ⟨por, world⟩
  dsimp only at hhook ⊢
  split_ifs with hrej
  · refine ⟨rfl, [], (List.append_nil _).symm, fun c hc => ?_⟩
    have := hhook c hc
    rw [if_pos hrej] at this
    rw [List.count_nil]
    show _ ≤ _ + 0
    omega
  · refine ⟨rfl, [por.candidateId], List.map_append .., fun c hc => ?_⟩
    have := hhook c hc
    rw [if_neg hrej] at this
    rw [List.count_singleton, show (por.candidateId == c) = decide (por.candidateId = c) from rfl]
    simp only [decide_eq_true_eq]
    exact this

theorem bracket (mainSide legSide : OrderSide) (size limitPrice stopPrice : α) (k : Nat) (b : BackBroker α W) :
    Adds held quota nothing b (b.bracket h mainSide legSide size limitPrice stopPrice k).2 := by
  have hgroup : Adds held quota nothing b { b with nextOcoGroupId := b.nextOcoGroupId + 1 } := .of_eq rfl rfl rfl
  have hlink : ∀ (b : BackBroker α W) id ids, Adds held quota nothing b (b.linkChildren id ids) := fun b id ids =>
    .of_eq rfl (tags_modify fun _ => rfl) rfl
  unfold BackBroker.bracket submitOrder
  dsimp only
  refine .trans ?_ (hlink _ _ _)
  refine .trans ?_ (hh.submitOrderExt _ _ _ _)
  refine .trans ?_ (hh.submitOrderExt _ _ _ _)
  exact hgroup.trans (hh.submitOrderExt _ _ _ _)

theorem close (k : Nat) (b : BackBroker α W) : Adds held quota nothing b (b.close h k).2 := by
  have hpos : Adds held quota nothing b (b.ensurePosition k) := .of_eq rfl rfl rfl
  unfold BackBroker.close submitOrder
  dsimp only
  split_ifs
  exacts [hpos, hpos.trans (hh.submitOrderExt _ _ _ _), hpos.trans (hh.submitOrderExt _ _ _ _)]

theorem exec (cmd : Cmd α) (b : BackBroker α W) : Adds held quota nothing b (b.exec h cmd) := by
  cases cmd with
  | buy | sell | buyExt | sellExt => exact hh.submitOrderExt _ _ _ _
  | buyBracket | sellBracket => exact hh.bracket _ _ _ _ _ _ _
  | close k => exact hh.close k b
  | cancelOrder id => exact hh.cancelPending _ _ b
  | nextOcoGroup => exact .of_eq rfl rfl rfl

end Honest

/-! ### Fills -/

variable (held quota) in
/-- Tokens go from what is captured to orders and trades and back, and `given` come from elsewhere. -/
structure Flows (given : Nat → Nat) (b b' : BackBroker α W) : Prop where
  length_le : b.pendingOrders.length ≤ b'.pendingOrders.length
  balance : ∀ j ≤ b.pendingOrders.length, ∀ c ≠ 0, b'.traded c + b'.carried j c + held b'.world c + quota b.world c ≤
    b.traded c + b.carried j c + held b.world c + quota b'.world c + given c

theorem Adds.flows (h : Adds held quota given b b') : Flows held quota given b b' := by
  refine ⟨h.length_le, fun j hj c hc => ?_⟩
  have := h.carried hj hc
  rw [h.traded]
  omega

theorem Flows.trans {given' : Nat → Nat} (h : Flows held quota given b b') (h' : Flows held quota given' b' b'') :
    Flows held quota (fun c => given c + given' c) b b'' := by
  refine ⟨h.length_le.trans h'.length_le, fun j hj c hc => ?_⟩
  have h1 := h.balance j hj c hc
  have h2 := h'.balance j (hj.trans h.length_le) c hc
  omega

theorem Flows.mono {given' : Nat → Nat} (h : Flows held quota given b b') (hle : ∀ c, given c ≤ given' c) :
    Flows held quota given' b b' := by
  refine ⟨h.length_le, fun j hj c hc => ?_⟩
  have := h.balance j hj c hc
  have := hle c
  omega

/-- One trade out of the list. -/
theorem split_get {A : Type} {l : List A} {i : Nat} {x : A} (h : l[i]? = some x) :
    ∃ l₁ l₂, l = l₁ ++ x :: l₂ ∧ l₁.length = i := by
  obtain ⟨hi, rfl⟩ := List.getElem?_eq_some_iff.1 h
  refine ⟨l.take i, l.drop (i + 1), ?_, List.length_take_of_le hi.le⟩
  rw [← List.drop_eq_getElem_cons hi, List.take_append_drop]

/-- Whether an open trade has a token. -/
def hasToken (c : Nat) (t : Trade α × α) : Bool := t.1.isOpen && t.1.candidateId == c

theorem traded_eq (b : BackBroker α W) (c : Nat) : b.traded c = b.openTrades.countP (hasToken c) := rfl

/-- The trade at an index of open trades is open. -/
theorem isOpen_of_openTradeIdx [Arith α] {k : Nat} {x : Trade α × α} (h : b.openTrades[b.openTradeIdx k]? = some x) :
    x.1.isOpen = true := by
  obtain ⟨hi, rfl⟩ := List.getElem?_eq_some_iff.1 h
  have := List.findIdx_getElem (p := fun t : Trade α × α => t.1.dataIndex == k && t.1.isOpen) (w := hi)
  rw [Bool.and_eq_true] at this
  exact this.2

/-- A fill that an open trade takes leaves its token with it or drops it. -/
theorem hasToken_le {c : Nat} {x y : Trade α × α} (hopen : x.1.isOpen = true) (hid : y.1.candidateId = x.1.candidateId) :
    (if hasToken c y then 1 else 0) ≤ if hasToken c x then 1 else 0 := by
  unfold hasToken
  rw [hopen, hid]
  cases y.1.isOpen <;> simp

theorem tokenOf_le {c : Nat} {t : Trade α} {x : Trade α × α} (hopen : x.1.isOpen = true)
    (hid : t.candidateId = x.1.candidateId) : tokenOf t c ≤ if hasToken c x then 1 else 0 := by
  unfold hasToken tokenOf
  rw [hopen, hid]
  split_ifs with h1 h2
  · exact le_refl 1
  · simp [h1.2] at h2
  · exact Nat.zero_le _
  · exact le_refl 0

section
variable [Arith α] {h : Hooks α W} (hh : Honest held quota h)

/-- A new trade. -/
theorem openTrade_flows (b : BackBroker α W) (k : Nat) (s p cm : α) (bar : Nat) (dt : DateTime) (cand : Nat) :
    Flows held quota (fun c => if cand = c then 1 else 0) b (b.openTrade k s p cm bar dt cand) := by
  refine ⟨le_refl _, fun j _ c _ => ?_⟩
  have hnew : (b.openTrade k s p cm bar dt cand).traded c ≤ b.traded c + if cand = c then 1 else 0 := by
    show (b.openTrades ++ [_]).countP (hasToken c) ≤ _
    rw [List.countP_append, List.countP_singleton, ← traded_eq]
    refine Nat.add_le_add_left ?_ _
    unfold hasToken
    rw [Trade.candidateId_update]
    split_ifs with h1 h2
    · exact le_refl 1
    · simp only [Bool.and_eq_true, beq_iff_eq] at h1
      exact absurd h1.2 h2
    · exact Nat.zero_le _
    · exact le_refl 0
  have hsame : (b.openTrade k s p cm bar dt cand).carried j c = b.carried j c := rfl
  have hworld : (b.openTrade k s p cm bar dt cand).world = b.world := rfl
  rw [hsame, hworld]
  omega

omit [Arith α] in
/-- Another trade in place of an open one, with the same token. -/
theorem set_flows (b : BackBroker α W) {i : Nat} {x : Trade α × α} (y : Trade α × α) (hx : b.openTrades[i]? = some x)
    (hopen : x.1.isOpen = true) (hid : y.1.candidateId = x.1.candidateId) :
    Flows held quota nothing b { b with openTrades := b.openTrades.set i y } := by
  refine ⟨le_refl _, fun j _ c _ => ?_⟩
  obtain ⟨l₁, l₂, hl, hi⟩ := split_get hx
  have hle : ({ b with openTrades := b.openTrades.set i y } : BackBroker α W).traded c ≤ b.traded c := by
    show (b.openTrades.set i y).countP (hasToken c) ≤ b.openTrades.countP (hasToken c)
    rw [hl, ← hi, List.set_append_right _ _ (le_refl _), Nat.sub_self, List.set_cons_zero, List.countP_append,
      List.countP_append, List.countP_cons, List.countP_cons]
    have := hasToken_le (c := c) hopen hid
    omega
  have hsame : ({ b with openTrades := b.openTrades.set i y } : BackBroker α W).carried j c = b.carried j c := rfl
  rw [hsame]
  show _ + _ + held b.world c + _ ≤ _ + _ + _ + quota b.world c + 0
  omega

omit [Arith α] in
include hh in
/-- A trade that is closed leaves its token to what is captured, if anything. -/
theorem retireTrade_flows (b : BackBroker α W) {i : Nat} {x : Trade α × α} (t : Trade α) (orig : α)
    (hx : b.openTrades[i]? = some x) (hopen : x.1.isOpen = true) (hid : t.candidateId = x.1.candidateId) :
    Flows held quota nothing b (b.retireTrade h i t orig) := by
  let b1 : BackBroker α W :=
    { b with openTrades := b.openTrades.set i (t, orig), closedTrades := b.closedTrades ++ [(t, orig)] }
  have hcall : Adds held quota (tokenOf t) b1 (h.tradeNotify t orig b1) := hh.trade t orig b1
  have hret : b.retireTrade h i t orig =
      { h.tradeNotify t orig b1 with openTrades := (h.tradeNotify t orig b1).openTrades.eraseIdx i } := rfl
  rw [hret]
  refine ⟨hcall.length_le, fun j hj c hc => ?_⟩
  have hpend := hcall.carried (b := b1) (j := j) hj hc
  obtain ⟨l₁, l₂, hl, hi⟩ := split_get hx
  have hgone : ({ h.tradeNotify t orig b1 with openTrades := (h.tradeNotify t orig b1).openTrades.eraseIdx i } :
      BackBroker α W).traded c + tokenOf t c ≤ b.traded c := by
    show ((h.tradeNotify t orig b1).openTrades.eraseIdx i).countP (hasToken c) + _ ≤ b.openTrades.countP (hasToken c)
    rw [hcall.openTrades]
    show ((b.openTrades.set i (t, orig)).eraseIdx i).countP (hasToken c) + _ ≤ _
    rw [hl, ← hi, List.set_append_right _ _ (le_refl _), Nat.sub_self, List.set_cons_zero,
      List.eraseIdx_append_of_length_le (le_refl _), Nat.sub_self, List.eraseIdx_cons_zero, List.countP_append,
      List.countP_append, List.countP_cons]
    have := tokenOf_le (c := c) hopen hid
    omega
  have hcarried : b1.carried j c = b.carried j c := rfl
  rw [hcarried] at hpend
  show _ + (h.tradeNotify t orig b1).carried j c + held (h.tradeNotify t orig b1).world c + _ ≤
    _ + _ + _ + quota (h.tradeNotify t orig b1).world c + 0
  have hworld : b1.world = b.world := rfl
  rw [hworld] at hpend
  omega

include hh in
theorem updateTrades_flows (b : BackBroker α W) (k : Nat) (old s p cm : α) (bar : Nat) (dt : DateTime) (cand : Nat) :
    Flows held quota (fun c => if cand = c then 1 else 0) b (b.updateTrades h k old s p cm bar dt cand) := by
  have hno : ∀ {b b' : BackBroker α W}, Flows held quota nothing b b' →
      Flows held quota (fun c => if cand = c then 1 else 0) b b' := fun h => h.mono fun c => Nat.zero_le _
  unfold updateTrades
  dsimp only
  split_ifs
  · exact openTrade_flows ..
  · cases hx : b.openTrades[b.openTradeIdx k]? with
    | none =>
      rw [List.modify_eq_self (List.getElem?_eq_none_iff.1 hx)]
      exact hno (Adds.refl b).flows
    | some x =>
      rw [List.modify_eq_set_getElem?, hx]
      exact hno (set_flows b _ hx (isOpen_of_openTradeIdx hx) (Trade.candidateId_update ..))
  · split
    · exact hno (Adds.refl b).flows
    · rename_i t orig hx
      have hopen := isOpen_of_openTradeIdx hx
      split_ifs
      · exact ((retireTrade_flows hh b _ orig hx hopen (Trade.candidateId_update ..)).trans (openTrade_flows ..)).mono
          fun c => by show 0 + _ ≤ _; omega
      · exact hno (retireTrade_flows hh b _ orig hx hopen (Trade.candidateId_update ..))
      · exact hno (set_flows b _ hx hopen (Trade.candidateId_update ..))

omit [Arith α] in
theorem tags_write {i : Nat} {o o' : Order α} (ho : b.pendingOrders[i]? = some o) (hid : o'.candidateId = o.candidateId) :
    (b.edit i fun _ => o').tags = b.tags := by
  refine List.ext_getElem? fun j => ?_
  show ((b.pendingOrders.modify i fun _ => o').map (·.candidateId))[j]? = (b.pendingOrders.map (·.candidateId))[j]?
  rw [List.getElem?_map, List.getElem?_map, List.getElem?_modify]
  split_ifs with hij
  · rw [← hij, ho]
    exact congrArg some hid
  · cases b.pendingOrders[j]? <;> rfl

include hh in
/-- A fill takes the token of its order. -/
theorem book_flows (feed : DataFeed α) (bar : Row α) (b : BackBroker α W) (i : Nat) (o : Order α) (price : α)
    (ho : b.pendingOrders[i]? = some o) :
    Flows held quota (fun c => if o.candidateId = c then 1 else 0) b (b.book h feed bar i o price) := by
  have hsync : ∀ b : BackBroker α W, Flows held quota nothing b (b.sync i) := fun b => (Adds.sync b i).flows
  have hpaid : ∀ b₁ : BackBroker α W, b₁.openTrades = b.openTrades → b₁.pendingOrders = (b.edit i fun _ =>
      o.execute price o.size (b.fillCommission o price)).pendingOrders → b₁.world = b.world → Flows held quota nothing b b₁ :=
    fun b₁ ht hp hw => (Adds.of_eq ht ((congrArg _ hp).trans (tags_write ho (o.candidateId_execute ..))) hw).flows
  unfold book
  dsimp only
  refine (((hpaid _ ?_ ?_ ?_).trans (updateTrades_flows hh ..)).trans (hsync _)).mono fun c => ?_
  · rfl
  · rfl
  · rfl
  · show 0 + _ + 0 ≤ _
    omega

end

/-! ### Passes -/

variable (held quota) in
/-- Before turn `i` of a pass over `n` orders the tokens with the kept orders, the orders to come and the open trades
are within the quota. -/
structure Sound (n : Nat) (p : Pass α W) (i : Nat) : Prop where
  le : n ≤ p.broker.pendingOrders.length
  balance : ∀ c ≠ 0, (p.stillPending.map (·.candidateId)).count c + p.broker.carried i c + p.broker.traded c +
    held p.broker.world c ≤ quota p.broker.world c

namespace Sound
variable {p : Pass α W} {n i : Nat}

theorem flows (hp : Sound held quota n p i) (hi : i ≤ n) {b' : BackBroker α W} (hf : Flows held quota nothing p.broker b') :
    Sound held quota n { p with broker := b' } i := by
  refine ⟨hp.le.trans hf.length_le, fun c hc => ?_⟩
  have h1 := hp.balance c hc
  have h2 : _ ≤ _ + 0 := hf.balance i (hi.trans hp.le) c hc
  show (p.stillPending.map (·.candidateId)).count c + b'.carried i c + b'.traded c + held b'.world c ≤ quota b'.world c
  omega

theorem adds (hp : Sound held quota n p i) (hi : i ≤ n) {b' : BackBroker α W} (hf : Adds held quota nothing p.broker b') :
    Sound held quota n { p with broker := b' } i := hp.flows hi hf.flows

/-- The order at hand and those after it. -/
theorem carried_split {o : Order α} (ho : b.pendingOrders[i]? = some o) (c : Nat) :
    b.carried i c = (if o.candidateId = c then 1 else 0) + b.carried (i + 1) c := by
  unfold BackBroker.carried
  have htag : b.tags[i]? = some o.candidateId := by rw [tags, List.getElem?_map, ho]; rfl
  obtain ⟨hi, hget⟩ := List.getElem?_eq_some_iff.1 htag
  rw [List.drop_eq_getElem_cons hi, hget, List.count_cons]
  simp only [beq_iff_eq]
  omega

/-- The order at hand is done with. -/
theorem next (hp : Sound held quota n p i) : Sound held quota n p (i + 1) := by
  refine ⟨hp.le, fun c hc => ?_⟩
  have h := hp.balance c hc
  have hle : p.broker.carried (i + 1) c ≤ p.broker.carried i c := by
    unfold BackBroker.carried
    rw [← List.drop_drop]
    exact (List.drop_sublist _ _).count_le c
  omega

/-- The order at hand is kept. -/
theorem keep (hp : Sound held quota n p i) : Sound held quota n (p.keep i) (i + 1) := by
  unfold Pass.keep
  split
  · rename_i o ho
    refine ⟨hp.le, fun c hc => ?_⟩
    have h := hp.balance c hc
    rw [carried_split ho] at h
    show ((p.stillPending ++ [o]).map _).count c + _ + _ + _ ≤ _
    rw [List.map_append, List.count_append, List.map_singleton, List.count_singleton]
    simp only [beq_iff_eq]
    omega
  · exact hp.next

variable [Arith α] {h : Hooks α W} (hh : Honest held quota h)
include hh

/-- The order at hand is filled. -/
theorem book (hp : Sound held quota n p i) (hi : i < n) (feed : DataFeed α) (bar : Row α) (o : Order α) (price : α)
    (ho : p.broker.pendingOrders[i]? = some o) :
    Sound held quota n { p with broker := p.broker.book h feed bar i o price } (i + 1) := by
  have hf := book_flows hh feed bar p.broker i o price ho
  refine ⟨hp.le.trans hf.length_le, fun c hc => ?_⟩
  have h1 := hp.balance c hc
  have h2 := hf.balance (i + 1) (by have := hp.le; omega) c hc
  rw [carried_split ho] at h1
  show (p.stillPending.map (·.candidateId)).count c + (p.broker.book h feed bar i o price).carried (i + 1) c +
    (p.broker.book h feed bar i o price).traded c + held (p.broker.book h feed bar i o price).world c ≤
    quota (p.broker.book h feed bar i o price).world c
  omega

omit [Arith α] in
theorem afterFill {j : Nat} (hp : Sound held quota n p j) (hj : j ≤ n) (i : Nat) :
    Sound held quota n (Pass.afterFill h p i) j := by
  have hnotify : Sound held quota n { p with broker := BackBroker.notify h p.broker i } j := by
    refine hp.adds hj ?_
    unfold BackBroker.notify
    split
    exacts [hh.order _ _, .refl _]
  have hgroups : ∀ {p : Pass α W} gs, Sound held quota n p j → Sound held quota n { p with filledOcoGroups := gs } j :=
    fun _ hp => ⟨hp.le, hp.balance⟩
  have hactivate : ∀ {p : Pass α W} id, Sound held quota n p j →
      Sound held quota n { p with broker := p.broker.activateBracketChildren id } j := fun {p} id hp => by
    refine hp.adds hj (.of_eq rfl ?_ rfl)
    show (p.broker.pendingOrders.map _).map _ = p.broker.pendingOrders.map _
    rw [List.map_map]
    refine List.map_congr_left fun o _ => ?_
    dsimp only [Function.comp]
    split_ifs <;> rfl
  have hcancel : ∀ {p : Pass α W} id, Sound held quota n p j →
      Sound held quota n { p with broker := p.broker.cancelBracketChildren h id } j := fun id hp =>
    hp.adds hj (hh.cancelPending _ _ _)
  unfold Pass.afterFill
  dsimp only
  split
  · exact hnotify
  · -- the legs are released, or cancelled, or neither
    split_ifs <;>
      first
        | exact hnotify
        | exact hgroups _ hnotify
        | exact hactivate _ hnotify
        | exact hactivate _ (hgroups _ hnotify)
        | exact hcancel _ hnotify
        | exact hcancel _ (hgroups _ hnotify)
        | exact hcancel _ (hactivate _ hnotify)
        | exact hcancel _ (hactivate _ (hgroups _ hnotify))

/-- An order that is done with leaves the pass, another one stays at hand. -/
theorem tryFillOrder (hp : Sound held quota n p i) (hi : i < n) {feed : DataFeed α} {bar : Row α} {done : Bool}
    {b' : BackBroker α W} (htry : p.broker.tryFillOrder h feed bar i = (done, b')) :
    Sound held quota n { p with broker := b' } (if done then i + 1 else i) := by
  have hwrite : ∀ f : Order α → Order α, (∀ o, (f o).candidateId = o.candidateId) →
      Sound held quota n { p with broker := (p.broker.edit i f).sync i } (i + 1) := fun f hf =>
    (hp.adds hi.le ((Adds.edit _ i hf).trans (.sync _ i))).next
  unfold BackBroker.tryFillOrder at htry
  cases ho : p.broker.pendingOrders[i]? with
  | none =>
    rw [ho] at htry
    cases htry
    exact hp
  | some o =>
    rw [ho] at htry
    dsimp only at htry
    cases hmatch : p.broker.matchOrder o bar with
    | none =>
      rw [hmatch] at htry
      cases htry
      exact hp
    | noStopPrice =>
      rw [hmatch] at htry
      cases htry
      exact hwrite Order.reject fun o => o.candidateId_setStatus _
    | fill price =>
      rw [hmatch] at htry
      dsimp only at htry
      split_ifs at htry
      · cases htry
        exact hp.book hh hi feed bar o price ho
      · cases htry
        exact hwrite Order.margin fun o => o.candidateId_setStatus _

theorem match' (hp : Sound held quota n p i) (hi : i < n) (feed : DataFeed α) (bar : Row α) (trail : Bool) :
    Sound held quota n (Pass.match' h feed bar p i trail) (i + 1) := by
  have hstop : ∀ b : BackBroker α W, Adds held quota nothing b (b.updateTrailStop bar i) := fun b => by
    have hwrite : ∀ f : Order α → Order α, (∀ o, (f o).candidateId = o.candidateId) →
        Adds held quota nothing b ((b.edit i f).sync i) := fun f hf => (Adds.edit b i hf).trans (.sync _ i)
    unfold BackBroker.updateTrailStop
    split
    · exact .refl b
    · split
      · exact .refl b
      · exact hwrite _ fun _ => rfl
  unfold Pass.match'
  rcases htry : p.broker.tryFillOrder h feed bar i with ⟨done, b'⟩
  have hp' := hp.tryFillOrder hh hi htry
  dsimp only
  cases done with
  | true => exact hp'.afterFill hh hi i
  | false =>
    have hp' : Sound held quota n { p with broker := b' } i := hp'
    cases trail with
    | true => exact (hp'.adds hi.le (hstop b')).keep
    | false => exact hp'.keep

/-- One turn of the loop. -/
theorem visit (hp : Sound held quota n p i) (hi : i < n) (feeds : List (DataFeed α)) :
    Sound held quota n (Pass.visit h feeds p i) (i + 1) := by
  have hturn : Sound held quota n { p with broker := { p.broker with turn := i + 1 } } i := ⟨hp.le, hp.balance⟩
  have hrelease : ∀ o, Sound held quota n
      { p with broker := Pass.release { p.broker with turn := i + 1 } i o } i := fun o => by
    unfold Pass.release
    split_ifs
    exacts [hturn.adds hi.le (.edit _ i fun _ => rfl), hturn]
  have hdrop : ∀ {p : Pass α W} {f : Order α → Order α}, Sound held quota n p i →
      (∀ o, (f o).candidateId = o.candidateId) → Sound held quota n (Pass.drop h f p p.broker i) (i + 1) :=
    fun hp hf => (hp.adds hi.le (Honest.publish hh.order _ i hf)).next
  have haccept : ∀ {p : Pass α W} o, Sound held quota n p i →
      Sound held quota n { p with broker := Pass.submitAccept h p.broker i o } i := fun o hp => by
    unfold Pass.submitAccept
    split_ifs
    · exact (hp.adds hi.le (Honest.publish hh.order _ i fun o => o.candidateId_setStatus _)).adds hi.le
        (Honest.publish hh.order _ i fun o => o.candidateId_setStatus _)
    · exact hp
  unfold Pass.visit
  dsimp only
  split
  · exact hturn.next
  · rename_i o ho
    split
    · exact hturn.next
    · split
      · exact hturn.keep
      · split
        · exact hdrop (hrelease o) fun o => o.candidateId_setStatus _
        · split
          · exact (hrelease o).keep
          · split
            · exact hdrop (hrelease o) fun o => o.candidateId_setStatus _
            · exact (haccept o (hrelease o)).match' hh hi _ _ _

end Sound

/-- The tokens with the pending orders and the open trades are within the quota. -/
def Solvent (held quota : W → Nat → Nat) (b : BackBroker α W) : Prop :=
  ∀ c ≠ 0, b.tags.count c + b.traded c + held b.world c ≤ quota b.world c

theorem Solvent.flows (hb : Solvent held quota b) (hf : Flows held quota nothing b b') : Solvent held quota b' := by
  intro c hc
  have h1 := hb c hc
  have h2 : _ ≤ _ + 0 := hf.balance 0 (Nat.zero_le _) c hc
  have h3 : b.carried 0 c = b.tags.count c := rfl
  have h4 : b'.carried 0 c = b'.tags.count c := rfl
  omega

variable [Arith α] {h : Hooks α W} (hh : Honest held quota h)
include hh

omit [Arith α] in
/-- A kept order whose group has been filled is cancelled; no token moves. -/
theorem Sound.cancelOcoSiblings {p : Pass α W} {n : Nat} (hp : Sound held quota n p n) :
    Sound held quota n (p.cancelOcoSiblings h) n := by
  have hstep : ∀ (p : Pass α W) j, Sound held quota n p n → Sound held quota n (Pass.cancelOco h p j) n := by
    intro p j hp
    unfold Pass.cancelOco
    split
    · exact hp
    · rename_i o ho
      dsimp only
      split_ifs
      · have hset : (p.stillPending.set j o.cancel).map (·.candidateId) = p.stillPending.map (·.candidateId) := by
          obtain ⟨hj, rfl⟩ := List.getElem?_eq_some_iff.1 ho
          rw [List.map_set, Order.cancel, Order.candidateId_setStatus]
          rw [← List.getElem_map (fun o : Order α => o.candidateId) (h := by simpa using hj), List.set_getElem_self]
        have hkept : Sound held quota n { p with stillPending := p.stillPending.set j o.cancel } n :=
          ⟨hp.le, fun c hc => by rw [hset]; exact hp.balance c hc⟩
        have hsync : Adds held quota nothing p.broker (p.broker.syncOrder o.cancel) := .of_eq rfl rfl rfl
        exact hkept.adds (le_refl n) (hsync.trans (hh.order _ _))
      · exact hp
  unfold Pass.cancelOcoSiblings
  split_ifs
  · exact hp
  · have hall := Fold.foldl_ind (fun p => Sound held quota n p n) (List.range p.stillPending.length) p hp
      fun p j _ hp => hstep p j hp
    generalize (List.range p.stillPending.length).foldl (Pass.cancelOco h) p = q at hall ⊢
    refine ⟨hall.le, fun c hc => ?_⟩
    have h1 := hall.balance c hc
    have h2 := ((List.filter_sublist (p := Order.isAlive) (l := q.stillPending)).map (·.candidateId)).count_le c
    show ((q.stillPending.filter Order.isAlive).map (·.candidateId)).count c + q.broker.carried n c + q.broker.traded c +
      held q.broker.world c ≤ quota q.broker.world c
    omega

theorem Solvent.processOrders (hb : Solvent held quota b) (feeds : List (DataFeed α)) :
    Solvent held quota (b.processOrders h feeds) := by
  let n := b.pendingOrders.length
  have hpass : Sound held quota n (b.passAt h feeds n) n := by
    refine Fold.range_ind (fun i p => Sound held quota n p i) ⟨le_refl _, fun c hc => ?_⟩ fun i p hi hp => hp.visit hh hi feeds
    have := hb c hc
    show 0 + b.tags.count c + b.traded c + held b.world c ≤ quota b.world c
    omega
  have hend := hpass.cancelOcoSiblings hh
  intro c hc
  have h1 := hend.balance c hc
  show (((b.passAt h feeds n).cancelOcoSiblings h).stillPending.map (·.candidateId)).count c +
    ((b.passAt h feeds n).cancelOcoSiblings h).broker.traded c +
    held ((b.passAt h feeds n).cancelOcoSiblings h).broker.world c ≤
    quota ((b.passAt h feeds n).cancelOcoSiblings h).broker.world c
  omega

theorem Solvent.exec (hb : Solvent held quota b) (cmd : Cmd α) : Solvent held quota (b.exec h cmd) :=
  hb.flows (hh.exec cmd b).flows

end BackBroker

end StratForge
