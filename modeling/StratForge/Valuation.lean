import Mathlib.Tactic.FieldSimp
import Mathlib.Tactic.Ring
import StratForge.Holdings

/-!
# The value of the portfolio across a fill

A fill charges the cash with size times price, and with an instrument the position is valued by
`mark_to_market`, which counts from the average price. `value_fill` says what is left of the value when both
have happened: `swing` is what the fill changes in size times the distance from the average price.
-/

namespace StratForge

/-- The instruments there are, with what multiplies a move of the price. -/
inductive Instrument.Shipped : Instrument ℚ → ℚ → Prop
  | equity (fee : ℚ → ℚ → Currency → ℚ) (ccy : Currency) : Shipped (.equity fee ccy) 1
  | future (fee : ℚ → ℚ → Currency → ℚ) (ccy : Currency) (multiplier exchangeIm : ℚ) :
      Shipped (.future fee ccy multiplier exchangeIm) multiplier
  | fxSpot (fee : ℚ → ℚ → Currency → ℚ) (quote : Currency) : Shipped (.fxSpot fee quote) 1
  | optionCall (fee : ℚ → ℚ → Currency → ℚ) (ccy : Currency) (multiplier : ℚ) :
      Shipped (.optionCall fee ccy multiplier) multiplier
  | optionPut (fee : ℚ → ℚ → Currency → ℚ) (ccy : Currency) (multiplier : ℚ) :
      Shipped (.optionPut fee ccy multiplier) multiplier
  | corporateBond (fee : ℚ → ℚ → Currency → ℚ) (ccy : Currency) (faceValue : ℚ) :
      Shipped (.corporateBond fee ccy faceValue) (faceValue / 100)

theorem Instrument.Shipped.markToMarket {instr : Instrument ℚ} {m : ℚ} (h : instr.Shipped m) (qty avgPx markPx : ℚ) :
    instr.markToMarket qty avgPx markPx = m * (qty * (markPx - avgPx)) := by
  cases h with
  | equity | fxSpot => exact (one_mul _).symm
  | future | optionCall | optionPut => exact mul_comm ..
  | corporateBond fee ccy faceValue =>
    show qty * (markPx - avgPx) * faceValue / 100.0 = _
    norm_num
    ring

namespace Position

/-- What a fill of `s` at `p` changes in the distance from the average price, times the size: nothing when it
opens or adds, all of it when it closes or reverses, its own part when it reduces. -/
def swing (pos : Position ℚ) (s p : ℚ) : ℚ :=
  if |pos.size + s| < 1e-10 then -(pos.size * (p - pos.avgPrice))
  else if pos.size = 0 ∨ (0 < pos.size ∧ 0 < s) ∨ (pos.size < 0 ∧ s < 0) then 0
  else if (0 < pos.size ∧ pos.size + s < 0) ∨ (pos.size < 0 ∧ 0 < pos.size + s) then -(pos.size * (p - pos.avgPrice))
  else s * (p - pos.avgPrice)

/-- When a fill moves in the position what it moves in the cash. -/
def Neutral (pos : Position ℚ) (m s p : ℚ) : Prop := s * p = m * pos.swing s p

theorem gain_update {pos : Position ℚ} (hp : pos.price = pos.avgPrice) (hs : pos.size = 0 ∨ 1e-10 ≤ |pos.size|) (s p : ℚ) :
    (pos.update s p).size * (p - (pos.update s p).avgPrice) = pos.size * (p - pos.avgPrice) + pos.swing s p := by
  rw [(update_avgPrice hp s p).2, size_update]
  unfold swing
  rw [Arith.abs_rat]
  by_cases hnew : |pos.size + s| < 1e-10
  · rw [if_pos hnew, if_pos hnew, if_pos hnew]; ring
  rw [if_neg hnew, if_neg hnew, if_neg hnew]
  rcases hs with h0 | hbig
  · -- a flat position is opened
    rw [if_pos (show |pos.size| < 1e-10 by rw [h0, abs_zero]; norm_num), if_pos (.inl h0), h0]
    ring
  have hne : pos.size ≠ 0 := abs_pos.1 (lt_of_lt_of_le (by norm_num) hbig)
  rw [if_neg (not_lt.2 hbig)]
  by_cases hside : (0 < pos.size ∧ 0 < s) ∨ (pos.size < 0 ∧ s < 0)
  · -- the average price is moved so that nothing is gained
    have hsum : pos.size + s ≠ 0 := by
      intro h0
      rw [h0, abs_zero] at hnew
      exact hnew (by norm_num)
    rw [if_pos hside, if_pos (.inr hside)]
    field_simp
    ring
  rw [if_neg hside, if_neg (not_or.2 ⟨hne, hside⟩)]
  split_ifs <;> ring

end Position

namespace BackBroker
variable {W : Type} {b b' : BackBroker ℚ W}

/-! ### The value of a portfolio -/

def baseRate (b : BackBroker ℚ W) (ccy : Currency) («at» : DateTime) : ℚ :=
  match b.fx with
  | some rate => if ccy ≠ b.baseCcy then rate ccy b.baseCcy «at» else 1
  | none => 1

theorem toBase_eq (b : BackBroker ℚ W) (ccy : Currency) («at» : DateTime) (amount : ℚ) :
    b.toBase ccy «at» amount = amount * b.baseRate ccy «at» := by
  unfold toBase baseRate
  cases b.fx with
  | none => exact (mul_one amount).symm
  | some rate =>
    dsimp only
    split_ifs
    exacts [rfl, (mul_one amount).symm]

/-- What a position counts in the base currency. -/
def countAt (b : BackBroker ℚ W) («at» : DateTime) (p : Position ℚ) (mark : ℚ) : ℚ :=
  match p.instrument with
  | some instr => b.toBase instr.settlementCcy «at» (instr.markToMarket p.size p.avgPrice mark)
  | none => p.size * mark

def valueAt (b : BackBroker ℚ W) («at» : DateTime) (mark : Nat → ℚ) : ℚ :=
  b.cashInBase «at» + (b.held.map fun p => b.countAt «at» p (mark p.dataIndex)).sum

theorem portfolioValueAt_eq {feeds : List (DataFeed ℚ)} {mark : Nat → ℚ} («at» : DateTime)
    (hm : ∀ p ∈ b.held, MarkedAt feeds p.dataIndex (mark p.dataIndex)) :
    b.portfolioValueAt «at» feeds = .ok (b.valueAt «at» mark) := by
  refine foldlM_held (fun value p hp => if_pos hp) (fun value p hp => ?_) _
  have hflat : ¬ p.isFlat = true := by simpa using (List.mem_filter.1 hp).2
  obtain ⟨feed, hfeed, hclose⟩ := hm p hp
  rw [if_neg hflat, hfeed]
  dsimp only
  rw [hclose]
  unfold countAt
  cases p.instrument <;> rfl

theorem cashInBase_eq (b : BackBroker ℚ W) («at» : DateTime) :
    b.cashInBase «at» = (Currency.all.map fun ccy => b.cash ccy * b.baseRate ccy «at»).sum := by
  unfold cashInBase
  simp only [toBase_eq, Currency.all, List.foldl, List.map, List.sum_cons, List.sum_nil]
  ring

/-- What is paid in a currency. -/
theorem cashInBase_pay (hs : b'.toBrokerSettings = b.toBrokerSettings) {ccy : Currency} {amount : ℚ}
    (hc : b'.cash = fun c => if c = ccy then b.cash c - amount else b.cash c) («at» : DateTime) :
    b'.cashInBase «at» = b.cashInBase «at» - amount * b.baseRate ccy «at» := by
  have hrate : ∀ c, b'.baseRate c «at» = b.baseRate c «at» := fun c => by
    unfold baseRate
    rw [show b'.fx = b.fx from congrArg BrokerSettings.fx hs, show b'.baseCcy = b.baseCcy from
      congrArg BrokerSettings.baseCcy hs]
  rw [cashInBase_eq, cashInBase_eq]
  simp only [hrate, hc]
  cases ccy <;> simp [Currency.all] <;> ring

/-! ### A data index and the others -/

theorem Filed.mem_held_iff (hb : b.Filed) {p : Position ℚ} :
    p ∈ b.held ↔ b.holding p.dataIndex = p ∧ p.isFlat = false := by
  constructor
  · intro hp
    obtain ⟨hmem, hflat⟩ := List.mem_filter.1 hp
    exact ⟨hb.holding_of_mem hmem, by simpa using hflat⟩
  · rintro ⟨hp, hflat⟩
    have hne : (b.holding p.dataIndex).size ≠ 0 := by
      intro h0
      rw [hp] at h0
      rw [Position.isFlat, h0] at hflat
      norm_num at hflat
    exact List.mem_filter.2 ⟨hp ▸ (mem_of_holding hne).1, by simp [hflat]⟩

/-- What is held elsewhere. -/
def heldElsewhere (b : BackBroker ℚ W) (k : Nat) : List (Position ℚ) := b.held.filter (!·.dataIndex == k)

theorem Filed.heldElsewhere_perm (hb : b.Filed) (hb' : b'.Filed) {k : Nat} (hk : ∀ j ≠ k, b'.holding j = b.holding j) :
    (b'.heldElsewhere k).Perm (b.heldElsewhere k) := by
  have hnd : ∀ {b : BackBroker ℚ W}, b.Filed → (b.heldElsewhere k).Nodup := fun hb =>
    (List.Nodup.of_map _ hb.nodup).sublist (List.filter_sublist.trans List.filter_sublist)
  refine (List.perm_ext_iff_of_nodup (hnd hb') (hnd hb)).2 fun p => ?_
  unfold heldElsewhere
  rw [List.mem_filter, List.mem_filter, hb'.mem_held_iff, hb.mem_held_iff]
  constructor
  · rintro ⟨⟨hp, hflat⟩, hne⟩
    exact ⟨⟨(hk _ (by simpa using hne)).symm.trans hp, hflat⟩, hne⟩
  · rintro ⟨⟨hp, hflat⟩, hne⟩
    exact ⟨⟨(hk _ (by simpa using hne)).trans hp, hflat⟩, hne⟩

theorem holding_dataIndex (b : BackBroker ℚ W) (k : Nat) : (b.holding k).dataIndex = k := by
  unfold holding
  cases hf : b.findPosition k with
  | none => rfl
  | some p => simpa using List.find?_some hf

theorem Filed.holding_instrument (hb : b.Filed) (k : Nat) : (b.holding k).instrument = b.instrumentMap k := by
  unfold holding
  cases hf : b.findPosition k with
  | none => rfl
  | some p =>
    have hk : p.dataIndex = k := by simpa using List.find?_some hf
    exact hk ▸ hb.instrument p (List.mem_of_find?_eq_some hf)

theorem Filed.holding_size (hb : b.Filed) (k : Nat) : (b.holding k).size = 0 ∨ 1e-10 ≤ |(b.holding k).size| := by
  unfold holding
  cases hf : b.findPosition k with
  | none => exact .inl rfl
  | some p => exact hb.size p (List.mem_of_find?_eq_some hf)

theorem Filed.holding_price (hb : b.Filed) (k : Nat) : (b.holding k).price = (b.holding k).avgPrice := by
  unfold holding
  cases hf : b.findPosition k with
  | none => rfl
  | some p => exact hb.price p (List.mem_of_find?_eq_some hf)

/-- The value of a portfolio, with the position of one data index apart. -/
theorem Filed.valueAt_split (hb : b.Filed) {k : Nat} {instr : Instrument ℚ} {m : ℚ} (hi : instr.Shipped m)
    (him : b.instrumentMap k = some instr) («at» : DateTime) (mark : Nat → ℚ) :
    b.valueAt «at» mark = b.cashInBase «at» +
      m * ((b.holding k).size * (mark k - (b.holding k).avgPrice)) * b.baseRate instr.settlementCcy «at» +
      ((b.heldElsewhere k).map fun p => b.countAt «at» p (mark p.dataIndex)).sum := by
  have hcount : b.countAt «at» (b.holding k) (mark k) =
      m * ((b.holding k).size * (mark k - (b.holding k).avgPrice)) * b.baseRate instr.settlementCcy «at» := by
    rw [countAt, hb.holding_instrument, him]
    exact (b.toBase_eq ..).trans (by rw [hi.markToMarket])
  have hone : (b.held.filter (·.dataIndex == k)).map (fun p => b.countAt «at» p (mark p.dataIndex)) =
      if (b.holding k).isFlat then [] else [b.countAt «at» (b.holding k) (mark k)] := by
    have hnd : (b.held.map (·.dataIndex)).Nodup := hb.nodup.sublist (List.filter_sublist.map _)
    split_ifs with hflat
    · rw [List.filter_eq_nil_iff.2 fun p hp hpk => ?_]; rfl
      obtain ⟨hp, hpf⟩ := hb.mem_held_iff.1 hp
      rw [show p.dataIndex = k by simpa using hpk] at hp
      rw [← hp, hflat] at hpf
      cases hpf
    · have hmem : b.holding k ∈ b.held := hb.mem_held_iff.2 ⟨by rw [b.holding_dataIndex], by simpa using hflat⟩
      rw [Keyed.filter_eq_singleton hnd hmem (b.holding_dataIndex k), List.map_singleton, b.holding_dataIndex]
  have hperm : (b.held.filter (·.dataIndex == k) ++ b.heldElsewhere k).Perm b.held := List.filter_append_perm ..
  rw [valueAt, ← (hperm.map _).sum_eq, List.map_append, List.sum_append, hone, ← add_assoc, ← hcount]
  congr 2
  split_ifs with hflat
  · -- flat is a size of zero
    have hsmall : |(b.holding k).size| < 1e-10 := of_decide_eq_true hflat
    rw [hcount, (hb.holding_size k).resolve_right (not_le.2 hsmall)]
    simp
  · simp

/-! ### Fills -/

/-- An order that is filled, at its place among the pending ones. -/
structure Fill where
  pos : Nat
  order : Order ℚ
  price : ℚ
  feed : DataFeed ℚ
  bar : Row ℚ

def fill (h : Hooks ℚ W) (b : BackBroker ℚ W) (f : Fill) : BackBroker ℚ W :=
  b.book h f.feed f.bar f.pos f.order f.price

/-- The commission of a fill, in the base currency. -/
def chargeOf (b : BackBroker ℚ W) («at» : DateTime) (f : Fill) : ℚ :=
  b.toBase (b.settleCcy f.order.dataIndex) «at» (b.fillCommission f.order f.price)

section
variable {h : Hooks ℚ W} (hh : Tame h) (hb : b.Filed) (f : Fill)
include hh

theorem fill_settings : (b.fill h f).toBrokerSettings = b.toBrokerSettings := by
  have hs := enter_books hh f.feed f.bar b f.pos f.order f.price
  exact hs.settings.trans (enter_settings ..)

theorem fill_cash : (b.fill h f).cash = fun c => if c = b.settleCcy f.order.dataIndex then
    b.cash c - (f.order.signedSize * f.price + b.fillCommission f.order f.price) else b.cash c := by
  have hs := enter_books hh f.feed f.bar b f.pos f.order f.price
  exact hs.cash.trans (enter_cash ..)

theorem fill_holding (k : Nat) : (b.fill h f).holding k =
    if k = f.order.dataIndex then (b.holding k).update f.order.signedSize f.price else b.holding k := by
  have hs := enter_books hh f.feed f.bar b f.pos f.order f.price
  refine (hs.holding k).trans ((enter_holding ..).trans ?_)
  rw [(same_fillOf f.feed b f.order f.price).dataIndex]
  rfl

theorem Filed.fill (hb : b.Filed) : (b.fill h f).Filed := by
  have hs := enter_books hh f.feed f.bar b f.pos f.order f.price
  have hx := booked_fillOf f.feed b f.order f.price
  refine Filed.same hs (kept_filed.enter _ _ _ ⟨hx.size, hx.commission, hx.currency⟩ ?_)
  exact Filed.same (Quiet.edit b f.pos _).books hb

end

/-- What a fill leaves of the value at its price: its commission is paid, and what it moves in the position is
not what it moves in the cash. -/
theorem value_fill {h : Hooks ℚ W} (hh : Tame h) (hb : b.Filed) (f : Fill) {instr : Instrument ℚ} {m : ℚ}
    (hi : instr.Shipped m) (him : b.instrumentMap f.order.dataIndex = some instr) («at» : DateTime) (mark : Nat → ℚ)
    (hp : mark f.order.dataIndex = f.price) :
    (b.fill h f).valueAt «at» mark = b.valueAt «at» mark - b.chargeOf «at» f +
      (m * (b.holding f.order.dataIndex).swing f.order.signedSize f.price - f.order.signedSize * f.price) *
        b.baseRate instr.settlementCcy «at» := by
  have hs := fill_settings hh f (b := b)
  have him' : (b.fill h f).instrumentMap f.order.dataIndex = some instr :=
    (congrFun (congrArg BrokerSettings.instrumentMap hs) _).trans him
  have hsettle : b.settleCcy f.order.dataIndex = instr.settlementCcy := by
    unfold BrokerSettings.settleCcy
    rw [him]
  have hfx : (b.fill h f).fx = b.fx := congrArg BrokerSettings.fx hs
  have hbase : (b.fill h f).baseCcy = b.baseCcy := congrArg BrokerSettings.baseCcy hs
  have hrate : (b.fill h f).baseRate instr.settlementCcy «at» = b.baseRate instr.settlementCcy «at» := by
    unfold baseRate
    rw [hfx, hbase]
  have hcount : ∀ p mark, (b.fill h f).countAt «at» p mark = b.countAt «at» p mark := fun p mark => by
    unfold countAt toBase
    rw [hfx, hbase]
  have hperm := hb.heldElsewhere_perm (hb.fill hh f) (k := f.order.dataIndex) fun j hj => by
    rw [fill_holding hh, if_neg hj]
  have hgain := Position.gain_update (hb.holding_price f.order.dataIndex) (hb.holding_size f.order.dataIndex)
    f.order.signedSize f.price
  rw [(hb.fill hh f).valueAt_split hi him', hb.valueAt_split hi him, cashInBase_pay hs (fill_cash hh f),
    fill_holding hh, if_pos rfl, hp, hgain, hrate, hsettle]
  simp only [hcount]
  rw [(hperm.map _).sum_eq, chargeOf, toBase_eq, hsettle]
  ring

/-! ### Round trips -/

/-- A mark that moves. -/
theorem Filed.valueAt_mark (hb : b.Filed) {k : Nat} {instr : Instrument ℚ} {m : ℚ} (hi : instr.Shipped m)
    (him : b.instrumentMap k = some instr) («at» : DateTime) (mark mark' : Nat → ℚ) (hm : ∀ j ≠ k, mark' j = mark j) :
    b.valueAt «at» mark' =
      b.valueAt «at» mark + (b.countAt «at» (b.holding k) (mark' k) - b.countAt «at» (b.holding k) (mark k)) := by
  have hothers : (b.heldElsewhere k).map (fun p => b.countAt «at» p (mark' p.dataIndex)) =
      (b.heldElsewhere k).map fun p => b.countAt «at» p (mark p.dataIndex) :=
    List.map_congr_left fun p hp => by rw [hm p.dataIndex (by simpa using (List.mem_filter.1 hp).2)]
  have hcount : ∀ q, b.countAt «at» (b.holding k) q =
      m * ((b.holding k).size * (q - (b.holding k).avgPrice)) * b.baseRate instr.settlementCcy «at» := fun q => by
    rw [countAt, hb.holding_instrument, him]
    exact (b.toBase_eq ..).trans (by rw [hi.markToMarket])
  rw [hb.valueAt_split hi him, hb.valueAt_split hi him, hothers, hcount, hcount]
  ring

/-- What the marks earn on a data index and the fills cost, from a mark on. -/
def earned (h : Hooks ℚ W) («at» : DateTime) (k : Nat) : BackBroker ℚ W → ℚ → List Fill → ℚ
  | _, _, [] => 0
  | b, q, f :: fs => b.countAt «at» (b.holding k) f.price - b.countAt «at» (b.holding k) q - b.chargeOf «at» f +
      earned h «at» k (b.fill h f) f.price fs

/-- Fills of one data index, each neutral where it meets the position. -/
def NeutralAlong (h : Hooks ℚ W) (k : Nat) (m : ℚ) : BackBroker ℚ W → List Fill → Prop
  | _, [] => True
  | b, f :: fs => f.order.dataIndex = k ∧ (b.holding k).Neutral m f.order.signedSize f.price ∧
      NeutralAlong h k m (b.fill h f) fs

/-- The last price, if there is a fill. -/
def lastPrice : ℚ → List Fill → ℚ
  | q, [] => q
  | _, f :: fs => lastPrice f.price fs

theorem value_fills {h : Hooks ℚ W} (hh : Tame h) {k : Nat} {instr : Instrument ℚ} {m : ℚ} (hi : instr.Shipped m)
    («at» : DateTime) (mark : Nat → ℚ) (fs : List Fill) (q : ℚ) (hb : b.Filed) (him : b.instrumentMap k = some instr)
    (hn : NeutralAlong h k m b fs) :
    (fs.foldl (fill h) b).Filed ∧ (fs.foldl (fill h) b).instrumentMap k = some instr ∧
    (fs.foldl (fill h) b).valueAt «at» (Function.update mark k (lastPrice q fs)) =
      b.valueAt «at» (Function.update mark k q) + earned h «at» k b q fs := by
  induction fs generalizing b q with
  | nil => exact ⟨hb, him, by simp [lastPrice, earned]⟩
  | cons f fs ih =>
    obtain ⟨rfl, hf, hfs⟩ := hn
    have him' : (b.fill h f).instrumentMap f.order.dataIndex = some instr :=
      (congrFun (congrArg BrokerSettings.instrumentMap (fill_settings hh f)) _).trans him
    obtain ⟨hfiled, hmap, hvalue⟩ := ih f.price (hb.fill hh f) him' hfs
    have hstep := value_fill hh hb f hi him «at» (Function.update mark f.order.dataIndex f.price) (by simp)
    rw [← hf, sub_self, zero_mul, add_zero] at hstep
    have hmark := hb.valueAt_mark hi him «at» (Function.update mark f.order.dataIndex q)
      (Function.update mark f.order.dataIndex f.price) fun j hj => by simp [hj]
    simp only [Function.update_self] at hmark
    refine ⟨hfiled, hmap, ?_⟩
    show (fs.foldl (fill h) (b.fill h f)).valueAt «at» (Function.update mark f.order.dataIndex (lastPrice f.price fs)) = _
    rw [hvalue, hstep, hmark, earned]
    ring

/-- A fill at the mark leaves the value but for its commission exactly when it is neutral; and a round trip of
such fills earns what the marks earn on it, less the commissions. -/
theorem fill_neutral_iff (L : Listener ℚ W) (fuel : Nat) (b : BackBroker ℚ W) (hb : b.Filed) (k : Nat)
    (instr : Instrument ℚ) (m : ℚ) (hi : instr.Shipped m) (him : b.instrumentMap k = some instr) («at» : DateTime) :
    (∀ (f : Fill) (feeds : List (DataFeed ℚ)) (mark : Nat → ℚ), f.order.dataIndex = k → mark k = f.price →
      MarkedAt feeds k (mark k) → (∀ p ∈ b.held, MarkedAt feeds p.dataIndex (mark p.dataIndex)) →
      ∃ v v', b.portfolioValueAt «at» feeds = .ok v ∧ (b.fill (L.hooks fuel) f).portfolioValueAt «at» feeds = .ok v' ∧
        (v' = v - b.chargeOf «at» f ↔ b.baseRate instr.settlementCcy «at» = 0 ∨
          (b.holding k).Neutral m f.order.signedSize f.price)) ∧
    ∀ (fs : List Fill) (q : ℚ), NeutralAlong (L.hooks fuel) k m b fs → (b.holding k).isFlat →
      ((fs.foldl (fill (L.hooks fuel)) b).holding k).isFlat → ∀ mark,
      (fs.foldl (fill (L.hooks fuel)) b).valueAt «at» mark = b.valueAt «at» mark + earned (L.hooks fuel) «at» k b q fs := by
  have hh := tame_hooks L fuel
  refine ⟨fun f feeds mark hk hp hmk hm => ?_, fun fs q hn hflat hflat' mark => ?_⟩
  · subst hk
    have hm' : ∀ p ∈ (b.fill (L.hooks fuel) f).held, MarkedAt feeds p.dataIndex (mark p.dataIndex) := by
      intro p hp
      by_cases hpk : p.dataIndex = f.order.dataIndex
      · rw [hpk]; exact hmk
      · obtain ⟨hpos, hpflat⟩ := (hb.fill hh f).mem_held_iff.1 hp
        rw [fill_holding hh, if_neg hpk] at hpos
        exact hm p (hb.mem_held_iff.2 ⟨hpos, hpflat⟩)
    refine ⟨_, _, portfolioValueAt_eq «at» hm, portfolioValueAt_eq «at» hm', ?_⟩
    rw [value_fill hh hb f hi him «at» mark hp, add_eq_left, mul_eq_zero, sub_eq_zero, or_comm]
    exact or_congr_right ⟨Eq.symm, Eq.symm⟩
  · obtain ⟨hfiled, hmap, hvalue⟩ := value_fills hh hi «at» mark fs q hb him hn
    have hcount : ∀ {b : BackBroker ℚ W}, b.Filed → b.instrumentMap k = some instr → (b.holding k).isFlat = true →
        ∀ q, b.countAt «at» (b.holding k) q = 0 := fun {b} hb him hflat q => by
      have hsmall : |(b.holding k).size| < 1e-10 := of_decide_eq_true hflat
      rw [countAt, hb.holding_instrument, him]
      refine (b.toBase_eq ..).trans ?_
      rw [hi.markToMarket, (hb.holding_size k).resolve_right (not_le.2 hsmall)]
      ring
    have hmark : ∀ {b : BackBroker ℚ W}, b.Filed → b.instrumentMap k = some instr → (b.holding k).isFlat = true →
        ∀ q, b.valueAt «at» (Function.update mark k q) = b.valueAt «at» mark := fun {b} hb him hflat q => by
      rw [hb.valueAt_mark hi him «at» mark _ fun j hj => Function.update_of_ne hj .., hcount hb him hflat,
        hcount hb him hflat]
      ring
    rwa [hmark hfiled hmap hflat', hmark hb him hflat] at hvalue

/-- A future with a multiplier of 2, held at 5: one of two contracts is sold at 10. -/
theorem fill_neutral_iff_future :
    let instr := Instrument.future (fun _ _ _ => 0) .USD 2 3
    let b : BackBroker ℚ Unit := { funded with
      instrumentMap := fun _ => some instr, positions := [⟨some instr, 0, 2, 5, 5, 0, 2, 0⟩] }
    let order : Order ℚ := ⟨1, .Market, .Accepted, .Sell, 1, 0, none, 0, 0, 0, 0, 0, none, 0, 0, 0, 0, 0, [], true⟩
    let f : Fill := ⟨0, order, 10, .ofBar 10 11 9 10, ⟨0, 10, 11, 9, 10, 0, 0⟩⟩
    ∃ v v', b.portfolioValueAt 0 [.ofBar 10 11 9 10] = .ok v ∧
      (b.fill (Listener.silent.hooks 0) f).portfolioValueAt 0 [.ofBar 10 11 9 10] = .ok v' ∧ v' = v - b.chargeOf 0 f := by
  intro instr b order f
  have hb : b.Filed := by
    refine ⟨by simp [b], fun p hp => ?_, fun p hp => .inr ?_, fun p hp => ?_⟩ <;> rw [List.mem_singleton.1 hp]
    norm_num
  have hm : MarkedAt [.ofBar 10 11 9 10] 0 (10 : ℚ) := ⟨.ofBar 10 11 9 10, rfl, rfl⟩
  obtain ⟨v, v', hv, hv', hiff⟩ := (fill_neutral_iff Listener.silent 0 b hb 0 instr 2 (.future ..) rfl 0).1 f
    [.ofBar 10 11 9 10] (fun _ => 10) rfl rfl hm fun p hp => by
      rw [List.mem_singleton.1 (List.mem_filter.1 hp).1]; exact hm
  refine ⟨v, v', hv, hv', hiff.2 (.inr ?_)⟩
  show _ = _
  decide +kernel

/-- One share bought at the mark, free of charge. -/
theorem bought_share_is_lost :
    let b : BackBroker ℚ Unit := { funded with instrumentMap := fun _ => some (.equity (fun _ _ _ => 0) .USD) }
    let feeds : List (DataFeed ℚ) := [.ofBar 10 11 9 10]
    let b' := b.run (Listener.silent.hooks 0) [.cmd (.buy 1 0 none .Market 0), .processOrders feeds]
    b'.executions.map (fun x => (x.size, x.price, x.commission)) = [(1, 10, 0)] ∧
    (b.portfolioValueAt 0 feeds).toOption = some 1000 ∧ (b'.portfolioValueAt 0 feeds).toOption = some 990 := by
  decide +kernel

/-! ### The two valuations -/

/-- What is held in other currencies, and what conversion makes of the positions. -/
def abroad (b : BackBroker ℚ W) («at» : DateTime) (mark : Nat → ℚ) : ℚ :=
  ((Currency.all.filter (!· == b.baseCcy)).map fun ccy => b.cash ccy * b.baseRate ccy «at»).sum +
    (b.held.map fun p => b.countAt «at» p (mark p.dataIndex) - p.worth (mark p.dataIndex)).sum

theorem baseRate_base (b : BackBroker ℚ W) («at» : DateTime) : b.baseRate b.baseCcy «at» = 1 := by
  unfold baseRate
  cases b.fx with
  | none => rfl
  | some rate => exact if_neg (by simp)

theorem cashInBase_split (b : BackBroker ℚ W) («at» : DateTime) : b.cashInBase «at» = b.cash b.baseCcy +
    ((Currency.all.filter (!· == b.baseCcy)).map fun ccy => b.cash ccy * b.baseRate ccy «at»).sum := by
  have hone : Currency.all.filter (· == b.baseCcy) = [b.baseCcy] := by
    cases b.baseCcy <;> rfl
  have hperm : (Currency.all.filter (· == b.baseCcy) ++ Currency.all.filter (!· == b.baseCcy)).Perm
      Currency.all := List.filter_append_perm ..
  rw [cashInBase_eq, ← (hperm.map _).sum_eq, hone, List.map_append, List.sum_append, List.map_singleton,
    List.sum_singleton, baseRate_base, mul_one]

theorem valueAt_eq_add_abroad (b : BackBroker ℚ W) («at» : DateTime) (mark : Nat → ℚ) : b.valueAt «at» mark =
    b.cash b.baseCcy + (b.held.map fun p => p.worth (mark p.dataIndex)).sum + b.abroad «at» mark := by
  have hsum : ∀ ps : List (Position ℚ), (ps.map fun p => b.countAt «at» p (mark p.dataIndex)).sum =
      (ps.map fun p => p.worth (mark p.dataIndex)).sum +
        (ps.map fun p => b.countAt «at» p (mark p.dataIndex) - p.worth (mark p.dataIndex)).sum := by
    intro ps
    induction ps with
    | nil => simp
    | cons p ps ih => simp only [List.map_cons, List.sum_cons, ih]; ring
  rw [valueAt, abroad, cashInBase_split, hsum]
  ring

/-- Nothing is held in another currency. -/
structure Domestic (b : BackBroker ℚ W) : Prop where
  cash : ∀ ccy ≠ b.baseCcy, b.cash ccy = 0
  settle : ∀ k, (b.holding k).size ≠ 0 → b.settleCcy k = b.baseCcy

theorem kept_domestic : Kept fun b : BackBroker ℚ W => (∀ x ∈ b.executions, x.currency = b.baseCcy) → b.Domestic where
  same b b' hs hb hx := by
    have hbase : b'.baseCcy = b.baseCcy := congrArg BrokerSettings.baseCcy hs.settings
    obtain ⟨hcash, hsettle⟩ := hb fun x hxm => hbase ▸ hx x (hs.executions.symm ▸ hxm)
    refine ⟨fun ccy hne => ?_, fun k hk => ?_⟩
    · rw [hs.cash]; exact hcash ccy (hbase ▸ hne)
    · rw [hs.settings]; exact hsettle k (hs.holding k ▸ hk)
  enter b x dt hx hb hall := by
    have hs := b.enter_settings x dt
    have hbase : (b.enter x dt).baseCcy = b.baseCcy := congrArg BrokerSettings.baseCcy hs
    rw [enter_executions] at hall
    obtain ⟨hcash, hsettle⟩ := hb fun y hy => hbase ▸ hall y (List.mem_append_left _ hy)
    have hccy : x.currency = b.baseCcy := hbase ▸ hall x (by simp)
    refine ⟨fun ccy hne => ?_, fun k hk => ?_⟩
    · rw [hbase] at hne
      rw [enter_cash]
      exact (if_neg fun h => hne (h.trans hccy)).trans (hcash ccy hne)
    · rw [hs]
      rw [enter_holding] at hk
      by_cases hkx : k = x.order.dataIndex
      · rw [hkx, ← hx.currency, hccy]
      · rw [if_neg hkx] at hk
        exact hsettle k hk

theorem Domestic.portfolioValueAt (hd : b.Domestic) (hb : b.Filed) («at» : DateTime) (feeds : List (DataFeed ℚ)) :
    b.portfolioValueAt «at» feeds = b.portfolioValue feeds := by
  have hcash : b.cashInBase «at» = b.cash b.baseCcy := by
    rw [cashInBase_split, List.map_congr_left (g := fun _ => (0 : ℚ)) fun ccy hc => ?_]
    · simp
    · rw [hd.cash ccy (by simpa using (List.mem_filter.1 hc).2), zero_mul]
  unfold BackBroker.portfolioValueAt portfolioValue
  rw [hcash]
  refine Fold.foldlM_congr (fun value p hp => ?_) _
  by_cases hflat : p.isFlat = true
  · rw [if_pos hflat, if_pos hflat]
  rw [if_neg hflat, if_neg hflat]
  cases feeds[p.dataIndex]? with
  | none => rfl
  | some feed =>
    dsimp only
    cases hi : p.instrument with
    | none => rfl
    | some instr =>
      have hpos := hb.holding_of_mem hp
      have hne : (b.holding p.dataIndex).size ≠ 0 := fun h0 => by
        rw [hpos] at h0
        exact hflat (by rw [Position.isFlat, h0]; norm_num)
      have hsettle : instr.settlementCcy = b.baseCcy := by
        have := hd.settle _ hne
        unfold BrokerSettings.settleCcy at this
        rwa [← hb.instrument p hp, hi] at this
      dsimp only
      simp only [toBase_eq, hsettle, baseRate_base, mul_one]

/-- The two valuations agree, at the closes the feeds stand at, exactly when what is held abroad comes to
nothing; and in every run that pays and settles in the base currency they are the same. -/
theorem valuations_agree_iff (L : Listener ℚ W) (fuel : Nat) (b : BackBroker ℚ W) (hf : b.Fresh) (ops : List (Op ℚ))
    («at» : DateTime) (feeds : List (DataFeed ℚ)) :
    let b' := b.run (L.hooks fuel) ops
    (∀ mark : Nat → ℚ, (∀ p ∈ b'.held, MarkedAt feeds p.dataIndex (mark p.dataIndex)) →
      (b'.portfolioValueAt «at» feeds = b'.portfolioValue feeds ↔ b'.abroad «at» mark = 0)) ∧
    ((∀ ccy ≠ b.baseCcy, b.cash ccy = 0) → (∀ x ∈ b'.executions, x.currency = b.baseCcy) →
      b'.portfolioValueAt «at» feeds = b'.portfolioValue feeds) := by
  intro b'
  have hh := tame_hooks L fuel
  have hfiled : b'.Filed := kept_filed.run hh ops (.of_fresh hf)
  have hrep : Replayed b b' := (kept_replayed b).run hh ops (.of_fresh hf)
  refine ⟨fun mark hm => ?_, fun hcash hx => ?_⟩
  · rw [portfolioValueAt_eq «at» hm, portfolioValue_eq hm, valueAt_eq_add_abroad]
    constructor
    · intro h
      exact add_eq_left.1 (Except.ok.inj h)
    · intro h
      rw [h, add_zero]
  · have hstart : (∀ x ∈ b.executions, x.currency = b.baseCcy) → b.Domestic := fun _ => by
      refine ⟨hcash, fun k hk => absurd ?_ hk⟩
      unfold holding findPosition
      rw [hf.positions]
      rfl
    have hbase : b'.baseCcy = b.baseCcy := congrArg BrokerSettings.baseCcy hrep.settings
    exact ((kept_domestic.run hh ops hstart) fun x hxm => (hx x hxm).trans hbase.symm).portfolioValueAt hfiled «at» feeds

/-- A share that settles in the base currency. -/
theorem valuations_agree_iff_domestic :
    let b : BackBroker ℚ Unit := { funded with instrumentMap := fun _ => some (.equity (fun _ _ _ => 1) .USD) }
    let feeds : List (DataFeed ℚ) := [.ofBar 10 11 9 10]
    let b' := b.run (Listener.silent.hooks 0) [.cmd (.buy 1 0 none .Market 0), .processOrders feeds]
    b'.portfolioValueAt 0 feeds = b'.portfolioValue feeds :=
  (valuations_agree_iff Listener.silent 0 _ ⟨rfl, rfl, rfl, rfl, rfl, rfl, rfl, rfl⟩ _ 0 _).2
    (fun _ hne => if_neg hne) (by decide +kernel)

/-- A share that settles in euros, at two dollars a euro. -/
theorem share_abroad :
    let b : BackBroker ℚ Unit := { funded with
      fx := some fun _ _ _ => 2, instrumentMap := fun _ => some (.equity (fun _ _ _ => 0) .EUR) }
    let feeds : List (DataFeed ℚ) := [.ofBar 10 11 9 10]
    let b' := b.run (Listener.silent.hooks 0) [.cmd (.buy 1 0 none .Market 0), .processOrders feeds]
    (b'.portfolioValue feeds).toOption = some 1000 ∧ (b'.portfolioValueAt 0 feeds).toOption = some 980 := by
  decide +kernel

end BackBroker
end StratForge
