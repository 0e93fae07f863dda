import Mathlib.Tactic.FieldSimp
import Mathlib.Tactic.Linarith
import Mathlib.Tactic.NormNum
import StratForge.Holdings

/-!
# The trade book

Positions and trades are two accumulators of the same fills, each with its own test for what is
negligible. `Lots` is what they agree on: a data index has the one open trade that its position is, or is
flat and has none. A fill keeps it when it is not negligible and does not leave a negligible rest behind a
trade that it closes (`Clean`); `updateTrades_lots` is that step, with what it does to the worth of the
trades.
-/

namespace StratForge

/-! ### One trade -/

/-- What a trade has earned less what it has cost. -/
def Trade.worth (t : Trade ℚ) : ℚ := t.pnl - t.commission - t.size * t.price

namespace Trade

section
variable {α : Type} [Arith α] (t : Trade α) (old s p c : α) (bar : Nat) (dt : DateTime)

/-! The steps of `update`, as far as later ones and the book depend on them. -/

def flag : Trade α :=
  let t := { t with isopen := decide (1e-10 ≤ Arith.abs t.size) }
  let t := { t with isclosed := decide (1e-10 ≤ Arith.abs old) && !t.isopen }
  { t with barlen := if t.entryBar ≤ bar then bar - t.entryBar else 0 }

def settle : Trade α := { t with pnlcomm := t.pnl - t.commission, value := t.size * t.price }

def enterAt : Trade α :=
  if t.justopened then
    { t with price := p, entryPrice := p, value := t.size * p, pnlcomm := t.pnl - t.commission }
  else t

def finish : Trade α :=
  if t.isclosed then
    { t with exitPrice := p, size := 0, value := 0, status := .Closed, exitBar := bar, exitTime := dt, isopen := false }
  else { t with status := .Open }

theorem update_negligible (h : Arith.abs s < 1e-10) : t.update s p c bar dt = t := if_pos h

theorem update_eq (h : ¬ Arith.abs s < 1e-10) : t.update s p c bar dt =
    (((((({ t with commission := t.commission + c, size := t.size + s } : Trade α).stampEntry t.size bar dt).flag
      t.size bar).reprice t.size s p).settle).enterAt p).finish p bar dt := if_neg h

theorem stampEntry_fields : (t.stampEntry old bar dt).dataIndex = t.dataIndex ∧ (t.stampEntry old bar dt).size = t.size ∧
    (t.stampEntry old bar dt).price = t.price ∧ (t.stampEntry old bar dt).pnl = t.pnl ∧
    (t.stampEntry old bar dt).commission = t.commission ∧
    (t.stampEntry old bar dt).justopened = decide (Arith.abs old < 1e-10) := by
  unfold stampEntry
  dsimp only
  split <;> simp

theorem reprice_fields : (t.reprice old s p).dataIndex = t.dataIndex ∧ (t.reprice old s p).size = t.size ∧
    (t.reprice old s p).commission = t.commission ∧ (t.reprice old s p).justopened = t.justopened ∧
    (t.reprice old s p).isclosed = t.isclosed ∧
    (t.reprice old s p).price =
      (if Arith.abs old < Arith.abs t.size then (old * t.price + s * p) / t.size else t.price) ∧
    (t.reprice old s p).pnl = (if Arith.abs old < Arith.abs t.size then t.pnl
      else if 1e-10 ≤ Arith.abs old then t.pnl + (-s) * (p - t.price) else t.pnl) := by
  unfold reprice
  split_ifs <;> simp

theorem enterAt_fields : (t.enterAt p).dataIndex = t.dataIndex ∧ (t.enterAt p).size = t.size ∧
    (t.enterAt p).commission = t.commission ∧ (t.enterAt p).pnl = t.pnl ∧ (t.enterAt p).isclosed = t.isclosed ∧
    (t.pnlcomm = t.pnl - t.commission → (t.enterAt p).pnlcomm = t.pnl - t.commission) ∧
    (t.enterAt p).price = if t.justopened then p else t.price := by
  unfold enterAt
  split <;> simp

theorem finish_fields : (t.finish p bar dt).dataIndex = t.dataIndex ∧ (t.finish p bar dt).price = t.price ∧
    (t.finish p bar dt).commission = t.commission ∧ (t.finish p bar dt).pnl = t.pnl ∧
    (t.finish p bar dt).pnlcomm = t.pnlcomm ∧ (t.finish p bar dt).size = (if t.isclosed then 0 else t.size) ∧
    (t.finish p bar dt).status = if t.isclosed then .Closed else .Open := by
  unfold finish
  split <;> simp

/-- What a fill that is not negligible makes of a trade. -/
structure Updated (t t' : Trade α) (s p c : α) : Prop where
  dataIndex : t'.dataIndex = t.dataIndex
  commission : t'.commission = t.commission + c
  pnlcomm : t'.pnlcomm = t'.pnl - t'.commission
  size : t'.size = if 1e-10 ≤ Arith.abs t.size ∧ ¬ 1e-10 ≤ Arith.abs (t.size + s) then 0 else t.size + s
  status : t'.status = if 1e-10 ≤ Arith.abs t.size ∧ ¬ 1e-10 ≤ Arith.abs (t.size + s) then .Closed else .Open
  price : t'.price = if Arith.abs t.size < 1e-10 then p
    else if Arith.abs t.size < Arith.abs (t.size + s) then (t.size * t.price + s * p) / (t.size + s) else t.price
  pnl : t'.pnl = if Arith.abs t.size < Arith.abs (t.size + s) then t.pnl
    else if 1e-10 ≤ Arith.abs t.size then t.pnl + (-s) * (p - t.price) else t.pnl

theorem updated (h : ¬ Arith.abs s < 1e-10) : Updated t (t.update s p c bar dt) s p c := by
  rw [update_eq t s p c bar dt h]
  let t₀ : Trade α := { t with commission := t.commission + c, size := t.size + s }
  obtain ⟨hi₁, hs₁, hp₁, hn₁, hc₁, hj₁⟩ := stampEntry_fields t₀ t.size bar dt
  let t₂ := (t₀.stampEntry t.size bar dt).flag t.size bar
  obtain ⟨hi₃, hs₃, hc₃, hj₃, hx₃, hp₃, hn₃⟩ := reprice_fields t₂ t.size s p
  let t₄ := (t₂.reprice t.size s p).settle
  obtain ⟨hi₅, hs₅, hc₅, hn₅, hx₅, hm₅, hp₅⟩ := enterAt_fields t₄ p
  obtain ⟨hi₆, hp₆, hc₆, hn₆, hm₆, hs₆, hst₆⟩ := finish_fields (t₄.enterAt p) p bar dt
  have hsize : t₂.size = t.size + s := hs₁
  have hclosed : ((t₄.enterAt p).isclosed = true) =
      (1e-10 ≤ Arith.abs t.size ∧ ¬ 1e-10 ≤ Arith.abs (t.size + s)) := by
    rw [hx₅, show t₄.isclosed = t₂.isclosed from hx₃, show t₂.isclosed =
      (decide (1e-10 ≤ Arith.abs t.size) && !decide (1e-10 ≤ Arith.abs (t₀.stampEntry t.size bar dt).size)) from rfl, hs₁]
    simp [t₀]
  constructor
  case dataIndex => exact hi₆.trans (hi₅.trans (hi₃.trans hi₁))
  case commission => exact hc₆.trans (hc₅.trans (hc₃.trans hc₁))
  case pnlcomm => rw [hm₆, hm₅ rfl, hn₆, hc₆, hn₅, hc₅]
  case size => rw [hs₆, hs₅, show t₄.size = t.size + s from hs₃.trans hsize]; simp only [hclosed]
  case status => rw [hst₆]; simp only [hclosed]
  case price =>
    rw [hp₆, hp₅, show t₄.justopened = decide (Arith.abs t.size < 1e-10) from hj₃.trans hj₁,
      show t₄.price = _ from hp₃, hsize, show t₂.price = t.price from hp₁]
    simp only [decide_eq_true_eq]
  case pnl =>
    rw [hn₆, hn₅, show t₄.pnl = _ from hn₃, hsize, show t₂.price = t.price from hp₁, show t₂.pnl = t.pnl from hn₁]

end

variable {t t' : Trade ℚ} {s p c : ℚ}

/-- A fill on the side of the trade. -/
theorem Updated.grows (h : Updated t t' s p c) (ht : 1e-10 ≤ |t.size|)
    (hside : (0 < t.size ∧ 0 < s) ∨ (t.size < 0 ∧ s < 0)) :
    t'.status = .Open ∧ t'.size = t.size + s ∧ t'.price = (t.size * t.price + s * p) / (t.size + s) ∧ t'.pnl = t.pnl := by
  have hlt : |t.size| < |t.size + s| := by
    rcases hside with ⟨h1, h2⟩ | ⟨h1, h2⟩
    · rw [abs_of_pos h1, abs_of_pos (add_pos h1 h2)]; linarith
    · rw [abs_of_neg h1, abs_of_neg (add_neg h1 h2)]; linarith
  have hbig : 1e-10 ≤ |t.size + s| := ht.trans hlt.le
  have hst := h.status
  have hsz := h.size
  have hp := h.price
  have hn := h.pnl
  simp only [Arith.abs_rat] at hst hsz hp hn
  rw [if_neg fun hc => hc.2 hbig] at hst hsz
  rw [if_neg (not_lt.2 ht), if_pos hlt] at hp
  rw [if_pos hlt] at hn
  exact ⟨hst, hsz, hp, hn⟩

/-- A fill against the trade and not beyond it. -/
theorem Updated.shrinks (h : Updated t t' s p c) (ht : 1e-10 ≤ |t.size|) (hle : |t.size + s| ≤ |t.size|) :
    t'.price = t.price ∧ t'.pnl = t.pnl + (-s) * (p - t.price) ∧
    (1e-10 ≤ |t.size + s| → t'.status = .Open ∧ t'.size = t.size + s) ∧
    (|t.size + s| < 1e-10 → t'.status = .Closed ∧ t'.size = 0) := by
  have hst := h.status
  have hsz := h.size
  have hp := h.price
  have hn := h.pnl
  simp only [Arith.abs_rat] at hst hsz hp hn
  rw [if_neg (not_lt.2 ht), if_neg (not_lt.2 hle)] at hp
  rw [if_neg (not_lt.2 hle), if_pos ht] at hn
  refine ⟨hp, hn, fun hbig => ?_, fun hsmall => ?_⟩
  · rw [if_neg fun hc => hc.2 hbig] at hst hsz
    exact ⟨hst, hsz⟩
  · rw [if_pos ⟨ht, not_le.2 hsmall⟩] at hst hsz
    exact ⟨hst, hsz⟩

/-- A fill that opens a trade. -/
theorem updated_fresh (id k cand : Nat) (bar : Nat) (dt : DateTime) (h : 1e-10 ≤ |s|) :
    let t' := (Trade.fresh id k cand).update s p c bar dt
    t'.dataIndex = k ∧ t'.status = .Open ∧ t'.size = s ∧ t'.price = p ∧ t'.worth = -(s * p) - c := by
  intro t'
  have hu : Updated (Trade.fresh id k cand) t' s p c := updated _ s p c bar dt (not_lt.2 h)
  have hz : ¬ (1e-10 : ℚ) ≤ |(0 : ℚ)| := by norm_num
  have hsz : t'.size = s := (hu.size.trans (if_neg fun hc => hz hc.1)).trans (zero_add s)
  have hp : t'.price = p := hu.price.trans (if_pos (not_le.1 hz))
  have hn : t'.pnl = 0 := by
    refine hu.pnl.trans ?_
    split
    exacts [rfl, if_neg hz]
  have hc : t'.commission = c := hu.commission.trans (zero_add c)
  refine ⟨hu.dataIndex, hu.status.trans (if_neg fun hc => hz hc.1), hsz, hp, ?_⟩
  · rw [worth, hsz, hp, hn, hc]
    ring

end Trade

/-! ### The trades of a data index -/

/-- A fill that keeps the book: it is not negligible, nor is what it leaves when it goes beyond the position
it meets; or it is no fill at all, of a position that is open. -/
def Clean (size fill : ℚ) : Prop :=
  (fill = 0 ∧ 1e-10 ≤ |size|) ∨ (1e-10 ≤ |fill| ∧ (|size| < |fill| → 1e-10 ≤ |size + fill|))

instance (size fill : ℚ) : Decidable (Clean size fill) :=
  inferInstanceAs (Decidable ((fill = 0 ∧ 1e-10 ≤ |size|) ∨ (1e-10 ≤ |fill| ∧ (|size| < |fill| → 1e-10 ≤ |size + fill|))))

/-- The trades of a data index are the position there: none, or the one that it is. -/
def Lots (k : Nat) (pos : Position ℚ) (trades : List (Trade ℚ × ℚ)) : Prop :=
  pos.price = pos.avgPrice ∧ (pos.size = 0 ∧ trades = [] ∨ 1e-10 ≤ |pos.size| ∧ ∃ t orig, trades = [(t, orig)] ∧
    t.dataIndex = k ∧ t.status = .Open ∧ t.size = pos.size ∧ t.price = pos.avgPrice)

/-- What a list of trades is worth. -/
def worth (trades : List (Trade ℚ × ℚ)) : ℚ := (trades.map (·.1.worth)).sum

namespace BackBroker
variable {α W : Type}

/-- The open trades of a data index. -/
def openOf (b : BackBroker α W) (k : Nat) : List (Trade α × α) := b.openTrades.filter (·.1.dataIndex == k)

def openElsewhere (b : BackBroker α W) (k : Nat) : List (Trade α × α) := b.openTrades.filter (!·.1.dataIndex == k)

theorem openOf_append_perm (b : BackBroker α W) (k : Nat) : (b.openOf k ++ b.openElsewhere k).Perm b.openTrades :=
  List.filter_append_perm ..

/-- The loop of `update_trades` finds the trade of the data index. -/
theorem openTradeIdx_of_openOf {b : BackBroker α W} {k : Nat} {t : Trade α} {orig : α} (h : b.openOf k = [(t, orig)])
    (hopen : t.status = .Open) : ∃ l l', b.openTrades = l ++ (t, orig) :: l' ∧ b.openTradeIdx k = l.length ∧
      b.openElsewhere k = l ++ l' := by
  obtain ⟨l, l', hl, hne, hk, hnone⟩ := List.filter_eq_cons_iff.1 h
  have hall : l.filter (!·.1.dataIndex == k) = l := List.filter_eq_self.2 fun x hx => by simpa using hne x hx
  have hall' : l'.filter (!·.1.dataIndex == k) = l' := List.filter_eq_self.2 fun x hx => by
    simpa using List.filter_eq_nil_iff.1 hnone x hx
  have hkeep : (!(t, orig).1.dataIndex == k) = false := by rw [hk]; rfl
  refine ⟨l, l', hl, ?_, ?_⟩
  · have hidx : b.openTradeIdx k = b.openTrades.findIdx fun x => x.1.dataIndex == k && x.1.isOpen := rfl
    have hlen : (l.findIdx fun x => x.1.dataIndex == k && x.1.isOpen) = l.length :=
      List.findIdx_eq_length.2 fun x hx => by
        have : (x.1.dataIndex == k) = false := by simpa using hne x hx
        simp [this]
    rw [hidx, hl, List.findIdx_append, hlen, if_neg (lt_irrefl _), List.findIdx_cons]
    have : ((t, orig).1.dataIndex == k && (t, orig).1.isOpen) = true := by
      rw [hk]; exact decide_eq_true hopen
    simp [this]
  · rw [openElsewhere, hl, List.filter_append, List.filter_cons, hkeep, hall, hall']
    rfl

end BackBroker

section
variable {W : Type} {k : Nat} {pos : Position ℚ} {s : ℚ} {t : Trade ℚ} {orig : ℚ} {trades : List (Trade ℚ × ℚ)} (p c : ℚ)

/-- A position that is opened. -/
theorem Lots.opens (hp : pos.price = pos.avgPrice) (h0 : pos.size = 0) (hs : 1e-10 ≤ |s|) (id cand bar : Nat) (dt : DateTime) :
    Lots k (pos.update s p) [((Trade.fresh id k cand).update s p c bar dt, s)] := by
  obtain ⟨hprice, havg⟩ := Position.update_avgPrice hp s p
  obtain ⟨hk, hst, hsz, hpr, -⟩ := @Trade.updated_fresh s p c id k cand bar dt hs
  have hsize : (pos.update s p).size = s := by
    rw [Position.size_update, h0, zero_add]
    exact if_neg (not_lt.2 hs)
  refine ⟨hprice, .inr ⟨by rw [hsize]; exact hs, _, _, rfl, hk, hst, hsz.trans hsize.symm, ?_⟩⟩
  rw [hpr, havg, h0, zero_add, if_neg (not_lt.2 hs), if_pos (by norm_num)]

/-- An open trade that is the position of its data index. -/
structure OneLot (k : Nat) (pos : Position ℚ) (t : Trade ℚ) : Prop where
  price : pos.price = pos.avgPrice
  big : 1e-10 ≤ |pos.size|
  dataIndex : t.dataIndex = k
  status : t.status = .Open
  size : t.size = pos.size
  avgPrice : t.price = pos.avgPrice

theorem OneLot.ne (h : OneLot k pos t) : pos.size ≠ 0 := abs_pos.1 (lt_of_lt_of_le (by norm_num) h.big)

theorem OneLot.lots (h : OneLot k pos t) : Lots k pos [(t, orig)] :=
  ⟨h.price, .inr ⟨h.big, t, orig, rfl, h.dataIndex, h.status, h.size, h.avgPrice⟩⟩

/-- A fill on the side of the position. -/
theorem OneLot.grows (h : OneLot k pos t) (hs : 1e-10 ≤ |s|) (hside : (0 < pos.size ∧ 0 < s) ∨ (pos.size < 0 ∧ s < 0))
    (bar : Nat) (dt : DateTime) : OneLot k (pos.update s p) (t.update s p c bar dt) ∧
      (t.update s p c bar dt).worth = t.worth - (s * p + c) := by
  have hu := Trade.updated t s p c bar dt (not_lt.2 hs)
  obtain ⟨hst, hsz, hpr, hpn⟩ := hu.grows (h.size ▸ h.big) (h.size ▸ hside)
  obtain ⟨hprice, havg⟩ := Position.update_avgPrice h.price s p
  have hbig : 1e-10 ≤ |pos.size + s| := by
    have hb := h.big
    rcases hside with ⟨h1, h2⟩ | ⟨h1, h2⟩
    · rw [abs_of_pos h1] at hb; rw [abs_of_pos (add_pos h1 h2)]; linarith
    · rw [abs_of_neg h1] at hb; rw [abs_of_neg (add_neg h1 h2)]; linarith
  have hsize : (pos.update s p).size = pos.size + s := (Position.size_update ..).trans (if_neg (not_lt.2 hbig))
  rw [if_neg (not_lt.2 hbig), if_neg (not_lt.2 h.big), if_pos hside] at havg
  refine ⟨⟨hprice, hsize ▸ hbig, hu.dataIndex.trans h.dataIndex, hst, ?_, ?_⟩, ?_⟩
  · rw [hsz, h.size, hsize]
  · rw [hpr, havg, h.size, h.avgPrice, mul_comm pos.size]
  · have hne : t.size + s ≠ 0 := by
      rw [h.size, ← abs_pos]
      exact lt_of_lt_of_le (by norm_num) hbig
    unfold Trade.worth
    rw [hsz, hpr, hpn, hu.commission, mul_div_cancel₀ _ hne]
    ring

theorem opposite_of {P s : ℚ} (hP : P ≠ 0) (hs : s ≠ 0) (h : ¬ ((0 < P ∧ 0 < s) ∨ (P < 0 ∧ s < 0))) :
    (0 < P ∧ s < 0) ∨ (P < 0 ∧ 0 < s) := by
  rcases lt_or_gt_of_ne hP with h1 | h1 <;> rcases lt_or_gt_of_ne hs with h2 | h2
  exacts [absurd (.inr ⟨h1, h2⟩) h, .inr ⟨h1, h2⟩, .inl ⟨h1, h2⟩, absurd (.inl ⟨h1, h2⟩) h]

theorem abs_add_le_of_opposite {P s : ℚ} (hopp : (0 < P ∧ s < 0) ∨ (P < 0 ∧ 0 < s)) (hle : |s| ≤ |P|) :
    |P + s| ≤ |P| ∧ (0 < P → 0 ≤ P + s) ∧ (P < 0 → P + s ≤ 0) := by
  rcases hopp with ⟨h1, h2⟩ | ⟨h1, h2⟩
  · rw [abs_of_neg h2, abs_of_pos h1] at hle
    have h3 : 0 ≤ P + s := by linarith
    exact ⟨by rw [abs_of_nonneg h3, abs_of_pos h1]; linarith, fun _ => h3, fun h4 => absurd h4 h1.not_gt⟩
  · rw [abs_of_pos h2, abs_of_neg h1] at hle
    have h3 : P + s ≤ 0 := by linarith
    exact ⟨by rw [abs_of_nonpos h3, abs_of_neg h1]; linarith, fun h4 => absurd h4 h1.not_gt, fun _ => h3⟩

/-- A fill against the position and not beyond it. -/
theorem OneLot.shrinks (h : OneLot k pos t) (hs : 1e-10 ≤ |s|)
    (hopp : (0 < pos.size ∧ s < 0) ∨ (pos.size < 0 ∧ 0 < s)) (hle : |s| ≤ |pos.size|) (bar : Nat) (dt : DateTime) :
    (t.update s p c bar dt).worth = t.worth - (s * p + c) - ((t.update s p c bar dt).size - (pos.size + s)) * t.price ∧
    (t.update s p c bar dt).pnlcomm = t.worth - (s * p + c) + (pos.size + s) * t.price ∧
    (1e-10 ≤ |pos.size + s| → OneLot k (pos.update s p) (t.update s p c bar dt)) ∧
    (|pos.size + s| < 1e-10 → (t.update s p c bar dt).status = .Closed ∧ Lots k (pos.update s p) []) := by
  have hu := Trade.updated t s p c bar dt (not_lt.2 hs)
  obtain ⟨hadd, hpos, hneg⟩ := abs_add_le_of_opposite hopp hle
  obtain ⟨hpr, hpn, hopen, hclosed⟩ := hu.shrinks (h.size ▸ h.big) (by rw [h.size]; exact hadd)
  obtain ⟨hprice, havg⟩ := Position.update_avgPrice h.price s p
  rw [h.size] at hopen hclosed
  refine ⟨?_, ?_, fun hbig => ?_, fun hsmall => ?_⟩
  · unfold Trade.worth
    rw [hpr, hpn, hu.commission, h.size]
    ring
  · rw [hu.pnlcomm, hpn, hu.commission]
    unfold Trade.worth
    rw [h.size]
    ring
  · have hsize : (pos.update s p).size = pos.size + s := (Position.size_update ..).trans (if_neg (not_lt.2 hbig))
    have hsame : ¬ ((0 < pos.size ∧ 0 < s) ∨ (pos.size < 0 ∧ s < 0)) := by
      rcases hopp with ⟨h1, h2⟩ | ⟨h1, h2⟩ <;> rintro (⟨h3, h4⟩ | ⟨h3, h4⟩) <;> linarith
    have hcross : ¬ ((0 < pos.size ∧ pos.size + s < 0) ∨ (pos.size < 0 ∧ 0 < pos.size + s)) := by
      rintro (⟨h1, h2⟩ | ⟨h1, h2⟩)
      exacts [absurd (hpos h1) (not_le.2 h2), absurd (hneg h1) (not_le.2 h2)]
    rw [if_neg (not_lt.2 hbig), if_neg (not_lt.2 h.big), if_neg hsame, if_neg hcross] at havg
    exact ⟨hprice, hsize ▸ hbig, hu.dataIndex.trans h.dataIndex, (hopen hbig).1, (hopen hbig).2.trans hsize.symm,
      hpr.trans (h.avgPrice.trans havg.symm)⟩
  · refine ⟨(hclosed hsmall).1, hprice, .inl ⟨?_, rfl⟩⟩
    exact (Position.size_update ..).trans (if_pos hsmall)

/-- No fill at all. -/
theorem OneLot.untouched (h : OneLot k pos t) : OneLot k (pos.update 0 p) t := by
  obtain ⟨hprice, havg⟩ := Position.update_avgPrice h.price 0 p
  have hsize : (pos.update 0 p).size = pos.size := by
    rw [Position.size_update, add_zero]
    exact if_neg (not_lt.2 h.big)
  have hcross : ¬ ((0 < pos.size ∧ pos.size < 0) ∨ (pos.size < 0 ∧ 0 < pos.size)) := by
    rintro (⟨h1, h2⟩ | ⟨h1, h2⟩) <;> exact lt_asymm h1 h2
  rw [add_zero, if_neg (not_lt.2 h.big), if_neg (not_lt.2 h.big), if_neg (by simp), if_neg hcross] at havg
  exact ⟨hprice, hsize.symm ▸ h.big, h.dataIndex, h.status, h.size.trans hsize.symm, h.avgPrice.trans havg.symm⟩

/-- A fill beyond the position: it closes the trade and opens another one with what is left. -/
theorem OneLot.flips (h : OneLot k pos t) (hopp : (0 < pos.size ∧ s < 0) ∨ (pos.size < 0 ∧ 0 < s))
    (hlt : |pos.size| < |s|) (hbig : 1e-10 ≤ |pos.size + s|) (c' : ℚ) (id cand bar : Nat) (dt : DateTime) :
    (t.update (-t.size) p c' bar dt).status = .Closed ∧
    Lots k (pos.update s p) [((Trade.fresh id k cand).update (s + t.size) p (c - c') bar dt, s + t.size)] ∧
    ((Trade.fresh id k cand).update (s + t.size) p (c - c') bar dt).worth + (t.update (-t.size) p c' bar dt).pnlcomm =
      t.worth - (s * p + c) := by
  have hopp' : (0 < pos.size ∧ -t.size < 0) ∨ (pos.size < 0 ∧ 0 < -t.size) := by
    rw [h.size]
    rcases hopp with ⟨h1, -⟩ | ⟨h1, -⟩
    exacts [.inl ⟨h1, neg_neg_of_pos h1⟩, .inr ⟨h1, neg_pos.2 h1⟩]
  have hzero : pos.size + -t.size = 0 := by rw [h.size]; ring
  have hclose := h.shrinks p c' (s := -t.size) (by rw [abs_neg, h.size]; exact h.big) hopp'
    (by rw [abs_neg, h.size]) bar dt
  obtain ⟨hprice, havg⟩ := Position.update_avgPrice h.price s p
  have hrest : s + t.size = pos.size + s := by rw [h.size, add_comm]
  obtain ⟨hk, hst, hsz, hpr, hw⟩ := @Trade.updated_fresh (s + t.size) p (c - c') id k cand bar dt (hrest ▸ hbig)
  have hsize : (pos.update s p).size = pos.size + s := (Position.size_update ..).trans (if_neg (not_lt.2 hbig))
  have hsame : ¬ ((0 < pos.size ∧ 0 < s) ∨ (pos.size < 0 ∧ s < 0)) := by
    rcases hopp with ⟨h1, h2⟩ | ⟨h1, h2⟩ <;> rintro (⟨h3, h4⟩ | ⟨h3, h4⟩) <;> linarith
  have hcross : (0 < pos.size ∧ pos.size + s < 0) ∨ (pos.size < 0 ∧ 0 < pos.size + s) := by
    rcases hopp with ⟨h1, h2⟩ | ⟨h1, h2⟩
    · rw [abs_of_pos h1, abs_of_neg h2] at hlt; exact .inl ⟨h1, by linarith⟩
    · rw [abs_of_neg h1, abs_of_pos h2] at hlt; exact .inr ⟨h1, by linarith⟩
  rw [if_neg (not_lt.2 hbig), if_neg (not_lt.2 h.big), if_neg hsame, if_pos hcross] at havg
  refine ⟨(hclose.2.2.2 (by rw [hzero]; norm_num)).1, ⟨hprice, .inr ⟨hsize ▸ hbig, _, _, rfl, hk, hst, ?_, ?_⟩⟩, ?_⟩
  · rw [hsz, hrest, hsize]
  · rw [hpr, havg]
  · rw [hw, hclose.2.1, hzero]
    ring

theorem Lots.cases (h : Lots k pos trades) : pos.price = pos.avgPrice ∧ pos.size = 0 ∧ trades = [] ∨
    ∃ t orig, trades = [(t, orig)] ∧ OneLot k pos t := by
  obtain ⟨hp, ⟨h0, hnil⟩ | ⟨hbig, t, orig, ht, hk, hst, hsz, hpr⟩⟩ := h
  exacts [.inl ⟨hp, h0, hnil⟩, .inr ⟨t, orig, ht, hp, hbig, hk, hst, hsz, hpr⟩]

namespace BackBroker
variable {b b' : BackBroker ℚ W} {l l' : List (Trade ℚ × ℚ)}

/-- What a fill makes of the trades: those of other data indices stay, and what it adds to the worth of the
book is what it pays out, unless something negligible is left of what it closes. -/
def TradesTake (b b' : BackBroker ℚ W) (k : Nat) (pos : Position ℚ) (s p c : ℚ) : Prop :=
  ∃ new closed, b'.openTrades.Perm (new ++ b.openElsewhere k) ∧ b'.closedTrades = b.closedTrades ++ closed ∧
    Lots k (pos.update s p) new ∧ (∀ x ∈ closed, x.1.status = .Closed) ∧
    (1e-10 ≤ |s| → pos.size + s = 0 ∨ 1e-10 ≤ |pos.size + s| →
      worth new + (closed.map (·.1.pnlcomm)).sum = worth (b.openOf k) - (s * p + c))

/-- A flat position: a trade is opened. -/
theorem updateTrades_opens (hprice : pos.price = pos.avgPrice) (h0 : pos.size = 0) (hnil : b.openOf k = [])
    (hs : 1e-10 ≤ |s|) (bar : Nat) (dt : DateTime) (cand : Nat) :
    TradesTake b (b.updateTrades Hooks.none k pos.size s p c bar dt cand) k pos s p c := by
  have hothers : b.openElsewhere k = b.openTrades :=
    List.filter_eq_self.2 fun x hx => by simpa using (List.filter_eq_nil_iff.1 hnil x hx)
  unfold updateTrades
  rw [if_pos (show Arith.abs pos.size < 1e-10 by rw [h0, Arith.abs_rat, abs_zero]; norm_num)]
  refine ⟨_, [], ?_, (List.append_nil _).symm, 
    .opens p c hprice h0 hs b.nextTradeId cand bar dt, by simp, fun _ _ => ?_⟩
  · rw [hothers]
    exact List.perm_append_comm
  · obtain ⟨-, -, -, -, hw⟩ := @Trade.updated_fresh s p c b.nextTradeId k cand bar dt hs
    rw [hnil]
    simp [worth, hw]
    ring

theorem openTrades_set (hlist : b.openTrades = l ++ (t, orig) :: l') (x : Trade ℚ × ℚ) :
    b.openTrades.set l.length x = l ++ x :: l' := by
  rw [hlist]; simp

theorem openTrades_set_erase (hlist : b.openTrades = l ++ (t, orig) :: l') (x : Trade ℚ × ℚ) :
    (b.openTrades.set l.length x).eraseIdx l.length = l ++ l' := by
  rw [openTrades_set hlist, List.eraseIdx_append_of_length_le (le_refl _), Nat.sub_self, List.eraseIdx_cons_zero]

/-- One trade of the list replaced, and the worth of the trade that was there. -/
theorem TradesTake.replaced (hone : b.openOf k = [(t, orig)])
    (hothers : b.openElsewhere k = l ++ l') {t' : Trade ℚ} {orig' : ℚ} (hopen : b'.openTrades = l ++ (t', orig') :: l')
    (hclosed : b'.closedTrades = b.closedTrades) (hlot : OneLot k (pos.update s p) t')
    (hw : 1e-10 ≤ |s| → pos.size + s = 0 ∨ 1e-10 ≤ |pos.size + s| → t'.worth = t.worth - (s * p + c)) :
    TradesTake b b' k pos s p c := by
  refine ⟨[(t', orig')], [], ?_, by rw [hclosed, List.append_nil], hlot.lots, by simp, fun hs hrest => ?_⟩
  · rw [hopen, hothers]
    exact List.perm_middle
  · rw [hone]
    simp [worth, hw hs hrest]

/-- A fill on the side of the position. -/
theorem updateTrades_grows (hlist : b.openTrades = l ++ (t, orig) :: l') (hone : b.openOf k = [(t, orig)])
    (hidx : b.openTradeIdx k = l.length) (hothers : b.openElsewhere k = l ++ l') (h : OneLot k pos t) (hs : 1e-10 ≤ |s|)
    (hside : (0 < pos.size ∧ 0 < s) ∨ (pos.size < 0 ∧ s < 0)) (bar : Nat) (dt : DateTime) (cand : Nat) :
    TradesTake b (b.updateTrades Hooks.none k pos.size s p c bar dt cand) k pos s p c := by
  obtain ⟨hone', hw⟩ := h.grows p c hs hside bar dt
  unfold updateTrades
  dsimp only
  rw [if_neg (show ¬ Arith.abs pos.size < 1e-10 from not_lt.2 h.big), hidx, if_pos hside]
  have hmod : b.openTrades.modify l.length (fun (t, orig) => (t.update s p c bar dt, orig + s)) =
      l ++ (t.update s p c bar dt, orig + s) :: l' := by
    rw [hlist, List.modify_eq_set_getElem?]; simp
  exact .replaced p c hone hothers hmod rfl hone' fun _ _ => hw

/-- A fill beyond the position. -/
theorem updateTrades_flips (hlist : b.openTrades = l ++ (t, orig) :: l') (hone : b.openOf k = [(t, orig)])
    (hidx : b.openTradeIdx k = l.length) (hothers : b.openElsewhere k = l ++ l') (h : OneLot k pos t)
    (hside : ¬ ((0 < pos.size ∧ 0 < s) ∨ (pos.size < 0 ∧ s < 0))) (hflip : |pos.size| < |s|)
    (hbig : 1e-10 ≤ |pos.size + s|) (bar : Nat) (dt : DateTime) (cand : Nat) :
    TradesTake b (b.updateTrades Hooks.none k pos.size s p c bar dt cand) k pos s p c := by
  have hopp := opposite_of h.ne (abs_pos.1 ((abs_nonneg _).trans_lt hflip)) hside
  have hget : b.openTrades[l.length]? = some (t, orig) := by rw [hlist]; simp
  unfold updateTrades
  dsimp only
  rw [if_neg (show ¬ Arith.abs pos.size < 1e-10 from not_lt.2 h.big), hidx, if_neg hside, hget]
  dsimp only
  rw [h.size, if_pos (show Arith.abs pos.size < Arith.abs s from hflip)]
  have hf := h.flips p c hopp hflip hbig (Arith.abs pos.size / Arith.abs s * c) b.nextTradeId cand bar dt
  rw [h.size] at hf
  obtain ⟨hst, hlots, hw⟩ := hf
  refine ⟨_, [(t.update (-pos.size) p (Arith.abs pos.size / Arith.abs s * c) bar dt, orig)], ?_, rfl, hlots, ?_,
    fun _ _ => ?_⟩
  · show ((b.openTrades.set l.length _).eraseIdx l.length ++ [_]).Perm _
    rw [openTrades_set_erase hlist, hothers]
    exact List.perm_append_comm
  · intro x hx
    rw [List.mem_singleton.1 hx]
    exact hst
  · rw [hone]
    simpa [worth] using hw

/-- No fill at all. -/
theorem updateTrades_untouched (hlist : b.openTrades = l ++ (t, orig) :: l') (hone : b.openOf k = [(t, orig)])
    (hidx : b.openTradeIdx k = l.length) (hothers : b.openElsewhere k = l ++ l') (h : OneLot k pos t) (bar : Nat)
    (dt : DateTime) (cand : Nat) :
    TradesTake b (b.updateTrades Hooks.none k pos.size 0 p c bar dt cand) k pos 0 p c := by
  have hget : b.openTrades[l.length]? = some (t, orig) := by rw [hlist]; simp
  unfold updateTrades
  dsimp only
  rw [if_neg (show ¬ Arith.abs pos.size < 1e-10 from not_lt.2 h.big), hidx,
    if_neg (by simp : ¬ ((0 < pos.size ∧ (0 : ℚ) < 0) ∨ (pos.size < 0 ∧ (0 : ℚ) < 0))), hget]
  dsimp only
  rw [h.size, if_neg (show ¬ Arith.abs pos.size < Arith.abs 0 by simp [Arith.abs_rat]),
    Trade.update_negligible t 0 p c bar dt (by norm_num),
    if_neg (show ¬ t.isClosed = true by rw [Trade.isClosed, h.status]; decide)]
  refine .replaced p c hone hothers (openTrades_set hlist (t, orig)) rfl (h.untouched p) fun hs => ?_
  rw [abs_zero] at hs
  norm_num at hs

/-- A fill against the position and not beyond it. -/
theorem updateTrades_shrinks (hlist : b.openTrades = l ++ (t, orig) :: l') (hone : b.openOf k = [(t, orig)])
    (hidx : b.openTradeIdx k = l.length) (hothers : b.openElsewhere k = l ++ l') (h : OneLot k pos t) (hs : 1e-10 ≤ |s|)
    (hside : ¬ ((0 < pos.size ∧ 0 < s) ∨ (pos.size < 0 ∧ s < 0))) (hle : |s| ≤ |pos.size|) (bar : Nat)
    (dt : DateTime) (cand : Nat) :
    TradesTake b (b.updateTrades Hooks.none k pos.size s p c bar dt cand) k pos s p c := by
  have hopp := opposite_of h.ne (abs_pos.1 (lt_of_lt_of_le (by norm_num) hs)) hside
  have hget : b.openTrades[l.length]? = some (t, orig) := by rw [hlist]; simp
  obtain ⟨hw, hcomm, hopen, hclosed⟩ := h.shrinks p c hs hopp hle bar dt
  unfold updateTrades
  dsimp only
  rw [if_neg (show ¬ Arith.abs pos.size < 1e-10 from not_lt.2 h.big), hidx, if_neg hside, hget]
  dsimp only
  rw [h.size, if_neg (show ¬ Arith.abs pos.size < Arith.abs s from not_lt.2 hle)]
  by_cases hbig : 1e-10 ≤ |pos.size + s|
  · -- the trade stays open
    have hone' := hopen hbig
    rw [if_neg (show ¬ (t.update s p c bar dt).isClosed = true by rw [Trade.isClosed, hone'.status]; decide)]
    refine .replaced p c hone hothers (openTrades_set hlist _) rfl hone' fun _ _ => ?_
    have hsize : (t.update s p c bar dt).size = pos.size + s := by
      rw [hone'.size, Position.size_update]
      exact if_neg (not_lt.2 hbig)
    rwa [hsize, sub_self, zero_mul, sub_zero] at hw
  · -- it is closed
    obtain ⟨hst, hlots⟩ := hclosed (not_le.1 hbig)
    rw [if_pos (show (t.update s p c bar dt).isClosed = true by rw [Trade.isClosed, hst]; decide)]
    refine ⟨[], [(t.update s p c bar dt, orig)], ?_, rfl, hlots, ?_, fun _ hrest => ?_⟩
    · show ((b.openTrades.set l.length _).eraseIdx l.length).Perm _
      rw [openTrades_set_erase hlist, hothers]
      exact .refl _
    · intro x hx
      rw [List.mem_singleton.1 hx]
      exact hst
    · rw [hrest.resolve_right hbig, zero_mul, add_zero] at hcomm
      rw [hone]
      simp [worth, hcomm]

/-- What a clean fill makes of the trades. -/
theorem updateTrades_lots (hl : Lots k pos (b.openOf k)) (hc : Clean pos.size s) (bar : Nat) (dt : DateTime)
    (cand : Nat) : TradesTake b (b.updateTrades Hooks.none k pos.size s p c bar dt cand) k pos s p c := by
  rcases hl.cases with ⟨hprice, h0, hnil⟩ | ⟨t, orig, hone, h⟩
  · refine updateTrades_opens p c hprice h0 hnil ?_ bar dt cand
    rcases hc with ⟨-, hbig⟩ | ⟨hs, -⟩
    · rw [h0, abs_zero] at hbig; norm_num at hbig
    · exact hs
  · obtain ⟨l, l', hlist, hidx, hothers⟩ := openTradeIdx_of_openOf hone h.status
    rcases hc with ⟨rfl, -⟩ | ⟨hs, hrest⟩
    · exact updateTrades_untouched p c hlist hone hidx hothers h bar dt cand
    · by_cases hside : (0 < pos.size ∧ 0 < s) ∨ (pos.size < 0 ∧ s < 0)
      · exact updateTrades_grows p c hlist hone hidx hothers h hs hside bar dt cand
      · rcases lt_or_ge |pos.size| |s| with hflip | hle
        · exact updateTrades_flips p c hlist hone hidx hothers h hside hflip (hrest hflip) bar dt cand
        · exact updateTrades_shrinks p c hlist hone hidx hothers h hs hside hle bar dt cand

end BackBroker

end

/-! ### The book of a run -/

namespace BackBroker
variable {W : Type}

/-- Trades and positions agree at every data index, and what is closed is closed. -/
structure Balanced (b : BackBroker ℚ W) : Prop where
  lots : ∀ k, Lots k (b.holding k) (b.openOf k)
  closed : ∀ x ∈ b.closedTrades, x.1.status = .Closed

/-- `P` holds of every fill and of the position that it meets. -/
def FillsMeet (im : Nat → Option (Instrument ℚ)) (P : ℚ → ℚ → Prop) (xs : List (Execution ℚ)) : Prop :=
  ∀ pre x post, xs = pre ++ x :: post → P (replayPosition im x.order.dataIndex pre).size x.size

theorem fillsMeet_iff {im : Nat → Option (Instrument ℚ)} {P : ℚ → ℚ → Prop} {xs : List (Execution ℚ)} : FillsMeet im P xs ↔
    ∀ i, (h : i < xs.length) → P (replayPosition im xs[i].order.dataIndex (xs.take i)).size xs[i].size := by
  constructor
  · intro hf i hi
    refine hf (xs.take i) xs[i] (xs.drop (i + 1)) ?_
    rw [← List.drop_eq_getElem_cons hi, List.take_append_drop]
  · rintro h pre x post rfl
    simpa using h pre.length (by simp)

instance {im : Nat → Option (Instrument ℚ)} {P : ℚ → ℚ → Prop} [∀ size fill, Decidable (P size fill)]
    (xs : List (Execution ℚ)) : Decidable (FillsMeet im P xs) :=
  decidable_of_iff _ fillsMeet_iff.symm

theorem FillsMeet.of_append {im : Nat → Option (Instrument ℚ)} {P : ℚ → ℚ → Prop} {xs : List (Execution ℚ)}
    {x : Execution ℚ} (h : FillsMeet im P (xs ++ [x])) :
    FillsMeet im P xs ∧ P (replayPosition im x.order.dataIndex xs).size x.size :=
  ⟨fun pre y post heq => h pre y (post ++ [x]) (by rw [heq, List.append_assoc]; rfl), h xs x [] rfl⟩

variable {b b₀ : BackBroker ℚ W}

/-- The trades are updated once the position has been, by what it was before. -/
theorem enter_eq_updateTrades (b : BackBroker ℚ W) (x : Execution ℚ) (dt : DateTime) : b.enter x dt =
    ((((b.pay x.currency (x.size * x.price + x.commission)).ensurePosition x.order.dataIndex).updatePosition
      x.order.dataIndex x.size x.price).note (.executed x)).updateTrades Hooks.none x.order.dataIndex
      (b.holding x.order.dataIndex).size x.size x.price x.commission b.dataBarIndex dt x.order.candidateId := by
  let b1 := (b.pay x.currency (x.size * x.price + x.commission)).ensurePosition x.order.dataIndex
  have hold : (b1.position x.order.dataIndex).size = (b.holding x.order.dataIndex).size := by
    rw [position_size, show b1.holding x.order.dataIndex = b.holding x.order.dataIndex from
      @holding_ensured _ _ _ (b.pay x.currency (x.size * x.price + x.commission)) b1 rfl ⟨[x.order.dataIndex], rfl⟩ _]
  rw [← hold]
  rfl

/-- A clean fill, in the books. -/
theorem Balanced.enter (h : b.Balanced) (x : Execution ℚ) (dt : DateTime)
    (hc : Clean (b.holding x.order.dataIndex).size x.size) : (b.enter x dt).Balanced ∧
      ∃ new closed, (b.enter x dt).openTrades.Perm (new ++ b.openElsewhere x.order.dataIndex) ∧
        (b.enter x dt).closedTrades = b.closedTrades ++ closed ∧
        (1e-10 ≤ |x.size| → (b.holding x.order.dataIndex).size + x.size = 0 ∨
            1e-10 ≤ |(b.holding x.order.dataIndex).size + x.size| →
          worth new + (closed.map (·.1.pnlcomm)).sum =
            worth (b.openOf x.order.dataIndex) - (x.size * x.price + x.commission)) := by
  let k := x.order.dataIndex
  let b1 := (b.pay x.currency (x.size * x.price + x.commission)).ensurePosition k
  let b2 := (b1.updatePosition k x.size x.price).note (.executed x)
  have heq : b.enter x dt = b2.updateTrades Hooks.none k (b.holding k).size x.size x.price x.commission
      b.dataBarIndex dt x.order.candidateId := b.enter_eq_updateTrades x dt
  obtain ⟨new, closed, hperm, hclosed, hlots, hst, hworth⟩ := @updateTrades_lots _ k (b.holding k) x.size x.price
    x.commission b2 (h.lots k) hc b.dataBarIndex dt x.order.candidateId
  rw [← heq] at hperm hclosed
  refine ⟨⟨fun k' => ?_, fun y hy => ?_⟩, new, closed, hperm, hclosed, hworth⟩
  · rw [enter_holding]
    have hfilter := hperm.filter (·.1.dataIndex == k')
    rw [List.filter_append] at hfilter
    by_cases hk : k' = k
    · rw [if_pos hk, show b.holding k' = b.holding k by rw [hk]]
      have hnone : (b2.openElsewhere k).filter (·.1.dataIndex == k') = [] :=
        List.filter_eq_nil_iff.2 fun y hy => by
          have : ¬ y.1.dataIndex = k := by simpa using (List.mem_filter.1 hy).2
          simpa [hk] using this
      have hall : new.filter (·.1.dataIndex == k') = new := List.filter_eq_self.2 fun y hy => by
        rcases hlots.cases with ⟨-, -, rfl⟩ | ⟨t, orig, rfl, ht⟩
        · cases hy
        · rw [List.mem_singleton.1 hy, hk]
          exact beq_iff_eq.2 ht.dataIndex
      rw [hnone, hall, List.append_nil] at hfilter
      rw [hk]
      rw [hk] at hfilter
      rcases hlots.cases with ⟨hp, h0, rfl⟩ | ⟨t, orig, rfl, ht⟩
      · exact ⟨hp, .inl ⟨h0, List.perm_nil.1 hfilter⟩⟩
      · rw [show (b.enter x dt).openOf k = [(t, orig)] from List.perm_singleton.1 hfilter]
        exact ht.lots
    · rw [if_neg hk]
      have hnone : new.filter (·.1.dataIndex == k') = [] := List.filter_eq_nil_iff.2 fun y hy => by
        rcases hlots.cases with ⟨-, -, rfl⟩ | ⟨t, orig, rfl, ht⟩
        · cases hy
        · rw [List.mem_singleton.1 hy]
          simpa [ht.dataIndex] using fun h : k = k' => hk h.symm
      have hsame : (b2.openElsewhere k).filter (·.1.dataIndex == k') = b.openOf k' := by
        show (b.openTrades.filter _).filter _ = _
        rw [List.filter_filter]
        refine List.filter_congr fun y _ => ?_
        by_cases hy : y.1.dataIndex = k'
        · simp [hy, hk]
        · simp [hy]
      rw [hnone, hsame, List.nil_append] at hfilter
      have hl := h.lots k'
      rcases hl.cases with ⟨hp, h0, hnil⟩ | ⟨t, orig, hone, ht⟩
      · rw [hnil] at hfilter
        exact ⟨hp, .inl ⟨h0, List.perm_nil.1 hfilter⟩⟩
      · rw [hone] at hfilter
        rw [show (b.enter x dt).openOf k' = [(t, orig)] from List.perm_singleton.1 hfilter]
        exact ht.lots
  · rw [hclosed] at hy
    rcases List.mem_append.1 hy with hy | hy
    exacts [h.closed y hy, hst y hy]

theorem SameBooks.balanced {b' : BackBroker ℚ W} (hs : SameBooks b b') (h : b.Balanced) : b'.Balanced := by
  refine ⟨fun k => ?_, hs.closedTrades ▸ h.closed⟩
  rw [hs.holding k, openOf, hs.openTrades]
  exact h.lots k

theorem kept_balanced (b₀ : BackBroker ℚ W) : Kept fun b : BackBroker ℚ W =>
    Replayed b₀ b ∧ (FillsMeet b₀.instrumentMap Clean b.executions → b.Balanced) where
  same b b' hs h := ⟨(kept_replayed b₀).same b b' hs h.1, fun hc => hs.balanced (h.2 (hs.executions ▸ hc))⟩
  enter b x dt hx h := by
    refine ⟨(kept_replayed b₀).enter b x dt hx h.1, fun hc => ?_⟩
    rw [enter_executions] at hc
    obtain ⟨hbefore, hclean⟩ := hc.of_append
    rw [← h.1.holding] at hclean
    exact ((h.2 hbefore).enter x dt hclean).1

theorem Balanced.of_fresh (hf : b.Fresh) : b.Balanced := by
  refine ⟨fun k => ⟨?_, .inl ⟨?_, by rw [openOf, hf.openTrades]; rfl⟩⟩, by simp [hf.closedTrades]⟩
  all_goals
    unfold holding findPosition
    rw [hf.positions]
    rfl

end BackBroker

end StratForge
