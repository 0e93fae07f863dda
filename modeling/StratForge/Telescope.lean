import Mathlib.Algebra.Group.Subgroup.ZPowers.Basic
import Mathlib.Tactic.FieldSimp
import Mathlib.Tactic.Linarith
import Mathlib.Tactic.Positivity
import StratForge.LiveFill

/-!
# Cumulative fills telescope

A connector reports what is filled of an order as growing snapshots with an average price, and
`record_live_fill` books the differences at prices it recovers from two averages. After any number of
snapshots the books are as if the last one had been booked alone (`Reported`); `live_fills_telescope`
is that statement for a sequence that ends at the size of the order.
-/

namespace StratForge

variable {W : Type}

/-- Nothing lies between zero and a lot. -/
theorem lot_le_abs {lot x : ℚ} (hx : x ∈ AddSubgroup.zmultiples lot) (hne : x ≠ 0) : lot ≤ |x| := by
  obtain ⟨n, rfl⟩ := AddSubgroup.mem_zmultiples_iff.1 hx
  rw [zsmul_eq_mul] at hne ⊢
  have hn : n ≠ 0 := fun h => hne (by rw [h, Int.cast_zero, zero_mul])
  have h1 : (1 : ℚ) ≤ |(n : ℚ)| := by exact_mod_cast Int.one_le_abs hn
  calc lot ≤ |lot| := le_abs_self lot
    _ ≤ |(n : ℚ)| * |lot| := le_mul_of_one_le_left (abs_nonneg lot) h1
    _ = |(n : ℚ) * lot| := (abs_mul _ _).symm

/-- The snapshot goes further than the last one, in its direction. -/
structure Grows (last : Option (Trade ℚ)) (t : Trade ℚ) : Prop where
  ne : t.size ≠ 0
  grow : ∀ p, last = some p → (0 < p.size ∧ p.size < t.size) ∨ (p.size < 0 ∧ t.size < p.size)

theorem Grows.abs_add {last : Option (Trade ℚ)} {t : Trade ℚ} (h : Grows last t) :
    |(last.map Trade.size).getD 0| + |t.size - (last.map Trade.size).getD 0| = |t.size| := by
  cases last with
  | none => simp
  | some p =>
    show |p.size| + |t.size - p.size| = |t.size|
    rcases h.grow p rfl with ⟨hp, ht⟩ | ⟨hp, ht⟩
    · rw [abs_of_pos hp, abs_of_pos (sub_pos.2 ht), abs_of_pos (hp.trans ht)]
      ring
    · rw [abs_of_neg hp, abs_of_neg (sub_neg.2 ht), abs_of_neg (ht.trans hp)]
      ring

theorem Grows.delta_ne {last : Option (Trade ℚ)} {t : Trade ℚ} (h : Grows last t) :
    t.size - (last.map Trade.size).getD 0 ≠ 0 := by
  cases last with
  | none => simpa using h.ne
  | some p =>
    rcases h.grow p rfl with ⟨_, ht⟩ | ⟨_, ht⟩
    exacts [sub_ne_zero.2 ht.ne', sub_ne_zero.2 ht.ne]

/-- The price that is recovered from two averages values the difference of the snapshots at the difference
of their values. -/
theorem liveFillPrice_mul {prev : Option (Trade ℚ)} {t : Trade ℚ} (hopen : t.isClosed = false)
    (hgrow : Grows prev t) :
    (t.size - (prev.map Trade.size).getD 0) * BackBroker.liveFillPrice prev t =
      t.size * t.entryPrice - (prev.map fun p => p.size * p.entryPrice).getD 0 := by
  cases prev with
  | none => simp [BackBroker.liveFillPrice]
  | some p =>
    have hg := hgrow.grow p rfl
    have hpos : 0 < |t.size - p.size| := by
      rw [abs_pos, sub_ne_zero]
      rcases hg with ⟨_, h⟩ | ⟨_, h⟩
      exacts [h.ne', h.ne]
    have hprice : BackBroker.liveFillPrice (some p) t =
        (t.entryPrice * |t.size| - p.entryPrice * |p.size|) / |t.size - p.size| := by
      unfold BackBroker.liveFillPrice
      simp [hopen, hg, hpos]
    show (t.size - p.size) * BackBroker.liveFillPrice (some p) t = t.size * t.entryPrice - p.size * p.entryPrice
    rw [hprice]
    rcases hg with ⟨hp, ht⟩ | ⟨hp, ht⟩
    · rw [abs_of_pos hp, abs_of_pos (hp.trans ht), abs_of_pos (sub_pos.2 ht)]
      have : t.size - p.size ≠ 0 := (sub_pos.2 ht).ne'
      field_simp
    · rw [abs_of_neg hp, abs_of_neg (ht.trans hp), abs_of_neg (sub_neg.2 ht)]
      have : t.size - p.size ≠ 0 := (sub_neg.2 ht).ne
      field_simp
      ring

namespace BackBroker

/-- The books after the snapshots up to `last`, from `b`: those of `last` booked alone. -/
structure Reported (b b' : BackBroker ℚ (Live ℚ W)) (o : Order ℚ) (last : Option (Trade ℚ)) : Prop where
  numbered : b'.Numbered
  settings : b'.toBrokerSettings = b.toBrokerSettings
  holding : (b'.holding o.dataIndex).size = (b.holding o.dataIndex).size + (last.map Trade.size).getD 0
  cash : b'.cash = fun c =>
    if c = b.baseCcy then
      b.cash c - (last.map fun t => t.size * t.entryPrice).getD 0 - (last.map Trade.commission).getD 0
    else b.cash c
  record : ∃ r, b'.findOrder o.id = some r ∧ Order.Same o r ∧ r.executedSize = |(last.map Trade.size).getD 0| ∧
    r.commission = (last.map Trade.commission).getD 0

variable {h : LiveHooks ℚ W} {b b' : BackBroker ℚ (Live ℚ W)} {o : Order ℚ} {last : Option (Trade ℚ)} {t : Trade ℚ}
  {lot : ℚ}

/-- One more snapshot. -/
theorem Reported.next (hr : Reported b b' o last) (hh : LiveTame h) (hsnap : b'.world.snapshots o.id = last)
    (hinst : b.instrumentMap o.dataIndex = none) (hid : t.id = o.id) (hopen : t.isClosed = false)
    (hgrow : Grows last t) (hlot : 1e-9 ≤ lot)
    (hpos : (b.holding o.dataIndex).size + (last.map Trade.size).getD 0 ∈ AddSubgroup.zmultiples lot)
    (hdelta : t.size - (last.map Trade.size).getD 0 ∈ AddSubgroup.zmultiples lot) :
    Reported b (b'.recordLiveFill h t) o (some t) ∧
    ((b'.recordLiveFill h t).world.snapshots o.id = if liveTerminal o t then none else some t) ∧
    (liveTerminal o t = true → ∃ r, (b'.recordLiveFill h t).findOrder o.id = some r ∧ r.status = .Completed) := by
  obtain ⟨r, hf, hs, hexec, hcomm⟩ := hr.record
  have hsize : b'.bookedSize t.id = (last.map Trade.size).getD 0 := by rw [bookedSize, hid, hsnap]
  have hbooked : b'.bookedCommission t.id = (last.map Trade.commission).getD 0 := by rw [bookedCommission, hid, hsnap]
  have hrep : ¬ b'.Repeats t := by
    have := lot_le_abs hdelta hgrow.delta_ne
    rw [Repeats, hsize, Arith.abs_rat, not_lt]
    exact (by norm_num : (1e-12 : ℚ) ≤ 1e-9).trans (hlot.trans this)
  have hterm : liveTerminal r t = liveTerminal o t := by unfold liveTerminal; rw [hs.size]
  have hk := recordLiveFill_books hh hr.numbered (hid ▸ hf) hrep
  have hsettle : b'.settleCcy r.dataIndex = b.baseCcy := by
    rw [hs.dataIndex, hr.settings]
    unfold BrokerSettings.settleCcy
    rw [hinst]
  have hprice := @liveFillPrice_mul last t hopen hgrow
  refine ⟨⟨hk.numbered, hk.settings.trans hr.settings, ?_, ?_, ?_⟩, ?_, fun ht => ?_⟩
  · rw [hk.holding, if_pos hs.dataIndex.symm, Position.size_update, hr.holding, hsize]
    show _ = _ + t.size
    have heq : (b.holding o.dataIndex).size + (last.map Trade.size).getD 0 +
        (t.size - (last.map Trade.size).getD 0) = (b.holding o.dataIndex).size + t.size := by ring
    split_ifs with hflat
    · -- less than a lot is nothing
      rw [heq] at hflat
      by_contra hne
      have hmem : (b.holding o.dataIndex).size + t.size ∈ AddSubgroup.zmultiples lot := heq ▸ add_mem hpos hdelta
      have hle := lot_le_abs hmem (Ne.symm hne)
      rw [Arith.abs_rat] at hflat
      have : (1e-10 : ℚ) < 1e-9 := by norm_num
      linarith
    · exact heq
  · rw [hk.cash, hsettle, hsize, hbooked, hid, hsnap, hprice, hr.cash]
    funext c
    by_cases hc : c = b.baseCcy
    · simp only [if_pos hc, Option.map_some, Option.getD_some]
      cases last <;> simp <;> ring
    · simp only [if_neg hc]
  · obtain ⟨r', hf', hs', hexec', hcomm', -⟩ := hk.record
    refine ⟨r', hid ▸ hf', hs.trans hs', ?_, ?_⟩
    · rw [hexec', hexec, hsize, Arith.abs_rat]
      exact hgrow.abs_add
    · rw [hcomm', hcomm, hbooked]
      show _ = t.commission
      ring
  · rw [hk.snapshots, ← hterm]
    exact if_pos hid.symm
  · obtain ⟨r', hf', -, -, -, hst⟩ := hk.record
    rw [hterm, ht] at hst
    exact ⟨r', hid ▸ hf', hst.resolve_right fun hc => nomatch hc.1⟩

/-- Any number of snapshots before the one that ends the order. -/
theorem Reported.upTo (hh : LiveTame h) (hinst : b.instrumentMap o.dataIndex = none) (hlot : 1e-9 ≤ lot)
    (hpos : (b.holding o.dataIndex).size ∈ AddSubgroup.zmultiples lot) {final : Trade ℚ}
    (hfinal : liveTerminal o final = true) (ts : List (Trade ℚ)) :
    ∀ {b' : BackBroker ℚ (Live ℚ W)} {last : Option (Trade ℚ)}, Reported b b' o last → b'.world.snapshots o.id = last →
    (last.map Trade.size).getD 0 ∈ AddSubgroup.zmultiples lot →
    (∀ t ∈ ts ++ [final], Grows last t ∧ t.id = o.id ∧ t.isClosed = false ∧ t.size ∈ AddSubgroup.zmultiples lot) →
    (ts ++ [final]).Pairwise (fun p t => Grows (some p) t) → (∀ t ∈ ts, liveTerminal o t = false) →
    Reported b ((ts ++ [final]).foldl (fun b t => b.recordLiveFill h t) b') o (some final) ∧
      ∃ r, ((ts ++ [final]).foldl (fun b t => b.recordLiveFill h t) b').findOrder o.id = some r ∧
        r.status = .Completed := by
  induction ts with
  | nil =>
    intro b' last hr hsnap hlots hall _ _
    obtain ⟨hgrow, hid, hopen, hsize⟩ := hall final (List.mem_singleton_self _)
    obtain ⟨hr', -, hdone⟩ := hr.next hh hsnap hinst hid hopen hgrow hlot (add_mem hpos hlots) (sub_mem hsize hlots)
    exact ⟨hr', hdone hfinal⟩
  | cons t ts ih =>
    intro b' last hr hsnap hlots hall hpair hterm
    obtain ⟨hgrow, hid, hopen, hsize⟩ := hall t (List.mem_cons_self ..)
    obtain ⟨hr', hsnap', -⟩ := hr.next hh hsnap hinst hid hopen hgrow hlot (add_mem hpos hlots) (sub_mem hsize hlots)
    rw [hterm t (List.mem_cons_self ..)] at hsnap'
    rw [List.cons_append, List.pairwise_cons] at hpair
    exact ih hr' hsnap' hsize
      (fun t' ht' => ⟨hpair.1 t' ht', (hall t' (List.mem_cons_of_mem _ ht')).2⟩) hpair.2
      fun t' ht' => hterm t' (List.mem_cons_of_mem _ ht')

end BackBroker

open BackBroker in
/-- Snapshots of an order of which nothing has been reported, open, of one sign, growing to the size of
the order in whole lots: whatever lies before the last one, the position has changed by its size, cash by
its value and its commission, and the order is completed with its size and its commission. -/
theorem live_fills_telescope (L : LiveListener ℚ W) (fuel : Nat) {b₀ : BackBroker ℚ (Live ℚ W)}
    (hfresh : b₀.FreshLive) (ops : List (LiveOp ℚ)) {o : Order ℚ}
    (hf : (b₀.liveRun (L.hooks fuel) ops).findOrder o.id = some o)
    (hexec : o.executedSize = 0) (hcomm : o.commission = 0)
    (hsnap : (b₀.liveRun (L.hooks fuel) ops).world.snapshots o.id = none)
    (hinst : (b₀.liveRun (L.hooks fuel) ops).instrumentMap o.dataIndex = none) {lot : ℚ} (hlot : 1e-9 ≤ lot)
    (hpos : ((b₀.liveRun (L.hooks fuel) ops).holding o.dataIndex).size ∈ AddSubgroup.zmultiples lot)
    (ts : List (Trade ℚ)) (final : Trade ℚ)
    (hid : ∀ t ∈ ts ++ [final], t.id = o.id ∧ t.isClosed = false ∧ t.size ∈ AddSubgroup.zmultiples lot)
    (hsign : (∀ t ∈ ts ++ [final], 0 < t.size) ∨ ∀ t ∈ ts ++ [final], t.size < 0)
    (hgrow : (ts ++ [final]).Pairwise (fun p t => |p.size| < |t.size|)) (hfinal : |final.size| = o.size) :
    let b := b₀.liveRun (L.hooks fuel) ops
    let b' := (ts ++ [final]).foldl (fun b t => b.recordLiveFill (L.hooks fuel) t) b
    (b'.holding o.dataIndex).size = (b.holding o.dataIndex).size + final.size ∧
    b'.cash = (fun c =>
      if c = b.baseCcy then b.cash c - final.size * final.entryPrice - final.commission else b.cash c) ∧
    ∃ r, b'.findOrder o.id = some r ∧ r.executedSize = o.size ∧ r.commission = final.commission ∧
      r.status = .Completed := by
  intro b b'
  have hh := L.tame_hooks fuel
  have hn : b.Numbered := liveRun_numbered hh (.of_fresh hfresh.toFresh) ops
  have hne : ∀ t ∈ ts ++ [final], t.size ≠ 0 := fun t ht => by
    rcases hsign with hs | hs
    exacts [(hs t ht).ne', (hs t ht).ne]
  have hpair : (ts ++ [final]).Pairwise (fun p t => Grows (some p) t) := by
    refine hgrow.imp_of_mem fun {p t} hp ht hlt => ⟨hne t ht, fun p' hp' => ?_⟩
    obtain rfl := Option.some.inj hp'
    rcases hsign with hs | hs
    · rw [abs_of_pos (hs p hp), abs_of_pos (hs t ht)] at hlt
      exact .inl ⟨hs p hp, hlt⟩
    · rw [abs_of_neg (hs p hp), abs_of_neg (hs t ht), neg_lt_neg_iff] at hlt
      exact .inr ⟨hs p hp, hlt⟩
  -- a snapshot before the last one is short of the order by a lot at least
  have hterm : ∀ t ∈ ts, liveTerminal o t = false := fun t ht => by
    have hg : Grows (some t) final := (List.pairwise_append.1 hpair).2.2 t ht final (List.mem_singleton_self _)
    have hadd : |t.size| + |final.size - t.size| = |final.size| := hg.abs_add
    have hmem := sub_mem (hid final (List.mem_append_right _ (List.mem_singleton_self _))).2.2
      (hid t (List.mem_append_left _ ht)).2.2
    have hle := lot_le_abs hmem hg.delta_ne
    have h12 : (1e-12 : ℚ) < 1e-9 := by norm_num
    unfold liveTerminal
    rw [(hid t (List.mem_append_left _ ht)).2.1, Bool.false_or, decide_eq_false_iff_not, Arith.abs_rat, not_le]
    linarith
  have hdone : liveTerminal o final = true := by
    unfold liveTerminal
    rw [Arith.abs_rat, hfinal, Bool.or_eq_true]
    refine .inr (decide_eq_true ?_)
    norm_num
  have hstart : Reported b b o none := by
    refine ⟨hn, rfl, (add_zero _).symm, ?_, o, hf, .refl o, ?_, hcomm⟩
    · funext c
      split_ifs <;> simp
    · rw [hexec]; simp
  obtain ⟨hr, r, hfr, hst⟩ := hstart.upTo hh hinst hlot hpos hdone ts hsnap (zero_mem _)
    (fun t ht => ⟨⟨hne t ht, fun p hp => nomatch hp⟩, hid t ht⟩) hpair hterm
  obtain ⟨r', hfr', -, hexec', hcomm'⟩ := hr.record
  obtain rfl := Option.some.inj (hfr.symm.trans hfr')
  exact ⟨hr.holding, hr.cash, r, hfr, hexec'.trans hfinal, hcomm', hst⟩

/-- A buy of 3 that is reported in two parts, 1 at 100 and then 3 at 110 on average. -/
theorem live_fills_telescope_twoParts :
    ((BackBroker.liveFunded.liveRun (LiveListener.silent.hooks 1) [.cmd (.buy 3 0 none .Market 0), .fill (.ofFill 1 1 100 1),
      .fill (.ofFill 1 3 110 2)]).holding 0).size =
    ((BackBroker.liveFunded.liveRun (LiveListener.silent.hooks 1) [.cmd (.buy 3 0 none .Market 0)]).holding 0).size + 3 := by
  let o : Order ℚ :=
    { id := 1, type := .Market, status := .Accepted, side := .Buy, size := 3, price := 0, stopPrice := none,
      executedPrice := 0, executedSize := 0, commission := 0, dataIndex := 0, candidateId := 0, validUntilBar := none,
      trailAmount := 0, trailPercent := 0, trailStopPrice := 0, ocoGroupId := 0, parentId := 0, childIds := [],
      transmit := true }
  have hpos : ((BackBroker.liveFunded.liveRun (LiveListener.silent.hooks 1)
      [.cmd (.buy 3 0 none .Market 0)]).holding o.dataIndex).size = 0 := by decide +kernel
  refine (live_fills_telescope .silent 1 BackBroker.freshLive_liveFunded [.cmd (.buy 3 0 none .Market 0)] (o := o)
    (by decide +kernel) rfl rfl rfl rfl (by norm_num : (1e-9 : ℚ) ≤ 1) (hpos ▸ zero_mem _) [.ofFill 1 1 100 1]
    (.ofFill 1 3 110 2) (fun t ht => ?_) (.inl fun t ht => ?_) (by decide +kernel) (by decide +kernel)).1
  · rcases List.mem_cons.1 ht with rfl | ht
    · exact ⟨rfl, rfl, AddSubgroup.mem_zmultiples 1⟩
    · obtain rfl := List.mem_singleton.1 ht
      exact ⟨rfl, rfl, AddSubgroup.mem_zmultiples_iff.2 ⟨3, by norm_num [Trade.ofFill]⟩⟩
  · rcases List.mem_cons.1 ht with rfl | ht
    · decide +kernel
    · obtain rfl := List.mem_singleton.1 ht
      decide +kernel

end StratForge
