import StratForge.Streamed

/-!
# Streamed trades and reported trades

The stream and the report list the same closed trades, one from notifications and one from the broker's
book. The wire takes side and quantity from the size of the trade, which closing has made zero
(`Sized`): a trade the report has as bought or sold is flat on the wire. So the two agree on the runs that
close no trade, and on no others (`trades_agree_iff`).
-/

namespace StratForge

/-- The side a trade of the report has on the wire. -/
def ReportSide.wire : ReportSide → WireSide
  | .buy => .long
  | .sell => .short

structure SameTrade {α : Type} (w : WireTrade α) (r : ReportTrade α) : Prop where
  side : w.side = r.side.wire
  quantity : w.quantity = r.quantity
  entryPrice : w.entryPrice = r.entryPrice
  exitPrice : w.exitPrice = r.exitPrice
  entryTime : w.entryTime = r.entryTime
  exitTime : w.exitTime = r.exitTime
  commission : w.commission = r.commission
  pnl : w.pnl = r.pnl

/-! ### The size of a closed trade -/

/-- The size of a trade is not negligible unless it is zero, as it is when the trade is closed. -/
structure Trade.Sized (t : Trade ℚ) : Prop where
  size : t.size = 0 ∨ 1e-10 ≤ |t.size|
  closed : t.isClosed = true → t.size = 0

namespace Trade
variable {t : Trade ℚ}

theorem sized_fresh (id k cand : Nat) : (fresh id k cand : Trade ℚ).Sized := ⟨.inl rfl, fun _ => rfl⟩

theorem Sized.update (h : t.Sized) (s p c : ℚ) (bar : Nat) (dt : DateTime) : (t.update s p c bar dt).Sized := by
  by_cases hs : Arith.abs s < 1e-10
  · rw [update_negligible t s p c bar dt hs]
    exact h
  have hu := updated t s p c bar dt hs
  have hstatus := hu.status
  have hsize := hu.size
  simp only [Arith.abs_rat] at hs hstatus hsize
  by_cases hclose : 1e-10 ≤ |t.size| ∧ ¬ 1e-10 ≤ |t.size + s|
  · rw [if_pos hclose] at hsize
    exact ⟨.inl hsize, fun _ => hsize⟩
  · rw [if_neg hclose] at hstatus hsize
    refine ⟨.inr ?_, fun hclosed => by simp [isClosed, hstatus] at hclosed⟩
    rw [hsize]
    by_contra hsmall
    rcases h.size with h0 | hbig
    · rw [h0, zero_add] at hsmall
      exact hsmall (not_lt.1 hs)
    · exact hclose ⟨hbig, hsmall⟩

/-- A trade filled against all of its size has none left. -/
theorem Sized.update_neg (h : t.Sized) (p c : ℚ) (bar : Nat) (dt : DateTime) : (t.update (-t.size) p c bar dt).size = 0 := by
  by_cases hs : Arith.abs (-t.size) < 1e-10
  · rw [update_negligible t _ p c bar dt hs]
    rcases h.size with h0 | hbig
    · exact h0
    · rw [Arith.abs_rat, abs_neg] at hs
      exact absurd hs (not_lt.2 hbig)
  · have hsize := (updated t (-t.size) p c bar dt hs).size
    rw [hsize, add_neg_cancel, ite_self]

end Trade

namespace BackBroker
variable {W : Type} {b : BackBroker ℚ W}

structure Sized (b : BackBroker ℚ W) : Prop where
  «open» : ∀ x ∈ b.openTrades, x.1.Sized
  closed : ∀ x ∈ b.closedTrades, x.1.size = 0

theorem Sized.openTrade (hb : b.Sized) (k : Nat) (size price comm : ℚ) (bar : Nat) (dt : DateTime) (cand : Nat) :
    (b.openTrade k size price comm bar dt cand).Sized := by
  refine ⟨fun x hx => ?_, hb.closed⟩
  rcases List.mem_append.1 hx with hx | hx
  · exact hb.open x hx
  · rw [List.mem_singleton.1 hx]
    exact (Trade.sized_fresh ..).update ..

theorem Sized.retireTrade (hb : b.Sized) (i : Nat) {t : Trade ℚ} (ht : t.size = 0) (orig : ℚ) :
    (b.retireTrade Hooks.none i t orig).Sized := by
  constructor
  · intro x hx
    have hrest : x ∈ b.openTrades.eraseIdx i := by
      rw [← List.eraseIdx_set_eq]
      exact hx
    exact hb.open x (List.mem_of_mem_eraseIdx hrest)
  · intro x hx
    rcases List.mem_append.1 (show x ∈ b.closedTrades ++ [(t, orig)] from hx) with hx | hx
    · exact hb.closed x hx
    · rw [List.mem_singleton.1 hx]
      exact ht

theorem Sized.updateTrades (hb : b.Sized) (k : Nat) (old s p c : ℚ) (bar : Nat) (dt : DateTime) (cand : Nat) :
    (b.updateTrades Hooks.none k old s p c bar dt cand).Sized := by
  unfold BackBroker.updateTrades
  dsimp only
  split_ifs with hflat hside
  · exact hb.openTrade ..
  · refine ⟨fun x hx => ?_, hb.closed⟩
    obtain ⟨j, hj, rfl⟩ := List.mem_iff_getElem.1 hx
    rw [List.getElem_modify]
    have hold : ∀ (hlt : j < b.openTrades.length), b.openTrades[j].1.Sized := fun hlt => hb.open _ (List.getElem_mem _)
    split_ifs
    exacts [(hold _).update .., hold _]
  · cases hget : b.openTrades[b.openTradeIdx k]? with
    | none => exact hb
    | some x =>
      obtain ⟨t, orig⟩ := x
      have ht : t.Sized := hb.open _ (List.mem_of_getElem? hget)
      dsimp only
      split_ifs with hflip hclosed
      · exact (hb.retireTrade _ (ht.update_neg ..) _).openTrade ..
      · exact hb.retireTrade _ ((ht.update ..).closed hclosed) _
      · refine ⟨fun x hx => ?_, hb.closed⟩
        rcases List.mem_or_eq_of_mem_set hx with hx | rfl
        exacts [hb.open x hx, ht.update ..]

/-- In every run. -/
theorem kept_sized : Kept fun b : BackBroker ℚ W => b.Sized where
  same b b' hs hb := ⟨hs.openTrades ▸ hb.open, hs.closedTrades ▸ hb.closed⟩
  enter b x dt _ hb := by
    unfold enter
    dsimp only
    refine Sized.updateTrades ?_ ..
    exact ⟨hb.open, hb.closed⟩

theorem Sized.of_fresh (hf : b.Fresh) : b.Sized :=
  ⟨by simp [hf.openTrades], by simp [hf.closedTrades]⟩

end BackBroker

namespace Observed
open BackBroker
variable {W C O : Type}

/-- All the trades of the stream, as the wire has them, when the run is over. -/
def wireTrades {α : Type} [Arith α] (s : Observed α W C O) : List (WireTrade α) :=
  (s.stream.stop.emitted.flatMap IncrementSnapshot.newTrades).map TradeRecord.wire

/-- The stream has the trades of the report, in order. -/
def TradesAgree {α : Type} [Arith α] (s : Observed α W C O) (feeds : List (DataFeed α)) : Prop :=
  List.Forall₂ SameTrade s.wireTrades (serializeTrades s.broker feeds)

theorem TradesAgree.sides {α : Type} [Arith α] {s : Observed α W C O} {feeds : List (DataFeed α)} (h : s.TradesAgree feeds) :
    s.wireTrades.map WireTrade.side = (serializeTrades s.broker feeds).map (ReportSide.wire ∘ ReportTrade.side) := by
  rw [← List.forall₂_eq_eq_eq, List.forall₂_map_left_iff, List.forall₂_map_right_iff]
  exact h.imp fun _ _ hsame => hsame.side

/-- What the stream has are the closed trades. -/
theorem wireTrades_eq {α : Type} [Arith α] {h : Hooks α W} (hh : Tame h) {b : BackBroker α W} (hf : b.Fresh)
    {config : IncrementBatcher.Config} {collector : Option (CandidateCollector C O)} {now : Int}
    {beats : List (Beat α C O)} {s : Observed α W C O} (hrun : (start b config collector now).run h beats = .ok s) :
    s.wireTrades = s.broker.closedTrades.map fun x => x.1.project.wire := by
  obtain ⟨calls, hcalls, htold⟩ := run_calls hh hf hrun
  have hdelivered := Stream.run_delivered config collector now calls
  rw [wireTrades, hcalls, ← htold]
  show ((Stream.run config collector now calls).flatMap _).map _ = _
  rw [hdelivered.trades, Stream.flatMap_trades, List.map_map]
  rfl

/-- On the wire a trade without a size is flat, in the report it is bought or sold. -/
theorem not_sameTrade {t : Trade ℚ} (h : t.size = 0) (feed : DataFeed ℚ) (orig : ℚ) :
    ¬ SameTrade t.project.wire (t.report feed orig) := by
  intro hsame
  have hflat : t.project.wire.side = .flat := by simp [TradeRecord.wire, Trade.project, h]
  have hside := hsame.side
  rw [hflat] at hside
  cases hr : (t.report feed orig).side <;> rw [hr] at hside <;> cases hside

/-- The stream's trades are the report's if and only if no trade has been closed. -/
theorem trades_agree_iff (L : Listener ℚ W) (fuel : Nat) {b : BackBroker ℚ W} (hf : b.Fresh)
    (config : IncrementBatcher.Config) (collector : Option (CandidateCollector C O)) (now : Int)
    (beats : List (Beat ℚ C O)) {s : Observed ℚ W C O}
    (hrun : (start b config collector now).run (L.hooks fuel) beats = .ok s) (feeds : List (DataFeed ℚ)) :
    s.TradesAgree feeds ↔ s.broker.closedTrades = [] := by
  have hwire := wireTrades_eq (tame_hooks L fuel) hf hrun
  have hsized : s.broker.Sized := run_kept BackBroker.kept_sized (tame_hooks L fuel) hrun (.of_fresh hf)
  rw [TradesAgree, hwire]
  constructor
  · intro hagree
    cases hclosed : s.broker.closedTrades with
    | nil => rfl
    | cons x rest =>
      cases feeds with
      | nil =>
        rw [hclosed] at hagree
        cases hagree
      | cons feed feeds =>
        have hx : x.1.size = 0 := hsized.closed x (by rw [hclosed]; exact List.mem_cons_self)
        simp only [serializeTrades, hclosed, List.map_cons, List.forall₂_cons] at hagree
        exact absurd hagree.1 (not_sameTrade hx feed x.2)
  · intro hclosed
    cases feeds <;> simp [serializeTrades, hclosed]

/-- Five bought at 10 and sold at 12. -/
def roundTrip : List (Beat ℚ Nat Nat) :=
  [.op (.cmd (.buy 5 0 none .Market 0)), .op (.processOrders [.ofBar 10 11 9 10]), .bar 0 [.ofBar 10 11 9 10],
   .op (.cmd (.sell 5 0 none .Market 0)), .op (.processOrders [.ofBar 12 12 9 10]), .bar 0 [.ofBar 12 12 9 10]]

theorem roundTrip_streams_flat :
    ∃ s, ofBeats roundTrip = .ok s ∧ ¬ s.TradesAgree [.ofBar 12 12 9 10] ∧
      (s.wireTrades.map fun w => (w.side, w.quantity)) = [(.flat, 0)] ∧
      ((serializeTrades s.broker [.ofBar 12 12 9 10]).map fun r => (r.side, r.quantity)) = [(.buy, 5)] := by
  have hrun : (ofBeats roundTrip).toOption.map (fun s => (s.wireTrades.map fun w => (w.side, w.quantity),
      (serializeTrades s.broker [.ofBar 12 12 9 10]).map fun r => (r.side, r.quantity))) =
      some ([(.flat, 0)], [(.buy, 5)]) := by decide +kernel
  cases hs : ofBeats roundTrip with
  | error e =>
    rw [hs] at hrun
    cases hrun
  | ok s =>
    rw [hs] at hrun
    obtain ⟨hwire, hreport⟩ := Prod.mk.inj (Option.some.inj hrun)
    refine ⟨s, rfl, fun hagree => ?_, hwire, hreport⟩
    have hsides := hagree.sides
    have hflat : s.wireTrades.map WireTrade.side = [.flat] := by
      simpa using congrArg (List.map Prod.fst) hwire
    have hbuy : (serializeTrades s.broker [.ofBar 12 12 9 10]).map ReportTrade.side = [.buy] := by
      simpa using congrArg (List.map Prod.fst) hreport
    rw [hflat, ← List.map_map, hbuy] at hsides
    cases hsides

theorem trades_agree_iff_roundTrip :
    ∃ s, ofBeats roundTrip = .ok s ∧ (s.TradesAgree [.ofBar 12 12 9 10] ↔ s.broker.closedTrades = []) := by
  have hok : (ofBeats roundTrip).toOption.isSome = true := by decide +kernel
  cases hs : ofBeats roundTrip with
  | error e =>
    rw [hs] at hok
    cases hok
  | ok s => exact ⟨s, rfl, trades_agree_iff Listener.silent 0 (BackBroker.fresh_init ..) {} none 0 roundTrip hs _⟩

end Observed
end StratForge
