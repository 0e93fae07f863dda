import StratForge.FedBars

/-!
# Indicators look back

An indicator that is advanced at a position reads its source up to there, so feeds with the same bars up to there give the
same (`FeedIndicators.advanceAt_congr`), and so do runs over positions that stay below what the feeds share
(`FeedIndicators.fed_congr`).
-/

namespace StratForge

variable {α : Type} [Arith α] [Floating α]

/-! ### One indicator -/

section
variable {source source' : List α} {idx j period : Nat}

omit [Floating α] in
theorem valueAt_congr (h : source'.take (idx + 1) = source.take (idx + 1)) (hj : j ≤ idx) : valueAt source' j = valueAt source j := by
  have hget : ∀ l : List α, l[j]? = (l.take (idx + 1))[j]? := fun l => by
    rw [List.getElem?_take, if_pos (Nat.lt_succ_of_le hj)]
  unfold valueAt
  rw [hget, h, ← hget]

omit [Arith α] [Floating α] in
theorem window_congr (h : source'.take (idx + 1) = source.take (idx + 1)) (hp : period ≤ idx + 1) :
    window source' idx period = window source idx period := by
  have hread : ∀ l : List α, window l idx period = (l.take (idx + 1)).drop (idx + 1 - period) := fun l => by
    rw [List.drop_take, Nat.sub_sub_self hp, window]
  rw [hread, hread, h]

variable (h : source'.take (idx + 1) = source.take (idx + 1))
include h

omit [Floating α] in
theorem MACD.seedSma_congr (period : Nat) : seedSma source' idx period = seedSma source idx period := by
  unfold seedSma
  congr 2
  exact List.map_congr_left fun i _ => valueAt_congr h (Nat.sub_le idx i)

theorem RSI.next_congr (r : RSI α) : r.next source' idx = r.next source idx := by
  unfold RSI.next
  rw [valueAt_congr h le_rfl, valueAt_congr h (Nat.sub_le idx 1)]

theorem SMA.next_congr (s : SMA α) : s.next source' idx = s.next source idx := by
  unfold SMA.next
  by_cases hp : idx + 1 < s.period
  · rw [if_pos hp, if_pos hp]
  · rw [window_congr h (not_lt.1 hp)]

theorem StdDev.next_congr (s : StdDev α) : s.next source' idx = s.next source idx := by
  unfold StdDev.next
  by_cases hp : idx + 1 < s.period
  · rw [if_pos hp, if_pos hp]
  · rw [window_congr h (not_lt.1 hp)]

theorem BollingerBandsPct.next_congr (b : BollingerBandsPct α) : b.next source' idx = b.next source idx := by
  unfold BollingerBandsPct.next
  rw [valueAt_congr h le_rfl]
  by_cases hp : idx + 1 < b.period
  · rw [if_pos hp, if_pos hp]
  · rw [window_congr h (not_lt.1 hp)]

theorem MACD.next_congr (m : MACD α) : m.next source' idx = m.next source idx := by
  unfold MACD.next
  simp only [valueAt_congr h le_rfl, MACD.seedSma_congr h]

end

theorem ATR.next_congr {high high' low low' close close' : List α} {idx : Nat} (hh : high'.take (idx + 1) = high.take (idx + 1))
    (hl : low'.take (idx + 1) = low.take (idx + 1)) (hc : close'.take (idx + 1) = close.take (idx + 1)) (a : ATR α) :
    a.next high' low' close' idx = a.next high low close idx := by
  unfold ATR.next
  rw [valueAt_congr hh le_rfl, valueAt_congr hl le_rfl, valueAt_congr hc (Nat.sub_le idx 1)]

/-! ### Those of a feed -/

namespace FeedIndicators
variable {rows rows' : List (Row α)} {idx m : Nat}

theorem advanceAt_congr (h : rows'.take (idx + 1) = rows.take (idx + 1)) (fi : FeedIndicators α) :
    fi.advanceAt rows' idx = fi.advanceAt rows idx := by
  have hcol : ∀ g : Row α → α, (rows'.map g).take (idx + 1) = (rows.map g).take (idx + 1) := fun g => by
    rw [← List.map_take, ← List.map_take, h]
  unfold advanceAt
  dsimp only
  rw [RSI.next_congr (hcol Row.close), ATR.next_congr (hcol Row.high) (hcol Row.low) (hcol Row.close),
    BollingerBandsPct.next_congr (hcol Row.close), MACD.next_congr (hcol Row.close), SMA.next_congr (hcol Row.volume),
    SMA.next_congr (hcol Row.close), StdDev.next_congr (hcol Row.close)]

theorem fed_congr (h : rows'.take m = rows.take m) {ps : List Nat} (hps : ∀ i ∈ ps, i < m) : fed rows' ps = fed rows ps := by
  unfold fed
  refine List.foldl_ext _ _ _ fun fi i hi => advanceAt_congr ?_ fi
  have hle : i + 1 ≤ m := hps i hi
  rw [← Nat.min_eq_left hle, ← List.take_take, h, List.take_take]

end FeedIndicators

end StratForge
