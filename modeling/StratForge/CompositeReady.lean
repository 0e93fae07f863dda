import StratForge.Composites

/-!
# When the composite indicators are ready

Over a source of positive numbers of which none comes twice, as one that only rises or only falls: the first bar, counted
from one, on which each output is a number, and the first on which its indicator says that it is.
-/

namespace StratForge
namespace Indicators
open Floating (nan isNaN)
open OrNan (IsNum)
open Readiness (StartsAt)

variable {ready t p : Nat} {l : List OrNan} {source : Line OrNan} {qs : List ℚ} {q : ℚ}

/-- A change of the source divides by no zero and is none. -/
structure Moving (qs : List ℚ) : Prop where
  positive : ∀ q ∈ qs, 0 < q
  nodup : qs.Nodup

theorem Moving.before (h : Moving (qs ++ [q])) : Moving qs :=
  ⟨fun x hx => h.positive x (List.mem_append_left _ hx), h.nodup.of_append_left⟩

theorem isNaN_false {x : OrNan} : isNaN x = false ↔ IsNum x := by
  rw [← Bool.not_eq_true, OrNan.isNaN_iff, not_not]

/-! ### Rates of change -/

structure ROC.After (t : Nat) (r : ROC OrNan) : Prop where
  pos : 0 < r.period
  line : Late (r.period + 1) t r.line

theorem ROC.After.next {r : ROC OrNan} (h : r.After qs.length) (hs : Sourced ((qs ++ [q]).map OrNan.num) source)
    (hmoving : Moving (qs ++ [q])) :
    ∃ x, r.next source = some { r with line := r.line ++ [x] } ∧ (IsNum x ↔ r.period + 1 ≤ qs.length + 1) ∧
      ROC.After (qs.length + 1) { r with line := r.line ++ [x] } := by
  have hidx : source.idx = qs.length := by rw [hs.cursor]; simp
  have hadd : ∀ x, (IsNum x ↔ r.period + 1 ≤ qs.length + 1) → (IsNum x ↔ r.period + 1 ≤ qs.length + 1) ∧
      ROC.After (qs.length + 1) { r with line := r.line ++ [x] } :=
    fun x hx => ⟨hx, h.pos, h.line.snoc (Nat.succ_pos _) hx⟩
  unfold ROC.next
  rw [hidx]
  by_cases hearly : qs.length < r.period
  · rw [if_pos hearly]
    exact ⟨nan, rfl, hadd nan (iff_of_false OrNan.not_isNum_nan (by omega))⟩
  · obtain ⟨hcurrent, b, hb, hbefore, -⟩ := hs.back h.pos (Nat.le_of_not_lt hearly)
    have hne : b ≠ 0 := (hmoving.positive b (List.mem_append_left _ hb)).ne'
    rw [if_neg hearly, hbefore, hcurrent]
    refine ⟨_, rfl, hadd _ (iff_of_true ?_ (by omega))⟩
    rw [OrNan.num_sub, OrNan.num_div hne]
    exact OrNan.isNum_num _

structure ROC100.After (t : Nat) (r : ROC100 OrNan) : Prop where
  roc : r.roc.After t
  line : Late (r.roc.period + 1) t r.line

theorem ROC100.After.next {r : ROC100 OrNan} (h : r.After qs.length) (hs : Sourced ((qs ++ [q]).map OrNan.num) source)
    (hmoving : Moving (qs ++ [q])) : ∃ r', r.next source = some r' ∧ r'.After (qs.length + 1) ∧ r'.roc.period = r.roc.period := by
  obtain ⟨x, hroc, hx, hafter⟩ := h.roc.next hs hmoving
  unfold ROC100.next
  simp only [hroc, Option.bind_eq_bind, Option.bind_some, List.getLast?_concat]
  refine ⟨_, rfl, ⟨hafter, h.line.snoc (Nat.succ_pos _) ?_⟩, rfl⟩
  cases x with
  | nan => exact hx
  | num a => exact iff_of_true (by simp) (hx.1 (OrNan.isNum_num a))

/-! ### KST -/

/-- A smoothed rate of change that is a number from bar `first` on. -/
structure Branch (first t : Nat) (r : ROC100 OrNan) (s : StratForge.SMA OrNan) : Prop where
  pos : 0 < s.period
  sum : r.roc.period + s.period = first
  roc : r.After t
  line : Late first t s.line

theorem Branch.next {first : Nat} {r : ROC100 OrNan} {s : StratForge.SMA OrNan} (h : Branch first qs.length r s)
    (hs : Sourced ((qs ++ [q]).map OrNan.num) source) (hmoving : Moving (qs ++ [q])) :
    ∃ r' v, r.next source = some r' ∧ Branch first (qs.length + 1) r' (SMA.nextOver r'.line s) ∧
      (SMA.nextOver r'.line s).line.getLast? = some v ∧ (IsNum v ↔ first ≤ qs.length + 1) := by
  obtain ⟨r', hr', hafter, hperiod⟩ := h.roc.next hs hmoving
  obtain ⟨v, hv, hnum⟩ := sma_adds hafter.line (Nat.succ_pos _) h.pos
  have hsum := h.sum
  have hnum : IsNum v ↔ first ≤ qs.length + 1 := hnum.trans (by omega)
  have hpos := h.pos
  have hnext : SMA.nextOver r'.line s = { s with line := s.line ++ [v] } := by
    rw [SMA.nextOver, hafter.line.length, Nat.add_sub_cancel, hv]
  refine ⟨r', v, hr', ?_⟩
  rw [hnext]
  exact ⟨⟨h.pos, hperiod ▸ hsum, hafter, h.line.snoc (by omega) hnum⟩, List.getLast?_concat, hnum⟩

namespace KnowSureThing
variable {f1 f2 f3 f4 m t' : Nat} {k : KnowSureThing OrNan}

/-- After `t` bars, of which the line has had `t'`. -/
structure Between (f1 f2 f3 f4 m t t' : Nat) (k : KnowSureThing OrNan) : Prop where
  branch1 : Branch f1 t k.roc1 k.rcma1
  branch2 : Branch f2 t k.roc2 k.rcma2
  branch3 : Branch f3 t k.roc3 k.rcma3
  branch4 : Branch f4 t k.roc4 k.rcma4
  kstPeriod : k.kstPeriod + 1 = max (max (max f1 f2) f3) f4
  rsignal : k.rsignal = m
  signalSma : k.signalSma.period = m
  line : Late (k.kstPeriod + 1) t' k.line
  signal : Late (k.kstPeriod + m) t' k.signal

theorem branch_init {rp rma : Nat} (hrp : 0 < rp) (hrma : 0 < rma) : Branch (rp + rma) 0 { roc := { period := rp } } (smaOf rma) := by
  unfold smaOf
  rw [if_neg hrma.ne']
  exact ⟨hrma, rfl, ⟨⟨hrp, .nil⟩, .nil⟩, .nil⟩

theorem init_between {rp1 rp2 rp3 rp4 rma1 rma2 rma3 rma4 : Nat} (hrp : 0 < rp1 ∧ 0 < rp2 ∧ 0 < rp3 ∧ 0 < rp4)
    (hrma : 0 < rma1 ∧ 0 < rma2 ∧ 0 < rma3 ∧ 0 < rma4) (hm : 0 < m) :
    Between (rp1 + rma1) (rp2 + rma2) (rp3 + rma3) (rp4 + rma4) m 0 0 (init rp1 rp2 rp3 rp4 rma1 rma2 rma3 rma4 m) := by
  obtain ⟨hrp1, hrp2, hrp3, hrp4⟩ := hrp
  obtain ⟨hrma1, hrma2, hrma3, hrma4⟩ := hrma
  refine ⟨branch_init hrp1 hrma1, branch_init hrp2 hrma2, branch_init hrp3 hrma3, branch_init hrp4 hrma4, ?_, if_neg hm.ne',
    if_neg hm.ne', .nil, .nil⟩
  simp only [init]
  omega

/-- The line is a number where all its four are, and the signal as much later as its window is long. -/
theorem Between.nextLine {v1 v2 v3 v4 : OrNan} (h : k.Between f1 f2 f3 f4 m (t + 1) t) (hm : 0 < m)
    (h1 : IsNum v1 ↔ f1 ≤ t + 1) (h2 : IsNum v2 ↔ f2 ≤ t + 1) (h3 : IsNum v3 ↔ f3 ≤ t + 1) (h4 : IsNum v4 ↔ f4 ≤ t + 1) :
    ∃ k', k.nextLine v1 v2 v3 v4 = some k' ∧ k'.Between f1 f2 f3 f4 m (t + 1) (t + 1) := by
  have hkst := h.kstPeriod
  have hall : (isNaN v1 || isNaN v2 || isNaN v3 || isNaN v4) = false ↔ k.kstPeriod + 1 ≤ t + 1 := by
    simp only [Bool.or_eq_false_iff, isNaN_false, h1, h2, h3, h4]
    omega
  unfold KnowSureThing.nextLine
  cases hnan : isNaN v1 || isNaN v2 || isNaN v3 || isNaN v4 with
  | true =>
    have hlt : t + 1 < k.kstPeriod + 1 := Nat.lt_of_not_le fun hle => absurd (hall.2 hle) (by rw [hnan]; exact Bool.noConfusion)
    exact ⟨_, rfl, { h with line := h.line.snoc_nan hlt, signal := h.signal.snoc_nan (by omega) }⟩
  | false =>
    have hle := hall.1 hnan
    simp only [Bool.or_eq_false_iff, isNaN_false] at hnan
    obtain ⟨⟨⟨hv1, hv2⟩, hv3⟩, hv4⟩ := hnan
    have hline : Late (k.kstPeriod + 1) (t + 1) (k.line ++ [v1 + 2.0 * v2 + 3.0 * v3 + 4.0 * v4]) :=
      h.line.snoc_num (Nat.succ_pos _) hle (by simp [hv1, hv2, hv3, hv4])
    obtain ⟨x, hx, hnum⟩ := sma_adds hline (Nat.succ_pos _) (h.signalSma.symm ▸ hm)
    have hsma := h.signalSma
    have hnum : IsNum x ↔ k.kstPeriod + m ≤ t + 1 := hnum.trans (by omega)
    simp only [Bool.false_eq_true, if_false, SMA.nextOver, hline.length, Nat.add_sub_cancel, hx, Option.bind_eq_bind,
      List.getLast?_concat, Option.bind_some]
    exact ⟨_, rfl, { h with line := hline, signal := h.signal.snoc (by omega) hnum }⟩

theorem Between.next (h : k.Between f1 f2 f3 f4 m qs.length qs.length) (hm : 0 < m)
    (hs : Sourced ((qs ++ [q]).map OrNan.num) source) (hmoving : Moving (qs ++ [q])) :
    ∃ k', k.next source = some k' ∧ k'.Between f1 f2 f3 f4 m (qs ++ [q]).length (qs ++ [q]).length := by
  obtain ⟨roc1, v1, hroc1, hbranch1, hv1, hnum1⟩ := h.branch1.next hs hmoving
  obtain ⟨roc2, v2, hroc2, hbranch2, hv2, hnum2⟩ := h.branch2.next hs hmoving
  obtain ⟨roc3, v3, hroc3, hbranch3, hv3, hnum3⟩ := h.branch3.next hs hmoving
  obtain ⟨roc4, v4, hroc4, hbranch4, hv4, hnum4⟩ := h.branch4.next hs hmoving
  rw [List.length_append, List.length_singleton]
  unfold KnowSureThing.next
  simp only [hroc1, hroc2, hroc3, hroc4, hv1, hv2, hv3, hv4, Option.bind_eq_bind, Option.bind_some]
  exact Between.nextLine { h with branch1 := hbranch1, branch2 := hbranch2, branch3 := hbranch3, branch4 := hbranch4 } hm
    hnum1 hnum2 hnum3 hnum4

end KnowSureThing

/-! ### Coppock -/

namespace CoppockCurve
variable {p1 p2 w : Nat} {c : CoppockCurve OrNan}

structure After (p1 p2 w t : Nat) (c : CoppockCurve OrNan) : Prop where
  roc1 : c.roc1.After t
  period1 : c.roc1.period = p1
  roc2 : c.roc2.After t
  period2 : c.roc2.period = p2
  sumLine : Late (max p1 p2 + 1) t c.sumLine.data
  wma : c.wma.Weighted
  wmaPeriod : c.wma.period = w
  line : Late (max p1 p2 + w) t c.line

theorem init_after (h1 : 0 < p1) (h2 : 0 < p2) (hw : 0 < w) : After p1 p2 w 0 (init p1 p2 w) :=
  ⟨⟨h1, .nil⟩, rfl, ⟨h2, .nil⟩, rfl, .nil, WeightedAverage.init_weighted hw, if_neg hw.ne', .nil⟩

theorem After.next (h : c.After p1 p2 w qs.length) (hs : Sourced ((qs ++ [q]).map OrNan.num) source)
    (hmoving : Moving (qs ++ [q])) : ∃ c', c.next source = some c' ∧ c'.After p1 p2 w (qs ++ [q]).length := by
  obtain ⟨v1, hroc1, hnum1, hafter1⟩ := h.roc1.next hs hmoving
  obtain ⟨v2, hroc2, hnum2, hafter2⟩ := h.roc2.next hs hmoving
  have hperiod1 := h.period1
  have hperiod2 := h.period2
  have hwma := h.wmaPeriod
  have hpos := h.wma.pos
  have hsum : IsNum (if isNaN v1 || isNaN v2 then nan else (v1 + v2) * 100.0) ↔ max p1 p2 + 1 ≤ qs.length + 1 := by
    have hboth : IsNum v1 ∧ IsNum v2 ↔ max p1 p2 + 1 ≤ qs.length + 1 := by
      rw [hnum1, hnum2]
      omega
    rw [← hboth]
    rcases v1 with _ | _ <;> rcases v2 with _ | _ <;> simp
  have hfeeds := Feeds.forward h.sumLine (Nat.succ_pos _) hsum
  obtain ⟨x, hx, hnum⟩ := h.wma.adds hfeeds (Nat.succ_pos _)
  have hnum : IsNum x ↔ max p1 p2 + w ≤ qs.length + 1 := hnum.trans (by omega)
  rw [List.length_append, List.length_singleton]
  unfold CoppockCurve.next
  simp only [hroc1, hroc2, hx, Option.bind_eq_bind, Option.bind_some, List.getLast?_concat]
  exact ⟨_, rfl, hafter1, hperiod1, hafter2, hperiod2, hfeeds.values, ⟨h.wma.pos, h.wma.coef, h.wma.enough, h.wma.nums⟩, hwma,
    h.line.snoc (by omega) hnum⟩

end CoppockCurve

/-! ### STC -/

namespace STC
variable {fast slow : Nat} {s : STC OrNan} {v first : OrNan} {rest : List OrNan}

theorem stoch_num (hv : IsNum v) (hfirst : IsNum first) (hrest : ∀ x ∈ rest, IsNum x) : IsNum (stoch v first rest) := by
  have hh := max_closed.foldl hfirst hrest
  have hl := min_closed.foldl hfirst hrest
  unfold stoch
  dsimp only
  cases heq : rest.foldl Arith.max first == rest.foldl Arith.min first with
  | true => exact OrNan.isNum_ofScientific _ _ _
  | false =>
    obtain ⟨a, ha⟩ := OrNan.isNum_iff.1 hh
    obtain ⟨b, hb⟩ := OrNan.isNum_iff.1 hl
    obtain ⟨c, rfl⟩ := OrNan.isNum_iff.1 hv
    rw [ha, hb, OrNan.num_beq, decide_eq_false_iff_not] at heq
    rw [if_neg Bool.false_ne_true, ha, hb, OrNan.num_sub, OrNan.num_sub, OrNan.isNum_div_num (sub_ne_zero.2 heq), OrNan.isNum_mul]
    exact ⟨OrNan.isNum_ofScientific _ _ _, OrNan.isNum_num _⟩

theorem clamp_num {lo hi : OrNan} (hv : IsNum v) (hlo : IsNum lo) (hhi : IsNum hi) : IsNum (Arith.clamp v lo hi) := by
  unfold Arith.clamp
  split_ifs
  · exact hlo
  · exact hhi
  · exact hv

/-- After `t` bars, of which the history of the first places has had those up to `u`, and the line those up to `t'`. -/
structure Between (p fast slow t u t' : Nat) (s : STC OrNan) : Prop where
  period : s.period = p
  fastEq : s.fast = fast
  slowEq : s.slow = slow
  factor : IsNum s.factor
  fastEma : IsNum s.fastEma
  slowEma : IsNum s.slowEma
  pf : IsNum s.pf
  pff : IsNum s.pff
  macd : Late slow t s.macd
  history : ∀ x ∈ s.pfHist, IsNum x
  count : s.pfHist.length = min p (u + 2 - (slow + p))
  line : Late (slow + 2 * p - 2) t' s.line

theorem init_between (hp : 0 < p) (hfast : 0 < fast) (hslow : 0 < slow) (factor : ℚ) :
    Between p fast slow 0 0 0 (init p fast slow (.num factor)) where
  period := if_neg hp.ne'
  fastEq := if_neg hfast.ne'
  slowEq := if_neg hslow.ne'
  factor := OrNan.isNum_num factor
  fastEma := OrNan.isNum_zero
  slowEma := OrNan.isNum_zero
  pf := OrNan.isNum_ofScientific _ _ _
  pff := OrNan.isNum_ofScientific _ _ _
  macd := .nil
  history := nofun
  count := by
    show 0 = _
    omega
  line := .nil

/-- The bars before the first place leave the history as it is. -/
theorem Between.waits {line : List OrNan} (h : s.Between p fast slow (t + 1) t t) (hp : 0 < p) (hslow : 0 < slow) (hlt : t + 1 < slow + p - 1)
    (hline : line = s.line ++ [nan]) : Between p fast slow (t + 1) (t + 1) (t + 1) { s with line } :=
  { h with
    count := h.count.trans (by omega)
    line := by
      rw [hline]
      exact h.line.snoc_nan (by omega) }

/-- A first place is pushed on the history, and once that is full each bar has a second place. -/
theorem Between.nextPff (h : s.Between p fast slow (t + 1) t t) (hp : 0 < p) (hslow : 0 < slow) (hle : slow + p - 1 ≤ t + 1) :
    ∃ s', s.nextPff = some s' ∧ s'.Between p fast slow (t + 1) (t + 1) (t + 1) := by
  have hcount := h.count
  have hpushed : ∀ x ∈ s.pfHist ++ [s.pf], IsNum x := by
    intro x hx
    rcases List.mem_append.1 hx with hx | hx
    · exact h.history x hx
    · exact List.mem_singleton.1 hx ▸ h.pf
  have hlen : (s.pfHist ++ [s.pf]).length = s.pfHist.length + 1 := by simp
  obtain ⟨hist, hhist, hnums, hcount'⟩ : ∃ hist, hist = (if s.period < (s.pfHist ++ [s.pf]).length then (s.pfHist ++ [s.pf]).drop 1
      else s.pfHist ++ [s.pf]) ∧ (∀ x ∈ hist, IsNum x) ∧ hist.length = min p (t + 1 + 2 - (slow + p)) := by
    refine ⟨_, rfl, ?_⟩
    rw [h.period]
    split_ifs with hfull
    · exact ⟨fun x hx => hpushed x (List.mem_of_mem_drop hx), by rw [List.length_drop]; omega⟩
    · exact ⟨hpushed, by omega⟩
  unfold STC.nextPff
  dsimp only
  rw [← hhist]
  by_cases hfew : hist.length < s.period
  · rw [if_pos hfew]
    rw [h.period] at hfew
    exact ⟨_, rfl, { h with history := hnums, count := hcount', line := h.line.snoc_nan (by omega) }⟩
  · rw [if_neg hfew]
    rw [h.period] at hfew
    have hget := List.getElem?_eq_getElem (show 0 < hist.length by omega)
    have hplace : IsNum (stoch s.pf hist[0] (hist.drop 1)) :=
      stoch_num h.pf (hnums _ (List.getElem_mem _)) fun x hx => hnums x (List.mem_of_mem_drop hx)
    have hpff : IsNum (s.pff + s.factor * (stoch s.pf hist[0] (hist.drop 1) - s.pff)) := by
      simp only [OrNan.isNum_add, OrNan.isNum_mul, OrNan.isNum_sub, h.pff, h.factor, hplace, and_self]
    rw [hget]
    exact ⟨_, rfl, { h with
      pff := hpff
      history := hnums
      count := hcount'
      line := h.line.snoc_num (by omega) (by omega) (clamp_num hpff OrNan.isNum_zero (OrNan.isNum_ofScientific _ _ _)) }⟩

theorem Between.nextPf {m : OrNan} (h : s.Between p fast slow t t t) (hp : 0 < p) (hslow : 0 < slow) (hm : IsNum m)
    (hle : slow ≤ t + 1) : ∃ s', s.nextPf m = some s' ∧ s'.Between p fast slow (t + 1) (t + 1) (t + 1) := by
  have hmacd : Late slow (t + 1) (s.macd ++ [m]) := h.macd.snoc_num hslow hle hm
  have hpushed : Between p fast slow (t + 1) t t { s with macd := s.macd ++ [m] } := { h with macd := hmacd }
  unfold STC.nextPf
  dsimp only
  rw [hmacd.length]
  have hperiod := h.period
  by_cases hfew : t + 1 < s.period
  · rw [if_pos hfew]
    exact ⟨_, rfl, hpushed.waits hp hslow (by omega) rfl⟩
  · have holder : ∀ i ∈ (List.range (s.period - 1)).map (· + 1), ∃ x, Access.readBack (s.macd ++ [m]) (t + 1 - 1) i = some x ∧
        (IsNum x ↔ slow + i ≤ t + 1) := by
      intro i hi
      obtain ⟨j, hj, rfl⟩ := List.mem_map.1 hi
      have hj := List.mem_range.1 hj
      obtain ⟨x, hx, hnum⟩ := hmacd.read (i := t - (j + 1)) (by omega)
      exact ⟨x, by rw [Access.readBack, if_pos (by omega), Nat.add_sub_cancel, hx], hnum.trans (by omega)⟩
    obtain ⟨older, hread, hall⟩ := Access.mapM_iff holder
    rw [if_neg hfew, hread, Option.bind_eq_bind, Option.bind_some]
    cases hany : older.any isNaN with
    | true =>
      rw [if_pos rfl]
      have hgt : ¬ ∀ x ∈ older, IsNum x := fun hnums => by
        obtain ⟨x, hx, hnan⟩ := List.any_eq_true.1 hany
        exact OrNan.isNaN_iff.1 hnan (hnums x hx)
      have hlt : t + 1 < slow + p - 1 := by
        by_contra hge
        refine hgt (hall.2 fun i hi => ?_)
        obtain ⟨j, hj, rfl⟩ := List.mem_map.1 hi
        have := List.mem_range.1 hj
        omega
      exact ⟨_, rfl, hpushed.waits hp hslow hlt rfl⟩
    | false =>
      have hnums : ∀ x ∈ older, IsNum x := fun x hx => isNaN_false.1 (Bool.eq_false_iff.2 (List.any_eq_false.1 hany x hx))
      have hready : slow + p - 1 ≤ t + 1 := by
        by_contra hgt
        have := hall.1 hnums (p - 1) (List.mem_map.2 ⟨p - 2, List.mem_range.2 (by omega), by omega⟩)
        omega
      rw [if_neg Bool.false_ne_true]
      have hplace := stoch_num hm hm hnums
      exact Between.nextPff { hpushed with pf := by simp [h.pf, h.factor, hplace] } hp hslow hready

theorem Between.nextSlow (h : s.Between p fast slow t t t) (hp : 0 < p) (hslow : 0 < slow) (hs : Numeric t source) :
    ∃ s', s.nextSlow source = some s' ∧ s'.Between p fast slow (t + 1) (t + 1) (t + 1) := by
  obtain rfl := h.slowEq
  unfold STC.nextSlow
  rw [hs.cursor]
  by_cases hearly : t + 1 < s.slow
  · rw [if_pos hearly]
    exact ⟨_, rfl, Between.waits (s := { s with macd := s.macd ++ [nan] }) { h with macd := h.macd.snoc_nan hearly } hp hslow (by omega) rfl⟩
  · obtain ⟨slowEma, hslowEma, hnum⟩ := average_num hs hslow (by omega) h.slowEma s.slowInit
    rw [if_neg hearly, hslowEma, Option.bind_eq_bind, Option.bind_some]
    exact Between.nextPf { h with slowEma := hnum } hp hslow (by simp [h.fastEma, hnum]) (by omega)

theorem Between.next (h : s.Between p fast slow qs.length qs.length qs.length) (hp : 0 < p) (hfast : 0 < fast) (hle : fast ≤ slow)
    (hs : Sourced ((qs ++ [q]).map OrNan.num) source) :
    ∃ s', s.next source = some s' ∧ s'.Between p fast slow (qs ++ [q]).length (qs ++ [q]).length (qs ++ [q]).length := by
  have hnumeric := hs.feeds.numeric
  rw [List.length_append, List.length_singleton]
  obtain rfl := h.fastEq
  unfold STC.next
  rw [hnumeric.cursor]
  by_cases hearly : qs.length + 1 < s.fast
  · rw [if_pos hearly]
    exact ⟨_, rfl, Between.waits (s := { s with macd := s.macd ++ [nan] }) { h with macd := h.macd.snoc_nan (by omega) } hp (by omega)
      (by omega) rfl⟩
  · obtain ⟨fastEma, hfastEma, hnum⟩ := average_num hnumeric hfast (by omega) h.fastEma s.fastInit
    rw [if_neg hearly, hfastEma, Option.bind_eq_bind, Option.bind_some]
    exact Between.nextSlow { h with fastEma := hnum } hp (by omega) hnumeric

end STC

/-! ### HMA, ZLEMA, DPO, T3 -/

namespace HMA
variable {h : HMA OrNan}

structure After (p t : Nat) (h : HMA OrNan) : Prop where
  periodEq : h.period = p
  sqrtPos : 0 < h.sqrtPeriod
  diff : Late p t h.diff.data
  fullPeriod : h.wmaFull.period = p
  full : Late p t h.wmaFull.line
  halfPos : 0 < h.wmaHalf.period
  halfLe : h.wmaHalf.period ≤ p
  half : Late h.wmaHalf.period t h.wmaHalf.line
  finalPeriod : h.wmaFinal.period = h.sqrtPeriod
  line : Late h.minimumPeriod t h.line

theorem init_after (hp : 0 < p) : After p 0 (init p) := by
  have hsqrt := Nat.sqrt_pos.2 hp
  refine ⟨rfl, hsqrt, .nil, rfl, .nil, ?_, ?_, .nil, if_neg hsqrt.ne', .nil⟩ <;> simp only [init] <;> split_ifs <;> omega

theorem After.next (hafter : h.After p qs.length) (hp : 0 < p) (hs : Sourced ((qs ++ [q]).map OrNan.num) source) :
    ∃ h', h.next source = some h' ∧ h'.After p (qs ++ [q]).length ∧ h'.minimumPeriod = h.minimumPeriod := by
  obtain ⟨full, hfull, hfullNum⟩ := wma_adds hs.feeds Nat.one_pos (hafter.fullPeriod.symm ▸ hp)
  obtain ⟨half, hhalf, hhalfNum⟩ := wma_adds hs.feeds Nat.one_pos hafter.halfPos
  have hperiod := hafter.periodEq
  have hfullPeriod := hafter.fullPeriod
  have hhalfPos := hafter.halfPos
  have hhalfLe := hafter.halfLe
  have hsqrt := hafter.sqrtPos
  have hfinalPeriod := hafter.finalPeriod
  have hminimum : h.minimumPeriod = h.period + h.sqrtPeriod - 1 := rfl
  have hfullNum : IsNum full ↔ p ≤ qs.length + 1 := hfullNum.trans (by omega)
  have hhalfNum : IsNum half ↔ h.wmaHalf.period ≤ qs.length + 1 := hhalfNum.trans (by omega)
  have hfinal : ∀ x, (IsNum x ↔ p ≤ qs.length + 1) → ∃ y, h.wmaFinal.next (h.diff.forward x) =
      some { h.wmaFinal with line := h.wmaFinal.line ++ [y] } ∧ (IsNum y ↔ p + h.wmaFinal.period ≤ qs.length + 2) := fun x hx =>
    wma_adds (Feeds.forward hafter.diff hp hx) hp (by omega)
  have hfullLine := hafter.full.snoc hp hfullNum
  have hhalfLine := hafter.half.snoc hhalfPos hhalfNum
  rw [List.length_append, List.length_singleton]
  unfold HMA.next
  simp only [hfull, hhalf, Option.bind_eq_bind, Option.bind_some, List.getLast?_concat]
  cases hnan : isNaN full || isNaN half with
  | true =>
    have hlt : qs.length + 1 < p := by
      by_contra hge
      have hnone : (isNaN full || isNaN half) = false := by
        rw [Bool.or_eq_false_iff, isNaN_false, isNaN_false]
        exact ⟨hfullNum.2 (by omega), hhalfNum.2 (by omega)⟩
      rw [hnan] at hnone
      cases hnone
    have hdiff : IsNum (nan : OrNan) ↔ p ≤ qs.length + 1 := iff_of_false OrNan.not_isNum_nan (by omega)
    obtain ⟨y, hy, -⟩ := hfinal nan hdiff
    simp only [if_true, hy, Option.bind_some]
    exact ⟨_, rfl, { hafter with
      diff := hafter.diff.snoc hp hdiff
      full := hfullLine
      half := hhalfLine
      line := hafter.line.snoc_nan (by omega) }, rfl⟩
  | false =>
    rw [Bool.or_eq_false_iff, isNaN_false, isNaN_false] at hnan
    have hdiff : IsNum (2.0 * half - full) ↔ p ≤ qs.length + 1 := by simp [hnan.1, hnan.2, ← hfullNum]
    obtain ⟨y, hy, hyNum⟩ := hfinal _ hdiff
    simp only [Bool.false_eq_true, if_false, hy, Option.bind_some, List.getLast?_concat]
    exact ⟨_, rfl, { hafter with
      diff := hafter.diff.snoc hp hdiff
      full := hfullLine
      half := hhalfLine
      line := hafter.line.snoc (by omega) (hyNum.trans (by omega)) }, rfl⟩

end HMA

namespace ZeroLagExponentialMovingAverage
variable {z : ZeroLagExponentialMovingAverage OrNan}

structure After (p t : Nat) (z : ZeroLagExponentialMovingAverage OrNan) : Prop where
  periodEq : z.period = p
  count : z.adjusted.data.length = t - z.lag
  nums : ∀ x ∈ z.adjusted.data, IsNum x
  ema : z.ema.After (t - z.lag)
  emaPeriod : z.ema.period = p
  line : Late z.minimumPeriod t z.line

theorem init_after (hp : 0 < p) : After p 0 (init p) :=
  ⟨rfl, (Nat.zero_sub _).symm, nofun, by
    rw [Nat.zero_sub]
    exact ⟨by simp only [init, EMA.init, if_neg hp.ne', hp], .nil, OrNan.isNum_zero⟩, if_neg hp.ne', .nil⟩

theorem After.next (h : z.After p qs.length) (hp : 0 < p) (hs : Sourced ((qs ++ [q]).map OrNan.num) source) :
    ∃ z', z.next source = some z' ∧ z'.After p (qs ++ [q]).length ∧ z'.minimumPeriod = z.minimumPeriod := by
  have hnumeric := hs.feeds.numeric
  have hperiod := h.periodEq
  have hminimum : z.minimumPeriod = z.period + z.lag := rfl
  rw [List.length_append, List.length_singleton]
  unfold ZeroLagExponentialMovingAverage.next
  rw [hnumeric.cursor]
  by_cases hearly : qs.length < z.lag
  · rw [if_pos hearly]
    have hnone : qs.length + 1 - z.lag = qs.length - z.lag := by omega
    exact ⟨_, rfl, { h with
      count := h.count.trans hnone.symm
      ema := by
        show z.ema.After (qs.length + 1 - z.lag)
        rw [hnone]
        exact h.ema
      line := h.line.snoc_nan (by omega) }, rfl⟩
  · obtain ⟨c, hcurrent⟩ := hnumeric.read
    obtain ⟨b, hbefore⟩ := hnumeric.readBack (i := z.lag) (by omega)
    rw [hnumeric.cursor] at hcurrent hbefore
    have hnums : ∀ x ∈ (z.adjusted.forward (2.0 * OrNan.num c - .num b)).data, IsNum x := by
      intro x hx
      rcases List.mem_append.1 hx with hx | hx
      · exact h.nums x hx
      · rw [List.mem_singleton.1 hx]
        simp
    have hadjusted : Numeric (qs.length - z.lag) (z.adjusted.forward (2.0 * OrNan.num c - .num b)) :=
      ⟨h.count, by
        show qs.length - z.lag < (z.adjusted.data ++ [_]).length
        rw [List.length_append, h.count]
        exact Nat.lt_succ_self _, hnums⟩
    obtain ⟨ema, hema, hafter, hemaPeriod⟩ := h.ema.next hadjusted
    obtain ⟨x, hlast, hnum⟩ := hafter.line.last
    have hone : qs.length - z.lag + 1 = qs.length + 1 - z.lag := by omega
    rw [if_neg hearly, hcurrent, hbefore]
    simp only [Option.bind_eq_bind, Option.bind_some, hema, hlast]
    refine ⟨_, rfl, { h with
      count := ?_
      nums := hnums
      ema := hone ▸ hafter
      emaPeriod := hemaPeriod.trans h.emaPeriod
      line := h.line.snoc (by omega) (hnum.trans ?_) }, rfl⟩
    · show (z.adjusted.data ++ [_]).length = _
      rw [List.length_append, h.count, List.length_singleton, hone]
    · rw [hemaPeriod, h.emaPeriod]
      omega

end ZeroLagExponentialMovingAverage

namespace DetrendedPriceOscillator
variable {d : DetrendedPriceOscillator OrNan}

structure After (p t : Nat) (d : DetrendedPriceOscillator OrNan) : Prop where
  periodEq : d.period = p
  average : SmaAfter t d.average
  averagePeriod : d.average.period = p
  line : Late d.minimumPeriod t d.line

theorem init_after (hp : 0 < p) : After p 0 (init p) := by
  have haverage : (smaOf p : StratForge.SMA OrNan).period = p := if_neg hp.ne'
  exact ⟨rfl, ⟨by show 0 < (smaOf p : StratForge.SMA OrNan).period; rw [haverage]; exact hp, .nil⟩, haverage, .nil⟩

theorem After.next (h : d.After p qs.length) (hp : 0 < p) (hs : Sourced ((qs ++ [q]).map OrNan.num) source) :
    ∃ d', d.next source = some d' ∧ d'.After p (qs ++ [q]).length ∧ d'.minimumPeriod = d.minimumPeriod := by
  have hnumeric := hs.feeds.numeric
  obtain ⟨haverage, hperiod⟩ := h.average.next hnumeric
  have hperiodEq := h.periodEq
  have hminimum : d.minimumPeriod = d.period + d.offset := rfl
  have haveragePeriod := h.averagePeriod
  obtain ⟨c, hcurrent⟩ := hnumeric.read
  rw [hnumeric.cursor] at haverage hperiod hcurrent
  rw [List.length_append, List.length_singleton]
  unfold DetrendedPriceOscillator.next
  rw [hnumeric.cursor]
  dsimp only
  by_cases hearly : qs.length < d.offset
  · rw [if_pos hearly]
    exact ⟨_, rfl, { h with
      average := haverage
      averagePeriod := hperiod.trans h.averagePeriod
      line := h.line.snoc_nan (by omega) }, rfl⟩
  · obtain ⟨x, hx, hnum⟩ := haverage.line.read (i := qs.length - d.offset) (by omega)
    rw [hperiod, haveragePeriod] at hnum
    rw [if_neg hearly, Access.readBack, if_pos (Nat.le_of_not_lt hearly), hx, Option.bind_eq_bind, Option.bind_some]
    cases x with
    | nan =>
      have hlt : ¬ p ≤ qs.length - d.offset + 1 := fun hle => OrNan.not_isNum_nan (hnum.2 hle)
      exact ⟨_, rfl, { h with
        average := haverage
        averagePeriod := hperiod.trans h.averagePeriod
        line := h.line.snoc_nan (by omega) }, rfl⟩
    | num a =>
      have hle := hnum.1 (OrNan.isNum_num a)
      rw [OrNan.isNaN_num, if_neg Bool.false_ne_true, hcurrent]
      exact ⟨_, rfl, { h with
        average := haverage
        averagePeriod := hperiod.trans h.averagePeriod
        line := h.line.snoc_num (by omega) (by omega) (by simp) }, rfl⟩

end DetrendedPriceOscillator

theorem T3MovingAverage.Nests.late {v : ℚ} {a : T3MovingAverage OrNan} (h : a.Nests p (.num v) qs) :
    Late a.minimumPeriod qs.length a.line := by
  have hp := h.pos
  have hminimum : a.minimumPeriod = 6 * p - 5 := by rw [minimumPeriod, h.period]
  rw [h.line, hminimum]
  refine ⟨Driven.length_outputs _ qs, fun t x hx => ?_⟩
  have ht : t < qs.length := Driven.length_outputs _ qs ▸ (List.getElem?_eq_some_iff.1 hx).1
  rw [Driven.getElem?_outputs ht] at hx
  obtain rfl := Option.some.inj hx
  by_cases hready : 6 * p - 5 - 1 ≤ t
  · obtain ⟨e3, h3, -⟩ := level_read (k := 3) hp ht (by omega)
    obtain ⟨e4, h4, -⟩ := level_read (k := 4) hp ht (by omega)
    obtain ⟨e5, h5, -⟩ := level_read (k := 5) hp ht (by omega)
    obtain ⟨e6, h6, -⟩ := level_read (k := 6) hp ht (by omega)
    rw [h3, h4, h5, h6, combine_num]
    exact iff_of_true (OrNan.isNum_num _) hready
  · rw [level_early (k := 6) hp (by rw [List.length_take]; omega)]
    exact iff_of_false (by simp [combine]) hready

/-! ### As they say -/

/-- On bar `declared`, counted from one, and on every later one of the `count` bars, there is a number. -/
def ReadyFrom (declared count : Nat) (outputs : List OrNan) : Prop :=
  ∀ t < count, declared ≤ t + 1 → ∃ x, outputs[t]? = some x ∧ IsNum x

/-- No number comes before the bar that the line begins on. -/
theorem Late.readyFrom_iff {declared count : Nat} (h : Late ready count l) (hpos : 0 < declared) :
    ReadyFrom declared count l ↔ ready ≤ declared ∨ count < declared := by
  constructor
  · intro hready
    by_contra hnot
    obtain ⟨hlt, hle⟩ := not_or.1 hnot
    obtain ⟨x, hx, hnum⟩ := hready (declared - 1) (by omega) (by omega)
    have := (h.starts _ x hx).1 hnum
    omega
  · intro hcase t ht hle
    obtain ⟨x, hx, hnum⟩ := h.read ht
    exact ⟨x, hx, hnum.2 (by omega)⟩

theorem Late.readyFrom {count : Nat} (h : Late ready count l) : ReadyFrom ready count l := fun t ht hle => by
  obtain ⟨x, hx, hnum⟩ := h.read ht
  exact ⟨x, hx, hnum.2 hle⟩

theorem KnowSureThing.ready_iff (hqs : Moving qs) {rp1 rp2 rp3 rp4 rma1 rma2 rma3 rma4 m : Nat}
    (hrp : 0 < rp1 ∧ 0 < rp2 ∧ 0 < rp3 ∧ 0 < rp4) (hrma : 0 < rma1 ∧ 0 < rma2 ∧ 0 < rma3 ∧ 0 < rma4) (hm : 0 < m) :
    ∃ l k, overSource KnowSureThing.next (.init rp1 rp2 rp3 rp4 rma1 rma2 rma3 rma4 m) (qs.map .num) = some (l, k) ∧
      (ReadyFrom k.kstPeriod qs.length k.line ↔
        qs.length + 1 < max (max (max (rp1 + rma1) (rp2 + rma2)) (rp3 + rma3)) (rp4 + rma4)) ∧
      (ReadyFrom k.minimumPeriod qs.length k.signal ↔
        qs.length + 2 < max (max (max (rp1 + rma1) (rp2 + rma2)) (rp3 + rma3)) (rp4 + rma4) + m) := by
  obtain ⟨l, k, hrun, h⟩ := overSource_prefixes (fun qs k => Between (rp1 + rma1) (rp2 + rma2) (rp3 + rma3) (rp4 + rma4) m qs.length qs.length k)
    (init_between hrp hrma hm) (fun _ _ => Moving.before) (fun _ _ _ _ hok hs h => h.next hm hs hok) hqs
  have hkst := h.kstPeriod
  have hminimum : k.minimumPeriod = k.kstPeriod + m - 1 := by rw [minimumPeriod, h.rsignal]
  refine ⟨l, k, hrun, (h.line.readyFrom_iff (by omega)).trans (by omega), ?_⟩
  rw [hminimum]
  exact (h.signal.readyFrom_iff (by omega)).trans (by omega)

theorem CoppockCurve.ready_iff (hqs : Moving qs) {p1 p2 w : Nat} (h1 : 0 < p1) (h2 : 0 < p2) (hw : 0 < w) :
    ∃ l c, overSource CoppockCurve.next (.init p1 p2 w) (qs.map .num) = some (l, c) ∧
      (ReadyFrom c.minimumPeriod qs.length c.line ↔ qs.length < w) := by
  obtain ⟨l, c, hrun, h⟩ := overSource_prefixes (fun qs c => After p1 p2 w qs.length c) (init_after h1 h2 hw)
    (fun _ _ => Moving.before) (fun _ _ _ _ hok hs h => h.next hs hok) hqs
  have hminimum : c.minimumPeriod = w := h.wmaPeriod
  refine ⟨l, c, hrun, ?_⟩
  rw [hminimum]
  exact (h.line.readyFrom_iff hw).trans (by omega)

theorem STC.ready_iff {fast slow : Nat} (hp : 0 < p) (hfast : 0 < fast) (hle : fast ≤ slow) (factor : ℚ) (qs : List ℚ) :
    ∃ l s, overSource STC.next (.init p fast slow (.num factor)) (qs.map .num) = some (l, s) ∧
      (ReadyFrom s.minimumPeriod qs.length s.line ↔ p ≤ 2 ∨ qs.length < slow + p) := by
  obtain ⟨l, s, hrun, h⟩ := overSource_nums (fun qs s => Between p fast slow qs.length qs.length qs.length s)
    (init_between hp hfast (hfast.trans_le hle) factor) (fun _ _ _ _ hs h => h.next hp hfast hle hs) qs
  have hminimum : s.minimumPeriod = slow + p := by rw [minimumPeriod, h.slowEq, h.period]
  refine ⟨l, s, hrun, ?_⟩
  rw [hminimum]
  exact (h.line.readyFrom_iff (by omega)).trans (by omega)

theorem TrueStrengthIndicator.inTime (hqs : Moving qs) {period1 period2 pchange : Nat} (h1 : 0 < period1) (h2 : 0 < period2)
    (hc : 0 < pchange) : ∃ l t, overSource TrueStrengthIndicator.next (.init period1 period2 pchange) (qs.map .num) = some (l, t) ∧
      ReadyFrom t.minimumPeriod qs.length t.line := by
  obtain ⟨l, t, hrun, h⟩ := overSource_prefixes (fun qs t => After True qs t) (init_after h1 h2 hc)
    (fun _ _ => Moving.before) (fun _ _ _ _ hok hs h => by
      obtain ⟨t', ht', h', -⟩ := h.next hs fun _ => hok.nodup
      exact ⟨t', ht', h'⟩) hqs
  exact ⟨l, t, hrun, Late.readyFrom ⟨h.length, h.ready trivial⟩⟩

theorem StochRSI.inTime (hqs : Moving qs) {rsiPeriod stochPeriod periodD : Nat} (hr : 0 < rsiPeriod) (hs : 0 < stochPeriod)
    (hd : 0 < periodD) : ∃ l s, overSource StochRSI.next (.init rsiPeriod stochPeriod periodD) (qs.map .num) = some (l, s) ∧
      ReadyFrom s.percKPeriod qs.length s.line ∧ ReadyFrom s.minimumPeriod qs.length s.percD := by
  obtain ⟨l, s, hrun, h⟩ := overSource_prefixes (fun qs s => After True qs s) (init_after hr hs hd)
    (fun _ _ => Moving.before) (fun _ _ _ _ hok hs h => by
      obtain ⟨s', hs', h', -⟩ := h.next hs fun _ => hok.nodup
      exact ⟨s', hs', h'⟩) hqs
  exact ⟨l, s, hrun, Late.readyFrom ⟨h.length, h.ready trivial⟩, Late.readyFrom ⟨h.lengthD, h.readyD trivial⟩⟩

theorem T3MovingAverage.inTime (hp : 0 < p) (v : ℚ) (qs : List ℚ) :
    ∃ l a, overSource T3MovingAverage.next (.init p (.num v)) (qs.map .num) = some (l, a) ∧
      ReadyFrom a.minimumPeriod qs.length a.line := by
  obtain ⟨l, a, hrun, h⟩ := overSource_nums (Nests p (.num v)) (init_nests hp (.num v)) (fun _ _ _ _ hs h => h.next hs) qs
  exact ⟨l, a, hrun, h.late.readyFrom⟩

theorem HMA.inTime (hp : 0 < p) (qs : List ℚ) : ∃ l h, overSource HMA.next (.init p) (qs.map .num) = some (l, h) ∧
    ReadyFrom h.minimumPeriod qs.length h.line := by
  obtain ⟨l, h, hrun, hafter⟩ := overSource_nums (fun qs h => After p qs.length h) (init_after hp) (fun _ _ _ _ hs h => by
    obtain ⟨h', hh', hafter, -⟩ := h.next hp hs
    exact ⟨h', hh', hafter⟩) qs
  exact ⟨l, h, hrun, hafter.line.readyFrom⟩

theorem ZeroLagExponentialMovingAverage.inTime (hp : 0 < p) (qs : List ℚ) :
    ∃ l z, overSource ZeroLagExponentialMovingAverage.next (.init p) (qs.map .num) = some (l, z) ∧
      ReadyFrom z.minimumPeriod qs.length z.line := by
  obtain ⟨l, z, hrun, h⟩ := overSource_nums (fun qs z => After p qs.length z) (init_after hp) (fun _ _ _ _ hs h => by
    obtain ⟨z', hz', hafter, -⟩ := h.next hp hs
    exact ⟨z', hz', hafter⟩) qs
  exact ⟨l, z, hrun, h.line.readyFrom⟩

theorem DetrendedPriceOscillator.inTime (hp : 0 < p) (qs : List ℚ) :
    ∃ l d, overSource DetrendedPriceOscillator.next (.init p) (qs.map .num) = some (l, d) ∧
      ReadyFrom d.minimumPeriod qs.length d.line := by
  obtain ⟨l, d, hrun, h⟩ := overSource_nums (fun qs d => After p qs.length d) (init_after hp) (fun _ _ _ _ hs h => by
    obtain ⟨d', hd', hafter, -⟩ := h.next hp hs
    exact ⟨d', hd', hafter⟩) qs
  exact ⟨l, d, hrun, h.line.readyFrom⟩

/-- KST and Coppock say so too early, and STC does from a period of three on, of every source that is long enough to
reach the bar they name. The others say so in time. -/
theorem composites_ready {qs : List ℚ} (hpositive : ∀ q ∈ qs, 0 < q) (hmonotone : qs.Pairwise (· < ·) ∨ qs.Pairwise (· > ·))
    {rp1 rp2 rp3 rp4 rma1 rma2 rma3 rma4 a b c fast slow : Nat} (hrp : 0 < rp1 ∧ 0 < rp2 ∧ 0 < rp3 ∧ 0 < rp4)
    (hrma : 0 < rma1 ∧ 0 < rma2 ∧ 0 < rma3 ∧ 0 < rma4) (ha : 0 < a) (hb : 0 < b) (hc : 0 < c) (hfast : 0 < fast) (hslow : fast ≤ slow) :
    (∃ l k, overSource KnowSureThing.next (.init rp1 rp2 rp3 rp4 rma1 rma2 rma3 rma4 a) (qs.map .num) = some (l, k) ∧
      (ReadyFrom k.kstPeriod qs.length k.line ↔
        qs.length + 1 < max (max (max (rp1 + rma1) (rp2 + rma2)) (rp3 + rma3)) (rp4 + rma4)) ∧
      (ReadyFrom k.minimumPeriod qs.length k.signal ↔
        qs.length + 2 < max (max (max (rp1 + rma1) (rp2 + rma2)) (rp3 + rma3)) (rp4 + rma4) + a)) ∧
    (∃ l s, overSource CoppockCurve.next (.init a b c) (qs.map .num) = some (l, s) ∧
      (ReadyFrom s.minimumPeriod qs.length s.line ↔ qs.length < c)) ∧
    (∀ factor : ℚ, ∃ l s, overSource STC.next (.init a fast slow (.num factor)) (qs.map .num) = some (l, s) ∧
      (ReadyFrom s.minimumPeriod qs.length s.line ↔ a ≤ 2 ∨ qs.length < slow + a)) ∧
    (∀ v : ℚ, ∃ l s, overSource T3MovingAverage.next (.init a (.num v)) (qs.map .num) = some (l, s) ∧
      ReadyFrom s.minimumPeriod qs.length s.line) ∧
    (∃ l s, overSource TrueStrengthIndicator.next (.init a b c) (qs.map .num) = some (l, s) ∧
      ReadyFrom s.minimumPeriod qs.length s.line) ∧
    (∃ l s, overSource HMA.next (.init a) (qs.map .num) = some (l, s) ∧ ReadyFrom s.minimumPeriod qs.length s.line) ∧
    (∃ l s, overSource StochRSI.next (.init a b c) (qs.map .num) = some (l, s) ∧
      ReadyFrom s.percKPeriod qs.length s.line ∧ ReadyFrom s.minimumPeriod qs.length s.percD) ∧
    (∃ l s, overSource ZeroLagExponentialMovingAverage.next (.init a) (qs.map .num) = some (l, s) ∧
      ReadyFrom s.minimumPeriod qs.length s.line) ∧
    ∃ l s, overSource DetrendedPriceOscillator.next (.init a) (qs.map .num) = some (l, s) ∧
      ReadyFrom s.minimumPeriod qs.length s.line := by
  have hqs : Moving qs := ⟨hpositive, by
    rcases hmonotone with hup | hdown
    · exact hup.imp fun h => h.ne
    · exact hdown.imp fun h => h.ne'⟩
  exact ⟨KnowSureThing.ready_iff hqs hrp hrma ha, CoppockCurve.ready_iff hqs ha hb hc,
    fun factor => STC.ready_iff ha hfast hslow factor qs, fun v => T3MovingAverage.inTime ha v qs,
    TrueStrengthIndicator.inTime hqs ha hb hc, HMA.inTime ha qs, StochRSI.inTime hqs ha hb hc,
    ZeroLagExponentialMovingAverage.inTime ha qs, DetrendedPriceOscillator.inTime ha qs⟩

theorem composites_ready_two : ∃ l s, overSource CoppockCurve.next (.init 1 1 1) ([1, 2].map OrNan.num) = some (l, s) ∧
    (ReadyFrom s.minimumPeriod 2 s.line ↔ 2 < 1) := by
  have hpositive : ∀ q ∈ ([1, 2] : List ℚ), 0 < q := by simp
  have hone : 0 < 1 ∧ 0 < 1 ∧ 0 < 1 ∧ 0 < 1 := by simp
  exact (composites_ready hpositive (.inl (by simp)) hone hone Nat.one_pos Nat.one_pos Nat.one_pos Nat.one_pos (le_refl 1)).2.1

/-- With all periods 1 KST is ready on the first bar by what it says, as Coppock is, and both give NaN on it; STC of period 3
says four bars for averages of one bar, and gives NaN on the fourth. -/
theorem said_too_early :
    (∃ l k, overSource KnowSureThing.next (.init 1 1 1 1 1 1 1 1 1) ([1, 2, 3, 4].map OrNan.num) = some (l, k) ∧
      ¬ ReadyFrom k.kstPeriod 4 k.line ∧ ¬ ReadyFrom k.minimumPeriod 4 k.signal) ∧
    (∃ l s, overSource CoppockCurve.next (.init 1 1 1) ([1, 2, 3, 4].map OrNan.num) = some (l, s) ∧
      ¬ ReadyFrom s.minimumPeriod 4 s.line) ∧
    ∃ l s, overSource STC.next (.init 3 1 1 (.num (1 / 2))) ([1, 2, 3, 4].map OrNan.num) = some (l, s) ∧
      ¬ ReadyFrom s.minimumPeriod 4 s.line := by
  have hqs : Moving [1, 2, 3, 4] := ⟨by simp, by norm_num⟩
  refine ⟨?_, ?_, ?_⟩
  · have hone : 0 < 1 ∧ 0 < 1 ∧ 0 < 1 ∧ 0 < 1 := by simp
    obtain ⟨l, k, hrun, hline, hsignal⟩ := KnowSureThing.ready_iff hqs hone hone Nat.one_pos
    exact ⟨l, k, hrun, fun h => absurd (hline.1 h) (by simp), fun h => absurd (hsignal.1 h) (by simp)⟩
  · obtain ⟨l, s, hrun, hline⟩ := CoppockCurve.ready_iff hqs Nat.one_pos Nat.one_pos Nat.one_pos
    exact ⟨l, s, hrun, fun h => absurd (hline.1 h) (by simp)⟩
  · obtain ⟨l, s, hrun, hline⟩ := STC.ready_iff (p := 3) (by omega) Nat.one_pos (le_refl 1) (1 / 2) [1, 2, 3, 4]
    exact ⟨l, s, hrun, fun h => absurd (hline.1 h) (by simp)⟩

end Indicators
end StratForge
