import StratForge.Extremes
import StratForge.Quotes

/-!
# The laws of the parabolic SAR (`indicators/psar.hpp`)

A bar turns the trend or extends it, then moves the SAR for the next bar. In exact arithmetic each of the three is a
step on numbers, and what the entry for the next bar says of the bars of its trend is kept by them.
-/

namespace StratForge
namespace Indicators
open Floating (nan)
open Extremes (Beyond Extreme news)

namespace ParabolicSAR

/-- How far a bar reaches in the direction of a trend. -/
def reach (up : Bool) (bar : Row ℚ) : ℚ := if up then bar.high else bar.low

/-- How many bars of a trend after its first set a new extreme. -/
def newExtremes (up : Bool) : List (Row ℚ) → Nat
  | [] => 0
  | bar :: bars => news up (reach up bar) (bars.map (reach up))

theorem newExtremes_concat {up : Bool} {e : ℚ} {leg : List (Row ℚ)} (h : Extreme up e (leg.map (reach up))) (bar : Row ℚ) :
    newExtremes up (leg ++ [bar]) = newExtremes up leg + if Beyond up e (reach up bar) then 1 else 0 := by
  cases leg with
  | nil => exact absurd h.mem List.not_mem_nil
  | cons first rest =>
    rw [List.cons_append, newExtremes, List.map_append]
    exact Extremes.news_concat h _

namespace Status

/-- The entry as it is stored. -/
def num (s : Status ℚ) : Status OrNan := { sar := .num s.sar, tr := s.tr, af := .num s.af, ep := .num s.ep }

variable {s : Status ℚ} {af afmax hi lo edge : ℚ} {bar before : Row ℚ} {leg : List (Row ℚ)}

theorem turned_num (s : Status ℚ) (af hi lo : ℚ) : s.num.turned (.num af) (.num hi) (.num lo) = (s.turned af hi lo).num := by
  unfold turned
  rw [apply_ite num]
  cases htr : s.tr <;> simp [num, htr]

theorem extended_num (s : Status ℚ) (af afmax hi lo : ℚ) :
    s.num.extended (.num af) (.num afmax) (.num hi) (.num lo) = (s.extended af afmax hi lo).num := by
  unfold extended
  cases htr : s.tr
  · simp only [num, htr, OrNan.num_lt, OrNan.num_add, OrNan.min_num, Arith.min_rat, Bool.false_eq_true, if_false]
    split_ifs <;> simp [htr]
  · simp only [num, htr, OrNan.num_lt, OrNan.num_add, OrNan.min_num, Arith.min_rat, if_true]
    split_ifs <;> simp [htr]

theorem moved_num (s : Status ℚ) (hi lo edge : ℚ) :
    s.num.moved (.num hi) (.num lo) (.num edge) = (s.moved hi lo edge).num := by
  unfold moved
  cases htr : s.tr
  · simp only [num, htr, OrNan.num_lt, OrNan.num_add, OrNan.num_sub, OrNan.num_mul, OrNan.max_num, Arith.max_rat,
      Bool.false_eq_true, if_false]
    split_ifs <;> simp
  · simp only [num, htr, OrNan.num_lt, OrNan.num_add, OrNan.num_sub, OrNan.num_mul, OrNan.min_num, Arith.min_rat, if_true]
    split_ifs <;> simp

/-- The price has reached the SAR. -/
def Flips (bar : Row ℚ) (s : Status ℚ) : Prop := if s.tr then bar.low ≤ s.sar else s.sar ≤ bar.high

instance (bar : Row ℚ) (s : Status ℚ) : Decidable (Flips bar s) := by unfold Flips; infer_instance

theorem turned_eq (s : Status ℚ) (af : ℚ) (bar : Row ℚ) : s.turned af bar.high bar.low =
    if s.Flips bar then { tr := !s.tr, sar := s.ep, ep := reach (!s.tr) bar, af := af } else s := by
  rcases s with ⟨sar, tr, a, ep⟩
  cases tr <;> simp [turned, Flips, reach]

theorem extended_eq (s : Status ℚ) (af afmax : ℚ) (bar : Row ℚ) : s.extended af afmax bar.high bar.low =
    if Beyond s.tr s.ep (reach s.tr bar) then { s with ep := reach s.tr bar, af := min (s.af + af) afmax } else s := by
  rcases s with ⟨sar, tr, a, ep⟩
  cases tr <;> simp [extended, reach]

theorem moved_trend (s : Status ℚ) (hi lo edge : ℚ) :
    (s.moved hi lo edge).tr = s.tr ∧ (s.moved hi lo edge).ep = s.ep ∧ (s.moved hi lo edge).af = s.af := by
  unfold moved
  cases htr : s.tr <;> simp

/-- What a bar makes of the entry that it reads. -/
def visit (af afmax : ℚ) (bar before : Row ℚ) (s : Status ℚ) : Status ℚ :=
  let s := (s.turned af bar.high bar.low).extended af afmax bar.high bar.low
  s.moved bar.high bar.low (if s.tr then before.low else before.high)

/-- The entry knows the bars of its trend. -/
structure Trend (af afmax : ℚ) (leg : List (Row ℚ)) (s : Status ℚ) : Prop where
  extreme : Extreme s.tr s.ep (leg.map (reach s.tr))
  af : s.af = min (af * (1 + newExtremes s.tr leg)) afmax

theorem Trend.extended (h : Trend af afmax leg s) (haf : 0 ≤ af) (bar : Row ℚ) :
    Trend af afmax (leg ++ [bar]) (s.extended af afmax bar.high bar.low) := by
  have hextreme := h.extreme.snoc (reach s.tr bar)
  have hnews := newExtremes_concat h.extreme bar
  rw [extended_eq]
  split_ifs with hbeyond
  · rw [if_pos hbeyond] at hextreme hnews
    refine ⟨by simpa using hextreme, ?_⟩
    show min (s.af + af) afmax = min (af * (1 + newExtremes s.tr (leg ++ [bar]))) afmax
    rw [hnews, h.af]
    push_cast
    rcases le_total (af * (1 + newExtremes s.tr leg)) afmax with hle | hle
    · rw [min_eq_left hle]
      congr 1
      ring
    · rw [min_eq_right hle, min_eq_right (by linarith), min_eq_right (by linarith)]
  · rw [if_neg hbeyond] at hextreme hnews
    exact ⟨by simpa using hextreme, by rw [hnews, add_zero]; exact h.af⟩

theorem Trend.start (hle : af ≤ afmax) (up : Bool) (sar : ℚ) (bar : Row ℚ) :
    Trend af afmax [bar] { tr := up, sar, ep := reach up bar, af } where
  extreme := .singleton up _
  af := by
    show af = min (af * (1 + ((newExtremes up [bar] : Nat) : ℚ))) afmax
    simp [newExtremes, news, hle]

theorem Trend.moved (h : Trend af afmax leg s) (hi lo edge : ℚ) : Trend af afmax leg (s.moved hi lo edge) := by
  obtain ⟨htr, hep, haf⟩ := s.moved_trend hi lo edge
  exact ⟨by rw [htr, hep]; exact h.extreme, by rw [htr, haf]; exact h.af⟩

/-- A bar that turns begins a trend, any other is one more of the trend. -/
theorem Trend.visit (h : Trend af afmax leg s) (haf : 0 ≤ af) (hle : af ≤ afmax) (bar before : Row ℚ) :
    Trend af afmax (if s.Flips bar then [bar] else leg ++ [bar]) (s.visit af afmax bar before) := by
  refine Trend.moved ?_ _ _ _
  rw [turned_eq]
  split_ifs with hflips
  · rw [extended_eq, if_neg (Extremes.not_beyond_self _)]
    exact .start hle _ _ _
  · exact h.extended haf bar

theorem visit_tr (s : Status ℚ) (af afmax : ℚ) (bar before : Row ℚ) :
    (s.visit af afmax bar before).tr = if s.Flips bar then !s.tr else s.tr := by
  have hext : ∀ s : Status ℚ, (s.extended af afmax bar.high bar.low).tr = s.tr := fun s => by
    rw [extended_eq]
    split_ifs <;> rfl
  unfold visit
  rw [(moved_trend _ _ _ _).1, hext, turned_eq]
  split_ifs <;> rfl

/-- On the right side of a bar. -/
def Beside (s : Status ℚ) (bar : Row ℚ) : Prop := if s.tr then s.sar ≤ bar.low else bar.high ≤ s.sar

theorem visit_beside (s : Status ℚ) (af afmax : ℚ) (bar before : Row ℚ) :
    (s.visit af afmax bar before).Beside bar ∧ (s.visit af afmax bar before).Beside before := by
  unfold visit
  generalize (s.turned af bar.high bar.low).extended af afmax bar.high bar.low = s
  rcases s with ⟨sar, tr, a, ep⟩
  cases tr
  · simp only [Beside, moved, Bool.false_eq_true, if_false, Arith.max_rat]
    split_ifs with hclamp
    · exact ⟨le_max_left _ _, le_max_right _ _⟩
    · push Not at hclamp
      exact hclamp
  · simp only [Beside, moved, if_true, Arith.min_rat]
    split_ifs with hclamp
    · exact ⟨min_le_left _ _, min_le_right _ _⟩
    · push Not at hclamp
      exact hclamp

theorem Trend.af_nonneg (h : Trend af afmax leg s) (haf : 0 ≤ af) (hle : af ≤ afmax) : 0 ≤ s.af := by
  rw [h.af]
  exact le_min (mul_nonneg haf (by positivity)) (haf.trans hle)

/-- Where no bar turns the SAR goes with the trend. -/
theorem visit_steady (h : Trend af afmax leg s) (haf : 0 ≤ af) (hle : af ≤ afmax) (hclosed : bar.Closes)
    (hflips : ¬ s.Flips bar) (hbeside : s.Beside before) :
    if s.tr then s.sar ≤ (s.visit af afmax bar before).sar else (s.visit af afmax bar before).sar ≤ s.sar := by
  have htrend := h.extended haf bar
  have hreach := htrend.extreme.last (reach (s.extended af afmax bar.high bar.low).tr bar) (by simp)
  have hweight := htrend.af_nonneg haf hle
  have hsame : (s.extended af afmax bar.high bar.low).tr = s.tr ∧ (s.extended af afmax bar.high bar.low).sar = s.sar := by
    rw [extended_eq]
    split_ifs <;> exact ⟨rfl, rfl⟩
  have hspan := hclosed.low.trans hclosed.high
  unfold visit
  rw [turned_eq, if_neg hflips]
  generalize s.extended af afmax bar.high bar.low = e at hsame hreach hweight
  rcases s with ⟨sar, tr, a, ep⟩
  rcases e with ⟨sar', tr', a', ep'⟩
  obtain ⟨rfl, rfl⟩ := hsame
  cases tr'
  · simp only [Flips, Beside, Bool.false_eq_true, if_false, not_le, reach, Extremes.beyond_down, not_lt] at *
    have hmove : a' * (ep' - sar') ≤ 0 := mul_nonpos_of_nonneg_of_nonpos hweight (by linarith)
    simp only [moved, Bool.false_eq_true, if_false, Arith.max_rat]
    split_ifs
    · exact max_le hflips.le hbeside
    · linarith
  · simp only [Flips, Beside, if_true, not_le, reach, Extremes.beyond_up, not_lt] at *
    have hmove : 0 ≤ a' * (ep' - sar') := mul_nonneg hweight (by linarith)
    simp only [moved, if_true, Arith.min_rat]
    split_ifs
    · exact le_min hflips.le hbeside
    · linarith

end Status

/-! ### Over a series of bars -/

/-- The indicator with what its entries do not show: the bar that the trend began with, whether the last bar has turned
it, and the SAR of that bar. -/
structure Watched (α : Type) where
  sar : ParabolicSAR α
  began : Nat := 0
  flipped : Bool := false
  computed : α

def Watched.next (q : Quotes OrNan) (w : Watched OrNan) : Option (Watched OrNan) := do
  let sar ← w.sar.next q.high q.low q.close
  let idx := q.close.idx
  if idx = 0 then return { w with sar }
  let hi ← q.high.data[idx]?
  let lo ← q.low.data[idx]?
  let prev ← (← w.sar.found q.high q.low q.close)[idx % 2]?
  let stored ← sar.status[(idx + 1) % 2]?
  return { sar, began := if stored.tr = prev.tr then w.began else idx, flipped := stored.tr != prev.tr
           computed := (prev.turned sar.afStep hi lo).sar }

def Watched.init (period : Nat) (af afmax : ℚ) : Watched OrNan :=
  { sar := { period, afStep := .num af, afMax := .num afmax }, computed := nan }

variable {period : Nat} {af afmax : ℚ} {bars : List (Row ℚ)} {bar before : Row ℚ} {q : Quotes OrNan} {p : ParabolicSAR OrNan}
  {w : Watched OrNan} {s : Status ℚ} {status : List (Status OrNan)}

/-- The entry that the next bar reads is `s`, of a trend that began with the bar `began`. -/
structure Entry (af afmax : ℚ) (bars : List (Row ℚ)) (began : Nat) (status : List (Status OrNan)) (s : Status ℚ) : Prop where
  length : status.length = 2
  stored : status[bars.length % 2]? = some s.num
  trend : s.Trend af afmax (bars.drop began)
  began : began < bars.length

theorem parity_other (n : Nat) : (if n % 2 = 0 then 1 else 0) = (n + 1) % 2 := by
  split_ifs <;> omega

/-- The first bar makes the entry that the second one reads. -/
theorem seed_entry {first : Row ℚ} (hle : af ≤ afmax) (hq : q.Of ([first] ++ [bar])) (hstep : p.afStep = .num af) :
    ∃ status s, p.seed q.high q.low q.close = some status ∧ Entry af afmax [first] 0 status s := by
  have hread : ∀ {column : Row ℚ → ℚ} {l : Line OrNan}, Shows ([first] ++ [bar]) column l →
      l.data[0]? = some (.num (column first)) ∧ l.data[1]? = some (.num (column bar)) := fun h => by simp [h.data]
  simp only [seed, (hread hq.high).1, (hread hq.low).1, (hread hq.close).1, (hread hq.close).2, hstep, Option.bind_eq_bind,
    Option.bind_some, Option.pure_def, OrNan.num_add, OrNan.num_le, OrNan.ofScientific_eq]
  rw [OrNan.num_div (by norm_num)]
  refine ⟨_, { sar := (first.high + first.low) / 2.0, tr := !decide (first.close ≤ bar.close), af
               ep := reach (!decide (first.close ≤ bar.close)) first }, rfl, rfl, ?_, .start hle _ _ _, Nat.one_pos⟩
  show some _ = some _
  split_ifs with hup
  · simp [Status.num, reach, hup]
  · simp [Status.num, reach, hup]

/-- A bar after the first one. -/
theorem track_entry {began : Nat} (hq : q.Of (bars ++ [bar])) (hbefore : bars.getLast? = some before)
    (hfound : p.found q.high q.low q.close = some status) (hentry : Entry af afmax bars began status s)
    (hstep : p.afStep = .num af) (hmax : p.afMax = .num afmax) : p.track q.high q.low q.close = some { p with
      status := status.set ((bars.length + 1) % 2) (s.visit af afmax bar before).num
      line := p.line ++ [if bars.length + 1 < p.period then nan else .num (s.turned af bar.high bar.low).sar] } := by
  have hwrite : Access.write status ((bars.length + 1) % 2) (s.visit af afmax bar before).num =
      some (status.set ((bars.length + 1) % 2) (s.visit af afmax bar before).num) :=
    if_pos (by rw [hentry.length]; exact Nat.mod_lt _ (Nat.succ_pos _))
  have hlen : bars.length + 1 - 2 = bars.length - 1 := by omega
  have hedge : ∀ tr : Bool, (if tr then q.low else q.high).data[bars.length - 1]? =
      some (.num (if tr then before.low else before.high)) := by
    intro tr
    cases tr
    · exact hq.high.lastBefore hbefore
    · exact hq.low.lastBefore hbefore
  simp only [track, hq.close.idx, hfound, Nat.add_sub_cancel, hentry.stored, hq.high.current, hq.low.current, hstep, hmax,
    Status.turned_num, Status.extended_num, hlen, Option.bind_eq_bind, Option.bind_some, Option.pure_def]
  have htr : (((s.turned af bar.high bar.low).extended af afmax bar.high bar.low).num).tr =
    ((s.turned af bar.high bar.low).extended af afmax bar.high bar.low).tr := rfl
  rw [htr, hedge, Option.bind_some, Status.moved_num, parity_other]
  exact congrArg (Option.bind · _) hwrite

/-- The bar goes into the trend of the entry that it leaves. -/
theorem Entry.visit {began : Nat} (h : Entry af afmax bars began status s) (haf : 0 ≤ af) (hle : af ≤ afmax)
    (bar before : Row ℚ) : Entry af afmax (bars ++ [bar]) (if s.Flips bar then bars.length else began)
      (status.set ((bars.length + 1) % 2) (s.visit af afmax bar before).num) (s.visit af afmax bar before) where
  length := by rw [List.length_set, h.length]
  stored := by
    rw [List.length_append, List.length_singleton]
    exact List.getElem?_set_self (by rw [h.length]; exact Nat.mod_lt _ (Nat.succ_pos _))
  trend := by
    have hleg : (bars ++ [bar]).drop (if s.Flips bar then bars.length else began) =
        if s.Flips bar then [bar] else bars.drop began ++ [bar] := by
      split_ifs
      · exact List.drop_left
      · exact List.drop_append_of_le_length h.began.le
    rw [hleg]
    exact h.trend.visit haf hle bar before
  began := by
    have := h.began
    rw [List.length_append, List.length_singleton]
    split_ifs <;> omega

/-- What the bars so far have left, for the next one. -/
structure Reached (period : Nat) (af afmax : ℚ) (bars : List (Row ℚ)) (w : Watched OrNan) : Prop where
  period : w.sar.period = period
  step : w.sar.afStep = .num af
  most : w.sar.afMax = .num afmax
  early : bars.length ≤ 1 → w.sar.status = [] ∧ w.began = 0
  later : 2 ≤ bars.length → ∃ s, Entry af afmax bars w.began w.sar.status s ∧
    (∀ b ∈ bars.drop (bars.length - 2), s.Beside b) ∧
    (3 ≤ bars.length → w.flipped = false → ∃ x, w.computed = .num x ∧ if s.tr then x ≤ s.sar else s.sar ≤ x)

theorem Reached.found (h : Reached period af afmax bars w) (hle : af ≤ afmax) (hne : bars ≠ []) (hq : q.Of (bars ++ [bar])) :
    ∃ status s, w.sar.found q.high q.low q.close = some status ∧ Entry af afmax bars w.began status s ∧
      (2 ≤ bars.length → (∀ b ∈ bars.drop (bars.length - 2), s.Beside b) ∧
        (3 ≤ bars.length → w.flipped = false → ∃ x, w.computed = .num x ∧ if s.tr then x ≤ s.sar else s.sar ≤ x)) := by
  have hpos := List.length_pos_iff.2 hne
  unfold ParabolicSAR.found
  rw [hq.close.idx]
  by_cases hone : bars.length = 1
  · obtain ⟨first, rfl⟩ := List.length_eq_one_iff.1 hone
    obtain ⟨hstatus, hbegan⟩ := h.early (by simp)
    obtain ⟨status, s, hseed, hentry⟩ := seed_entry hle hq h.step
    rw [hstatus, hbegan, if_pos ⟨rfl, rfl⟩]
    exact ⟨status, s, hseed, hentry, fun htwo => absurd htwo (by simp)⟩
  · obtain ⟨s, hentry, hlaws⟩ := h.later (by omega)
    rw [if_neg fun hfirst => hone (by omega)]
    exact ⟨w.sar.status, s, rfl, hentry, fun _ => hlaws⟩

/-- What a bar after the first one shows: the entry that it leaves, the SAR, where the trend turns the extreme point of
the trend that ends, and where two bars running do not turn it how the SAR moves. -/
structure Laws (period : Nat) (af afmax : ℚ) (bars : List (Row ℚ)) (bar : Row ℚ) (w w' : Watched OrNan) (s : Status ℚ) :
    Prop where
  entry : Entry af afmax (bars ++ [bar]) w'.began w'.sar.status s
  beside : ∀ b ∈ (bars ++ [bar]).drop (bars.length - 1), s.Beside b
  output : w'.sar.line.getLast? = some (if bars.length + 1 < period then nan else w'.computed)
  began : w'.began = if w'.flipped then bars.length else w.began
  flip : w'.flipped = true → ∃ x, w'.computed = .num x ∧ Extreme (!s.tr) x ((bars.drop w.began).map (reach (!s.tr)))
  steady : 3 ≤ bars.length → w.flipped = false → w'.flipped = false →
    ∃ x x', w.computed = .num x ∧ w'.computed = .num x' ∧ if s.tr then x ≤ x' else x' ≤ x

theorem Reached.first (h : Reached period af afmax [] w) (hq : q.Of ([] ++ [bar])) :
    ∃ w', w.next q = some w' ∧ Reached period af afmax ([] ++ [bar]) w' := by
  have hidx : q.close.idx = 0 := hq.close.idx
  refine ⟨{ w with sar := { w.sar with status := [], line := w.sar.line ++ [nan] } }, ?_, h.period, h.step, h.most,
    fun _ => ⟨rfl, (h.early (Nat.zero_le _)).2⟩, fun htwo => absurd htwo (by simp)⟩
  simp [Watched.next, ParabolicSAR.next, hidx]

/-- One bar more. -/
theorem Reached.next (h : Reached period af afmax bars w) (haf : 0 ≤ af) (hle : af ≤ afmax) (hne : bars ≠ [])
    (hclosed : bar.Closes) (hq : q.Of (bars ++ [bar])) :
    ∃ w' s, w.next q = some w' ∧ Reached period af afmax (bars ++ [bar]) w' ∧ Laws period af afmax bars bar w w' s := by
  obtain ⟨before, hbefore⟩ := Option.isSome_iff_exists.1 (List.getLast?_isSome.2 hne)
  obtain ⟨status, s, hfound, hentry, hlaws⟩ := h.found hle hne hq
  have hpos := List.length_pos_iff.2 hne
  have hidx : q.close.idx = bars.length := hq.close.idx
  have htrack := track_entry hq hbefore hfound hentry h.step h.most
  have hvisit := hentry.visit haf hle bar before
  have hstored := hvisit.stored
  rw [List.length_append, List.length_singleton] at hstored
  have hflips : ((s.visit af afmax bar before).num.tr = s.num.tr) ↔ ¬ s.Flips bar := by
    show (s.visit af afmax bar before).tr = s.tr ↔ _
    rw [Status.visit_tr]
    split_ifs with hf
    · simp [hf]
    · simp [hf]
  have hcomputed : (s.num.turned w.sar.afStep (.num bar.high) (.num bar.low)).sar = .num (s.turned af bar.high bar.low).sar := by
    rw [h.step, Status.turned_num]
    rfl
  have hnext : w.next q = some
      { sar := { w.sar with
          status := status.set ((bars.length + 1) % 2) (s.visit af afmax bar before).num
          line := w.sar.line ++
            [if bars.length + 1 < w.sar.period then nan else .num (s.turned af bar.high bar.low).sar] }
        began := if s.Flips bar then bars.length else w.began
        flipped := decide (s.Flips bar)
        computed := .num (s.turned af bar.high bar.low).sar } := by
    simp only [Watched.next, ParabolicSAR.next, hidx, if_neg (show ¬ bars.length + 1 = 1 by omega), htrack, hpos.ne', if_false,
      hq.high.current, hq.low.current, hfound, hentry.stored, hstored, hcomputed, Option.bind_eq_bind, Option.bind_some,
      Option.pure_def]
    by_cases hf : s.Flips bar
    · have hne : ¬ (s.visit af afmax bar before).num.tr = s.num.tr := fun heq => hflips.1 heq hf
      simp [hf, hne]
    · simp [hf, hflips.2 hf]
  have hlast : (bars ++ [bar]).drop (bars.length - 1) = [before, bar] := by
    obtain ⟨older, rfl⟩ := List.getLast?_eq_some_iff.1 hbefore
    simp
  have hbeside : ∀ b ∈ (bars ++ [bar]).drop (bars.length - 1), (s.visit af afmax bar before).Beside b := by
    rw [hlast]
    obtain ⟨hbar, hprev⟩ := s.visit_beside af afmax bar before
    simp [hbar, hprev]
  refine ⟨_, s.visit af afmax bar before, hnext, ⟨h.period, h.step, h.most, fun hone => ?_, fun _ => ⟨_, hvisit, ?_, ?_⟩⟩,
    hvisit, hbeside, ?_, ?_, ?_, ?_⟩
  · simp at hone
    exact absurd hone hne
  · rw [List.length_append, List.length_singleton]
    exact hbeside
  · intro hthree hflipped
    have hf : ¬ s.Flips bar := by simpa using hflipped
    rw [List.length_append, List.length_singleton] at hthree
    have hprev : s.Beside before := (hlaws (by omega)).1 before (by
      obtain ⟨older, rfl⟩ := List.getLast?_eq_some_iff.1 hbefore
      simp at hthree
      simp [List.drop_append])
    have htr : (s.visit af afmax bar before).tr = s.tr := by rw [Status.visit_tr, if_neg hf]
    refine ⟨s.sar, by rw [Status.turned_eq, if_neg hf], ?_⟩
    rw [htr]
    exact Status.visit_steady hentry.trend haf hle hclosed hf hprev
  · simp [h.period]
  · simp
  · intro hflipped
    have hf : s.Flips bar := by simpa using hflipped
    have htr : (s.visit af afmax bar before).tr = !s.tr := by rw [Status.visit_tr, if_pos hf]
    refine ⟨s.ep, by rw [Status.turned_eq, if_pos hf], ?_⟩
    rw [htr, Bool.not_not]
    exact hentry.trend.extreme
  · intro hthree hflipped hflipped'
    have hf : ¬ s.Flips bar := by simpa using hflipped'
    have htr : (s.visit af afmax bar before).tr = s.tr := by rw [Status.visit_tr, if_neg hf]
    obtain ⟨x, hx, hsteady⟩ := (hlaws (by omega)).2 hthree hflipped
    refine ⟨x, s.sar, hx, by rw [Status.turned_eq, if_neg hf], ?_⟩
    rw [htr]
    exact hsteady

theorem Watched.next_sar {w' : Watched OrNan} (h : w.next q = some w') : w.sar.next q.high q.low q.close = some w'.sar := by
  simp only [Watched.next, Option.bind_eq_bind, Option.bind_eq_some_iff, Option.pure_def] at h
  obtain ⟨sar, hsar, h⟩ := h
  rw [hsar]
  split_ifs at h
  · rw [← Option.some.inj h]
  · simp only [Option.bind_eq_some_iff, Option.some.injEq] at h
    obtain ⟨hi, -, lo, -, status, -, prev, -, stored, -, rfl⟩ := h
    rfl

theorem driven_reached (haf : 0 ≤ af) (hle : af ≤ afmax) (hok : ∀ b ∈ bars, b.Closes) :
    ∃ q w, driven Watched.next (.init period af afmax) bars = some (q, w) ∧ Reached period af afmax bars w := by
  refine driven_ind _ ⟨rfl, rfl, rfl, fun _ => ⟨rfl, rfl⟩, fun htwo => absurd htwo (by simp)⟩ ?_ hok
  intro bars bar q w hok hq hreached
  rcases eq_or_ne bars [] with rfl | hne
  · exact hreached.first hq
  · obtain ⟨w', s, hnext, hreached', -⟩ := hreached.next haf hle hne (hok bar (by simp)) hq
    exact ⟨w', hnext, hreached'⟩

/-- The laws hold on every bar after the first. -/
theorem sar_laws (period : Nat) (af afmax : ℚ) (haf : 0 ≤ af) (hle : af ≤ afmax) (bars : List (Row ℚ)) (bar : Row ℚ)
    (hne : bars ≠ []) (hok : ∀ b ∈ bars ++ [bar], b.Closes) :
    ∃ q w q' w' s, driven Watched.next (.init period af afmax) bars = some (q, w) ∧
      driven Watched.next (.init period af afmax) (bars ++ [bar]) = some (q', w') ∧
      driven (fun q p => p.next q.high q.low q.close) ({ period, afStep := .num af, afMax := .num afmax } : ParabolicSAR OrNan)
        (bars ++ [bar]) = some (q', w'.sar) ∧
      Laws period af afmax bars bar w w' s := by
  obtain ⟨q, w, hrun, hreached⟩ := @driven_reached period _ _ _ haf hle fun b hb => hok b (List.mem_append_left _ hb)
  obtain ⟨w', s, hnext, -, hlaws⟩ := hreached.next haf hle hne (hok bar (by simp)) ((driven_of hrun).forward bar)
  have hrun' := driven_concat hrun hnext
  exact ⟨q, w, _, w', s, hrun, hrun', driven_project Watched.sar (fun _ _ _ h => Watched.next_sar h) hrun', hlaws⟩

theorem sar_laws_flat : ∃ q w q' w' s, driven Watched.next (.init 2 (1 / 50) (1 / 5)) [flatBar] = some (q, w) ∧
    driven Watched.next (.init 2 (1 / 50) (1 / 5)) [flatBar, flatBar] = some (q', w') ∧
    Laws 2 (1 / 50) (1 / 5) [flatBar] flatBar w w' s := by
  obtain ⟨q, w, q', w', s, hrun, hrun', -, hlaws⟩ := sar_laws 2 (1 / 50) (1 / 5) (by norm_num) (by norm_num) [flatBar] flatBar
    (by simp) (by simp [flatBar, Row.closes_iff])
  exact ⟨q, w, q', w', s, hrun, hrun', hlaws⟩

end ParabolicSAR

end Indicators

end StratForge
