import StratForge.Quotes

/-!
# MACD and its composed form (`indicators/macd.hpp`, `macdext.hpp`)

`MACD` keeps its three averages itself, `MACDExt` has an `EMA` for each. The two are driven over the same source and put
out the same as long as the fast average begins no later than the slow one (`Phase`). With the periods the other way
around `MACD` takes a fast average that has not begun for zero.
-/

namespace StratForge
open Floating (nan isNaN)
open Access (readBack)

/-- NaN is one value, and what is computed of it is NaN. -/
class LawfulNan (α : Type) [Arith α] [Floating α] : Prop where
  isNaN_iff (x : α) : isNaN x = true ↔ x = nan
  nan_add (x : α) : nan + x = nan
  add_nan (x : α) : x + nan = nan
  nan_sub (x : α) : nan - x = nan
  sub_nan (x : α) : x - nan = nan
  nan_mul (x : α) : nan * x = nan
  nan_div (x : α) : nan / x = nan
  eq_nan_of_zero_sub (x : α) : 0 - x = nan → x = nan
  eq_nan_of_div_ofCount (x : α) (n : Nat) : 0 < n → x / Arith.ofCount n = nan → x = nan

instance : LawfulNan OrNan where
  isNaN_iff x := by cases x <;> simp
  nan_add _ := rfl
  add_nan x := by cases x <;> rfl
  nan_sub _ := rfl
  sub_nan x := by cases x <;> rfl
  nan_mul _ := rfl
  nan_div _ := rfl
  eq_nan_of_zero_sub x h := by cases x with
    | num q => cases h
    | nan => rfl
  eq_nan_of_div_ofCount x n hn h := by
    by_contra hx
    exact (OrNan.isNum_div_ofCount hn).2 (show OrNan.IsNum x from hx) h

namespace Indicators
open LawfulNan

/-! ### Averages of a window -/

section
variable {α : Type} [Arith α] {v : List α} {idx p : Nat}

/-- Values before the window do not matter. -/
theorem averageBack_append (before : List α) (hidx : idx < v.length) (hle : p ≤ idx + 1) :
    averageBack (before ++ v) (before.length + idx) p = averageBack v idx p := by
  have hdrop : (before ++ v).drop (before.length + (idx + 1 - p)) = v.drop (idx + 1 - p) := by simp [List.drop_append]
  rw [averageBack_eq (by rw [List.length_append]; omega) (by omega), averageBack_eq hidx hle,
    show before.length + idx + 1 - p = before.length + (idx + 1 - p) by omega, hdrop]

/-- The first average, of all the values there are. -/
theorem averageBack_all (v : List α) (x : α) :
    averageBack (v ++ [x]) v.length (v.length + 1) =
      some (Simd.reduceSum (v ++ [x]).reverse / Arith.ofCount (v.length + 1)) := by
  rw [averageBack_eq (by simp) (le_refl _), Nat.sub_self, List.drop_zero, List.take_of_length_le (by simp)]

variable [Floating α] [LawfulNan α]

theorem reduceSum_nan {xs : List α} (h : nan ∈ xs) : Simd.reduceSum xs = nan := by
  have hstay : ∀ ys : List α, ys.foldl (· + ·) nan = nan := by
    intro ys
    induction ys with
    | nil => rfl
    | cons y ys ih => rw [List.foldl_cons, nan_add, ih]
  obtain ⟨ys, zs, rfl⟩ := List.append_of_mem h
  rw [Simd.reduceSum, List.foldl_append, List.foldl_cons, add_nan, hstay]

/-- NaN as the newest value. -/
theorem averageBack_nan (hp : 0 < p) (hle : p ≤ v.length + 1) : averageBack (v ++ [nan]) v.length p = some nan := by
  have hmem : nan ∈ (((v ++ [nan]).drop (v.length + 1 - p)).take p).reverse := by
    rw [List.mem_reverse, List.take_of_length_le (by simp; omega), List.drop_append_of_le_length (by omega)]
    exact List.mem_append_right _ List.mem_cons_self
  rw [averageBack_eq (by simp) (by omega), reduceSum_nan hmem, nan_div]

theorem advanceEma_nan {current prev multiplier : α} (h : current = nan ∨ prev = nan) :
    MACD.advanceEma current prev multiplier = nan := by
  rcases h with rfl | rfl
  · rw [MACD.advanceEma, nan_sub, nan_mul, nan_add]
  · rw [MACD.advanceEma, add_nan]

end

/-! ### One average -/

section
variable {α : Type} [Arith α] {p : Nat} {values : List α} {x prev prev' : α} {initialized initialized' : Bool} {source : Line α}

/-- An average after the values: it begins with the `p`-th of them. -/
structure Ran (p n : Nat) (initialized : Bool) (prev : α) : Prop where
  pos : 0 < p
  begun : initialized = decide (p ≤ n)
  zero : n < p → prev = 0

theorem ran_init (hp : 0 < p) : Ran p 0 false (0 : α) := ⟨hp, (decide_eq_false hp.not_ge).symm, fun _ => rfl⟩

/-- With one value more. -/
structure Runs (p : Nat) (values : List α) (x : α) (source : Line α) (initialized : Bool) (prev : α) (initialized' : Bool)
    (prev' : α) : Prop where
  ran : Ran p (values.length + 1) initialized' prev'
  early : values.length + 1 < p → initialized' = initialized ∧ prev' = prev
  late : p ≤ values.length + 1 → initialized' = true ∧ MACD.average source p initialized prev = some prev'
  seed : values.length + 1 = p → prev' = Simd.reduceSum (values ++ [x]).reverse / Arith.ofCount p

theorem Ran.runs (h : Ran p values.length initialized prev) (hs : Sourced (values ++ [x]) source) :
    ∃ initialized' prev', Runs p values x source initialized prev initialized' prev' := by
  have hp := h.pos
  have hidx : source.idx = values.length := hs.idx
  rcases Nat.lt_trichotomy (values.length + 1) p with hlt | rfl | hgt
  · refine ⟨initialized, prev, ⟨hp, ?_, fun _ => h.zero (by omega)⟩, fun _ => ⟨rfl, rfl⟩, fun hle => absurd hle (by omega),
      fun heq => absurd heq (by omega)⟩
    rw [h.begun, decide_eq_false (by omega), decide_eq_false (by omega)]
  · refine ⟨true, _, ⟨hp, by simp, fun hlt => absurd hlt (by omega)⟩, fun hlt => absurd hlt (by omega), fun _ => ⟨rfl, ?_⟩,
      fun _ => rfl⟩
    rw [MACD.average, h.begun, decide_eq_false (by omega), if_pos (by rfl), hidx, hs.data, averageBack_all]
  · refine ⟨true, MACD.advanceEma x prev (MACD.multiplier p), ⟨hp, ?_, fun hlt => absurd hlt (by omega)⟩,
      fun hlt => absurd hlt (by omega), fun _ => ⟨rfl, ?_⟩, fun heq => absurd heq (by omega)⟩
    · rw [decide_eq_true (by omega)]
    · rw [MACD.average, h.begun, decide_eq_true (by omega), if_neg (by simp), hidx, hs.current]
      rfl

variable [Floating α]

/-- `EMA` runs so. -/
theorem Runs.ema (h : Runs p values x source initialized prev initialized' prev') (hs : Sourced (values ++ [x]) source)
    (line : List α) :
    EMA.next source { period := p, line, prevEma := prev, initialized } =
      some { period := p, line := line ++ [if values.length + 1 < p then nan else prev'], prevEma := prev',
             initialized := initialized' } := by
  unfold EMA.next
  rw [hs.idx]
  dsimp only
  split_ifs with hlt
  · obtain ⟨rfl, rfl⟩ := h.early hlt
    rfl
  · obtain ⟨rfl, haverage⟩ := h.late (by omega)
    rw [haverage]
    rfl

/-- NaN stays. -/
theorem Runs.stays_nan [LawfulNan α] (h : Runs p values x source initialized prev initialized' prev')
    (hran : Ran p values.length initialized prev) (hs : Sourced (values ++ [x]) source) (hle : p ≤ values.length)
    (hnan : prev = nan) : prev' = nan := by
  obtain ⟨-, haverage⟩ := h.late (by omega)
  rw [MACD.average, hran.begun, decide_eq_true hle, if_neg (by simp), hs.idx, hs.current] at haverage
  exact (Option.some.inj haverage).symm.trans (advanceEma_nan (.inr hnan))

end

/-! ### Both over one source -/

section
variable {α : Type} [Arith α] {fast slow signal : Nat} {values : List α} {x v₁ v₂ : α} {i₁ i₂ : Bool} {m m' : MACD α}
  {e e' : MACDExt α} {source : Line α}

/-- The sum of the first `slow` values, as the slow average takes it: NaN if there is one among them. -/
def firstSum (slow : Nat) (values : List α) : α := Simd.reduceSum (values.take slow).reverse

theorem firstSum_concat (h : slow ≤ values.length) (x : α) : firstSum slow (values ++ [x]) = firstSum slow values := by
  rw [firstSum, List.take_append_of_le_length h, firstSum]

/-- Both have the same averages of the source. -/
structure Linked (fast slow signal : Nat) (values : List α) (m : MACD α) (e : MACDExt α) : Prop where
  fastPeriod : m.fastPeriod = fast
  slowPeriod : m.slowPeriod = slow
  signalPeriod : m.signalPeriod = signal
  extPeriod : e.signalPeriod = signal
  extType : e.signalMaType = .EMA
  fastRan : Ran fast values.length m.fastInitialized m.fastPrevEma
  slowRan : Ran slow values.length m.slowInitialized m.slowPrevEma
  fastInd : ∃ line, e.fast = .ema { period := fast, line, prevEma := m.fastPrevEma, initialized := m.fastInitialized }
  slowInd : ∃ line, e.slow = .ema { period := slow, line, prevEma := m.slowPrevEma, initialized := m.slowInitialized }
  length : m.line.length = values.length
  count : m.macdValidCount = values.length + 1 - slow

/-- The outputs are the same. -/
structure Same (m : MACD α) (e : MACDExt α) : Prop where
  line : m.line = e.line
  signal : m.signal = e.signal
  histogram : m.histogram = e.histogram

theorem init_linked (hfast : 0 < fast) (hslow : 0 < slow) :
    Linked fast slow signal ([] : List α) (.init fast slow signal) (.init fast .EMA slow .EMA signal .EMA) := by
  refine ⟨rfl, rfl, rfl, rfl, rfl, ran_init hfast, ran_init hslow, ⟨[], ?_⟩, ⟨[], ?_⟩, rfl, ?_⟩
  · show Ma.ema (EMA.init fast) = _
    rw [EMA.init, if_neg hfast.ne']
    rfl
  · show Ma.ema (EMA.init slow) = _
    rw [EMA.init, if_neg hslow.ne']
    rfl
  · show 0 = 0 + 1 - slow
    omega

/-- The averages stay linked, whatever becomes of the signal. -/
theorem Linked.next (h : Linked fast slow signal values m e)
    (hf : Runs fast values x source m.fastInitialized m.fastPrevEma m'.fastInitialized m'.fastPrevEma)
    (hw : Runs slow values x source m.slowInitialized m.slowPrevEma m'.slowInitialized m'.slowPrevEma)
    (hfast : m'.fastPeriod = m.fastPeriod) (hslow : m'.slowPeriod = m.slowPeriod) (hsignal : m'.signalPeriod = m.signalPeriod)
    (hext : e'.signalPeriod = e.signalPeriod) (htype : e'.signalMaType = e.signalMaType)
    (hfastInd : ∃ line, e'.fast = .ema { period := fast, line, prevEma := m'.fastPrevEma, initialized := m'.fastInitialized })
    (hslowInd : ∃ line, e'.slow = .ema { period := slow, line, prevEma := m'.slowPrevEma, initialized := m'.slowInitialized })
    (hlength : m'.line.length = m.line.length + 1) (hcount : m'.macdValidCount = values.length + 2 - slow) :
    Linked fast slow signal (values ++ [x]) m' e' := by
  have hlen : (values ++ [x]).length = values.length + 1 := by simp
  refine ⟨hfast.trans h.fastPeriod, hslow.trans h.slowPeriod, hsignal.trans h.signalPeriod, hext.trans h.extPeriod,
    htype.trans h.extType, hlen ▸ hf.ran, hlen ▸ hw.ran, hfastInd, hslowInd, ?_, ?_⟩
  · rw [hlength, h.length, hlen]
  · rw [hcount, hlen]

variable [Floating α]

theorem Linked.nextFast (h : Linked fast slow signal values m e) (hs : Sourced (values ++ [x]) source)
    (hf : Runs fast values x source m.fastInitialized m.fastPrevEma i₁ v₁) :
    ∃ fastEma, m.nextFast source = some { m with fastEma, fastPrevEma := v₁, fastInitialized := i₁ } := by
  unfold MACD.nextFast
  rw [hs.idx, h.fastPeriod]
  split_ifs with hlt
  · obtain ⟨rfl, rfl⟩ := hf.early hlt
    exact ⟨_, rfl⟩
  · obtain ⟨rfl, haverage⟩ := hf.late (by omega)
    rw [haverage]
    exact ⟨_, rfl⟩

/-- Before the slow average begins. -/
theorem Linked.next_early (h : Linked fast slow signal values m e) (hs : Sourced (values ++ [x]) source)
    (hf : Runs fast values x source m.fastInitialized m.fastPrevEma i₁ v₁) (hlt : values.length + 1 < slow) :
    ∃ fastEma, m.next source = some { m with
      fastEma, fastPrevEma := v₁, fastInitialized := i₁, slowEma := m.slowEma ++ [nan], line := m.line ++ [nan],
      signal := m.signal ++ [nan], histogram := m.histogram ++ [nan] } := by
  obtain ⟨fastEma, hfast⟩ := h.nextFast hs hf
  refine ⟨fastEma, ?_⟩
  rw [MACD.next, hfast, Option.bind_eq_bind, Option.bind_some]
  dsimp only
  rw [hs.idx, h.slowPeriod, if_pos hlt]
  rfl

theorem Linked.next_late (h : Linked fast slow signal values m e) (hs : Sourced (values ++ [x]) source)
    (hf : Runs fast values x source m.fastInitialized m.fastPrevEma i₁ v₁)
    (hw : Runs slow values x source m.slowInitialized m.slowPrevEma i₂ v₂) (hle : slow ≤ values.length + 1) :
    ∃ fastEma slowEma, m.next source = MACD.nextLine source { m with
      fastEma, fastPrevEma := v₁, fastInitialized := i₁, slowEma, slowPrevEma := v₂, slowInitialized := i₂ } := by
  obtain ⟨fastEma, hfast⟩ := h.nextFast hs hf
  obtain ⟨rfl, haverage⟩ := hw.late hle
  refine ⟨fastEma, m.slowEma ++ [v₂], ?_⟩
  rw [MACD.next, hfast, Option.bind_eq_bind, Option.bind_some]
  dsimp only
  rw [hs.idx, h.slowPeriod, if_neg (by omega), MACD.nextSlow]
  dsimp only
  rw [haverage]
  rfl

/-- With the averages of `MACDExt` one value on. -/
theorem Linked.nextExt (h : Linked fast slow signal values m e) (hs : Sourced (values ++ [x]) source)
    (hf : Runs fast values x source m.fastInitialized m.fastPrevEma i₁ v₁)
    (hw : Runs slow values x source m.slowInitialized m.slowPrevEma i₂ v₂) :
    ∃ fastLine slowLine, e.next source =
      (let fastVal := if values.length + 1 < fast then nan else v₁
       let slowVal := if values.length + 1 < slow then nan else v₂
       let e := { e with fast := .ema { period := fast, line := fastLine, prevEma := v₁, initialized := i₁ },
                         slow := .ema { period := slow, line := slowLine, prevEma := v₂, initialized := i₂ } }
       if isNaN fastVal || isNaN slowVal then
         some { e with line := e.line ++ [nan], signal := e.signal ++ [nan], histogram := e.histogram ++ [nan] }
       else { e with line := e.line ++ [fastVal - slowVal],
                     macdLine := e.macdLine.forward (fastVal - slowVal) }.nextSignal (fastVal - slowVal)) := by
  obtain ⟨fastLine, hfast⟩ := h.fastInd
  obtain ⟨slowLine, hslow⟩ := h.slowInd
  refine ⟨fastLine ++ [if values.length + 1 < fast then nan else v₁],
    slowLine ++ [if values.length + 1 < slow then nan else v₂], ?_⟩
  unfold MACDExt.next
  rw [hfast, hslow, Ma.next, Ma.next, hf.ema hs fastLine, hw.ema hs slowLine]
  simp only [Option.map_some, Option.bind_eq_bind, Option.bind_some, Ma.line, List.getLast?_concat]
  rfl

variable [LawfulNan α]

theorem Linked.nextExt_nan (h : Linked fast slow signal values m e) (hs : Sourced (values ++ [x]) source)
    (hf : Runs fast values x source m.fastInitialized m.fastPrevEma i₁ v₁)
    (hw : Runs slow values x source m.slowInitialized m.slowPrevEma i₂ v₂)
    (hnan : values.length + 1 < fast ∨ v₁ = nan ∨ values.length + 1 < slow ∨ v₂ = nan) :
    ∃ fastLine slowLine, e.next source = some { e with
      fast := .ema { period := fast, line := fastLine, prevEma := v₁, initialized := i₁ }
      slow := .ema { period := slow, line := slowLine, prevEma := v₂, initialized := i₂ }
      line := e.line ++ [nan], signal := e.signal ++ [nan], histogram := e.histogram ++ [nan] } := by
  obtain ⟨fastLine, slowLine, hnext⟩ := h.nextExt hs hf hw
  refine ⟨fastLine, slowLine, hnext.trans ?_⟩
  dsimp only
  rw [if_pos]
  rw [Bool.or_eq_true, isNaN_iff, isNaN_iff]
  rcases hnan with hlt | rfl | hlt | rfl
  · exact .inl (if_pos hlt)
  · exact .inl (ite_self _)
  · exact .inr (if_pos hlt)
  · exact .inr (ite_self _)

theorem Linked.nextExt_num (h : Linked fast slow signal values m e) (hs : Sourced (values ++ [x]) source)
    (hf : Runs fast values x source m.fastInitialized m.fastPrevEma i₁ v₁)
    (hw : Runs slow values x source m.slowInitialized m.slowPrevEma i₂ v₂) (hfast : fast ≤ values.length + 1)
    (hslow : slow ≤ values.length + 1) (h₁ : v₁ ≠ nan) (h₂ : v₂ ≠ nan) :
    ∃ fastLine slowLine, e.next source = MACDExt.nextSignal (v₁ - v₂) { e with
      fast := .ema { period := fast, line := fastLine, prevEma := v₁, initialized := i₁ }
      slow := .ema { period := slow, line := slowLine, prevEma := v₂, initialized := i₂ }
      line := e.line ++ [v₁ - v₂], macdLine := e.macdLine.forward (v₁ - v₂) } := by
  obtain ⟨fastLine, slowLine, hnext⟩ := h.nextExt hs hf hw
  refine ⟨fastLine, slowLine, hnext.trans ?_⟩
  dsimp only
  rw [if_neg (show ¬ values.length + 1 < fast by omega), if_neg (show ¬ values.length + 1 < slow by omega), if_neg]
  rw [Bool.or_eq_true, isNaN_iff, isNaN_iff]
  exact fun hnan => hnan.elim h₁ h₂

end

/-! ### The signal -/

section
variable {α : Type} [Arith α] {signal : Nat} {done before : List α} {prev prev' v : α} {initialized initialized' : Bool}
  {m : MACD α} {e : MACDExt α} {source : Line α}

/-- The signal of `MACDExt` after the values of its line: it is made with the first of them. -/
structure Signals (signal : Nat) (done : List α) (e : MACDExt α) (initialized : Bool) (prev : α) : Prop where
  source : Sourced done e.macdLine
  ran : Ran signal done.length initialized prev
  ind : (done = [] ∧ e.signalInd = none) ∨ ∃ line, e.signalInd = some (.ema { period := signal, line, prevEma := prev, initialized })

variable [Floating α]

theorem Signals.advance {e₁ : MACDExt α} (h : Signals signal done e initialized prev) (hext : e₁.signalPeriod = signal)
    (htype : e₁.signalMaType = .EMA) (hind : e₁.signalInd = e.signalInd) (hline : e₁.macdLine = e.macdLine.forward v)
    (hr : Runs signal done v (e.macdLine.forward v) initialized prev initialized' prev') :
    ∃ line, e₁.advanceSignal = some (e.macdLine.forward v, .ema {
      period := signal, prevEma := prev', initialized := initialized'
      line := line ++ [if done.length + 1 < signal then nan else prev'] }) := by
  have hs := h.source.forward v
  unfold MACDExt.advanceSignal
  rw [hind, hline, hext, htype]
  rcases h.ind with ⟨rfl, hnone⟩ | ⟨line, hsome⟩
  · -- nothing is replayed before the first value
    have hran := h.ran
    have hsize : (e.macdLine.forward v).size - 1 = 0 := by rw [Line.size, hs.data]; rfl
    have hhome : (e.macdLine.forward v).home = e.macdLine.forward v := by
      rw [Line.home]
      congr 1
      rw [h.source.data]
      rfl
    have hmake : (Ma.make signal .EMA : Ma α) = .ema { period := signal, line := [], prevEma := prev, initialized } := by
      rw [hran.zero hran.pos, hran.begun, decide_eq_false (show ¬ signal ≤ ([] : List α).length from hran.pos.not_ge)]
      show Ma.ema (EMA.init signal) = _
      rw [EMA.init, if_neg hran.pos.ne']
    refine ⟨[], ?_⟩
    rw [hnone]
    dsimp only
    rw [MACDExt.replay, hsize, hmake, hhome]
    simp only [List.range_zero, List.foldlM_nil, Option.pure_def, Option.bind_eq_bind, Option.bind_some, Ma.next,
      hr.ema hs [], Option.map_some]
  · refine ⟨line, ?_⟩
    rw [hsome]
    dsimp only
    rw [Ma.next, hr.ema hs line, Option.map_some, Option.map_some]

/-- The signal of `MACD`, with the line as it has been. -/
theorem nextLine_runs {l : Line α} (hsource : Sourced done l) (hr : Runs signal done v (l.forward v) m.signalInitialized m.signalPrevEma
      initialized' prev') (hran : Ran signal done.length m.signalInitialized m.signalPrevEma) (hv : m.fastPrevEma - m.slowPrevEma = v)
    (hline : m.line = before ++ done) (hidx : source.idx = m.line.length) (hcount : m.macdValidCount = done.length)
    (hperiod : m.signalPeriod = signal) :
    m.nextLine source = some { m with
      line := m.line ++ [v], macdValidCount := done.length + 1
      signal := m.signal ++ [if done.length + 1 < signal then nan else prev']
      histogram := m.histogram ++ [if done.length + 1 < signal then nan else v - prev']
      signalPrevEma := prev', signalInitialized := initialized' } := by
  have hs := hsource.forward v
  obtain rfl := hperiod
  unfold MACD.nextLine
  dsimp only
  rw [hv, hcount]
  split_ifs with hfew
  · obtain ⟨rfl, rfl⟩ := hr.early hfew
    rfl
  · obtain ⟨rfl, haverage⟩ := hr.late (by omega)
    have hsignal : MACD.signalAverage source v { m with line := m.line ++ [v], macdValidCount := done.length + 1 } = some prev' := by
      rw [← haverage, MACD.signalAverage, MACD.average]
      dsimp only
      rw [hran.begun, hs.idx, hs.current, hidx, hline, hs.data, List.append_assoc, List.length_append,
        averageBack_append before (by simp) (by omega)]
      rfl
    rw [MACD.nextSignal, hsignal]
    rfl

variable [LawfulNan α]

theorem Signals.next (h : Signals signal done e initialized prev) (e₁ : MACDExt α) (hext : e₁.signalPeriod = signal)
    (htype : e₁.signalMaType = .EMA) (hind : e₁.signalInd = e.signalInd) (hline : e₁.macdLine = e.macdLine.forward v)
    (hr : Runs signal done v (e.macdLine.forward v) initialized prev initialized' prev') :
    ∃ e', e₁.nextSignal v = some e' ∧ Signals signal (done ++ [v]) e' initialized' prev' ∧ e'.fast = e₁.fast ∧ e'.slow = e₁.slow ∧
      e'.signalPeriod = e₁.signalPeriod ∧ e'.signalMaType = e₁.signalMaType ∧ e'.line = e₁.line ∧
      e'.signal = e₁.signal ++ [if done.length + 1 < signal then nan else prev'] ∧
      e'.histogram = e₁.histogram ++ [if done.length + 1 < signal then nan else v - prev'] := by
  obtain ⟨line, hadvance⟩ := h.advance hext htype hind hline hr
  have hlen : (done ++ [v]).length = done.length + 1 := by simp
  have hhistogram : (if isNaN (if done.length + 1 < signal then nan else prev') then nan
      else v - if done.length + 1 < signal then nan else prev') = if done.length + 1 < signal then nan else v - prev' := by
    split_ifs with hfew hnan hnan
    · rfl
    · rw [sub_nan]
    · rw [(isNaN_iff prev').1 hnan, sub_nan]
    · rfl
  unfold MACDExt.nextSignal
  rw [hadvance]
  simp only [Option.bind_eq_bind, Option.bind_some, Ma.line, List.getLast?_concat, hhistogram]
  exact ⟨_, rfl, ⟨h.source.forward v, hlen ▸ hr.ran, .inr ⟨_, rfl⟩⟩, rfl, rfl, rfl, rfl, rfl, rfl, rfl⟩

/-- Whatever the line is, NaN in it is NaN in the signal. -/
theorem nextLine_total (hidx : source.idx = m.line.length) (hcount : m.macdValidCount ≤ m.line.length) (hperiod : 0 < m.signalPeriod) :
    ∃ s c prev' initialized', m.nextLine source = some { m with
      line := m.line ++ [m.fastPrevEma - m.slowPrevEma], macdValidCount := m.macdValidCount + 1, signal := m.signal ++ [s]
      histogram := m.histogram ++ [c], signalPrevEma := prev', signalInitialized := initialized' } ∧
      (m.fastPrevEma - m.slowPrevEma = nan → s = nan ∧ c = nan) := by
  unfold MACD.nextLine
  dsimp only
  generalize hv : m.fastPrevEma - m.slowPrevEma = v
  split_ifs with hfew
  · exact ⟨nan, nan, m.signalPrevEma, m.signalInitialized, rfl, fun _ => ⟨rfl, rfl⟩⟩
  · have hsignal : ∃ y, MACD.signalAverage source v { m with line := m.line ++ [v], macdValidCount := m.macdValidCount + 1 } = some y ∧
        (v = nan → y = nan) := by
      unfold MACD.signalAverage
      dsimp only
      split_ifs with hseeded
      · rw [hidx]
        refine ⟨_, averageBack_eq (by simp) (by omega), ?_⟩
        rintro rfl
        have hnan := averageBack_nan (v := m.line) hperiod (by omega)
        rw [averageBack_eq (by simp) (by omega)] at hnan
        exact Option.some.inj hnan
      · exact ⟨_, rfl, fun h => advanceEma_nan (.inl h)⟩
    obtain ⟨y, hy, hnan⟩ := hsignal
    rw [MACD.nextSignal, hy]
    refine ⟨y, v - y, y, true, rfl, fun h => ⟨hnan h, ?_⟩⟩
    rw [hnan h, sub_nan]

end

/-! ### What becomes of the outputs -/

section
variable {α : Type} [Arith α] [Floating α] {fast slow signal : Nat} {values : List α} {x v₁ v₂ : α} {i₁ i₂ : Bool} {m : MACD α}
  {e : MACDExt α} {source : Line α}

/-- As long as the slow average has not begun, or begins with or after the fast one, the two go together. Once one of the
averages is NaN both only put out NaN. With the slow average the first to begin they differ on that bar, unless it is
NaN. -/
inductive Phase (fast slow signal : Nat) (values : List α) (m : MACD α) (e : MACDExt α) : Prop
  | together (before done : List α) (begins : values.length < slow ∨ fast ≤ slow) (same : Same m e)
      (line : m.line = before ++ done) (length : done.length = values.length + 1 - slow)
      (signals : Signals signal done e m.signalInitialized m.signalPrevEma)
  | poisoned (begun : slow ≤ values.length) (begins : fast ≤ slow ∨ firstSum slow values = nan) (same : Same m e)
      (nans : fast ≤ values.length ∧ m.fastPrevEma = nan ∨ m.slowPrevEma = nan)
  | apart (done : List α) (initialized : Bool) (prev first : α) (begun : slow ≤ values.length) (begins : slow < fast)
      (sum : firstSum slow values ≠ nan) (signals : Signals signal done e initialized prev) (first_ne : first ≠ nan)
      (line : m.line[slow - 1]? = some first) (line' : e.line[slow - 1]? = some nan)

theorem init_phase (hslow : 0 < slow) (hsignal : 0 < signal) :
    Phase fast slow signal ([] : List α) (.init fast slow signal) (.init fast .EMA slow .EMA signal .EMA) := by
  refine .together [] [] (.inl hslow) ⟨rfl, rfl, rfl⟩ rfl ?_ ⟨⟨rfl, rfl⟩, ran_init hsignal, .inl ⟨rfl, rfl⟩⟩
  show 0 = 0 + 1 - slow
  omega

/-- The phase tells whether the outputs are the same. -/
theorem Phase.same_iff (h : Phase fast slow signal values m e) :
    m.line = e.line ∧ m.signal = e.signal ∧ m.histogram = e.histogram ↔
      fast ≤ slow ∨ values.length < slow ∨ firstSum slow values = nan := by
  cases h with
  | together before done begins same => exact iff_of_true ⟨same.line, same.signal, same.histogram⟩ (by tauto)
  | poisoned begun begins same => exact iff_of_true ⟨same.line, same.signal, same.histogram⟩ (by tauto)
  | apart done initialized prev first begun begins sum signals first_ne line line' =>
    refine iff_of_false ?_ ?_
    · rintro ⟨hline, -, -⟩
      rw [hline, line'] at line
      exact first_ne (Option.some.inj line).symm
    · rintro (hle | hlt | hsum)
      · omega
      · omega
      · exact sum hsum

variable [LawfulNan α]

/-- The slow average has not begun. -/
theorem Phase.early (h : Phase fast slow signal values m e) (hlinked : Linked fast slow signal values m e)
    (hs : Sourced (values ++ [x]) source) (hlt : values.length + 1 < slow)
    (hf : Runs fast values x source m.fastInitialized m.fastPrevEma i₁ v₁)
    (hw : Runs slow values x source m.slowInitialized m.slowPrevEma i₂ v₂) :
    ∃ m' e', m.next source = some m' ∧ e.next source = some e' ∧ Linked fast slow signal (values ++ [x]) m' e' ∧
      Phase fast slow signal (values ++ [x]) m' e' := by
  have hlen : (values ++ [x]).length = values.length + 1 := by simp
  obtain ⟨fastEma, hm⟩ := hlinked.next_early hs hf hlt
  obtain ⟨fastLine, slowLine, he⟩ := hlinked.nextExt_nan hs hf hw (.inr (.inr (.inl hlt)))
  obtain ⟨rfl, rfl⟩ := hw.early hlt
  refine ⟨_, _, hm, he, hlinked.next hf hw rfl rfl rfl rfl rfl ⟨_, rfl⟩ ⟨_, rfl⟩ (by simp) ?_, ?_⟩
  · show m.macdValidCount = _
    rw [hlinked.count]
    omega
  · cases h with
    | together before done begins same line length signals =>
      obtain rfl : done = [] := List.length_eq_zero_iff.1 (by omega)
      refine .together (before ++ [nan]) [] (.inl (by omega)) ⟨?_, ?_, ?_⟩ ?_ ?_ ⟨signals.source, signals.ran, signals.ind⟩
      · rw [same.line]
      · rw [same.signal]
      · rw [same.histogram]
      · rw [line, List.append_nil, List.append_nil]
      · rw [hlen, List.length_nil]
        omega
    | poisoned begun => omega
    | apart done initialized prev first begun => omega

/-- One of the averages is NaN, or the fast one has not begun. -/
theorem Phase.nans (hsignal : 0 < signal) (h : Phase fast slow signal values m e) (hlinked : Linked fast slow signal values m e)
    (hs : Sourced (values ++ [x]) source) (hle : slow ≤ values.length + 1)
    (hf : Runs fast values x source m.fastInitialized m.fastPrevEma i₁ v₁)
    (hw : Runs slow values x source m.slowInitialized m.slowPrevEma i₂ v₂)
    (hnan : values.length + 1 < fast ∨ v₁ = nan ∨ v₂ = nan) :
    ∃ m' e', m.next source = some m' ∧ e.next source = some e' ∧ Linked fast slow signal (values ++ [x]) m' e' ∧
      Phase fast slow signal (values ++ [x]) m' e' := by
  have hlen : (values ++ [x]).length = values.length + 1 := by simp
  have hpos := hlinked.slowRan.pos
  obtain ⟨fastEma, slowEma, hm⟩ := hlinked.next_late hs hf hw hle
  obtain ⟨fastLine, slowLine, he⟩ := hlinked.nextExt_nan hs hf hw (by tauto)
  obtain ⟨s, c, prev', initialized', hline, hnans⟩ := nextLine_total (m := { m with
      fastEma, fastPrevEma := v₁, fastInitialized := i₁, slowEma, slowPrevEma := v₂, slowInitialized := i₂ })
    (hs.idx.trans hlinked.length.symm) (by dsimp only; rw [hlinked.count, hlinked.length]; omega)
    (by dsimp only; rw [hlinked.signalPeriod]; exact hsignal)
  refine ⟨_, _, hm.trans hline, he, hlinked.next hf hw rfl rfl rfl rfl rfl ⟨_, rfl⟩ ⟨_, rfl⟩ (by simp) ?_, ?_⟩
  · dsimp only
    rw [hlinked.count]
    omega
  -- both put out NaN
  have hboth : v₁ - v₂ = nan → Same m e → Same (α := α)
      { m with fastEma, fastPrevEma := v₁, fastInitialized := i₁, slowEma, slowPrevEma := v₂, slowInitialized := i₂
               line := m.line ++ [v₁ - v₂], macdValidCount := m.macdValidCount + 1, signal := m.signal ++ [s]
               histogram := m.histogram ++ [c], signalPrevEma := prev', signalInitialized := initialized' }
      { e with fast := .ema { period := fast, line := fastLine, prevEma := v₁, initialized := i₁ }
               slow := .ema { period := slow, line := slowLine, prevEma := v₂, initialized := i₂ }
               line := e.line ++ [nan], signal := e.signal ++ [nan], histogram := e.histogram ++ [nan] } := by
    intro hv same
    obtain ⟨rfl, rfl⟩ := hnans hv
    refine ⟨?_, ?_, ?_⟩
    · rw [hv, same.line]
    · rw [same.signal]
    · rw [same.histogram]
  cases h with
  | together before done begins same line length signals =>
    have hseed : values.length + 1 = slow → v₂ = firstSum slow (values ++ [x]) / Arith.ofCount slow := by
      intro heq
      rw [hw.seed heq, firstSum, List.take_of_length_le (by omega)]
    by_cases hlate : fast ≤ values.length + 1 ∧ v₁ = nan ∨ v₂ = nan
    · have hv : v₁ - v₂ = nan := by
        rcases hlate with ⟨-, rfl⟩ | rfl
        · rw [nan_sub]
        · rw [sub_nan]
      refine .poisoned (by omega) ?_ (hboth hv same) (hlate.imp_left fun h => ⟨by omega, h.2⟩)
      rcases Nat.lt_or_ge slow fast with hlt | hge
      · have hnan₂ : v₂ = nan := hlate.resolve_left (by omega)
        refine .inr (eq_nan_of_div_ofCount _ slow hpos ?_)
        rw [← hseed (by omega), hnan₂]
      · exact .inl hge
    · -- only the slow average has begun, on this bar
      have hnan₂ : v₂ ≠ nan := fun h => hlate (.inr h)
      have hfew : values.length + 1 < fast := by
        rcases hnan with h | h | h
        · exact h
        · by_contra hge
          exact hlate (.inl ⟨by omega, h⟩)
        · exact absurd h hnan₂
      have heq : m.line.length = slow - 1 := by
        rw [hlinked.length]
        omega
      have heq' : e.line.length = slow - 1 := by rw [← same.line, heq]
      refine .apart done m.signalInitialized m.signalPrevEma (v₁ - v₂) (by omega) (by omega) ?_
        ⟨signals.source, signals.ran, signals.ind⟩ ?_ ?_ ?_
      · intro hsum
        refine hnan₂ ?_
        rw [hseed (by omega), hsum, nan_div]
      · rw [hf.ran.zero hfew]
        exact fun h => hnan₂ (eq_nan_of_zero_sub _ h)
      · rw [← heq, List.getElem?_concat_length]
      · rw [← heq', List.getElem?_concat_length]
  | poisoned begun begins same nans =>
    have hfst : fast ≤ values.length → m.fastPrevEma = nan → v₁ = nan := hf.stays_nan hlinked.fastRan hs
    have hsnd : m.slowPrevEma = nan → v₂ = nan := hw.stays_nan hlinked.slowRan hs begun
    have hv : v₁ - v₂ = nan := by
      rcases nans with ⟨hfast, hnan⟩ | hnan
      · rw [hfst hfast hnan, nan_sub]
      · rw [hsnd hnan, sub_nan]
    refine .poisoned (by omega) (begins.imp_right (firstSum_concat begun x).trans) (hboth hv same) ?_
    exact nans.imp (fun h => ⟨by omega, hfst h.1 h.2⟩) hsnd
  | apart done initialized prev first begun begins sum signals first_ne line line' =>
    refine .apart done initialized prev first (by omega) begins ?_ ⟨signals.source, signals.ran, signals.ind⟩ first_ne ?_ ?_
    · rwa [firstSum_concat begun]
    · exact List.getElem?_append_left (List.getElem?_eq_some_iff.1 line).1 |>.trans line
    · exact List.getElem?_append_left (List.getElem?_eq_some_iff.1 line').1 |>.trans line'

/-- Both averages are there. -/
theorem Phase.nums (hsignal : 0 < signal) (h : Phase fast slow signal values m e) (hlinked : Linked fast slow signal values m e)
    (hs : Sourced (values ++ [x]) source) (hle : slow ≤ values.length + 1) (hfast : fast ≤ values.length + 1)
    (hf : Runs fast values x source m.fastInitialized m.fastPrevEma i₁ v₁)
    (hw : Runs slow values x source m.slowInitialized m.slowPrevEma i₂ v₂) (h₁ : v₁ ≠ nan) (h₂ : v₂ ≠ nan) :
    ∃ m' e', m.next source = some m' ∧ e.next source = some e' ∧ Linked fast slow signal (values ++ [x]) m' e' ∧
      Phase fast slow signal (values ++ [x]) m' e' := by
  have hlen : (values ++ [x]).length = values.length + 1 := by simp
  have hpos := hlinked.slowRan.pos
  obtain ⟨fastEma, slowEma, hm⟩ := hlinked.next_late hs hf hw hle
  obtain ⟨fastLine, slowLine, he⟩ := hlinked.nextExt_num hs hf hw hfast hle h₁ h₂
  cases h with
  | together before done begins same line length signals =>
    obtain ⟨i₃, v₃, hr⟩ := signals.ran.runs (signals.source.forward (v₁ - v₂))
    obtain ⟨e', hnext, hsignals, hfastInd, hslowInd, hperiod, htype, hline', hsignal', hhist'⟩ :=
      signals.next { e with
        fast := .ema { period := fast, line := fastLine, prevEma := v₁, initialized := i₁ }
        slow := .ema { period := slow, line := slowLine, prevEma := v₂, initialized := i₂ }
        line := e.line ++ [v₁ - v₂], macdLine := e.macdLine.forward (v₁ - v₂) } hlinked.extPeriod hlinked.extType rfl rfl hr
    have hline := nextLine_runs (m := { m with
      fastEma, fastPrevEma := v₁, fastInitialized := i₁, slowEma, slowPrevEma := v₂, slowInitialized := i₂ })
      signals.source hr signals.ran rfl line (hs.idx.trans hlinked.length.symm) (hlinked.count.trans length.symm) hlinked.signalPeriod
    refine ⟨_, e', hm.trans hline, he.trans hnext, hlinked.next hf hw rfl rfl rfl hperiod htype ⟨_, hfastInd⟩ ⟨_, hslowInd⟩ (by simp)
      (by dsimp only; omega), .together before (done ++ [v₁ - v₂]) (.inr (by omega)) ⟨?_, ?_, ?_⟩ ?_ ?_ hsignals⟩
    · rw [hline', same.line]
    · rw [hsignal', same.signal]
    · rw [hhist', same.histogram]
    · rw [line, List.append_assoc]
    · rw [List.length_append, List.length_singleton, hlen]
      omega
  | poisoned begun begins same nans =>
    rcases nans with ⟨hbegun, hnan⟩ | hnan
    · exact absurd (hf.stays_nan hlinked.fastRan hs hbegun hnan) h₁
    · exact absurd (hw.stays_nan hlinked.slowRan hs begun hnan) h₂
  | apart done initialized prev first begun begins sum signals first_ne line line' =>
    obtain ⟨s, c, prev', initialized', hline, -⟩ := nextLine_total (m := { m with
        fastEma, fastPrevEma := v₁, fastInitialized := i₁, slowEma, slowPrevEma := v₂, slowInitialized := i₂ })
      (hs.idx.trans hlinked.length.symm) (by dsimp only; rw [hlinked.count, hlinked.length]; omega)
      (by dsimp only; rw [hlinked.signalPeriod]; exact hsignal)
    obtain ⟨i₃, v₃, hr⟩ := signals.ran.runs (signals.source.forward (v₁ - v₂))
    obtain ⟨e', hnext, hsignals, hfastInd, hslowInd, hperiod, htype, hline', -, -⟩ :=
      signals.next { e with
        fast := .ema { period := fast, line := fastLine, prevEma := v₁, initialized := i₁ }
        slow := .ema { period := slow, line := slowLine, prevEma := v₂, initialized := i₂ }
        line := e.line ++ [v₁ - v₂], macdLine := e.macdLine.forward (v₁ - v₂) } hlinked.extPeriod hlinked.extType rfl rfl hr
    refine ⟨_, e', hm.trans hline, he.trans hnext, hlinked.next hf hw rfl rfl rfl hperiod htype ⟨_, hfastInd⟩ ⟨_, hslowInd⟩ (by simp)
      (by dsimp only; rw [hlinked.count]; omega),
      .apart (done ++ [v₁ - v₂]) i₃ v₃ first (by omega) begins ?_ hsignals first_ne ?_ ?_⟩
    · rwa [firstSum_concat begun]
    · exact List.getElem?_append_left (List.getElem?_eq_some_iff.1 line).1 |>.trans line
    · rw [hline']
      exact List.getElem?_append_left (List.getElem?_eq_some_iff.1 line').1 |>.trans line'

theorem Phase.next (hsignal : 0 < signal) (h : Phase fast slow signal values m e) (hlinked : Linked fast slow signal values m e)
    (hs : Sourced (values ++ [x]) source) :
    ∃ m' e', m.next source = some m' ∧ e.next source = some e' ∧ Linked fast slow signal (values ++ [x]) m' e' ∧
      Phase fast slow signal (values ++ [x]) m' e' := by
  obtain ⟨i₁, v₁, hf⟩ := hlinked.fastRan.runs hs
  obtain ⟨i₂, v₂, hw⟩ := hlinked.slowRan.runs hs
  rcases Nat.lt_or_ge (values.length + 1) slow with hlt | hle
  · exact h.early hlinked hs hlt hf hw
  · by_cases hnan : values.length + 1 < fast ∨ v₁ = nan ∨ v₂ = nan
    · exact h.nans hsignal hlinked hs hle hf hw hnan
    · rw [not_or, not_or, not_lt] at hnan
      exact h.nums hsignal hlinked hs hle hnan.1 hf hw hnan.2.1 hnan.2.2

/-- The outputs are the same over a source exactly if the fast period is not the longer one, or the slow average has not
begun on it, or is NaN when it begins. -/
theorem macd_composed (hfast : 0 < fast) (hslow : 0 < slow) (hsignal : 0 < signal) (values : List α) :
    ∃ l m e, overSource MACD.next (.init fast slow signal) values = some (l, m) ∧
      overSource MACDExt.next (.init fast .EMA slow .EMA signal .EMA) values = some (l, e) ∧
      (m.line = e.line ∧ m.signal = e.signal ∧ m.histogram = e.histogram ↔
        fast ≤ slow ∨ values.length < slow ∨ firstSum slow values = nan) := by
  have hrun : ∃ l m e, overSource MACD.next (.init fast slow signal) values = some (l, m) ∧
      overSource MACDExt.next (.init fast .EMA slow .EMA signal .EMA) values = some (l, e) ∧
      Linked fast slow signal values m e ∧ Phase fast slow signal values m e := by
    induction values using List.reverseRecOn with
    | nil => exact ⟨{}, _, _, rfl, rfl, init_linked hfast hslow, init_phase hslow hsignal⟩
    | append_singleton values x ih =>
      obtain ⟨l, m, e, hm, he, hlinked, hphase⟩ := ih
      obtain ⟨m', e', hm', he', hlinked', hphase'⟩ := hphase.next hsignal hlinked ((overSource_sourced hm).forward x)
      exact ⟨_, m', e', overSource_concat hm hm', overSource_concat he he', hlinked', hphase'⟩
  obtain ⟨l, m, e, hm, he, -, hphase⟩ := hrun
  exact ⟨l, m, e, hm, he, hphase.same_iff⟩

end

theorem macd_composed_flat : ∃ l m e, overSource MACD.next (.init 1 2 1) [OrNan.num 1, .num 1] = some (l, m) ∧
    overSource MACDExt.next (.init 1 .EMA 2 .EMA 1 .EMA) [OrNan.num 1, .num 1] = some (l, e) ∧ m.signal = e.signal := by
  obtain ⟨l, m, e, hm, he, hsame⟩ := @macd_composed OrNan _ _ 1 2 1 _ (by norm_num) (by norm_num) (by norm_num)
    [OrNan.num 1, .num 1]
  exact ⟨l, m, e, hm, he, (hsame.2 (.inl (by norm_num))).2.1⟩

/-- The fast period the longer one, on the bar on which only the slow average has begun. -/
theorem macd_apart : (overSource MACD.next (.init 2 1 1) [OrNan.num 1]).map (fun st => st.2.line) = some [.num (-1)] ∧
    (overSource MACDExt.next (.init 2 .EMA 1 .EMA 1 .EMA) [OrNan.num 1]).map (fun st => st.2.line) = some [.nan] := by
  decide +kernel

end Indicators

end StratForge
