import StratForge.Indicators

/-!
# Indicators whose source runs ahead, or stands still

`MACD`, `HeikinAshi` and `ParabolicSAR` index what they have put out themselves with the cursor of the source, and
`Ichimoku` indexes the source with its own count of the calls. Their accesses stay inside exactly while the two keep in
step (`safe_iff`), which the multi-clock scheduler does not promise: between two calls the cursor of a feed moves by any
number of bars.
-/

namespace StratForge
namespace Indicators

/-- What an indicator sees of its feed when `next()` is called: between two calls bars may come in, and the cursor moves
forward by any number of them. -/
structure Calls (α : Type) where
  feeds : List (DataFeed α)
  onBar : ∀ f ∈ feeds, f.lines.data ≠ []
  onward : feeds.Pairwise fun f g => f.lines.data <+: g.lines.data ∧ f.index ≤ g.index

inductive Kind (α : Type)
  | macd (source : Row α → α) (fastPeriod slowPeriod signalPeriod : Nat)
  | heikinAshi
  | parabolicSAR (period : Nat) (af afmax : α)
  | ichimoku (tenkan kijun senkou senkouLead chikou : Nat)

namespace Kind
variable {α : Type} [Arith α] [Floating α]

/-- No access is outside of its vector. -/
def Safe (c : Calls α) : Kind α → Prop
  | macd source fastPeriod slowPeriod signalPeriod =>
    (c.feeds.foldlM (fun m f => MACD.next (f.lines.map source) m) (.init fastPeriod slowPeriod signalPeriod)).isSome
  | heikinAshi =>
    (c.feeds.foldlM (fun h f => HeikinAshi.next f.open f.high f.low f.close h) {}).isSome
  | parabolicSAR period af afmax =>
    (c.feeds.foldlM (fun p f => ParabolicSAR.next f.high f.low f.close p) { period, afStep := af, afMax := afmax }).isSome
  | ichimoku tenkan kijun senkou senkouLead chikou =>
    (c.feeds.foldlM (fun k f => Ichimoku.next f.high f.low f.close k) (.init tenkan kijun senkou senkouLead chikou)).isSome

/-- Whether a call is made in time, after the calls before it. -/
def Timely (done : List (DataFeed α)) (f : DataFeed α) : Kind α → Prop
  -- only the call that seeds the signal looks back on the output line
  | macd _ _ slowPeriod signalPeriod =>
    slowPeriod ≤ f.index + 1 → done.countP (slowPeriod ≤ ·.index + 1) + 1 = signalPeriod →
      signalPeriod ≤ f.index + 1 ∧ f.index ≤ done.length
  | heikinAshi => f.index ≤ done.length
  | parabolicSAR _ _ _ => 2 ≤ f.index → ∃ g ∈ done, g.index = 1
  | ichimoku tenkan kijun senkou senkouLead chikou =>
    0 < senkouLead ∧ 0 < chikou ∧
      (max 1 tenkan ≤ done.length + 1 ∨ max 1 kijun ≤ done.length + 1 ∨ max 1 senkou ≤ done.length + 1 ∨
        chikou ≤ done.length → done.length < f.size)

/-- Every call is. -/
def InStep (c : Calls α) (k : Kind α) : Prop := ∀ done f, done ++ [f] <+: c.feeds → k.Timely done f

end Kind

/-! ### The averages look back as far as they need -/

variable {α : Type} [Arith α]

theorem averageBack_isSome {v : List α} {idx count : Nat} :
    (averageBack v idx count).isSome ↔ (0 < count → count ≤ idx + 1 ∧ idx < v.length) := by
  have hsum : (averageBack v idx count).isSome = ((List.range count).mapM (Access.readBack v idx)).isSome := by
    unfold averageBack sumBack
    cases (List.range count).mapM (Access.readBack v idx) <;> rfl
  rw [hsum]
  rcases Nat.eq_zero_or_pos count with rfl | hpos
  · simp
  · simp only [Access.mapM_readBack_isSome hpos, hpos, forall_const]

/-! ### MACD -/

namespace MACD
variable {source : Line α} {m m' : MACD α} {slowPeriod signalPeriod valid put : Nat}

theorem average_isSome {period : Nat} (initialized : Bool) (prev : α) (hsource : source.idx < source.data.length)
    (hperiod : period ≤ source.idx + 1) : (average source period initialized prev).isSome := by
  unfold average
  cases initialized with
  | false => exact averageBack_isSome.2 fun _ => ⟨hperiod, hsource⟩
  | true => simp [List.getElem?_eq_getElem hsource]

theorem nextSlow_isSome (hsource : source.idx < source.data.length) (hperiod : m.slowPeriod ≤ source.idx + 1) :
    (m.nextSlow source).isSome := by
  obtain ⟨ema, hema⟩ := Option.isSome_iff_exists.1 (average_isSome m.slowInitialized m.slowPrevEma hsource hperiod)
  unfold nextSlow
  rw [hema]
  rfl

theorem nextSlow_eq (h : m.nextSlow source = some m') : ∃ slowEma slowPrevEma slowInitialized,
    m' = { m with slowEma, slowPrevEma, slowInitialized } := by
  obtain ⟨ema, -, h⟩ := Option.bind_eq_some_iff.1 h
  exact ⟨_, _, _, (Option.some.inj h).symm⟩

theorem nextSignal_isSome {macdValue : α} : (m.nextSignal source macdValue).isSome ↔
    (m.signalInitialized = false → 0 < m.signalPeriod → m.signalPeriod ≤ source.idx + 1 ∧ source.idx < m.line.length) := by
  have hema : (m.nextSignal source macdValue).isSome = (m.signalAverage source macdValue).isSome := by
    unfold nextSignal
    cases m.signalAverage source macdValue <;> rfl
  rw [hema]
  unfold signalAverage
  cases m.signalInitialized with
  | false => simp only [forall_const, ← averageBack_isSome, Bool.not_false, if_true]
  | true => simp

theorem nextSignal_eq {macdValue : α} (h : m.nextSignal source macdValue = some m') : ∃ signal histogram signalPrevEma,
    m' = { m with signal, histogram, signalPrevEma, signalInitialized := true } := by
  obtain ⟨ema, -, h⟩ := Option.bind_eq_some_iff.1 h
  exact ⟨_, _, _, (Option.some.inj h).symm⟩

/-- What a call leaves of the state that decides about the accesses of the next one. -/
structure After (slowPeriod signalPeriod valid put : Nat) (m : MACD α) : Prop where
  slow : m.slowPeriod = slowPeriod
  signal : m.signalPeriod = signalPeriod
  line : m.line.length = put
  count : m.macdValidCount = valid
  seeded : m.signalInitialized = true ↔ 0 < valid ∧ signalPeriod ≤ valid

theorem After.slowed (h : m.After slowPeriod signalPeriod valid put) (hslow : m.nextSlow source = some m') :
    m'.After slowPeriod signalPeriod valid put := by
  obtain ⟨_, _, _, rfl⟩ := nextSlow_eq hslow
  exact ⟨h.slow, h.signal, h.line, h.count, h.seeded⟩

variable [Floating α]

theorem nextFast_isSome (hsource : source.idx < source.data.length) : (m.nextFast source).isSome := by
  unfold nextFast
  split_ifs with hperiod
  · rfl
  · obtain ⟨ema, hema⟩ := Option.isSome_iff_exists.1
      (average_isSome m.fastInitialized m.fastPrevEma hsource (not_lt.1 hperiod))
    rw [hema]
    rfl

theorem nextFast_eq (h : m.nextFast source = some m') : ∃ fastEma fastPrevEma fastInitialized,
    m' = { m with fastEma, fastPrevEma, fastInitialized } := by
  unfold nextFast at h
  split_ifs at h
  · exact ⟨_, _, _, (Option.some.inj h).symm⟩
  · obtain ⟨ema, -, h⟩ := Option.bind_eq_some_iff.1 h
    exact ⟨_, _, _, (Option.some.inj h).symm⟩

theorem After.quickened (h : m.After slowPeriod signalPeriod valid put) (hfast : m.nextFast source = some m') :
    m'.After slowPeriod signalPeriod valid put := by
  obtain ⟨_, _, _, rfl⟩ := nextFast_eq hfast
  exact ⟨h.slow, h.signal, h.line, h.count, h.seeded⟩

theorem After.nextLine_isSome (h : m.After slowPeriod signalPeriod valid put) : (m.nextLine source).isSome ↔
    (valid + 1 = signalPeriod → signalPeriod ≤ source.idx + 1 ∧ source.idx ≤ put) := by
  obtain ⟨-, rfl, rfl, rfl, hseeded⟩ := h
  unfold nextLine
  dsimp only
  split_ifs with hlt
  · exact iff_of_true rfl fun heq => absurd heq hlt.ne
  · rw [nextSignal_isSome, List.length_append, List.length_singleton, Nat.lt_succ_iff]
    dsimp only
    constructor
    · intro hback heq
      exact hback (Bool.eq_false_iff.2 fun hs => by have := hseeded.1 hs; omega) (by omega)
    · intro hback hs hpos
      refine hback (le_antisymm ?_ (not_lt.1 hlt))
      by_contra hgt
      exact Bool.eq_false_iff.1 hs (hseeded.2 (by omega))

theorem After.nextLine (h : m.After slowPeriod signalPeriod valid put) (hline : m.nextLine source = some m') :
    m'.After slowPeriod signalPeriod (valid + 1) (put + 1) := by
  obtain ⟨rfl, rfl, rfl, rfl, hseeded⟩ := h
  unfold MACD.nextLine at hline
  dsimp only at hline
  split_ifs at hline with hlt
  · rw [← Option.some.inj hline]
    refine ⟨rfl, rfl, List.length_append, rfl, ?_⟩
    show m.signalInitialized = true ↔ _
    rw [hseeded]
    omega
  · obtain ⟨_, _, _, rfl⟩ := nextSignal_eq hline
    exact ⟨rfl, rfl, List.length_append, rfl, iff_of_true rfl ⟨Nat.succ_pos _, not_lt.1 hlt⟩⟩

/-- On a bar that counts for the signal. -/
theorem After.next_isSome (h : m.After slowPeriod signalPeriod valid put) (hsource : source.idx < source.data.length) :
    (m.next source).isSome ↔ (slowPeriod ≤ source.idx + 1 → valid + 1 = signalPeriod →
      signalPeriod ≤ source.idx + 1 ∧ source.idx ≤ put) := by
  obtain ⟨m₁, h₁⟩ := Option.isSome_iff_exists.1 (nextFast_isSome (m := m) hsource)
  have hafter := h.quickened h₁
  unfold next
  rw [h₁, Option.bind_eq_bind, Option.bind_some, hafter.slow]
  split_ifs with hslow
  · exact iff_of_true rfl fun hle => absurd hle (by omega)
  · obtain ⟨m₂, h₂⟩ := Option.isSome_iff_exists.1 (nextSlow_isSome (m := m₁) hsource (by rw [hafter.slow]; omega))
    rw [h₂, Option.bind_some, (hafter.slowed h₂).nextLine_isSome]
    exact ⟨fun hback _ => hback, fun hback => hback (not_lt.1 hslow)⟩

theorem After.next (h : m.After slowPeriod signalPeriod valid put) (hnext : m.next source = some m') :
    m'.After slowPeriod signalPeriod (if slowPeriod ≤ source.idx + 1 then valid + 1 else valid) (put + 1) := by
  obtain ⟨m₁, h₁, hnext⟩ := Option.bind_eq_some_iff.1 hnext
  have hafter := h.quickened h₁
  split_ifs at hnext with hslow
  · rw [hafter.slow] at hslow
    rw [if_neg (not_le.2 hslow), ← Option.some.inj hnext]
    refine ⟨hafter.slow, hafter.signal, ?_, hafter.count, hafter.seeded⟩
    show (m₁.line ++ [_]).length = _
    rw [List.length_append, hafter.line, List.length_singleton]
  · rw [hafter.slow] at hslow
    obtain ⟨m₂, h₂, hnext⟩ := Option.bind_eq_some_iff.1 hnext
    rw [if_pos (not_lt.1 hslow)]
    exact (hafter.slowed h₂).nextLine hnext

/-! The features of a candidate read a MACD that takes what is outside of a vector for zero. While the accesses stay
inside it is the same indicator. -/

def features (m : MACD α) : StratForge.MACD α where
  fastPeriod := m.fastPeriod
  slowPeriod := m.slowPeriod
  signalPeriod := m.signalPeriod
  line := m.line
  histogram := m.histogram
  fastPrevEma := m.fastPrevEma
  slowPrevEma := m.slowPrevEma
  signalPrevEma := m.signalPrevEma
  macdValidCount := m.macdValidCount
  fastInitialized := m.fastInitialized
  slowInitialized := m.slowInitialized
  signalInitialized := m.signalInitialized

omit [Floating α] in
theorem seedSma_eq {v : List α} {idx count : Nat} {value : α} (h : averageBack v idx count = some value) :
    StratForge.MACD.seedSma v idx count = value := by
  have hread := Access.mapM_isSome.1 (show ((List.range count).mapM (Access.readBack v idx)).isSome from by
    obtain ⟨_, hsum, -⟩ := Option.bind_eq_some_iff.1 h
    obtain ⟨_, hvalues, -⟩ := Option.bind_eq_some_iff.1 hsum
    rw [hvalues]
    rfl)
  have hvalues : (List.range count).mapM (Access.readBack v idx) =
      some ((List.range count).map fun i => valueAt v (idx - i)) := by
    refine Access.mapM_eq_some fun i hi => ?_
    obtain ⟨hle, hlt⟩ := Access.readBack_isSome.1 (hread i hi)
    unfold Access.readBack valueAt
    rw [if_pos hle, List.getElem?_eq_getElem hlt, Option.getD_some]
  unfold averageBack sumBack at h
  rw [hvalues] at h
  exact Option.some.inj h

omit [Floating α] in
theorem average_eq {period : Nat} {initialized : Bool} {prev value : α}
    (h : average source period initialized prev = some value) :
    value = if !initialized then StratForge.MACD.seedSma source.data source.idx period
      else StratForge.MACD.advanceEma (valueAt source.data source.idx) prev (StratForge.MACD.multiplier period) := by
  unfold average at h
  split_ifs at h with hinit
  · rw [if_pos hinit, seedSma_eq h]
  · obtain ⟨current, hcurrent, h⟩ := Option.bind_eq_some_iff.1 h
    rw [if_neg hinit, valueAt, hcurrent]
    exact (Option.some.inj h).symm

theorem features_nextFast (h : m.nextFast source = some m') : m'.features =
    if source.idx + 1 < m.features.fastPeriod then m.features
    else if !m.features.fastInitialized then
      { m.features with
        fastPrevEma := StratForge.MACD.seedSma source.data source.idx m.features.fastPeriod, fastInitialized := true }
    else
      { m.features with
        fastPrevEma := StratForge.MACD.advanceEma (valueAt source.data source.idx) m.features.fastPrevEma
          (StratForge.MACD.multiplier m.features.fastPeriod) } := by
  unfold nextFast at h
  split_ifs at h with hperiod
  · rw [← Option.some.inj h]
    exact (if_pos hperiod).symm
  · obtain ⟨ema, hema, h⟩ := Option.bind_eq_some_iff.1 h
    have hvalue := average_eq hema
    refine (Option.some.inj h) ▸ Eq.trans ?_ (if_neg hperiod).symm
    cases hinit : m.fastInitialized <;> simp [features, hinit, hvalue]

omit [Floating α] in
theorem features_nextSlow (h : m.nextSlow source = some m') : m'.features =
    if !m.features.slowInitialized then
      { m.features with
        slowPrevEma := StratForge.MACD.seedSma source.data source.idx m.features.slowPeriod, slowInitialized := true }
    else
      { m.features with
        slowPrevEma := StratForge.MACD.advanceEma (valueAt source.data source.idx) m.features.slowPrevEma
          (StratForge.MACD.multiplier m.features.slowPeriod) } := by
  obtain ⟨ema, hema, h⟩ := Option.bind_eq_some_iff.1 h
  have hvalue := average_eq hema
  rw [← Option.some.inj h]
  cases hinit : m.slowInitialized <;> simp [features, hinit, hvalue]

omit [Floating α] in
theorem features_nextSignal {macdValue : α} (h : m.nextSignal source macdValue = some m') : m'.features =
    (let f := if !m.features.signalInitialized then
        { m.features with
          signalPrevEma := StratForge.MACD.seedSma m.features.line source.idx m.features.signalPeriod,
          signalInitialized := true }
      else
        { m.features with
          signalPrevEma := StratForge.MACD.advanceEma macdValue m.features.signalPrevEma
            (StratForge.MACD.multiplier m.features.signalPeriod) }
    { f with histogram := f.histogram ++ [macdValue - f.signalPrevEma] }) := by
  obtain ⟨ema, hema, h⟩ := Option.bind_eq_some_iff.1 h
  unfold signalAverage at hema
  rw [← Option.some.inj h]
  cases hinit : m.signalInitialized with
  | false =>
    rw [hinit] at hema
    simp [features, hinit, seedSma_eq hema]
  | true =>
    rw [hinit] at hema
    simp [features, hinit, ← Option.some.inj hema, advanceEma, multiplier, StratForge.MACD.advanceEma,
      StratForge.MACD.multiplier]

theorem features_next (h : m.next source = some m') : m'.features = m.features.next source.data source.idx := by
  obtain ⟨m₁, h₁, h⟩ := Option.bind_eq_some_iff.1 h
  have hfast := features_nextFast h₁
  unfold StratForge.MACD.next
  dsimp only
  rw [← hfast]
  split_ifs at h with hslow
  · rw [← Option.some.inj h]
    exact (if_pos hslow).symm
  · obtain ⟨m₂, h₂, h⟩ := Option.bind_eq_some_iff.1 h
    refine Eq.trans ?_ (if_neg hslow).symm
    rw [← features_nextSlow h₂]
    unfold nextLine at h
    dsimp only at h
    split_ifs at h with hsignal
    · rw [← Option.some.inj h]
      exact (if_pos hsignal).symm
    · refine Eq.trans ?_ (if_neg hsignal).symm
      exact features_nextSignal h

end MACD

/-! ### HeikinAshi -/

theorem map_read {T U : Type} (g : T → U) (l : Line T) (i : Nat) : (l.map g).data[i]? = l.data[i]?.map g := List.getElem?_map

theorem row_read {T U : Type} (l : Line T) (g : T → U) {i : Nat} (hi : i < l.data.length) :
    (l.map g).data[i]? = some (g l.data[i]) := by
  rw [map_read, List.getElem?_eq_getElem hi, Option.map_some]

namespace HeikinAshi
variable [Floating α] {h h' : HeikinAshi α} {f : DataFeed α} {put : Nat}

structure After (put : Nat) (h : HeikinAshi α) : Prop where
  line : h.line.length = put
  haOpen : h.haOpen.length = put

/-- On a bar that is there, an access can only be outside of what has been put out. -/
theorem next_of_bar {r : Row α} (hr : f.lines.data[f.lines.idx]? = some r) (h : HeikinAshi α) :
    h.next f.open f.high f.low f.close =
      h.candle f.index r.open r.high r.low r.close := by
  unfold next
  simp only [DataFeed.open, DataFeed.high, DataFeed.low, DataFeed.close, map_read,
    show ∀ g : Row α → α, (f.lines.map g).idx = f.lines.idx from fun _ => rfl, hr, Option.map_some, Option.bind_eq_bind,
    Option.bind_some]
  rfl

omit [Floating α] in
theorem nextOpen_isSome {haOpen haClose : List α} {idx : Nat} :
    (nextOpen haOpen haClose idx).isSome ↔ idx - 1 < haOpen.length ∧ idx - 1 < haClose.length := by
  unfold nextOpen
  rw [← Access.read_isSome, ← Access.read_isSome]
  cases haOpen[idx - 1]? with
  | none => simp
  | some prevOpen => cases haClose[idx - 1]? <;> simp

theorem After.candle_isSome (hput : h.After put) {idx : Nat} {o hi lo c : α} :
    (h.candle idx o hi lo c).isSome ↔ idx ≤ put := by
  have hline : (h.line ++ [(o + hi + lo + c) / 4.0]).length = put + 1 := by
    rw [List.length_append, hput.line, List.length_singleton]
  unfold HeikinAshi.candle
  dsimp only
  split_ifs with hzero
  · exact iff_of_true rfl (by omega)
  · constructor
    · intro hsome
      obtain ⟨h', hsome⟩ := Option.isSome_iff_exists.1 hsome
      obtain ⟨prev, hprev, -⟩ := Option.bind_eq_some_iff.1 hsome
      obtain ⟨hlt, -⟩ := nextOpen_isSome.1 (Option.isSome_iff_exists.2 ⟨prev, hprev⟩)
      rw [hput.haOpen] at hlt
      omega
    · intro hle
      obtain ⟨prev, hprev⟩ := Option.isSome_iff_exists.1 (nextOpen_isSome.2
        ⟨show idx - 1 < h.haOpen.length by rw [hput.haOpen]; omega, hline.symm ▸ (by omega : idx - 1 < put + 1)⟩)
      have hread : idx < (h.haOpen ++ [prev]).length := by
        rw [List.length_append, hput.haOpen, List.length_singleton]
        omega
      rw [hprev, Option.bind_eq_bind, Option.bind_some, List.getElem?_eq_getElem hread]
      rfl

theorem After.candle (hput : h.After put) {idx : Nat} {o hi lo c : α} (hcandle : h.candle idx o hi lo c = some h') :
    h'.After (put + 1) := by
  have hgrow : ∀ {l : List α} {x}, l.length = put → (l ++ [x]).length = put + 1 := fun hl => by
    rw [List.length_append, hl, List.length_singleton]
  unfold HeikinAshi.candle at hcandle
  dsimp only at hcandle
  split_ifs at hcandle with hzero
  · rw [← Option.some.inj hcandle]
    exact ⟨hgrow hput.line, hgrow hput.haOpen⟩
  · obtain ⟨prev, -, hcandle⟩ := Option.bind_eq_some_iff.1 hcandle
    obtain ⟨current, -, hcandle⟩ := Option.bind_eq_some_iff.1 hcandle
    rw [← Option.some.inj hcandle]
    exact ⟨hgrow hput.line, hgrow hput.haOpen⟩

end HeikinAshi

/-! ### ParabolicSAR -/

namespace ParabolicSAR
variable [Floating α] {p p' : ParabolicSAR α} {f : DataFeed α} {seen : Prop}

/-- Both entries are there once the second bar has been seen. -/
def After (seen : Prop) (p : ParabolicSAR α) : Prop := (seen ∧ p.status.length = 2) ∨ (¬ seen ∧ p.status = [])

omit [Floating α] in
theorem seed_length {high low close : Line α} {status} (h : p.seed high low close = some status) : status.length = 2 := by
  obtain ⟨_, -, h⟩ := Option.bind_eq_some_iff.1 h
  obtain ⟨_, -, h⟩ := Option.bind_eq_some_iff.1 h
  obtain ⟨_, -, h⟩ := Option.bind_eq_some_iff.1 h
  obtain ⟨_, -, h⟩ := Option.bind_eq_some_iff.1 h
  rw [← Option.some.inj h]
  rfl

omit [Floating α] in
/-- The second bar finds two entries, its own if there have been none. -/
theorem After.found_second (hp : p.After seen) (hidx : f.index = 1) (hbar : f.index < f.size) :
    ∃ status, p.found f.high f.low f.close = some status ∧ status.length = 2 := by
  rw [DataFeed.size_eq] at hbar
  have hclose : f.close.idx = 1 := hidx
  unfold found
  rw [hclose]
  rcases hp with ⟨-, hlen⟩ | ⟨-, hnil⟩
  · have hsome : ¬ (1 + 1 = 2 ∧ p.status.isEmpty) := fun h => by
      rw [List.isEmpty_iff.1 h.2] at hlen
      cases hlen
    exact ⟨p.status, if_neg hsome, hlen⟩
  · rw [if_pos ⟨rfl, List.isEmpty_iff.2 hnil⟩]
    have hsome : (p.seed f.high f.low f.close).isSome := by
      unfold seed DataFeed.high DataFeed.low DataFeed.close
      rw [row_read f.lines _ (show 0 < _ by omega), row_read f.lines _ (show 0 < _ by omega),
        row_read f.lines _ (show 1 < _ by omega), row_read f.lines _ (show 0 < _ by omega)]
      rfl
    obtain ⟨status, hstatus⟩ := Option.isSome_iff_exists.1 hsome
    exact ⟨status, hstatus, seed_length hstatus⟩

omit [Floating α] in
theorem found_later (hidx : 2 ≤ f.index) : p.found f.high f.low f.close = some p.status :=
  if_neg fun h => by have : f.index + 1 = 2 := h.1; omega

theorem track_of_found {status} (hfound : p.found f.high f.low f.close = some status) (hlen : status.length = 2)
    (hbar : f.index < f.size) : ∃ status' line, p.track f.high f.low f.close = some { p with status := status', line } ∧
      status'.length = 2 := by
  rw [DataFeed.size_eq] at hbar
  have hclose : f.close.idx = f.lines.idx := rfl
  have hidx : f.lines.idx < f.lines.data.length := hbar
  have hentry : (f.close.idx + 1 - 1) % 2 < status.length := by omega
  have hother : (if (f.close.idx + 1 - 1) % 2 = 0 then 1 else 0) < status.length := by split_ifs <;> omega
  have hedge : ∀ b : Bool, (if b then f.low else f.high).data[f.close.idx + 1 - 2]? =
      some (if b then f.lines.data[f.close.idx + 1 - 2].low else f.lines.data[f.close.idx + 1 - 2].high) := by
    intro b
    cases b with
    | true => exact row_read f.lines Row.low (by omega)
    | false => exact row_read f.lines Row.high (by omega)
  refine ⟨_, _, Option.bind_eq_some_iff.2 ⟨status, hfound, Option.bind_eq_some_iff.2 ⟨_, List.getElem?_eq_getElem hentry,
    Option.bind_eq_some_iff.2 ⟨_, row_read f.lines Row.high (show f.close.idx + 1 - 1 < _ by omega),
    Option.bind_eq_some_iff.2 ⟨_, row_read f.lines Row.low (show f.close.idx + 1 - 1 < _ by omega),
    Option.bind_eq_some_iff.2 ⟨_, hedge _, Option.bind_eq_some_iff.2 ⟨_, if_pos hother, rfl⟩⟩⟩⟩⟩⟩, ?_⟩
  rw [List.length_set, hlen]

theorem After.next_isSome (hp : p.After seen) (hbar : f.index < f.size) :
    (p.next f.high f.low f.close).isSome ↔ (2 ≤ f.index → seen) := by
  have hidx : f.close.idx = f.index := rfl
  unfold ParabolicSAR.next
  split_ifs with hfirst
  · exact iff_of_true rfl fun hle => absurd hle (by omega)
  · rcases Nat.lt_or_ge f.index 2 with hlt | hge
    · obtain ⟨status, hfound, hlen⟩ := hp.found_second (by omega) hbar
      obtain ⟨_, _, htrack, -⟩ := track_of_found hfound hlen hbar
      rw [htrack]
      exact iff_of_true rfl fun hle => absurd hle (by omega)
    · rcases hp with ⟨hseen, hlen⟩ | ⟨hseen, hnil⟩
      · obtain ⟨_, _, htrack, -⟩ := track_of_found (found_later hge) hlen hbar
        rw [htrack]
        exact iff_of_true rfl fun _ => hseen
      · refine iff_of_false (fun hsome => ?_) fun h => hseen (h hge)
        obtain ⟨p', htrack⟩ := Option.isSome_iff_exists.1 hsome
        obtain ⟨status, hfound, htrack⟩ := Option.bind_eq_some_iff.1 htrack
        obtain ⟨prev, hprev, -⟩ := Option.bind_eq_some_iff.1 htrack
        rw [found_later hge, hnil] at hfound
        cases hfound
        cases hprev

theorem After.next (hp : p.After seen) (hbar : f.index < f.size) (hfirst : f.index = 0 → ¬ seen)
    (hnext : p.next f.high f.low f.close = some p') : p'.After (seen ∨ f.index = 1) := by
  have hidx : f.close.idx = f.index := rfl
  have htracked : ∀ {status}, p.found f.high f.low f.close = some status → status.length = 2 →
      p.track f.high f.low f.close = some p' → p'.status.length = 2 := by
    intro status hfound hlen htrack
    obtain ⟨_, _, htrack', hlen'⟩ := track_of_found hfound hlen hbar
    rw [htrack'] at htrack
    cases htrack
    exact hlen'
  unfold ParabolicSAR.next at hnext
  split_ifs at hnext with hzero
  · cases hnext
    exact .inr ⟨fun h => h.elim (hfirst (by omega)) (by omega), rfl⟩
  · rcases Nat.lt_or_ge f.index 2 with hlt | hge
    · obtain ⟨status, hfound, hlen⟩ := hp.found_second (by omega) hbar
      exact .inl ⟨.inr (by omega), htracked hfound hlen hnext⟩
    · have hsome := (hp.next_isSome hbar).1 (by unfold ParabolicSAR.next; rw [if_neg hzero, hnext]; rfl) hge
      rcases hp with ⟨-, hlen⟩ | ⟨hseen, -⟩
      · exact .inl ⟨.inl hsome, htracked (found_later hge) hlen hnext⟩
      · exact absurd hsome hseen

end ParabolicSAR

/-! ### Ichimoku -/

namespace Ichimoku
variable {high low : List α} {idx period : Nat}

theorem midpoint_isSome (hperiod : period ≤ idx + 1) :
    (midpoint high low idx period).isSome ↔ idx < high.length ∧ idx < low.length := by
  constructor
  · intro h
    obtain ⟨m, h⟩ := Option.isSome_iff_exists.1 h
    obtain ⟨highest, hhigh, h⟩ := Option.bind_eq_some_iff.1 h
    obtain ⟨lowest, hlow, -⟩ := Option.bind_eq_some_iff.1 h
    exact ⟨(List.getElem?_eq_some_iff.1 hhigh).1, (List.getElem?_eq_some_iff.1 hlow).1⟩
  · rintro ⟨hhigh, hlow⟩
    have holder : ∀ {v : List α}, idx < v.length →
        (((List.range (period - 1)).map (· + 1)).mapM (Access.readBack v idx)).isSome := by
      intro v hv
      refine Access.mapM_isSome.2 fun i hi => ?_
      obtain ⟨j, hj, rfl⟩ := List.mem_map.1 hi
      have := List.mem_range.1 hj
      exact Access.readBack_isSome.2 (by omega)
    obtain ⟨highs, hhighs⟩ := Option.isSome_iff_exists.1 (holder hhigh)
    obtain ⟨lows, hlows⟩ := Option.isSome_iff_exists.1 (holder hlow)
    unfold midpoint
    dsimp only
    rw [List.getElem?_eq_getElem hhigh, List.getElem?_eq_getElem hlow, hhighs, hlows]
    rfl

omit [Arith α] in
theorem exchange_isSome {buf : List α} {cursor : Nat} {pending : α} :
    (exchange buf cursor pending).isSome ↔ cursor < buf.length := by
  constructor
  · intro h
    obtain ⟨_, h⟩ := Option.isSome_iff_exists.1 h
    obtain ⟨_, hread, -⟩ := Option.bind_eq_some_iff.1 h
    exact (List.getElem?_eq_some_iff.1 hread).1
  · intro h
    unfold exchange Access.write
    rw [List.getElem?_eq_getElem h, if_pos h]
    rfl

omit [Arith α] in
theorem exchange_length {buf buf' : List α} {cursor : Nat} {pending oldest : α}
    (h : exchange buf cursor pending = some (oldest, buf')) : buf'.length = buf.length := by
  obtain ⟨_, -, h⟩ := Option.bind_eq_some_iff.1 h
  obtain ⟨_, hwrite, h⟩ := Option.bind_eq_some_iff.1 h
  cases h
  exact Access.length_write hwrite

variable [Floating α] {k₀ k k' : Ichimoku α} {f : DataFeed α} {put : Nat}

theorem midpointFrom_isSome : (midpointFrom f.high f.low idx period).isSome ↔ (period ≤ idx + 1 → idx < f.size) := by
  have hhigh : f.high.data.length = f.size := (List.length_map _).trans (DataFeed.size_eq f).symm
  have hlow : f.low.data.length = f.size := (List.length_map _).trans (DataFeed.size_eq f).symm
  unfold midpointFrom
  split_ifs with hperiod
  · rw [midpoint_isSome hperiod, hhigh, hlow]
    exact ⟨fun h _ => h.1, fun h => ⟨h hperiod, h hperiod⟩⟩
  · exact iff_of_true rfl fun h => absurd h hperiod

theorem shiftBack_isSome (hspan : k.chikouSpan.length = idx) :
    (k.shiftBack f.close idx).isSome ↔ (k.chikou ≤ idx → idx < f.size ∧ 0 < k.chikou) := by
  have hclose : f.close.data.length = f.size := (List.length_map _).trans (DataFeed.size_eq f).symm
  unfold shiftBack
  split_ifs with hlt
  · exact iff_of_true rfl fun h => absurd h (not_le.2 hlt)
  · constructor
    · intro h _
      obtain ⟨_, h⟩ := Option.isSome_iff_exists.1 h
      obtain ⟨_, hread, h⟩ := Option.bind_eq_some_iff.1 h
      obtain ⟨_, hwrite, -⟩ := Option.bind_eq_some_iff.1 h
      have hin := (List.getElem?_eq_some_iff.1 hread).1
      have hslot := Access.write_isSome.1 (Option.isSome_iff_exists.2 ⟨_, hwrite⟩)
      omega
    · intro h
      obtain ⟨hin, hpos⟩ := h (not_lt.1 hlt)
      have hslot : idx - k.chikou < k.chikouSpan.length := by omega
      rw [List.getElem?_eq_getElem (hclose.symm ▸ hin : idx < f.close.data.length)]
      unfold Access.write
      rw [Option.bind_eq_bind, Option.bind_some, if_pos hslot]
      rfl

theorem shiftBack_length {close : Line α} {span : List α} (hspan : k.chikouSpan.length = idx)
    (h : k.shiftBack close idx = some span) : span.length = idx + 1 := by
  unfold shiftBack at h
  split_ifs at h with hlt
  · rw [← Option.some.inj h, List.length_append, hspan, List.length_singleton]
  · obtain ⟨_, -, h⟩ := Option.bind_eq_some_iff.1 h
    obtain ⟨_, hwrite, h⟩ := Option.bind_eq_some_iff.1 h
    rw [← Option.some.inj h, List.length_append, Access.length_write hwrite, hspan, List.length_singleton]

/-- What the calls so far, from `k₀` on, leave of the state that decides about the accesses of the next one. -/
structure After (k₀ : Ichimoku α) (put : Nat) (k : Ichimoku α) : Prop where
  tenkan : k.tenkan = k₀.tenkan
  kijun : k.kijun = k₀.kijun
  senkou : k.senkou = k₀.senkou
  lead : k.senkouLead = k₀.senkouLead
  chikou : k.chikou = k₀.chikou
  count : k.barCount = put
  span : k.chikouSpan.length = put
  bufA : k.senkouABuf.length = k.senkouLead
  bufB : k.senkouBBuf.length = k.senkouLead
  cursorA : 0 < k.senkouLead → k.saCursor < k.senkouLead
  cursorB : 0 < k.senkouLead → k.sbCursor < k.senkouLead

theorem After.next_isSome (h : k₀.After put k) : (k.next f.high f.low f.close).isSome ↔
    0 < k₀.senkouLead ∧ 0 < k₀.chikou ∧
      (k₀.tenkan ≤ put + 1 ∨ k₀.kijun ≤ put + 1 ∨ k₀.senkou ≤ put + 1 ∨ k₀.chikou ≤ put → put < f.size) := by
  rw [← h.tenkan, ← h.kijun, ← h.senkou, ← h.lead, ← h.chikou]
  have hback := shiftBack_isSome (f := f) (h.span.trans h.count.symm)
  rw [h.count] at hback
  constructor
  · intro hsome
    obtain ⟨k', hsome⟩ := Option.isSome_iff_exists.1 hsome
    obtain ⟨t, ht, hsome⟩ := Option.bind_eq_some_iff.1 hsome
    obtain ⟨j, hj, hsome⟩ := Option.bind_eq_some_iff.1 hsome
    obtain ⟨a, ha, hsome⟩ := Option.bind_eq_some_iff.1 hsome
    obtain ⟨s, hs, hsome⟩ := Option.bind_eq_some_iff.1 hsome
    obtain ⟨b, hb, hsome⟩ := Option.bind_eq_some_iff.1 hsome
    obtain ⟨c, hc, -⟩ := Option.bind_eq_some_iff.1 hsome
    rw [h.count] at ht hj hs hc
    have ht := midpointFrom_isSome.1 (Option.isSome_iff_exists.2 ⟨t, ht⟩)
    have hj := midpointFrom_isSome.1 (Option.isSome_iff_exists.2 ⟨j, hj⟩)
    have hs := midpointFrom_isSome.1 (Option.isSome_iff_exists.2 ⟨s, hs⟩)
    have ha := exchange_isSome.1 (Option.isSome_iff_exists.2 ⟨a, ha⟩)
    have hc := hback.1 (Option.isSome_iff_exists.2 ⟨c, hc⟩)
    rw [h.bufA] at ha
    refine ⟨by omega, ?_, fun hread => ?_⟩
    · by_contra hzero
      exact hzero (hc (by omega)).2
    · rcases hread with hle | hle | hle | hle
      exacts [ht hle, hj hle, hs hle, (hc hle).1]
  · rintro ⟨hlead, hchikou, hread⟩
    obtain ⟨t, ht⟩ := Option.isSome_iff_exists.1 (midpointFrom_isSome.2 fun hle => hread (.inl hle))
    obtain ⟨j, hj⟩ := Option.isSome_iff_exists.1 (midpointFrom_isSome.2 fun hle => hread (.inr (.inl hle)))
    obtain ⟨s, hs⟩ := Option.isSome_iff_exists.1 (midpointFrom_isSome.2 fun hle => hread (.inr (.inr (.inl hle))))
    obtain ⟨c, hc⟩ := Option.isSome_iff_exists.1 (hback.2 fun hle => ⟨hread (.inr (.inr (.inr hle))), hchikou⟩)
    have ha : ∀ pending, ∃ r, exchange k.senkouABuf k.saCursor pending = some r := fun pending =>
      Option.isSome_iff_exists.1 (exchange_isSome.2 (by rw [h.bufA]; exact h.cursorA hlead))
    have hb : ∀ pending, ∃ r, exchange k.senkouBBuf k.sbCursor pending = some r := fun pending =>
      Option.isSome_iff_exists.1 (exchange_isSome.2 (by rw [h.bufB]; exact h.cursorB hlead))
    obtain ⟨a, ha⟩ := ha _
    obtain ⟨b, hb⟩ := hb _
    rw [← h.count] at ht hj hs hc
    exact Option.isSome_iff_exists.2 ⟨_, Option.bind_eq_some_iff.2 ⟨t, ht, Option.bind_eq_some_iff.2 ⟨j, hj,
      Option.bind_eq_some_iff.2 ⟨a, ha, Option.bind_eq_some_iff.2 ⟨s, hs, Option.bind_eq_some_iff.2 ⟨b, hb,
      Option.bind_eq_some_iff.2 ⟨c, hc, rfl⟩⟩⟩⟩⟩⟩⟩

theorem After.next (h : k₀.After put k) {high low close : Line α} (hnext : k.next high low close = some k') :
    k₀.After (put + 1) k' := by
  obtain ⟨t, ht, hnext⟩ := Option.bind_eq_some_iff.1 hnext
  obtain ⟨j, hj, hnext⟩ := Option.bind_eq_some_iff.1 hnext
  obtain ⟨⟨sa, bufA⟩, ha, hnext⟩ := Option.bind_eq_some_iff.1 hnext
  obtain ⟨s, hs, hnext⟩ := Option.bind_eq_some_iff.1 hnext
  obtain ⟨⟨sb, bufB⟩, hb, hnext⟩ := Option.bind_eq_some_iff.1 hnext
  obtain ⟨c, hc, hnext⟩ := Option.bind_eq_some_iff.1 hnext
  rw [h.count] at hc
  cases hnext
  have hcursor : ∀ cursor, 0 < k.senkouLead → (cursor + 1) % k.senkouLeadBufSize < k.senkouLead := by
    intro cursor hpos
    rw [senkouLeadBufSize, if_neg hpos.ne']
    exact Nat.mod_lt _ hpos
  exact ⟨h.tenkan, h.kijun, h.senkou, h.lead, h.chikou, congrArg (· + 1) h.count, shiftBack_length h.span hc,
    (exchange_length ha).trans h.bufA, (exchange_length hb).trans h.bufB, hcursor _, hcursor _⟩

end Ichimoku

/-! ### The four indicators -/

namespace Calls
variable {c : Calls α} {done : List (DataFeed α)} {f : DataFeed α}

omit [Arith α] in
theorem index_lt (h : done ++ [f] <+: c.feeds) : f.index < f.size := by
  have hne := c.onBar f (h.subset (List.mem_append_right _ (List.mem_singleton_self f)))
  have hpos := List.length_pos_iff.2 hne
  have hle := f.lines.idx_le
  rw [DataFeed.size_eq, DataFeed.index_eq]
  omega

omit [Arith α] in
/-- The cursor has never been further on. -/
theorem index_le (h : done ++ [f] <+: c.feeds) {g : DataFeed α} (hg : g ∈ done) : g.index ≤ f.index :=
  ((List.pairwise_append.1 (c.onward.sublist h.sublist)).2.2 g hg f (List.mem_singleton_self f)).2

end Calls

namespace Kind
variable [Floating α]

/-- The accesses of an indicator stay inside exactly if every call is made in time. -/
theorem safe_iff (k : Kind α) (c : Calls α) : k.Safe c ↔ k.InStep c := by
  cases k with
  | macd source fastPeriod slowPeriod signalPeriod =>
    refine Access.foldlM_isSome_iff (fun done m => MACD.After slowPeriod signalPeriod
      (done.countP (slowPeriod ≤ ·.index + 1)) done.length m) ?_ (fun done f m hpre h => ?_) fun done f m m' _ h hnext => ?_
    · exact ⟨rfl, rfl, rfl, rfl, by simp [MACD.init]⟩
    · have hbar := Calls.index_lt hpre
      rw [DataFeed.size_eq] at hbar
      exact h.next_isSome (hbar.trans_eq (List.length_map _).symm)
    · have hafter := h.next hnext
      rw [show (f.lines.map source).idx = f.index from rfl] at hafter
      rw [List.countP_append, List.countP_singleton, List.length_append, List.length_singleton]
      by_cases hslow : slowPeriod ≤ f.index + 1
      · rw [if_pos hslow] at hafter
        rwa [decide_eq_true hslow, if_pos rfl]
      · rw [if_neg hslow] at hafter
        rwa [decide_eq_false hslow, if_neg Bool.false_ne_true]
  | heikinAshi =>
    refine Access.foldlM_isSome_iff (fun done h => HeikinAshi.After done.length h) ⟨rfl, rfl⟩ (fun done f h hpre hput => ?_)
      fun done f h h' hpre hput hnext => ?_
    · rw [HeikinAshi.next_of_bar (List.getElem?_eq_getElem (DataFeed.size_eq f ▸ Calls.index_lt hpre))]
      exact hput.candle_isSome
    · rw [HeikinAshi.next_of_bar (List.getElem?_eq_getElem (DataFeed.size_eq f ▸ Calls.index_lt hpre))] at hnext
      rw [List.length_append, List.length_singleton]
      exact hput.candle hnext
  | parabolicSAR period af afmax =>
    refine Access.foldlM_isSome_iff (fun (done : List (DataFeed α)) p => ParabolicSAR.After (∃ g ∈ done, g.index = 1) p) ?_
      (fun done f p hpre h => h.next_isSome (Calls.index_lt hpre)) fun done f p p' hpre h hnext => ?_
    · exact .inr ⟨by simp, rfl⟩
    · have hafter := h.next (Calls.index_lt hpre) (fun hzero ⟨g, hg, hone⟩ => ?_) hnext
      · convert hafter using 1
        simp [or_and_right, exists_or]
      · have := Calls.index_le hpre hg
        omega
  | ichimoku tenkan kijun senkou senkouLead chikou =>
    have hmax : ∀ n, (if n = 0 then 1 else n) = max 1 n := fun n => by split_ifs <;> omega
    refine Access.foldlM_isSome_iff (fun done k =>
      (Ichimoku.init tenkan kijun senkou senkouLead chikou).After done.length k) ?_ (fun done f k hpre h => ?_)
      fun done f k k' hpre h hnext => ?_
    · exact ⟨rfl, rfl, rfl, rfl, rfl, rfl, rfl, List.length_replicate, List.length_replicate, id, id⟩
    · rw [h.next_isSome]
      simp only [Ichimoku.init, hmax, Timely]
    · rw [List.length_append, List.length_singleton]
      exact h.next hnext

end Kind

/-- Three bars, with a call on the first and one on the third. -/
def overOne : Calls OrNan where
  feeds := [0, 2].map fun idx => { lines := { data := [0, 1, 2].map (⟨·, 1, 1, 1, 1, 1, 0⟩), idx := min idx 2, idx_le := by simp } }
  onBar f hf := by
    obtain ⟨idx, -, rfl⟩ := List.mem_map.1 hf
    simp
  onward := by simp

/-- A bar without a call takes the source ahead of the output lines, and `Ichimoku` takes displacements of zero. -/
theorem out_of_step :
    ¬ (Kind.macd Row.close 1 1 2).Safe overOne ∧ ¬ Kind.heikinAshi.Safe overOne ∧ ¬ (Kind.parabolicSAR 2 0.02 0.20).Safe overOne ∧
      ¬ (Kind.ichimoku 9 26 52 0 26).Safe overOne ∧ ¬ (Kind.ichimoku 9 26 52 26 0).Safe overOne := by
  unfold Kind.Safe
  refine ⟨?_, ?_, ?_, ?_, ?_⟩ <;> decide +kernel

end Indicators
end StratForge
