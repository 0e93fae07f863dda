import StratForge.LookBack
import StratForge.Mixtures

/-!
# Adaptive averages (`indicators/kama.hpp`, `adaptive.hpp`)

`AdaptiveMovingAverage` and `VIDYA` go a part of the way to the value of the bar that depends on how straight the
source has come there. The part is a weight on every bar, so the outputs stay between the values of the source so far
(`adaptive_averages_between`).
-/

namespace StratForge
namespace Indicators
open Floating (nan)
open Access (readBack)
open Mixtures (Amid Weight)

section
variable {α : Type} [Arith α] [Floating α]

/-! ### VIDYA -/

structure VIDYA (α : Type) where
  period : Nat
  momentumPeriod : Nat
  baseAlpha : α
  line : List α := []
  prevVidya : α
  initialized : Bool := false

namespace VIDYA

def init (period momentumPeriod : Nat) : VIDYA α :=
  let period := if period = 0 then 1 else period
  { period, momentumPeriod := if momentumPeriod = 0 then 1 else momentumPeriod
    baseAlpha := 2.0 / (Arith.ofCount period + 1), prevVidya := 0 }

/-- One turn of the loop over the changes. -/
def addDelta (sums : α × α) (delta : α) : α × α :=
  if 0 < delta then (sums.1 + delta, sums.2) else (sums.1, sums.2 - delta)

/-- The size of the momentum ratio. -/
def cmo (upSum downSum : α) : α :=
  let denominator := upSum + downSum
  if denominator == 0 then 0 else Arith.abs ((upSum - downSum) / denominator)

def momentum (source : Line α) (v : VIDYA α) : Option α := do
  let deltas ← (List.range v.momentumPeriod).mapM fun i => do
    let newer ← readBack source.data source.idx i
    let older ← readBack source.data source.idx (i + 1)
    return newer - older
  let sums := deltas.foldl addDelta (0, 0)
  return cmo sums.1 sums.2

def next (source : Line α) (v : VIDYA α) : Option (VIDYA α) :=
  if source.idx < v.momentumPeriod then some { v with line := v.line ++ [nan] }
  else do
    let cmo ← v.momentum source
    let alpha := v.baseAlpha * cmo
    let current ← source.data[source.idx]?
    let prevVidya := if !v.initialized then current else alpha * current + (1 - alpha) * v.prevVidya
    return { v with line := v.line ++ [prevVidya], prevVidya, initialized := true }

end VIDYA

/-! ### The ratio of KAMA -/

namespace AdaptiveMovingAverage

/-- The efficiency ratio that `kama` computes. -/
def ratio (source : Line α) (k : AdaptiveMovingAverage α) : Option α := do
  let current ← source.data[source.idx]?
  let before ← readBack source.data source.idx k.period
  let newer ← (List.range k.period).mapM (readBack source.data source.idx)
  let older ← (List.range k.period).mapM fun i => readBack source.data source.idx (i + 1)
  let volatility := Simd.reduceSum (List.zipWith (fun x y => Arith.abs (x - y)) newer older)
  return efficiencyRatio (Arith.abs (current - before)) volatility

def smoothingConstant (k : AdaptiveMovingAverage α) (ratio : α) : α :=
  (ratio * (k.fast - k.slow) + k.slow) * (ratio * (k.fast - k.slow) + k.slow)

end AdaptiveMovingAverage

end

theorem AdaptiveMovingAverage.kama_eq {α : Type} [Arith α] {source : Line α} {k : AdaptiveMovingAverage α}
    (h : k.initialized = true) :
    k.kama source = do
      let current ← source.data[source.idx]?
      let ratio ← k.ratio source
      return k.prevKama * (1 - k.smoothingConstant ratio) + current * k.smoothingConstant ratio := by
  unfold kama ratio
  rw [h]
  cases source.data[source.idx]? with
  | none => rfl
  | some current =>
    simp only [Bool.not_true, Bool.false_eq_true, if_false, Option.bind_eq_bind, Option.bind_some, Option.bind_assoc]
    rfl

/-! ### Outputs between the values so far -/

/-- From bar `p` on each output is a number between the values up to its bar. -/
structure Follows (p : Nat) (qs : List ℚ) (out : List OrNan) : Prop where
  length : out.length = qs.length
  early : ∀ t, t < p → t < qs.length → out[t]? = some nan
  amid : ∀ t, p ≤ t → t < qs.length → ∃ v, out[t]? = some (.num v) ∧ Amid (qs.take (t + 1)) v

namespace Follows
variable {p : Nat} {qs : List ℚ} {q v : ℚ} {out : List OrNan}

theorem nil : Follows p [] [] := ⟨rfl, fun _ _ h => absurd h (Nat.not_lt_zero _), fun _ _ h => absurd h (Nat.not_lt_zero _)⟩

/-- The outputs before the last bar stay as they are. -/
theorem snoc_of (h : Follows p qs out) {x : OrNan} (hearly : qs.length < p → x = nan)
    (hlate : p ≤ qs.length → ∃ v, x = .num v ∧ Amid (qs ++ [q]) v) : Follows p (qs ++ [q]) (out ++ [x]) := by
  have hlast : (out ++ [x])[qs.length]? = some x := by rw [← h.length, List.getElem?_concat_length]
  have hbefore : ∀ t < qs.length, (out ++ [x])[t]? = out[t]? := fun t ht =>
    List.getElem?_append_left (by rw [h.length]; exact ht)
  have htake : ∀ t < qs.length, (qs ++ [q]).take (t + 1) = qs.take (t + 1) := fun t ht => List.take_append_of_le_length ht
  have hsplit : ∀ t, t < (qs ++ [q]).length → t < qs.length ∨ t = qs.length := by
    intro t ht
    rw [List.length_append, List.length_singleton] at ht
    omega
  refine ⟨by rw [List.length_append, List.length_append, h.length]; rfl, ?_, ?_⟩
  · intro t htp ht
    rcases hsplit t ht with ht | rfl
    · rw [hbefore t ht]
      exact h.early t htp ht
    · rw [hlast, hearly htp]
  · intro t htp ht
    rcases hsplit t ht with ht | rfl
    · rw [hbefore t ht, htake t ht]
      exact h.amid t htp ht
    · obtain ⟨v, rfl, hv⟩ := hlate htp
      exact ⟨v, hlast, by rwa [List.take_of_length_le (by simp)]⟩

end Follows

theorem weight_rate {n : Nat} (hn : 0 < n) : Weight (rate n) := ⟨(rate_pos n).le, rate_le_one hn⟩

section
variable {qs : List ℚ} {q v : ℚ} {p m : Nat} {fast slow base : ℚ} {source : Line OrNan}

theorem averageBack_amid (hp : 0 < p) (hle : p ≤ qs.length) :
    ∃ v, averageBack ((qs ++ [q]).map OrNan.num) qs.length p = some (.num v) ∧ Amid (qs ++ [q]) v := by
  have hread := @averageBack_eq _ _ ((qs ++ [q]).map OrNan.num) qs.length p (by simp) (by omega)
  rw [← List.map_drop, ← List.map_take, ← List.map_reverse] at hread
  have hsub : (((qs ++ [q]).drop (qs.length + 1 - p)).take p).reverse ⊆ qs ++ [q] :=
    fun x hx => List.mem_of_mem_drop (List.mem_of_mem_take (List.mem_reverse.1 hx))
  have hlen : (((qs ++ [q]).drop (qs.length + 1 - p)).take p).reverse.length = p := by
    simp
    omega
  generalize (((qs ++ [q]).drop (qs.length + 1 - p)).take p).reverse = values at hread hsub hlen
  subst hlen
  have hcount : (values.length : ℚ) ≠ 0 := by exact_mod_cast hp.ne'
  rw [OrNan.reduceSum_num, OrNan.ofCount_eq, OrNan.num_div hcount] at hread
  exact ⟨_, hread, Amid.mean hsub (List.length_pos_iff.1 hp)⟩

/-! ### KAMA -/

namespace AdaptiveMovingAverage
variable {k : AdaptiveMovingAverage OrNan}

theorem efficiencyRatio_weight {a b : ℚ} (ha : 0 ≤ a) (hab : a ≤ b) :
    ∃ e, efficiencyRatio (OrNan.num a) (OrNan.num b) = .num e ∧ Weight e := by
  unfold efficiencyRatio
  rw [OrNan.zero_eq, OrNan.num_beq]
  by_cases hb : b = 0
  · exact ⟨0, by simp [hb], Mixtures.weight_zero⟩
  · exact ⟨a / b, by simp [hb, OrNan.num_div hb], Mixtures.weight_div ha hab⟩

theorem ratio_weight (hs : Sourced ((qs ++ [q]).map OrNan.num) source) (hle : k.period ≤ qs.length) :
    ∃ e, k.ratio source = some (.num e) ∧ Weight e := by
  have hnewer : (List.range k.period).mapM (readBack source.data source.idx) =
      some ((List.range k.period).map fun i => .num (ago (qs ++ [q]) qs.length i)) := by
    refine Access.mapM_eq_some fun i hi => ?_
    have hlt := List.mem_range.1 hi
    exact hs.agoNums (by omega)
  have holder : (List.range k.period).mapM (fun i => readBack source.data source.idx (i + 1)) =
      some ((List.range k.period).map fun i => .num (ago (qs ++ [q]) qs.length (i + 1))) := by
    refine Access.mapM_eq_some fun i hi => ?_
    have hlt := List.mem_range.1 hi
    exact hs.agoNums (by omega)
  have hzip : List.zipWith (fun x y : OrNan => Arith.abs (x - y))
      ((List.range k.period).map fun i => .num (ago (qs ++ [q]) qs.length i))
      ((List.range k.period).map fun i => .num (ago (qs ++ [q]) qs.length (i + 1))) =
      (List.range k.period).map fun i => .num |ago (qs ++ [q]) qs.length i - ago (qs ++ [q]) qs.length (i + 1)| := by
    rw [List.zipWith_map, List.zipWith_self]
    rfl
  have hway := Mixtures.abs_sub_le_travel (ago (qs ++ [q]) qs.length) k.period
  rw [ago_current] at hway
  obtain ⟨e, he, hweight⟩ := efficiencyRatio_weight (abs_nonneg _) hway
  refine ⟨e, ?_, hweight⟩
  rw [ratio, hs.currentNums, hs.agoNums hle, hnewer, holder]
  simp only [Option.bind_eq_bind, Option.bind_some, hzip, OrNan.reduceSum_range, OrNan.num_sub, OrNan.abs_num]
  exact congrArg some he

theorem smoothingConstant_weight {e : ℚ} (hfast : k.fast = .num fast) (hslow : k.slow = .num slow) (h0 : Weight fast)
    (h1 : Weight slow) (he : Weight e) : ∃ c, k.smoothingConstant (.num e) = .num c ∧ Weight c := by
  refine ⟨_, ?_, (h0.blend h1 he).mul (h0.blend h1 he)⟩
  rw [smoothingConstant, hfast, hslow]
  rfl

/-- After the values. -/
structure Lags (p fast slow : Nat) (qs : List ℚ) (k : AdaptiveMovingAverage OrNan) : Prop where
  period : k.period = p
  fast : k.fast = .num (rate fast)
  slow : k.slow = .num (rate slow)
  line : Follows p qs k.line
  initialized : k.initialized = decide (p < qs.length)
  prev : p < qs.length → ∃ v, k.prevKama = .num v ∧ Amid qs v

theorem Lags.next {f w : Nat} (h : k.Lags p f w qs) (hp : 0 < p) (hf : 0 < f) (hw : 0 < w)
    (hs : Sourced ((qs ++ [q]).map OrNan.num) source) : ∃ k', k.next source = some k' ∧ k'.Lags p f w (qs ++ [q]) := by
  have hlen : (qs ++ [q]).length = qs.length + 1 := by simp
  unfold AdaptiveMovingAverage.next
  rw [h.period, hs.idxNums]
  split_ifs with hlt
  · refine ⟨_, rfl, rfl, h.fast, h.slow, h.line.snoc_of (fun _ => rfl) fun hle => absurd hlt (by omega), ?_, fun hlate => ?_⟩
    · rw [hlen, h.initialized, decide_eq_decide]
      omega
    · rw [hlen] at hlate
      omega
  · suffices hkama : ∃ v, k.kama source = some (.num v) ∧ Amid (qs ++ [q]) v by
      obtain ⟨v, hv, hamid⟩ := hkama
      rw [hv]
      refine ⟨_, rfl, rfl, h.fast, h.slow, h.line.snoc_of (fun hearly => absurd hearly hlt) fun _ => ⟨v, rfl, hamid⟩, ?_,
        fun _ => ⟨v, rfl, hamid⟩⟩
      rw [hlen, eq_comm, decide_eq_true_iff]
      omega
    by_cases hseed : qs.length = p
    · have hinit : k.initialized = false := by rw [h.initialized, decide_eq_false_iff_not]; omega
      rw [kama, hinit, hs.data, hs.idxNums, h.period]
      exact averageBack_amid hp hseed.ge
    · have hlate : p < qs.length := by omega
      obtain ⟨e, he, hweight⟩ := ratio_weight hs (k := k) (by rw [h.period]; omega)
      obtain ⟨c, hc, hcweight⟩ := smoothingConstant_weight h.fast h.slow (weight_rate hf) (weight_rate hw) hweight
      obtain ⟨v, hv, hamid⟩ := h.prev hlate
      refine ⟨v * (1 - c) + q * c, ?_, ?_⟩
      · rw [kama_eq (h.initialized.trans (decide_eq_true hlate)), hs.currentNums, he]
        simp only [Option.bind_eq_bind, Option.bind_some, hc, hv]
        rfl
      · have hbefore := hamid.mono (List.subset_append_left qs [q])
        exact hbefore.mix (.of_mem (by simp)) hcweight

/-- With the ratio and the part of the way of its last bar. -/
theorem between (hp : 0 < p) {f w : Nat} (hf : 0 < f) (hw : 0 < w) (qs : List ℚ) :
    ∃ l k, overSource AdaptiveMovingAverage.next (.init p f w) (qs.map .num) = some (l, k) ∧ Follows p qs k.line ∧
      (p < qs.length → ∃ e c, k.ratio l = some (.num e) ∧ Weight e ∧ k.smoothingConstant (.num e) = .num c ∧ Weight c) := by
  have hinit : (init p f w : AdaptiveMovingAverage OrNan).Lags p f w [] :=
    ⟨rfl, multiplier_eq f, multiplier_eq w, .nil, rfl, fun h => absurd h (Nat.not_lt_zero p)⟩
  obtain ⟨l, k, hover, hlags⟩ := overSource_nums (fun qs k => Lags p f w qs k) hinit
    (fun qs q l k hs h => h.next hp hf hw hs) qs
  refine ⟨l, k, hover, hlags.line, fun hlt => ?_⟩
  obtain ⟨before, q, rfl⟩ : ∃ before q, qs = before ++ [q] := by
    rcases List.eq_nil_or_concat qs with rfl | ⟨before, q, rfl⟩
    · exact absurd hlt (Nat.not_lt_zero p)
    · exact ⟨before, q, List.concat_eq_append⟩
  rw [List.length_append, List.length_singleton] at hlt
  obtain ⟨e, he, hweight⟩ := ratio_weight (k := k) (overSource_sourced hover) (by rw [hlags.period]; omega)
  obtain ⟨c, hc, hcweight⟩ := smoothingConstant_weight hlags.fast hlags.slow (weight_rate hf) (weight_rate hw) hweight
  exact ⟨e, c, he, hweight, hc, hcweight⟩

end AdaptiveMovingAverage

/-! ### VIDYA -/

namespace VIDYA
variable {d : VIDYA OrNan}

theorem cmo_weight {up down : ℚ} (hu : 0 ≤ up) (hd : 0 ≤ down) : ∃ e, cmo (OrNan.num up) (OrNan.num down) = .num e ∧ Weight e := by
  unfold cmo
  dsimp only
  rw [OrNan.zero_eq, OrNan.num_add, OrNan.num_beq]
  by_cases hzero : up + down = 0
  · exact ⟨0, by simp [hzero], Mixtures.weight_zero⟩
  · refine ⟨|up - down| / (up + down), ?_, Mixtures.weight_div (abs_nonneg _) (Mixtures.abs_sub_le_add hu hd)⟩
    rw [if_neg (by simpa using hzero), OrNan.num_sub, OrNan.num_div hzero, OrNan.abs_num, abs_div, abs_of_nonneg (add_nonneg hu hd)]

/-- The sums of gains and of losses. -/
theorem foldl_addDelta (deltas : List ℚ) {up down : ℚ} (hu : 0 ≤ up) (hd : 0 ≤ down) :
    ∃ up' down', (deltas.map OrNan.num).foldl addDelta (.num up, .num down) = (.num up', .num down') ∧ 0 ≤ up' ∧ 0 ≤ down' := by
  induction deltas generalizing up down with
  | nil => exact ⟨up, down, rfl, hu, hd⟩
  | cons delta deltas ih =>
    rw [List.map_cons, List.foldl_cons, addDelta, OrNan.zero_eq]
    by_cases hpos : 0 < delta
    · rw [if_pos (OrNan.num_lt.2 hpos)]
      exact ih (add_nonneg hu hpos.le) hd
    · rw [if_neg (fun h => hpos (OrNan.num_lt.1 h))]
      exact ih hu (sub_nonneg.2 ((not_lt.1 hpos).trans hd))

theorem momentum_weight (hs : Sourced ((qs ++ [q]).map OrNan.num) source) (hle : d.momentumPeriod ≤ qs.length) :
    ∃ e, d.momentum source = some (.num e) ∧ Weight e := by
  have hdeltas : (List.range d.momentumPeriod).mapM (fun i => do
      let newer ← readBack source.data source.idx i
      let older ← readBack source.data source.idx (i + 1)
      return newer - older) =
      some (((List.range d.momentumPeriod).map fun i => ago (qs ++ [q]) qs.length i - ago (qs ++ [q]) qs.length (i + 1)).map .num) := by
    rw [List.map_map]
    refine Access.mapM_eq_some fun i hi => ?_
    have hlt := List.mem_range.1 hi
    rw [hs.agoNums (by omega), hs.agoNums (by omega)]
    rfl
  obtain ⟨up, down, hfold, hu, hd⟩ := foldl_addDelta
    ((List.range d.momentumPeriod).map fun i => ago (qs ++ [q]) qs.length i - ago (qs ++ [q]) qs.length (i + 1)) le_rfl le_rfl
  obtain ⟨e, he, hweight⟩ := cmo_weight hu hd
  refine ⟨e, ?_, hweight⟩
  rw [momentum, hdeltas, Option.bind_eq_bind, Option.bind_some]
  simp only [OrNan.zero_eq, hfold]
  exact congrArg some he

/-- After the values. -/
structure Lags (p m : Nat) (qs : List ℚ) (d : VIDYA OrNan) : Prop where
  momentumPeriod : d.momentumPeriod = m
  baseAlpha : d.baseAlpha = .num (rate p)
  line : Follows m qs d.line
  initialized : d.initialized = decide (m < qs.length)
  prev : m < qs.length → ∃ v, d.prevVidya = .num v ∧ Amid qs v

theorem Lags.next (h : d.Lags p m qs) (hp : 0 < p) (hs : Sourced ((qs ++ [q]).map OrNan.num) source) :
    ∃ d', d.next source = some d' ∧ d'.Lags p m (qs ++ [q]) := by
  have hlen : (qs ++ [q]).length = qs.length + 1 := by simp
  unfold VIDYA.next
  rw [h.momentumPeriod, hs.idxNums]
  by_cases hlt : qs.length < m
  · rw [if_pos hlt]
    refine ⟨_, rfl, rfl, h.baseAlpha, h.line.snoc_of (fun _ => rfl) fun hle => absurd hlt (by omega), ?_, fun hlate => ?_⟩
    · rw [hlen, h.initialized, decide_eq_decide]
      omega
    · rw [hlen] at hlate
      omega
  · rw [if_neg hlt]
    obtain ⟨e, he, hweight⟩ := momentum_weight hs (d := d) (by rw [h.momentumPeriod]; omega)
    have hread := hs.currentNums
    rw [hs.idxNums] at hread
    rw [he, hread]
    simp only [Option.bind_eq_bind, Option.bind_some]
    suffices hvidya : ∃ v, (if (!d.initialized) = true then OrNan.num q
        else d.baseAlpha * .num e * .num q + (1 - d.baseAlpha * .num e) * d.prevVidya) = .num v ∧ Amid (qs ++ [q]) v by
      obtain ⟨v, hv, hamid⟩ := hvidya
      rw [hv]
      refine ⟨_, rfl, rfl, h.baseAlpha, h.line.snoc_of (fun hearly => absurd hearly hlt) fun _ => ⟨v, rfl, hamid⟩, ?_,
        fun _ => ⟨v, rfl, hamid⟩⟩
      rw [hlen, eq_comm, decide_eq_true_iff]
      omega
    by_cases hseed : qs.length = m
    · have hinit : d.initialized = false := by rw [h.initialized, decide_eq_false_iff_not]; omega
      exact ⟨q, by rw [hinit]; rfl, .of_mem (by simp)⟩
    · have hlate : m < qs.length := by omega
      have hinit : d.initialized = true := h.initialized.trans (decide_eq_true hlate)
      obtain ⟨v, hv, hamid⟩ := h.prev hlate
      have hbefore := hamid.mono (List.subset_append_left qs [q])
      refine ⟨_, ?_, hbefore.mix (.of_mem (show q ∈ qs ++ [q] by simp)) ((weight_rate hp).mul hweight)⟩
      rw [hinit, h.baseAlpha, hv, add_comm (v * (1 - rate p * e)), mul_comm q, mul_comm v]
      rfl

/-- With the ratio and the part of the way of its last bar. -/
theorem between (hp : 0 < p) (hm : 0 < m) (qs : List ℚ) :
    ∃ l d, overSource VIDYA.next (.init p m) (qs.map .num) = some (l, d) ∧ Follows m qs d.line ∧
      (m < qs.length → ∃ e c, d.momentum l = some (.num e) ∧ Weight e ∧ d.baseAlpha * .num e = .num c ∧ Weight c) := by
  have hinit : (init p m : VIDYA OrNan).Lags p m [] := by
    refine ⟨if_neg hm.ne', ?_, .nil, rfl, fun h => absurd h (Nat.not_lt_zero m)⟩
    show 2.0 / (Arith.ofCount (if p = 0 then 1 else p) + 1) = _
    rw [if_neg hp.ne']
    exact multiplier_eq p
  obtain ⟨l, d, hover, hlags⟩ := overSource_nums (fun qs d => Lags p m qs d) hinit (fun qs q l d hs h => h.next hp hs) qs
  refine ⟨l, d, hover, hlags.line, fun hlt => ?_⟩
  obtain ⟨before, q, rfl⟩ : ∃ before q, qs = before ++ [q] := by
    rcases List.eq_nil_or_concat qs with rfl | ⟨before, q, rfl⟩
    · exact absurd hlt (Nat.not_lt_zero m)
    · exact ⟨before, q, List.concat_eq_append⟩
  rw [List.length_append, List.length_singleton] at hlt
  obtain ⟨e, he, hweight⟩ := momentum_weight (d := d) (overSource_sourced hover) (by rw [hlags.momentumPeriod]; omega)
  refine ⟨e, rate p * e, he, hweight, ?_, (weight_rate hp).mul hweight⟩
  rw [hlags.baseAlpha]
  rfl

end VIDYA

end

/-- After any number of bars, so on each of them: the ratio and the part of the way that both averages take from bar `p`
or `m` on are in the unit interval, and what they put out is between the values so far. -/
theorem adaptive_averages_between {p fast slow p' m : Nat} (hp : 0 < p) (hfast : 0 < fast) (hslow : 0 < slow) (hp' : 0 < p')
    (hm : 0 < m) (qs : List ℚ) :
    (∃ l k, overSource AdaptiveMovingAverage.next (.init p fast slow) (qs.map .num) = some (l, k) ∧ Follows p qs k.line ∧
      (p < qs.length → ∃ e c, k.ratio l = some (.num e) ∧ Weight e ∧ k.smoothingConstant (.num e) = .num c ∧ Weight c)) ∧
    ∃ l d, overSource VIDYA.next (.init p' m) (qs.map .num) = some (l, d) ∧ Follows m qs d.line ∧
      (m < qs.length → ∃ e c, d.momentum l = some (.num e) ∧ Weight e ∧ d.baseAlpha * .num e = .num c ∧ Weight c) :=
  ⟨AdaptiveMovingAverage.between hp hfast hslow qs, VIDYA.between hp' hm qs⟩

theorem adaptive_averages_between_three :
    ∃ l k, overSource AdaptiveMovingAverage.next (.init 1 2 30) ([3, 1, 2].map OrNan.num) = some (l, k) ∧
      Follows 1 [3, 1, 2] k.line := by
  obtain ⟨⟨l, k, hover, hline, -⟩, -⟩ := adaptive_averages_between (show 0 < 1 by simp) (show 0 < 2 by simp)
    (show 0 < 30 by simp) Nat.one_pos Nat.one_pos [3, 1, 2]
  exact ⟨l, k, hover, hline⟩

end Indicators
end StratForge
