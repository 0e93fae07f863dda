import Mathlib.Analysis.Real.Sqrt
import Mathlib.Analysis.SpecialFunctions.Log.Basic
import StratForge.Walks

/-!
# The Hurst exponent (`stats/hurst_rs.hpp`, `rolling_hurst_scores` of `stats/rolling_per_bar.hpp`)

Rescaled range analysis: for chunks of 8, 16, 32 and so on, the range of the walk of the deviations from the mean over
their standard deviation, and the slope of its logarithm over that of the size. In exact arithmetic a chunk has a
statistic unless it is constant (`rsChunk_isSome`), between 1 and half of its size (`rsChunk_bounds`), and the same one
in other units (`rsChunk_affine`). So the guards behind the first one, of the standard deviation, of the mean and of the
regression, never fire, and `hurst_scores` says which windows get a score and that the scores do not depend on the units.

A NaN is none, and `sqrt` and `log` are parameters.
-/

namespace StratForge
namespace HurstRs
open Extremes

/-- What is taken from the math library. -/
structure Maths (K : Type) where
  sqrt : K → K
  log : K → K

/-- Sizes that double, as long as they are at most `maxChunk`. -/
def ladder (maxChunk : Nat) : Nat → Nat → List Nat
  | 0, _ => []
  | fuel + 1, s => if s ≤ maxChunk then s :: ladder maxChunk fuel (s * 2) else []

/-- `chunk_sizes`. -/
def chunkSizes (n : Nat) : List Nat := if n < 16 then [] else ladder (n / 2) (n / 2) 8

variable {K : Type} [Field K] [LinearOrder K]

/-- What `rs_chunk` accumulates. -/
structure Deviations (K : Type) where
  cum : K
  cmin : K
  cmax : K
  varSum : K

def Deviations.next (mean : K) (s : Deviations K) (v : K) : Deviations K :=
  let dev := v - mean
  let cum := s.cum + dev
  { cum, cmin := if cum < s.cmin then cum else s.cmin, cmax := if s.cmax < cum then cum else s.cmax,
    varSum := s.varSum + dev * dev }

def rsChunk (m : Maths K) (chunk : List K) : Option K :=
  match chunk with
  | [] => none
  | first :: _ =>
    if chunk.length < 2 then none
    else
      let rawMin := chunk.foldl (fun lo v => if v < lo then v else lo) first
      let rawMax := chunk.foldl (fun hi v => if hi < v then v else hi) first
      if rawMax = rawMin then none
      else
        let mean := chunk.sum / chunk.length
        let s := chunk.foldl (Deviations.next mean) ⟨0, 0, 0, 0⟩
        let range := s.cmax - s.cmin
        let stddev := m.sqrt (s.varSum / chunk.length)
        if 0 < stddev then some (range / stddev) else none

/-- `series.subspan(c * s, s)`. -/
def chunkAt (series : List K) (s c : Nat) : List K := (series.drop (c * s)).take s

/-- The logarithms of a size and of the mean of the statistics that its chunks have. -/
def point (m : Maths K) (series : List K) (s : Nat) : Option (K × K) :=
  let nChunks := series.length / s
  if nChunks < 2 then none
  else
    let rs := (List.range nChunks).filterMap fun c => rsChunk m (chunkAt series s c)
    if rs.length = 0 then none
    else
      let meanRs := rs.sum / rs.length
      if 0 < meanRs then some (m.log s, m.log meanRs) else none

/-- The slope of a least squares line. -/
def slope (points : List (K × K)) : Option K :=
  if points.length < 2 then none
  else
    let meanX := (points.map Prod.fst).sum / points.length
    let meanY := (points.map Prod.snd).sum / points.length
    let sxx := (points.map fun p => (p.1 - meanX) * (p.1 - meanX)).sum
    let sxy := (points.map fun p => (p.1 - meanX) * (p.2 - meanY)).sum
    if 0 < sxx then some (sxy / sxx) else none

def hurstRs (m : Maths K) (series : List K) : Option K :=
  let sizes := chunkSizes series.length
  if sizes.length < 2 then none else slope (sizes.filterMap (point m series))

/-- The turn of the loop that ends a window before bar `i`. -/
def scoreAt (m : Maths K) (series : List K) (lookback : Nat) (scores : List K) (i : Nat) : List K :=
  let window := (series.drop (i - lookback)).take lookback
  match slope ((chunkSizes lookback).filterMap (point m window)) with
  | none => scores
  | some h => scores.set (i - 1) h

/-- `rolling_hurst_scores`. -/
def rollingHurstScores (m : Maths K) (series : List K) (lookback : Nat) : List K :=
  let n := series.length
  let scores := List.replicate n 0.5
  if n < lookback ∨ lookback < 16 then scores
  else if (chunkSizes lookback).length < 2 then scores
  else (List.range' lookback (n + 1 - lookback)).foldl (scoreAt m series lookback) scores

/-! ### The sizes -/

theorem ladder_spec (maxChunk fuel : Nat) {s : Nat} (hs : 0 < s) :
    (ladder maxChunk fuel s).Pairwise (· < ·) ∧ ∀ x ∈ ladder maxChunk fuel s, s ≤ x ∧ x ≤ maxChunk := by
  induction fuel generalizing s with
  | zero => exact ⟨.nil, by simp [ladder]⟩
  | succ fuel ih =>
    obtain ⟨hpair, hmem⟩ := ih (s := s * 2) (by omega)
    unfold ladder
    split_ifs with hle
    · refine ⟨List.pairwise_cons.2 ⟨fun x hx => ?_, hpair⟩, fun x hx => ?_⟩
      · have := (hmem x hx).1
        omega
      · rcases List.mem_cons.1 hx with rfl | hx
        · exact ⟨le_rfl, hle⟩
        · have := hmem x hx
          omega
    · exact ⟨.nil, by simp⟩

theorem chunkSizes_spec (n : Nat) : (chunkSizes n).Pairwise (· < ·) ∧ ∀ s ∈ chunkSizes n, 8 ≤ s ∧ 2 * s ≤ n := by
  unfold chunkSizes
  split_ifs
  · exact ⟨.nil, by simp⟩
  · obtain ⟨hpair, hmem⟩ := ladder_spec (n / 2) (n / 2) (show 0 < 8 by simp)
    refine ⟨hpair, fun s hs => ?_⟩
    have := hmem s hs
    omega

theorem ladder_of_lt {maxChunk s : Nat} (h : maxChunk < s) (fuel : Nat) : ladder maxChunk fuel s = [] := by
  cases fuel with
  | zero => rfl
  | succ fuel => exact if_neg (Nat.not_le.2 h)

/-- Below 32 samples there are no two sizes. -/
theorem length_chunkSizes {n : Nat} (h : n < 32) : (chunkSizes n).length < 2 := by
  have hhalf : n / 2 < 8 * 2 := by omega
  unfold chunkSizes
  generalize n / 2 = half at hhalf ⊢
  split_ifs
  · simp
  · cases half with
    | zero => simp [ladder]
    | succ half =>
      unfold ladder
      rw [ladder_of_lt hhalf]
      split_ifs <;> simp

/-- A size that does not exceed half of the samples leaves room for two chunks, and every chunk is a whole one. -/
theorem two_le_chunks {n s : Nat} (hs : s ∈ chunkSizes n) : 2 ≤ n / s := by
  obtain ⟨hpos, hle⟩ := (chunkSizes_spec n).2 s hs
  exact (Nat.le_div_iff_mul_le (by omega)).2 hle

/-! ### One chunk -/

/-- The chunk moves. -/
def Varies (chunk : List K) : Prop := ∃ x ∈ chunk, ∃ y ∈ chunk, x ≠ y

/-- Exact arithmetic. -/
structure Maths.Exact (m : Maths K) : Prop where
  sqrt_nonneg : ∀ x, 0 ≤ m.sqrt x
  sqrt_mul_self : ∀ x, 0 ≤ x → m.sqrt x * m.sqrt x = x
  log_injective : ∀ x y, 0 < x → 0 < y → m.log x = m.log y → x = y

variable {m : Maths K} {chunk : List K}

/-- The deviations from the mean. -/
def deviations (chunk : List K) : List K := chunk.map (· - chunk.sum / chunk.length)

omit [LinearOrder K] in
theorem sum_deviations [CharZero K] (hne : chunk ≠ []) : (deviations chunk).sum = 0 := by
  have hlen : (chunk.length : K) ≠ 0 := by simpa using hne
  have hsum : ∀ (c : K) (l : List K), (l.map (· - c)).sum = l.sum - l.length * c := by
    intro c l
    induction l with
    | nil => simp
    | cons x l ih =>
      rw [List.map_cons, List.sum_cons, ih, List.sum_cons, List.length_cons]
      push_cast
      ring
  rw [deviations, hsum, mul_div_cancel₀ _ hlen, sub_self]

/-- The loop of `rs_chunk` walks along the deviations. -/
theorem foldl_next (mean : K) (l : List K) :
    let s := l.foldl (Deviations.next mean) ⟨0, 0, 0, 0⟩
    let ds := l.map (· - mean)
    s.cum = ds.sum ∧ s.varSum = Walk.squares ds ∧ Walk.Spans ds s.cmin s.cmax := by
  induction l using List.reverseRecOn with
  | nil => exact ⟨rfl, rfl, .nil⟩
  | append_singleton l v ih =>
    obtain ⟨hcum, hvar, hspans⟩ := ih
    have hcum' : (l.foldl (Deviations.next mean) ⟨0, 0, 0, 0⟩).cum + (v - mean) = (l.map (· - mean) ++ [v - mean]).sum := by
      rw [hcum, List.sum_append, List.sum_singleton]
    dsimp only
    rw [List.foldl_append, List.map_append, List.map_singleton]
    refine ⟨hcum', ?_, ?_⟩
    · rw [Walk.squares_concat, ← hvar]
      rfl
    · have hnext := hspans.concat (v - mean)
      rw [← hcum'] at hnext
      exact hnext

omit [Field K] in
theorem extreme_foldl {up : Bool} {e : K} {xs : List K} (h : Extreme up e xs) (l : List K) :
    Extreme up (l.foldl (fun e v => if Beyond up e v then v else e) e) (xs ++ l) := by
  induction l using List.reverseRecOn with
  | nil => rwa [List.append_nil]
  | append_singleton l v ih =>
    rw [List.foldl_append, ← List.append_assoc]
    exact ih.snoc v

omit [Field K] in
/-- The guard of the raw values: they are all the same. -/
theorem raw_eq_iff (first : K) (rest : List K) :
    (first :: rest).foldl (fun hi v => if hi < v then v else hi) first =
      (first :: rest).foldl (fun lo v => if v < lo then v else lo) first ↔ ¬ Varies (first :: rest) := by
  have hhi : Extreme true ((first :: rest).foldl (fun hi v => if hi < v then v else hi) first) (first :: first :: rest) :=
    extreme_foldl (.singleton true first) (first :: rest)
  have hlo : Extreme false ((first :: rest).foldl (fun lo v => if v < lo then v else lo) first) (first :: first :: rest) := by
    have hfold := extreme_foldl (.singleton false first) (first :: rest)
    simp only [beyond_down] at hfold
    exact hfold
  have hle : ∀ x ∈ first :: first :: rest, x ≤ _ := fun x hx => not_lt.1 (hhi.last x hx)
  have hge : ∀ x ∈ first :: first :: rest, _ ≤ x := fun x hx => not_lt.1 (beyond_down.not.1 (hlo.last x hx))
  constructor
  · rintro heq ⟨x, hx, y, hy, hne⟩
    have hx := List.mem_cons_of_mem first hx
    have hy := List.mem_cons_of_mem first hy
    exact hne (le_antisymm ((hle x hx).trans (heq.le.trans (hge y hy))) ((hle y hy).trans (heq.le.trans (hge x hx))))
  · intro hsame
    have hmem : ∀ x ∈ first :: first :: rest, x ∈ first :: rest := fun x hx => by simpa using hx
    by_contra hne
    exact hsame ⟨_, hmem _ hhi.mem, _, hmem _ hlo.mem, hne⟩

variable [IsStrictOrderedRing K]

theorem varies_deviation (h : Varies chunk) : ∃ d ∈ deviations chunk, d ≠ 0 := by
  obtain ⟨x, hx, y, hy, hne⟩ := h
  by_cases hzero : x - chunk.sum / chunk.length = 0
  · refine ⟨_, List.mem_map_of_mem hy, fun h => hne ?_⟩
    linarith
  · exact ⟨_, List.mem_map_of_mem hx, hzero⟩

omit [Field K] [LinearOrder K] [IsStrictOrderedRing K] in
theorem Varies.length (h : Varies chunk) : 2 ≤ chunk.length := by
  obtain ⟨x, hx, y, hy, hne⟩ := h
  by_contra hshort
  have hle : chunk.length ≤ 1 := by omega
  obtain ⟨i, hi, rfl⟩ := List.getElem_of_mem hx
  obtain ⟨j, hj, rfl⟩ := List.getElem_of_mem hy
  obtain rfl : i = j := by omega
  exact hne rfl

/-- The statistic of a chunk that moves: the range of the walk over the root of its mean square. -/
theorem rsChunk_eq (hm : m.Exact) (h : Varies chunk) : ∃ lo hi, Walk.Spans (deviations chunk) lo hi ∧
    0 < m.sqrt (Walk.squares (deviations chunk) / chunk.length) ∧
    rsChunk m chunk = some ((hi - lo) / m.sqrt (Walk.squares (deviations chunk) / chunk.length)) := by
  have hlen := h.length
  cases chunk with
  | nil => simp at hlen
  | cons first rest =>
    obtain ⟨-, hvar, hspans⟩ := foldl_next ((first :: rest).sum / (first :: rest).length) (first :: rest)
    obtain ⟨d, hd, hne⟩ := varies_deviation h
    have hpos : 0 < Walk.squares (deviations (first :: rest)) / ((first :: rest).length : K) :=
      div_pos (Walk.squares_pos hd hne) (by exact_mod_cast (show 0 < (first :: rest).length by omega))
    have hroot : 0 < m.sqrt (Walk.squares (deviations (first :: rest)) / ((first :: rest).length : K)) := by
      refine lt_of_le_of_ne (hm.sqrt_nonneg _) fun hzero => hpos.ne ?_
      rw [← hm.sqrt_mul_self _ hpos.le, ← hzero, mul_zero]
    refine ⟨_, _, hspans, hroot, ?_⟩
    unfold rsChunk
    dsimp only
    rw [if_neg (by omega), if_neg fun heq => (raw_eq_iff first rest).1 heq h, hvar]
    exact if_pos hroot

omit [IsStrictOrderedRing K] in
theorem rsChunk_of_not_varies (h : ¬ Varies chunk) : rsChunk m chunk = none := by
  cases chunk with
  | nil => rfl
  | cons first rest =>
    unfold rsChunk
    dsimp only
    rw [if_pos ((raw_eq_iff first rest).2 h)]
    split_ifs <;> rfl

theorem rsChunk_isSome (hm : m.Exact) : (rsChunk m chunk).isSome ↔ Varies chunk := by
  by_cases h : Varies chunk
  · obtain ⟨lo, hi, -, -, heq⟩ := rsChunk_eq hm h
    simp [heq, h]
  · simp [rsChunk_of_not_varies h, h]

/-- The statistic lies between 1 and half of the size of the chunk. -/
theorem rsChunk_bounds (hm : m.Exact) {r : K} (hr : rsChunk m chunk = some r) : 1 ≤ r ∧ 2 * r ≤ chunk.length := by
  have hvaries := (rsChunk_isSome hm).1 (Option.isSome_of_eq_some hr)
  obtain ⟨lo, hi, hspans, hroot, heq⟩ := rsChunk_eq hm hvaries
  generalize hsd : m.sqrt (Walk.squares (deviations chunk) / chunk.length) = sd at hroot heq
  obtain rfl : r = (hi - lo) / sd := Option.some.inj (hr.symm.trans heq)
  have hlen : (0 : K) < chunk.length := by exact_mod_cast (Nat.zero_lt_two.trans_le hvaries.length)
  have hsquares : Walk.squares (deviations chunk) = chunk.length * (sd * sd) := by
    rw [← hsd, hm.sqrt_mul_self _ (div_nonneg (Walk.squares_nonneg _) hlen.le)]
    field_simp
  have hclosed : (deviations chunk).sum = 0 := sum_deviations (List.ne_nil_of_length_pos (Nat.zero_lt_two.trans_le hvaries.length))
  have hlength : ((deviations chunk).length : K) = chunk.length := by rw [deviations, List.length_map]
  have hrange : 0 ≤ hi - lo := by
    obtain ⟨d, hd, -⟩ := varies_deviation hvaries
    exact (abs_nonneg d).trans (Walk.abs_le_range hspans hd)
  constructor
  · have hle := Walk.squares_le hspans
    rw [hsquares, hlength, mul_le_mul_iff_right₀ hlen, ← sq] at hle
    rw [one_le_div hroot]
    exact le_of_sq_le_sq hle hrange
  · have hle := Walk.range_sq_le hspans hclosed
    rw [hsquares, hlength, show (chunk.length : K) * (chunk.length * (sd * sd)) = (chunk.length * sd) ^ 2 by ring] at hle
    have := le_of_sq_le_sq hle (mul_nonneg hlen.le hroot.le)
    rw [← mul_div_assoc, div_le_iff₀ hroot]
    exact this

/-! ### Other units -/

theorem sqrt_scale (hm : m.Exact) (a : K) {v : K} (hv : 0 ≤ v) : m.sqrt (a * a * v) = |a| * m.sqrt v := by
  have hnonneg : 0 ≤ a * a * v := mul_nonneg (mul_self_nonneg a) hv
  refine (mul_self_inj (hm.sqrt_nonneg _) (mul_nonneg (abs_nonneg a) (hm.sqrt_nonneg v))).1 ?_
  rw [hm.sqrt_mul_self _ hnonneg, mul_mul_mul_comm, hm.sqrt_mul_self v hv, abs_mul_abs_self]

/-- The same chunk in other units. -/
def affine (a b : K) (chunk : List K) : List K := chunk.map (a * · + b)

omit [LinearOrder K] [IsStrictOrderedRing K] in
@[simp] theorem length_affine (a b : K) (chunk : List K) : (affine a b chunk).length = chunk.length := List.length_map ..

omit [LinearOrder K] [IsStrictOrderedRing K] in
theorem sum_affine (a b : K) (l : List K) : (affine a b l).sum = a * l.sum + l.length * b := by
  induction l with
  | nil => simp [affine]
  | cons x l ih =>
    have ih : (l.map (a * · + b)).sum = a * l.sum + l.length * b := ih
    rw [affine, List.map_cons, List.sum_cons, ih, List.sum_cons, List.length_cons]
    push_cast
    ring

/-- The units of the differences are the only ones left. -/
theorem deviations_affine (a b : K) (hne : chunk ≠ []) : deviations (affine a b chunk) = (deviations chunk).map (a * ·) := by
  have hlen : (chunk.length : K) ≠ 0 := by simpa using hne
  rw [deviations, deviations, sum_affine, length_affine, affine, List.map_map, List.map_map]
  refine List.map_congr_left fun x _ => ?_
  simp only [Function.comp_apply]
  field_simp
  ring

omit [LinearOrder K] [IsStrictOrderedRing K] in
theorem varies_affine {a : K} (ha : a ≠ 0) (b : K) : Varies (affine a b chunk) ↔ Varies chunk := by
  constructor
  · rintro ⟨_, hx', _, hy', hne⟩
    obtain ⟨x, hx, rfl⟩ := List.mem_map.1 hx'
    obtain ⟨y, hy, rfl⟩ := List.mem_map.1 hy'
    exact ⟨x, hx, y, hy, fun h => hne (by rw [h])⟩
  · rintro ⟨x, hx, y, hy, hne⟩
    refine ⟨a * x + b, List.mem_map_of_mem hx, a * y + b, List.mem_map_of_mem hy, fun h => hne ?_⟩
    exact mul_left_cancel₀ ha (add_right_cancel h)

/-- The range and the deviation scale by the same number, also where the scale turns the walk upside down. -/
theorem rsChunk_affine (hm : m.Exact) {a : K} (ha : a ≠ 0) (b : K) : rsChunk m (affine a b chunk) = rsChunk m chunk := by
  by_cases h : Varies chunk
  · have hne : chunk ≠ [] := List.ne_nil_of_length_pos (Nat.zero_lt_two.trans_le h.length)
    obtain ⟨lo, hi, hspans, hroot, heq⟩ := rsChunk_eq hm h
    obtain ⟨lo', hi', hspans', -, heq'⟩ := rsChunk_eq hm ((varies_affine ha b).2 h)
    obtain ⟨lo'', hi'', hspans'', hscale⟩ := hspans.scale ha
    rw [deviations_affine a b hne] at hspans' heq'
    obtain ⟨rfl, rfl⟩ := hspans'.unique hspans''
    have hmean : 0 ≤ Walk.squares (deviations chunk) / chunk.length :=
      div_nonneg (Walk.squares_nonneg _) (Nat.cast_nonneg _)
    rw [heq', heq, hscale, Walk.squares_scale, length_affine, mul_div_assoc (a * a), sqrt_scale hm a hmean,
      mul_div_mul_left _ _ (abs_ne_zero.2 ha)]
  · rw [rsChunk_of_not_varies h, rsChunk_of_not_varies (fun h' => h ((varies_affine ha b).1 h'))]

omit [LinearOrder K] [IsStrictOrderedRing K] in
theorem chunkAt_affine (a b : K) (series : List K) (s c : Nat) :
    chunkAt (affine a b series) s c = affine a b (chunkAt series s c) := by
  rw [chunkAt, chunkAt, affine, affine, List.map_take, List.map_drop]

theorem point_affine (hm : m.Exact) {a : K} (ha : a ≠ 0) (b : K) (series : List K) (s : Nat) :
    point m (affine a b series) s = point m series s := by
  simp only [point, length_affine, chunkAt_affine, rsChunk_affine hm ha]

/-! ### Which windows have an exponent -/

/-- Some chunk of this size moves. -/
def Moves (series : List K) (s : Nat) : Prop := ∃ c < series.length / s, Varies (chunkAt series s c)

theorem point_isSome (hm : m.Exact) {series : List K} {s : Nat} (hs : s ∈ chunkSizes series.length) :
    (point m series s).isSome ↔ Moves series s := by
  have hchunks := two_le_chunks hs
  unfold point
  dsimp only
  rw [if_neg (by omega)]
  generalize hrs : (List.range (series.length / s)).filterMap (fun c => rsChunk m (chunkAt series s c)) = rs
  have hmem : ∀ r, r ∈ rs ↔ ∃ c < series.length / s, rsChunk m (chunkAt series s c) = some r := by
    intro r
    rw [← hrs, List.mem_filterMap]
    simp only [List.mem_range]
  have hmoves : Moves series s ↔ rs ≠ [] := by
    constructor
    · rintro ⟨c, hc, hvaries⟩
      obtain ⟨r, hr⟩ := Option.isSome_iff_exists.1 ((rsChunk_isSome hm).2 hvaries)
      exact List.ne_nil_of_mem ((hmem r).2 ⟨c, hc, hr⟩)
    · intro hne
      obtain ⟨r, hr⟩ := List.exists_mem_of_ne_nil rs hne
      obtain ⟨c, hc, hr⟩ := (hmem r).1 hr
      exact ⟨c, hc, (rsChunk_isSome hm).1 (Option.isSome_of_eq_some hr)⟩
  rw [hmoves]
  by_cases hne : rs = []
  · simp [hne]
  · -- every statistic is positive, so their mean is
    have hlen : 0 < rs.length := List.length_pos_of_ne_nil hne
    have hsum : 0 < rs.sum := by
      refine List.sum_pos _ (fun r hr => ?_) hne
      obtain ⟨c, -, hr⟩ := (hmem r).1 hr
      exact zero_lt_one.trans_le (rsChunk_bounds hm hr).1
    have hmean : 0 < rs.sum / rs.length := div_pos hsum (by exact_mod_cast hlen)
    simp [hne, hmean]

omit [IsStrictOrderedRing K] in
/-- The first coordinate is the logarithm of the size. -/
theorem point_fst {series : List K} {s : Nat} {p : K × K} (h : point m series s = some p) : p.1 = m.log s := by
  unfold point at h
  dsimp only at h
  split_ifs at h
  cases h
  rfl

/-- Points over different logarithms always have a line. -/
theorem slope_isSome {points : List (K × K)} (h : (points.map Prod.fst).Nodup) :
    (slope points).isSome ↔ 2 ≤ points.length := by
  unfold slope
  dsimp only
  split_ifs with hlen hsxx
  · simp
    omega
  · simp
    omega
  · exfalso
    refine hsxx ?_
    have hvaries : Varies (points.map Prod.fst) := by
      rcases points with _ | ⟨p, _ | ⟨q, rest⟩⟩
      · simp at hlen
      · simp at hlen
      · refine ⟨p.1, by simp, q.1, by simp, fun heq => ?_⟩
        simp [heq] at h
    obtain ⟨d, hd, hne⟩ := varies_deviation hvaries
    have hpos := Walk.squares_pos hd hne
    rw [Walk.squares, deviations, List.map_map, List.map_map, List.length_map] at hpos
    exact hpos

theorem nodup_logs (hm : m.Exact) (series : List K) :
    (((chunkSizes series.length).filterMap (point m series)).map Prod.fst).Nodup := by
  obtain ⟨hpair, hbound⟩ := chunkSizes_spec series.length
  have hpos : ∀ s ∈ chunkSizes series.length, (0 : K) < s := fun s hs => by
    have := (hbound s hs).1
    exact_mod_cast (show 0 < s by omega)
  rw [List.Nodup, List.pairwise_map, List.pairwise_filterMap]
  refine hpair.imp_of_mem fun {s s'} hs hs' hlt p hp p' hp' heq => hlt.ne ?_
  rw [point_fst hp, point_fst hp'] at heq
  exact Nat.cast_injective (hm.log_injective _ _ (hpos s hs) (hpos s' hs') heq)

theorem two_le_length_filterMap {B : Type} {f : Nat → Option B} {l : List Nat} (h : l.Pairwise (· < ·)) :
    2 ≤ (l.filterMap f).length ↔ ∃ x ∈ l, ∃ y ∈ l, x < y ∧ (f x).isSome ∧ (f y).isSome := by
  induction l with
  | nil => simp
  | cons x l ih =>
    obtain ⟨hfirst, hl⟩ := List.pairwise_cons.1 h
    cases hx : f x with
    | none =>
      rw [List.filterMap_cons_none hx, ih hl]
      simp [hx]
    | some b =>
      rw [List.filterMap_cons_some hx, List.length_cons, Nat.succ_le_succ_iff, Nat.succ_le_iff,
        List.length_filterMap_pos_iff]
      constructor
      · rintro ⟨y, hy, hsome⟩
        exact ⟨x, List.mem_cons_self, y, List.mem_cons_of_mem x hy, hfirst y hy, by simp [hx], Option.isSome_iff_exists.2 hsome⟩
      · rintro ⟨x', hx', y, hy, hlt, -, hsome⟩
        rcases List.mem_cons.1 hy with rfl | hy
        · rcases List.mem_cons.1 hx' with rfl | hx'
          · omega
          · have := hfirst x' hx'
            omega
        · exact ⟨y, hy, Option.isSome_iff_exists.1 hsome⟩

/-- Two sizes have a chunk that moves. -/
theorem hurstRs_isSome (hm : m.Exact) (series : List K) : (hurstRs m series).isSome ↔
    ∃ s ∈ chunkSizes series.length, ∃ s' ∈ chunkSizes series.length, s < s' ∧ Moves series s ∧ Moves series s' := by
  have hpoints : 2 ≤ ((chunkSizes series.length).filterMap (point m series)).length ↔
      ∃ s ∈ chunkSizes series.length, ∃ s' ∈ chunkSizes series.length, s < s' ∧ Moves series s ∧ Moves series s' := by
    rw [two_le_length_filterMap (chunkSizes_spec series.length).1]
    constructor
    · rintro ⟨s, hs, s', hs', hlt, hp, hp'⟩
      exact ⟨s, hs, s', hs', hlt, (point_isSome hm hs).1 hp, (point_isSome hm hs').1 hp'⟩
    · rintro ⟨s, hs, s', hs', hlt, hp, hp'⟩
      exact ⟨s, hs, s', hs', hlt, (point_isSome hm hs).2 hp, (point_isSome hm hs').2 hp'⟩
  rw [← hpoints]
  have hle : ((chunkSizes series.length).filterMap (point m series)).length ≤ (chunkSizes series.length).length :=
    List.length_filterMap_le ..
  unfold hurstRs
  dsimp only
  split_ifs with hfew
  · simp
    omega
  · exact slope_isSome (nodup_logs hm series)

omit [IsStrictOrderedRing K] in
/-- The documentation says 16 samples. -/
theorem hurstRs_short {series : List K} (h : series.length < 32) : hurstRs m series = none := if_pos (length_chunkSizes h)

theorem hurstRs_affine (hm : m.Exact) {a : K} (ha : a ≠ 0) (b : K) (series : List K) :
    hurstRs m (affine a b series) = hurstRs m series := by
  simp only [hurstRs, length_affine, point_affine hm ha]

/-! ### The scores -/

/-- The window of `lookback` values that ends at bar `t`. -/
def window (series : List K) (lookback t : Nat) : List K := (series.drop (t + 1 - lookback)).take lookback

omit [LinearOrder K] [IsStrictOrderedRing K] in
theorem window_affine (a b : K) (series : List K) (lookback t : Nat) :
    window (affine a b series) lookback t = affine a b (window series lookback t) := by
  rw [window, window, affine, affine, List.map_take, List.map_drop]

omit [Field K] [LinearOrder K] [IsStrictOrderedRing K] in
theorem length_window {series : List K} {lookback t : Nat} (hle : lookback ≤ t + 1) (ht : t < series.length) :
    (window series lookback t).length = lookback := by
  rw [window, List.length_take, List.length_drop]
  omega

/-- The score of bar `t`: the exponent of the window that ends there, one half where it has none. -/
def score (m : Maths K) (series : List K) (lookback t : Nat) : K :=
  if lookback ≤ t + 1 then (hurstRs m (window series lookback t)).getD 0.5 else 0.5

omit [IsStrictOrderedRing K] in
/-- A turn of the loop writes the entry of its own bar only. -/
theorem foldl_scoreAt (series : List K) {lookback : Nat} (hsizes : 2 ≤ (chunkSizes lookback).length) (hpos : 0 < lookback)
    {count : Nat} (hcount : lookback + count ≤ series.length + 1) :
    (List.range' lookback count).foldl (scoreAt m series lookback) (List.replicate series.length 0.5) =
      (List.range series.length).map fun t => if t + 1 < lookback + count then score m series lookback t else 0.5 := by
  induction count with
  | zero =>
    rw [List.range'_zero, List.foldl_nil]
    refine List.ext_getElem (by simp) fun t ht ht' => ?_
    rw [List.getElem_replicate, List.getElem_map, List.getElem_range, score]
    split_ifs <;> first | rfl | omega
  | succ count ih =>
    rw [List.range'_1_concat, List.foldl_append, ih (by omega), List.foldl_cons, List.foldl_nil, scoreAt]
    have hwindow : (series.drop (lookback + count - lookback)).take lookback = window series lookback (lookback + count - 1) := by
      rw [window]
      congr 3
      omega
    have hlength : (window series lookback (lookback + count - 1)).length = lookback :=
      length_window (by omega) (by omega)
    have hscore : slope ((chunkSizes lookback).filterMap (point m (window series lookback (lookback + count - 1)))) =
        hurstRs m (window series lookback (lookback + count - 1)) := by
      rw [hurstRs, hlength]
      exact (if_neg (Nat.not_lt.2 hsizes)).symm
    rw [hwindow, hscore]
    have hself : score m series lookback (lookback + count - 1) =
        (hurstRs m (window series lookback (lookback + count - 1))).getD 0.5 := if_pos (by omega)
    cases hexp : hurstRs m (window series lookback (lookback + count - 1)) with
    | none =>
      refine List.map_congr_left fun t ht => ?_
      by_cases hlast : t = lookback + count - 1
      · rw [if_neg (by omega), if_pos (by omega), hlast, hself, hexp]
        rfl
      · congr 1
        refine propext ⟨?_, ?_⟩ <;> omega
    | some h =>
      refine List.ext_getElem (by simp) fun t ht ht' => ?_
      rw [List.getElem_set]
      simp only [List.getElem_map, List.getElem_range]
      by_cases hlast : lookback + count - 1 = t
      · rw [if_pos hlast, if_pos (by omega), ← hlast, hself, hexp]
        rfl
      · rw [if_neg hlast]
        congr 1
        refine propext ⟨?_, ?_⟩ <;> omega

omit [IsStrictOrderedRing K] in
/-- The rolling scores are the batch exponents of the windows. -/
theorem rollingHurstScores_eq (series : List K) (lookback : Nat) :
    rollingHurstScores m series lookback = (List.range series.length).map (score m series lookback) := by
  have hhalf : (∀ t < series.length, score m series lookback t = 0.5) →
      List.replicate series.length (0.5 : K) = (List.range series.length).map (score m series lookback) := by
    intro h
    refine List.ext_getElem (by simp) fun t ht ht' => ?_
    rw [List.getElem_replicate, List.getElem_map, List.getElem_range, h t (by simpa using ht)]
  have hnone : ∀ t < series.length, (chunkSizes lookback).length < 2 → score m series lookback t = 0.5 := by
    intro t ht hfew
    unfold score
    split_ifs with hle
    · have : hurstRs m (window series lookback t) = none := by
        rw [hurstRs, length_window hle ht]
        exact if_pos hfew
      rw [this]
      rfl
    · rfl
  unfold rollingHurstScores
  dsimp only
  split_ifs with hshort hfew
  · refine hhalf fun t ht => ?_
    rcases hshort with hlong | hsmall
    · exact if_neg (by omega)
    · exact hnone t ht (length_chunkSizes (by omega))
  · exact hhalf fun t ht => hnone t ht hfew
  · push Not at hshort hfew
    rw [foldl_scoreAt series hfew (by omega) (by omega)]
    refine List.map_congr_left fun t ht => ?_
    rw [List.mem_range] at ht
    exact if_pos (by omega)

theorem score_affine (hm : m.Exact) {a : K} (ha : a ≠ 0) (b : K) (series : List K) (lookback t : Nat) :
    score m (affine a b series) lookback t = score m series lookback t := by
  rw [score, score, window_affine, hurstRs_affine hm ha]

end HurstRs
open HurstRs

/-- The rolling scores are the exponents of the windows. A window has one when two of its sizes have a chunk that moves,
so from 32 values on; every statistic behind it lies between 1 and half of the size; and other units, also a change of
sign, give the same scores. -/
theorem hurst_scores {K : Type} [Field K] [LinearOrder K] [IsStrictOrderedRing K] (m : Maths K) (hm : m.Exact)
    (series : List K) (lookback : Nat) :
    rollingHurstScores m series lookback =
        (List.range series.length).map (fun t =>
          if lookback ≤ t + 1 then (hurstRs m ((series.drop (t + 1 - lookback)).take lookback)).getD 0.5 else 0.5) ∧
      ((hurstRs m series).isSome ↔ ∃ s ∈ chunkSizes series.length, ∃ s' ∈ chunkSizes series.length, s < s' ∧
        Moves series s ∧ Moves series s') ∧
      ((hurstRs m series).isSome → 32 ≤ series.length) ∧
      (∀ r, rsChunk m series = some r → 1 ≤ r ∧ 2 * r ≤ series.length) ∧
      ∀ a b, a ≠ 0 → hurstRs m (affine a b series) = hurstRs m series ∧
        rollingHurstScores m (affine a b series) lookback = rollingHurstScores m series lookback := by
  refine ⟨rollingHurstScores_eq series lookback, hurstRs_isSome hm series, fun h => ?_, fun r => rsChunk_bounds hm,
    fun a b ha => ⟨hurstRs_affine hm ha b series, ?_⟩⟩
  · by_contra hshort
    simp [hurstRs_short (Nat.not_le.1 hshort)] at h
  · rw [rollingHurstScores_eq, rollingHurstScores_eq, length_affine]
    exact List.map_congr_left fun t _ => score_affine hm ha b series lookback t

namespace HurstRs

noncomputable def realMaths : Maths ℝ where
  sqrt := Real.sqrt
  log := Real.log

theorem realMaths_exact : realMaths.Exact where
  sqrt_nonneg := Real.sqrt_nonneg
  sqrt_mul_self _ := Real.mul_self_sqrt
  log_injective _ _ := fun hx hy => Real.log_injOn_pos hx hy

/-- A price that rises by one a bar. -/
def ramp : List ℝ := (List.range 32).map Nat.cast

theorem ramp_moves {s : Nat} (hs : 2 ≤ s) (hle : s ≤ 16) : Moves ramp s := by
  have hmem : ∀ n < s, (n : ℝ) ∈ chunkAt ramp s 0 := by
    intro n hn
    rw [chunkAt, Nat.zero_mul, List.drop_zero, ramp, ← List.map_take, List.take_range, Nat.min_eq_left (by omega)]
    exact List.mem_map_of_mem (List.mem_range.2 hn)
  refine ⟨0, ?_, _, hmem 0 (by omega), _, hmem 1 (by omega), by simp⟩
  rw [ramp, List.length_map, List.length_range]
  exact Nat.div_pos (by omega) (by omega)

end HurstRs

/-- The first full window has an exponent, the price upside down the same scores. -/
theorem hurst_scores_ramp : (hurstRs realMaths ramp).isSome ∧
    (∀ r, rsChunk realMaths ramp = some r → 2 * r ≤ 32) ∧
    rollingHurstScores realMaths (affine (-2) 5 ramp) 32 = rollingHurstScores realMaths ramp 32 := by
  obtain ⟨-, hsome, -, hbounds, haffine⟩ := hurst_scores realMaths realMaths_exact ramp 32
  have hlen : ramp.length = 32 := by simp [ramp]
  rw [hlen] at hsome hbounds
  refine ⟨hsome.2 ⟨8, by decide, 16, by decide, by simp, ramp_moves (by simp) (by simp), ramp_moves (by simp) (by simp)⟩,
    fun r hr => by exact_mod_cast (hbounds r hr).2, (haffine (-2) 5 (by norm_num)).2⟩

end StratForge
