import Mathlib.Algebra.BigOperators.Group.List.Basic
import StratForge.Access
import StratForge.Extremes
import StratForge.PopFeatures

/-!
# Reductions by batches (`simd/simd_ops.hpp`)

The vector path takes the data `size` values at a time and the rest one by one. With what the lanes of `xsimd` are
documented to do it returns what the scalar path returns, and reads nothing outside of the data (`reductions_agree`):
an access outside would make the result none.
-/

namespace StratForge
namespace Simd

section
variable {α : Type} [Arith α]

/-! ### The scalar path -/

namespace Scalar

/-- `reduce_min` and `reduce_max`, where `better x result` says when a value replaces the result. -/
def reduceBest (better : α → α → Bool) : List α → α
  | [] => 0
  | x :: xs => xs.foldl (fun result x => if better x result then x else result) x

def reduceMin : List α → α := reduceBest fun x result => decide (x < result)

def reduceMax : List α → α := reduceBest fun x result => decide (result < x)

end Scalar

/-! ### The vector path -/

/-- An instruction set of `xsimd`: how many lanes a batch has, and its horizontal reductions. -/
structure Arch (α : Type) where
  size : Nat
  size_pos : 0 < size
  reduceAdd : List α → α
  reduceMin : List α → α
  reduceMax : List α → α

/-- `load_unaligned(&data[i])`. -/
def load (a : Arch α) (data : List α) (i : Nat) : Option (List α) := (List.range a.size).mapM fun l => data[i + l]?

/-- `for (; i < vec_end; i += bs)`, with where it leaves `i`. -/
def batches {σ : Type} (a : Arch α) (vecEnd : Nat) (body : σ → Nat → Option σ) (i : Nat) (s : σ) : Option (σ × Nat) :=
  if i < vecEnd then do
    let s ← body s i
    batches a vecEnd body (i + a.size) s
  else some (s, i)
termination_by vecEnd - i
decreasing_by
  have hpos := a.size_pos
  omega

/-- `for (; i < count; ++i)`. -/
def tail {σ : Type} (data : List α) (count : Nat) (body : σ → α → σ) (i : Nat) (s : σ) : Option σ :=
  (List.range' i (count - i)).foldlM (fun s j => do
    let x ← data[j]?
    return body s x) s

def reduceSumFn (a : Arch α) (data : List α) (count : Nat) : Option α := do
  let vecEnd := count - count % a.size
  let (acc, i) ← batches a vecEnd (fun acc i => do
    let batch ← load a data i
    return List.zipWith (· + ·) acc batch) 0 (List.replicate a.size 0)
  tail data count (· + ·) i (a.reduceAdd acc)

/-- `reduce_min_fn` and `reduce_max_fn`. -/
def reduceBestFn (a : Arch α) (better : α → α → Bool) (lanes : α → α → α) (horizontal : List α → α) (data : List α)
    (count : Nat) : Option α :=
  let pick := fun result x => if better x result then x else result
  if count = 0 then some 0
  else if a.size ≤ count then do
    let first ← load a data 0
    let vecEnd := count - count % a.size
    let (best, i) ← batches a vecEnd (fun best i => do
      let batch ← load a data i
      return List.zipWith lanes best batch) a.size first
    tail data count pick i (horizontal best)
  else do
    let result ← data[0]?
    tail data count pick 1 result

def reduceMinFn (a : Arch α) : List α → Nat → Option α :=
  reduceBestFn a (fun x result => decide (x < result)) Arith.min a.reduceMin

def reduceMaxFn (a : Arch α) : List α → Nat → Option α :=
  reduceBestFn a (fun x result => decide (result < x)) Arith.max a.reduceMax

def reduceMeanVarianceFn (a : Arch α) (data : List α) (count : Nat) : Option (α × α) := do
  let sum ← reduceSumFn a data count
  let mean := sum / Arith.ofCount count
  let vecEnd := count - count % a.size
  let (varAcc, i) ← batches a vecEnd (fun varAcc i => do
    let batch ← load a data i
    let delta := batch.map (· - mean)
    return List.zipWith (· + ·) varAcc (List.zipWith (· * ·) delta delta)) 0 (List.replicate a.size 0)
  let varianceSum ← tail data count (fun varianceSum x => varianceSum + (x - mean) * (x - mean)) i (a.reduceAdd varAcc)
  return (mean, varianceSum / Arith.ofCount count)

end

/-! ### The loops cover the data -/

section
variable {σ α : Type} {a : Arch α} {data : List α} {body : σ → Nat → Option σ} {k m : Nat} {s : σ}

theorem vecEnd_eq (a : Arch α) (count : Nat) : count - count % a.size = a.size * (count / a.size) := by
  have hdiv := Nat.div_add_mod count a.size
  omega

/-- What each batch keeps holds after all of them, and the loop ends where they do. -/
theorem batches_ind (P : Nat → σ → Prop) (hstep : ∀ k s, k < m → P k s → ∃ s', body s (a.size * k) = some s' ∧ P (k + 1) s')
    (hk : k ≤ m) (h : P k s) : ∃ s', batches a (a.size * m) body (a.size * k) s = some (s', a.size * m) ∧ P m s' := by
  induction hn : m - k generalizing k s with
  | zero =>
    obtain rfl : k = m := by omega
    refine ⟨s, ?_, h⟩
    rw [batches, if_neg (Nat.lt_irrefl _)]
  | succ n ih =>
    have hlt : k < m := by omega
    obtain ⟨s', hbody, hs'⟩ := hstep k s hlt h
    obtain ⟨s'', hrest, hs''⟩ := ih hlt hs' (by omega)
    refine ⟨s'', ?_, hs''⟩
    rw [batches, if_pos (Nat.mul_lt_mul_of_pos_left hlt a.size_pos), hbody, Option.bind_eq_bind, Option.bind_some, ← Nat.mul_succ]
    exact hrest

theorem load_eq (h : a.size * (k + 1) ≤ data.length) :
    load a data (a.size * k) = some ((data.drop (a.size * k)).take a.size) := by
  rw [Nat.mul_succ] at h
  obtain ⟨x, xs, rfl⟩ : ∃ x xs, data = x :: xs := by
    cases data with
    | nil => exact absurd a.size_pos (by simp at h; omega)
    | cons x xs => exact ⟨x, xs, rfl⟩
  have hread : ∀ l ∈ List.range a.size, (x :: xs)[a.size * k + l]? = some ((x :: xs).getD (a.size * k + l) x) := by
    intro l hl
    have hlt := List.mem_range.1 hl
    rw [List.getD_eq_getElem?_getD, List.getElem?_eq_getElem (by omega)]
    rfl
  rw [load, Access.mapM_eq_some hread]
  congr 1
  refine List.ext_getElem (by simp at h ⊢; omega) fun l h1 h2 => ?_
  rw [List.length_map, List.length_range] at h1
  rw [List.getElem_map, List.getElem_range, List.getElem_take, List.getElem_drop, List.getD_eq_getElem?_getD, List.getElem?_eq_getElem (by omega)]
  rfl

theorem tail_eq (data : List α) (body : σ → α → σ) {i : Nat} (hi : i ≤ data.length) (s : σ) :
    tail data data.length body i s = some ((data.drop i).foldl body s) := by
  unfold tail
  induction hn : data.length - i generalizing i s with
  | zero =>
    rw [List.drop_of_length_le (by omega)]
    rfl
  | succ n ih =>
    rw [List.range'_succ, List.foldlM_cons, List.getElem?_eq_getElem (by omega), List.drop_eq_getElem_cons (by omega), List.foldl_cons]
    exact ih (i := i + 1) (by omega) _ (by omega)

end

/-! ### Exact arithmetic -/

open Extremes (Extreme Beyond)

/-- What the horizontal reductions are documented to be. -/
structure Arch.Exact (a : Arch ℚ) : Prop where
  add : ∀ lanes, a.reduceAdd lanes = lanes.sum
  min : ∀ lanes, lanes ≠ [] → Extreme false (a.reduceMin lanes) lanes
  max : ∀ lanes, lanes ≠ [] → Extreme true (a.reduceMax lanes) lanes

section
variable {a : Arch ℚ} {data : List ℚ} {k m : Nat}

theorem foldl_add_sum (f : ℚ → ℚ) (xs : List ℚ) (s : ℚ) : xs.foldl (fun s x => s + f x) s = s + (xs.map f).sum := by
  induction xs generalizing s with
  | nil => simp
  | cons x xs ih => rw [List.foldl_cons, ih, List.map_cons, List.sum_cons, add_assoc]

theorem reduceSum_eq (xs : List ℚ) : reduceSum xs = xs.sum := by
  have hfold := foldl_add_sum id xs 0
  rw [zero_add, List.map_id] at hfold
  exact hfold

theorem size_mul_le (a : Arch ℚ) (data : List ℚ) : a.size * (data.length / a.size) ≤ data.length := Nat.mul_div_le _ _

theorem length_batch (h : a.size * (k + 1) ≤ data.length) : ((data.drop (a.size * k)).take a.size).length = a.size := by
  rw [Nat.mul_succ] at h
  rw [List.length_take, List.length_drop]
  omega

/-- The data up to the batch, with it. -/
theorem take_batch (a : Arch ℚ) (data : List ℚ) (k : Nat) :
    data.take (a.size * (k + 1)) = data.take (a.size * k) ++ (data.drop (a.size * k)).take a.size := by
  rw [Nat.mul_succ, List.take_add]

/-- Sums of `f` in lanes. -/
theorem batches_sum (a : Arch ℚ) (data : List ℚ) (f : ℚ → ℚ) (body : List ℚ → Nat → Option (List ℚ))
    (hbody : ∀ acc k, a.size * (k + 1) ≤ data.length →
      body acc (a.size * k) = some (List.zipWith (· + ·) acc (((data.drop (a.size * k)).take a.size).map f))) :
    ∃ acc, batches a (data.length - data.length % a.size) body 0 (List.replicate a.size 0) =
        some (acc, a.size * (data.length / a.size)) ∧
      acc.sum = ((data.take (a.size * (data.length / a.size))).map f).sum := by
  have hstep : ∀ k (acc : List ℚ), k < data.length / a.size →
      (acc.length = a.size ∧ acc.sum = ((data.take (a.size * k)).map f).sum) →
      ∃ acc', body acc (a.size * k) = some acc' ∧
        (acc'.length = a.size ∧ acc'.sum = ((data.take (a.size * (k + 1))).map f).sum) := by
    rintro k acc hk ⟨hlen, hsum⟩
    have hle : a.size * (k + 1) ≤ data.length := (Nat.mul_le_mul_left _ hk).trans (size_mul_le a data)
    have hbatch := length_batch hle
    refine ⟨_, hbody acc k hle, ?_, ?_⟩
    · rw [List.length_zipWith, List.length_map, hlen, hbatch, Nat.min_self]
    · rw [← List.sum_add_sum_eq_sum_zipWith_of_length_eq _ _ (by rw [List.length_map, hlen, hbatch]), hsum, take_batch, List.map_append,
        List.sum_append]
  obtain ⟨acc, hrun, -, hsum⟩ := batches_ind (k := 0) (s := List.replicate a.size (0 : ℚ))
    (fun k acc => acc.length = a.size ∧ acc.sum = ((data.take (a.size * k)).map f).sum) hstep (Nat.zero_le _)
    ⟨List.length_replicate, by simp⟩
  rw [Nat.mul_zero] at hrun
  exact ⟨acc, by rw [vecEnd_eq]; exact hrun, hsum⟩

theorem reduceSumFn_eq (h : a.Exact) (data : List ℚ) : reduceSumFn a data data.length = some (reduceSum data) := by
  obtain ⟨acc, hrun, hsum⟩ := batches_sum a data id (fun acc i => do
    let batch ← load a data i
    return List.zipWith (· + ·) acc batch) fun acc k hle => by
      rw [load_eq hle, List.map_id]
      rfl
  have htail := tail_eq data (· + ·) (size_mul_le a data) (a.reduceAdd acc)
  rw [reduceSumFn, hrun, Option.bind_eq_bind, Option.bind_some]
  dsimp only
  rw [htail, h.add, hsum, List.map_id, reduceSum_eq]
  have hfold := foldl_add_sum id (data.drop (a.size * (data.length / a.size))) (data.take (a.size * (data.length / a.size))).sum
  rw [List.map_id, ← List.sum_append, List.take_append_drop] at hfold
  exact congrArg some hfold

theorem reduceMeanVarianceFn_eq (h : a.Exact) (data : List ℚ) :
    reduceMeanVarianceFn a data data.length = some (reduceMeanVariance data) := by
  rw [reduceMeanVarianceFn, reduceSumFn_eq h, Option.bind_eq_bind, Option.bind_some]
  dsimp only
  generalize hmean : reduceSum data / Arith.ofCount data.length = mean
  obtain ⟨acc, hrun, hsum⟩ := batches_sum a data (fun x => (x - mean) * (x - mean)) (fun varAcc i => do
    let batch ← load a data i
    let delta := batch.map (· - mean)
    return List.zipWith (· + ·) varAcc (List.zipWith (· * ·) delta delta)) fun acc k hle => by
      rw [load_eq hle, Option.bind_eq_bind, Option.bind_some]
      dsimp only
      rw [List.zipWith_self, List.map_map]
      rfl
  have htail := tail_eq data (fun varianceSum x => varianceSum + (x - mean) * (x - mean)) (size_mul_le a data) (a.reduceAdd acc)
  rw [hrun, Option.bind_eq_bind, Option.bind_some]
  dsimp only
  rw [htail, h.add, hsum, Option.bind_some, foldl_add_sum fun x => (x - mean) * (x - mean), ← List.sum_append,
    ← List.map_append, List.take_append_drop, reduceMeanVariance, hmean]
  have hfold := foldl_add_sum (fun x => (x - mean) * (x - mean)) data 0
  rw [zero_add] at hfold
  rw [hfold]
  rfl

end

/-! ### Lanes of extremes -/

section
variable {up : Bool} {better : ℚ → ℚ → Bool} {lanes : ℚ → ℚ → ℚ} {best batch seen data xs ys : List ℚ} {e : ℚ}

theorem foldl_extreme (hbetter : ∀ x result, better x result = true ↔ Beyond up result x) (h : Extreme up e xs) (ys : List ℚ) :
    Extreme up (ys.foldl (fun result x => if better x result then x else result) e) (xs ++ ys) := by
  induction ys generalizing e xs with
  | nil => simpa using h
  | cons y ys ih =>
    have hsnoc := ih (h.snoc y)
    rw [List.append_assoc] at hsnoc
    simpa only [List.foldl_cons, hbetter, List.singleton_append] using hsnoc

theorem reduceBest_extreme (hbetter : ∀ x result, better x result = true ↔ Beyond up result x) (h : data ≠ []) :
    Extreme up (Scalar.reduceBest better data) data := by
  cases data with
  | nil => exact absurd rfl h
  | cons x xs => exact foldl_extreme hbetter (Extreme.singleton up x) xs

/-- Each lane keeps one of the values seen, and every value seen is overtaken by one lane or is in one. -/
structure Lanes (up : Bool) (size : Nat) (best seen : List ℚ) : Prop where
  length : best.length = size
  mem : ∀ b ∈ best, b ∈ seen
  last : ∀ x ∈ seen, ∃ b ∈ best, ¬ Beyond up b x

theorem Lanes.first (h : seen.length = k) : Lanes up k seen seen :=
  ⟨h, fun _ hb => hb, fun x hx => ⟨x, hx, Extremes.not_beyond_self x⟩⟩

theorem Lanes.step (hlanes : ∀ x y, lanes x y = if Beyond up x y then y else x) (h : Lanes up k best seen) (hbatch : batch.length = k) :
    Lanes up k (List.zipWith lanes best batch) (seen ++ batch) := by
  have hlen := h.length
  refine ⟨by rw [List.length_zipWith, hlen, hbatch, Nat.min_self], fun b hb => ?_, fun x hx => ?_⟩
  · obtain ⟨l, hl, rfl⟩ := List.getElem_of_mem hb
    rw [List.length_zipWith] at hl
    rw [List.getElem_zipWith, hlanes]
    split_ifs
    · exact List.mem_append_right _ (List.getElem_mem _)
    · exact List.mem_append_left _ (h.mem _ (List.getElem_mem _))
  · rcases List.mem_append.1 hx with hx | hx
    · obtain ⟨b, hb, hlast⟩ := h.last x hx
      obtain ⟨l, hl, rfl⟩ := List.getElem_of_mem hb
      refine ⟨_, List.getElem_mem (by rw [List.length_zipWith]; omega : l < (List.zipWith lanes best batch).length), ?_⟩
      rw [List.getElem_zipWith, hlanes]
      split_ifs with hy
      · exact fun hbeyond => hlast (hy.trans hbeyond)
      · exact hlast
    · obtain ⟨l, hl, rfl⟩ := List.getElem_of_mem hx
      refine ⟨_, List.getElem_mem (by rw [List.length_zipWith]; omega : l < (List.zipWith lanes best batch).length), ?_⟩
      rw [List.getElem_zipWith, hlanes]
      split_ifs with hy
      · exact Extremes.not_beyond_self _
      · exact hy

/-- The extreme of the lanes is that of all values seen. -/
theorem Lanes.extreme (h : Lanes up k best seen) (he : Extreme up e best) : Extreme up e seen := by
  refine ⟨h.mem _ he.mem, fun x hx hbeyond => ?_⟩
  obtain ⟨b, hb, hlast⟩ := h.last x hx
  exact hlast (hbeyond.of_not (he.last b hb))

theorem batches_lanes {a : Arch ℚ} (hlanes : ∀ x y, lanes x y = if Beyond up x y then y else x) (hsize : a.size ≤ data.length) :
    ∃ best, batches a (data.length - data.length % a.size) (fun best i => do
        let batch ← load a data i
        return List.zipWith lanes best batch) a.size (data.take a.size) = some (best, a.size * (data.length / a.size)) ∧
      Lanes up a.size best (data.take (a.size * (data.length / a.size))) := by
  have hone : 1 ≤ data.length / a.size := (Nat.one_le_div_iff a.size_pos).2 hsize
  have hstep : ∀ k best, k < data.length / a.size → Lanes up a.size best (data.take (a.size * k)) →
      ∃ best', (do
          let batch ← load a data (a.size * k)
          return List.zipWith lanes best batch) = some best' ∧
        Lanes up a.size best' (data.take (a.size * (k + 1))) := by
    intro k best hk h
    have hle : a.size * (k + 1) ≤ data.length := (Nat.mul_le_mul_left _ hk).trans (size_mul_le a data)
    refine ⟨_, by rw [load_eq hle]; rfl, ?_⟩
    rw [take_batch]
    exact h.step hlanes (length_batch hle)
  have hfirst : Lanes up a.size (data.take a.size) (data.take (a.size * 1)) := by
    rw [Nat.mul_one]
    exact Lanes.first (by rw [List.length_take]; omega)
  have hrun := @batches_ind _ _ a (fun best i => do
        let batch ← load a data i
        return List.zipWith lanes best batch) 1 _ _
    (fun k best => Lanes up a.size best (data.take (a.size * k))) hstep hone hfirst
  rw [Nat.mul_one, ← vecEnd_eq] at hrun
  rwa [vecEnd_eq] at hrun ⊢

theorem reduceBestFn_eq {a : Arch ℚ} {horizontal : List ℚ → ℚ} (hbetter : ∀ x result, better x result = true ↔ Beyond up result x)
    (hlanes : ∀ x y, lanes x y = if Beyond up x y then y else x) (hhor : ∀ ls, ls ≠ [] → Extreme up (horizontal ls) ls) (data : List ℚ) :
    reduceBestFn a better lanes horizontal data data.length = some (Scalar.reduceBest better data) := by
  have hpos := a.size_pos
  unfold reduceBestFn
  dsimp only
  cases data with
  | nil => rfl
  | cons x xs =>
    rw [if_neg (by simp)]
    by_cases hsize : a.size ≤ (x :: xs).length
    · rw [if_pos hsize]
      have hload : load a (x :: xs) (a.size * 0) = some (((x :: xs).drop (a.size * 0)).take a.size) := load_eq (by omega)
      rw [Nat.mul_zero, List.drop_zero] at hload
      obtain ⟨best, hrun, hbest⟩ := batches_lanes hlanes hsize
      have hne : best ≠ [] := fun h => by
        have hlen := hbest.length
        rw [h, List.length_nil] at hlen
        omega
      have hextreme := foldl_extreme hbetter (hbest.extreme (hhor best hne)) ((x :: xs).drop (a.size * ((x :: xs).length / a.size)))
      rw [List.take_append_drop] at hextreme
      have htail := tail_eq (x :: xs) (fun result x => if better x result then x else result) (size_mul_le a (x :: xs)) (horizontal best)
      rw [hload, Option.bind_eq_bind, Option.bind_some, hrun, Option.bind_eq_bind, Option.bind_some]
      dsimp only
      rw [htail, hextreme.unique (reduceBest_extreme hbetter (List.cons_ne_nil x xs))]
    · rw [if_neg hsize]
      exact tail_eq (x :: xs) _ (by simp) x

theorem reduceMinFn_eq {a : Arch ℚ} (h : a.Exact) (data : List ℚ) : reduceMinFn a data data.length = some (Scalar.reduceMin data) :=
  reduceBestFn_eq (by simp) (fun x y => by simp only [Arith.min, Extremes.beyond_down]) h.min data

theorem reduceMaxFn_eq {a : Arch ℚ} (h : a.Exact) (data : List ℚ) : reduceMaxFn a data data.length = some (Scalar.reduceMax data) :=
  reduceBestFn_eq (by simp) (fun x y => by simp only [Arith.max, Extremes.beyond_up]) h.max data

end

/-- The vector path returns what the scalar path returns, whatever the lanes and the count. -/
theorem reductions_agree {a : Arch ℚ} (h : a.Exact) (data : List ℚ) :
    reduceSumFn a data data.length = some (reduceSum data) ∧
    reduceMinFn a data data.length = some (Scalar.reduceMin data) ∧
    reduceMaxFn a data data.length = some (Scalar.reduceMax data) ∧
    (0 < data.length → reduceMeanVarianceFn a data data.length = some (reduceMeanVariance data)) :=
  ⟨reduceSumFn_eq h data, reduceMinFn_eq h data, reduceMaxFn_eq h data, fun _ => reduceMeanVarianceFn_eq h data⟩

/-- Lanes reduced one by one. -/
def inOrder (size : Nat) (h : 0 < size) : Arch ℚ where
  size := size
  size_pos := h
  reduceAdd := reduceSum
  reduceMin := Scalar.reduceMin
  reduceMax := Scalar.reduceMax

theorem inOrder_exact (size : Nat) (h : 0 < size) : (inOrder size h).Exact where
  add := reduceSum_eq
  min := fun _ => reduceBest_extreme (by simp)
  max := fun _ => reduceBest_extreme (by simp)

theorem reductions_agree_two :
    reduceSumFn (inOrder 2 (by decide)) [3, -1, 4, 1, 5] 5 = some (reduceSum [3, -1, 4, 1, 5]) ∧
    reduceMinFn (inOrder 2 (by decide)) [3, -1, 4, 1, 5] 5 = some (Scalar.reduceMin [3, -1, 4, 1, 5]) ∧
    reduceMaxFn (inOrder 2 (by decide)) [3, -1, 4, 1, 5] 5 = some (Scalar.reduceMax [3, -1, 4, 1, 5]) ∧
    reduceMeanVarianceFn (inOrder 2 (by decide)) [3, -1, 4, 1, 5] 5 = some (reduceMeanVariance [3, -1, 4, 1, 5]) := by
  obtain ⟨hsum, hmin, hmax, hvar⟩ := reductions_agree (inOrder_exact 2 (by decide)) [3, -1, 4, 1, 5]
  exact ⟨hsum, hmin, hmax, hvar (by decide)⟩

end Simd
end StratForge
