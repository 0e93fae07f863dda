import Mathlib.Data.List.DropRight
import Mathlib.Order.Lattice
import Mathlib.Data.List.Forall2

/-!
# Grouping a list by a key, in one pass

A loop that groups a list by a key carries the key of the run it stands in and that run's summary,
and emits both when the key changes and at the end (`collect`). `collect_runs` says that what it
emits are the summaries of consecutive runs of equal key that make up the list, `collect_sorted` that
the keys come out increasing when the list was sorted by them, `collect_congr` that only the equality
of keys matters, `collect_collect` that a coarser grouping may be made of a finer one. `partials` is the
loop that emits the summary after every element; where a run ends it agrees with `collect`
(`partials_ends`), and everywhere it has the summary of the run under way (`current`,
`partials_summary`).
-/

namespace Runs
variable {ι κ β : Type} [DecidableEq κ]

/-- The loop, standing in a run of key `k` with summary `b`. -/
def collect (key : ι → κ) (init : ι → β) (acc : β → ι → β) : List ι → κ → β → List (κ × β)
  | [], k, b => [(k, b)]
  | x :: xs, k, b =>
      if key x ≠ k then (k, b) :: collect key init acc xs (key x) (init x)
      else collect key init acc xs k (acc b x)

/-- The loop that emits after every element. -/
def partials (key : ι → κ) (init : ι → β) (acc : β → ι → β) : List ι → κ → β → List β
  | [], _, _ => []
  | x :: xs, k, b =>
      let b' := if key x ≠ k then init x else acc b x
      b' :: partials key init acc xs (key x) b'

/-- Whether each element is the last of its run. -/
def ends (key : ι → κ) : List ι → List Bool
  | [] => []
  | [_] => [true]
  | x :: y :: xs => decide (key x ≠ key y) :: ends key (y :: xs)

/-- The longest stretch of equal key at the end of the list. -/
def current (key : ι → κ) (xs : List ι) : List ι :=
  match xs.getLast? with
  | none => []
  | some x => xs.rtakeWhile fun y => key y = key x

/-- The elements from `i` to `j` have one key. -/
def OneRun (key : ι → κ) (xs : List ι) (i j : Nat) : Prop :=
  i ≤ j ∧ ∀ k, i ≤ k → k ≤ j → (xs[k]?).map key = (xs[i]?).map key

/-- `p` is the key and the summary of `run`. -/
def Summary (key : ι → κ) (init : ι → β) (acc : β → ι → β) (run : List ι) (p : κ × β) : Prop :=
  ∃ x t, run = x :: t ∧ (∀ y ∈ run, key y = p.1) ∧ p.2 = t.foldl acc (init x)

variable {key : ι → κ} {init : ι → β} {acc : β → ι → β}

theorem collect_same {x : ι} {xs : List ι} {k : κ} {b : β} (h : key x = k) :
    collect key init acc (x :: xs) k b = collect key init acc xs k (acc b x) := by
  rw [collect, if_neg (not_not.2 h)]

theorem collect_change {x : ι} {xs : List ι} {k : κ} {b : β} (h : key x ≠ k) :
    collect key init acc (x :: xs) k b = (k, b) :: collect key init acc xs (key x) (init x) := by
  rw [collect, if_pos h]

/-- The list splits into the runs whose summaries are emitted; `x :: pre` is the part of the current
run already consumed. -/
theorem collect_runs (xs : List ι) (x : ι) (pre : List ι) (hpre : ∀ y ∈ x :: pre, key y = key x) :
    ∃ rs : List (List ι), rs.flatten = x :: pre ++ xs ∧
      List.Forall₂ (Summary key init acc) rs
        (collect key init acc xs (key x) (pre.foldl acc (init x))) := by
  induction xs generalizing x pre with
  | nil => exact ⟨[x :: pre], by simp, .cons ⟨x, pre, rfl, hpre, rfl⟩ .nil⟩
  | cons r rest ih =>
    by_cases hr : key r = key x
    · have hpre' : ∀ y ∈ x :: (pre ++ [r]), key y = key x := by
        intro y hy
        rcases List.mem_append.1 (show y ∈ (x :: pre) ++ [r] from hy) with hy | hy
        · exact hpre y hy
        · rw [List.mem_singleton.1 hy, hr]
      obtain ⟨rs, hflat, hrs⟩ := ih x (pre ++ [r]) hpre'
      refine ⟨rs, by simpa using hflat, ?_⟩
      rw [collect_same hr]
      simpa using hrs
    · obtain ⟨rs, hflat, hrs⟩ := ih r [] (by simp)
      refine ⟨(x :: pre) :: rs, by simpa using hflat, ?_⟩
      rw [collect_change hr]
      exact .cons ⟨x, pre, rfl, hpre, rfl⟩ hrs

/-- Along a list sorted by its key the runs come out with increasing keys. -/
theorem collect_sorted {κ : Type} [LinearOrder κ] {key : ι → κ} (xs : List ι) {k : κ} {b : β}
    (hk : ∀ x ∈ xs, k ≤ key x) (hs : xs.Pairwise fun x y => key x ≤ key y) :
    (collect key init acc xs k b).Pairwise (fun p q => p.1 < q.1) ∧
      ∀ p ∈ collect key init acc xs k b, k ≤ p.1 := by
  induction xs generalizing k b with
  | nil => simp [collect]
  | cons x xs ih =>
    obtain ⟨hx, hs⟩ := List.pairwise_cons.1 hs
    by_cases hkx : key x = k
    · rw [collect_same hkx]
      exact ih (fun y hy => hk y (List.mem_cons_of_mem _ hy)) hs
    · obtain ⟨hp, hle⟩ := @ih (key x) (init x) hx hs
      have hlt : k < key x := lt_of_le_of_ne (hk x (List.mem_cons_self ..)) (Ne.symm hkx)
      rw [collect_change hkx]
      refine ⟨List.pairwise_cons.2 ⟨fun p hm => lt_of_lt_of_le hlt (hle p hm), hp⟩, ?_⟩
      intro p hm
      rcases List.mem_cons.1 hm with rfl | hm
      · exact le_rfl
      · exact hlt.le.trans (hle p hm)

theorem mem_collect_key (xs : List ι) {k c : κ} {b : β} :
    c ∈ (collect key init acc xs k b).map Prod.fst ↔ c = k ∨ ∃ x ∈ xs, key x = c := by
  induction xs generalizing k b with
  | nil => simp [collect]
  | cons x xs ih =>
    by_cases hkx : key x = k
    · rw [collect_same hkx, ih]
      simp only [List.mem_cons, exists_eq_or_imp, hkx]
      constructor
      · rintro (h | h)
        · exact .inl h
        · exact .inr (.inr h)
      · rintro (h | h | h)
        · exact .inl h
        · exact .inl h.symm
        · exact .inr h
    · rw [collect_change hkx, List.map_cons, List.mem_cons, ih]
      simp only [List.mem_cons, exists_eq_or_imp, @eq_comm _ c (key x)]

/-- No run goes across a place where all the keys change. -/
theorem collect_append (xs ys : List ι) (y : ι) {k : κ} {b : β} (hk : k ≠ key y) (hxs : ∀ x ∈ xs, key x ≠ key y) :
    collect key init acc (xs ++ y :: ys) k b =
      collect key init acc xs k b ++ collect key init acc ys (key y) (init y) := by
  induction xs generalizing k b with
  | nil => rw [List.nil_append, collect_change hk.symm]; rfl
  | cons x xs ih =>
    have hx := hxs x List.mem_cons_self
    have hrest : ∀ z ∈ xs, key z ≠ key y := fun z hz => hxs z (List.mem_cons_of_mem _ hz)
    by_cases hkx : key x = k
    · rw [List.cons_append, collect_same hkx, collect_same hkx, ih hk hrest]
    · rw [List.cons_append, collect_change hkx, collect_change hkx, ih hx hrest, List.cons_append]

/-- The first run is the one the loop stands in. -/
theorem collect_head (xs : List ι) (k : κ) (b : β) :
    ∃ (t : List ι) (rest : List (κ × β)), collect key init acc xs k b = (k, t.foldl acc b) :: rest := by
  induction xs generalizing b with
  | nil => exact ⟨[], [], rfl⟩
  | cons x xs ih =>
    by_cases hkx : key x = k
    · obtain ⟨t, rest, h⟩ := ih (acc b x)
      exact ⟨x :: t, rest, by rw [collect_same hkx, h]; rfl⟩
    · exact ⟨[], _, collect_change hkx⟩

/-! ### Grouping in two steps

The elements are grouped by a fine key and what comes out by a coarser one, which is to give what
grouping by the coarser key at once gives. -/

section TwoSteps
variable {κ' γ : Type} [DecidableEq κ'] {coarse : κ → κ'} {key₂ : κ × β → κ'} {init₂ : κ × β → γ}
  {acc₂ : γ → κ × β → γ} {key' : ι → κ'} {init' : ι → γ} {acc' : γ → ι → γ}

/-- A summary stands for the elements it was made of: the second grouping does with it what grouping at
once does with them. -/
structure StandsFor (coarse : κ → κ') (key : ι → κ) (init : ι → β) (acc : β → ι → β) (key₂ : κ × β → κ')
    (init₂ : κ × β → γ) (acc₂ : γ → κ × β → γ) (key' : ι → κ') (init' : ι → γ) (acc' : γ → ι → γ) : Prop where
  key_summary : ∀ k b, key₂ (k, b) = coarse k
  key_element : ∀ x, key' x = coarse (key x)
  init_init : ∀ x, init₂ (key x, init x) = init' x
  acc_init : ∀ c x, acc₂ c (key x, init x) = acc' c x
  init_acc : ∀ k b x, init₂ (k, acc b x) = acc' (init₂ (k, b)) x
  acc_acc : ∀ c k b x, acc₂ c (k, acc b x) = acc' (acc₂ c (k, b)) x

variable (h : StandsFor coarse key init acc key₂ init₂ acc₂ key' init' acc')
include h

/-- The second grouping stands in a run `K` when the first one begins. -/
theorem collect_collect (xs : List ι) (k : κ) (b : β) (K : κ') (c : γ) :
    collect key₂ init₂ acc₂ (collect key init acc xs k b) K c =
      if coarse k ≠ K then (K, c) :: collect key' init' acc' xs (coarse k) (init₂ (k, b))
      else collect key' init' acc' xs K (acc₂ c (k, b)) := by
  induction xs generalizing k b K c with
  | nil => simp only [collect, h.key_summary]
  | cons x xs ih =>
    by_cases hx : key x = k
    · have hx' : key' x = coarse k := by rw [h.key_element, hx]
      rw [collect_same hx, ih, h.init_acc, h.acc_acc]
      by_cases hK : coarse k = K
      · rw [if_neg (not_not.2 hK), if_neg (not_not.2 hK), collect_same (hx'.trans hK)]
      · rw [if_pos hK, if_pos hK, collect_same hx']
    · rw [collect_change hx]
      by_cases hK : coarse k = K
      · rw [if_neg (not_not.2 hK), collect_same (by rw [h.key_summary, hK]), ih, h.init_init, h.acc_init,
          collect, h.key_element]
      · rw [if_pos hK, collect_change (by rwa [h.key_summary]), h.key_summary, ih, h.init_init, h.acc_init,
          collect, h.key_element]

/-- Both groupings begin together. -/
theorem collect_collect_head (xs : List ι) (k : κ) (b : β) :
    ∃ p ps, collect key init acc xs k b = p :: ps ∧ key₂ p = coarse k ∧
      collect key₂ init₂ acc₂ ps (key₂ p) (init₂ p) = collect key' init' acc' xs (coarse k) (init₂ (k, b)) := by
  induction xs generalizing k b with
  | nil => exact ⟨(k, b), [], rfl, h.key_summary k b, by rw [h.key_summary]; rfl⟩
  | cons x xs ih =>
    by_cases hx : key x = k
    · obtain ⟨p, ps, hps, hkey, hcoll⟩ := ih k (acc b x)
      have hx' : key' x = coarse k := by rw [h.key_element, hx]
      refine ⟨p, ps, by rw [collect_same hx, hps], hkey, ?_⟩
      rw [hcoll, h.init_acc, collect_same hx']
    · refine ⟨(k, b), _, collect_change hx, h.key_summary k b, ?_⟩
      rw [h.key_summary, collect_collect h, h.init_init, h.acc_init, collect, h.key_element]

end TwoSteps

/-- Grouping what a map makes of the elements. -/
theorem collect_map {A : Type} (f : A → ι) (xs : List A) (k : κ) (b : β) :
    collect key init acc (xs.map f) k b =
      collect (fun x => key (f x)) (fun x => init (f x)) (fun b x => acc b (f x)) xs k b := by
  induction xs generalizing k b with
  | nil => rfl
  | cons x xs ih => simp only [List.map_cons, collect, ih]

/-- The summaries depend on the keys only through which elements share one. -/
theorem collect_congr {κ' : Type} [DecidableEq κ'] {key' : ι → κ'} (xs : List ι) (x : ι) (b : β)
    (h : (x :: xs).Pairwise fun y z => key y = key z ↔ key' y = key' z) :
    (collect key init acc xs (key x) b).map Prod.snd =
      (collect key' init acc xs (key' x) b).map Prod.snd := by
  induction xs generalizing x b with
  | nil => rfl
  | cons y ys ih =>
    obtain ⟨hx, hys⟩ := List.pairwise_cons.1 h
    have hxy := hx y (List.mem_cons_self ..)
    by_cases hy : key x = key y
    · have hy' := hxy.1 hy
      rw [collect_same hy.symm, collect_same hy'.symm]
      refine ih x (acc b y) (List.pairwise_cons.2 ⟨?_, (List.pairwise_cons.1 hys).2⟩)
      exact fun z hz => hx z (List.mem_cons_of_mem _ hz)
    · have hy' : ¬ key' x = key' y := fun e => hy (hxy.2 e)
      rw [collect_change (Ne.symm hy), collect_change (Ne.symm hy'), List.map_cons, List.map_cons,
        ih y (init y) hys]

/-- Where a run ends the loop that emits after every element has its summary. -/
theorem partials_ends (xs : List ι) (x : ι) (b : β) :
    (((b :: partials key init acc xs (key x) b).zip (ends key (x :: xs))).filter Prod.snd).map Prod.fst =
      (collect key init acc xs (key x) b).map Prod.snd := by
  induction xs generalizing x b with
  | nil => simp [partials, ends, collect]
  | cons y ys ih =>
    by_cases hy : key y = key x
    · have hends : ends key (x :: y :: ys) = false :: ends key (y :: ys) := by simp [ends, hy]
      have hpart : partials key init acc (y :: ys) (key x) b =
          acc b y :: partials key init acc ys (key y) (acc b y) := by simp [partials, hy]
      rw [hends, hpart]
      rw [collect_same hy]
      simpa [hy] using ih y (acc b y)
    · have hends : ends key (x :: y :: ys) = true :: ends key (y :: ys) := by
        simp [ends, Ne.symm hy]
      have hpart : partials key init acc (y :: ys) (key x) b =
          init y :: partials key init acc ys (key y) (init y) := by simp [partials, hy]
      rw [hends, hpart, collect_change hy]
      simpa using ih y (init y)

@[simp] theorem length_ends : ∀ xs : List ι, (ends key xs).length = xs.length
  | [] => rfl
  | [_] => rfl
  | x :: y :: xs => by rw [ends, List.length_cons, length_ends (y :: xs)]; rfl

@[simp] theorem length_partials (xs : List ι) (k : κ) (b : β) :
    (partials key init acc xs k b).length = xs.length := by
  induction xs generalizing k b with
  | nil => rfl
  | cons x xs ih => rw [partials, List.length_cons, ih, List.length_cons]

/-- An element ends its run if there is none after it or that one has another key. -/
theorem ends_get? : ∀ (xs : List ι) {i : Nat} {x : ι}, xs[i]? = some x →
    (ends key xs)[i]? = some (match xs[i + 1]? with
      | some y => decide (key x ≠ key y)
      | none => true)
  | [_], 0, _, _ => rfl
  | [_], i + 1, _, h => by simp at h
  | a :: y :: xs, 0, _, h => by cases h; rfl
  | _ :: y :: xs, i + 1, x, h => by
    rw [ends, List.getElem?_cons_succ, List.getElem?_cons_succ]
    exact ends_get? (y :: xs) h

/-- Choosing by position is choosing by a parallel list of flags. -/
theorem filter_zipIdx (ys : List β) {flags : List Bool} {flag : Nat → Bool}
    (h : flags = (List.range ys.length).map flag) :
    (ys.zipIdx.filter fun p => flag p.2).map Prod.fst = ((ys.zip flags).filter Prod.snd).map Prod.fst := by
  rw [List.zipIdx_eq_zip_range', ← List.range_eq_range', h, List.zip_map_right, List.filter_map,
    List.map_map]
  rfl

/-! ### The run under way -/

theorem current_concat (xs : List ι) (x : ι) :
    current key (xs ++ [x]) = xs.rtakeWhile (fun y => key y = key x) ++ [x] := by
  rw [current, List.getLast?_concat]
  exact List.rtakeWhile_concat_pos _ _ _ (by simp)

@[simp] theorem current_singleton (x : ι) : current key [x] = [x] := by
  simpa using @current_concat _ _ _ key [] x

theorem current_same (xs : List ι) {x y : ι} (h : key y = key x) :
    current key (xs ++ [x] ++ [y]) = current key (xs ++ [x]) ++ [y] := by
  rw [current_concat, current_concat, h, List.rtakeWhile_concat_pos _ _ _ (by simp)]

theorem current_change (xs : List ι) {x y : ι} (h : key y ≠ key x) :
    current key (xs ++ [x] ++ [y]) = [y] := by
  rw [current_concat, List.rtakeWhile_concat_neg _ _ _ (by simpa using Ne.symm h), List.nil_append]

theorem current_suffix (xs : List ι) : current key xs <:+ xs := by
  unfold current
  split
  · exact List.nil_suffix
  · exact List.rtakeWhile_suffix _ _

/-- What the loop emits after `done` and then each of `xs`: the summary of the run under way. -/
theorem partials_summary (xs done : List ι) (x : ι) (b : β)
    (hb : Summary key init acc (current key (done ++ [x])) (key x, b)) {i : Nat} {b' : β}
    (hi : (partials key init acc xs (key x) b)[i]? = some b') :
    ∃ k, Summary key init acc (current key (done ++ [x] ++ xs.take (i + 1))) (k, b') := by
  induction xs generalizing done x b i with
  | nil => simp [partials] at hi
  | cons y ys ih =>
    rw [partials] at hi
    -- the run the loop stands in after `y`
    have hstep : Summary key init acc (current key (done ++ [x] ++ [y]))
        (key y, if key y ≠ key x then init y else acc b y) := by
      by_cases hy : key y = key x
      · obtain ⟨z, t, hrun, hkey, hsum⟩ := hb
        rw [if_neg (not_not.2 hy), current_same done hy, hrun]
        refine ⟨z, t ++ [y], rfl, ?_, by rw [List.foldl_concat, ← hsum]⟩
        intro w hw
        rcases List.mem_append.1 (show w ∈ (z :: t) ++ [y] from hw) with hw | hw
        · rw [hkey w (by rw [hrun]; exact hw), hy]
        · rw [List.mem_singleton.1 hw]
      · rw [if_pos hy, current_change done hy]
        exact ⟨y, [], rfl, by simp, rfl⟩
    cases i with
    | zero =>
      simp only [List.getElem?_cons_zero, Option.some.injEq] at hi
      subst hi
      exact ⟨key y, by simpa using hstep⟩
    | succ i =>
      rw [List.getElem?_cons_succ] at hi
      have := ih (done ++ [x]) y _ hstep hi
      simpa using this

/-- Within one run the run under way grows at its end. -/
theorem current_prefix {xs : List ι} {i j : Nat} (h : OneRun key xs i j) (hj : j < xs.length) :
    current key (xs.take (i + 1)) <+: current key (xs.take (j + 1)) := by
  obtain ⟨hij, hkey⟩ := h
  induction j, hij using Nat.le_induction with
  | base => exact List.prefix_rfl
  | succ j hij ih =>
    have hjl : j < xs.length := by omega
    refine (ih hjl fun k h1 h2 => hkey k h1 (by omega)).trans ?_
    have hsame : key xs[j + 1] = key xs[j] := by
      have h1 := hkey (j + 1) (by omega) le_rfl
      have h2 := hkey j hij (by omega)
      rw [List.getElem?_eq_getElem hj] at h1
      rw [List.getElem?_eq_getElem hjl, ← h1] at h2
      exact (Option.some.inj h2).symm
    rw [List.take_succ_eq_append_getElem hj, List.take_succ_eq_append_getElem hjl,
      current_same _ hsame]
    exact List.prefix_append _ _

theorem map_filter_zip {γ : Type} (f : β → γ) (ys : List β) (flags : List Bool) :
    (((ys.zip flags).filter Prod.snd).map Prod.fst).map f =
      (((ys.map f).zip flags).filter Prod.snd).map Prod.fst := by
  rw [List.zip_map_left, List.filter_map, List.map_map, List.map_map]
  rfl

end Runs
