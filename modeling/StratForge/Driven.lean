import Mathlib.Data.List.Induction

/-! # A machine driven over a feed

A value comes to the feed, then the machine reads the feed and takes its step, which an access outside the feed makes
none. What every step keeps holds after every run (`run_ind`). What a machine puts out, one value a step, is a function
of the feed so far (`outputs`). -/

namespace Driven
universe u v w

variable {F : Type u} {S : Type u} {X : Type v} (forward : F → X → F) (next : F → S → Option S)

def step (st : F × S) (x : X) : Option (F × S) := (next (forward st.1 x) st.2).map (forward st.1 x, ·)

def run (st : F × S) (xs : List X) : Option (F × S) := xs.foldlM (step forward next) st

variable {forward next}

@[simp] theorem run_nil (st : F × S) : run forward next st [] = some st := rfl

theorem run_concat (st : F × S) (xs : List X) (x : X) :
    run forward next st (xs ++ [x]) = (run forward next st xs).bind (step forward next · x) := by
  simp [run, List.foldlM_append]

theorem step_eq_some {st st' : F × S} {x : X} :
    step forward next st x = some st' ↔ next (forward st.1 x) st.2 = some st'.2 ∧ st'.1 = forward st.1 x := by
  rcases st' with ⟨f', s'⟩
  simp only [step, Option.map_eq_some_iff, Prod.mk.injEq]
  constructor
  · rintro ⟨s, hs, rfl, rfl⟩
    exact ⟨hs, rfl⟩
  · rintro ⟨hs, rfl⟩
    exact ⟨s', hs, rfl, rfl⟩

/-- No step leaves the feed, and what each step keeps holds after all of them. -/
theorem run_ind {P : List X → F → S → Prop} {f : F} {s : S} {xs : List X} (h0 : P [] f s)
    (hstep : ∀ done x f s, x ∈ xs → P done f s → ∃ s', next (forward f x) s = some s' ∧ P (done ++ [x]) (forward f x) s') :
    ∃ f' s', run forward next (f, s) xs = some (f', s') ∧ P xs f' s' := by
  induction xs using List.reverseRecOn with
  | nil => exact ⟨f, s, rfl, h0⟩
  | append_singleton xs x ih =>
    obtain ⟨f', s', hrun, hP⟩ := ih fun done y f s hy => hstep done y f s (List.mem_append_left _ hy)
    obtain ⟨s'', hnext, hP'⟩ := hstep xs x f' s' (List.mem_append_right _ (List.mem_singleton_self x)) hP
    refine ⟨forward f' x, s'', ?_, hP'⟩
    rw [run_concat, hrun, Option.bind_some]
    exact step_eq_some.2 ⟨hnext, rfl⟩

/-- A part of the machine that takes the steps of another machine. -/
theorem run_project {T : Type u} {next' : F → T → Option T} (part : S → T)
    (h : ∀ f s s', next f s = some s' → next' f (part s) = some (part s')) {f f' : F} {s s' : S} {xs : List X}
    (hrun : run forward next (f, s) xs = some (f', s')) : run forward next' (f, part s) xs = some (f', part s') := by
  induction xs using List.reverseRecOn generalizing f' s' with
  | nil =>
    obtain ⟨rfl, rfl⟩ := Prod.mk.inj (Option.some.inj hrun)
    rfl
  | append_singleton xs x ih =>
    rw [run_concat, Option.bind_eq_some_iff] at hrun ⊢
    obtain ⟨⟨g, t⟩, hbefore, hstep⟩ := hrun
    obtain ⟨hnext, rfl⟩ := step_eq_some.1 hstep
    exact ⟨(g, part t), ih hbefore, step_eq_some.2 ⟨h _ _ _ hnext, rfl⟩⟩

/-! ### Outputs -/

variable {Y : Type w} {f : List X → Y} {xs : List X} {x : X} {t : Nat}

theorem length_snoc {line : List Y} (h : line.length = xs.length) (y : Y) (x : X) : (line ++ [y]).length = (xs ++ [x]).length := by
  simp [h]

/-- One value for each of the feed, which depends on it and those before. -/
def outputs (f : List X → Y) (xs : List X) : List Y := (List.range xs.length).map fun t => f (xs.take (t + 1))

@[simp] theorem length_outputs (f : List X → Y) (xs : List X) : (outputs f xs).length = xs.length := by simp [outputs]

@[simp] theorem outputs_nil (f : List X → Y) : outputs f [] = [] := rfl

theorem outputs_concat : outputs f (xs ++ [x]) = outputs f xs ++ [f (xs ++ [x])] := by
  rw [outputs, List.length_append, List.length_singleton, List.range_succ, List.map_append, List.map_singleton,
    List.take_of_length_le (by simp)]
  congr 1
  refine List.map_congr_left fun t ht => ?_
  rw [List.take_append_of_le_length (List.mem_range.1 ht)]

theorem outputs_snoc {line : List Y} {y : Y} (h : line = outputs f xs) (hy : y = f (xs ++ [x])) :
    line ++ [y] = outputs f (xs ++ [x]) := by rw [h, hy, outputs_concat]

theorem getElem?_outputs (ht : t < xs.length) : (outputs f xs)[t]? = some (f (xs.take (t + 1))) := by
  simp [outputs, ht]

end Driven
