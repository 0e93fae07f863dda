import Mathlib.Data.List.Basic
import Mathlib.Data.List.Range
import Mathlib.Tactic.Common

/-!
# Vectors that are accessed without a check

An access outside of a vector is none, and so is a loop with such an access. A loop stays inside exactly when each of
its turns does, where an invariant says what the vectors are before the turn (`foldlM_isSome_iff`).
-/

namespace Access
universe u v

variable {V : Type u} {v : List V} {idx i count : Nat}

/-- `v[idx - i]`; below zero the index wraps around, to one that no vector has. -/
def readBack (v : List V) (idx i : Nat) : Option V := if i ≤ idx then v[idx - i]? else none

/-- `v[i] = value`. -/
def write (v : List V) (i : Nat) (value : V) : Option (List V) := if i < v.length then some (v.set i value) else none

/-- An unsigned difference that does not wrap around. -/
def minus (a b : Nat) : Option Nat := if b ≤ a then some (a - b) else none

/-- `subspan`. -/
def subspan (v : List V) (start count : Nat) : Option (List V) :=
  if start + count ≤ v.length then some ((v.drop start).take count) else none

theorem read_isSome : v[i]?.isSome ↔ i < v.length := by
  rw [Option.isSome_iff_exists]
  exact ⟨fun ⟨_, h⟩ => (List.getElem?_eq_some_iff.1 h).1, fun h => ⟨_, List.getElem?_eq_getElem h⟩⟩

theorem readBack_isSome : (readBack v idx i).isSome ↔ i ≤ idx ∧ idx - i < v.length := by
  unfold readBack
  split_ifs with h
  · simp [h]
  · simp [h]

theorem write_isSome {value : V} : (write v i value).isSome ↔ i < v.length := by
  unfold write
  split_ifs with h <;> simp [h]

theorem length_write {value : V} {w : List V} (h : write v i value = some w) : w.length = v.length := by
  unfold write at h
  split_ifs at h with hi
  rw [← Option.some.inj h, List.length_set]

/-- Reading one after another is inside if each of them is. -/
theorem mapM_isSome {A : Type v} {f : A → Option V} {xs : List A} : (xs.mapM f).isSome ↔ ∀ x ∈ xs, (f x).isSome := by
  induction xs with
  | nil => simp
  | cons x xs ih =>
    rw [List.mapM_cons, List.forall_mem_cons, ← ih]
    cases f x with
    | none => simp
    | some y => cases xs.mapM f <;> simp

theorem mapM_eq_some {A : Type v} {f : A → Option V} {g : A → V} {xs : List A} (h : ∀ x ∈ xs, f x = some (g x)) :
    xs.mapM f = some (xs.map g) := by
  induction xs with
  | nil => rfl
  | cons x xs ih =>
    rw [List.mapM_cons, h x (List.mem_cons_self ..), ih fun y hy => h y (List.mem_cons_of_mem _ hy)]
    rfl

/-- What holds of every value that is read. -/
theorem mapM_all {A : Type v} {f : A → Option V} {P : V → Prop} {xs : List A} (h : ∀ x ∈ xs, ∃ y, f x = some y ∧ P y) :
    ∃ ys, xs.mapM f = some ys ∧ ∀ y ∈ ys, P y := by
  induction xs with
  | nil => exact ⟨[], rfl, fun _ hy => absurd hy List.not_mem_nil⟩
  | cons x xs ih =>
    obtain ⟨y, hy, hPy⟩ := h x List.mem_cons_self
    obtain ⟨ys, hys, hPys⟩ := ih fun x hx => h x (List.mem_cons_of_mem _ hx)
    refine ⟨y :: ys, ?_, List.forall_mem_cons.2 ⟨hPy, hPys⟩⟩
    rw [List.mapM_cons, hy, hys]
    rfl

/-- The results all have a property when each item has what the property of its result comes to. -/
theorem mapM_iff {A : Type v} {f : A → Option V} {P : V → Prop} {Q : A → Prop} {xs : List A}
    (h : ∀ x ∈ xs, ∃ y, f x = some y ∧ (P y ↔ Q x)) : ∃ ys, xs.mapM f = some ys ∧ ((∀ y ∈ ys, P y) ↔ ∀ x ∈ xs, Q x) := by
  induction xs with
  | nil => exact ⟨[], rfl, by simp⟩
  | cons x xs ih =>
    rw [List.forall_mem_cons] at h
    obtain ⟨⟨y, hy, hP⟩, hrest⟩ := h
    obtain ⟨ys, hys, hall⟩ := ih hrest
    refine ⟨y :: ys, by rw [List.mapM_cons, hy, hys]; rfl, ?_⟩
    rw [List.forall_mem_cons, List.forall_mem_cons, hP, hall]

/-- The last `count` values up to `idx`. -/
theorem mapM_readBack_isSome (hpos : 0 < count) :
    ((List.range count).mapM (readBack v idx)).isSome ↔ count ≤ idx + 1 ∧ idx < v.length := by
  rw [mapM_isSome]
  constructor
  · intro h
    obtain ⟨-, hlt⟩ := readBack_isSome.1 (h 0 (List.mem_range.2 hpos))
    obtain ⟨hle, -⟩ := readBack_isSome.1 (h (count - 1) (List.mem_range.2 (by omega)))
    omega
  · rintro ⟨hle, hlt⟩ i hi
    have := List.mem_range.1 hi
    exact readBack_isSome.2 (by omega)

/-- They come the newest first. -/
theorem mapM_readBack_eq (hidx : idx < v.length) (hcount : count ≤ idx + 1) :
    (List.range count).mapM (readBack v idx) = some ((v.drop (idx + 1 - count)).take count).reverse := by
  induction count with
  | zero => simp
  | succ count ih =>
    have hlast : readBack v idx count = some v[idx - count] := by
      rw [readBack, if_pos (by omega), List.getElem?_eq_getElem (by omega)]
    have hslice : (v.drop (idx + 1 - (count + 1))).take (count + 1) = v[idx - count] :: (v.drop (idx + 1 - count)).take count := by
      rw [show idx + 1 - (count + 1) = idx - count by omega, List.drop_eq_getElem_cons (by omega), List.take_succ_cons,
        show idx - count + 1 = idx + 1 - count by omega]
    rw [List.range_succ, List.mapM_append, ih (by omega), hslice]
    simp [hlast]

theorem minus_eq {a b : Nat} (h : b ≤ a) : minus a b = some (a - b) := if_pos h

theorem exists_subspan {start count : Nat} (h : start + count ≤ v.length) :
    ∃ w, subspan v start count = some w ∧ w.length = count := by
  refine ⟨(v.drop start).take count, if_pos h, ?_⟩
  rw [List.length_take, List.length_drop]
  omega

theorem exists_write {value : V} (h : i < v.length) : ∃ w, write v i value = some w ∧ w.length = v.length :=
  ⟨v.set i value, if_pos h, List.length_set⟩

theorem exists_ofFnM {n : Nat} {f : Fin n → Option V} (h : ∀ i, (f i).isSome) : ∃ w, Vector.ofFnM f = some w := by
  induction n with
  | zero => exact ⟨#v[], Vector.ofFnM_zero⟩
  | succ n ih =>
    obtain ⟨w, hw⟩ := ih fun i => h i.castSucc
    obtain ⟨x, hx⟩ := Option.isSome_iff_exists.1 (h (Fin.last n))
    refine ⟨w.push x, ?_⟩
    rw [Vector.ofFnM_succ, hw, hx]
    rfl

/-- A loop whose turns are inside, given what they all keep, is inside and keeps it. -/
theorem foldlM_keeps {S : Type u} {A : Type v} {step : S → A → Option S} {P : S → Prop} {xs : List A}
    (h : ∀ x ∈ xs, ∀ s, P s → ∃ s', step s x = some s' ∧ P s') {s : S} (hs : P s) : ∃ s', xs.foldlM step s = some s' ∧ P s' := by
  induction xs generalizing s with
  | nil => exact ⟨s, rfl, hs⟩
  | cons x xs ih =>
    obtain ⟨s', hs', hP⟩ := h x List.mem_cons_self s hs
    obtain ⟨s'', hs'', hP'⟩ := ih (fun y hy => h y (List.mem_cons_of_mem x hy)) hP
    refine ⟨s'', ?_, hP'⟩
    rw [List.foldlM_cons, hs']
    exact hs''

/-- A loop is inside if each turn is, with the turns before it: `Inv` is what they leave, and `Ok` says when the turn
is. -/
theorem foldlM_isSome_iff {S : Type u} {A : Type v} {step : S → A → Option S} (Inv : List A → S → Prop)
    {Ok : List A → A → Prop} {xs : List A} {s₀ : S} (h0 : Inv [] s₀)
    (hok : ∀ done x s, done ++ [x] <+: xs → Inv done s → ((step s x).isSome ↔ Ok done x))
    (hinv : ∀ done x s s', done ++ [x] <+: xs → Inv done s → step s x = some s' → Inv (done ++ [x]) s') :
    (xs.foldlM step s₀).isSome ↔ ∀ done x, done ++ [x] <+: xs → Ok done x := by
  have key : ∀ (rest done : List A) (s : S), done ++ rest = xs → Inv done s →
      ((rest.foldlM step s).isSome ↔ ∀ more x, more ++ [x] <+: rest → Ok (done ++ more) x) := by
    intro rest
    induction rest with
    | nil =>
      intro done s _ _
      simp
    | cons x rest ih =>
      intro done s hxs hs
      have hpre : done ++ [x] <+: xs := ⟨rest, by rw [← hxs, List.append_assoc]; rfl⟩
      have hhere := hok done x s hpre hs
      rw [List.foldlM_cons]
      cases hstep : step s x with
      | none =>
        refine iff_of_false (by simp) fun h => ?_
        have := h [] x (List.cons_prefix_cons.2 ⟨rfl, List.nil_prefix⟩)
        rw [List.append_nil, ← hhere, hstep] at this
        cases this
      | some s' =>
        rw [hstep] at hhere
        rw [Option.bind_eq_bind, Option.bind_some, ih (done ++ [x]) s' (by rw [← hxs, List.append_assoc]; rfl)
          (hinv done x s s' hpre hs hstep)]
        constructor
        · intro h more y hmore
          cases more with
          | nil =>
            obtain ⟨rfl, -⟩ := List.cons_prefix_cons.1 hmore
            rw [List.append_nil]
            exact hhere.1 rfl
          | cons z more =>
            obtain ⟨rfl, hrest⟩ := List.cons_prefix_cons.1 hmore
            have := h more y hrest
            rwa [List.append_assoc] at this
        · intro h more y hmore
          have := h (x :: more) y (List.cons_prefix_cons.2 ⟨rfl, hmore⟩)
          rwa [List.append_assoc]
  exact (key xs [] s₀ rfl h0).trans (by simp)

end Access
