import Mathlib.Tactic.Linarith
import StratForge.Extremes

/-! # The place of an extreme

A window is read at the places below `n`. Of the places that have its extreme, `First` is the least and `Last` the
greatest; the one becomes the other when the window is read from its other end. A scan that moves on to a value which
is beyond all before it ends at the first (`first_scan`), one that also moves on to an equal value at the last
(`last_scan`). -/

namespace Extremes
universe u

variable {A : Type u} [LinearOrder A] {up : Bool} {w : Nat → A} {n i j : Nat} {v : A}

/-- Some value of the window, with none beyond. -/
structure Top (up : Bool) (w : Nat → A) (n : Nat) (v : A) : Prop where
  place : ∃ i < n, w i = v
  last : ∀ i < n, ¬ Beyond up v (w i)

structure First (up : Bool) (w : Nat → A) (n i : Nat) : Prop where
  lt : i < n
  last : ∀ j < n, ¬ Beyond up (w i) (w j)
  before : ∀ j < i, Beyond up (w j) (w i)

structure Last (up : Bool) (w : Nat → A) (n i : Nat) : Prop where
  lt : i < n
  last : ∀ j < n, ¬ Beyond up (w i) (w j)
  after : ∀ j, i < j → j < n → Beyond up (w j) (w i)

theorem Top.unique {v' : A} (h : Top up w n v) (h' : Top up w n v') : v = v' := by
  obtain ⟨i, hi, rfl⟩ := h.place
  obtain ⟨j, hj, rfl⟩ := h'.place
  exact eq_of_not_beyond (h.last j hj) (h'.last i hi)

theorem First.top (h : First up w n i) : Top up w n (w i) := ⟨⟨i, h.lt, rfl⟩, h.last⟩

theorem Last.top (h : Last up w n i) : Top up w n (w i) := ⟨⟨i, h.lt, rfl⟩, h.last⟩

theorem First.unique (h : First up w n i) (h' : First up w n j) : i = j := by
  rcases Nat.lt_trichotomy i j with hlt | heq | hgt
  · exact absurd (h'.before i hlt) (h.last j h'.lt)
  · exact heq
  · exact absurd (h.before j hgt) (h'.last i h.lt)

theorem Last.unique (h : Last up w n i) (h' : Last up w n j) : i = j := by
  rcases Nat.lt_trichotomy i j with hlt | heq | hgt
  · exact absurd (h.after j hlt h'.lt) (h'.last i h.lt)
  · exact heq
  · exact absurd (h'.after i hgt h.lt) (h.last j h'.lt)

/-- The first place with the extreme. -/
theorem Top.first (h : Top up w n v) (hi : i < n) (hv : w i = v) (hbefore : ∀ j < i, w j ≠ v) : First up w n i := by
  subst hv
  refine ⟨hi, h.last, fun j hj => ?_⟩
  by_contra hnot
  exact hbefore j hj (eq_of_not_beyond hnot (h.last j (by omega)))

/-! ### From the other end -/

/-- The window from its other end. -/
def flip (w : Nat → A) (n i : Nat) : A := w (n - 1 - i)

theorem Top.flip (h : Top up (flip w n) n v) : Top up w n v := by
  obtain ⟨i, hi, hv⟩ := h.place
  refine ⟨⟨n - 1 - i, by omega, hv⟩, fun j hj => ?_⟩
  have hlast := h.last (n - 1 - j) (by omega)
  rwa [Extremes.flip, show n - 1 - (n - 1 - j) = j by omega] at hlast

theorem First.flip (h : First up (flip w n) n i) : Last up w n (n - 1 - i) := by
  have hlt := h.lt
  refine ⟨by omega, fun j hj => ?_, fun j hij hj => ?_⟩
  · have hlast := h.last (n - 1 - j) (by omega)
    rwa [Extremes.flip, Extremes.flip, show n - 1 - (n - 1 - j) = j by omega] at hlast
  · have hbefore := h.before (n - 1 - j) (by omega)
    rwa [Extremes.flip, Extremes.flip, show n - 1 - (n - 1 - j) = j by omega] at hbefore

theorem Last.flip (h : Last up (flip w n) n i) : First up w n (n - 1 - i) := by
  have hlt := h.lt
  refine ⟨by omega, fun j hj => ?_, fun j hij => ?_⟩
  · have hlast := h.last (n - 1 - j) (by omega)
    rwa [Extremes.flip, Extremes.flip, show n - 1 - (n - 1 - j) = j by omega] at hlast
  · have hafter := h.after (n - 1 - j) (by omega) (by omega)
    rwa [Extremes.flip, Extremes.flip, show n - 1 - (n - 1 - j) = j by omega] at hafter

/-! ### Scans -/

/-- The best of the places up to `n`, where `takes v best` says when a value is taken for the best so far. -/
def scan (takes : A → A → Bool) (w : Nat → A) : Nat → Nat
  | 0 => 0
  | n + 1 => if takes (w (n + 1)) (w (scan takes w n)) then n + 1 else scan takes w n

theorem first_scan {takes : A → A → Bool} (htakes : ∀ v best, takes v best = true ↔ Beyond up best v) (w : Nat → A) (n : Nat) :
    First up w (n + 1) (scan takes w n) := by
  induction n with
  | zero =>
    refine ⟨Nat.one_pos, fun j hj => ?_, fun j hj => absurd hj (Nat.not_lt_zero j)⟩
    obtain rfl : j = 0 := by omega
    exact not_beyond_self _
  | succ n ih =>
    rw [scan]
    split_ifs with hnew
    · have hnew := (htakes _ _).1 hnew
      have hall : ∀ j < n + 1, Beyond up (w j) (w (n + 1)) := fun j hj => hnew.of_not (ih.last j hj)
      refine ⟨Nat.lt_succ_self _, fun j hj hbeyond => ?_, fun j hj => hall j hj⟩
      rcases Nat.lt_succ_iff_lt_or_eq.1 hj with hlt | rfl
      · exact not_beyond_self _ ((hall j hlt).trans hbeyond)
      · exact not_beyond_self _ hbeyond
    · refine ⟨Nat.lt_succ_of_lt ih.lt, fun j hj => ?_, ih.before⟩
      rcases Nat.lt_succ_iff_lt_or_eq.1 hj with hlt | rfl
      · exact ih.last j hlt
      · exact fun hbeyond => hnew ((htakes _ _).2 hbeyond)

theorem last_scan {takes : A → A → Bool} (htakes : ∀ v best, takes v best = true ↔ ¬ Beyond up v best) (w : Nat → A) (n : Nat) :
    Last up w (n + 1) (scan takes w n) := by
  induction n with
  | zero =>
    refine ⟨Nat.one_pos, fun j hj => ?_, fun j hpos hj => by omega⟩
    obtain rfl : j = 0 := by omega
    exact not_beyond_self _
  | succ n ih =>
    rw [scan]
    split_ifs with hnew
    · have hnew := (htakes _ _).1 hnew
      refine ⟨Nat.lt_succ_self _, fun j hj hbeyond => ?_, fun j hlt hj => by omega⟩
      rcases Nat.lt_succ_iff_lt_or_eq.1 hj with hlt | rfl
      · exact ih.last j hlt (hbeyond.of_not hnew)
      · exact not_beyond_self _ hbeyond
    · have hold : Beyond up (w (n + 1)) (w (scan takes w n)) := by
        by_contra hnot
        exact hnew ((htakes _ _).2 hnot)
      refine ⟨Nat.lt_succ_of_lt ih.lt, fun j hj => ?_, fun j hlt hj => ?_⟩
      · rcases Nat.lt_succ_iff_lt_or_eq.1 hj with hlt | rfl
        · exact ih.last j hlt
        · exact fun hbeyond => not_beyond_self _ (hold.trans hbeyond)
      · rcases Nat.lt_succ_iff_lt_or_eq.1 hj with hlt' | rfl
        · exact ih.after j hlt hlt'
        · exact hold

end Extremes
