import Mathlib.Data.Set.Insert
import Mathlib.Order.Bounds.Basic
import Mathlib.Order.MinMax

/-!
# The worst fall below a running peak

A sequence is read once; `turn` keeps the highest value so far and the worst of the falls from it, where a fall from a
peak `p` to a value `v` weighs `weigh p v` and only peaks above zero count. `Tracks`: what is kept is the greatest of
zero and of all the falls, each from a value that is the highest up to a later one. The loop may start from a peak that
is not above zero, or from the first value (`tracks_first`).
-/

namespace RunningPeak

variable {α β : Type*} [LinearOrder α] [Zero α]

def turn [LinearOrder β] (weigh : α → α → β) (s : α × β) (v : α) : α × β :=
  let peak := max s.1 v
  (peak, if 0 < peak then max s.2 (weigh peak v) else s.2)

/-- A fall in `vs` of this weight: from the highest of the values up to `v`. -/
def Falls (weigh : α → α → β) (vs : List α) (w : β) : Prop :=
  ∃ (i j : Nat) (peak v : α), i ≤ j ∧ vs[i]? = some peak ∧ vs[j]? = some v ∧
    (∀ (k : Nat) (x : α), k ≤ j → vs[k]? = some x → x ≤ peak) ∧ 0 < peak ∧ w = weigh peak v

variable {weigh : α → α → β} {vs : List α} {s : α × β} {v : α} {w : β}

/-- The falls to the last value are those from the peak. -/
theorem falls_concat_iff : Falls weigh (vs ++ [v]) w ↔
    Falls weigh vs w ∨ ∃ peak ∈ vs ++ [v], (∀ x ∈ vs ++ [v], x ≤ peak) ∧ 0 < peak ∧ w = weigh peak v := by
  have hlast : (vs ++ [v])[vs.length]? = some v := by simp
  constructor
  · rintro ⟨i, j, peak, x, hij, hi, hj, hle, hpos, rfl⟩
    have hlen : j < vs.length + 1 := by simpa using (List.getElem?_eq_some_iff.1 hj).1
    rcases Nat.lt_succ_iff_lt_or_eq.1 hlen with hlt | rfl
    · have hbefore : ∀ k, k ≤ j → (vs ++ [v])[k]? = vs[k]? := fun k hk => List.getElem?_append_left (by omega)
      rw [hbefore i hij] at hi
      rw [hbefore j le_rfl] at hj
      exact Or.inl ⟨i, j, peak, x, hij, hi, hj, fun k y hk hy => hle k y hk (hbefore k hk ▸ hy), hpos, rfl⟩
    · rw [hlast, Option.some.injEq] at hj
      subst hj
      refine Or.inr ⟨peak, List.mem_of_getElem? hi, fun y hy => ?_, hpos, rfl⟩
      obtain ⟨k, hk⟩ := List.mem_iff_getElem?.1 hy
      have hklen : k < vs.length + 1 := by simpa using (List.getElem?_eq_some_iff.1 hk).1
      exact hle k y (Nat.le_of_lt_succ hklen) hk
  · rintro (⟨i, j, peak, x, hij, hi, hj, hle, hpos, rfl⟩ | ⟨peak, hmem, hle, hpos, rfl⟩)
    · have hlen := (List.getElem?_eq_some_iff.1 hj).1
      have hbefore : ∀ k, k ≤ j → (vs ++ [v])[k]? = vs[k]? := fun k hk => List.getElem?_append_left (by omega)
      exact ⟨i, j, peak, x, hij, hbefore i hij ▸ hi, hbefore j le_rfl ▸ hj,
        fun k y hk hy => hle k y hk (hbefore k hk ▸ hy), hpos, rfl⟩
    · obtain ⟨i, hi⟩ := List.mem_iff_getElem?.1 hmem
      have hilen : i < vs.length + 1 := by simpa using (List.getElem?_eq_some_iff.1 hi).1
      exact ⟨i, vs.length, peak, v, Nat.le_of_lt_succ hilen, hi, hlast,
        fun k y _ hy => hle y (List.mem_of_getElem? hy), hpos, rfl⟩

variable [LinearOrder β] [Zero β]

/-- What the loop keeps: a peak that counts is the highest value. -/
structure Tracks (weigh : α → α → β) (vs : List α) (s : α × β) : Prop where
  above : ∀ x ∈ vs, x ≤ s.1
  mem : 0 < s.1 → s.1 ∈ vs
  worst : IsGreatest (insert 0 {w | Falls weigh vs w}) s.2

namespace Tracks

theorem nonneg (h : Tracks weigh vs s) : 0 ≤ s.2 := h.worst.2 (Set.mem_insert ..)

theorem nil {peak : α} (h : peak ≤ 0) : Tracks weigh [] (peak, 0) := by
  refine ⟨fun x hx => absurd hx List.not_mem_nil, fun hpos => absurd hpos h.not_gt, Set.mem_insert .., ?_⟩
  rintro w (rfl | ⟨i, j, peak, v, -, hi, -⟩)
  · exact le_rfl
  · simp at hi

theorem concat (h : Tracks weigh vs s) (v : α) : Tracks weigh (vs ++ [v]) (turn weigh s v) := by
  have habove : ∀ x ∈ vs ++ [v], x ≤ max s.1 v := by
    intro x hx
    rcases List.mem_append.1 hx with hx | hx
    · exact (h.above x hx).trans (le_max_left ..)
    · exact List.mem_singleton.1 hx ▸ le_max_right ..
  have hmem : 0 < max s.1 v → max s.1 v ∈ vs ++ [v] := by
    intro hpos
    rcases max_choice s.1 v with hm | hm
    · rw [hm] at hpos ⊢
      exact List.mem_append_left _ (h.mem hpos)
    · rw [hm]
      simp
  refine ⟨habove, hmem, ?_⟩
  unfold turn
  dsimp only
  by_cases hpos : 0 < max s.1 v
  · have hset : insert 0 {w | Falls weigh (vs ++ [v]) w} =
        insert (weigh (max s.1 v) v) (insert 0 {w | Falls weigh vs w}) := by
      ext w
      simp only [Set.mem_insert_iff, Set.mem_ofPred_eq, falls_concat_iff]
      constructor
      · rintro (rfl | hw | ⟨peak, hin, hle, -, rfl⟩)
        · exact Or.inr (Or.inl rfl)
        · exact Or.inr (Or.inr hw)
        · exact Or.inl (congrArg (weigh · v) (le_antisymm (habove _ hin) (hle _ (hmem hpos))))
      · rintro (rfl | rfl | hw)
        · exact Or.inr (Or.inr ⟨_, hmem hpos, habove, hpos, rfl⟩)
        · exact Or.inl rfl
        · exact Or.inr (Or.inl hw)
    rw [if_pos hpos, hset, max_comm s.2]
    exact h.worst.insert _
  · have hset : {w | Falls weigh (vs ++ [v]) w} = {w | Falls weigh vs w} := by
      ext w
      simp only [Set.mem_ofPred_eq, falls_concat_iff]
      refine ⟨?_, Or.inl⟩
      rintro (hw | ⟨peak, hin, -, hpeak, -⟩)
      · exact hw
      · exact absurd (hpeak.trans_le (habove _ hin)) hpos
    rw [if_neg hpos, hset]
    exact h.worst

/-- From the first value: it is its own peak. -/
theorem first (v : α) : Tracks weigh [v] (turn weigh (v, 0) v) := by
  have hnil : Tracks weigh ([] : List α) (0, 0) := .nil le_rfl
  have h := hnil.concat v
  have hworst : (turn weigh (v, 0) v).2 = (turn weigh (0, 0) v).2 := by
    unfold turn
    dsimp only
    rw [max_self]
    rcases lt_or_ge 0 v with hpos | hneg
    · rw [max_eq_right hpos.le]
    · rw [max_eq_left hneg, if_neg hneg.not_gt, if_neg (lt_irrefl _)]
  refine ⟨?_, ?_, hworst ▸ h.worst⟩
  · simp [turn]
  · simp [turn]

theorem foldl (h : Tracks weigh vs s) (rest : List α) : Tracks weigh (vs ++ rest) (rest.foldl (turn weigh) s) := by
  induction rest generalizing vs s with
  | nil => simpa using h
  | cons v rest ih => simpa using ih (h.concat v)

end Tracks

/-- Where a fall that does not count weighs nothing, there is no need to leave it out. -/
theorem turn_eq (h : 0 ≤ s.2) (v : α) :
    turn weigh s v = (max s.1 v, max s.2 (if 0 < max s.1 v then weigh (max s.1 v) v else 0)) := by
  unfold turn
  dsimp only
  split_ifs
  · rfl
  · rw [max_eq_left h]

end RunningPeak
