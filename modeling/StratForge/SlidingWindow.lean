import Mathlib.Algebra.Order.Group.Unbundled.Basic
import Mathlib.Algebra.Order.Group.Defs
import Mathlib.Data.List.Basic
import Mathlib.Data.List.TakeWhile
import Mathlib.Order.Basic

/-!
# A sliding window

A limiter admits at most `n` events in a window of length `w`. It keeps a queue of the events that it
has admitted, drops from its front what is older than the window, and admits one more while the queue is
shorter than `n`. `Serves` is what its queue has to do with all the events it has admitted, and
`Serves.limited` says that every closed window holds at most `n` of these, wherever it starts.
-/

namespace SlidingWindow

variable {α : Type} [AddCommGroup α] [LinearOrder α] [IsOrderedAddMonoid α]

/-- The events that a window ending now still counts. -/
def recent (w now : α) (ts : List α) : List α := ts.filter fun t => decide (now - t ≤ w)

/-- The queue without what is too old, from its front. -/
def purge (w now : α) (q : List α) : List α := q.dropWhile fun t => decide (w < now - t)

/-- The events of the closed window of length `w` that starts at `s`. -/
def within (w s : α) (ts : List α) : List α := ts.filter fun t => decide (s ≤ t ∧ t ≤ s + w)

/-- What a limiter's queue has to do with the events admitted so far. -/
structure Serves (w : α) (n : Nat) (now : α) (ts q : List α) : Prop where
  sorted : ts.Pairwise (· ≤ ·)
  past : ∀ t ∈ ts, t ≤ now
  limited : ∀ s, (within w s ts).length ≤ n
  queue : ∃ old, ts = old ++ q ∧ ∀ t ∈ old, w < now - t

variable {w now now' : α} {n : Nat} {ts q : List α}

omit [IsOrderedAddMonoid α] in
theorem recent_stale (h : ∀ t ∈ ts, w < now - t) : recent w now ts = [] := by
  refine List.filter_eq_nil_iff.2 fun t ht => ?_
  rw [decide_eq_true_eq, not_le]
  exact h t ht

/-- What is dropped from the front of a sorted queue is what no longer counts. -/
theorem purge_eq_recent (h : q.Pairwise (· ≤ ·)) : purge w now q = recent w now q := by
  unfold purge recent
  induction q with
  | nil => rfl
  | cons t q ih =>
    obtain ⟨hle, hq⟩ := List.pairwise_cons.1 h
    by_cases ht : w < now - t
    · rw [List.dropWhile_cons_of_pos (by simpa using ht), List.filter_cons_of_neg (by rwa [decide_eq_true_eq, not_le])]
      exact ih hq
    · rw [List.dropWhile_cons_of_neg (by simpa using ht), List.filter_eq_self.2]
      intro b hb
      have htb : t ≤ b := (List.mem_cons.1 hb).elim (fun h => h.ge) (hle b)
      exact decide_eq_true ((sub_le_sub_left htb now).trans (not_lt.1 ht))

namespace Serves

omit [IsOrderedAddMonoid α] in
theorem nil (w : α) (n : Nat) (now : α) : Serves w n now [] [] :=
  ⟨.nil, nofun, fun _ => Nat.zero_le n, [], rfl, nofun⟩

/-- The length of the purged queue counts the events of the window that ends now. -/
theorem count (h : Serves w n now ts q) : (purge w now q).length = (recent w now ts).length := by
  obtain ⟨old, rfl, hold⟩ := h.queue
  rw [purge_eq_recent (List.pairwise_append.1 h.sorted).2.1, show recent w now (old ++ q) =
    recent w now old ++ recent w now q from List.filter_append .., recent_stale hold, List.nil_append]

/-- Time passes. -/
theorem later (h : Serves w n now ts q) (hnow : now ≤ now') : Serves w n now' ts q := by
  obtain ⟨old, hts, hold⟩ := h.queue
  exact ⟨h.sorted, fun t ht => (h.past t ht).trans hnow, h.limited, old, hts,
    fun t ht => (hold t ht).trans_le (sub_le_sub_right hnow t)⟩

omit [IsOrderedAddMonoid α] in
theorem purged (h : Serves w n now ts q) : Serves w n now ts (purge w now q) := by
  obtain ⟨old, rfl, hold⟩ := h.queue
  refine ⟨h.sorted, h.past, h.limited, old ++ q.takeWhile fun t => decide (w < now - t), ?_, ?_⟩
  · rw [purge, List.append_assoc, List.takeWhile_append_dropWhile]
  · intro t ht
    rcases List.mem_append.1 ht with ht | ht
    · exact hold t ht
    · have hdrop := List.mem_takeWhile_imp ht
      exact of_decide_eq_true hdrop

/-- One more event, where the window that ends now has room for it. -/
theorem push (h : Serves w n now ts q) (hroom : (recent w now ts).length < n) :
    Serves w n now (ts ++ [now]) (q ++ [now]) := by
  refine ⟨?_, ?_, ?_, ?_⟩
  · refine List.pairwise_append.2 ⟨h.sorted, List.pairwise_singleton .., ?_⟩
    intro t ht b hb
    obtain rfl := List.mem_singleton.1 hb
    exact h.past t ht
  · intro t ht
    rcases List.mem_append.1 ht with ht | ht
    · exact h.past t ht
    · exact (List.mem_singleton.1 ht).le
  · intro s
    have happ : within w s (ts ++ [now]) = within w s ts ++ within w s [now] := List.filter_append ..
    rw [happ, List.length_append]
    by_cases hin : s ≤ now ∧ now ≤ s + w
    · -- What such a window holds is still counted now.
      have hsub : (within w s ts).length ≤ (recent w now ts).length := by
        refine (List.monotone_filter_right ts fun t ht => ?_).length_le
        have hst : s ≤ t := (of_decide_eq_true ht).1
        refine decide_eq_true ((sub_le_sub_left hst now).trans ?_)
        exact sub_le_iff_le_add'.2 hin.2
      have hone : (within w s [now]).length ≤ 1 := List.length_filter_le ..
      omega
    · rw [show within w s [now] = [] from List.filter_cons_of_neg (by simpa using hin)]
      exact h.limited s
  · obtain ⟨old, rfl, hold⟩ := h.queue
    exact ⟨old, List.append_assoc .., hold⟩

end Serves

end SlidingWindow
