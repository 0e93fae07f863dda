import Mathlib.Algebra.GroupWithZero.Nat
import Mathlib.Logic.Relation
import Mathlib.Data.List.Basic
import Mathlib.Order.WellFounded

/-!
# Workers that share a counter

`n` items are worked on by some workers: a worker takes the next index, works on it, stores what comes of it and takes
another one, until the indices are used up. Taking an index is one step, whatever the others do in between. Working on
an item may also make the worker leave, or bring everything down.

No index is taken twice (`Apart.once`), every interleaving comes to an end (`acc`), and if working on the items only
stores, every worker has left at the end and everything is stored (`stored_of_final`).
-/

namespace WorkPool

/-- What comes of an item. -/
inductive Outcome (R : Type*)
  | stores (r : R)
  | leaves
  | throws

inductive Worker
  | ready
  | busy (i : Nat)
  | gone
deriving DecidableEq

structure Pool (R : Type*) where
  next : Nat
  workers : List Worker
  results : List R
  down : Bool

variable {R : Type*} {work : Nat → Outcome R} {n : Nat} {s s' : Pool R}

def Pool.start (n workers : Nat) (d : R) : Pool R :=
  { next := 0, workers := .replicate workers .ready, results := .replicate n d, down := false }

/-- What a worker does. -/
inductive Step (work : Nat → Outcome R) (n : Nat) (s : Pool R) : Pool R → Prop
  | take {w : Nat} (up : s.down = false) (hw : s.workers[w]? = some .ready) (hn : s.next < n) :
      Step work n s { s with next := s.next + 1, workers := s.workers.set w (.busy s.next) }
  | finish {w : Nat} (up : s.down = false) (hw : s.workers[w]? = some .ready) (hn : n ≤ s.next) :
      Step work n s { s with workers := s.workers.set w .gone }
  | store {w i : Nat} {r : R} (up : s.down = false) (hw : s.workers[w]? = some (.busy i)) (hr : work i = .stores r) :
      Step work n s { s with workers := s.workers.set w .ready, results := s.results.set i r }
  | leave {w i : Nat} (up : s.down = false) (hw : s.workers[w]? = some (.busy i)) (hr : work i = .leaves) :
      Step work n s { s with workers := s.workers.set w .gone }
  | throw {w i : Nat} (up : s.down = false) (hw : s.workers[w]? = some (.busy i)) (hr : work i = .throws) :
      Step work n s { s with down := true }

/-- An interleaving. -/
abbrev Runs (work : Nat → Outcome R) (n : Nat) : Pool R → Pool R → Prop := Relation.ReflTransGen (Step work n)

def Final (work : Nat → Outcome R) (n : Nat) (s : Pool R) : Prop := ∀ s', ¬ Step work n s s'

/-! ### Every interleaving ends -/

def Worker.rank : Worker → Nat
  | .ready => 1
  | .busy _ => 2
  | .gone => 0

/-- What is left to do. -/
def Pool.rank (n : Nat) (s : Pool R) : Nat :=
  2 * (n - s.next) + (s.workers.map Worker.rank).sum + if s.down then 0 else 1

theorem sum_set {l : List Worker} {w : Nat} {a : Worker} (h : l[w]? = some a) (b : Worker) :
    ((l.set w b).map Worker.rank).sum + a.rank = (l.map Worker.rank).sum + b.rank := by
  induction l generalizing w with
  | nil => cases h
  | cons x l ih =>
    cases w with
    | zero =>
      cases h
      simp only [List.set_cons_zero, List.map_cons, List.sum_cons]
      omega
    | succ w =>
      have := ih h
      simp only [List.set_cons_succ, List.map_cons, List.sum_cons]
      omega

theorem Step.rank_lt (h : Step work n s s') : s'.rank n < s.rank n := by
  unfold Pool.rank
  cases h with
  | take up hw hn =>
    have := sum_set hw (.busy s.next)
    simp only [Worker.rank] at this ⊢
    omega
  | finish up hw hn =>
    have := sum_set hw .gone
    simp only [Worker.rank] at this ⊢
    omega
  | store up hw hr =>
    have := sum_set hw .ready
    simp only [Worker.rank] at this ⊢
    omega
  | leave up hw hr =>
    have := sum_set hw .gone
    simp only [Worker.rank] at this ⊢
    omega
  | throw up hw hr => simp [up]

theorem acc (s : Pool R) : Acc (fun s' s => Step work n s s') s :=
  Subrelation.accessible (fun h => Step.rank_lt h) (InvImage.accessible (Pool.rank n) (Nat.lt_wfRel.wf.apply _))

theorem exists_final (work : Nat → Outcome R) (n : Nat) (s : Pool R) : ∃ s', Runs work n s s' ∧ Final work n s' := by
  have hacc : Acc (fun s' s => Step work n s s') s := acc s
  induction hacc with
  | intro s _ ih =>
    by_cases h : Final work n s
    · exact ⟨s, .refl, h⟩
    · obtain ⟨s₁, h₁⟩ := not_forall_not.1 h
      obtain ⟨s', hs', hfinal⟩ := ih s₁ h₁
      exact ⟨s', .head h₁ hs', hfinal⟩

/-! ### What holds in every interleaving -/

/-- A worker changes its own place. -/
theorem get_set {l : List Worker} {w v : Nat} {a b x : Worker} (hw : l[w]? = some a) :
    (l.set w b)[v]? = some x ↔ (v = w ∧ x = b) ∨ (v ≠ w ∧ l[v]? = some x) := by
  obtain ⟨hlt, -⟩ := List.getElem?_eq_some_iff.1 hw
  rw [List.getElem?_set]
  by_cases h : w = v
  · subst h
    simp [hlt, eq_comm]
  · simp [h, Ne.symm h]

/-- No two workers have the same item, and all have one that has been taken. -/
structure Apart (next : Nat) (l : List Worker) : Prop where
  lt : ∀ w i : Nat, l[w]? = some (.busy i) → i < next
  once : ∀ w w' i : Nat, l[w]? = some (.busy i) → l[w']? = some (.busy i) → w = w'

/-- A worker comes to have no item, or one that nobody has. -/
theorem Apart.set {l : List Worker} {next next' w : Nat} {a b : Worker} (h : Apart next l) (hw : l[w]? = some a)
    (hle : next ≤ next') (hb : ∀ i, b = .busy i → next ≤ i ∧ i < next') : Apart next' (l.set w b) := by
  refine ⟨fun v i hv => ?_, fun v v' i hv hv' => ?_⟩
  · rcases (get_set hw).1 hv with ⟨-, heq⟩ | ⟨-, hv⟩
    · exact (hb i heq.symm).2
    · exact (h.lt v i hv).trans_le hle
  · rcases (get_set hw).1 hv with ⟨rfl, heq⟩ | ⟨-, hget⟩ <;> rcases (get_set hw).1 hv' with ⟨rfl, heq'⟩ | ⟨-, hget'⟩
    · rfl
    · exact absurd (h.lt v' i hget') (not_lt.2 (hb i heq.symm).1)
    · exact absurd (h.lt v i hget) (not_lt.2 (hb i heq'.symm).1)
    · exact h.once v v' i hget hget'

/-- The others go on with what they have. -/
theorem busy_set {l : List Worker} {w i : Nat} {a b : Worker} (hw : l[w]? = some a) (h : ∃ v : Nat, l[v]? = some (.busy i)) :
    a = .busy i ∨ ∃ v : Nat, (l.set w b)[v]? = some (.busy i) := by
  obtain ⟨v, hv⟩ := h
  by_cases hvw : v = w
  · rw [hvw, hw] at hv
    exact .inl (Option.some.inj hv)
  · exact .inr ⟨v, (get_set hw).2 (.inr ⟨hvw, hv⟩)⟩

structure Sound (work : Nat → Outcome R) (n k : Nat) (d : R) (s : Pool R) : Prop where
  length : s.results.length = n
  size : s.workers.length = k
  next_le : s.next ≤ n
  apart : Apart s.next s.workers
  given : ∀ (i : Nat) r, s.results[i]? = some r → r = d ∨ work i = .stores r

/-- As long as working on an item only stores: nothing is down, nobody has left early, and an index that has been taken is
being worked on or stored. -/
structure Complete (work : Nat → Outcome R) (n : Nat) (s : Pool R) : Prop where
  up : s.down = false
  gone : ∀ w : Nat, s.workers[w]? = some .gone → n ≤ s.next
  taken : ∀ i < s.next, (∃ w : Nat, s.workers[w]? = some (.busy i)) ∨ ∃ r, work i = .stores r ∧ s.results[i]? = some r

variable {k : Nat} {d : R}

theorem start_workers {w : Nat} {x : Worker} (h : (Pool.start n k d).workers[w]? = some x) : x = .ready :=
  List.eq_of_mem_replicate (List.mem_of_getElem? h)

theorem sound_start (work : Nat → Outcome R) (n k : Nat) (d : R) : Sound work n k d (.start n k d) := by
  refine ⟨List.length_replicate, List.length_replicate, Nat.zero_le _, ⟨fun w i h => ?_, fun w _ i h => ?_⟩, fun i r h => ?_⟩
  · cases start_workers h
  · cases start_workers h
  · exact .inl (List.eq_of_mem_replicate (List.mem_of_getElem? h))

theorem complete_start (work : Nat → Outcome R) (n k : Nat) (d : R) : Complete work n (.start n k d) :=
  ⟨rfl, fun _ h => (nomatch start_workers h), fun i h => absurd h (Nat.not_lt_zero i)⟩

theorem Sound.step (hs : Sound work n k d s) (h : Step work n s s') : Sound work n k d s' := by
  have hsize : ∀ (w : Nat) b, (s.workers.set w b).length = k := fun w b => List.length_set.trans hs.size
  cases h with
  | take up hw hn =>
    refine ⟨hs.length, hsize _ _, hn, hs.apart.set hw (Nat.le_succ _) fun i heq => ?_, hs.given⟩
    cases heq
    exact ⟨le_rfl, Nat.lt_succ_self _⟩
  | finish up hw hn => exact ⟨hs.length, hsize _ _, hs.next_le, hs.apart.set hw le_rfl fun i heq => (nomatch heq), hs.given⟩
  | @store w i r up hw hr =>
    refine ⟨List.length_set.trans hs.length, hsize _ _, hs.next_le, hs.apart.set hw le_rfl fun i heq => (nomatch heq),
      fun j r' hj => ?_⟩
    rw [List.getElem?_set] at hj
    split_ifs at hj with hij hlt
    · cases hj
      exact .inr (hij ▸ hr)
    · exact hs.given j r' hj
  | leave up hw hr => exact ⟨hs.length, hsize _ _, hs.next_le, hs.apart.set hw le_rfl fun i heq => (nomatch heq), hs.given⟩
  | throw up hw hr => exact ⟨hs.length, hs.size, hs.next_le, hs.apart, hs.given⟩

theorem Complete.step (hall : ∀ i < n, ∃ r, work i = .stores r) (hs : Sound work n k d s) (hc : Complete work n s)
    (h : Step work n s s') : Complete work n s' := by
  have hstores : ∀ {w i : Nat}, s.workers[w]? = some (.busy i) → ∃ r, work i = .stores r := fun hw =>
    hall _ ((hs.apart.lt _ _ hw).trans_le hs.next_le)
  cases h with
  | @take w up hw hn =>
    refine ⟨up, fun v hv => ?_, fun i hi => ?_⟩
    · rcases (get_set hw).1 hv with ⟨-, heq⟩ | ⟨-, hv⟩
      · cases heq
      · exact (hc.gone v hv).trans (Nat.le_succ _)
    · rcases Nat.lt_succ_iff_lt_or_eq.1 hi with hi | rfl
      · rcases hc.taken i hi with hbusy | hdone
        · rcases busy_set hw hbusy with heq | hbusy
          · cases heq
          · exact .inl hbusy
        · exact .inr hdone
      · exact .inl ⟨w, (get_set hw).2 (.inl ⟨rfl, rfl⟩)⟩
  | @finish w up hw hn =>
    refine ⟨up, fun _ _ => hn, fun i hi => ?_⟩
    rcases hc.taken i hi with hbusy | hdone
    · rcases busy_set hw hbusy with heq | hbusy
      · cases heq
      · exact .inl hbusy
    · exact .inr hdone
  | @store w i r up hw hr =>
    refine ⟨up, fun v hv => ?_, fun j hj => ?_⟩
    · rcases (get_set hw).1 hv with ⟨-, heq⟩ | ⟨-, hv⟩
      · cases heq
      · exact hc.gone v hv
    · by_cases hij : i = j
      · subst hij
        refine .inr ⟨r, hr, List.getElem?_set_self ?_⟩
        rw [hs.length]
        exact hj.trans_le hs.next_le
      · rcases hc.taken j hj with hbusy | ⟨r', hr', hget⟩
        · rcases busy_set hw hbusy with heq | hbusy
          · cases heq
            exact absurd rfl hij
          · exact .inl hbusy
        · exact .inr ⟨r', hr', (List.getElem?_set_ne hij).trans hget⟩
  | leave up hw hr =>
    obtain ⟨r, hr'⟩ := hstores hw
    rw [hr'] at hr
    cases hr
  | throw up hw hr =>
    obtain ⟨r, hr'⟩ := hstores hw
    rw [hr'] at hr
    cases hr

theorem sound_runs (h : Runs work n (.start n k d) s) : Sound work n k d s := by
  induction h with
  | refl => exact sound_start work n k d
  | tail _ hstep ih => exact ih.step hstep

theorem complete_runs (hall : ∀ i < n, ∃ r, work i = .stores r) (h : Runs work n (.start n k d) s) : Complete work n s := by
  induction h with
  | refl => exact complete_start work n k d
  | tail hruns hstep ih => exact ih.step hall (sound_runs hruns) hstep

/-- At the end every worker has left and everything is stored. -/
theorem stored_of_final (hall : ∀ i < n, ∃ r, work i = .stores r) (hk : n ≠ 0 → 0 < k)
    (h : Runs work n (.start n k d) s) (hfinal : Final work n s) :
    s.down = false ∧ (∀ x ∈ s.workers, x = .gone) ∧ ∀ i < n, ∃ r, work i = .stores r ∧ s.results[i]? = some r := by
  have hs := sound_runs h
  have hc := complete_runs hall h
  have hgone : ∀ (w : Nat) x, s.workers[w]? = some x → x = .gone := by
    intro w x hw
    cases x with
    | ready =>
      rcases Nat.lt_or_ge s.next n with hlt | hge
      · exact absurd (.take hc.up hw hlt) (hfinal _)
      · exact absurd (.finish hc.up hw hge) (hfinal _)
    | busy i =>
      obtain ⟨r, hr⟩ := hall i ((hs.apart.lt w i hw).trans_le hs.next_le)
      exact absurd (.store hc.up hw hr) (hfinal _)
    | gone => rfl
  refine ⟨hc.up, fun x hx => ?_, fun i hi => ?_⟩
  · obtain ⟨w, hw⟩ := List.mem_iff_getElem?.1 hx
    exact hgone w x hw
  · have hpos : 0 < s.workers.length := hs.size ▸ hk (by omega)
    have hfirst := List.getElem?_eq_getElem hpos
    have hle := hc.gone 0 (by rw [hfirst, hgone 0 _ hfirst])
    refine (hc.taken i (by omega)).resolve_left fun ⟨w, hw⟩ => ?_
    cases hgone w _ hw

end WorkPool
