import StratForge.DeskRun
import StratForge.Matching

/-!
# One cancels the other

A fill cancels its OCO group only when the pass is over, and only what is pending then. So two orders
of a group can both be filled in one pass, and an order that joins a group after its fill is never
cancelled. `oco_exclusive` is the law without these two: at most one order of a group ever completes.
-/

namespace StratForge
open Relation

/-- A fill followed by an order that joins its OCO group. -/
def Note.JoinsFilled {α : Type} : Note α → Note α → Prop
  | .executed x, .submitted o 0 _ =>
      x.order.status = .Completed ∧ o.ocoGroupId ≠ 0 ∧ o.ocoGroupId = x.order.ocoGroupId
  | _, _ => False

instance {α : Type} : (n n' : Note α) → Decidable (n.JoinsFilled n')
  | .executed _, .submitted _ 0 _ => instDecidableAnd
  | .executed _, .submitted _ (_ + 1) _ => .isFalse id
  | .executed _, .cancelled .. | .executed _, .recorded _ | .executed _, .executed _ => .isFalse id
  | .submitted .., _ | .cancelled .., _ | .recorded _, _ => .isFalse id

namespace Desk
variable {α : Type} {d d' : Desk α} {e o c : Order α} {r : List (Order α)} {i j g lo : Nat}
  {feeds : List (DataFeed α)}

/-- The record of order `i`, of group `g`, is completed. -/
def Done (d : Desk α) (i g : Nat) : Prop := ∃ q, d.record i = some q ∧ q.status = .Completed ∧ q.ocoGroupId = g

/-- The journal has a fill of group `g`. -/
def Filled (journal : List (Note α)) (g : Nat) : Prop :=
  ∃ x, .executed x ∈ journal ∧ x.order.status = .Completed ∧ x.order.ocoGroupId = g

/-- What is known of an order when it is booked: its group has not been filled in this pass. -/
def Unclaimed (groups : List Nat) (e : Order α) : Prop := e.ocoGroupId ≠ 0 → e.ocoGroupId ∉ groups

structure Exclusive (d : Desk α) : Prop where
  unique : ∀ i j g, g ≠ 0 → d.Done i g → d.Done j g → i = j
  /-- The orders of a filled group that are still alive will be cancelled by the second pass. -/
  claimed : ∀ i g, g ≠ 0 → d.Done i g → ∀ e ∈ d.play, e.isAlive = true → e.ocoGroupId = g →
    g ∈ d.groups ∨ d.phase = .resolved ∧ ∃ x r, d.rest = x :: r ∧ x.id = i
  booked : d.phase = .booked → ∀ e r, d.rest = e :: r → e.status = .Completed →
    Filled d.journal e.ocoGroupId ∧ (e.ocoGroupId ≠ 0 → ∀ i, ¬ d.Done i e.ocoGroupId)
  filled : ∀ i g, d.Done i g → Filled d.journal g
  recorded : ∀ o, .recorded o ∈ d.journal → o.status = .Completed → d.Done o.id o.ocoGroupId

theorem Filled.mono {journal journal' : List (Note α)} (hle : journal <+: journal') (h : Filled journal g) :
    Filled journal' g := by
  obtain ⟨x, hx, hst, hg⟩ := h
  exact ⟨x, hle.subset hx, hst, hg⟩

theorem Done.move (hok : d.Ok) (hm : Move lo feeds (Unclaimed) d d') (h : d.Done i g) : d'.Done i g := by
  obtain ⟨q, hq, hst, hg⟩ := h
  obtain ⟨q', hq', hs, hout⟩ := hok.goes hm i q hq
  exact ⟨q', hq', (congrArg Prod.fst (hout hst)).trans hst, hs.ocoGroupId.trans hg⟩

/-- A completed record was so before, unless the order at hand has just been settled. -/
theorem Done.back (hok : d.Ok) (hm : Move lo feeds Unclaimed d d') (h : d'.Done i g) :
    d.Done i g ∨ d.phase = .booked ∧ d'.phase = .resolved ∧ ∃ e r, d.rest = e :: r ∧ d'.rest = e :: r ∧
      e.id = i ∧ e.status = .Completed ∧ e.ocoGroupId = g := by
  obtain ⟨q', hq', hst, hg⟩ := h
  rcases hok.completed_back hm hq' hst with ⟨q, hq, hqst, hs⟩ | ⟨hph, hid, hph', r, hr, hr', -⟩
  · exact .inl ⟨q, hq, hqst, hs.ocoGroupId.symm.trans hg⟩
  · exact .inr ⟨hph, hph', q', r, hr, hr', hid.symm, hst, hg⟩

namespace Exclusive

theorem unique_move (h : d.Exclusive) (hok : d.Ok) (hm : Move lo feeds Unclaimed d d') (hg : g ≠ 0)
    (hi : d'.Done i g) (hj : d'.Done j g) : i = j := by
  rcases Done.back hok hm hi with hi | ⟨hph, -, e, r, hr, -, hei, hst, heg⟩ <;>
    rcases Done.back hok hm hj with hj | ⟨hph', -, e', r', hr', -, hej, hst', heg'⟩
  · exact h.unique i j g hg hi hj
  · exact absurd (heg' ▸ hi) ((h.booked hph' e' r' hr' hst').2 (heg' ▸ hg) i)
  · exact absurd (heg ▸ hj) ((h.booked hph e r hr hst).2 (heg ▸ hg) j)
  · rw [hr] at hr'; cases hr'; exact hei.symm.trans hej

theorem filled_before (h : d.Exclusive) (hok : d.Ok) (hm : Move lo feeds Unclaimed d d')
    (hi : d'.Done i g) : Filled d.journal g := by
  rcases Done.back hok hm hi with hi | ⟨hph, -, e, r, hr, -, -, hst, heg⟩
  · exact h.filled i g hi
  · exact heg ▸ (h.booked hph e r hr hst).1

/-- The order that claims the group is at hand, or has claimed it. -/
theorem claimed_next (hok : d.Ok) (hm : Move lo feeds Unclaimed d d') (hg : g ≠ 0) (hi : d.Done i g)
    (hc : g ∈ d.groups ∨ d.phase = .resolved ∧ ∃ x r, d.rest = x :: r ∧ x.id = i)
    (he : e ∈ d'.play) (halive : e.isAlive = true) (heg : e.ocoGroupId = g) :
    g ∈ d'.groups ∨ d'.phase = .resolved ∧ ∃ x r, d'.rest = x :: r ∧ x.id = i := by
  rcases hc with hc | ⟨hph, x, r, hr, hxi⟩
  · rcases hm.groups_le with hle | hnone
    · exact .inl (hle hc)
    · exact absurd (heg ▸ hc) (hnone e he halive (heg ▸ hg))
  · rcases hok.of_resolved hm hph hr with ⟨hph', x', r', hr', hx', -⟩ | ⟨rfl, hgrp, -⟩
    · exact .inr ⟨hph', x', r', hr', hx'.id.trans hxi⟩
    · -- the turn ends: the group has been claimed
      obtain ⟨q, hq, hst, hqg⟩ := hi
      obtain ⟨q', hq', hst'⟩ := hok.settled (.inl hph) x r hr
      rw [hxi, hq] at hq'; cases hq'
      have hxg : x.ocoGroupId = g := (hok.same (mem_copies.2 (.inl (head_mem_pending hr))) (hxi ▸ hq)).ocoGroupId.trans hqg
      exact .inl (hxg ▸ hgrp (hst'.symm.trans hst) (hxg ▸ hg))

theorem claimed_move (h : d.Exclusive) (hok : d.Ok) (hm : Move lo feeds Unclaimed d d')
    (hC : d'.journal.Pairwise fun n n' => ¬ n.JoinsFilled n') (hg : g ≠ 0) (hi : d'.Done i g)
    (he : e ∈ d'.play) (halive : e.isAlive = true) (heg : e.ocoGroupId = g) :
    g ∈ d'.groups ∨ d'.phase = .resolved ∧ ∃ x r, d'.rest = x :: r ∧ x.id = i := by
  have old : ∀ c ∈ d.play, Becomes lo d c e →
      g ∈ d'.groups ∨ d'.phase = .resolved ∧ ∃ x r, d'.rest = x :: r ∧ x.id = i := by
    intro c hc hb
    have hcg : c.ocoGroupId = g := hb.same.ocoGroupId.symm.trans heg
    rcases Done.back hok hm hi with hi | ⟨-, hph', x, r, -, hr', hxi, -⟩
    · exact claimed_next hok hm hg hi (h.claimed i g hg hi c hc (hb.isAlive halive) hcg) he halive heg
    · exact .inr ⟨hph', x, r, hr', hxi⟩
  rcases hok.play_back hm with hp | ⟨o, seen, hnew, hp, hj⟩
  · obtain ⟨c, hc, hb⟩ := hp e he
    exact old c hc hb
  · rw [hp, List.mem_append, List.mem_singleton] at he
    rcases he with he | rfl
    · exact old e he (.refl d e)
    · -- the order has just joined the group
      obtain ⟨x, hx, hst, hxg⟩ := h.filled_before hok hm hi
      rw [hj, List.pairwise_append] at hC
      exact absurd ⟨hst, heg ▸ hg, heg.trans hxg.symm⟩ (hC.2.2 _ hx _ (List.mem_singleton.2 rfl))

theorem booked_move (h : d.Exclusive) (hok : d.Ok) (hm : Move lo feeds Unclaimed d d') (hph : d'.phase = .booked)
    (hr : d'.rest = e :: r) (hst : e.status = .Completed) :
    Filled d'.journal e.ocoGroupId ∧ (e.ocoGroupId ≠ 0 → ∀ i, ¬ d'.Done i e.ocoGroupId) := by
  have before : ∀ {i g}, d'.Done i g → d.Done i g := by
    intro i g hi
    rcases Done.back hok hm hi with hi | ⟨-, hph', -⟩
    · exact hi
    · rw [hph] at hph'; cases hph'
  rcases hm.booked_back hph with hph0 | ⟨x, c, s, hpk, hc, hr', ⟨p, q, k, hx⟩, -, hB, -, hj⟩
  · obtain ⟨c, s, hc⟩ := hok.head (by rw [hph0]; decide)
    rcases hok.of_booked hm hph0 hc with ⟨-, ⟨c', s', hc', hs, hout⟩, -⟩ | ⟨hres, -⟩
    · rw [hr] at hc'; cases hc'
      obtain ⟨hfill, hnone⟩ := h.booked hph0 c s hc ((congrArg Prod.fst hout).symm.trans hst)
      rw [hs.ocoGroupId]
      exact ⟨hfill.mono hm.journal_le, fun hg i hi => hnone hg i (before hi)⟩
    · rw [hph] at hres; cases hres
  · rw [hr] at hr'; cases hr'
    refine ⟨⟨x, by rw [hj]; simp, hst, rfl⟩, fun hg i hi => ?_⟩
    have halive : c.isAlive = true := by
      by_contra hd
      rw [Bool.not_eq_true] at hd
      rw [hx, Order.execute_of_dead hd] at hst
      exact (hok.unfilled (.inl hpk) c r hc).1 hpk hst
    have hcg : c.ocoGroupId = x.order.ocoGroupId := by rw [hx]; exact (Order.same_execute c p q k).ocoGroupId.symm
    rcases h.claimed i _ hg (before hi) c (head_mem_play hc) halive hcg with hin | ⟨hph', -⟩
    · exact hB (hcg ▸ hg) (hcg ▸ hin)
    · rw [hpk] at hph'; cases hph'

theorem move (h : d.Exclusive) (hok : d.Ok) (hm : Move lo feeds Unclaimed d d')
    (hC : d'.journal.Pairwise fun n n' => ¬ n.JoinsFilled n') : d'.Exclusive where
  unique _ _ _ hg hi hj := h.unique_move hok hm hg hi hj
  claimed _ _ hg hi _ he halive heg := h.claimed_move hok hm hC hg hi he halive heg
  booked hph _ _ hr hst := h.booked_move hok hm hph hr hst
  filled _ _ hi := (h.filled_before hok hm hi).mono hm.journal_le
  recorded o ho hst := by
    rcases hm.recorded_back ho with ho | ho
    · exact (h.recorded o ho hst).move hok hm
    · exact ⟨o, ho, hst, rfl⟩

end Exclusive
end Desk

variable {α W : Type}

theorem Desk.Exclusive.of_fresh {b : BackBroker α W} (hf : b.Fresh) : (b.desk .between).Exclusive := by
  have hnone : ∀ i g, ¬ (b.desk .between).Done i g := by
    rintro i g ⟨q, hq, -⟩
    rw [BackBroker.desk_record, BackBroker.findOrder, hf.allOrders] at hq
    cases hq
  refine ⟨fun i _ _ _ hi => absurd hi (hnone i _), fun i _ _ hi => absurd hi (hnone i _), (fun hph => by cases hph),
    fun i _ hi => absurd hi (hnone i _), fun o ho => ?_⟩
  rw [BackBroker.desk_journal, hf.journal] at ho
  cases ho

variable [Arith α]

/-- In no turn of the pass an order is matched whose OCO group has been filled in an earlier one. -/
def Op.FillsGroupsOnce (h : Hooks α W) (b : BackBroker α W) : Op α → Prop
  | .processOrders feeds => ∀ i < b.pendingOrders.length, ∀ o ∈ (b.passAt h feeds i).broker.pendingOrders[i]?,
      (b.passAt h feeds i).executes feeds o = true → o.ocoGroupId ≠ 0 →
        o.ocoGroupId ∉ (b.passAt h feeds i).filledOcoGroups
  | _ => True

instance (h : Hooks α W) (b : BackBroker α W) : (op : Op α) → Decidable (op.FillsGroupsOnce h b)
  | .processOrders feeds => inferInstanceAs (Decidable (∀ i < b.pendingOrders.length,
      ∀ o ∈ (b.passAt h feeds i).broker.pendingOrders[i]?, (b.passAt h feeds i).executes feeds o = true →
        o.ocoGroupId ≠ 0 → o.ocoGroupId ∉ (b.passAt h feeds i).filledOcoGroups))
  | .cmd _ => .isTrue trivial
  | .setBarIndex _ => .isTrue trivial

/-- A bracket whose main order fills on a narrow bar, and a bar that touches a leg or both. -/
def bracketOn (bar : DataFeed ℚ) : List (Op ℚ) :=
  [.cmd (.buyBracket 1 110 90 0), .processOrders [.ofBar 100 101 99 100], .processOrders [bar]]

end StratForge
