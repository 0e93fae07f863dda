import StratForge.DeskRun

/-!
# Brackets

The three orders of a bracket are submitted one by one, and the pre-order hook answers for each. An
order that is submitted under a parent and not transmitted is executed only once the parent has filled
(`Desk.Gated`), so the legs are safe when they have a main order to wait for and its size: when the
hook rejects all three orders or accepts them with one size.
-/

namespace StratForge
open Relation

namespace Desk
variable {α : Type} {d d' : Desk α} {e o c : Order α} {r : List (Order α)} {id lo : Nat}
  {feeds : List (DataFeed α)} {B : List Nat → Order α → Prop}

/-- The record of the order has been completed. -/
def Completes (journal : List (Note α)) (id : Nat) : Prop :=
  ∃ m, .recorded m ∈ journal ∧ m.id = id ∧ m.status = .Completed

/-- The order was transmitted when it was submitted. -/
def Sent (journal : List (Note α)) (id : Nat) : Prop :=
  ∃ o turn seen, .submitted o turn seen ∈ journal ∧ o.id = id ∧ o.transmit = true

structure Gated (d : Desk α) : Prop where
  known : ∀ o turn seen, .submitted o turn seen ∈ d.journal → ∃ q, d.record o.id = some q ∧ Order.Same o q
  unique : ∀ o turn seen o' turn' seen', .submitted o turn seen ∈ d.journal →
    .submitted o' turn' seen' ∈ d.journal → o.id = o'.id → o = o'
  completed : ∀ id q, d.record id = some q → q.status = .Completed → Completes d.journal id
  released : ∀ e ∈ d.play, e.transmit = true → Sent d.journal e.id ∨ Completes d.journal e.parentId
  executed : ∀ j x j', d.journal = j ++ .executed x :: j' → (∃ q, d.record x.order.id = some q ∧ Order.Same q x.order) ∧
    (x.order.parentId = 0 ∨ Sent j x.order.id ∨ Completes j x.order.parentId)

theorem Completes.mono {j j' : List (Note α)} (hle : j <+: j') (h : Completes j id) : Completes j' id := by
  obtain ⟨m, hm, h⟩ := h
  exact ⟨m, hle.subset hm, h⟩

theorem Sent.mono {j j' : List (Note α)} (hle : j <+: j') (h : Sent j id) : Sent j' id := by
  obtain ⟨o, turn, seen, ho, h⟩ := h
  exact ⟨o, turn, seen, hle.subset ho, h⟩

namespace Gated

theorem known_move (h : d.Gated) (hok : d.Ok) (hm : Move lo feeds B d d') {turn seen : Nat}
    (ho : .submitted o turn seen ∈ d'.journal) : ∃ q, d'.record o.id = some q ∧ Order.Same o q := by
  rcases hm.submitted_back ho with ho | ⟨-, hrec, -⟩
  · obtain ⟨q, hq, hs⟩ := h.known o turn seen ho
    obtain ⟨q', hq', hs', -⟩ := hok.goes hm _ q hq
    exact ⟨q', hq', hs.trans hs'⟩
  · exact ⟨o, hrec, .refl o⟩

theorem unique_move (h : d.Gated) (hok : d.Ok) (hm : Move lo feeds B d d') {turn seen turn' seen' : Nat}
    (ho : .submitted o turn seen ∈ d'.journal) (hc : .submitted c turn' seen' ∈ d'.journal) (hid : o.id = c.id) :
    o = c := by
  -- an order that is known has an earlier id than a new one
  have old : ∀ {x y : Order α} {t s : Nat}, .submitted x t s ∈ d.journal → New y d.nextOrderId → x.id ≠ y.id := by
    intro x y t s hx hnew heq
    obtain ⟨q, hq, -⟩ := h.known x t s hx
    have := (hok.record _ q hq).2.2
    rw [heq, hnew.id] at this
    exact lt_irrefl _ this
  rcases hm.submitted_back ho with ho | ⟨hnew, -, hj⟩ <;> rcases hm.submitted_back hc with hc | ⟨hnew', -, hj'⟩
  · exact h.unique o turn seen c turn' seen' ho hc hid
  · exact absurd hid (old ho hnew')
  · exact absurd hid.symm (old hc hnew)
  · rw [hj] at hj'
    have := List.append_cancel_left hj'
    cases this
    rfl

theorem completed_move (h : d.Gated) (hok : d.Ok) (hm : Move lo feeds B d d') {q : Order α}
    (hq : d'.record id = some q) (hst : q.status = .Completed) : Completes d'.journal id := by
  rcases hok.completed_back hm hq hst with ⟨p, hp, hpst, -⟩ | ⟨-, rfl, -, r, -, -, hrec⟩
  · exact (h.completed id p hp hpst).mono hm.journal_le
  · exact ⟨q, hrec, rfl, hst⟩

theorem released_move (h : d.Gated) (hok : d.Ok) (hm : Move lo feeds B d d') (he : e ∈ d'.play)
    (ht : e.transmit = true) : Sent d'.journal e.id ∨ Completes d'.journal e.parentId := by
  have old : ∀ c ∈ d.play, Becomes lo d c e → Sent d'.journal e.id ∨ Completes d'.journal e.parentId := by
    intro c hc hb
    rw [hb.same.id, hb.same.parentId]
    rcases hb.transmit ht with hct | ⟨p, hp, hst⟩
    · exact (h.released c hc hct).imp (·.mono hm.journal_le) (·.mono hm.journal_le)
    · exact .inr ((h.completed _ p hp hst).mono hm.journal_le)
  rcases hok.play_back hm with hp | ⟨o, seen, hnew, hp, hj⟩
  · obtain ⟨c, hc, hb⟩ := hp e he
    exact old c hc hb
  · rw [hp, List.mem_append, List.mem_singleton] at he
    rcases he with he | rfl
    · exact old e he (.refl d e)
    · exact .inl ⟨e, 0, seen, by rw [hj]; simp, rfl, ht⟩

theorem executed_move (h : d.Gated) (hok : d.Ok) (hm : Move lo feeds B d d') {j j' : List (Note α)}
    {x : Execution α} (hx : d'.journal = j ++ .executed x :: j') :
    (∃ q, d'.record x.order.id = some q ∧ Order.Same q x.order) ∧
      (x.order.parentId = 0 ∨ Sent j x.order.id ∨ Completes j x.order.parentId) := by
  have old : ∀ l, d.journal = j ++ .executed x :: l → (∃ q, d'.record x.order.id = some q ∧ Order.Same q x.order) ∧
      (x.order.parentId = 0 ∨ Sent j x.order.id ∨ Completes j x.order.parentId) := by
    intro l hl
    obtain ⟨⟨q, hq, hs⟩, hgate⟩ := h.executed j x l hl
    obtain ⟨q', hq', hs', -⟩ := hok.goes hm _ q hq
    exact ⟨⟨q', hq', hs'.symm.trans hs⟩, hgate⟩
  have new : ∀ ns, d'.journal = d.journal ++ ns → ∀ a, j = d.journal ++ a → .executed x ∈ ns → ns = a ++ .executed x :: j' →
      (∃ q, d'.record x.order.id = some q ∧ Order.Same q x.order) ∧
        (x.order.parentId = 0 ∨ Sent j x.order.id ∨ Completes j x.order.parentId) := by
    intro ns hj a hja hmem hns
    obtain ⟨c, r, hpk, hc, -, -, ⟨p, z, k, hxc⟩, -, hrec, hone⟩ := hm.executed_back hj hmem
    obtain rfl : a = [] := by
      rw [hone] at hns
      cases a with
      | nil => rfl
      | cons y a => exact absurd (congrArg List.length hns) (by simp)
    rw [List.append_nil] at hja
    subst hja
    have hs : Order.Same c x.order := hxc ▸ Order.same_execute c p z k
    obtain ⟨q, hq, hqs⟩ := hok.known c (copies_of_play (head_mem_play hc))
    refine ⟨⟨q, by rw [hrec, hs.id]; exact hq, hqs.trans hs⟩, ?_⟩
    rw [hs.id, hs.parentId]
    rcases hok.gate hpk c r hc with ht | hp
    · exact .inr (h.released c (head_mem_play hc) ht)
    · exact .inl hp
  obtain ⟨ns, hj⟩ := hm.journal_le
  have heq := hj.trans hx
  rcases List.append_eq_append_iff.1 heq with ⟨a, hja, hns⟩ | ⟨b, hjb, hns⟩
  · exact new ns hj.symm a hja (by rw [hns]; simp) hns
  · cases b with
    | nil => exact new ns hj.symm [] (by simpa using hjb.symm) (by rw [← List.nil_append ns, ← hns]; simp) (by simpa using hns.symm)
    | cons y b =>
      obtain ⟨rfl, -⟩ := List.cons.inj hns
      exact old b hjb

theorem move (h : d.Gated) (hok : d.Ok) (hm : Move lo feeds B d d') : d'.Gated where
  known _ _ _ ho := h.known_move hok hm ho
  unique _ _ _ _ _ _ ho hc hid := h.unique_move hok hm ho hc hid
  completed _ _ hq hst := h.completed_move hok hm hq hst
  released _ he ht := h.released_move hok hm he ht
  executed _ _ _ hx := h.executed_move hok hm hx

theorem of_fresh {W : Type} {b : BackBroker α W} (hf : b.Fresh) : (b.desk .between).Gated := by
  have hj : (b.desk .between).journal = [] := by rw [BackBroker.desk_journal, hf.journal]
  refine ⟨?_, ?_, ?_, ?_, ?_⟩
  · intro o turn seen ho; rw [hj] at ho; cases ho
  · intro o turn seen o' turn' seen' ho; rw [hj] at ho; cases ho
  · intro i q hq
    rw [BackBroker.desk_record, BackBroker.findOrder, hf.allOrders] at hq
    cases hq
  · intro e he
    have : (b.desk .between).play = [] := by simp [play, BackBroker.desk, hf.pendingOrders]
    rw [this] at he; cases he
  · intro j x j' hx
    rw [hj] at hx
    exact absurd hx.symm (by simp)

/-- An order that was submitted under a parent and not transmitted is executed after the parent has filled. -/
theorem completes (h : d.Gated) {turn seen : Nat}
    (ho : .submitted o turn seen ∈ d.journal) (hp : o.parentId ≠ 0) (ht : o.transmit = false) {j j' : List (Note α)}
    {x : Execution α} (hx : d.journal = j ++ .executed x :: j') (hid : x.order.id = o.id) :
    Completes j o.parentId := by
  obtain ⟨⟨q, hq, hs⟩, hgate⟩ := h.executed j x j' hx
  obtain ⟨q', hq', hs'⟩ := h.known o turn seen ho
  rw [hid, hq'] at hq
  cases hq
  rw [hs.parentId, hs'.parentId] at hgate
  rcases hgate with hg | ⟨o', turn', seen', ho', hid', ht'⟩ | hg
  · exact absurd hg hp
  · have heq := h.unique o' turn' seen' o turn seen (hx ▸ List.mem_append_left _ ho') ho (hid'.trans hid)
    rw [heq, ht] at ht'
    cases ht'
  · exact hg

end Gated
end Desk
namespace BackBroker
variable {α W : Type} [Arith α] {h : Hooks α W} {b : BackBroker α W}

/-! ### What a call submits -/

/-- An order as `submit_order_ext` makes it. -/
structure Made (por : PreOrderResult α) (params : OrderParams α) (id : Nat) (o : Order α) : Prop where
  new : Desk.New o id
  size : o.size = por.finalSize
  dataIndex : o.dataIndex = params.dataIndex
  validUntilBar : o.validUntilBar = params.validUntilBar
  ocoGroupId : o.ocoGroupId = params.ocoGroupId
  parentId : o.parentId = params.parentId
  transmit : o.transmit = params.transmit

theorem submitOrderExt_of_rejected {side : OrderSide} {size : α} {params : OrderParams α}
    (hrej : (h.preOrderHook side size params.dataIndex b).1.rejected = true) :
    submitOrderExt h side size params b = (0, { b with world := (h.preOrderHook side size params.dataIndex b).2 }) := by
  unfold submitOrderExt
  simp only [hrej, if_true]

theorem submitOrderExt_of_accepted {side : OrderSide} {size : α} {params : OrderParams α}
    (hacc : (h.preOrderHook side size params.dataIndex b).1.rejected = false) :
    ∃ o, submitOrderExt h side size params b =
        (b.nextOrderId, { b with world := (h.preOrderHook side size params.dataIndex b).2 }.pushOrder o) ∧
      Made (h.preOrderHook side size params.dataIndex b).1 params b.nextOrderId o := by
  unfold submitOrderExt
  simp only [hacc, Bool.false_eq_true, if_false]
  exact ⟨_, rfl, ⟨rfl, rfl, rfl⟩, rfl, rfl, rfl, rfl, rfl, rfl⟩

/-- The hook's answers to the three submissions of a bracket. -/
def bracketAnswers (h : Hooks α W) (mainSide legSide : OrderSide) (size limitPrice : α)
    (dataIndex : Nat) (b : BackBroker α W) : PreOrderResult α × PreOrderResult α × PreOrderResult α :=
  let ocoGrp := b.nextOcoGroupId
  let b := { b with nextOcoGroupId := b.nextOcoGroupId + 1 }
  let main := (h.preOrderHook mainSide size dataIndex b).1
  let (mainId, b) := submitOrder h mainSide size 0 none .Market dataIndex b
  let limit := (h.preOrderHook legSide size dataIndex b).1
  let (_, b) := submitOrderExt h legSide size (tpParams limitPrice dataIndex mainId ocoGrp) b
  (main, limit, (h.preOrderHook legSide size dataIndex b).1)

/-- All three are rejected, or all three accepted with one size. -/
def Uniform : PreOrderResult α × PreOrderResult α × PreOrderResult α → Prop
  | (main, limit, stop) =>
    (main.rejected = true ∧ limit.rejected = true ∧ stop.rejected = true) ∨
      (main.rejected = false ∧ limit.rejected = false ∧ stop.rejected = false ∧
        limit.finalSize = main.finalSize ∧ stop.finalSize = main.finalSize)

/-- A bracket as a call submits it. -/
structure Bracketed (r : BracketResult) (main limit stop : Order α) : Prop where
  mainId : main.id = r.mainId
  limitId : limit.id = r.limitId
  stopId : stop.id = r.stopId
  limitParent : limit.parentId = r.mainId
  stopParent : stop.parentId = r.mainId
  limitHeld : limit.transmit = false
  stopHeld : stop.transmit = false
  limitSize : limit.size = main.size
  stopSize : stop.size = main.size

theorem bracket_notes {mainSide legSide : OrderSide} {size limitPrice stopPrice : α} {k : Nat}
    (hu : Uniform (bracketAnswers h mainSide legSide size limitPrice k b)) :
    (bracket h mainSide legSide size limitPrice stopPrice k b).1 = ⟨0, 0, 0⟩ ∨
      ∃ main limit stop seen, Bracketed (bracket h mainSide legSide size limitPrice stopPrice k b).1 main limit stop ∧
        (bracket h mainSide legSide size limitPrice stopPrice k b).2.journal = b.journal ++
          [.submitted main b.turn seen, .submitted limit b.turn seen, .submitted stop b.turn seen] := by
  let params : OrderParams α := { OrderParams.default with type := .Market, price := 0, stopPrice := none, dataIndex := k }
  let b0 : BackBroker α W := { b with nextOcoGroupId := b.nextOcoGroupId + 1 }
  have hsub : submitOrder h mainSide size 0 none .Market k b0 = submitOrderExt h mainSide size params b0 := rfl
  unfold bracketAnswers at hu
  unfold bracket
  dsimp only at hu ⊢
  rw [hsub] at hu ⊢
  rcases hu with ⟨h1, h2, h3⟩ | ⟨h1, h2, h3, hs2, hs3⟩
  · rw [@submitOrderExt_of_rejected _ _ _ h b0 mainSide size params h1] at h2 h3 ⊢
    rw [@submitOrderExt_of_rejected _ _ _ h _ legSide size (tpParams limitPrice k 0 b.nextOcoGroupId) h2] at h3 ⊢
    rw [@submitOrderExt_of_rejected _ _ _ h _ legSide size (slParams stopPrice k 0 b.nextOcoGroupId) h3]
    exact .inl rfl
  · obtain ⟨o1, he1, m1⟩ := @submitOrderExt_of_accepted _ _ _ h b0 mainSide size params h1
    rw [he1] at h2 h3 hs2 hs3 ⊢
    obtain ⟨o2, he2, m2⟩ := @submitOrderExt_of_accepted _ _ _ h _ legSide size
      (tpParams limitPrice k b0.nextOrderId b.nextOcoGroupId) h2
    rw [he2] at h3 hs3 ⊢
    obtain ⟨o3, he3, m3⟩ := @submitOrderExt_of_accepted _ _ _ h _ legSide size
      (slParams stopPrice k b0.nextOrderId b.nextOcoGroupId) h3
    rw [he3]
    refine .inr ⟨o1, o2, o3, b.seen k, ⟨m1.new.id, m2.new.id, m3.new.id, m2.parentId, m3.parentId, m2.transmit,
      m3.transmit, ?_, ?_⟩, ?_⟩
    · rw [m2.size, m1.size]; exact hs2
    · rw [m3.size, m1.size]; exact hs3
    · simp only [linkChildren, pushOrder, note, m1.dataIndex, m2.dataIndex, m3.dataIndex]
      simp [b0, params, tpParams, slParams]

end BackBroker

variable {α W : Type} [Arith α]

/-- The legs of a bracket are executed only after its own main order has been completed, and have its
size. `c` is the broker at the call, between operations or inside a callback: what the call leaves in
the journal stands in that of the run. -/
theorem bracket_legs_gated (L : Listener α W) (fuel : Nat) {b : BackBroker α W} (hf : b.Fresh) (ops : List (Op α))
    {h : Hooks α W} {mainSide legSide : OrderSide} {size limitPrice stopPrice : α} {k : Nat} {c : BackBroker α W}
    {r : BackBroker.BracketResult} (hr : r = (BackBroker.bracket h mainSide legSide size limitPrice stopPrice k c).1)
    (hcall : (BackBroker.bracket h mainSide legSide size limitPrice stopPrice k c).2.journal <+:
      (b.run (L.hooks fuel) ops).journal)
    (hu : BackBroker.Uniform (BackBroker.bracketAnswers h mainSide legSide size limitPrice k c)) :
    (∀ j x j', (b.run (L.hooks fuel) ops).journal = j ++ .executed x :: j' →
      x.order.id = r.limitId ∨ x.order.id = r.stopId → Desk.Completes j r.mainId) ∧
    (r = ⟨0, 0, 0⟩ ∨ ∃ main ∈ (b.run (L.hooks fuel) ops).allOrders, ∃ limit ∈ (b.run (L.hooks fuel) ops).allOrders,
      ∃ stop ∈ (b.run (L.hooks fuel) ops).allOrders, main.id = r.mainId ∧ limit.id = r.limitId ∧
        stop.id = r.stopId ∧ limit.size = main.size ∧ stop.size = main.size) := by
  have hh := BackBroker.tame_hooks L fuel
  have hready := Ready.of_fresh hf
  have hok := (hready.run_ready hh ops).ok
  have hg : ((b.run (L.hooks fuel) ops).desk .between).Gated :=
    @Ready.run_of_notes _ _ _ _ _ _ (fun _ => True) _ hready hh
      (fun feeds d d' hok hm _ hI => hI.move hok hm) (.of_fresh hf) ops fun _ _ => trivial
  have hj := BackBroker.desk_journal (b.run (L.hooks fuel) ops) .between
  rcases BackBroker.bracket_notes hu with h0 | ⟨main, limit, stop, seen, hb, hnotes⟩
  · rw [← hr] at h0
    refine ⟨fun j x j' hx hid => ?_, .inl h0⟩
    -- no order has the id 0
    obtain ⟨⟨q, hq, -⟩, -⟩ := hg.executed j x j' (hj.trans hx)
    have := (hok.record _ q hq).2.1
    rw [h0] at hid
    rcases hid with hid | hid <;> rw [hid] at this <;> exact absurd this (lt_irrefl 0)
  · rw [← hr] at hb
    have mem : ∀ n ∈ ([.submitted main c.turn seen, .submitted limit c.turn seen, .submitted stop c.turn seen] :
        List (Note α)), n ∈ ((b.run (L.hooks fuel) ops).desk .between).journal := by
      intro n hn
      rw [hj]
      exact hcall.subset (by rw [hnotes]; exact List.mem_append_right _ hn)
    have hmain := mem (.submitted main c.turn seen) (by simp)
    have hlimit := mem (.submitted limit c.turn seen) (by simp)
    have hstop := mem (.submitted stop c.turn seen) (by simp)
    have recorded : ∀ {o : Order α}, .submitted o c.turn seen ∈ ((b.run (L.hooks fuel) ops).desk .between).journal →
        ∃ q ∈ (b.run (L.hooks fuel) ops).allOrders, q.id = o.id ∧ q.size = o.size ∧ 0 < o.id := by
      intro o ho
      obtain ⟨q, hq, hs⟩ := hg.known o _ _ ho
      have hpos := (hok.record _ q hq).2.1
      rw [BackBroker.desk_record] at hq
      exact ⟨q, (Ready.mem_of_find hq).1, hs.id, hs.size, hpos⟩
    obtain ⟨qm, hqm, hidm, hsm, hpos⟩ := recorded hmain
    obtain ⟨ql, hql, hidl, hsl, -⟩ := recorded hlimit
    obtain ⟨qs, hqs, hids, hss, -⟩ := recorded hstop
    have hne : r.mainId ≠ 0 := by rw [← hb.mainId]; exact hpos.ne'
    refine ⟨fun j x j' hx hid => ?_, .inr ⟨qm, hqm, ql, hql, qs, hqs, hidm.trans hb.mainId, hidl.trans hb.limitId,
      hids.trans hb.stopId, by rw [hsl, hsm, hb.limitSize], by rw [hss, hsm, hb.stopSize]⟩⟩
    rw [← hj] at hx
    rcases hid with hid | hid
    · rw [← hb.limitParent]
      exact hg.completes hlimit (hb.limitParent ▸ hne) hb.limitHeld hx (hid.trans hb.limitId.symm)
    · rw [← hb.stopParent]
      exact hg.completes hstop (hb.stopParent ▸ hne) hb.stopHeld hx (hid.trans hb.stopId.symm)

theorem bracket_legs_gated_long :
    let b := BackBroker.funded.run (Listener.silent.hooks 0) [.cmd (.buyBracket 1 110 90 0),
      .processOrders [.ofBar 100 101 99 100], .processOrders [.ofBar 100 120 95 100]]
    b.executions.map (·.order.id) = [1, 2] ∧
    ∀ j x j', b.journal = j ++ .executed x :: j' → x.order.id = 2 ∨ x.order.id = 3 → Desk.Completes j 1 :=
  ⟨by decide +kernel, (@bracket_legs_gated _ _ _ .silent 0 _ (BackBroker.fresh_init ..) [.cmd (.buyBracket 1 110 90 0),
    .processOrders [.ofBar 100 101 99 100], .processOrders [.ofBar 100 120 95 100]] (Listener.silent.hooks 0)
    .Buy .Sell 1 110 90 0 BackBroker.funded ⟨1, 3, 2⟩ rfl (by decide +kernel) (.inr ⟨rfl, rfl, rfl, rfl, rfl⟩)).1⟩

/-- Rejects what a long bracket opens with and accepts its legs. -/
def rejectsBuys : Listener ℚ Unit where
  act _ _ := ((), none)
  preOrderHook side size _ _ := (⟨0, size, side = .Buy⟩, ())

/-- A leg without a main order is executed. -/
theorem naked_leg_is_filled : ¬ ∀ ops : List (Op ℚ),
    ∀ x ∈ (BackBroker.funded.run (rejectsBuys.hooks 0) (.cmd (.buyBracket 1 110 90 0) :: ops)).executions,
      x.order.id = (BackBroker.buyBracket (rejectsBuys.hooks 0) 1 110 90 0 BackBroker.funded).1.limitId →
        ∃ m ∈ (BackBroker.funded.run (rejectsBuys.hooks 0) (.cmd (.buyBracket 1 110 90 0) :: ops)).allOrders,
          m.id = (BackBroker.buyBracket (rejectsBuys.hooks 0) 1 110 90 0 BackBroker.funded).1.mainId ∧
            m.status = .Completed := by
  intro hall
  have := hall [.processOrders [.ofBar 100 120 95 100]]
  revert this
  decide +kernel

end StratForge
