import StratForge.DeskRun

/-!
# No order is lost

`process_orders` replaces the pending orders by those it has kept, so what a callback has submitted in
the meantime is gone although its record is alive. Where nothing is submitted during a pass, every
record that is alive has its pending order; the same holds of a class `V` of orders when none of them
is submitted during a pass.
-/

namespace StratForge
open Relation

/-- The pending order of a record: the two differ at most in whether it is transmitted and in what it
knows of its legs. -/
def Order.Twin {α : Type} (q e : Order α) : Prop := e = { q with transmit := e.transmit, childIds := e.childIds }

namespace Order.Twin
variable {α : Type} {q e e' : Order α}

theorem refl (q : Order α) : Twin q q := rfl

theorem trans (h : Twin q e) (h' : Twin e e') : Twin q e' := by
  unfold Twin at *
  rw [h', h]

theorem symm (h : Twin q e) : Twin e q := by
  unfold Twin at *
  rw [h]

theorem id (h : Twin q e) : e.id = q.id := by rw [h]

theorem isAlive (h : Twin q e) : e.isAlive = q.isAlive := by rw [h]; rfl

end Order.Twin

/-- What the law asks: nothing is submitted during a pass. -/
def Note.OutsidePass {α : Type} : Note α → Prop
  | .submitted _ turn _ => turn = 0
  | _ => True

instance {α : Type} : (n : Note α) → Decidable n.OutsidePass
  | .submitted _ turn _ => inferInstanceAs (Decidable (turn = 0))
  | .cancelled .. | .recorded _ | .executed _ => .isTrue trivial

/-- None of the orders `V` is submitted during a pass. -/
def Note.Timely {α : Type} (V : Order α → Prop) : Note α → Prop
  | .submitted o turn _ => V o → turn = 0
  | _ => True

instance {α : Type} {V : Order α → Prop} [DecidablePred V] : (n : Note α) → Decidable (n.Timely V)
  | .submitted o turn _ => inferInstanceAs (Decidable (V o → turn = 0))
  | .cancelled .. | .recorded _ | .executed _ => .isTrue trivial

theorem Note.OutsidePass.timely {α : Type} {n : Note α} (h : n.OutsidePass) : n.Timely fun _ => True := by
  cases n with
  | submitted => exact fun _ => h
  | cancelled | recorded | executed => trivial

namespace Desk
variable {α : Type} {d d' : Desk α} {e o c q : Order α} {r : List (Order α)} {id lo : Nat}
  {feeds : List (DataFeed α)} {B : List Nat → Order α → Prop} {V : Order α → Prop}

/-- The order `q` still stands somewhere, or has been filled with its record to be overwritten. -/
def Stands (d : Desk α) (q : Order α) : Prop :=
  (∃ e ∈ d.play, Order.Twin q e) ∨ (d.phase = .booked ∧ ∃ e r, d.rest = e :: r ∧ e.id = q.id)

/-- The orders `V` that are alive still stand. -/
structure Tracked (V : Order α → Prop) (d : Desk α) : Prop where
  stands : ∀ id q, d.record id = some q → q.isAlive = true → V q → d.Stands q

/-- The head of a filled order is still at hand. -/
def Holds (d : Desk α) (id : Nat) : Prop := d.phase = .booked ∧ ∃ e r, d.rest = e :: r ∧ e.id = id

theorem stands_iff : d.Stands q ↔ (∃ e ∈ d.play, Order.Twin q e) ∨ d.Holds q.id := Iff.rfl

/-- What stands goes on to stand when it stays in play, up to its twin, or is booked. -/
theorem Stands.mono (h : d.Stands q) (ha : q.isAlive = true)
    (hplay : ∀ e ∈ d.play, e.isAlive = true → e.id = q.id → (∃ e' ∈ d'.play, Order.Twin e e') ∨ d'.Holds e.id)
    (hholds : d.Holds q.id → d'.Holds q.id) : d'.Stands q := by
  rcases stands_iff.1 h with ⟨e, he, ht⟩ | hh
  · rcases hplay e he (ht.isAlive.trans ha) ht.id with ⟨e', he', ht'⟩ | hh
    exacts [.inl ⟨e', he', ht.trans ht'⟩, .inr (ht.id ▸ hh)]
  · exact .inr (hholds hh)

theorem Stands.congr {p : Order α} (h : d.Stands p) (ht : Order.Twin q p) : d.Stands q := by
  rcases stands_iff.1 h with ⟨e, he, hte⟩ | hh
  exacts [.inl ⟨e, he, ht.trans hte⟩, .inr (ht.id ▸ hh)]

namespace Tracked

theorem stands_of_eq (h : d.Tracked V) (hrec : d'.record = d.record)
    (hplay : ∀ e ∈ d.play, e.isAlive = true → (∃ e' ∈ d'.play, Order.Twin e e') ∨ d'.Holds e.id)
    (hholds : ∀ id, d.Holds id → d'.Holds id) (hq : d'.record id = some q)
    (ha : q.isAlive = true) (hv : V q) : d'.Stands q :=
  (h.stands id q (hrec ▸ hq) ha hv).mono ha (fun e he hea _ => hplay e he hea) (hholds _)

theorem stands_of_file (h : d.Tracked V) (hok : d.Ok) (hrec : ∀ i, d'.record i = if i = o.id then some o else d.record i)
    (ho : o.isAlive = true → V o → o ∈ d'.play)
    (hplay : ∀ e ∈ d.play, e.isAlive = true → e.id ≠ o.id → e ∈ d'.play)
    (hholds : ∀ id ≠ o.id, d.Holds id → d'.Holds id) (hq : d'.record id = some q)
    (ha : q.isAlive = true) (hv : V q) : d'.Stands q := by
  rw [hrec] at hq
  split at hq
  · cases hq; exact .inl ⟨o, ho ha hv, .refl o⟩
  · rename_i hi
    have hqid := (hok.record id q hq).1
    exact (h.stands id q hq ha hv).mono ha (fun e he hea heq => .inl ⟨e, hplay e he hea (by omega), .refl e⟩)
      (hholds _ (by omega))

theorem play_write (he : e ∈ d.play) (hne : e.id ≠ o.id) : e ∈ (d.write o).play :=
  mem_play.2 ((mem_play.1 he).imp id fun he => Keyed.mem_update_of_ne he hne)

theorem holds_write (h : d.Holds id) : (d.write o).Holds id := by
  obtain ⟨hph, e, r, hr, rfl⟩ := h
  refine ⟨hph, _, _, by rw [rest_write, hr, Keyed.update_cons], ?_⟩
  split
  · rename_i hi; exact hi.symm
  · rfl

theorem stands_move (h : d.Tracked V) (hV : ∀ q e, Order.Twin q e → V e → V q) (hok : d.Ok)
    (hm : Move lo feeds B d d') (hC : ∀ n ∈ d'.journal, n.Timely V) (hq : d'.record id = some q)
    (ha : q.isAlive = true) (hv : V q) : d'.Stands q := by
  -- no order is booked unless the phase says so
  have idle : ∀ {ph}, d.phase = ph → ph ≠ .booked → ∀ {d'' : Desk α} (id : Nat), d.Holds id → d''.Holds id :=
    fun hph hne _ _ hh => absurd (hph.symm.trans hh.1) hne
  have dead : ∀ {e r}, d.rest = e :: r → e.isAlive = false → ∀ x ∈ d.play, x.isAlive = true →
      (∃ e' ∈ (d.next e r).play, Order.Twin x e') ∨ (d.next e r).Holds x.id := by
    intro e r hr hd x hx hxa
    refine .inl ⟨x, mem_play.2 ((mem_play.1 hx).imp_right fun hx => ?_), .refl x⟩
    rw [hr] at hx
    rcases List.mem_cons.1 hx with rfl | hx
    · rw [hd] at hxa; cases hxa
    · exact hx
  have cancelled : ∀ {c : Order α} {d'' : Desk α}, c.isAlive = true → d''.record = (d.write c.cancel).record →
      d''.play = (d.write c.cancel).play → (∀ id, d.Holds id → d''.Holds id) →
      d''.record id = some q → d''.Stands q := by
    intro c d'' hca hrec hplay hholds hq
    refine h.stands_of_file hok (fun i => by rw [hrec]; rfl) (fun hd _ => ?_)
      (fun x hx _ hne => hplay ▸ play_write hx hne) (fun i _ => hholds i) hq ha hv
    rw [Order.cancel, Order.isAlive_setStatus] at hd
    rw [show OrderStatus.Canceled.isAlive = false from rfl, Bool.and_false] at hd
    cases hd
  cases hm with
  | call hcall =>
    cases hcall with
    | @submit o seen hnew hlate =>
      refine h.stands_of_file hok (fun _ => rfl) (fun _ _ => by simp [mem_play, Desk.submit, Desk.log])
        (fun x hx _ _ => ?_) (fun i _ hh => ?_) hq ha hv
      · rcases mem_play.1 hx with hx | hx <;> simp [mem_play, Desk.submit, Desk.log, hx]
      · obtain ⟨hph, e, r, hr, he⟩ := hh
        exact ⟨hph, e, r ++ [o], by simp [Desk.submit, Desk.log, hr], he⟩
    | @submitLate o turn seen hnew hturn =>
      -- it is none of `V`
      have hC' : V o → turn = 0 := hC (.submitted o turn seen) (by simp [Desk.submitLate, Desk.log])
      refine h.stands_of_file hok (fun _ => rfl) (fun _ ho => absurd (hC' ho) (Nat.pos_iff_ne_zero.1 hturn))
        (fun x hx _ _ => hx) (fun i _ hh => hh) hq ha hv
    | link i ids hid =>
      have twin : ∀ x : Order α, Order.Twin x (if x.id = i then { x with childIds := ids } else x) := by
        intro x; split <;> rfl
      obtain ⟨p, hp, ht⟩ : ∃ p, d.record id = some p ∧ Order.Twin p q := by
        replace hq : (if id = i then (d.record i).map ({ · with childIds := ids }) else d.record id) = some q := hq
        split at hq
        · rename_i hi
          obtain ⟨p, hp, rfl⟩ := Option.map_eq_some_iff.1 hq
          exact ⟨p, hi ▸ hp, rfl⟩
        · exact ⟨q, hq, .refl q⟩
      have hpa : p.isAlive = true := ht.isAlive.symm.trans ha
      refine Stands.congr ((h.stands id p hp hpa (hV p q ht hv)).mono hpa (fun x hx _ _ => .inl ?_) fun hh => ?_) ht.symm
      · rcases mem_play.1 hx with hx | hx
        · exact ⟨x, mem_play.2 (.inl hx), .refl x⟩
        · exact ⟨_, mem_play.2 (.inr (Keyed.mem_update.2 ⟨x, hx, rfl⟩)), twin x⟩
      · obtain ⟨hph, e, r, hr, he⟩ := hh
        refine ⟨hph, _, _, by simp only [Desk.link, Desk.edit, hr, Keyed.update_cons]; rfl, (twin e).id.trans he⟩
    | @cancel c pos turn hc halive hpos =>
      exact cancelled halive rfl rfl (fun i hh => holds_write (d := d.log _) hh) hq
  | skip hph hr hdead => exact h.stands_of_eq rfl (dead hr hdead) (idle hph (by decide)) hq ha hv
  | @keep e r hph hr =>
    refine h.stands_of_eq rfl (fun x hx _ => .inl ⟨x, ?_, .refl x⟩)
      (fun i hh => ?_) hq ha hv
    · rw [mem_play, hr, List.mem_cons] at hx
      simp only [mem_play, Desk.keep, Desk.next, List.mem_append, List.mem_singleton]
      tauto
    · rcases hph with hph | hph
      exacts [idle hph (by decide) i hh, idle hph (by decide) i hh]
  | @pick e e' r hph hr halive hgate =>
    have ht : Order.Twin e e' := by
      rcases hgate with ⟨rfl, -⟩ | ⟨rfl, -⟩ <;> rfl
    refine h.stands_of_eq rfl (fun x hx _ => .inl ?_) (idle hph (by decide)) hq ha hv
    rcases mem_play.1 hx with hx | hx
    · exact ⟨x, mem_play.2 (.inl hx), .refl x⟩
    · rw [hr] at hx
      rcases List.mem_cons.1 hx with rfl | hx
      · exact ⟨e', mem_play.2 (.inr (by simp)), ht⟩
      · exact ⟨x, mem_play.2 (.inr (by simp [hx])), .refl x⟩
  | @touch e e' r hph hr ht =>
    refine h.stands_of_file hok (fun _ => rfl) (fun _ _ => ?_) (fun x hx _ hne => play_write hx hne)
      (fun i _ => idle hph (by decide) i) hq ha hv
    refine mem_play.2 (.inr ?_)
    rw [rest_write, hr, Keyed.update_cons, if_pos ht.same.id.symm]
    exact List.mem_cons_self ..
  | drop s hph hr hs | refuse s hph hr hs =>
    refine h.stands_of_file hok (fun _ => rfl) (fun hd _ => ?_) (fun x hx _ hne => play_write hx hne)
      (fun i _ => idle hph (by decide) i) hq ha hv
    rw [Order.isAlive_setStatus, Bool.and_eq_true] at hd
    rcases hs with rfl | rfl <;> cases hd.2
  | @book e r x feed hph hr hfeed hx =>
    obtain ⟨p, z, k, hx⟩ := hx
    have hid : x.order.id = e.id := by rw [hx]; exact (Order.same_execute e p z k).id
    refine h.stands_of_eq rfl (fun c hc _ => ?_) (idle hph (by decide)) hq ha hv
    rcases mem_play.1 hc with hc | hc
    · exact .inl ⟨c, mem_play.2 (.inl hc), .refl c⟩
    · rw [hr] at hc
      rcases List.mem_cons.1 hc with rfl | hc
      · exact .inr ⟨rfl, x.order, r, rfl, hid⟩
      · exact .inl ⟨c, mem_play.2 (.inr (List.mem_cons_of_mem _ hc)), .refl c⟩
  | @settle e r hph hr =>
    have hd := hok.dead (by rw [hph]; decide) (by rw [hph]; decide) e r hr
    refine h.stands_of_file hok (fun _ => rfl) (fun hea _ => ?_) (fun x hx _ _ => hx) (fun i hi hh => ?_) hq ha hv
    · rw [hd] at hea; cases hea
    · obtain ⟨-, e', r', hr', rfl⟩ := hh
      rw [hr] at hr'; cases hr'
      exact absurd rfl hi
  | group hph => exact h.stands_of_eq rfl (fun x hx _ => .inl ⟨x, hx, .refl x⟩) (idle hph (by decide)) hq ha hv
  | @activate e r hph hr hs =>
    refine h.stands_of_eq rfl (fun x hx _ => .inl ?_) (idle hph (by decide)) hq ha hv
    rcases mem_play.1 hx with hx | hx
    · exact ⟨x, mem_play.2 (.inl hx), .refl x⟩
    · refine ⟨release e.id x, mem_play.2 (.inr (List.mem_map_of_mem hx)), ?_⟩
      unfold release
      split <;> rfl
  | child hph hr hs hc halive hparent => exact cancelled halive rfl rfl (idle hph (by decide)) hq
  | @dismiss e r hr hwhy =>
    have hph : d.phase = .dropped ∨ d.phase = .resolved := hwhy.imp_right And.left
    have hd := hok.dead (by rcases hph with hp | hp <;> rw [hp] <;> decide)
      (by rcases hph with hp | hp <;> rw [hp] <;> decide) e r hr
    refine h.stands_of_eq rfl (dead hr hd) (fun i hh => ?_) hq ha hv
    rcases hph with hp | hp
    exacts [idle hp (by decide) i hh, idle hp (by decide) i hh]
  | @oco e hph hr he halive =>
    refine h.stands_of_file hok (fun _ => rfl) (fun hd _ => ?_) (fun x hx _ hne => ?_) (fun i _ => idle hph (by decide) i) hq ha hv
    · rw [Order.cancel, Order.isAlive_setStatus, Bool.and_eq_true] at hd
      cases hd.2
    · exact mem_play.2 ((mem_play.1 hx).imp_left fun hx => Keyed.mem_update_of_ne hx hne)
  | finish hph hr hsub hall =>
    refine h.stands_of_eq rfl (fun x hx hxa => .inl ⟨x, ?_, .refl x⟩) (idle hph (by decide)) hq ha hv
    rcases mem_play.1 hx with hx | hx
    · exact mem_play.2 (.inr (hall x hx hxa))
    · rw [hr] at hx; cases hx

theorem move (h : d.Tracked V) (hV : ∀ q e, Order.Twin q e → V e → V q) (hok : d.Ok) (hm : Move lo feeds B d d')
    (hC : ∀ n ∈ d'.journal, n.Timely V) : d'.Tracked V :=
  ⟨fun _ _ hq ha hv => h.stands_move hV hok hm hC hq ha hv⟩

theorem of_fresh {W : Type} {b : BackBroker α W} (hf : b.Fresh) : (b.desk .between).Tracked V := by
  refine ⟨fun i q hq => ?_⟩
  rw [BackBroker.desk_record, BackBroker.findOrder, hf.allOrders] at hq
  cases hq

end Tracked
end Desk

variable {α W : Type} [Arith α]

/-- Every record of `V` that is alive has its one pending order, with the same data. -/
theorem order_pending (L : Listener α W) (fuel : Nat) {b : BackBroker α W} (hf : b.Fresh) (ops : List (Op α))
    {V : Order α → Prop} (hV : ∀ q e, Order.Twin q e → V e → V q)
    (hC : ∀ n ∈ (b.run (L.hooks fuel) ops).journal, n.Timely V) :
    ∀ q ∈ (b.run (L.hooks fuel) ops).allOrders, q.isAlive = true → V q →
      ∃ e, (b.run (L.hooks fuel) ops).pendingOrders.filter (·.id == q.id) = [e] ∧ Order.Twin q e := by
  intro q hq ha hv
  have hh := BackBroker.tame_hooks L fuel
  have hr := Ready.of_fresh hf
  have hr' := hr.run_ready hh ops
  have ht : ((b.run (L.hooks fuel) ops).desk .between).Tracked V :=
    hr.run_of_notes hh (fun feeds d d' hok hm hC hI => hI.move hV hok hm hC) (.of_fresh hf) ops hC
  have hrec : ((b.run (L.hooks fuel) ops).desk .between).record q.id = some q := by
    rw [BackBroker.desk_record]; exact hr'.find_of_mem hq
  rcases Desk.stands_iff.1 (ht.stands _ q hrec ha hv) with ⟨e, he, hte⟩ | ⟨hph, -⟩
  · refine ⟨e, ?_, hte⟩
    have hmem : e ∈ (b.run (L.hooks fuel) ops).pendingOrders := he
    exact Keyed.filter_eq_singleton hr'.nodup_pending hmem hte.id
  · cases hph

/-- Every record that is alive has its one pending order, with the same data. -/
theorem no_order_lost (L : Listener α W) (fuel : Nat) {b : BackBroker α W} (hf : b.Fresh) (ops : List (Op α))
    (hC : ∀ n ∈ (b.run (L.hooks fuel) ops).journal, n.OutsidePass) :
    ∀ q ∈ (b.run (L.hooks fuel) ops).allOrders, q.isAlive = true →
      ∃ e, (b.run (L.hooks fuel) ops).pendingOrders.filter (·.id == q.id) = [e] ∧
        e = { q with transmit := e.transmit, childIds := e.childIds } :=
  fun q hq ha => order_pending L fuel hf ops (fun _ _ _ _ => trivial) (fun n hn => (hC n hn).timely) q hq ha trivial

theorem no_order_lost_limit :
    let b := BackBroker.funded.run (Listener.silent.hooks 0)
      [.cmd (.buy 1 90 none .Limit 0), .processOrders [.ofBar 100 101 99 100]]
    b.allOrders.map Order.isAlive = [true] ∧
    ∀ q ∈ b.allOrders, q.isAlive = true → ∃ e, b.pendingOrders.filter (·.id == q.id) = [e] ∧
      e = { q with transmit := e.transmit, childIds := e.childIds } :=
  ⟨by decide +kernel, no_order_lost .silent 0 (BackBroker.fresh_init ..) _ (by decide +kernel)⟩

/-- Submits an exit when it hears that order 1 has been filled. -/
def exitsOnFill : Listener ℚ Bool where
  act e b := match e with
    | .order o => if o.id = 1 ∧ o.status = .Completed ∧ b.world = false then (true, some (.sell 1 110 none .Limit 0)) else (b.world, none)
    | .trade _ _ => (b.world, none)
  preOrderHook := Listener.acceptAll

/-- The exit has a record that is alive and no pending order. -/
theorem exit_is_lost : ¬ ∀ ops : List (Op ℚ),
    ∀ q ∈ ((BackBroker.init .USD 1000 none false).run (exitsOnFill.hooks 2) ops).allOrders, q.isAlive = true →
      ∃ e, ((BackBroker.init .USD 1000 none false).run (exitsOnFill.hooks 2) ops).pendingOrders.filter (·.id == q.id) = [e] ∧
        e = { q with transmit := e.transmit, childIds := e.childIds } := by
  intro hall
  obtain ⟨q, hq, ha, hnone⟩ : ∃ q ∈ ((BackBroker.init .USD 1000 none false).run (exitsOnFill.hooks 2)
      [.cmd (.buy 1 0 none .Market 0), .processOrders [.ofBar 100 101 99 100]]).allOrders, q.isAlive = true ∧
        ((BackBroker.init .USD 1000 none false).run (exitsOnFill.hooks 2) [.cmd (.buy 1 0 none .Market 0),
          .processOrders [.ofBar 100 101 99 100]]).pendingOrders.filter (·.id == q.id) = [] := by decide +kernel
  obtain ⟨e, he, -⟩ := hall _ q hq ha
  rw [hnone] at he
  cases he

end StratForge
