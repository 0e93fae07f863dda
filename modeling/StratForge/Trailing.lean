import Mathlib.Order.Bounds.Basic
import StratForge.Turns
import StratForge.DeskRun

/-!
# Trailing stops

The level of a trailing order is kept from bar to bar, with 0 for a level that is not set. Over bars whose levels
are positive it is their running extremum (`Order.Trailing.next`), so what an order trails after any run is
the extremum over the bars its turns have matched it against (`trails_extremum`), and the next bar is held
against that level before it moves it.
-/

namespace StratForge
open BackBroker Relation

/-! ### The level -/

namespace Order

/-- How far the level stays from the extreme of the bar: a share of it, or a fixed amount. -/
def trailDist (o : Order ℚ) (bar : Row ℚ) : ℚ :=
  if 0 < o.trailPercent then (if o.side = .Buy then bar.low else bar.high) * o.trailPercent else o.trailAmount

/-- The level of a bar on its own. -/
def trailMark (o : Order ℚ) (bar : Row ℚ) : ℚ :=
  match o.side with
  | .Sell => bar.high - o.trailDist bar
  | .Buy => bar.low + o.trailDist bar

/-- The order trails the bars: by the highest of their levels if it sells, by the lowest if it buys. -/
def Extreme (o : Order ℚ) (bars : List (Row ℚ)) : Prop :=
  match o.side with
  | .Sell => IsGreatest {x | ∃ bar ∈ bars, x = bar.high - o.trailDist bar} o.trailStopPrice
  | .Buy => IsLeast {x | ∃ bar ∈ bars, x = bar.low + o.trailDist bar} o.trailStopPrice

/-- No level before the first bar, and the extreme one from then on. -/
def Trailing (o : Order ℚ) (bars : List (Row ℚ)) : Prop :=
  (bars = [] → o.trailStopPrice = 0) ∧ (bars ≠ [] → o.Extreme bars)

variable {o e : Order ℚ} {bar : Row ℚ} {bars : List (Row ℚ)}

theorem trailDist_same (hs : Same o e) (bar : Row ℚ) : e.trailDist bar = o.trailDist bar := by
  unfold trailDist
  rw [hs.side, hs.trailPercent, hs.trailAmount]

theorem trailMark_same (hs : Same o e) (bar : Row ℚ) : e.trailMark bar = o.trailMark bar := by
  unfold trailMark
  rw [hs.side, trailDist_same hs]

theorem Extreme.track (h : o.Extreme bars) (ht : Track o e) : e.Extreme bars := by
  unfold Extreme at *
  rw [ht.side, ht.trailStopPrice]
  simpa only [trailDist_same ht.toSame] using h

theorem Trailing.track (h : o.Trailing bars) (ht : Track o e) : e.Trailing bars :=
  ⟨fun hb => ht.trailStopPrice.trans (h.1 hb), fun hb => (h.2 hb).track ht⟩

/-- The level moves when it is not set, or to the side of the position only. -/
theorem followed_eq (htrail : Pass.isTrail o = true) (bar : Row ℚ) : Pass.followed o bar =
    if o.trailStopPrice = 0 then o.trailMark bar
    else match o.side with
      | .Sell => max o.trailStopPrice (o.trailMark bar)
      | .Buy => min o.trailStopPrice (o.trailMark bar) := by
  have hsell : ∀ m, (if o.trailStopPrice == 0 || decide (o.trailStopPrice < m) then some m else none).getD o.trailStopPrice =
      if o.trailStopPrice = 0 then m else max o.trailStopPrice m := by
    intro m
    by_cases hz : o.trailStopPrice = 0
    · simp [hz]
    · by_cases hlt : o.trailStopPrice < m
      · simp [hz, hlt, max_eq_right hlt.le]
      · simp [hz, hlt, max_eq_left (not_lt.1 hlt)]
  have hbuy : ∀ m, (if o.trailStopPrice == 0 || decide (m < o.trailStopPrice) then some m else none).getD o.trailStopPrice =
      if o.trailStopPrice = 0 then m else min o.trailStopPrice m := by
    intro m
    by_cases hz : o.trailStopPrice = 0
    · simp [hz]
    · by_cases hlt : m < o.trailStopPrice
      · simp [hz, hlt, min_eq_right hlt.le]
      · simp [hz, hlt, min_eq_left (not_lt.1 hlt)]
  unfold Pass.followed newTrailStop trailMark trailDist
  rw [if_pos htrail]
  cases hside : o.side with
  | Buy =>
    simp only [if_true]
    exact hbuy _
  | Sell =>
    simp only [reduceCtorEq, if_false]
    exact hsell _

/-- The next bar. -/
theorem Trailing.next (h : o.Trailing bars) (htrail : Pass.isTrail o = true) (hpos : ∀ bar ∈ bars, 0 < o.trailMark bar)
    (hs : Same o e) (hlevel : e.trailStopPrice = Pass.followed o bar) : e.Trailing (bars ++ [bar]) := by
  refine ⟨fun hnil => absurd hnil (by simp), fun _ => ?_⟩
  have hext : o.Extreme bars ∨ bars = [] := (em (bars = [])).symm.imp_left h.2
  have hmark := followed_eq htrail bar
  unfold Extreme trailMark at *
  rw [hlevel, hmark, hs.side]
  simp only [trailDist_same hs]
  cases hside : o.side with
  | Sell =>
    have hset : {x | ∃ c ∈ bars ++ [bar], x = c.high - o.trailDist c} =
        insert (bar.high - o.trailDist bar) {x | ∃ c ∈ bars, x = c.high - o.trailDist c} := by
      ext x
      simp [or_comm, or_and_right, exists_or]
    simp only [hside] at hext hpos ⊢
    rw [hset]
    rcases hext with hg | rfl
    · have hne : o.trailStopPrice ≠ 0 := by
        obtain ⟨c, hc, hx⟩ := hg.1
        rw [hx]
        exact (hpos c hc).ne'
      rw [if_neg hne, max_comm]
      exact hg.insert _
    · rw [if_pos (h.1 rfl)]
      simp
  | Buy =>
    have hset : {x | ∃ c ∈ bars ++ [bar], x = c.low + o.trailDist c} =
        insert (bar.low + o.trailDist bar) {x | ∃ c ∈ bars, x = c.low + o.trailDist c} := by
      ext x
      simp [or_comm, or_and_right, exists_or]
    simp only [hside] at hext hpos ⊢
    rw [hset]
    rcases hext with hg | rfl
    · have hne : o.trailStopPrice ≠ 0 := by
        obtain ⟨c, hc, hx⟩ := hg.1
        rw [hx]
        exact (hpos c hc).ne'
      rw [if_neg hne, min_comm]
      exact hg.insert _
    · rw [if_pos (h.1 rfl)]
      simp

end Order
/-! ### The two copies -/

namespace Desk
variable {α : Type} {d d' : Desk α} {g : Nat → α} {e o : Order α} {r : List (Order α)} {lo : Nat} {feeds : List (DataFeed α)}
  {B : List Nat → Order α → Prop}

/-- The level of an order is one and the same in all its copies and in its record. -/
structure Levelled (g : Nat → α) (d : Desk α) : Prop where
  copies : ∀ e ∈ d.copies, e.trailStopPrice = g e.id
  record : ∀ id q, d.record id = some q → q.trailStopPrice = g id

namespace Levelled

/-- What is written has the level of its id. -/
theorem write (h : d.Levelled g) (ho : o.trailStopPrice = g o.id) : (d.write o).Levelled g := by
  refine ⟨fun e he => ?_, fun id q hq => ?_⟩
  · rw [mem_copies, pending_write, Keyed.mem_update] at he
    rcases he with ⟨x, hx, rfl⟩ | he
    · split
      exacts [ho, h.copies x (mem_copies.2 (.inl hx))]
    · exact h.copies e (mem_copies.2 (.inr he))
  · rw [record_write] at hq
    split at hq
    · next hid =>
      cases hq
      rw [hid]
      exact ho
    · exact h.record id q hq

/-- Nothing is written but what has been there. -/
theorem of_old (h : d.Levelled g) (hrec : d'.record = d.record)
    (hcopies : ∀ e' ∈ d'.copies, ∃ e ∈ d.copies, e'.id = e.id ∧ e'.trailStopPrice = e.trailStopPrice) : d'.Levelled g := by
  refine ⟨fun e' he' => ?_, fun id q hq => h.record id q (hrec ▸ hq)⟩
  obtain ⟨e, he, hid, hlevel⟩ := hcopies e' he'
  rw [hlevel, hid]
  exact h.copies e he

/-- An order gets another level in all places at once. -/
theorem relevel (h : d.Levelled g) (hcopies : ∀ e ∈ d'.copies, e = o ∨ e ∈ d.copies ∧ e.id ≠ o.id)
    (hrec : ∀ id, d'.record id = if id = o.id then some o else d.record id) :
    d'.Levelled (Function.update g o.id o.trailStopPrice) := by
  refine ⟨fun e he => ?_, fun id q hq => ?_⟩
  · rcases hcopies e he with rfl | ⟨he, hne⟩
    · rw [Function.update_self]
    · rw [Function.update_of_ne hne]
      exact h.copies e he
  · rw [hrec] at hq
    split at hq
    · next hid =>
      cases hq
      rw [hid, Function.update_self]
    · next hid =>
      rw [Function.update_of_ne hid]
      exact h.record id q hq

theorem move (h : ∃ g, d.Levelled g) (hok : d.Ok) (hm : Move lo feeds B d d') : ∃ g, d'.Levelled g := by
  obtain ⟨g, hg⟩ := h
  have head : ∀ {e r}, d.rest = e :: r → e.trailStopPrice = g e.id := fun hr =>
    hg.copies _ (mem_copies.2 (.inl (head_mem_pending hr)))
  have status : ∀ {e : Order α} s, e.trailStopPrice = g e.id → (e.setStatus s).trailStopPrice = g (e.setStatus s).id :=
    fun {e} s he => by rw [(Order.Track.setStatus e s).trailStopPrice, Order.id_setStatus]; exact he
  have push : ∀ {o : Order α} {d' : Desk α}, New o d.nextOrderId → (∀ e ∈ d'.copies, e = o ∨ e ∈ d.copies) →
      (∀ id, d'.record id = if id = o.id then some o else d.record id) → ∃ g, d'.Levelled g := by
    intro o d' hnew hcopies hrec
    refine ⟨_, hg.relevel (fun e he => ?_) hrec⟩
    rcases hcopies e he with rfl | he
    exacts [.inl rfl, .inr ⟨he, hok.new_ne hnew he⟩]
  cases hm with
  | call hcall =>
    cases hcall with
    | @submit o seen hnew =>
      refine push hnew (fun e he => ?_) fun _ => rfl
      simp only [Desk.copies, Desk.submit, log, List.mem_append, List.mem_singleton] at he ⊢
      tauto
    | @submitLate o turn seen hnew =>
      refine push hnew (fun e he => ?_) fun _ => rfl
      simp only [Desk.copies, Desk.submitLate, log, List.mem_append, List.mem_singleton] at he ⊢
      tauto
    | link id ids =>
      refine ⟨g, fun e he => ?_, fun i q hq => ?_⟩
      · rw [mem_copies, show (d.link id ids).pending = _ from pending_edit d id _, Keyed.mem_update] at he
        rcases he with ⟨x, hx, rfl⟩ | he
        · split <;> exact hg.copies x (mem_copies.2 (.inl hx))
        · exact hg.copies e (mem_copies.2 (.inr he))
      · replace hq : (if i = id then (d.record id).map ({ · with childIds := ids }) else d.record i) = some q := hq
        split at hq
        · next hid =>
          obtain ⟨p, hp, rfl⟩ := Option.map_eq_some_iff.1 hq
          exact hid ▸ hg.record id p hp
        · exact hg.record i q hq
    | cancel pos turn hc => exact ⟨g, write (d := d.log _) ⟨hg.copies, hg.record⟩ (status _ (hg.copies _ (mem_copies.2 (.inl hc))))⟩
  | skip hph hr | dismiss hr =>
    refine ⟨g, hg.of_old rfl fun e he => ⟨e, ?_, rfl, rfl⟩⟩
    simp only [Desk.copies, next, hr, List.mem_append, List.mem_cons] at he ⊢
    tauto
  | keep hph hr =>
    refine ⟨g, hg.of_old rfl fun e he => ⟨e, ?_, rfl, rfl⟩⟩
    simp only [Desk.copies, Desk.keep, next, hr, List.mem_append, List.mem_cons] at he ⊢
    tauto
  | @pick e e' r hph hr halive hgate =>
    have ht : e'.id = e.id ∧ e'.trailStopPrice = e.trailStopPrice := by
      rcases hgate with ⟨rfl, -⟩ | ⟨rfl, -⟩ <;> exact ⟨rfl, rfl⟩
    refine ⟨g, hg.of_old rfl fun c hc => ?_⟩
    by_cases hce : c = e'
    · exact ⟨e, mem_copies.2 (.inl (head_mem_pending hr)), hce ▸ ht⟩
    · refine ⟨c, ?_, rfl, rfl⟩
      simp only [Desk.copies, hr, List.mem_append, List.mem_cons] at hc ⊢
      tauto
  | @touch e e' r hph hr ht =>
    refine ⟨_, hg.relevel (o := e') (fun c hc => ?_) fun _ => rfl⟩
    rw [mem_copies, pending_write] at hc
    rcases hc with hc | hc
    · rcases Keyed.mem_update_cases hc with ⟨-, -, -, rfl⟩ | ⟨hc, hne⟩
      exacts [.inl rfl, .inr ⟨mem_copies.2 (.inl hc), hne⟩]
    · have := hok.ne_of_kept_of_rest hc (e := e) (by rw [hr]; simp)
      exact .inr ⟨mem_copies.2 (.inr hc), by rw [ht.same.id]; omega⟩
  | drop s hph hr | refuse s hph hr =>
    have hw := hg.write (status s (head hr))
    exact ⟨g, hw.copies, hw.record⟩
  | @book e r x feed hph hr hfeed hx =>
    obtain ⟨p, z, k, hx⟩ := hx
    have ht : Order.Track e x.order := by
      rw [hx]
      exact ⟨Order.same_execute e p z k, by unfold Order.execute; split <;> rfl⟩
    refine ⟨g, hg.of_old rfl fun c hc => ?_⟩
    by_cases hce : c = x.order
    · exact ⟨e, mem_copies.2 (.inl (head_mem_pending hr)), by rw [hce, ht.id], by rw [hce, ht.trailStopPrice]⟩
    · refine ⟨c, ?_, rfl, rfl⟩
      simp only [Desk.copies, log, hr, List.mem_append, List.mem_cons] at hc ⊢
      tauto
  | @settle e r hph hr =>
    refine ⟨g, hg.copies, fun id q hq => ?_⟩
    replace hq : (if id = e.id then some e else d.record id) = some q := hq
    split at hq
    · next hid =>
      cases hq
      rw [hid]
      exact head hr
    · exact hg.record id q hq
  | group => exact ⟨g, hg.copies, hg.record⟩
  | activate =>
    have hrel : ∀ pid (x : Order α), (release pid x).id = x.id ∧ (release pid x).trailStopPrice = x.trailStopPrice := by
      intro pid x
      unfold release
      split <;> exact ⟨rfl, rfl⟩
    refine ⟨g, hg.of_old rfl fun c hc => ?_⟩
    simp only [Desk.copies, Desk.activate, List.mem_append, List.mem_map] at hc
    rcases hc with ((⟨x, hx, rfl⟩ | hc) | ⟨x, hx, rfl⟩) | ⟨x, hx, rfl⟩
    · exact ⟨x, by simp [Desk.copies, hx], hrel _ x⟩
    · exact ⟨c, by simp [Desk.copies, hc], rfl, rfl⟩
    · exact ⟨x, by simp [Desk.copies, hx], hrel _ x⟩
    · exact ⟨x, by simp [Desk.copies, hx], hrel _ x⟩
  | child hph hr hs hc => exact ⟨g, hg.write (status _ (hg.copies _ (mem_copies.2 (.inl hc))))⟩
  | @oco e hph hr he =>
    have hs := status .Canceled (hg.copies e (mem_copies.2 (.inr he)))
    refine ⟨g, fun c hc => ?_, fun id q hq => ?_⟩
    · rcases mem_copies.1 hc with hc | hc
      · exact hg.copies c (mem_copies.2 (.inl hc))
      · rcases Keyed.mem_update_cases hc with ⟨-, -, -, rfl⟩ | ⟨hc, -⟩
        exacts [hs, hg.copies c (mem_copies.2 (.inr hc))]
    · replace hq : (if id = e.cancel.id then some e.cancel else d.record id) = some q := hq
      split at hq
      · next hid =>
        cases hq
        rw [hid]
        exact hs
      · exact hg.record id q hq
  | finish hph hr hsub =>
    refine ⟨g, hg.of_old rfl fun e he => ⟨e, ?_, rfl, rfl⟩⟩
    simp only [Desk.copies, Desk.finish, List.nil_append, List.append_nil] at he
    exact mem_copies.2 (.inr (hsub.subset he))

end Levelled
end Desk
/-! ### The bars an order is matched against -/

section
variable {α W : Type} [Arith α]

namespace BackBroker

/-- The pass as it is when the turn of the order begins. -/
def turnOf (h : Hooks α W) (feeds : List (DataFeed α)) (b : BackBroker α W) (id : Nat) : Pass α W :=
  b.passAt h feeds (b.pendingOrders.findIdx (·.id == id))

/-- The bar that `process_orders` matches the order against, if its turn comes so far. -/
def barAt (h : Hooks α W) (feeds : List (DataFeed α)) (b : BackBroker α W) (id : Nat) : Option (Row α) :=
  match b.pendingOrders.findIdx? (·.id == id) with
  | none => none
  | some i => ((b.turnOf h feeds id).broker.pendingOrders[i]?).bind ((b.turnOf h feeds id).barFor feeds)

end BackBroker

/-- The bar that the operation matches the order against. -/
def Op.barOf (h : Hooks α W) (b : BackBroker α W) (id : Nat) : Op α → Option (Row α)
  | .processOrders feeds => b.barAt h feeds id
  | .cmd _ | .setBarIndex _ => none

namespace BackBroker

/-- The bars that a run matches the order against, in their order. -/
def tried (h : Hooks α W) (id : Nat) : BackBroker α W → List (Op α) → List (Row α)
  | _, [] => []
  | b, op :: ops => (op.barOf h b id).toList ++ tried h id (b.step h op) ops

variable {h : Hooks α W} {b : BackBroker α W} {feeds : List (DataFeed α)} {i lo : Nat} {o o₀ : Order α}

theorem tried_append (b : BackBroker α W) (id : Nat) (ops ops' : List (Op α)) :
    b.tried h id (ops ++ ops') = b.tried h id ops ++ (b.run h ops).tried h id ops' := by
  induction ops generalizing b with
  | nil => rfl
  | cons op ops ih => simp only [List.cons_append, tried, ih, List.append_assoc, run, List.foldl_cons]

theorem tried_snoc (b : BackBroker α W) (id : Nat) (ops : List (Op α)) (op : Op α) :
    b.tried h id (ops ++ [op]) = b.tried h id ops ++ (op.barOf h (b.run h ops) id).toList := by
  rw [tried_append, tried, tried, List.append_nil]

omit [Arith α] in
theorem findIdx?_id (hr : Ready lo b) (ho₀ : b.pendingOrders[i]? = some o₀) :
    b.pendingOrders.findIdx? (·.id == o₀.id) = some i := by
  obtain ⟨hi, hget⟩ := List.getElem?_eq_some_iff.1 ho₀
  refine List.findIdx?_eq_some_iff_getElem.2 ⟨hi, by simp [hget], fun j hj hid => ?_⟩
  have hj' : j < b.pendingOrders.length := hj.trans hi
  have hjo : b.pendingOrders[j] = o₀ := List.inj_on_of_nodup_map hr.nodup_pending (List.getElem_mem hj')
    (List.mem_of_getElem? ho₀) (by simpa using hid)
  have := (List.Nodup.of_map _ hr.nodup_pending).getElem_inj_iff.1 (hjo.trans hget.symm)
  omega

theorem turnOf_id (hr : Ready lo b) (ho₀ : b.pendingOrders[i]? = some o₀) : b.turnOf h feeds o₀.id = b.passAt h feeds i := by
  rw [turnOf, (List.findIdx?_eq_some_iff_findIdx_eq.1 (findIdx?_id hr ho₀)).2]

theorem barAt_id (hr : Ready lo b) (ho₀ : b.pendingOrders[i]? = some o₀)
    (ho : (b.passAt h feeds i).broker.pendingOrders[i]? = some o) :
    b.barAt h feeds o₀.id = (b.passAt h feeds i).barFor feeds o := by
  rw [barAt, findIdx?_id hr ho₀]
  dsimp only
  rw [turnOf_id hr ho₀, ho]
  rfl

theorem barAt_new (hr : Ready lo b) {id : Nat} (hid : b.nextOrderId ≤ id) : b.barAt h feeds id = none := by
  have hnone : b.pendingOrders.findIdx? (·.id == id) = none := by
    refine List.findIdx?_eq_none_iff.2 fun e he => ?_
    have hcopy : e ∈ (b.desk .between).copies := Desk.mem_copies.2 (.inl (by rwa [@desk_pending _ _ _ .between hr.turn]))
    have := (hr.ok.lt_next hcopy).2
    rw [desk_nextOrderId] at this
    exact beq_false_of_ne (by omega)
  rw [barAt, hnone]

/-- An order that is not submitted yet has been matched against nothing. -/
theorem tried_new (hh : Tame h) (hr : Ready lo b) (ops : List (Op α)) {id : Nat}
    (hid : (b.run h ops).nextOrderId ≤ id) : b.tried h id ops = [] := by
  induction ops using List.reverseRecOn with
  | nil => rfl
  | append_singleton ops op ih =>
    have hready := hr.run_ready hh ops
    have hle : (b.run h ops).nextOrderId ≤ (b.run h (ops ++ [op])).nextOrderId := by
      have hself : Ready (b.run h ops).nextOrderId (b.run h ops) := ⟨hready.ok, hready.turn, le_rfl⟩
      exact run_append h b ops [op] ▸ (hself.run_ready hh [op]).next
    rw [tried_snoc, ih (hle.trans hid), List.nil_append]
    cases op with
    | processOrders feeds => exact congrArg Option.toList (barAt_new hready (hle.trans hid))
    | cmd | setBarIndex => rfl

/-- Where a pending order comes from when an operation is over. -/
inductive Came (h : Hooks α W) (b : BackBroker α W) (op : Op α) (e : Order α) : Prop
  | submitted (hid : b.nextOrderId ≤ e.id) (hzero : e.trailStopPrice = 0) (hbar : op.barOf h b e.id = none)
  | stayed (e₀ : Order α) (he₀ : e₀ ∈ b.pendingOrders) (htrack : Order.Track e₀ e) (hbar : op.barOf h b e.id = none)
  | missed (e₀ : Order α) (he₀ : e₀ ∈ b.pendingOrders) (bar : Row α) (hbar : op.barOf h b e.id = some bar)
      (hsame : Order.Same e₀ e) (hlevel : e.trailStopPrice = Pass.followed e₀ bar)

theorem step_came (L : Listener α W) (fuel : Nat) (hr : Ready lo b) (op : Op α) :
    ∀ e ∈ (b.step (L.hooks fuel) op).pendingOrders, Came (L.hooks fuel) b op e := by
  intro e he
  cases op with
  | cmd c =>
    have hg := grown_tracks.exec (grown_tracks.tracked L fuel).order c b
    obtain ⟨j, hj⟩ := List.getElem?_of_mem he
    by_cases hold : j < b.pendingOrders.length
    · have hget := List.getElem?_eq_getElem hold
      exact .stayed _ (List.mem_of_getElem? hget) (.of_core (hg.lined.get hget hj)) rfl
    · obtain ⟨hid, hzero⟩ := hg.fresh j e (Nat.le_of_not_lt hold) hj
      exact .submitted hid hzero rfl
  | setBarIndex k => exact .stayed e he (.refl e) rfl
  | processOrders feeds =>
    obtain ⟨i, o₀, o, e₁, ho₀, ho, hcore, hc, hcore'⟩ :=
      processOrders_kept (core_tracks.tracked L fuel) (tame_hooks L fuel) feeds b e he
    have ht₀ : Order.Track o₀ o := .of_core hcore
    have ht₁ : Order.Track e₁ e := .of_core hcore'
    have hbar : Op.barOf (L.hooks fuel) b e.id (.processOrders feeds) = (b.passAt (L.hooks fuel) feeds i).barFor feeds o := by
      rw [ht₁.id.trans (hc.same.id.trans ht₀.id)]
      exact barAt_id hr ho₀ ho
    have hmem := List.mem_of_getElem? ho₀
    cases hc with
    | waits _ _ hnone htrack => exact .stayed o₀ hmem ((ht₀.trans htrack).trans ht₁) (hbar.trans hnone)
    | misses bar hsome _ hs hlevel =>
      refine .missed o₀ hmem bar (hbar.trans hsome) ((ht₀.toSame.trans hs).trans ht₁.toSame) ?_
      rw [ht₁.trailStopPrice, hlevel, Pass.followed_track ht₀]

/-- As long as an order is pending, nothing changes that was fixed when it was submitted. -/
theorem run_same (L : Listener α W) (fuel : Nat) (hr : Ready lo b) {e : Order α} (he : e ∈ b.pendingOrders)
    (ops : List (Op α)) : ∀ e' ∈ (b.run (L.hooks fuel) ops).pendingOrders, e'.id = e.id → Order.Same e e' := by
  have hh := tame_hooks L fuel
  induction ops using List.reverseRecOn with
  | nil =>
    intro e' he' hid
    rw [(List.inj_on_of_nodup_map hr.nodup_pending he' he hid : e' = e)]
    exact .refl e
  | append_singleton ops op ih =>
    intro e' he' hid
    rw [run_snoc] at he'
    have hself : Ready b.nextOrderId b := ⟨hr.ok, hr.turn, le_rfl⟩
    cases step_came L fuel (hr.run_ready hh ops) op e' he' with
    | submitted hnew =>
      have hcopy : e ∈ (b.desk .between).copies := Desk.mem_copies.2 (.inl (by rwa [@desk_pending _ _ _ .between hr.turn]))
      have hlt := (hr.ok.lt_next hcopy).2
      rw [desk_nextOrderId] at hlt
      have hle := (hself.run_ready hh ops).next
      omega
    | stayed e₀ he₀ ht => exact (ih e₀ he₀ (ht.id.symm.trans hid)).trans ht.toSame
    | missed e₀ he₀ bar _ hs => exact (ih e₀ he₀ (hs.id.symm.trans hid)).trans hs

end BackBroker
end

namespace BackBroker
variable {W : Type} {b : BackBroker ℚ W} {e : Order ℚ}

/-- Every pending order trails the bars it has been matched against. -/
theorem run_trailing (L : Listener ℚ W) (fuel : Nat) (hf : b.Fresh) (ops : List (Op ℚ)) :
    ∀ e ∈ (b.run (L.hooks fuel) ops).pendingOrders, Pass.isTrail e = true →
      (∀ bar ∈ b.tried (L.hooks fuel) e.id ops, 0 < e.trailMark bar) → e.Trailing (b.tried (L.hooks fuel) e.id ops) := by
  have hh := tame_hooks L fuel
  induction ops using List.reverseRecOn with
  | nil =>
    intro e he
    rw [run_nil, hf.pendingOrders] at he
    cases he
  | append_singleton ops op ih =>
    have hr := (Ready.of_fresh hf).run_ready hh ops
    intro e he htrail hpos
    rw [run_snoc] at he
    rw [tried_snoc] at hpos ⊢
    cases step_came L fuel hr op e he with
    | submitted hid hzero hbar =>
      rw [hbar, tried_new hh (Ready.of_fresh hf) ops hid]
      exact ⟨fun _ => hzero, fun hne => absurd rfl hne⟩
    | stayed e₀ he₀ ht hbar =>
      rw [hbar, Option.toList_none, List.append_nil, ht.id] at hpos ⊢
      simp only [Order.trailMark_same ht.toSame] at hpos
      exact (ih e₀ he₀ (Pass.isTrail_same ht.toSame ▸ htrail) hpos).track ht
    | missed e₀ he₀ bar hbar hs hlevel =>
      rw [hbar, Option.toList_some, hs.id] at hpos ⊢
      simp only [Order.trailMark_same hs] at hpos
      have htrail₀ : Pass.isTrail e₀ = true := Pass.isTrail_same hs ▸ htrail
      have hpos₀ : ∀ bar ∈ b.tried (L.hooks fuel) e₀.id ops, 0 < e₀.trailMark bar := fun c hc =>
        hpos c (List.mem_append_left _ hc)
      exact (ih e₀ he₀ htrail₀ hpos₀).next htrail₀ hpos₀ hs hlevel

/-- The record of a pending order has its level. -/
theorem run_level (L : Listener ℚ W) (fuel : Nat) (hf : b.Fresh) (ops : List (Op ℚ))
    (he : e ∈ (b.run (L.hooks fuel) ops).pendingOrders) :
    ((b.run (L.hooks fuel) ops).findOrder e.id).map Order.trailStopPrice = some e.trailStopPrice := by
  have hh := tame_hooks L fuel
  have hr := Ready.of_fresh hf
  have hr' := hr.run_ready hh ops
  have hstart : ∃ g, (b.desk .between).Levelled g := by
    refine ⟨fun _ => 0, fun e he => ?_, fun id q hq => ?_⟩
    · simp [desk, Desk.copies, hf.pendingOrders] at he
    · simp [desk, findOrder, hf.allOrders] at hq
  obtain ⟨g, hg⟩ := hr.run_of_notes (I := fun d => ∃ g, d.Levelled g) hh
    (fun feeds d d' hok hm (_ : ∀ n ∈ d'.journal, True) hI => Desk.Levelled.move hI hok hm) hstart ops (fun _ _ => trivial)
  have hcopy : e ∈ ((b.run (L.hooks fuel) ops).desk .between).copies :=
    Desk.mem_copies.2 (.inl (by rwa [@desk_pending _ _ _ .between hr'.turn]))
  obtain ⟨q, hq, -⟩ := hr'.ok.known e hcopy
  have hlevel := (hg.record _ q hq).trans (hg.copies e hcopy).symm
  rw [desk_record] at hq
  rw [hq, Option.map_some, hlevel]

/-- The level that the next bar is held against is the one that the bars before it have left. -/
theorem filled_at_level (L : Listener ℚ W) (fuel : Nat) {lo : Nat} (hr : Ready lo b) (feeds : List (DataFeed ℚ))
    (he : e ∈ b.pendingOrders) {bar : Row ℚ} (hbar : b.barAt (L.hooks fuel) feeds e.id = some bar) :
    ∃ xs, (b.processOrders (L.hooks fuel) feeds).executions = b.executions ++ xs ∧
      ∀ price, (∃ x ∈ xs, x.order.id = e.id ∧ x.price = price) ↔
        (b.turnOf (L.hooks fuel) feeds e.id).broker.matchOrder e bar = .fill price ∧
        (b.turnOf (L.hooks fuel) feeds e.id).broker.affords e price bar.datetime = true := by
  have hk := core_tracks.tracked L fuel
  obtain ⟨i, hi⟩ := List.getElem?_of_mem he
  obtain ⟨o, ho, hcore⟩ := passAt_place hk feeds hi i le_rfl
  have ht : Order.Track e o := .of_core hcore
  rw [barAt_id hr hi ho] at hbar
  rw [turnOf_id hr hi, ← BrokerSettings.matchOrder_track _ ht]
  simp only [← affords_track rfl rfl ht]
  obtain ⟨xs, hxs, hof, hall⟩ := processOrders_filled hk (tame_hooks L fuel) feeds b
  refine ⟨xs, hxs, fun price => ⟨?_, fun ⟨hm, ha⟩ => ?_⟩⟩
  · rintro ⟨x, hx, hid, rfl⟩
    obtain ⟨j, hj, o', ho', ⟨bar', hbar', hm, ha⟩, hs⟩ := hof x hx
    obtain ⟨o'', ho'', hcore'⟩ := passAt_place hk feeds (List.getElem?_eq_getElem hj) j le_rfl
    cases ho'.symm.trans ho''
    -- it is the turn of the same order
    have hij : j = i := by
      have hjid : b.pendingOrders[j].id = e.id := by
        rw [← hid, hs.id, (Order.Track.of_core hcore').id]
      have hij := findIdx?_id hr (List.getElem?_eq_getElem hj)
      rw [hjid, findIdx?_id hr hi] at hij
      exact (Option.some.inj hij).symm
    subst hij
    cases ho.symm.trans ho'
    cases hbar.symm.trans hbar'
    exact ⟨hm, ha⟩
  · obtain ⟨x, hx, hprice, hs⟩ := hall i (List.getElem?_eq_some_iff.1 hi).1 o price ho ⟨bar, hbar, hm, ha⟩
    exact ⟨x, hx, hs.id.trans ht.id, hprice⟩

/-- A pending trailing order, over bars with positive levels: its level, in both copies, is the extreme one of the bars
it has been matched against; it never goes back; and the next bar fills the order exactly if it reaches that level. -/
theorem trails_extremum (L : Listener ℚ W) (fuel : Nat) (hf : b.Fresh) (ops : List (Op ℚ))
    (he : e ∈ (b.run (L.hooks fuel) ops).pendingOrders) (htrail : Pass.isTrail e = true)
    (hpos : ∀ bar ∈ b.tried (L.hooks fuel) e.id ops, 0 < e.trailMark bar) :
    e.Trailing (b.tried (L.hooks fuel) e.id ops) ∧
    ((b.run (L.hooks fuel) ops).findOrder e.id).map Order.trailStopPrice = some e.trailStopPrice ∧
    (∀ ops', ∀ e' ∈ (b.run (L.hooks fuel) (ops ++ ops')).pendingOrders, e'.id = e.id →
      b.tried (L.hooks fuel) e.id ops ≠ [] → (∀ bar ∈ b.tried (L.hooks fuel) e.id (ops ++ ops'), 0 < e.trailMark bar) →
      match e.side with
      | .Sell => e.trailStopPrice ≤ e'.trailStopPrice
      | .Buy => e'.trailStopPrice ≤ e.trailStopPrice) ∧
    ∀ feeds bar, (b.run (L.hooks fuel) ops).barAt (L.hooks fuel) feeds e.id = some bar →
      ∃ xs, ((b.run (L.hooks fuel) ops).processOrders (L.hooks fuel) feeds).executions =
          (b.run (L.hooks fuel) ops).executions ++ xs ∧
        ∀ price, (∃ x ∈ xs, x.order.id = e.id ∧ x.price = price) ↔
          ((b.run (L.hooks fuel) ops).turnOf (L.hooks fuel) feeds e.id).broker.matchOrder e bar = .fill price ∧
          ((b.run (L.hooks fuel) ops).turnOf (L.hooks fuel) feeds e.id).broker.affords e price bar.datetime = true := by
  have hr := (Ready.of_fresh hf).run_ready (tame_hooks L fuel) ops
  have htrailing := run_trailing L fuel hf ops e he htrail hpos
  refine ⟨htrailing, run_level L fuel hf ops he, fun ops' e' he' hid hne hpos' => ?_,
    fun feeds bar hbar => filled_at_level L fuel hr feeds he hbar⟩
  have hs : Order.Same e e' := run_same L fuel hr he ops' e' (run_append (L.hooks fuel) b ops ops' ▸ he') hid
  have htrailing' := run_trailing L fuel hf (ops ++ ops') e' he' (Pass.isTrail_same hs ▸ htrail) (by
    rw [hid]
    exact fun bar hbar => Order.trailMark_same hs bar ▸ hpos' bar hbar)
  rw [hid, tried_append] at htrailing'
  have hext := htrailing.2 hne
  have hext' := htrailing'.2 (by simp [hne])
  unfold Order.Extreme at hext hext'
  rw [hs.side] at hext'
  simp only [Order.trailDist_same hs] at hext'
  -- the bar that has set the level is one of the bars of the longer run
  cases hside : e.side with
  | Sell =>
    rw [hside] at hext hext'
    obtain ⟨bar, hbar, hlevel⟩ := hext.1
    exact hext'.2 ⟨bar, List.mem_append_left _ hbar, hlevel⟩
  | Buy =>
    rw [hside] at hext hext'
    obtain ⟨bar, hbar, hlevel⟩ := hext.1
    exact hext'.2 ⟨bar, List.mem_append_left _ hbar, hlevel⟩

/-- A sell that trails by 2, over two rising bars. -/
def risingTrail : List (Op ℚ) :=
  [.cmd (.sellExt 1 { OrderParams.default with type := .StopTrail, trailAmount := 2 }),
   .processOrders [.ofBar 100 101 99 100], .processOrders [.ofBar 101 103 100 102]]

/-- The level has followed the highs to 101; a third bar that falls to 100 fills the order there. -/
theorem trails_extremum_rising : ∃ e ∈ (funded.run (Listener.silent.hooks 0) risingTrail).pendingOrders,
    e.trailStopPrice = 101 ∧ (funded.tried (Listener.silent.hooks 0) e.id risingTrail).map e.trailMark = [99, 101] ∧
    e.Trailing (funded.tried (Listener.silent.hooks 0) e.id risingTrail) ∧
    ∃ xs, ((funded.run (Listener.silent.hooks 0) risingTrail).processOrders (Listener.silent.hooks 0)
        [.ofBar 102 104 100 101]).executions = (funded.run (Listener.silent.hooks 0) risingTrail).executions ++ xs ∧
      ∃ x ∈ xs, x.order.id = e.id ∧ x.price = 101 := by
  let bar : Row ℚ := ⟨0, 102, 104, 100, 101, 0, 0⟩
  obtain ⟨e, he, htrail, hlevel, hmarks, hpos, hbar, hmatch, hafford⟩ :
      ∃ e ∈ (funded.run (Listener.silent.hooks 0) risingTrail).pendingOrders, Pass.isTrail e = true ∧ e.trailStopPrice = 101 ∧
        (funded.tried (Listener.silent.hooks 0) e.id risingTrail).map e.trailMark = [99, 101] ∧
        (∀ bar ∈ funded.tried (Listener.silent.hooks 0) e.id risingTrail, 0 < e.trailMark bar) ∧
        (funded.run (Listener.silent.hooks 0) risingTrail).barAt (Listener.silent.hooks 0) [.ofBar 102 104 100 101] e.id = some bar ∧
        ((funded.run (Listener.silent.hooks 0) risingTrail).turnOf (Listener.silent.hooks 0) [.ofBar 102 104 100 101]
          e.id).broker.matchOrder e bar = .fill 101 ∧
        ((funded.run (Listener.silent.hooks 0) risingTrail).turnOf (Listener.silent.hooks 0) [.ofBar 102 104 100 101]
          e.id).broker.affords e 101 bar.datetime = true := by decide +kernel
  obtain ⟨htrailing, -, -, hnext⟩ := trails_extremum .silent 0 (fresh_init ..) risingTrail he htrail hpos
  obtain ⟨xs, hxs, hfill⟩ := hnext [.ofBar 102 104 100 101] bar hbar
  exact ⟨e, he, hlevel, hmarks, htrailing, xs, hxs, (hfill 101).2 ⟨hmatch, hafford⟩⟩

end BackBroker

end StratForge
