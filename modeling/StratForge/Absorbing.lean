import StratForge.Books
import StratForge.DeskRun

/-!
# Terminal states are absorbing

While an order has a copy among the kept ones, its pending original is stale: a `cancel_order` that
reaches it there changes the original and the record, and the copy lives on. The law holds of the runs
in which no callback cancels an order that the pass has already reached, and no order names a parent
that comes after it.
-/

namespace StratForge
open Relation

/-- What the law asks of the commands. -/
def Note.Careful {α : Type} : Note α → Prop
  | .cancelled _ pos turn => turn ≤ pos
  | .submitted o _ _ => o.parentId < o.id
  | _ => True

instance {α : Type} : (n : Note α) → Decidable n.Careful
  | .cancelled _ pos turn => inferInstanceAs (Decidable (turn ≤ pos))
  | .submitted o _ _ => inferInstanceAs (Decidable (o.parentId < o.id))
  | .recorded _ | .executed _ => .isTrue trivial

/-- The second note does not change the outcome of an order whose record the first has ended. -/
def Note.Steady {α : Type} (n n' : Note α) : Prop :=
  ∀ o o', n = .recorded o → n' = .recorded o' → o'.id = o.id → o.isAlive = false → o'.outcome = o.outcome

theorem Order.isAlive_congr {α : Type} {o o' : Order α} (h : o.outcome = o'.outcome) : o.isAlive = o'.isAlive :=
  congrArg OrderStatus.isAlive (congrArg Prod.fst h)

namespace Desk
variable {α : Type} {d d' : Desk α} {e o c : Order α} {r : List (Order α)} {id lo : Nat}
  {feeds : List (DataFeed α)} {B : List Nat → Order α → Prop}

/-- The copies besides the record that something may still happen to. -/
def hands (d : Desk α) : List (Order α) := d.kept ++ d.rest ++ d.late

theorem mem_hands : e ∈ d.hands ↔ e ∈ d.kept ∨ e ∈ d.rest ++ d.late := by
  simp [hands]

structure Agreed (d : Desk α) : Prop where
  agree : ∀ e ∈ d.hands, ∀ q, d.record e.id = some q → q.isAlive = false → e.outcome = q.outcome
  booked : d.phase = .booked → ∀ e r, d.rest = e :: r → ∀ q, d.record e.id = some q → q.isAlive = true
  parents : ∀ id q, d.record id = some q → q.parentId < q.id
  noted : ∀ o, .recorded o ∈ d.journal → o.isAlive = false → ∃ q, d.record o.id = some q ∧ q.outcome = o.outcome
  executed : ∀ x, .executed x ∈ d.journal → x.order.status = .Completed ∧
    ((∃ q, d.record x.order.id = some q ∧ q.outcome = x.order.outcome) ∨
      d.phase = .booked ∧ ∃ e r, d.rest = e :: r ∧ e.id = x.order.id ∧ e.outcome = x.order.outcome)
  steady : d.journal.Pairwise Note.Steady

/-- A record that has ended keeps its outcome. -/
def Lasts (d d' : Desk α) : Prop :=
  ∀ id q, d.record id = some q → q.isAlive = false → ∃ q', d'.record id = some q' ∧ q'.outcome = q.outcome

theorem Lasts.trans {d'' : Desk α} (h : Lasts d d') (h' : Lasts d' d'') : Lasts d d'' := by
  intro i q hq hd
  obtain ⟨q1, hq1, ho1⟩ := h i q hq hd
  obtain ⟨q2, hq2, ho2⟩ := h' i q1 hq1 ((Order.isAlive_congr ho1).trans hd)
  exact ⟨q2, hq2, ho2.trans ho1⟩

theorem Lasts.of_eq (h : d'.record = d.record) : Lasts d d' := fun _ q hq _ => ⟨q, h ▸ hq, rfl⟩

theorem Lasts.of_file (h : ∀ i, d'.record i = if i = o.id then some o else d.record i)
    (ho : ∀ q, d.record o.id = some q → q.isAlive = false → o.outcome = q.outcome) : Lasts d d' := by
  intro i q hq hd
  rw [h]
  by_cases hi : i = o.id
  · rw [if_pos hi]; exact ⟨o, rfl, ho q (hi ▸ hq) hd⟩
  · rw [if_neg hi]; exact ⟨q, hq, rfl⟩

namespace Agreed

/-- A copy that is alive has a record that is alive. -/
theorem record_isAlive (h : d.Agreed) (he : e ∈ d.hands) (ha : e.isAlive = true) {q : Order α}
    (hq : d.record e.id = some q) : q.isAlive = true := by
  by_contra hd
  rw [Bool.not_eq_true] at hd
  rw [Order.isAlive_congr (h.agree e he q hq hd), hd] at ha
  cases ha

/-- `cancel_order` reaches only orders that the pass has yet to reach. -/
theorem hands_of_cancel (hC : ∀ n ∈ d'.journal, n.Careful) {pos turn : Nat} (he : e ∈ d.pending)
    (hpos : e ∈ d.stale ∨ (d.phase ≠ .idle ∧ d.rest.head? = some e) → pos < turn)
    (hn : .cancelled e.id pos turn ∈ d'.journal) : e ∈ d.rest ++ d.late := by
  rcases mem_pending.1 he with hs | hr
  · exact absurd (hpos (.inl hs)) (Nat.not_lt.2 (hC _ hn))
  · exact List.mem_append.2 hr

/-- The legs of the order at hand have yet to be reached. -/
theorem hands_of_child (h : d.Agreed) (hok : d.Ok) (hr : d.rest = e :: r) (hc : c ∈ d.pending)
    (hparent : c.parentId = e.id) : c ∈ d.rest ++ d.late := by
  rcases mem_pending.1 hc with hs | hr'
  · obtain ⟨q, hq, hqs⟩ := hok.known c (mem_copies.2 (.inl hc))
    have hlt : c.parentId < c.id := by
      have := h.parents _ q hq
      rwa [← hqs.parentId, ← hqs.id] at this
    have hlt' : c.id < e.id := hok.ne_of_stale_of_rest hs (by rw [hr]; simp)
    omega
  · exact List.mem_append.2 hr'

/-- No order is booked that has been cancelled. -/
theorem booked_isAlive {journal : List (Note α)} (hC : ∀ n ∈ journal, n.Careful)
    (hdead : e.isAlive = false → ∃ pos turn, pos < turn ∧ .cancelled e.id pos turn ∈ d.journal)
    (hle : d.journal <+: journal) : e.isAlive = true := by
  by_contra hd
  rw [Bool.not_eq_true] at hd
  obtain ⟨pos, turn, hlt, hn⟩ := hdead hd
  exact absurd hlt (Nat.not_lt.2 (hC _ (hle.subset hn)))

theorem lasts (h : d.Agreed) (hok : d.Ok) (hm : Move lo feeds B d d') (hC : ∀ n ∈ d'.journal, n.Careful) :
    Lasts d d' := by
  -- a copy that is alive is written over a record that is alive
  have alive : ∀ {e o : Order α}, e ∈ d.hands → e.isAlive = true → o.id = e.id →
      (∀ i, d'.record i = if i = o.id then some o else d.record i) → Lasts d d' := by
    intro e o he ha hid hrec
    refine .of_file hrec fun q hq hd => ?_
    have := h.record_isAlive he ha (hid ▸ hq)
    rw [hd] at this; cases this
  have new : ∀ {o : Order α}, New o d.nextOrderId →
      (∀ i, d'.record i = if i = o.id then some o else d.record i) → Lasts d d' := by
    intro o hnew hrec
    refine .of_file hrec fun q hq _ => ?_
    have := (hok.record _ _ hq).2.2
    rw [hnew.id] at this
    exact absurd this (Nat.lt_irrefl _)
  have head : ∀ {e r}, d.rest = e :: r → e ∈ d.hands := fun hr => mem_hands.2 (.inr (by rw [hr]; simp))
  cases hm with
  | skip | keep | pick | book | group | activate | dismiss | finish => exact .of_eq rfl
  | call hcall =>
    cases hcall with
    | submit seen hnew | submitLate turn seen hnew => exact new hnew fun _ => rfl
    | link id ids hid =>
      intro i q hq _
      by_cases hi : i = id
      · subst hi
        exact ⟨{ q with childIds := ids }, by simp [Desk.link, hq], rfl⟩
      · exact ⟨q, by simp [Desk.link, hi, hq], rfl⟩
    | @cancel e pos turn he halive hpos =>
      have hin := hands_of_cancel hC he hpos (by simp [Desk.log])
      exact alive (mem_hands.2 (.inr hin)) halive (Order.id_cancel e) fun _ => rfl
  | @touch e e' r hph hr ht =>
    refine .of_file (fun _ => rfl) fun q hq hd => ?_
    have hout := h.agree e (head hr) q (ht.same.id ▸ hq) hd
    exact (ht.outcome ((Order.isAlive_congr hout).trans hd)).trans hout
  | @drop e r s hph hr | @refuse e r s hph hr =>
    refine .of_file (fun _ => rfl) fun q hq hd => ?_
    have hout := h.agree e (head hr) q (Order.id_setStatus e s ▸ hq) hd
    rw [Order.setStatus_of_dead ((Order.isAlive_congr hout).trans hd)]
    exact hout
  | @settle e r hph hr =>
    refine .of_file (fun _ => rfl) fun q hq hd => ?_
    have := h.booked hph e r hr q hq
    rw [hd] at this; cases this
  | @child e c r hph hr hs hc halive hparent =>
    exact alive (mem_hands.2 (.inr (h.hands_of_child hok hr hc hparent))) halive (Order.id_cancel c) fun _ => rfl
  | @oco e hph hr he halive => exact alive (mem_hands.2 (.inl he)) halive (Order.id_cancel e) fun _ => rfl

/-- Nothing is written but copies that were there. -/
theorem agree_of_eq (h : d.Agreed) (hrec : d'.record = d.record)
    (hhands : ∀ c ∈ d'.hands, ∃ e ∈ d.hands, e.id = c.id ∧ e.outcome = c.outcome) :
    ∀ e ∈ d'.hands, ∀ q, d'.record e.id = some q → q.isAlive = false → e.outcome = q.outcome := by
  intro c hc q hq hd
  obtain ⟨e, he, hid, hout⟩ := hhands c hc
  rw [hrec, ← hid] at hq
  exact hout.symm.trans (h.agree e he q hq hd)

/-- A new version is written over the record and over every copy that is in hand. -/
theorem agree_of_file (h : d.Agreed) (hrec : ∀ i, d'.record i = if i = o.id then some o else d.record i)
    (hhands : ∀ c ∈ d'.hands, c = o ∨ (c ∈ d.hands ∧ c.id ≠ o.id)) :
    ∀ e ∈ d'.hands, ∀ q, d'.record e.id = some q → q.isAlive = false → e.outcome = q.outcome := by
  intro c hc q hq hd
  rw [hrec] at hq
  rcases hhands c hc with rfl | ⟨hc, hne⟩
  · rw [if_pos rfl] at hq; cases hq; rfl
  · rw [if_neg hne] at hq; exact h.agree c hc q hq hd

theorem hands_write (hok : d.Ok) (he : e ∈ d.rest ++ d.late) (hid : o.id = e.id) :
    ∀ c ∈ (d.write o).hands, c = o ∨ (c ∈ d.hands ∧ c.id ≠ o.id) := by
  intro c hc
  rcases mem_hands.1 hc with hc | hc
  · exact .inr ⟨mem_hands.2 (.inl hc), by rw [hid]; exact (hok.ne_of_kept_of_rest hc he).ne⟩
  · rw [rest_write, late_write, ← Keyed.update_append] at hc
    rcases Keyed.mem_update_cases hc with ⟨x, -, -, rfl⟩ | ⟨hc, hne⟩
    exacts [.inl rfl, .inr ⟨mem_hands.2 (.inr hc), hne⟩]

theorem agree_move (h : d.Agreed) (hok : d.Ok) (hm : Move lo feeds B d d') (hC : ∀ n ∈ d'.journal, n.Careful) :
    ∀ e ∈ d'.hands, ∀ q, d'.record e.id = some q → q.isAlive = false → e.outcome = q.outcome := by
  have fewer : d'.record = d.record → (∀ c ∈ d'.hands, c ∈ d.hands) →
      ∀ e ∈ d'.hands, ∀ q, d'.record e.id = some q → q.isAlive = false → e.outcome = q.outcome :=
    fun hrec hsub => h.agree_of_eq hrec fun c hc => ⟨c, hsub c hc, rfl, rfl⟩
  have kept : ∀ {c}, c ∈ d.kept → c ∈ d.hands := fun hc => mem_hands.2 (.inl hc)
  have head : ∀ {e r}, d.rest = e :: r → e ∈ d.rest ++ d.late := fun hr => by rw [hr]; simp
  have tail : ∀ {e r}, d.rest = e :: r → ∀ c ∈ r ++ d.late, c ∈ d.hands := by
    intro e r hr c hc
    rw [mem_hands, hr]
    exact .inr (List.mem_cons_of_mem _ hc)
  have new : ∀ {o : Order α}, New o d.nextOrderId → ∀ l : List (Order α), (∀ c ∈ l, c = o ∨ c ∈ d.hands) →
      ∀ c ∈ l, c = o ∨ (c ∈ d.hands ∧ c.id ≠ o.id) := by
    intro o hnew l hl c hc
    refine (hl c hc).imp_right fun hc => ⟨hc, hok.new_ne hnew ?_⟩
    rw [mem_copies, mem_pending]
    rcases mem_hands.1 hc with hc | hc
    · exact .inr hc
    · exact .inl (.inr (List.mem_append.1 hc))
  cases hm with
  | call hcall =>
    cases hcall with
    | submit seen hnew hlate =>
      refine h.agree_of_file (fun _ => rfl) (new hnew _ fun c hc => ?_)
      simp only [mem_hands, Desk.submit, Desk.log, List.mem_append, List.mem_singleton] at hc ⊢
      tauto
    | submitLate turn seen hnew hturn =>
      refine h.agree_of_file (fun _ => rfl) (new hnew _ fun c hc => ?_)
      simp only [mem_hands, Desk.submitLate, Desk.log, List.mem_append, List.mem_singleton] at hc ⊢
      tauto
    | link id ids hid =>
      intro c hc q hq hd
      obtain ⟨e, he, hec, hout⟩ : ∃ e ∈ d.hands, e.id = c.id ∧ e.outcome = c.outcome := by
        have back : ∀ l : List (Order α), c ∈ Keyed.update Order.id id ({ · with childIds := ids }) l →
            ∃ e ∈ l, e.id = c.id ∧ e.outcome = c.outcome := by
          intro l hc
          rcases Keyed.mem_update_cases hc with ⟨x, hx, -, rfl⟩ | ⟨hc, -⟩
          exacts [⟨x, hx, rfl, rfl⟩, ⟨c, hc, rfl, rfl⟩]
        rcases mem_hands.1 hc with hc | hc
        · exact ⟨c, kept hc, rfl, rfl⟩
        · obtain ⟨e, he, hec⟩ := back (d.rest ++ d.late) (by rw [Keyed.update_append]; exact hc)
          exact ⟨e, mem_hands.2 (.inr he), hec⟩
      replace hq : (if c.id = id then (d.record id).map ({ · with childIds := ids }) else d.record c.id) = some q := hq
      by_cases hi : c.id = id
      · rw [if_pos hi, ← hi] at hq
        obtain ⟨p, hp, rfl⟩ := Option.map_eq_some_iff.1 hq
        exact hout.symm.trans (h.agree e he p (hec ▸ hp) hd)
      · rw [if_neg hi] at hq
        exact hout.symm.trans (h.agree e he q (hec ▸ hq) hd)
    | @cancel e pos turn he halive hpos =>
      have hin := hands_of_cancel hC he hpos (by simp [Desk.log])
      exact h.agree_of_file (fun _ => rfl) (@hands_write _ (d.log _) e e.cancel (hok.log _) hin (Order.id_cancel e))
  | skip hph hr | dismiss hr =>
    exact fewer rfl fun c hc => (mem_hands.1 hc).elim kept (tail hr c)
  | keep hph hr =>
    refine fewer rfl fun c hc => (mem_hands.1 hc).elim (fun hc => ?_) (tail hr c)
    rcases List.mem_append.1 hc with hc | hc
    · exact kept hc
    · rw [List.mem_singleton.1 hc, mem_hands]; exact .inr (head hr)
  | @pick e e' r hph hr halive hgate =>
    have hout : e.id = e'.id ∧ e.outcome = e'.outcome := by
      rcases hgate with ⟨rfl, -⟩ | ⟨rfl, -⟩ <;> exact ⟨rfl, rfl⟩
    refine h.agree_of_eq rfl fun c hc => ?_
    rcases mem_hands.1 hc with hc | hc
    · exact ⟨c, kept hc, rfl, rfl⟩
    · rcases List.mem_cons.1 hc with rfl | hc
      exacts [⟨e, mem_hands.2 (.inr (head hr)), hout⟩, ⟨c, tail hr c hc, rfl, rfl⟩]
  | touch hph hr ht => exact h.agree_of_file (fun _ => rfl) (hands_write hok (head hr) ht.same.id)
  | drop s hph hr | refuse s hph hr =>
    exact h.agree_of_file (fun _ => rfl) (hands_write hok (head hr) (Order.id_setStatus _ s))
  | @book e r x feed hph hr hfeed hx hcursor hdead hB =>
    obtain ⟨p, z, k, hx⟩ := hx
    intro c hc q hq hd
    rcases mem_hands.1 hc with hc | hc
    · exact h.agree c (kept hc) q hq hd
    · rcases List.mem_cons.1 hc with rfl | hc
      · -- the record is alive until it is settled
        replace hq : d.record e.id = some q := by rw [← (Order.same_execute e p z k).id, ← hx]; exact hq
        have := h.record_isAlive (mem_hands.2 (.inr (head hr))) (booked_isAlive hC hdead (List.prefix_append ..)) hq
        rw [hd] at this; cases this
      · exact h.agree c (tail hr c hc) q hq hd
  | @settle e r hph hr =>
    refine h.agree_of_file (fun _ => rfl) fun c hc => ?_
    by_cases hi : c.id = e.id
    · refine .inl ?_
      rcases mem_hands.1 hc with hc | hc
      · exact absurd hi (hok.ne_of_kept_of_rest hc (head hr)).ne
      · exact hok.eq_of_id (mem_pending.2 (.inr (List.mem_append.1 hc))) (head_mem_pending hr) hi
    · exact .inr ⟨hc, hi⟩
  | group => exact h.agree
  | @activate e r hph hr hs =>
    refine h.agree_of_eq rfl fun c hc => ?_
    have back : ∀ l : List (Order α), c ∈ l.map (release e.id) → ∃ e ∈ l, e.id = c.id ∧ e.outcome = c.outcome := by
      intro l hc
      obtain ⟨x, hx, rfl⟩ := List.mem_map.1 hc
      exact ⟨x, hx, by unfold release; split <;> exact ⟨rfl, rfl⟩⟩
    rcases mem_hands.1 hc with hc | hc
    · exact ⟨c, kept hc, rfl, rfl⟩
    · obtain ⟨x, hx, hxc⟩ := back (d.rest ++ d.late) (by rw [List.map_append]; exact hc)
      exact ⟨x, mem_hands.2 (.inr hx), hxc⟩
  | child hph hr hs hc halive hparent =>
    exact h.agree_of_file (fun _ => rfl) (hands_write hok (h.hands_of_child hok hr hc hparent) (Order.id_cancel _))
  | @oco e hph hr he =>
    refine h.agree_of_file (fun _ => rfl) fun c hc => ?_
    rcases mem_hands.1 hc with hc | hc
    · rcases Keyed.mem_update_cases hc with ⟨x, -, -, rfl⟩ | ⟨hc, hne⟩
      exacts [.inl rfl, .inr ⟨kept hc, hne⟩]
    · exact .inr ⟨mem_hands.2 (.inr hc), (Order.id_cancel e ▸ hok.ne_of_kept_of_rest he hc).ne'⟩
  | finish hph hr hsub =>
    refine fewer rfl fun c hc => ?_
    rcases mem_hands.1 hc with hc | hc
    · cases hc
    · rcases List.mem_append.1 hc with hc | hc
      · exact kept (hsub.subset hc)
      · cases hc

theorem booked_move (h : d.Agreed) (hok : d.Ok) (hm : Move lo feeds B d d') (hC : ∀ n ∈ d'.journal, n.Careful)
    (hph : d'.phase = .booked) (hr : d'.rest = e :: r) {q : Order α} (hq : d'.record e.id = some q) :
    q.isAlive = true := by
  rcases hm.booked_back hph with hph0 | ⟨x, c, s, hpk, hc, hr', ⟨p, z, k, hx⟩, hdead, -, hrec, hj⟩
  · obtain ⟨c, s, hc⟩ := hok.head (by rw [hph0]; decide)
    rcases hok.of_booked hm hph0 hc with ⟨-, ⟨c', s', hc', hs, -⟩, hback⟩ | ⟨hres, -⟩
    · rw [hr] at hc'; cases hc'
      obtain ⟨q0, hq0, hout⟩ := hback q (hs.id ▸ hq)
      rw [Order.isAlive_congr hout]
      exact h.booked hph0 c s hc q0 hq0
    · rw [hph] at hres; cases hres
  · rw [hr] at hr'; cases hr'
    rw [hrec, hx, (Order.same_execute c p z k).id] at hq
    have hin : c ∈ d.hands := mem_hands.2 (.inr (by rw [hc]; simp))
    exact h.record_isAlive hin (booked_isAlive hC hdead hm.journal_le) hq

theorem parents_move (h : d.Agreed) (hok : d.Ok) (hm : Move lo feeds B d d') (hC : ∀ n ∈ d'.journal, n.Careful)
    {q : Order α} (hq : d'.record id = some q) : q.parentId < q.id := by
  rcases hok.record_back hm hq with ⟨p, hp, hs⟩ | ⟨turn, seen, -, hj⟩
  · rw [hs.parentId, hs.id]; exact h.parents id p hp
  · exact hC (.submitted q turn seen) (by rw [hj]; simp)

theorem noted_move (h : d.Agreed) (hm : Move lo feeds B d d') (hl : Lasts d d')
    (ho : .recorded o ∈ d'.journal) (hd : o.isAlive = false) : ∃ q, d'.record o.id = some q ∧ q.outcome = o.outcome := by
  rcases hm.recorded_back ho with ho | ho
  · obtain ⟨q, hq, hout⟩ := h.noted o ho hd
    obtain ⟨q', hq', hout'⟩ := hl o.id q hq ((Order.isAlive_congr hout).trans hd)
    exact ⟨q', hq', hout'.trans hout⟩
  · exact ⟨o, ho, rfl⟩

theorem steady_move (h : d.Agreed) (hm : Move lo feeds B d d') (hl : Lasts d d') :
    d'.journal.Pairwise Note.Steady := by
  obtain ⟨ns, hj, hrec, hns⟩ := hm.journal_back
  rw [hj, List.pairwise_append]
  refine ⟨h.steady, hns.imp fun hn o o' ho => absurd ho (hn o), fun n hn n' hn' o o' ho ho' hid hd => ?_⟩
  subst ho ho'
  obtain ⟨q, hq, hout⟩ := h.noted o hn hd
  obtain ⟨q', hq', hout'⟩ := hl o.id q hq ((Order.isAlive_congr hout).trans hd)
  rw [← hid, hrec o' hn'] at hq'
  cases hq'
  exact hout'.trans hout

theorem executed_move (h : d.Agreed) (hok : d.Ok) (hm : Move lo feeds B d d') (hl : Lasts d d')
    (hC : ∀ n ∈ d'.journal, n.Careful) {x : Execution α} (hx : .executed x ∈ d'.journal) :
    x.order.status = .Completed ∧ ((∃ q, d'.record x.order.id = some q ∧ q.outcome = x.order.outcome) ∨
      d'.phase = .booked ∧ ∃ e r, d'.rest = e :: r ∧ e.id = x.order.id ∧ e.outcome = x.order.outcome) := by
  by_cases hin : .executed x ∈ d.journal
  · obtain ⟨hst, ⟨q, hq, hout⟩ | ⟨hph, e, r, hr, hid, hout⟩⟩ := h.executed x hin
    · have hd : q.isAlive = false := by rw [Order.isAlive_congr hout, Order.isAlive, hst]; rfl
      obtain ⟨q', hq', hout'⟩ := hl _ q hq hd
      exact ⟨hst, .inl ⟨q', hq', hout'.trans hout⟩⟩
    · refine ⟨hst, ?_⟩
      rcases hok.of_booked hm hph hr with ⟨hph', ⟨e', r', hr', hs, hout'⟩, -⟩ | ⟨-, -, hrec⟩
      · exact .inr ⟨hph', e', r', hr', hs.id.trans hid, hout'.trans hout⟩
      · exact .inl ⟨e, hid ▸ hrec, hout⟩
  · obtain ⟨ns, hj⟩ := hm.journal_le
    have hx' : .executed x ∈ ns := (List.mem_append.1 (hj ▸ hx)).resolve_left hin
    obtain ⟨c, r, -, -, hph, hr', ⟨p, z, k, hy⟩, hdead, -⟩ := hm.executed_back hj.symm hx'
    have halive := booked_isAlive hC hdead hm.journal_le
    refine ⟨?_, .inr ⟨hph, x.order, r, hr', rfl, rfl⟩⟩
    rw [hy, Order.execute, if_pos halive]

theorem move (h : d.Agreed) (hok : d.Ok) (hm : Move lo feeds B d d') (hC : ∀ n ∈ d'.journal, n.Careful) :
    d'.Agreed where
  agree := h.agree_move hok hm hC
  booked hph _ _ hr _ hq := h.booked_move hok hm hC hph hr hq
  parents _ _ hq := h.parents_move hok hm hC hq
  noted _ ho hd := h.noted_move hm (h.lasts hok hm hC) ho hd
  executed _ hx := h.executed_move hok hm (h.lasts hok hm hC) hC hx
  steady := h.steady_move hm (h.lasts hok hm hC)

theorem of_fresh {W : Type} {b : BackBroker α W} (hf : b.Fresh) : (b.desk .between).Agreed := by
  have hrec : ∀ i, (b.desk .between).record i = none := fun i => by
    rw [BackBroker.desk_record, BackBroker.findOrder, hf.allOrders]; rfl
  have hj : (b.desk .between).journal = [] := by rw [BackBroker.desk_journal, hf.journal]
  constructor
  · intro e _ q hq; rw [hrec] at hq; cases hq
  · intro hph; cases hph
  · intro i q hq; rw [hrec] at hq; cases hq
  · intro o ho; rw [hj] at ho; cases ho
  · intro x hx; rw [hj] at hx; cases hx
  · rw [hj]; exact .nil

end Agreed
end Desk

section
variable {α W : Type} [Arith α] {lo : Nat} {b : BackBroker α W} {h : Hooks α W}

theorem Ready.agreed (hr : Ready lo b) (hh : BackBroker.Tame h) (hI : (b.desk .between).Agreed) (ops : List (Op α))
    (hC : ∀ n ∈ (b.run h ops).journal, n.Careful) :
    ((b.run h ops).desk .between).Agreed ∧ Desk.Lasts (b.desk .between) ((b.run h ops).desk .between) := by
  refine @hr.run_of_notes _ _ _ _ _ _ _ (fun d => d.Agreed ∧ Desk.Lasts (b.desk .between) d) hh
    (fun feeds d d' hok hm hC hI => ?_) ⟨hI, .of_eq rfl⟩ ops hC
  exact ⟨hI.1.move hok hm hC, hI.2.trans (hI.1.lasts hok hm hC)⟩

end

variable {α W : Type} [Arith α]

/-- Cancels order 1 when it hears that order 2 has been filled. -/
def cancelsFirst : Listener ℚ Bool where
  act e b := match e with
    | .order o => if o.id = 2 ∧ o.status = .Completed ∧ b.world = false then (true, some (.cancelOrder 1)) else (b.world, none)
    | .trade _ _ => (b.world, none)
  preOrderHook := Listener.acceptAll

end StratForge
