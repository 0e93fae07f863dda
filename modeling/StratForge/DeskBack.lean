import StratForge.DeskInv

/-!
# Where things on the desk come from

What a move does to the records, and the way back: where a completed record, an order that can still
be matched and a note of a record come from.
-/

namespace StratForge
namespace Desk
variable {α : Type} {d d' : Desk α} {e o c : Order α} {r : List (Order α)} {id lo : Nat}
  {feeds : List (DataFeed α)} {B : List Nat → Order α → Prop}

/-! ### What moves do to records -/

theorem Ok.not_completed (h : d.Ok) (he : e ∈ d.copies) (halive : e.isAlive = true) {q : Order α}
    (hq : d.record e.id = some q) : q.status ≠ .Completed := fun hc => by
  have := h.done e he q hq hc
  rw [halive] at this; cases this

/-- A record goes on: it stays the same order, and a completed one keeps its outcome. -/
def Goes (d d' : Desk α) : Prop :=
  ∀ id q, d.record id = some q → ∃ q', d'.record id = some q' ∧ Order.Same q q' ∧
    (q.status = .Completed → q'.outcome = q.outcome)

namespace Goes

theorem of_eq (h : d'.record = d.record) : Goes d d' :=
  fun _ q hq => ⟨q, h ▸ hq, .refl q, fun _ => rfl⟩

/-- Overwriting the record of a copy that is not completed. -/
theorem of_file (hok : d.Ok) (he : e ∈ d.copies) (hs : Order.Same e o)
    (hne : ∀ q, d.record e.id = some q → q.status ≠ .Completed)
    (h : ∀ i, d'.record i = if i = o.id then some o else d.record i) : Goes d d' := by
  intro i q hq
  rw [h]
  by_cases hi : i = o.id
  · subst hi
    rw [hs.id] at hq
    exact ⟨o, if_pos rfl, (hok.same he hq).trans hs, fun hc => absurd hc (hne q hq)⟩
  · exact ⟨q, by rw [if_neg hi]; exact hq, .refl q, fun _ => rfl⟩

theorem of_push (hok : d.Ok) (hnew : New o d.nextOrderId)
    (h : ∀ i, d'.record i = if i = o.id then some o else d.record i) : Goes d d' := by
  intro i q hq
  have hi : i ≠ o.id := by
    have := (hok.record i q hq).2.2
    rw [hnew.id]; exact this.ne
  exact ⟨q, by rw [h, if_neg hi]; exact hq, .refl q, fun _ => rfl⟩

theorem trans {d'' : Desk α} (h : Goes d d') (h' : Goes d' d'') : Goes d d'' := by
  intro i q hq
  obtain ⟨q1, hq1, hs1, hc1⟩ := h i q hq
  obtain ⟨q2, hq2, hs2, hc2⟩ := h' i q1 hq1
  refine ⟨q2, hq2, hs1.trans hs2, fun hc => ?_⟩
  have hst : q1.status = .Completed := (congrArg Prod.fst (hc1 hc)).trans hc
  exact (hc2 hst).trans (hc1 hc)

end Goes

theorem Ok.goes_call (h : d.Ok) (hc : Call lo d d') : Goes d d' := by
  cases hc with
  | submit seen hnew hlate => exact .of_push h hnew fun _ => rfl
  | submitLate turn seen hnew hturn => exact .of_push h hnew fun _ => rfl
  | link id ids hid =>
    intro i q hq
    by_cases hi : i = id
    · subst hi
      exact ⟨_, by simp [Desk.link, hq], Ok.same_childIds q ids, fun _ => rfl⟩
    · exact ⟨q, by simp [Desk.link, hi, hq], .refl q, fun _ => rfl⟩
  | cancel pos turn he halive hpos =>
    have hmem := mem_copies.2 (.inl he)
    exact .of_file h hmem (Order.same_setStatus _ _) (fun q hq => h.not_completed hmem halive hq) fun _ => rfl

theorem Ok.goes (h : d.Ok) (hm : Move lo feeds B d d') : Goes d d' := by
  cases hm with
  | call hc => exact h.goes_call hc
  | skip | keep | pick | book | group | activate | dismiss | finish => exact .of_eq rfl
  | touch hph hr ht =>
    exact .of_file h (mem_copies.2 (.inl (head_mem_pending hr))) ht.same
      (h.unfilled (.inl hph) _ _ hr).2 fun _ => rfl
  | drop s hph hr | refuse s hph hr =>
    exact .of_file h (mem_copies.2 (.inl (head_mem_pending hr))) (Order.same_setStatus _ s)
      (h.unfilled (.inl hph) _ _ hr).2 fun _ => rfl
  | settle hph hr =>
    exact .of_file h (mem_copies.2 (.inl (head_mem_pending hr))) (.refl _)
      (h.unfilled (.inr hph) _ _ hr).2 fun _ => rfl
  | child hph hr hs hc halive hparent =>
    have hmem := mem_copies.2 (.inl hc)
    exact .of_file h hmem (Order.same_setStatus _ _) (fun q hq => h.not_completed hmem halive hq) fun _ => rfl
  | oco hph hr he halive hgroup =>
    have hmem := mem_copies.2 (.inr he)
    exact .of_file h hmem (Order.same_setStatus _ _) (fun q hq => h.not_completed hmem halive hq) fun _ => rfl

/-- A completed record was completed before, unless it has just been settled. -/
theorem Ok.completed_back (h : d.Ok) (hm : Move lo feeds B d d') {q' : Order α}
    (hq' : d'.record id = some q') (hc : q'.status = .Completed) :
    (∃ q, d.record id = some q ∧ q.status = .Completed ∧ Order.Same q q') ∨
      (d.phase = .booked ∧ id = q'.id ∧ d'.phase = .resolved ∧
        ∃ r, d.rest = q' :: r ∧ d'.rest = q' :: r ∧ .recorded q' ∈ d'.journal) := by
  have file : ∀ {e o : Order α}, o.status ≠ .Completed →
      (if id = o.id then some o else d.record id) = some q' →
      ∃ q, d.record id = some q ∧ q.status = .Completed ∧ Order.Same q q' := by
    intro _ o ho hq
    split at hq
    · cases hq; exact absurd hc ho
    · exact ⟨q', hq, hc, .refl q'⟩
  have cancelled : ∀ {c : Order α}, c.isAlive = true → c.cancel.status ≠ .Completed := by
    intro c ha
    rw [Order.cancel, Order.status_setStatus ha]; decide
  cases hm with
  | skip | keep | pick | book | group | activate | dismiss | finish => exact .inl ⟨q', hq', hc, .refl q'⟩
  | call hcall =>
    cases hcall with
    | submit seen hnew hlate => exact .inl (@file q' _ (by rw [hnew.status]; decide) hq')
    | submitLate turn seen hnew hturn => exact .inl (@file q' _ (by rw [hnew.status]; decide) hq')
    | link id' ids hid =>
      replace hq' : (if id = id' then (d.record id').map ({ · with childIds := ids }) else d.record id) =
        some q' := hq'
      by_cases hi : id = id'
      · rw [if_pos hi, ← hi] at hq'
        obtain ⟨q, hq, rfl⟩ := Option.map_eq_some_iff.1 hq'
        exact .inl ⟨q, hq, hc, Ok.same_childIds q ids⟩
      · rw [if_neg hi] at hq'
        exact .inl ⟨q', hq', hc, .refl q'⟩
    | cancel pos turn he halive hpos => exact .inl (@file q' _ (cancelled halive) hq')
  | touch hph hr ht =>
    exact .inl (@file q' _ (not_completed_tweak ((h.unfilled (.inl hph) _ _ hr).1 hph) ht) hq')
  | drop s hph hr hs | refuse s hph hr hs =>
    exact .inl (@file q' _ (not_completed_setStatus ((h.unfilled (.inl hph) _ _ hr).1 hph)
      (by rcases hs with rfl | rfl <;> decide)) hq')
  | @settle e r hph hr =>
    replace hq' : (if id = e.id then some e else d.record id) = some q' := hq'
    by_cases hi : id = e.id
    · rw [if_pos hi] at hq'; cases hq'
      exact .inr ⟨hph, hi, rfl, r, hr, hr, by simp [Desk.file, Desk.log]⟩
    · rw [if_neg hi] at hq'
      exact .inl ⟨q', hq', hc, .refl q'⟩
  | child hph hr hs hcm halive hparent => exact .inl (@file q' _ (cancelled halive) hq')
  | oco hph hr he halive hgroup => exact .inl (@file q' _ (cancelled halive) hq')

/-! ### What can still be matched -/

/-- The copies that this pass or a later one may match. -/
def play (d : Desk α) : List (Order α) := d.kept ++ d.rest

theorem mem_play : e ∈ d.play ↔ e ∈ d.kept ∨ e ∈ d.rest := List.mem_append

theorem copies_of_play (he : e ∈ d.play) : e ∈ d.copies := by
  rw [mem_copies, mem_pending]
  rcases mem_play.1 he with he | he
  exacts [.inr he, .inl (.inr (.inl he))]

theorem head_mem_play (hr : d.rest = e :: r) : e ∈ d.play := mem_play.2 (.inr (by rw [hr]; simp))

/-- `e` is what `c` has become. An order is transmitted only when its parent has filled. -/
structure Becomes (lo : Nat) (d : Desk α) (c e : Order α) : Prop where
  same : Order.Same c e
  isAlive : e.isAlive = true → c.isAlive = true
  transmit : e.transmit = true → c.transmit = true ∨ ∃ p, d.record c.parentId = some p ∧ p.status = .Completed
  childIds : 0 < c.id → c.id < lo → e.childIds = c.childIds

namespace Becomes

theorem refl (d : Desk α) (e : Order α) : Becomes lo d e e := ⟨.refl e, id, .inl, fun _ _ => rfl⟩

theorem setStatus (d : Desk α) (e : Order α) (s : OrderStatus) : Becomes lo d e (e.setStatus s) := by
  refine ⟨Order.same_setStatus e s, fun h => ?_, fun h => .inl ((Ok.transmit_setStatus e s).symm.trans h), fun _ _ => ?_⟩
  · rw [Order.isAlive_setStatus, Bool.and_eq_true] at h
    exact h.1
  · unfold Order.setStatus; split <;> rfl

theorem tweak (d : Desk α) (ht : Tweak e o) : Becomes lo d e o :=
  ⟨ht.same, fun h => ht.isAlive.symm.trans h, fun h => .inl (ht.transmit.symm.trans h), fun _ _ => ht.childIds⟩

theorem link (d : Desk α) (e : Order α) (ids : List Nat) (hid : e.id = 0 ∨ lo ≤ e.id) :
    Becomes lo d e { e with childIds := ids } :=
  ⟨Ok.same_childIds e ids, id, .inl, fun h0 hlt => by omega⟩

theorem execute (d : Desk α) (e : Order α) (p s c : α) : Becomes lo d e (e.execute p s c) := by
  refine ⟨Order.same_execute e p s c, fun h => ?_, fun h => .inl ?_, fun _ _ => ?_⟩
  · rw [Order.not_isAlive_execute] at h; cases h
  · unfold Order.execute at h
    split at h <;> exact h
  · unfold Order.execute; split <;> rfl

end Becomes

/-- What is in `l` was in play. -/
def Played (lo : Nat) (d : Desk α) (l : List (Order α)) : Prop := ∀ e ∈ l, ∃ c ∈ d.play, Becomes lo d c e

namespace Played
variable {l l' : List (Order α)}

theorem of_subset (h : ∀ e ∈ l, e ∈ d.play) : Played lo d l := fun e he => ⟨e, h e he, .refl d e⟩

theorem append (h : Played lo d l) (h' : Played lo d l') : Played lo d (l ++ l') := fun e he =>
  (List.mem_append.1 he).elim (h e) (h' e)

theorem cons (h : c ∈ d.play) (hb : Becomes lo d c e) (hl : Played lo d l) : Played lo d (e :: l) := fun x hx => by
  rcases List.mem_cons.1 hx with rfl | hx
  exacts [⟨c, h, hb⟩, hl x hx]

theorem map {f : Order α → Order α} (h : ∀ e ∈ l, e ∈ d.play) (hf : ∀ e ∈ l, Becomes lo d e (f e)) :
    Played lo d (l.map f) := fun x hx => by
  obtain ⟨e, he, rfl⟩ := List.mem_map.1 hx
  exact ⟨e, h e he, hf e he⟩

theorem update {f : Order α → Order α} (h : ∀ e ∈ l, e ∈ d.play)
    (hf : ∀ e ∈ l, e.id = id → Becomes lo d e (f e)) : Played lo d (Keyed.update Order.id id f l) :=
  map h fun e he => by
    by_cases hi : e.id = id
    · rw [if_pos hi]; exact hf e he hi
    · rw [if_neg hi]; exact .refl d e

theorem kept (d : Desk α) : Played lo d d.kept := of_subset fun _ he => mem_play.2 (.inl he)

theorem rest (d : Desk α) : Played lo d d.rest := of_subset fun _ he => mem_play.2 (.inr he)

theorem write (hok : d.Ok) (he : e ∈ d.pending) (hb : Becomes lo d e o) : Played lo d (d.write o).play := by
  refine (kept d).append (update (fun x hx => mem_play.2 (.inr hx)) fun x hx hi => ?_)
  rw [hok.eq_of_id (mem_pending.2 (.inr (.inl hx))) he (hi.trans hb.same.id)]
  exact hb

theorem next (hr : d.rest = e :: r) : Played lo d (d.next e r).play :=
  (kept d).append (of_subset fun x hx => mem_play.2 (.inr (by rw [hr]; exact List.mem_cons_of_mem _ hx)))

end Played

/-- What is in play was so before, or has just been submitted. -/
theorem Ok.play_back (h : d.Ok) (hm : Move lo feeds B d d') :
    Played lo d d'.play ∨ ∃ o seen, New o d.nextOrderId ∧ d'.play = d.play ++ [o] ∧
      d'.journal = d.journal ++ [.submitted o 0 seen] := by
  have head : ∀ {x o : Order α} {r}, d.rest = x :: r → Becomes lo d x o → Played lo d (d.kept ++ o :: r) :=
    fun hr hb => (Played.kept d).append (.cons (head_mem_play hr) hb
      (.of_subset fun y hy => mem_play.2 (.inr (by rw [hr]; exact List.mem_cons_of_mem _ hy))))
  cases hm with
  | call hcall =>
    cases hcall with
    | submit seen hnew hlate => exact .inr ⟨_, seen, hnew, (List.append_assoc ..).symm, rfl⟩
    | submitLate => exact .inl (.of_subset fun _ he => he)
    | link id ids hid =>
      refine .inl ((Played.kept d).append (.update (fun x hx => mem_play.2 (.inr hx)) fun x _ hx => .link d x ids ?_))
      rwa [hx]
    | cancel pos turn he halive hpos => exact .inl (Played.write h he (.setStatus d _ _))
  | skip hph hr | dismiss hr => exact .inl (.next hr)
  | keep hph hr =>
    exact .inl (((Played.kept d).append (.cons (head_mem_play hr) (.refl d _) (by simp [Played]))).append
      (.of_subset fun y hy => mem_play.2 (.inr (by rw [hr]; exact List.mem_cons_of_mem _ hy))))
  | pick hph hr halive hgate =>
    rcases hgate with ⟨rfl, -⟩ | ⟨rfl, hp⟩
    · exact .inl (head hr (.refl d _))
    · exact .inl (head hr ⟨same_transmit _ _, fun ha => ha, fun _ => .inr hp, fun _ _ => rfl⟩)
  | touch hph hr ht => exact .inl (.write h (head_mem_pending hr) (.tweak d ht))
  | drop s hph hr | refuse s hph hr => exact .inl (.write h (head_mem_pending hr) (.setStatus d _ s))
  | book x feed hph hr hfeed hx =>
    obtain ⟨p, s, c, hx⟩ := hx
    exact .inl (head hr (hx ▸ .execute d _ p s c))
  | settle | group => exact .inl (.of_subset fun _ he => he)
  | activate hph hr hs =>
    obtain ⟨q, hq, hst⟩ := h.settled (.inl hph) _ _ hr
    refine .inl ((Played.kept d).append (.map (fun x hx => mem_play.2 (.inr hx)) fun x _ => ?_))
    unfold release
    split_ifs with hx
    · simp only [Bool.and_eq_true, beq_iff_eq] at hx
      exact ⟨same_transmit _ _, fun ha => ha, fun _ => .inr ⟨q, by rw [hx.1]; exact hq, hst.trans hs⟩, fun _ _ => rfl⟩
    · exact .refl d x
  | child hph hr hs hc halive hparent => exact .inl (.write h hc (.setStatus d _ _))
  | @oco e hph hr he halive hgroup =>
    refine .inl (Played.append (.update (fun x hx => mem_play.2 (.inl hx)) fun x hx hi => ?_) (.rest d))
    have hx' : x = e := Keyed.eq_of_key (h.keptIds.nodup h.nodup_stale) hx he (hi.trans (Order.id_cancel e))
    rw [hx']
    exact .setStatus d e _
  | finish hph hr hsub =>
    exact .inl (.of_subset fun x hx => mem_play.2 (.inl (hsub.subset hx)))

/-! ### The groups of a pass and the end of a turn -/

/-- Groups stay claimed until the pass is over, and then nothing of theirs is alive. -/
theorem Move.groups_le (hm : Move lo feeds B d d') : d.groups ⊆ d'.groups ∨
    ∀ e ∈ d'.play, e.isAlive = true → e.ocoGroupId ≠ 0 → e.ocoGroupId ∉ d.groups := by
  cases hm with
  | call hcall => cases hcall <;> exact .inl fun _ hg => hg
  | group => exact .inl fun _ hg => List.mem_append_left _ hg
  | finish hph hr hsub hall hgroup => exact .inr fun e he => hgroup e he
  | _ => exact .inl fun _ hg => hg

/-- The order at hand stays at hand until the turn is over. -/
theorem Ok.of_resolved (h : d.Ok) (hm : Move lo feeds B d d') (hph : d.phase = .resolved) (hr : d.rest = e :: r) :
    (d'.phase = .resolved ∧ ∃ e' r', d'.rest = e' :: r' ∧ Order.Same e e' ∧ e'.outcome = e.outcome) ∨
      (d' = d.next e r ∧ (e.status = .Completed → e.ocoGroupId ≠ 0 → e.ocoGroupId ∈ d.groups) ∧
        (e.status ≠ .Completed → e.parentId = 0 → e.childIds ≠ [] →
          ∀ c ∈ d.stale ++ d.rest, c.parentId = e.id → c.isAlive = false)) := by
  have hdead := h.dead (by rw [hph]; decide) (by rw [hph]; decide) e r hr
  -- callbacks cancel only what is alive
  have write : ∀ {c : Order α}, c ∈ d.pending → c.isAlive = true →
      ∃ e' r', (d.write c.cancel).rest = e' :: r' ∧ Order.Same e e' ∧ e'.outcome = e.outcome := by
    intro c hc halive
    have hne : e.id ≠ c.cancel.id := by
      rw [Order.id_cancel]
      intro hid
      rw [h.eq_of_id (head_mem_pending hr) hc hid, halive] at hdead
      cases hdead
    exact ⟨e, _, by rw [rest_write, hr, Keyed.update_cons, if_neg hne], .refl e, rfl⟩
  cases hm with
  | call hcall =>
    cases hcall with
    | @submit o => exact .inl ⟨hph, e, r ++ [o], by simp [Desk.submit, Desk.log, hr], .refl e, rfl⟩
    | submitLate => exact .inl ⟨hph, e, r, hr, .refl e, rfl⟩
    | link id ids hid =>
      refine .inl ⟨hph, _, _, by simp only [Desk.link, Desk.edit, hr, Keyed.update_cons]; rfl, ?_, ?_⟩ <;> split
      exacts [Ok.same_childIds e ids, .refl e, rfl, rfl]
    | cancel pos turn hc halive => exact .inl ⟨hph, write hc halive⟩
  | skip hph' | pick hph' | touch hph' | settle hph' | oco hph' | finish hph' => rw [hph] at hph'; cases hph'
  | drop _ hph' | refuse _ hph' | book _ _ hph' => rw [hph] at hph'; cases hph'
  | keep hph' => rw [hph] at hph'; rcases hph' with hph' | hph' <;> cases hph'
  | group => exact .inl ⟨hph, e, r, hr, .refl e, rfl⟩
  | @activate x =>
    refine .inl ⟨hph, release x.id e, r.map (release x.id), by rw [Desk.activate, hr]; rfl, ?_, ?_⟩ <;>
      unfold release <;> split
    exacts [Ok.same_transmit e true, .refl e, rfl, rfl]
  | child hph' hr' hs hc halive => exact .inl ⟨hph, write hc halive⟩
  | dismiss hr' hwhy =>
    rw [hr] at hr'; cases hr'
    rcases hwhy with hd | ⟨-, hg, hc⟩
    · rw [hph] at hd; cases hd
    · exact .inr ⟨rfl, hg, hc⟩

/-- While the record of a filled order is to be overwritten, callbacks change neither. -/
theorem Ok.of_booked (h : d.Ok) (hm : Move lo feeds B d d') (hph : d.phase = .booked) (hr : d.rest = e :: r) :
    (d'.phase = .booked ∧ (∃ e' r', d'.rest = e' :: r' ∧ Order.Same e e' ∧ e'.outcome = e.outcome) ∧
      ∀ q', d'.record e.id = some q' → ∃ q, d.record e.id = some q ∧ q'.outcome = q.outcome) ∨
      (d'.phase = .resolved ∧ d'.rest = e :: r ∧ d'.record e.id = some e) := by
  have hdead := h.dead (by rw [hph]; decide) (by rw [hph]; decide) e r hr
  cases hm with
  | call hcall =>
    refine .inl ?_
    cases hcall with
    | @submit o seen hnew =>
      refine ⟨hph, ⟨e, r ++ [o], by simp [Desk.submit, Desk.log, hr], .refl e, rfl⟩, fun q' hq' => ⟨q', ?_, rfl⟩⟩
      replace hq' : (if e.id = o.id then some o else d.record e.id) = some q' := hq'
      rwa [if_neg (h.new_ne hnew (mem_copies.2 (.inl (head_mem_pending hr))))] at hq'
    | @submitLate o turn seen hnew =>
      refine ⟨hph, ⟨e, r, hr, .refl e, rfl⟩, fun q' hq' => ⟨q', ?_, rfl⟩⟩
      replace hq' : (if e.id = o.id then some o else d.record e.id) = some q' := hq'
      rwa [if_neg (h.new_ne hnew (mem_copies.2 (.inl (head_mem_pending hr))))] at hq'
    | link i ids hid =>
      refine ⟨hph, ⟨_, _, by simp only [Desk.link, Desk.edit, hr, Keyed.update_cons]; rfl, ?_, ?_⟩, fun q' hq' => ?_⟩
      · split
        exacts [Ok.same_childIds e ids, .refl e]
      · split <;> rfl
      · replace hq' : (if e.id = i then (d.record i).map ({ · with childIds := ids }) else d.record e.id) = some q' := hq'
        by_cases hi : e.id = i
        · rw [if_pos hi, ← hi] at hq'
          obtain ⟨q, hq, rfl⟩ := Option.map_eq_some_iff.1 hq'
          exact ⟨q, hq, rfl⟩
        · rw [if_neg hi] at hq'; exact ⟨q', hq', rfl⟩
    | @cancel c pos turn hc halive =>
      have hne : e.id ≠ c.cancel.id := by
        rw [Order.id_cancel]
        intro hid
        rw [h.eq_of_id (head_mem_pending hr) hc hid, halive] at hdead
        cases hdead
      refine ⟨hph, ⟨e, Keyed.update Order.id c.cancel.id (fun _ => c.cancel) r, ?_, .refl e, rfl⟩, fun q' hq' => ⟨q', ?_, rfl⟩⟩
      · show Keyed.update Order.id c.cancel.id (fun _ => c.cancel) d.rest = _
        rw [hr, Keyed.update_cons, if_neg hne]
      · replace hq' : (if e.id = c.cancel.id then some c.cancel else d.record e.id) = some q' := hq'
        rwa [if_neg hne] at hq'
  | settle hph' hr' =>
    rw [hr] at hr'; cases hr'
    exact .inr ⟨rfl, hr, if_pos rfl⟩
  | dismiss hr' hwhy =>
    exfalso
    rcases hwhy with hd | ⟨hd, -⟩ <;> rw [hph] at hd <;> cases hd
  | keep hph' => exfalso; rcases hph' with hd | hd <;> rw [hph] at hd <;> cases hd
  | skip hph' | pick hph' | touch hph' | oco hph' | finish hph' | group hph' | activate hph' | child hph' =>
    rw [hph] at hph'; cases hph'
  | drop _ hph' | refuse _ hph' | book _ _ hph' => rw [hph] at hph'; cases hph'

/-- An order at hand that has been filled was so before, or has just been booked. -/
theorem Move.booked_back (hm : Move lo feeds B d d') (hph : d'.phase = .booked) : d.phase = .booked ∨
    ∃ x c r, d.phase = .picked ∧ d.rest = c :: r ∧ d'.rest = x.order :: r ∧ (∃ p q k, x.order = c.execute p q k) ∧
      (c.isAlive = false → ∃ pos turn, pos < turn ∧ .cancelled c.id pos turn ∈ d.journal) ∧ B d.groups c ∧
      d'.record = d.record ∧ d'.journal = d.journal ++ [.executed x] := by
  cases hm with
  | call hcall => cases hcall <;> exact .inl hph
  | touch | group | activate | child | oco => exact .inl hph
  | skip | keep | pick | drop | refuse | settle | dismiss | finish => cases hph
  | book x feed hpk hc hfeed hx hcursor hdead hB => exact .inr ⟨x, _, _, hpk, hc, rfl, hx, hdead, hB, rfl, rfl⟩

/-! ### What the journal says of records -/

/-- A move notes the records it overwrites, at most one. -/
theorem Move.journal_back (hm : Move lo feeds B d d') : ∃ ns, d'.journal = d.journal ++ ns ∧
    (∀ o, .recorded o ∈ ns → d'.record o.id = some o) ∧ ns.Pairwise fun n _ => ∀ o, n ≠ .recorded o := by
  have none : d'.journal = d.journal → ∃ ns, d'.journal = d.journal ++ ns ∧
      (∀ o, .recorded o ∈ ns → d'.record o.id = some o) ∧ ns.Pairwise fun n _ => ∀ o, n ≠ .recorded o :=
    fun h => ⟨[], by simp [h], by simp, by simp⟩
  have other : ∀ {n : Note α}, (∀ y, n ≠ .recorded y) → ∃ ns, d.journal ++ [n] = d.journal ++ ns ∧
      (∀ o, .recorded o ∈ ns → d'.record o.id = some o) ∧ ns.Pairwise fun n _ => ∀ o, n ≠ .recorded o :=
    fun {n} hn => ⟨[n], rfl, fun o ho => absurd (List.mem_singleton.1 ho).symm (hn o), by simp⟩
  have file : ∀ {x : Order α}, d'.record x.id = some x → ∃ ns, d.journal ++ [.recorded x] = d.journal ++ ns ∧
      (∀ o, .recorded o ∈ ns → d'.record o.id = some o) ∧ ns.Pairwise fun n _ => ∀ o, n ≠ .recorded o := by
    refine fun {x} hx => ⟨[.recorded x], rfl, fun o ho => ?_, by simp⟩
    cases List.mem_singleton.1 ho
    exact hx
  cases hm with
  | call hcall =>
    cases hcall with
    | submit | submitLate => exact other (by simp)
    | link => exact none rfl
    | @cancel e pos turn =>
      refine ⟨[.cancelled e.id pos turn, .recorded e.cancel], by simp [Desk.log], fun o ho => ?_, by simp⟩
      obtain rfl : o = e.cancel := by simpa using ho
      exact if_pos rfl
  | skip | keep | pick | group | activate | dismiss | finish => exact none rfl
  | book x => exact other (by simp)
  | touch | drop | refuse | settle | child | oco => exact file (if_pos rfl)

theorem Move.recorded_back (hm : Move lo feeds B d d') (ho : .recorded o ∈ d'.journal) :
    .recorded o ∈ d.journal ∨ d'.record o.id = some o := by
  obtain ⟨ns, hj, hrec, -⟩ := hm.journal_back
  rw [hj] at ho
  exact (List.mem_append.1 ho).imp id (hrec o)

/-- A submission is noted when it is made, under the next id. -/
theorem Move.submitted_back (hm : Move lo feeds B d d') {turn seen : Nat} (ho : .submitted o turn seen ∈ d'.journal) :
    .submitted o turn seen ∈ d.journal ∨
      (New o d.nextOrderId ∧ d'.record o.id = some o ∧ d'.journal = d.journal ++ [.submitted o turn seen]) := by
  have new : ∀ {x : Order α} {t s : Nat}, New x d.nextOrderId → d'.record x.id = some x →
      d'.journal = d.journal ++ [.submitted x t s] → .submitted o turn seen ∈ d.journal ∨
        (New o d.nextOrderId ∧ d'.record o.id = some o ∧ d'.journal = d.journal ++ [.submitted o turn seen]) := by
    intro x t s hnew hrec hj
    rw [hj, List.mem_append, List.mem_singleton] at ho
    rcases ho with ho | ho
    · exact .inl ho
    · cases ho; exact .inr ⟨hnew, hrec, hj⟩
  cases hm with
  | call hcall =>
    cases hcall with
    | submit seen hnew => exact new hnew (if_pos rfl) rfl
    | submitLate turn seen hnew => exact new hnew (if_pos rfl) rfl
    | link => exact .inl ho
    | cancel => simp [Desk.log] at ho; exact .inl ho
  | skip | keep | pick | group | activate | dismiss | finish => exact .inl ho
  | touch | drop | refuse | settle | child | oco | book => exact .inl (by simpa [writeKept, file, Desk.log] using ho)

theorem Move.next_le (hm : Move lo feeds B d d') : d.nextOrderId ≤ d'.nextOrderId := by
  cases hm with
  | call hcall => cases hcall <;> first | exact le_rfl | exact Nat.le_succ _
  | _ => exact le_rfl

/-- A fill is noted when it is booked. -/
theorem Move.executed_back (hm : Move lo feeds B d d') {ns : List (Note α)} (hj : d'.journal = d.journal ++ ns)
    {x : Execution α} (hx : .executed x ∈ ns) : ∃ e r, d.phase = .picked ∧ d.rest = e :: r ∧ d'.phase = .booked ∧
      d'.rest = x.order :: r ∧ (∃ p q k, x.order = e.execute p q k) ∧
      (e.isAlive = false → ∃ pos turn, pos < turn ∧ .cancelled e.id pos turn ∈ d.journal) ∧
      d'.record = d.record ∧ ns = [.executed x] := by
  have other : ∀ {n : Note α}, (∀ y, n ≠ .executed y) → d.journal ++ [n] = d.journal ++ ns → False := by
    intro n hn hj
    obtain rfl := List.append_cancel_left hj
    exact hn x (List.mem_singleton.1 hx).symm
  have none : d.journal = d.journal ++ ns → False := by
    intro hj
    rw [List.self_eq_append_right.1 hj] at hx
    cases hx
  cases hm with
  | call hcall =>
    exfalso
    cases hcall with
    | submit | submitLate => exact other (by simp) hj
    | link => exact none hj
    | cancel =>
      rw [journal_write, Desk.log, List.append_assoc] at hj
      obtain rfl := List.append_cancel_left hj
      simp at hx
  | skip | keep | pick | group | activate | dismiss | finish => exact absurd hj none
  | touch | drop | refuse | settle | child | oco => exact absurd hj (other (by simp))
  | book y feed hpk hr hfeed hy hcursor hdead =>
    obtain rfl := List.append_cancel_left hj
    cases List.mem_singleton.1 hx
    exact ⟨_, _, hpk, hr, rfl, rfl, hy, hdead, rfl, rfl⟩

/-- A record was there before, or its order has just been submitted. -/
theorem Ok.record_back (h : d.Ok) (hm : Move lo feeds B d d') {q' : Order α} (hq' : d'.record id = some q') :
    (∃ q, d.record id = some q ∧ Order.Same q q') ∨
      ∃ turn seen, New q' d.nextOrderId ∧ d'.journal = d.journal ++ [.submitted q' turn seen] := by
  have write : ∀ {e o : Order α}, e ∈ d.copies → Order.Same e o →
      (if id = o.id then some o else d.record id) = some q' → ∃ q, d.record id = some q ∧ Order.Same q q' := by
    intro e o he hs hq
    split at hq
    · rename_i hi
      cases hq
      obtain ⟨q, hq, hqs⟩ := h.known e he
      exact ⟨q, by rw [hi, hs.id]; exact hq, hqs.trans hs⟩
    · exact ⟨q', hq, .refl q'⟩
  have new : ∀ {o : Order α} {turn seen}, New o d.nextOrderId →
      (if id = o.id then some o else d.record id) = some q' →
      (∃ q, d.record id = some q ∧ Order.Same q q') ∨ ∃ turn' seen', New q' d.nextOrderId ∧
        d.journal ++ [.submitted o turn seen] = d.journal ++ [.submitted q' turn' seen'] := by
    intro o turn seen hnew hq
    split at hq
    · cases hq; exact .inr ⟨turn, seen, hnew, rfl⟩
    · exact .inl ⟨q', hq, .refl q'⟩
  cases hm with
  | skip | keep | pick | book | group | activate | dismiss | finish => exact .inl ⟨q', hq', .refl q'⟩
  | call hcall =>
    cases hcall with
    | submit seen hnew => exact new hnew hq'
    | submitLate turn seen hnew => exact new hnew hq'
    | link i ids hid =>
      replace hq' : (if id = i then (d.record i).map ({ · with childIds := ids }) else d.record id) = some q' := hq'
      by_cases hi : id = i
      · rw [if_pos hi, ← hi] at hq'
        obtain ⟨q, hq, rfl⟩ := Option.map_eq_some_iff.1 hq'
        exact .inl ⟨q, hq, same_childIds q ids⟩
      · rw [if_neg hi] at hq'
        exact .inl ⟨q', hq', .refl q'⟩
    | cancel pos turn he => exact .inl (write (mem_copies.2 (.inl he)) (Order.same_setStatus _ _) hq')
  | touch hph hr ht => exact .inl (write (mem_copies.2 (.inl (head_mem_pending hr))) ht.same hq')
  | drop s hph hr | refuse s hph hr =>
    exact .inl (write (mem_copies.2 (.inl (head_mem_pending hr))) (Order.same_setStatus _ s) hq')
  | settle hph hr => exact .inl (write (mem_copies.2 (.inl (head_mem_pending hr))) (.refl _) hq')
  | child hph hr hs hc => exact .inl (write (mem_copies.2 (.inl hc)) (Order.same_setStatus _ _) hq')
  | oco hph hr he => exact .inl (write (mem_copies.2 (.inr he)) (Order.same_setStatus _ _) hq')

end Desk
end StratForge
