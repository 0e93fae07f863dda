import StratForge.Desk

/-!
# What holds of every desk

`Desk.Ok`: the pending orders stand in the order of their ids, every copy agrees with its record on
what is fixed at submission, and a completed record has no copy that is still alive. One lemma for
each primitive, `Ok.call` and `Ok.move` from them.
-/

namespace StratForge
namespace Desk
variable {α : Type} {d d' : Desk α} {e o c : Order α} {r : List (Order α)} {id lo : Nat}

/-- The order at hand agrees with its record, once that is overwritten. -/
def Settled (d : Desk α) : Prop :=
  d.phase = .resolved ∨ d.phase = .dropped →
    ∀ e r, d.rest = e :: r → ∃ q, d.record e.id = some q ∧ q.status = e.status

/-- Until the order at hand is filled, its record is not completed. -/
def Unfilled (d : Desk α) : Prop :=
  d.phase = .picked ∨ d.phase = .booked → ∀ e r, d.rest = e :: r →
    (d.phase = .picked → e.status ≠ .Completed) ∧ ∀ q, d.record e.id = some q → q.status ≠ .Completed

structure Ok (d : Desk α) : Prop where
  numbered : d.ids = List.range' 1 (d.nextOrderId - 1)
  ids : (d.pending.map Order.id).Pairwise (· < ·)
  /-- Everything kept is a copy of an order that has been reached. -/
  keptIds : (d.kept.map Order.id).Sublist (d.stale.map Order.id)
  pos : 0 < d.nextOrderId
  record : ∀ id r, d.record id = some r → r.id = id ∧ 0 < id ∧ id < d.nextOrderId
  known : ∀ e ∈ d.copies, ∃ r, d.record e.id = some r ∧ Order.Same r e
  done : ∀ e ∈ d.copies, ∀ r, d.record e.id = some r → r.status = .Completed → e.isAlive = false
  head : d.phase ≠ .idle → ∃ e r, d.rest = e :: r
  dead : d.phase ≠ .idle → d.phase ≠ .picked → ∀ e r, d.rest = e :: r → e.isAlive = false
  gate : d.phase = .picked → ∀ e r, d.rest = e :: r → e.transmit = true ∨ e.parentId = 0
  settled : d.Settled
  unfilled : d.Unfilled

/-! ### Membership -/

theorem mem_pending : e ∈ d.pending ↔ e ∈ d.stale ∨ e ∈ d.rest ∨ e ∈ d.late := by
  simp [pending]

theorem mem_copies : e ∈ d.copies ↔ e ∈ d.pending ∨ e ∈ d.kept := by
  simp only [copies, pending, List.mem_append]
  tauto

theorem head_mem_pending (hr : d.rest = e :: r) : e ∈ d.pending := by
  rw [mem_pending, hr]; simp

theorem pending_edit (d : Desk α) (id : Nat) (f : Order α → Order α) :
    (d.edit id f).pending = Keyed.update Order.id id f d.pending := by
  simp [pending, edit]

@[simp] theorem pending_write (d : Desk α) (o : Order α) :
    (d.write o).pending = Keyed.update Order.id o.id (fun _ => o) d.pending := pending_edit d o.id _

@[simp] theorem kept_write (d : Desk α) (o : Order α) : (d.write o).kept = d.kept := rfl
@[simp] theorem phase_write (d : Desk α) (o : Order α) : (d.write o).phase = d.phase := rfl
@[simp] theorem groups_write (d : Desk α) (o : Order α) : (d.write o).groups = d.groups := rfl
@[simp] theorem nextOrderId_write (d : Desk α) (o : Order α) : (d.write o).nextOrderId = d.nextOrderId := rfl
@[simp] theorem stale_write (d : Desk α) (o : Order α) :
    (d.write o).stale = Keyed.update Order.id o.id (fun _ => o) d.stale := rfl
@[simp] theorem rest_write (d : Desk α) (o : Order α) :
    (d.write o).rest = Keyed.update Order.id o.id (fun _ => o) d.rest := rfl
@[simp] theorem late_write (d : Desk α) (o : Order α) :
    (d.write o).late = Keyed.update Order.id o.id (fun _ => o) d.late := rfl
@[simp] theorem journal_write (d : Desk α) (o : Order α) :
    (d.write o).journal = d.journal ++ [.recorded o] := rfl
@[simp] theorem record_write (d : Desk α) (o : Order α) (id : Nat) :
    (d.write o).record id = if id = o.id then some o else d.record id := rfl

namespace Ok

theorem nodup (h : d.Ok) : (d.pending.map Order.id).Nodup := h.ids.imp ne_of_lt

theorem nodup_stale (h : d.Ok) : (d.stale.map Order.id).Nodup := by
  have := h.nodup
  rw [pending, List.append_assoc, List.map_append, List.nodup_append] at this
  exact this.1

theorem eq_of_id (h : d.Ok) (he : e ∈ d.pending) (hc : c ∈ d.pending) (hid : e.id = c.id) : e = c :=
  Keyed.eq_of_key h.nodup he hc hid

/-- A kept order has a stale original. -/
theorem stale_of_kept (h : d.Ok) (hc : c ∈ d.kept) : ∃ e ∈ d.stale, e.id = c.id := by
  have : c.id ∈ d.stale.map Order.id := h.keptIds.subset (List.mem_map_of_mem hc)
  exact List.mem_map.1 this

theorem ne_of_stale_of_rest (h : d.Ok) (hs : c ∈ d.stale) (hr : e ∈ d.rest ++ d.late) : c.id < e.id := by
  have := h.ids
  rw [pending, List.append_assoc, List.map_append, List.pairwise_append] at this
  exact this.2.2 _ (List.mem_map_of_mem hs) _ (List.mem_map_of_mem hr)

theorem ne_of_kept_of_rest (h : d.Ok) (hk : c ∈ d.kept) (hr : e ∈ d.rest ++ d.late) : c.id < e.id := by
  obtain ⟨s, hs, hid⟩ := h.stale_of_kept hk
  exact hid ▸ h.ne_of_stale_of_rest hs hr

theorem ne_of_head (h : d.Ok) (hr : d.rest = e :: r) (hc : c ∈ r ++ d.late) : e.id < c.id := by
  have := h.ids
  rw [pending, hr] at this
  simp only [List.append_assoc, List.cons_append, List.map_append, List.map_cons,
    List.pairwise_append, List.pairwise_cons] at this
  refine this.2.1.1 c.id ?_
  rcases List.mem_append.1 hc with hc | hc
  · exact List.mem_append_left _ (List.mem_map_of_mem hc)
  · exact List.mem_append_right _ (List.mem_map_of_mem hc)

theorem lt_next (h : d.Ok) (he : e ∈ d.copies) : 0 < e.id ∧ e.id < d.nextOrderId := by
  obtain ⟨q, hq, -⟩ := h.known e he
  exact (h.record _ _ hq).2

/-- A copy and the record with its id are the same order. -/
theorem same (h : d.Ok) (he : e ∈ d.copies) {q : Order α} (hq : d.record e.id = some q) :
    Order.Same q e := by
  obtain ⟨q', hq', hs⟩ := h.known e he
  rw [hq] at hq'; cases hq'; exact hs

/-! ### Journal entries and the record of the order at hand -/

theorem log (h : d.Ok) (n : Note α) : (d.log n).Ok :=
  ⟨h.numbered, h.ids, h.keptIds, h.pos, h.record, h.known, h.done, h.head, h.dead, h.gate, h.settled, h.unfilled⟩

/-- Writing a new version of a pending order. -/
theorem write (h : d.Ok) (he : e ∈ d.pending) (hs : Order.Same e o) (ht : o.transmit = e.transmit)
    (hcomp : o.status ≠ .Completed)
    (hdead : d.phase ≠ .idle → d.phase ≠ .picked → o.isAlive = false) : (d.write o).Ok := by
  have hid : o.id = e.id := hs.id
  have hpend : ∀ c ∈ (d.write o).pending, c = o ∨ (c ∈ d.pending ∧ c.id ≠ o.id) := by
    intro c hc
    rw [pending_write] at hc
    rcases Keyed.mem_update_cases hc with ⟨x, -, -, rfl⟩ | hc
    exacts [.inl rfl, .inr hc]
  have hkey : ∀ l : List (Order α), (Keyed.update Order.id o.id (fun _ => o) l).map Order.id = l.map Order.id :=
    fun l => Keyed.map_key_update fun _ _ _ => rfl
  have hhead : ∀ x s, (d.write o).rest = x :: s → ∃ y t, d.rest = y :: t ∧
      ((x = o ∧ y = e) ∨ (x = y ∧ x.id ≠ o.id)) := by
    intro x s hx
    rw [rest_write] at hx
    cases hrest : d.rest with
    | nil => rw [hrest] at hx; cases hx
    | cons y t =>
      rw [hrest, Keyed.update_cons] at hx
      obtain ⟨rfl, -⟩ := List.cons.inj hx
      refine ⟨y, t, rfl, ?_⟩
      by_cases hy : y.id = o.id
      · exact .inl ⟨by rw [if_pos hy], h.eq_of_id (head_mem_pending hrest) he (hy.trans hid)⟩
      · exact .inr ⟨by rw [if_neg hy], by rw [if_neg hy]; exact hy⟩
  obtain ⟨q, hq, hsq⟩ := h.known e (mem_copies.2 (.inl he))
  refine ⟨h.numbered, ?_, ?_, h.pos, ?_, ?_, ?_, ?_, ?_, ?_, ?_, ?_⟩
  · rw [pending_write, hkey]; exact h.ids
  · rw [kept_write, stale_write, hkey]; exact h.keptIds
  · intro i p hp
    rw [record_write] at hp
    split at hp
    · rename_i hi
      cases hp
      obtain ⟨-, hpos, hlt⟩ := h.record _ _ hq
      exact ⟨hi.symm, by rw [hi, hid]; exact ⟨hpos, hlt⟩⟩
    · exact h.record i p hp
  · intro c hc
    rw [record_write]
    rcases mem_copies.1 hc with hc | hc
    · rcases hpend c hc with rfl | ⟨hc, hne⟩
      · rw [if_pos rfl]; exact ⟨c, rfl, .refl c⟩
      · rw [if_neg hne]; exact h.known c (mem_copies.2 (.inl hc))
    · by_cases hi : c.id = o.id
      · rw [if_pos hi]
        have hcq : Order.Same q c := h.same (mem_copies.2 (.inr hc)) (by rw [hi, hid]; exact hq)
        exact ⟨o, rfl, (hs.symm.trans hsq.symm).trans hcq⟩
      · rw [if_neg hi]; exact h.known c (mem_copies.2 (.inr hc))
  · intro c hc p hp hcp
    rw [record_write] at hp
    rcases mem_copies.1 hc with hc | hc
    · rcases hpend c hc with rfl | ⟨hc, hne⟩
      · rw [if_pos rfl] at hp; cases hp
        exact absurd hcp hcomp
      · rw [if_neg hne] at hp; exact h.done c (mem_copies.2 (.inl hc)) p hp hcp
    · split at hp
      · cases hp
        exact absurd hcp hcomp
      · exact h.done c (mem_copies.2 (.inr hc)) p hp hcp
  · intro hph
    obtain ⟨y, t, hy⟩ := h.head hph
    exact ⟨_, _, by rw [rest_write, hy, Keyed.update_cons]⟩
  · intro hph hpk x s hx
    obtain ⟨y, t, hy, (⟨rfl, -⟩ | ⟨rfl, -⟩)⟩ := hhead x s hx
    exacts [hdead hph hpk, h.dead hph hpk _ _ hy]
  · intro hph x s hx
    obtain ⟨y, t, hy, (⟨rfl, rfl⟩ | ⟨rfl, -⟩)⟩ := hhead x s hx
    · rw [ht, hs.parentId]; exact h.gate hph _ _ hy
    · exact h.gate hph _ _ hy
  · intro hph x s hx
    obtain ⟨y, t, hy, (⟨rfl, -⟩ | ⟨rfl, hne⟩)⟩ := hhead x s hx
    · exact ⟨x, by rw [record_write, if_pos rfl], rfl⟩
    · rw [record_write, if_neg hne]; exact h.settled hph _ _ hy
  · intro hph x s hx
    obtain ⟨y, t, hy, (⟨rfl, -⟩ | ⟨rfl, hne⟩)⟩ := hhead x s hx
    · refine ⟨fun _ => hcomp, fun q hq => ?_⟩
      rw [record_write, if_pos rfl] at hq; cases hq
      exact hcomp
    · refine ⟨(h.unfilled hph _ _ hy).1, fun q hq => ?_⟩
      rw [record_write, if_neg hne] at hq
      exact (h.unfilled hph _ _ hy).2 q hq

/-- A new order is known to nobody yet. -/
theorem new_ne (h : d.Ok) (hnew : New o d.nextOrderId) (hc : c ∈ d.copies) : c.id ≠ o.id := by
  rw [hnew.id]; exact (h.lt_next hc).2.ne

theorem record_new (h : d.Ok) (hnew : New o d.nextOrderId) {i : Nat} {q : Order α}
    (hq : (if i = o.id then some o else d.record i) = some q) :
    q.id = i ∧ 0 < i ∧ i < d.nextOrderId + 1 := by
  split at hq
  · rename_i hi
    cases hq
    have := h.pos
    rw [hi, hnew.id]; exact ⟨rfl, this, Nat.lt_succ_self _⟩
  · obtain ⟨h1, h2, h3⟩ := h.record i q hq
    exact ⟨h1, h2, Nat.lt_succ_of_lt h3⟩

/-- Adding the order at the end of the pending ones, on either side of the end of the loop. -/
theorem push (h : d.Ok) (hnew : New o d.nextOrderId) {rest late : List (Order α)} {n : Note α}
    (hseg : rest ++ late = d.rest ++ d.late ++ [o])
    (hhead : ∀ e r, rest = e :: r → d.phase ≠ .idle → ∃ t, d.rest = e :: t)
    (hne : d.phase ≠ .idle → rest ≠ []) :
    ({ d with ids := d.ids ++ [o.id], record := fun id => if id = o.id then some o else d.record id,
              rest, late, nextOrderId := d.nextOrderId + 1 }.log n).Ok := by
  have hpend : d.stale ++ rest ++ late = d.pending ++ [o] := by
    rw [List.append_assoc, hseg]; simp [pending]
  have hmem : ∀ c, (c ∈ d.stale ++ rest ++ late ∨ c ∈ d.kept) → c ∈ d.copies ∨ c = o := by
    intro c hc
    rw [hpend] at hc
    rw [mem_copies]
    rcases hc with hc | hc
    · rcases List.mem_append.1 hc with hc | hc
      · exact .inl (.inl hc)
      · exact .inr (List.mem_singleton.1 hc)
    · exact .inl (.inr hc)
  refine ⟨?_, ?_, h.keptIds, Nat.succ_pos _, fun i q hq => h.record_new hnew hq, ?_, ?_, ?_, ?_, ?_, ?_, ?_⟩
  · show d.ids ++ [o.id] = List.range' 1 (d.nextOrderId + 1 - 1)
    obtain ⟨m, hm⟩ := Nat.exists_eq_add_of_lt h.pos
    rw [h.numbered, hnew.id, hm]
    simp [List.range'_concat, Nat.add_comm]
  · show ((d.stale ++ rest ++ late).map Order.id).Pairwise (· < ·)
    rw [hpend, List.map_append, List.pairwise_append]
    refine ⟨h.ids, List.pairwise_singleton .., fun a ha b hb => ?_⟩
    obtain ⟨c, hc, rfl⟩ := List.mem_map.1 ha
    obtain rfl : b = o.id := by simpa using hb
    rw [hnew.id]; exact (h.lt_next (mem_copies.2 (.inl hc))).2
  · intro c hc
    show ∃ q, (if c.id = o.id then some o else d.record c.id) = some q ∧ Order.Same q c
    rcases hmem c (mem_copies.1 hc) with hc | rfl
    · rw [if_neg (h.new_ne hnew hc)]; exact h.known c hc
    · rw [if_pos rfl]; exact ⟨c, rfl, .refl c⟩
  · intro c hc q hq hs
    replace hq : (if c.id = o.id then some o else d.record c.id) = some q := hq
    rcases hmem c (mem_copies.1 hc) with hc | rfl
    · rw [if_neg (h.new_ne hnew hc)] at hq; exact h.done c hc q hq hs
    · rw [if_pos rfl] at hq; cases hq
      rw [hnew.status] at hs; cases hs
  · intro hph
    obtain ⟨x, t, hx⟩ := List.exists_cons_of_ne_nil (hne hph)
    exact ⟨x, t, hx⟩
  · intro hph hpk x t hx
    obtain ⟨t', ht'⟩ := hhead x t hx hph
    exact h.dead hph hpk x t' ht'
  · intro hph x t hx
    replace hph : d.phase = .picked := hph
    obtain ⟨t', ht'⟩ := hhead x t hx (by rw [hph]; decide)
    exact h.gate hph x t' ht'
  · intro hph x t hx
    replace hph : d.phase = .resolved ∨ d.phase = .dropped := hph
    obtain ⟨t', ht'⟩ := hhead x t hx (by rcases hph with hph | hph <;> rw [hph] <;> decide)
    show ∃ q, (if x.id = o.id then some o else d.record x.id) = some q ∧ _
    rw [if_neg (h.new_ne hnew (mem_copies.2 (.inl (head_mem_pending ht'))))]
    exact h.settled hph x t' ht'
  · intro hph x t hx
    replace hph : d.phase = .picked ∨ d.phase = .booked := hph
    obtain ⟨t', ht'⟩ := hhead x t hx (by rcases hph with hph | hph <;> rw [hph] <;> decide)
    refine ⟨(h.unfilled hph x t' ht').1, fun q hq => (h.unfilled hph x t' ht').2 q ?_⟩
    replace hq : (if x.id = o.id then some o else d.record x.id) = some q := hq
    rwa [if_neg (h.new_ne hnew (mem_copies.2 (.inl (head_mem_pending ht'))))] at hq

theorem submit (h : d.Ok) (hnew : New o d.nextOrderId) (hlate : d.late = []) (seen : Nat) :
    (d.submit o seen).Ok := by
  refine h.push hnew (by rw [hlate]; simp) (fun e r he hph => ?_) (fun _ => by simp)
  obtain ⟨x, t, hx⟩ := h.head hph
  rw [hx] at he
  cases he
  exact ⟨t, hx⟩

theorem submitLate (h : d.Ok) (hnew : New o d.nextOrderId) (turn seen : Nat) :
    (d.submitLate o turn seen).Ok := by
  refine h.push hnew (by simp) (fun e r he _ => ⟨r, he⟩) (fun hph => ?_)
  obtain ⟨x, t, hx⟩ := h.head hph
  rw [hx]; simp

/-- A change of every pending order that leaves alone what the invariant reads. -/
theorem map (h : d.Ok) {f : Order α → Order α} {g : Nat → Option (Order α)}
    (hf : ∀ e, Order.Same e (f e) ∧ (f e).status = e.status ∧ (e.transmit = true → (f e).transmit = true))
    (hg : ∀ i, (∀ q, g i = some q → ∃ p, d.record i = some p ∧ Order.Same p q ∧ q.status = p.status) ∧
      ∀ p, d.record i = some p → ∃ q, g i = some q ∧ Order.Same p q ∧ q.status = p.status) :
    Ok { d with record := g, stale := d.stale.map f, rest := d.rest.map f, late := d.late.map f } := by
  have hid : ∀ l : List (Order α), (l.map f).map Order.id = l.map Order.id := by
    intro l; rw [List.map_map]; exact List.map_congr_left fun e _ => (hf e).1.id
  have hmem : ∀ c, c ∈ Desk.copies { d with record := g, stale := d.stale.map f, rest := d.rest.map f, late := d.late.map f } →
      ∃ e ∈ d.copies, Order.Same e c ∧ c.status = e.status := by
    intro c hc
    rw [mem_copies, mem_pending] at hc
    simp only [List.mem_map] at hc
    rcases hc with (⟨e, he, rfl⟩ | ⟨e, he, rfl⟩ | ⟨e, he, rfl⟩) | hc
    · exact ⟨e, mem_copies.2 (.inl (mem_pending.2 (.inl he))), (hf e).1, (hf e).2.1⟩
    · exact ⟨e, mem_copies.2 (.inl (mem_pending.2 (.inr (.inl he)))), (hf e).1, (hf e).2.1⟩
    · exact ⟨e, mem_copies.2 (.inl (mem_pending.2 (.inr (.inr he)))), (hf e).1, (hf e).2.1⟩
    · exact ⟨c, mem_copies.2 (.inr hc), .refl c, rfl⟩
  have hhead : ∀ x t, d.rest.map f = x :: t → ∃ e s, d.rest = e :: s ∧ x = f e := by
    intro x t hx
    obtain ⟨e, s, he, rfl, -⟩ := List.map_eq_cons_iff.1 hx
    exact ⟨e, s, he, rfl⟩
  refine ⟨h.numbered, ?_, ?_, h.pos, ?_, ?_, ?_, ?_, ?_, ?_, ?_, ?_⟩
  · have : Desk.pending { d with record := g, stale := d.stale.map f, rest := d.rest.map f, late := d.late.map f } =
        d.pending.map f := by simp [pending]
    rw [this, hid]; exact h.ids
  · show (d.kept.map Order.id).Sublist ((d.stale.map f).map Order.id)
    rw [hid]; exact h.keptIds
  · intro i q hq
    obtain ⟨p, hp, hs, -⟩ := (hg i).1 q hq
    rw [hs.id]; exact h.record i p hp
  · intro c hc
    obtain ⟨e, he, hs, -⟩ := hmem c hc
    obtain ⟨p, hp, hps⟩ := h.known e he
    obtain ⟨q, hq, hpq, -⟩ := (hg e.id).2 p hp
    exact ⟨q, hs.id ▸ hq, (hpq.symm.trans hps).trans hs⟩
  · intro c hc q hq hcq
    obtain ⟨e, he, hs, hst⟩ := hmem c hc
    obtain ⟨p, hp, -, hpst⟩ := (hg c.id).1 q hq
    rw [hs.id] at hp
    have := h.done e he p hp (hpst ▸ hcq)
    rwa [Order.isAlive, hst]
  · intro hph
    obtain ⟨x, t, hx⟩ := h.head hph
    exact ⟨f x, t.map f, by show d.rest.map f = _; rw [hx]; rfl⟩
  · intro hph hpk x t hx
    obtain ⟨e, s, he, rfl⟩ := hhead x t hx
    rw [Order.isAlive, (hf e).2.1]; exact h.dead hph hpk e s he
  · intro hph x t hx
    obtain ⟨e, s, he, rfl⟩ := hhead x t hx
    rw [(hf e).1.parentId]
    exact (h.gate hph e s he).imp_left (hf e).2.2
  · intro hph x t hx
    obtain ⟨e, s, he, rfl⟩ := hhead x t hx
    obtain ⟨p, hp, hst⟩ := h.settled hph e s he
    obtain ⟨q, hq, -, hqst⟩ := (hg e.id).2 p hp
    exact ⟨q, (hf e).1.id ▸ hq, by rw [hqst, hst, (hf e).2.1]⟩
  · intro hph x t hx
    obtain ⟨e, s, he, rfl⟩ := hhead x t hx
    refine ⟨fun hp => (hf e).2.1 ▸ (h.unfilled hph e s he).1 hp, fun q hq => ?_⟩
    obtain ⟨p, hp, -, hst⟩ := (hg _).1 q hq
    rw [(hf e).1.id] at hp
    rw [hst]; exact (h.unfilled hph e s he).2 p hp

theorem same_childIds (e : Order α) (ids : List Nat) : Order.Same e { e with childIds := ids } :=
  ⟨rfl, rfl, rfl, rfl, rfl, rfl, rfl, rfl, rfl, rfl, rfl, rfl⟩

theorem same_transmit (e : Order α) (b : Bool) : Order.Same e { e with transmit := b } :=
  ⟨rfl, rfl, rfl, rfl, rfl, rfl, rfl, rfl, rfl, rfl, rfl, rfl⟩

theorem link (h : d.Ok) (id : Nat) (ids : List Nat) : (d.link id ids).Ok := by
  refine h.map (fun e => ?_) (fun i => ?_)
  · by_cases he : e.id = id
    · rw [if_pos he]; exact ⟨same_childIds e ids, rfl, fun ht => ht⟩
    · rw [if_neg he]; exact ⟨.refl e, rfl, fun ht => ht⟩
  · by_cases hi : i = id
    · simp only [if_pos hi]
      subst hi
      cases hq : d.record i with
      | none => simp
      | some p =>
        simp only [Option.map_some, Option.some.injEq]
        exact ⟨fun q hq => ⟨p, rfl, hq ▸ same_childIds p ids, hq ▸ rfl⟩,
          fun p' hp' => ⟨_, rfl, hp' ▸ same_childIds p ids, hp' ▸ rfl⟩⟩
    · simp only [if_neg hi]
      exact ⟨fun q hq => ⟨q, hq, .refl q, rfl⟩, fun p hp => ⟨p, hp, .refl p, rfl⟩⟩

theorem activate (h : d.Ok) (pid : Nat) : (d.activate pid).Ok := by
  refine h.map (fun e => ?_) (fun i => ⟨fun q hq => ⟨q, hq, .refl q, rfl⟩, fun p hp => ⟨p, hp, .refl p, rfl⟩⟩)
  unfold release
  split
  · exact ⟨same_transmit e true, rfl, fun _ => rfl⟩
  · exact ⟨.refl e, rfl, fun ht => ht⟩

/-- A new version of the order at hand, in another phase and with its record as it was. -/
theorem setHead (h : d.Ok) (hr : d.rest = e :: r) (hs : Order.Same e o) (ph : Phase)
    (hdead : e.isAlive = false → o.isAlive = false)
    (hph : ph = .picked ∧ (o.transmit = true ∨ o.parentId = 0) ∨ ph = .booked ∧ o.isAlive = false)
    (hun : (ph = .picked → o.status ≠ .Completed) ∧ ∀ q, d.record e.id = some q → q.status ≠ .Completed) :
    Ok { d with rest := o :: r, phase := ph } := by
  have hmem : ∀ c, c ∈ Desk.copies { d with rest := o :: r, phase := ph } → c = o ∨ c ∈ d.copies := by
    intro c hc
    simp only [copies, List.mem_append, List.mem_cons] at hc
    simp only [copies, List.mem_append, hr, List.mem_cons]
    tauto
  have he : e ∈ d.copies := mem_copies.2 (.inl (head_mem_pending hr))
  refine ⟨h.numbered, ?_, h.keptIds, h.pos, h.record, ?_, ?_, fun _ => ⟨o, r, rfl⟩, ?_, ?_, ?_, ?_⟩
  · have := h.ids
    rw [pending, hr] at this
    simpa [pending, hs.id] using this
  · intro c hc
    rcases hmem c hc with rfl | hc
    · obtain ⟨q, hq, hqs⟩ := h.known e he
      exact ⟨q, by rw [hs.id]; exact hq, hqs.trans hs⟩
    · exact h.known c hc
  · intro c hc q hq hst
    rcases hmem c hc with rfl | hc
    · rw [hs.id] at hq; exact hdead (h.done e he q hq hst)
    · exact h.done c hc q hq hst
  · rintro h1 h2 x t hx
    cases hx
    rcases hph with ⟨rfl, -⟩ | ⟨-, hd⟩
    exacts [absurd rfl h2, hd]
  · rintro h1 x t hx
    cases hx
    rcases hph with ⟨-, hg⟩ | ⟨rfl, -⟩
    exacts [hg, by cases h1]
  · rintro h1
    rcases hph with ⟨rfl, -⟩ | ⟨rfl, -⟩ <;> rcases h1 with h1 | h1 <;> cases h1
  · rintro - x t hx
    cases hx
    exact ⟨hun.1, fun q hq => hun.2 q (hs.id ▸ hq)⟩

/-- The phase in which an order at hand that is no longer alive is left. -/
theorem setPhase (h : d.Ok) {ph : Phase} (hph : ph = .resolved ∨ ph = .dropped) (hr : d.rest = e :: r)
    (hdead : e.isAlive = false) (hset : ∃ q, d.record e.id = some q ∧ q.status = e.status) :
    Ok { d with phase := ph } := by
  refine ⟨h.numbered, h.ids, h.keptIds, h.pos, h.record, h.known, h.done, fun _ => ⟨e, r, hr⟩, ?_, ?_, ?_, ?_⟩
  · intro _ _ x t hx
    replace hx : d.rest = x :: t := hx
    rw [hr] at hx; cases hx; exact hdead
  · rintro rfl; rcases hph with hp | hp <;> cases hp
  · intro _ x t hx
    replace hx : d.rest = x :: t := hx
    rw [hr] at hx; cases hx; exact hset
  · rintro hp
    replace hp : ph = .picked ∨ ph = .booked := hp
    rcases hph with rfl | rfl <;> rcases hp with hp | hp <;> cases hp

/-- No order at hand, and no copy that was not there before. -/
theorem idle (h : d.Ok) (stale kept rest late : List (Order α)) (groups : List Nat)
    (hids : ((stale ++ rest ++ late).map Order.id).Pairwise (· < ·))
    (hkept : (kept.map Order.id).Sublist (stale.map Order.id))
    (hmem : ∀ c ∈ stale ++ kept ++ rest ++ late, c ∈ d.copies) :
    Ok { d with stale, kept, rest, late, groups, phase := .idle } where
  numbered := h.numbered
  ids := hids
  keptIds := hkept
  pos := h.pos
  record := h.record
  known c hc := h.known c (hmem c hc)
  done c hc := h.done c (hmem c hc)
  head hp := absurd rfl hp
  dead hp := absurd rfl hp
  gate hp := nomatch hp
  settled hp := by rcases hp with hp | hp <;> cases hp
  unfilled hp := by rcases hp with hp | hp <;> cases hp

theorem next (h : d.Ok) (hr : d.rest = e :: r) : (d.next e r).Ok := by
  refine h.idle (d.stale ++ [e]) d.kept r d.late d.groups ?_ ?_ ?_
  · have := h.ids
    rw [pending, hr] at this
    simpa using this
  · rw [List.map_append]; exact h.keptIds.trans (List.sublist_append_left ..)
  · intro c hc
    simp only [copies, hr, List.mem_append, List.mem_cons, List.not_mem_nil, or_false] at hc ⊢
    tauto

theorem keep (h : d.Ok) (hr : d.rest = e :: r) : (d.keep e r).Ok := by
  refine h.idle (d.stale ++ [e]) (d.kept ++ [e]) r d.late d.groups ?_ ?_ ?_
  · have := h.ids
    rw [pending, hr] at this
    simpa using this
  · rw [List.map_append, List.map_append]; exact h.keptIds.append (List.Sublist.refl _)
  · intro c hc
    simp only [copies, hr, List.mem_append, List.mem_cons, List.not_mem_nil, or_false] at hc ⊢
    tauto

theorem finish (h : d.Ok) {kept : List (Order α)} (hsub : kept.Sublist d.kept) : (d.finish kept).Ok := by
  refine h.idle [] [] kept [] [] ?_ (List.Sublist.refl _) ?_
  · have hstale : (d.stale.map Order.id).Pairwise (· < ·) := by
      have := h.ids
      rw [pending, List.append_assoc, List.map_append, List.pairwise_append] at this
      exact this.1
    simpa using (hstale.sublist h.keptIds).sublist (hsub.map _)
  · intro c hc
    exact mem_copies.2 (.inr (hsub.subset (by simpa using hc)))

theorem settle (h : d.Ok) (hph : d.phase = .booked) (hr : d.rest = e :: r) :
    Ok { d.file e with phase := .resolved } := by
  have he : e ∈ d.pending := head_mem_pending hr
  have hdead := h.dead (by rw [hph]; decide) (by rw [hph]; decide) e r hr
  obtain ⟨q, hq, hqs⟩ := h.known e (mem_copies.2 (.inl he))
  have hne : ∀ c ∈ d.copies, c.id = e.id → c = e := by
    intro c hc hid
    rcases mem_copies.1 hc with hc | hc
    · exact h.eq_of_id hc he hid
    · exact absurd hid (h.ne_of_kept_of_rest hc (by rw [hr]; simp)).ne
  refine ⟨h.numbered, h.ids, h.keptIds, h.pos, ?_, ?_, ?_, fun _ => ⟨e, r, hr⟩, ?_, ?_, ?_, ?_⟩
  · intro i p hp
    replace hp : (if i = e.id then some e else d.record i) = some p := hp
    split at hp
    · rename_i hi
      cases hp
      have := (h.record _ _ hq).2
      exact ⟨hi.symm, by rw [hi]; exact this⟩
    · exact h.record i p hp
  · intro c hc
    show ∃ p, (if c.id = e.id then some e else d.record c.id) = some p ∧ _
    by_cases hi : c.id = e.id
    · rw [if_pos hi, hne c hc hi]; exact ⟨e, rfl, .refl e⟩
    · rw [if_neg hi]; exact h.known c hc
  · intro c hc p hp hst
    replace hp : (if c.id = e.id then some e else d.record c.id) = some p := hp
    by_cases hi : c.id = e.id
    · rw [hne c hc hi]; exact hdead
    · rw [if_neg hi] at hp; exact h.done c hc p hp hst
  · intro _ _ x t hx
    replace hx : d.rest = x :: t := hx
    rw [hr] at hx; cases hx; exact hdead
  · intro hp; cases hp
  · intro _ x t hx
    replace hx : d.rest = x :: t := hx
    rw [hr] at hx; cases hx
    exact ⟨e, if_pos rfl, rfl⟩
  · intro hp; rcases hp with hp | hp <;> cases hp

theorem writeKept (h : d.Ok) (hph : d.phase = .idle) (he : e ∈ d.kept) (hs : Order.Same e o)
    (hcomp : o.status ≠ .Completed) : (d.writeKept o).Ok := by
  have hid : o.id = e.id := hs.id
  obtain ⟨q, hq, hqs⟩ := h.known e (mem_copies.2 (.inr he))
  have hmem : ∀ c, c ∈ (d.writeKept o).copies → c = o ∨ c ∈ d.copies := by
    intro c hc
    rcases mem_copies.1 hc with hc | hc
    · exact .inr (mem_copies.2 (.inl hc))
    · rcases Keyed.mem_update_cases hc with ⟨x, -, -, rfl⟩ | ⟨hc, -⟩
      exacts [.inl rfl, .inr (mem_copies.2 (.inr hc))]
  refine ⟨h.numbered, h.ids, ?_, h.pos, ?_, ?_, ?_, fun hp => absurd hph hp, fun hp => absurd hph hp,
    fun hp => ?_, fun hp => ?_, fun hp => ?_⟩
  · show ((Keyed.update Order.id o.id (fun _ => o) d.kept).map Order.id).Sublist _
    rw [Keyed.map_key_update fun _ _ _ => rfl]; exact h.keptIds
  · intro i p hp
    replace hp : (if i = o.id then some o else d.record i) = some p := hp
    split at hp
    · rename_i hi
      cases hp
      have := (h.record _ _ hq).2
      exact ⟨hi.symm, by rw [hi, hid]; exact this⟩
    · exact h.record i p hp
  · intro c hc
    show ∃ p, (if c.id = o.id then some o else d.record c.id) = some p ∧ _
    rcases hmem c hc with rfl | hc
    · rw [if_pos rfl]; exact ⟨c, rfl, .refl c⟩
    · by_cases hi : c.id = o.id
      · rw [if_pos hi]
        have hcq : Order.Same q c := h.same hc (by rw [hi, hid]; exact hq)
        exact ⟨o, rfl, (hs.symm.trans hqs.symm).trans hcq⟩
      · rw [if_neg hi]; exact h.known c hc
  · intro c hc p hp hst
    replace hp : (if c.id = o.id then some o else d.record c.id) = some p := hp
    by_cases hi : c.id = o.id
    · rw [if_pos hi] at hp; cases hp; exact absurd hst hcomp
    · rw [if_neg hi] at hp
      rcases hmem c hc with rfl | hc
      · exact absurd rfl hi
      · exact h.done c hc p hp hst
  · replace hp : d.phase = .picked := hp
    rw [hph] at hp; cases hp
  · replace hp : d.phase = .resolved ∨ d.phase = .dropped := hp
    rw [hph] at hp; rcases hp with hp | hp <;> cases hp
  · replace hp : d.phase = .picked ∨ d.phase = .booked := hp
    rw [hph] at hp; rcases hp with hp | hp <;> cases hp

/-! ### Every move -/

theorem write_cancel (h : d.Ok) (he : e ∈ d.pending) (halive : e.isAlive = true) :
    (d.write e.cancel).Ok := by
  have hst : e.cancel.status = .Canceled := Order.status_setStatus halive _
  have hdead : e.cancel.isAlive = false := by simp [Order.isAlive, hst, OrderStatus.isAlive]
  refine h.write he (Order.same_setStatus e _) ?_ (by rw [hst]; decide) (fun _ _ => hdead)
  simp [Order.cancel, Order.setStatus, halive]

theorem call (h : d.Ok) (hc : Call lo d d') : d'.Ok := by
  cases hc with
  | submit seen hnew hlate => exact h.submit hnew hlate seen
  | submitLate turn seen hnew hturn => exact h.submitLate hnew turn seen
  | link id ids hid => exact h.link id ids
  | cancel pos turn he halive hpos => exact (h.log _).write_cancel he halive

theorem calls (h : d.Ok) (hc : Relation.ReflTransGen (Call lo) d d') : d'.Ok := by
  induction hc with
  | refl => exact h
  | tail _ hc ih => exact ih.call hc

theorem transmit_setStatus (e : Order α) (s : OrderStatus) : (e.setStatus s).transmit = e.transmit := by
  unfold Order.setStatus; split <;> rfl

/-- An order that is not completed does not become so by a transition. -/
theorem not_completed_setStatus (he : e.status ≠ .Completed) {s : OrderStatus} (hs : s ≠ .Completed) :
    (e.setStatus s).status ≠ .Completed := by
  unfold Order.setStatus
  split
  exacts [hs, he]

/-- Ending the order at hand. -/
theorem endHead (h : d.Ok) (hph : d.phase = .picked) (hr : d.rest = e :: r) {s : OrderStatus}
    (hs : s.isAlive = false) (hsc : s ≠ .Completed) {ph : Phase} (hp : ph = .resolved ∨ ph = .dropped) :
    Ok { d.write (e.setStatus s) with phase := ph } := by
  have he : e ∈ d.pending := head_mem_pending hr
  have hsame := Order.same_setStatus e s
  have hdead : (e.setStatus s).isAlive = false := by rw [Order.isAlive_setStatus, hs, Bool.and_false]
  have hun := (h.unfilled (.inl hph) e r hr).1 hph
  have hw : (d.write (e.setStatus s)).Ok :=
    h.write he hsame (transmit_setStatus e s) (not_completed_setStatus hun hsc) (fun _ _ => hdead)
  have hrest : (d.write (e.setStatus s)).rest =
      e.setStatus s :: Keyed.update Order.id (e.setStatus s).id (fun _ => e.setStatus s) r := by
    rw [rest_write, hr, Keyed.update_cons, if_pos hsame.id.symm]
  exact hw.setPhase hp hrest hdead ⟨_, by rw [record_write, if_pos rfl], rfl⟩

theorem status_ne_of_isAlive {s : OrderStatus} (he : e.isAlive = true) (hs : s.isAlive = false) :
    e.status ≠ s := by
  rintro rfl; rw [Order.isAlive, hs] at he; cases he

theorem not_completed_tweak (he : e.status ≠ .Completed) (ht : Tweak e o) : o.status ≠ .Completed := by
  cases ha : e.isAlive with
  | true => exact status_ne_of_isAlive (ht.isAlive.trans ha) rfl
  | false =>
    have : o.status = e.status := congrArg Prod.fst (ht.outcome ha)
    rw [this]; exact he

variable {feeds : List (DataFeed α)} {B : List Nat → Order α → Prop}

theorem move (h : d.Ok) (hm : Move lo feeds B d d') : d'.Ok := by
  cases hm with
  | call hc => exact h.call hc
  | skip hph hr hdead => exact h.next hr
  | keep hph hr => exact h.keep hr
  | pick hph hr halive hgate =>
    have hun : ∀ q, d.record _ = some q → q.status ≠ .Completed := fun q hq hc => by
      have := h.done _ (mem_copies.2 (.inl (head_mem_pending hr))) q hq hc
      rw [halive] at this; cases this
    rcases hgate with ⟨rfl, hg⟩ | ⟨rfl, -⟩
    · exact h.setHead hr (.refl _) .picked (fun hd => hd) (.inl ⟨rfl, hg⟩)
        ⟨fun _ => status_ne_of_isAlive halive rfl, hun⟩
    · exact h.setHead hr (same_transmit _ _) .picked (fun hd => hd) (.inl ⟨rfl, .inl rfl⟩)
        ⟨fun _ => @status_ne_of_isAlive _ _ .Completed halive rfl, hun⟩
  | touch hph hr ht =>
    exact h.write (head_mem_pending hr) ht.same ht.transmit
      (not_completed_tweak ((h.unfilled (.inl hph) _ _ hr).1 hph) ht) (fun _ hp => absurd hph hp)
  | drop s hph hr hs hwhy =>
    exact h.endHead hph hr (by rcases hs with rfl | rfl <;> rfl) (by rcases hs with rfl | rfl <;> decide) (.inr rfl)
  | refuse s hph hr hs =>
    exact h.endHead hph hr (by rcases hs with rfl | rfl <;> rfl) (by rcases hs with rfl | rfl <;> decide) (.inl rfl)
  | book x feed hph hr hfeed hx hcursor hdead hB =>
    obtain ⟨p, s, c, hx⟩ := hx
    have hxd : x.order.isAlive = false := by rw [hx]; exact Order.not_isAlive_execute ..
    exact (h.setHead hr (by rw [hx]; exact Order.same_execute ..) .booked (fun _ => hxd)
      (.inr ⟨rfl, hxd⟩) ⟨(fun hp => by cases hp), (h.unfilled (.inl hph) _ _ hr).2⟩).log _
  | settle hph hr => exact h.settle hph hr
  | group hph hr hs hg =>
    exact ⟨h.numbered, h.ids, h.keptIds, h.pos, h.record, h.known, h.done, h.head, h.dead, h.gate, h.settled, h.unfilled⟩
  | activate hph hr hs => exact h.activate _
  | child hph hr hs hc halive hparent => exact h.write_cancel hc halive
  | dismiss hr hwhy => exact h.next hr
  | oco hph hr he halive hgroup =>
    refine h.writeKept hph he (Order.same_setStatus _ _) ?_
    rw [Order.cancel, Order.status_setStatus halive]; decide
  | finish hph hr hsub hall hgroup => exact h.finish hsub

theorem moves (h : d.Ok) (hm : Relation.ReflTransGen (Move lo feeds B) d d') : d'.Ok := by
  induction hm with
  | refl => exact h
  | tail _ hm ih => exact ih.move hm

end Ok

/-! ### The journal only grows -/

theorem Call.journal_le (hc : Call lo d d') : d.journal <+: d'.journal := by
  cases hc with
  | submit | submitLate => exact List.prefix_append ..
  | link => exact List.prefix_rfl
  | cancel => exact (List.prefix_append ..).trans (List.prefix_append ..)

variable {feeds : List (DataFeed α)} {B : List Nat → Order α → Prop}

theorem Move.journal_le (hm : Move lo feeds B d d') : d.journal <+: d'.journal := by
  cases hm with
  | call hc => exact hc.journal_le
  | skip | keep | pick | group | activate | dismiss | finish => exact List.prefix_rfl
  | touch | drop | refuse | book | settle | child | oco => exact List.prefix_append ..

theorem Moves.journal_le (hm : Relation.ReflTransGen (Move lo feeds B) d d') : d.journal <+: d'.journal := by
  induction hm with
  | refl => exact List.prefix_rfl
  | tail _ hm ih => exact ih.trans hm.journal_le

/-- What every move preserves is preserved by a sequence of moves. -/
theorem Moves.induction {C : List (Note α) → Prop} {I : Desk α → Prop}
    (hm : Relation.ReflTransGen (Move lo feeds B) d d') (hok : d.Ok)
    (hC : ∀ j j', j <+: j' → C j' → C j)
    (hmove : ∀ d d', d.Ok → Move lo feeds B d d' → C d'.journal → I d → I d') (hI : I d)
    (hCl : C d'.journal) : I d' := by
  induction hm with
  | refl => exact hI
  | tail h1 h2 ih => exact hmove _ _ (hok.moves h1) h2 hCl (ih (hC _ _ h2.journal_le hCl))

end Desk
end StratForge
