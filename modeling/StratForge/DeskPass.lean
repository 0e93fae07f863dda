import StratForge.DeskSim

/-!
# A pass is a sequence of moves

`processOrders_path`, one lemma for each stage of a turn. What is known when an order is booked comes
from `Pass.executes`, which is decided by the pass as it is when the turn begins: the callbacks in
between change neither the books nor the prices of the order.
-/

namespace StratForge
open Relation

variable {α : Type}

/-- Two versions of an order that match alike. -/
structure Order.Track (e e' : Order α) : Prop extends Order.Same e e' where
  trailStopPrice : e'.trailStopPrice = e.trailStopPrice

namespace Order.Track
variable {e e' e'' : Order α}

theorem refl (e : Order α) : Track e e := ⟨.refl e, rfl⟩

theorem trans (h : Track e e') (h' : Track e' e'') : Track e e'' :=
  ⟨h.toSame.trans h'.toSame, h'.trailStopPrice.trans h.trailStopPrice⟩

theorem setStatus (e : Order α) (s : OrderStatus) : Track e (e.setStatus s) :=
  ⟨Order.same_setStatus e s, by unfold Order.setStatus; split <;> rfl⟩

end Order.Track

namespace Desk
variable {d d' : Desk α} {e : Order α} {r : List (Order α)} {lo : Nat}

/-- The order at hand, cancelled by a callback: the journal says so. -/
def CancelledAtHand (d : Desk α) (id : Nat) : Prop :=
  ∃ pos turn, pos < turn ∧ Note.cancelled id pos turn ∈ d.journal

theorem Call.journal_subset (hc : Call lo d d') : d.journal ⊆ d'.journal := by
  cases hc with
  | submit | submitLate | cancel =>
    intro n hn
    simp [Desk.submit, Desk.submitLate, log, hn]
  | link => exact fun _ hn => hn

theorem rest_edit (hr : d.rest = e :: r) (id : Nat) (f : Order α → Order α) :
    (d.edit id f).rest = (if e.id = id then f e else e) :: Keyed.update Order.id id f r := by
  show Keyed.update Order.id id f d.rest = _
  rw [hr, Keyed.update_cons]

/-- What a call does to the order at hand. -/
theorem Call.head (hc : Call lo d d') (hok : d.Ok) (hph : d.phase ≠ .idle) (hr : d.rest = e :: r) :
    d'.phase = d.phase ∧ ∃ e' r', d'.rest = e' :: r' ∧ Order.Track e e' ∧
      (e'.isAlive = false → e.isAlive = false ∨ d'.CancelledAtHand e.id) := by
  cases hc with
  | submit seen hnew hlate =>
    exact ⟨rfl, e, r ++ [_], by simp only [Desk.submit, log, hr, List.cons_append]; rfl, .refl e, .inl⟩
  | submitLate turn seen hnew hturn => exact ⟨rfl, e, r, hr, .refl e, .inl⟩
  | link id ids hid =>
    refine ⟨rfl, _, _, rest_edit hr id _, ?_, ?_⟩
    · split
      exacts [⟨Ok.same_childIds e ids, rfl⟩, .refl e]
    · split <;> exact .inl
  | @cancel c pos turn hc halive hpos =>
    refine ⟨rfl, _, _, rest_edit hr c.cancel.id _, ?_, ?_⟩
    · split
      · rename_i hid
        rw [Order.id_cancel] at hid
        rw [hok.eq_of_id hc (head_mem_pending hr) hid.symm]
        exact .setStatus e _
      · exact .refl e
    · split
      · rename_i hid
        rw [Order.id_cancel] at hid
        have hce : c = e := hok.eq_of_id hc (head_mem_pending hr) hid.symm
        subst hce
        refine fun _ => .inr ⟨pos, turn, hpos (.inr ⟨hph, by rw [hr]; rfl⟩), ?_⟩
        simp [write, file, edit, log]
      · exact .inl

theorem Calls.head (hc : ReflTransGen (Call lo) d d') (hok : d.Ok) (hph : d.phase ≠ .idle)
    (hr : d.rest = e :: r) :
    d.journal ⊆ d'.journal ∧ d'.phase = d.phase ∧ ∃ e' r', d'.rest = e' :: r' ∧ Order.Track e e' ∧
      (e'.isAlive = false → e.isAlive = false ∨ d'.CancelledAtHand e.id) := by
  induction hc with
  | refl => exact ⟨fun _ hn => hn, rfl, e, r, hr, .refl e, .inl⟩
  | @tail d1 d2 h1 h2 ih =>
    obtain ⟨hj, hp, e1, r1, hr1, ht1, hd1⟩ := ih
    obtain ⟨hp2, e2, r2, hr2, ht2, hd2⟩ := h2.head (hok.calls h1) (by rw [hp]; exact hph) hr1
    have hj2 := h2.journal_subset
    refine ⟨fun _ hn => hj2 (hj hn), hp2.trans hp, e2, r2, hr2, ht1.trans ht2, fun hdead => ?_⟩
    rcases hd2 hdead with hdead | ⟨pos, turn, hlt, hmem⟩
    · rcases hd1 hdead with hdead | ⟨pos, turn, hlt, hmem⟩
      · exact .inl hdead
      · exact .inr ⟨pos, turn, hlt, hj2 hmem⟩
    · exact .inr ⟨pos, turn, hlt, by rwa [ht1.id] at hmem⟩

/-- What calls leave of a pending order: links go to ids from `lo` on. -/
structure Evolve (lo : Nat) (e e' : Order α) : Prop extends Order.Track e e' where
  status : e.isAlive = false → e'.status = e.status
  childIds : 0 < e.id → e.id < lo → e'.childIds = e.childIds

namespace Evolve
variable {e' e'' : Order α}

theorem refl (lo : Nat) (e : Order α) : Evolve lo e e := ⟨.refl e, fun _ => rfl, fun _ _ => rfl⟩

theorem isAlive (h : Evolve lo e e') (hd : e.isAlive = false) : e'.isAlive = false := by
  rw [Order.isAlive, h.status hd]; exact hd

theorem trans (h : Evolve lo e e') (h' : Evolve lo e' e'') : Evolve lo e e'' where
  toTrack := h.toTrack.trans h'.toTrack
  status hd := (h'.status (h.isAlive hd)).trans (h.status hd)
  childIds hp hl := (h'.childIds (by rw [h.id]; exact hp) (by rw [h.id]; exact hl)).trans (h.childIds hp hl)

theorem setStatus (lo : Nat) (e : Order α) (s : OrderStatus) : Evolve lo e (e.setStatus s) where
  toTrack := .setStatus e s
  status hd := by rw [Order.setStatus_of_dead hd]
  childIds _ _ := by unfold Order.setStatus; split <;> rfl

end Evolve

theorem Call.evolve (hc : Call lo d d') (hok : d.Ok) {j : Nat} (hj : d.pending[j]? = some e) :
    ∃ e', d'.pending[j]? = some e' ∧ Evolve lo e e' := by
  have hlt : j < d.pending.length := (List.getElem?_eq_some_iff.1 hj).1
  cases hc with
  | @submit o seen hnew hlate =>
    have heq : (d.submit o seen).pending = d.pending ++ [o] := by simp [pending, Desk.submit, log, hlate]
    exact ⟨e, by rw [heq, List.getElem?_append_left hlt]; exact hj, .refl lo e⟩
  | @submitLate o turn seen hnew hturn =>
    have heq : (d.submitLate o turn seen).pending = d.pending ++ [o] := by
      simp [pending, Desk.submitLate, log]
    exact ⟨e, by rw [heq, List.getElem?_append_left hlt]; exact hj, .refl lo e⟩
  | link id ids hid =>
    have heq : (d.link id ids).pending = _ := pending_edit d id ({ · with childIds := ids })
    refine ⟨_, by rw [heq, Keyed.getElem?_update hj], ?_⟩
    split
    · rename_i he
      refine ⟨⟨Ok.same_childIds e ids, rfl⟩, fun _ => rfl, fun hp hl => ?_⟩
      omega
    · exact .refl lo e
  | @cancel c pos turn hc halive hpos =>
    refine ⟨_, by rw [pending_write]; exact Keyed.getElem?_update hj, ?_⟩
    split
    · rename_i hid
      rw [Order.id_cancel] at hid
      have hce : e = c := hok.eq_of_id (List.mem_of_getElem? hj) hc hid
      subst hce
      exact .setStatus lo e _
    · exact .refl lo e

theorem Calls.evolve (hc : ReflTransGen (Call lo) d d') (hok : d.Ok) {j : Nat}
    (hj : d.pending[j]? = some e) : ∃ e', d'.pending[j]? = some e' ∧ Evolve lo e e' := by
  induction hc with
  | refl => exact ⟨e, hj, .refl lo e⟩
  | @tail d1 d2 h1 h2 ih =>
    obtain ⟨e1, he1, hev1⟩ := ih
    obtain ⟨e2, he2, hev2⟩ := h2.evolve (hok.calls h1) he1
    exact ⟨e2, he2, hev1.trans hev2⟩

/-- A new version of the order at hand touches no other order. -/
theorem Ok.edit_head {o : Order α} (h : d.Ok) (hr : d.rest = e :: r) :
    d.edit e.id (fun _ => o) = { d with rest := o :: r } := by
  have hne : ∀ l, (∀ x ∈ l, x.id ≠ e.id) → Keyed.update Order.id e.id (fun _ => o) l = l :=
    fun l hl => Keyed.update_of_forall_ne hl
  have hhead : e ∈ d.rest ++ d.late := by rw [hr]; simp
  unfold edit
  rw [hr, Keyed.update_cons, if_pos rfl,
    hne d.stale fun x hx => (h.ne_of_stale_of_rest hx hhead).ne,
    hne r fun x hx => (h.ne_of_head hr (List.mem_append_left _ hx)).ne',
    hne d.late fun x hx => (h.ne_of_head hr (List.mem_append_right _ hx)).ne']

end Desk

variable {W : Type}

/-! ### The stages of a turn -/

section
variable (lo : Nat) (feeds : List (DataFeed α)) (B : List Nat → Order α → Prop) (d₀ : Desk α) (n i : Nat)

/-- Turn `i` has brought the desk here from `d₀`. -/
structure Turn (kept : List (Order α)) (groups : List Nat) (ph : Phase) (b : BackBroker α W) : Prop where
  path : ReflTransGen (Desk.Move lo feeds B) d₀ (b.desk (.inPass i n kept groups ph))
  ok : (b.desk (.inPass i n kept groups ph)).Ok
  hi : i < n
  length : n ≤ b.pendingOrders.length
  turn : b.turn = i + 1
  next : lo ≤ b.nextOrderId

end

namespace Turn
variable {lo : Nat} {feeds : List (DataFeed α)} {B : List Nat → Order α → Prop} {d₀ : Desk α} {n i : Nat}
  {kept : List (Order α)} {groups : List Nat} {ph ph' : Phase} {b b' : BackBroker α W} {e o : Order α}
  {f : Order α → Order α} {h : Hooks α W}

theorem fits (t : Turn lo feeds B d₀ n i kept groups ph b) :
    (Place.inPass i n kept groups ph).Fits b := by
  have := t.hi; have := t.turn
  exact ⟨t.hi.le, t.length, by omega, by omega, fun _ => by omega⟩

theorem get (t : Turn lo feeds B d₀ n i kept groups ph b) : ∃ e, b.pendingOrders[i]? = some e :=
  ⟨_, List.getElem?_eq_getElem (lt_of_lt_of_le t.hi t.length)⟩

theorem rest (t : Turn lo feeds B d₀ n i kept groups ph b) (hget : b.pendingOrders[i]? = some e) :
    (b.desk (.inPass i n kept groups ph)).rest = e :: (b.pendingOrders.take n).drop (i + 1) := by
  have hlt : i < (b.pendingOrders.take n).length := by
    have := t.hi; have := t.length; simp; omega
  show (b.pendingOrders.take n).drop i = _
  rw [List.drop_eq_getElem_cons hlt]
  congr 1
  have : (b.pendingOrders.take n)[i]? = some e := by rw [List.getElem?_take, if_pos t.hi, hget]
  exact (List.getElem?_eq_some_iff.1 this).2

/-- One move, to another broker in the same turn. -/
theorem step (t : Turn lo feeds B d₀ n i kept groups ph b) {groups' : List Nat}
    (hm : Desk.Move lo feeds B (b.desk (.inPass i n kept groups ph)) (b'.desk (.inPass i n kept groups' ph')))
    (hlen : b'.pendingOrders.length = b.pendingOrders.length) (ht : b'.turn = b.turn)
    (hn : b'.nextOrderId = b.nextOrderId) : Turn lo feeds B d₀ n i kept groups' ph' b' :=
  ⟨t.path.tail hm, t.ok.move hm, t.hi, hlen ▸ t.length, ht ▸ t.turn, hn ▸ t.next⟩

theorem drift (t : Turn lo feeds B d₀ n i kept groups ph b) (hd : BackBroker.Drift b b') :
    Turn lo feeds B d₀ n i kept groups ph b' :=
  ⟨t.path.trans ((hd.calls _ lo t.fits t.ok t.next).lift id fun _ _ hc => .call hc), hd.ok t.fits t.ok,
    t.hi, t.length.trans hd.length_le, hd.turn.trans t.turn, t.next.trans hd.next_le⟩

/-- The order at hand is rewritten and its record with it. -/
theorem write (t : Turn lo feeds B d₀ n i kept groups ph b) (hget : b.pendingOrders[i]? = some e)
    (hf : (f e).id = e.id)
    (hm : Desk.Move lo feeds B (b.desk (.inPass i n kept groups ph))
      { (b.desk (.inPass i n kept groups ph)).write (f e) with phase := ph' }) :
    Turn lo feeds B d₀ n i kept groups ph' ((b.edit i f).sync i) := by
  refine t.step ?_ (by simp) (by rw [BackBroker.turn_sync]; rfl) (by rw [BackBroker.nextOrderId_sync]; rfl)
  have heq : ((b.edit i f).sync i).desk (.inPass i n kept groups ph') =
      { (b.desk (.inPass i n kept groups ph)).write (f e) with phase := ph' } := by
    rw [← BackBroker.desk_touch t.fits t.ok hget hf]; rfl
  rw [heq]; exact hm

theorem touch (t : Turn lo feeds B d₀ n i kept groups .picked b) (hget : b.pendingOrders[i]? = some e)
    (ht : Desk.Tweak e (f e)) : Turn lo feeds B d₀ n i kept groups .picked ((b.edit i f).sync i) :=
  t.write hget ht.same.id (.touch rfl (t.rest hget) ht)

theorem drop (t : Turn lo feeds B d₀ n i kept groups .picked b) (hget : b.pendingOrders[i]? = some e)
    {s : OrderStatus} (hs : s = .Rejected ∨ s = .Expired)
    (hwhy : feeds.length ≤ e.dataIndex ∨ e.validUntilBar ≠ none) :
    Turn lo feeds B d₀ n i kept groups .dropped ((b.edit i (·.setStatus s)).sync i) :=
  t.write hget (by simp) (.drop s rfl (t.rest hget) hs hwhy)

theorem refuse (t : Turn lo feeds B d₀ n i kept groups .picked b) (hget : b.pendingOrders[i]? = some e)
    {s : OrderStatus} (hs : s = .Rejected ∨ s = .Margin) :
    Turn lo feeds B d₀ n i kept groups .resolved ((b.edit i (·.setStatus s)).sync i) :=
  t.write hget (by simp) (.refuse s rfl (t.rest hget) hs)

end Turn

namespace Desk.Tweak
variable {e : Order α}

theorem setStatus {s : OrderStatus} (e : Order α) (hs : s.isAlive = true) : Tweak e (e.setStatus s) where
  same := Order.same_setStatus e s
  transmit := Ok.transmit_setStatus e s
  childIds := by unfold Order.setStatus; split <;> rfl
  isAlive := by rw [Order.isAlive_setStatus, hs, Bool.and_true]
  outcome hd := by rw [Order.setStatus_of_dead hd]

theorem trail (e : Order α) (v : α) : Tweak e { e with trailStopPrice := v } :=
  ⟨⟨rfl, rfl, rfl, rfl, rfl, rfl, rfl, rfl, rfl, rfl, rfl, rfl⟩, rfl, rfl, rfl, fun _ => rfl⟩

end Desk.Tweak

section
variable (lo : Nat) (feeds : List (DataFeed α)) (B : List Nat → Order α → Prop) (d₀ : Desk α) (n i : Nat)

/-- The first `i` turns have brought the desk here from `d₀`. -/
structure Between (p : Pass α W) : Prop where
  path : ReflTransGen (Desk.Move lo feeds B) d₀
    (p.broker.desk (.inPass i n p.stillPending p.filledOcoGroups .idle))
  ok : (p.broker.desk (.inPass i n p.stillPending p.filledOcoGroups .idle)).Ok
  hi : i ≤ n
  length : n ≤ p.broker.pendingOrders.length
  turn : p.broker.turn = i
  next : lo ≤ p.broker.nextOrderId
  groups : i = 0 → p.filledOcoGroups = []

end

/-- The order at hand, as it has become since the turn began with `e₀`. -/
structure Hand (e₀ : Order α) (b : BackBroker α W) (i : Nat) (e : Order α) : Prop where
  get : b.pendingOrders[i]? = some e
  track : Order.Track e₀ e
  dead : e.isAlive = false → ∃ pos turn, pos < turn ∧ Note.cancelled e₀.id pos turn ∈ b.journal

namespace Turn
variable {lo : Nat} {feeds : List (DataFeed α)} {B : List Nat → Order α → Prop} {d₀ : Desk α} {n i : Nat}
  {kept : List (Order α)} {groups : List Nat} {ph ph' : Phase} {b b' : BackBroker α W} {e e₀ o : Order α}
  {f : Order α → Order α} {h : Hooks α W}

theorem hand_drift (t : Turn lo feeds B d₀ n i kept groups ph b) (hph : ph ≠ .idle)
    (he : Hand e₀ b i e) (hd : BackBroker.Drift b b') : ∃ e', Hand e₀ b' i e' := by
  obtain ⟨hj, -, e1, r1, hr1, ht1, hd1⟩ :=
    Desk.Calls.head (hd.calls _ lo t.fits t.ok t.next) t.ok hph (t.rest he.get)
  obtain ⟨e2, he2⟩ := (t.drift hd).get
  have hrest := (t.drift hd).rest he2
  rw [hr1] at hrest
  obtain ⟨rfl, -⟩ := List.cons.inj hrest
  refine ⟨e1, he2, he.track.trans ht1, fun hdead => ?_⟩
  rw [BackBroker.desk_journal, BackBroker.desk_journal] at hj
  rcases hd1 hdead with hdead | ⟨pos, turn, hlt, hmem⟩
  · obtain ⟨pos, turn, hlt, hmem⟩ := he.dead hdead
    exact ⟨pos, turn, hlt, hj hmem⟩
  · rw [BackBroker.desk_journal, he.track.id] at hmem
    exact ⟨pos, turn, hlt, hmem⟩

/-- What has become of a pending order after callbacks. -/
theorem evolve (t : Turn lo feeds B d₀ n i kept groups ph b) (hd : BackBroker.Drift b b') {j : Nat}
    (hj : b.pendingOrders[j]? = some e) :
    ∃ e', b'.pendingOrders[j]? = some e' ∧ Desk.Evolve b.nextOrderId e e' := by
  have hcalls := hd.calls (.inPass i n kept groups ph) b.nextOrderId t.fits t.ok le_rfl
  have := Desk.Calls.evolve hcalls t.ok (by rw [BackBroker.desk_pending t.fits]; exact hj)
  rwa [BackBroker.desk_pending (hd.fits t.fits)] at this

theorem hand_touch (he : Hand e₀ b i e) (ht : Desk.Tweak e (f e)) (htr : Order.Track e (f e)) :
    Hand e₀ ((b.edit i f).sync i) i (f e) := by
  have hget : (b.edit i f).pendingOrders[i]? = some (f e) := by simp [he.get]
  refine ⟨by rw [BackBroker.pendingOrders_sync]; exact hget, he.track.trans htr, fun hdead => ?_⟩
  obtain ⟨pos, turn, hlt, hmem⟩ := he.dead (ht.isAlive ▸ hdead)
  refine ⟨pos, turn, hlt, ?_⟩
  rw [BackBroker.sync, hget]
  exact List.mem_append_left _ hmem

theorem desk_next (hget : b.pendingOrders[i]? = some e)
    (kept' : List (Order α)) :
    b.desk (.inPass (i + 1) n kept' groups .idle) =
      { (b.desk (.inPass i n kept groups ph)).next e ((b.pendingOrders.take n).drop (i + 1)) with kept := kept' } := by
  have hstale : b.pendingOrders.take (i + 1) = b.pendingOrders.take i ++ [e] := by
    rw [List.take_add_one, hget]; rfl
  show Desk.mk _ _ (b.pendingOrders.take (i + 1)) _ _ _ _ _ _ _ = _
  rw [hstale]; rfl

theorem keep (t : Turn lo feeds B d₀ n i kept groups ph b) (hph : ph = .idle ∨ ph = .picked) :
    Between lo feeds B d₀ n (i + 1) (Pass.keep { broker := b, stillPending := kept, filledOcoGroups := groups } i) := by
  obtain ⟨e, he⟩ := t.get
  have hm : Desk.Move lo feeds B (b.desk (.inPass i n kept groups ph))
      (b.desk (.inPass (i + 1) n (kept ++ [e]) groups .idle)) := by
    rw [desk_next he]; exact .keep hph (t.rest he)
  unfold Pass.keep
  rw [he]
  exact ⟨t.path.tail hm, t.ok.move hm, t.hi, t.length, t.turn, t.next, fun h0 => by cases h0⟩

/-- The end of a turn whose order leaves the pass. -/
theorem leave (t : Turn lo feeds B d₀ n i kept groups ph b)
    (hm : ∀ e, b.pendingOrders[i]? = some e → ∀ r, (b.desk (.inPass i n kept groups ph)).rest = e :: r →
      Desk.Move lo feeds B (b.desk (.inPass i n kept groups ph))
        ((b.desk (.inPass i n kept groups ph)).next e r)) :
    Between lo feeds B d₀ n (i + 1) { broker := b, stillPending := kept, filledOcoGroups := groups } := by
  obtain ⟨e, he⟩ := t.get
  have hm' : Desk.Move lo feeds B (b.desk (.inPass i n kept groups ph))
      (b.desk (.inPass (i + 1) n kept groups .idle)) := by
    rw [desk_next he]; exact hm e he _ (t.rest he)
  exact ⟨t.path.tail hm', t.ok.move hm', t.hi, t.length, t.turn, t.next, fun h0 => by cases h0⟩

theorem addGroup (t : Turn lo feeds B d₀ n i kept groups .resolved b) (hget : b.pendingOrders[i]? = some e)
    (hs : e.status = .Completed) (hg : e.ocoGroupId ≠ 0) :
    Turn lo feeds B d₀ n i kept (groups ++ [e.ocoGroupId]) .resolved b :=
  t.step (.group rfl (t.rest hget) hs hg) rfl rfl rfl

theorem activate (t : Turn lo feeds B d₀ n i kept groups .resolved b) (hget : b.pendingOrders[i]? = some e)
    (hs : e.status = .Completed) :
    Turn lo feeds B d₀ n i kept groups .resolved (b.activateBracketChildren e.id) := by
  refine t.step ?_ (by simp [BackBroker.activateBracketChildren]) rfl rfl
  have heq : (b.activateBracketChildren e.id).desk (.inPass i n kept groups .resolved) =
      (b.desk (.inPass i n kept groups .resolved)).activate e.id := by
    simp only [BackBroker.desk, BackBroker.activateBracketChildren, Desk.activate, ← List.map_take,
      ← List.map_drop]
    rfl
  rw [heq]
  exact .activate rfl (t.rest hget) hs

/-- The legs up to position `k` are dead, and the order at hand has not changed in what its end depends on. -/
structure Legs (b : BackBroker α W) (i k : Nat) (e : Order α) : Prop where
  hand : ∃ e', b.pendingOrders[i]? = some e' ∧ e'.id = e.id ∧ e'.status = e.status ∧
    e'.ocoGroupId = e.ocoGroupId ∧ e'.parentId = e.parentId ∧ e'.childIds = e.childIds
  dead : ∀ j < k, ∀ c, b.pendingOrders[j]? = some c → c.parentId = e.id → c.isAlive = false

theorem Legs.drift {k : Nat} (hl : Legs b i k e) (t : Turn lo feeds B d₀ n i kept groups ph b)
    (hdead : e.isAlive = false) (hlt : 0 < e.id ∧ e.id < b.nextOrderId) (hd : BackBroker.Drift b b')
    (hk : k ≤ b.pendingOrders.length) : Legs b' i k e := by
  obtain ⟨e1, he1, hid, hst, hoco, hpar, hch⟩ := hl.hand
  refine ⟨?_, fun j hj c hc hp => ?_⟩
  · obtain ⟨e2, he2, hev⟩ := t.evolve hd he1
    have hd1 : e1.isAlive = false := by rw [Order.isAlive, hst]; exact hdead
    exact ⟨e2, he2, hev.id.trans hid, (hev.status hd1).trans hst, hev.ocoGroupId.trans hoco,
      hev.parentId.trans hpar, (hev.childIds (hid ▸ hlt.1) (hid ▸ hlt.2)).trans hch⟩
  · have hjl : j < b.pendingOrders.length := lt_of_lt_of_le hj hk
    obtain ⟨c2, hc2, hev⟩ := t.evolve hd (List.getElem?_eq_getElem hjl)
    rw [hc] at hc2; cases hc2
    exact hev.isAlive (hl.dead j hj _ (List.getElem?_eq_getElem hjl) (hev.parentId ▸ hp))

end Turn

variable [Arith α]

namespace BackBroker
variable {h : Hooks α W} {b : BackBroker α W}

theorem openTrade_drift (b : BackBroker α W) (k : Nat) (s p c : α) (bar : Nat) (dt : DateTime) (cand : Nat) :
    Drift b (b.openTrade k s p c bar dt cand) :=
  .of_desk_eq rfl fun pl => by cases pl <;> rfl

theorem retireTrade_drift (hh : Tame h) (b : BackBroker α W) (j : Nat) (t : Trade α) (orig : α) :
    Drift b (b.retireTrade h j t orig) := by
  let b1 : BackBroker α W :=
    { b with openTrades := b.openTrades.set j (t, orig), closedTrades := b.closedTrades ++ [(t, orig)] }
  have h1 : Drift b b1 := .of_desk_eq rfl fun pl => by cases pl <;> rfl
  exact (h1.trans (hh.trade t orig b1).toDrift).trans (.of_desk_eq rfl fun pl => by cases pl <;> rfl)

theorem updateTrades_drift (hh : Tame h) (b : BackBroker α W) (k : Nat) (old s p c : α) (bar : Nat)
    (dt : DateTime) (cand : Nat) : Drift b (b.updateTrades h k old s p c bar dt cand) := by
  unfold updateTrades
  dsimp only
  split_ifs
  · exact openTrade_drift ..
  · exact .of_desk_eq rfl fun pl => by cases pl <;> rfl
  · split
    · exact .refl b
    · split_ifs
      · exact (retireTrade_drift hh ..).trans (openTrade_drift ..)
      · exact retireTrade_drift hh ..
      · exact .of_desk_eq rfl fun pl => by cases pl <;> rfl

end BackBroker

namespace BrokerSettings
variable {b : BrokerSettings α} {e e' : Order α}

theorem matchOrder_track (b : BrokerSettings α) (ht : Order.Track e e') (bar : Row α) :
    b.matchOrder e' bar = b.matchOrder e bar := by
  have hraw : e'.rawMatch bar = e.rawMatch bar := by
    unfold Order.rawMatch
    rw [ht.type, ht.side, ht.price, ht.stopPrice, ht.trailStopPrice]
  unfold matchOrder
  rw [hraw, ht.type, ht.side]

theorem fillCommission_track (b : BrokerSettings α) (ht : Order.Track e e') (price : α) :
    b.fillCommission e' price = b.fillCommission e price := by
  unfold fillCommission
  rw [ht.dataIndex, ht.size]

end BrokerSettings

namespace BackBroker
variable {h : Hooks α W} {b b' : BackBroker α W} {e e' : Order α}

/-- The margin check reads the settings, the cash and what is fixed about the order. -/
theorem affords_track (hs : b'.toBrokerSettings = b.toBrokerSettings) (hc : b'.cash = b.cash)
    (ht : Order.Track e e') (price : α) (dt : DateTime) : b'.affords e' price dt = b.affords e price dt := by
  have hsigned : e'.signedSize = e.signedSize := by unfold Order.signedSize; rw [ht.side, ht.size]
  have hcom : b'.fillCommission e' price = b.fillCommission e price := by
    rw [hs, BrokerSettings.fillCommission_track _ ht]
  unfold affords
  rw [hcom, ht.side, ht.dataIndex, ht.size, hsigned, hs, hc]

end BackBroker

/-- Whether an order is executed at its turn, decided when the turn begins. -/
def Pass.executes (feeds : List (DataFeed α)) (p : Pass α W) (o : Order α) : Bool :=
  o.isAlive && !Pass.held p.broker o && !Pass.expired p.broker o &&
    match feeds[o.dataIndex]? with
    | none => false
    | some feed =>
      match feed.current? with
      | none => false
      | some bar =>
        match p.broker.matchOrder o bar with
        | .fill price => p.broker.affords o price bar.datetime
        | _ => false

namespace Turn
variable {lo : Nat} {feeds : List (DataFeed α)} {B : List Nat → Order α → Prop} {d₀ : Desk α} {n i : Nat}
  {kept : List (Order α)} {groups : List Nat} {ph ph' : Phase} {b b' : BackBroker α W} {e e₀ o : Order α}
  {f : Order α → Order α} {h : Hooks α W}

/-- A step of the life cycle and its notification. -/
theorem advance (t : Turn lo feeds B d₀ n i kept groups .picked b) (hh : BackBroker.Tame h)
    (he : Hand e₀ b i e) (s : OrderStatus) (hs : s.isAlive = true) :
    Turn lo feeds B d₀ n i kept groups .picked (BackBroker.notify h ((b.edit i (·.setStatus s)).sync i) i) ∧
      BackBroker.Quiet b (BackBroker.notify h ((b.edit i (·.setStatus s)).sync i) i) ∧
      ∃ e', Hand e₀ (BackBroker.notify h ((b.edit i (·.setStatus s)).sync i) i) i e' := by
  have ht : Turn lo feeds B d₀ n i kept groups .picked ((b.edit i (·.setStatus s)).sync i) :=
    t.touch he.get (Desk.Tweak.setStatus e hs)
  have htouch : Hand e₀ ((b.edit i (·.setStatus s)).sync i) i (e.setStatus s) :=
    hand_touch he (Desk.Tweak.setStatus e hs) (.setStatus e s)
  have hr := hh.notify ((b.edit i (·.setStatus s)).sync i) i
  exact ⟨ht.drift hr.toDrift, ((BackBroker.Quiet.edit b i _).trans (.sync _ i)).trans hr.quiet,
    ht.hand_drift (by decide) htouch hr.toDrift⟩

theorem submitAccept (t : Turn lo feeds B d₀ n i kept groups .picked b) (hh : BackBroker.Tame h)
    (he : Hand e₀ b i e) :
    Turn lo feeds B d₀ n i kept groups .picked (Pass.submitAccept h b i e) ∧
      BackBroker.Quiet b (Pass.submitAccept h b i e) ∧ ∃ e', Hand e₀ (Pass.submitAccept h b i e) i e' := by
  unfold Pass.submitAccept
  split_ifs
  · obtain ⟨t1, q1, e1, he1⟩ := t.advance hh he .Submitted rfl
    obtain ⟨t2, q2, he2⟩ := t1.advance hh he1 .Accepted rfl
    exact ⟨t2, q1.trans q2, he2⟩
  · exact ⟨t, .refl b, e, he⟩

/-- Booking, with the trade callback inside it. -/
theorem book (t : Turn lo feeds B d₀ n i kept groups .picked b) (hh : BackBroker.Tame h) {feed : DataFeed α}
    {bar : Row α} {price : α} (he : Hand e₀ b i e) (hfeed : feeds[e.dataIndex]? = some feed)
    (hB : B groups e) :
    Turn lo feeds B d₀ n i kept groups .resolved (BackBroker.book h feed bar b i e price) := by
  let comm := b.fillCommission e price
  let settle := b.settleCcy e.dataIndex
  let x : Execution α :=
    ⟨e.execute price e.size comm, price, e.signedSize, comm, settle, b.dataBarIndex, feed.index⟩
  let b1 := ((((b.edit i fun _ => x.order).pay settle (e.signedSize * price + comm)).ensurePosition
    e.dataIndex).updatePosition e.dataIndex e.signedSize price).note (.executed x)
  have hnd : (b.pendingOrders.map Order.id).Nodup := by
    have := t.ok.nodup
    rwa [BackBroker.desk_pending t.fits] at this
  have hdesk : b1.desk (.inPass i n kept groups .booked) =
      { (b.desk (.inPass i n kept groups .picked)) with
        rest := x.order :: (b.pendingOrders.take n).drop (i + 1), phase := .booked }.log (.executed x) := by
    have hedit : (b.edit i fun _ => x.order).desk (.inPass i n kept groups .picked) = _ :=
      (BackBroker.desk_edit hnd he.get).trans (t.ok.edit_head (t.rest he.get))
    show { ((b.edit i fun _ => x.order).desk (.inPass i n kept groups .picked)) with
      phase := Phase.booked }.log (.executed x) = _
    rw [hedit]
  have t1 : Turn lo feeds B d₀ n i kept groups .booked b1 := by
    refine t.step ?_ (by simp [b1, BackBroker.note, BackBroker.updatePosition, BackBroker.ensurePosition,
      BackBroker.pay]) rfl rfl
    rw [hdesk]
    refine .book x feed rfl (t.rest he.get) hfeed ⟨_, _, _, rfl⟩ rfl (fun hdead => ?_) hB
    rw [BackBroker.desk_journal, he.track.id]; exact he.dead hdead
  let oldSize := (((b.edit i fun _ => x.order).pay settle (e.signedSize * price + comm)).ensurePosition
    e.dataIndex).position e.dataIndex |>.size
  have t2 : Turn lo feeds B d₀ n i kept groups .booked
      (b1.updateTrades h e.dataIndex oldSize e.signedSize price comm b.dataBarIndex bar.datetime e.candidateId) :=
    t1.drift (BackBroker.updateTrades_drift hh ..)
  show Turn lo feeds B d₀ n i kept groups .resolved ((b1.updateTrades h e.dataIndex oldSize e.signedSize price
    comm b.dataBarIndex bar.datetime e.candidateId).sync i)
  generalize b1.updateTrades h e.dataIndex oldSize e.signedSize price comm b.dataBarIndex bar.datetime
    e.candidateId = b2 at t2
  obtain ⟨e2, he2⟩ := t2.get
  obtain ⟨r, hr, -⟩ := t2.ok.known e2 (Desk.mem_copies.2 (.inl (Desk.head_mem_pending (t2.rest he2))))
  rw [BackBroker.desk_record] at hr
  have hsync : b2.sync i = b2.syncOrder e2 := by rw [BackBroker.sync, he2]
  rw [hsync]
  refine t2.step ?_ rfl rfl rfl
  have heq : (b2.syncOrder e2).desk (.inPass i n kept groups .resolved) =
      { (b2.desk (.inPass i n kept groups .booked)).file e2 with phase := .resolved } := by
    rw [← BackBroker.desk_syncOrder hr]; rfl
  rw [heq]
  exact .settle rfl (t2.rest he2)

theorem cancelChild {k : Nat} (t : Turn lo feeds B d₀ n i kept groups .resolved b) (hh : BackBroker.Tame h)
    (hs : e.status ≠ .Completed) (hdead : e.isAlive = false) (hl : Legs b i k e)
    (hk : k < b.pendingOrders.length) :
    Turn lo feeds B d₀ n i kept groups .resolved (BackBroker.cancelAt h (·.parentId == e.id) false b k) ∧
      Legs (BackBroker.cancelAt h (·.parentId == e.id) false b k) i (k + 1) e ∧
      b.pendingOrders.length ≤ (BackBroker.cancelAt h (·.parentId == e.id) false b k).pendingOrders.length := by
  obtain ⟨c, hc⟩ : ∃ c, b.pendingOrders[k]? = some c := ⟨_, List.getElem?_eq_getElem hk⟩
  obtain ⟨e1, he1, hid, hst, hrest⟩ := hl.hand
  unfold BackBroker.cancelAt
  rw [hc]
  dsimp only
  by_cases hp : (c.parentId == e.id && c.isAlive) = true
  · rw [if_pos hp, if_neg Bool.false_ne_true]
    rw [Bool.and_eq_true, beq_iff_eq] at hp
    have hr := t.rest he1
    have t1 : Turn lo feeds B d₀ n i kept groups .resolved ((b.edit k Order.cancel).sync k) := by
      refine t.step ?_ (by simp) (by rw [BackBroker.turn_sync]; rfl)
        (by rw [BackBroker.nextOrderId_sync]; rfl)
      rw [BackBroker.desk_touch t.fits t.ok hc (Order.id_cancel c)]
      refine .child rfl hr (hst ▸ hs) ?_ hp.2 (hid ▸ hp.1)
      rw [BackBroker.desk_pending t.fits]; exact List.mem_of_getElem? hc
    have hki : k ≠ i := by
      rintro rfl
      rw [hc] at he1; cases he1
      have : c.isAlive = false := by rw [Order.isAlive, hst]; exact hdead
      rw [this] at hp; exact absurd hp.2 (by decide)
    have hl1 : Legs ((b.edit k Order.cancel).sync k) i (k + 1) e := by
      refine ⟨⟨e1, by simpa [List.getElem?_modify, hki] using he1, hid, hst, hrest⟩, fun j hj x hx hxp => ?_⟩
      rw [BackBroker.pendingOrders_sync, BackBroker.pendingOrders_edit, List.getElem?_modify] at hx
      by_cases hjk : k = j
      · subst hjk
        rw [hc] at hx
        simp only [if_true, Option.map_eq_map, Option.map_some, Option.some.injEq] at hx
        rw [← hx, Order.cancel, Order.isAlive_setStatus]; exact Bool.and_false _
      · simp only [hjk, if_false, Option.map_eq_map, Option.map_id'] at hx
        exact hl.dead j (by omega) x hx hxp
    have hd := (hh.notify ((b.edit k Order.cancel).sync k) k).toDrift
    have hlt : 0 < e.id ∧ e.id < ((b.edit k Order.cancel).sync k).nextOrderId := by
      have := t.ok.lt_next (Desk.mem_copies.2 (.inl (Desk.head_mem_pending hr)))
      rw [BackBroker.nextOrderId_sync]
      rwa [hid, BackBroker.desk_nextOrderId] at this
    refine ⟨t1.drift hd, hl1.drift t1 hdead hlt hd (by simp; omega), ?_⟩
    exact le_of_eq_of_le (by simp) hd.length_le
  · rw [if_neg hp]
    refine ⟨t, ⟨hl.hand, fun j hj x hx hxp => ?_⟩, le_rfl⟩
    by_cases hjk : j = k
    · subst hjk
      rw [hc] at hx; cases hx
      simpa [hxp] using hp
    · exact hl.dead j (by omega) x hx hxp

theorem cancelChildren (t : Turn lo feeds B d₀ n i kept groups .resolved b) (hh : BackBroker.Tame h)
    (hs : e.status ≠ .Completed) (hdead : e.isAlive = false) (hget : b.pendingOrders[i]? = some e) :
    Turn lo feeds B d₀ n i kept groups .resolved (b.cancelBracketChildren h e.id) ∧
      Legs (b.cancelBracketChildren h e.id) i n e := by
  have key := @Fold.range_ind _ b.pendingOrders.length
    (BackBroker.cancelAt h (·.parentId == e.id) false) b
    (fun k b' => Turn lo feeds B d₀ n i kept groups .resolved b' ∧ Legs b' i k e ∧
      b.pendingOrders.length ≤ b'.pendingOrders.length)
    ⟨t, ⟨⟨e, hget, rfl, rfl, rfl, rfl, rfl⟩, fun j hj => absurd hj (Nat.not_lt_zero j)⟩, le_rfl⟩
    (fun k b' hk ⟨t', hl', hlen⟩ => by
      obtain ⟨t1, hl1, hlen1⟩ := t'.cancelChild hh hs hdead hl' (lt_of_lt_of_le hk hlen)
      exact ⟨t1, hl1, hlen.trans hlen1⟩)
  exact ⟨key.1, key.2.1.hand, fun j hj => key.2.1.dead j (lt_of_lt_of_le hj t.length)⟩

/-- The end of a turn whose order has been filled or refused. -/
theorem afterFill (t : Turn lo feeds B d₀ n i kept groups .resolved b) (hh : BackBroker.Tame h) :
    Between lo feeds B d₀ n (i + 1)
      (Pass.afterFill h { broker := b, stillPending := kept, filledOcoGroups := groups } i) := by
  have hd := (hh.notify b i).toDrift
  have t1 := t.drift hd
  obtain ⟨e, he⟩ := t1.get
  have hdead : e.isAlive = false := t1.ok.dead (fun hp => nomatch hp) (fun hp => nomatch hp) e _ (t1.rest he)
  unfold Pass.afterFill
  dsimp only
  rw [he]
  dsimp only
  by_cases hs : e.status = .Completed
  · -- a fill: its group, then its legs
    have href : Pass.refused e = false := by simp [Pass.refused, hs]
    rw [href, Bool.and_false, if_neg Bool.false_ne_true]
    have hg : ∃ gs, (if (e.ocoGroupId != 0 && decide (e.status = .Completed)) = true then
          ({ broker := BackBroker.notify h b i, stillPending := kept,
             filledOcoGroups := groups ++ [e.ocoGroupId] } : Pass α W)
        else { broker := BackBroker.notify h b i, stillPending := kept, filledOcoGroups := groups }) =
          { broker := BackBroker.notify h b i, stillPending := kept, filledOcoGroups := gs } ∧
        Turn lo feeds B d₀ n i kept gs .resolved (BackBroker.notify h b i) ∧
        (e.ocoGroupId ≠ 0 → e.ocoGroupId ∈ gs) := by
      by_cases hoco : e.ocoGroupId = 0
      · exact ⟨groups, by simp [hoco], t1, fun hne => absurd hoco hne⟩
      · exact ⟨groups ++ [e.ocoGroupId], by simp [hoco, hs], t1.addGroup he hs hoco, fun _ => by simp⟩
    obtain ⟨gs, hgs, t2, hmem⟩ := hg
    rw [hgs]
    dsimp only
    split_ifs
    · have t3 := t2.activate he hs
      refine t3.leave fun e' he' r hr => .dismiss hr (.inr ⟨rfl, ?_, ?_⟩)
      all_goals
        have hrel : e' = Desk.release e.id e := by
          have : (BackBroker.activateBracketChildren e.id (BackBroker.notify h b i)).pendingOrders[i]? =
              some (Desk.release e.id e) := by
            simp [BackBroker.activateBracketChildren, he, Desk.release]
          rw [this] at he'; exact (Option.some.inj he').symm
        have hst : e'.status = e.status ∧ e'.ocoGroupId = e.ocoGroupId := by
          rw [hrel]; unfold Desk.release; split <;> exact ⟨rfl, rfl⟩
      · intro _ hne; rw [hst.2] at hne ⊢; exact hmem hne
      · intro hne; exact absurd (hst.1.trans hs) hne
    · refine t2.leave fun e' he' r hr => .dismiss hr (.inr ⟨rfl, ?_, ?_⟩)
      all_goals rw [he] at he'; cases he'
      · exact fun _ hne => hmem hne
      · exact fun hne => absurd hs hne
  · -- refused: the legs go with it
    have href : Pass.refused e = true := by
      cases hst : e.status <;> simp_all [Pass.refused, Order.isAlive, OrderStatus.isAlive]
    rw [href, Bool.and_true, decide_eq_false hs, Bool.and_false, if_neg Bool.false_ne_true, Bool.false_and,
      if_neg Bool.false_ne_true]
    split_ifs with hc
    · obtain ⟨t2, hl⟩ := t1.cancelChildren hh hs hdead he
      obtain ⟨e2, he2, hid, hst, -, -, -⟩ := hl.hand
      refine t2.leave fun e' he' r hr => .dismiss hr (.inr ⟨rfl, ?_, ?_⟩)
      all_goals rw [he2] at he'; cases he'
      · exact fun hcomp => absurd (hst ▸ hcomp) hs
      · intro _ _ _ c hmem hp
        have hmem' : c ∈ ((BackBroker.cancelBracketChildren h e.id (BackBroker.notify h b i)).pendingOrders.take n) := by
          have : (BackBroker.cancelBracketChildren h e.id (BackBroker.notify h b i)).pendingOrders.take n =
              _ ++ _ := (List.take_append_drop i _).symm
          rw [this, List.take_take, min_eq_left t2.hi.le]
          exact hmem
        obtain ⟨j, hj⟩ := List.mem_iff_getElem?.1 hmem'
        rw [List.getElem?_take] at hj
        split at hj
        · rename_i hjn
          exact hl.dead j hjn c hj (hid ▸ hp)
        · cases hj
    · refine t1.leave fun e' he' r hr => .dismiss hr (.inr ⟨rfl, ?_, ?_⟩)
      all_goals rw [he] at he'; cases he'
      · exact fun hcomp => absurd hcomp hs
      · intro _ hp hch
        exact absurd (by simp [hp, hch]) hc

end Turn

end StratForge
