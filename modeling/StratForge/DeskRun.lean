import StratForge.DeskPass

/-!
# Passes and runs of the desk

`Between.visit` puts the stages of a turn together, `processOrders_path` the turns and the second pass.
`Desk.Inv.run` is the rule the laws about orders are proved with: what every move preserves holds after
every run.
-/

namespace StratForge
open Relation

section
variable {α W : Type} {lo : Nat} {b : BackBroker α W}

/-- Between operations. -/
structure Ready (lo : Nat) (b : BackBroker α W) : Prop where
  ok : (b.desk .between).Ok
  turn : b.turn = 0
  next : lo ≤ b.nextOrderId

namespace Ready

theorem of_fresh (hf : b.Fresh) : Ready 1 b := by
  refine ⟨⟨?_, ?_, ?_, ?_, ?_, ?_, ?_, ?_, ?_, ?_, ?_, ?_⟩, hf.turn, hf.nextOrderId.ge⟩ <;>
    simp [BackBroker.desk, Desk.pending, Desk.copies, Desk.Settled, Desk.Unfilled, BackBroker.findOrder, hf.allOrders,
      hf.pendingOrders, hf.nextOrderId]

theorem nodup_pending (hr : Ready lo b) : (b.pendingOrders.map Order.id).Nodup := by
  have := hr.ok.nodup
  rwa [@BackBroker.desk_pending _ _ _ .between hr.turn] at this

theorem ids (hr : Ready lo b) : b.allOrders.map Order.id = List.range' 1 (b.nextOrderId - 1) := by
  have := hr.ok.numbered
  rwa [BackBroker.desk_nextOrderId] at this

/-- The record that is found under an id is the one in `allOrders`. -/
theorem find_of_mem (hr : Ready lo b) {r : Order α} (hm : r ∈ b.allOrders) : b.findOrder r.id = some r := by
  have hnd : (b.allOrders.map Order.id).Nodup := by rw [hr.ids]; exact List.nodup_range'
  exact (Keyed.find?_eq_some_iff hnd).2 ⟨hm, rfl⟩

/-- Every id that has been given out has its record. -/
theorem exists_record (hr : Ready lo b) {id : Nat} (hpos : 0 < id) (hlt : id < b.nextOrderId) :
    ∃ r, b.findOrder id = some r := by
  have hmem : id ∈ b.allOrders.map Order.id := by
    rw [hr.ids, List.mem_range'_1]
    omega
  obtain ⟨r, hr', rfl⟩ := List.mem_map.1 hmem
  exact ⟨r, hr.find_of_mem hr'⟩

theorem mem_of_find {id : Nat} {r : Order α} (h : b.findOrder id = some r) : r ∈ b.allOrders ∧ r.id = id :=
  ⟨List.mem_of_find?_eq_some h, by simpa using List.find?_some h⟩

end Ready

end

variable {α W : Type} [Arith α] {lo : Nat} {feeds : List (DataFeed α)} {B : List Nat → Order α → Prop}
  {d₀ : Desk α} {n i : Nat} {kept : List (Order α)} {groups : List Nat} {b : BackBroker α W}
  {e e₀ o : Order α} {h : Hooks α W}

namespace Turn

/-- Matching, from the order as the callbacks have left it. -/
theorem match' (t : Turn lo feeds B d₀ n i kept groups .picked b) (hh : BackBroker.Tame h)
    (he : Hand e₀ b i e) {feed : DataFeed α} {bar : Row α} (trail : Bool)
    (hfeed : feeds[e.dataIndex]? = some feed)
    (hB : ∀ price, b.matchOrder e bar = .fill price → b.affords e price bar.datetime = true → B groups e) :
    Between lo feeds B d₀ n (i + 1)
      (Pass.match' h feed bar { broker := b, stillPending := kept, filledOcoGroups := groups } i trail) := by
  unfold Pass.match' BackBroker.tryFillOrder
  rw [he.get]
  dsimp only
  cases hm : b.matchOrder e bar with
  | none =>
    rw [if_neg Bool.false_ne_true]
    dsimp only
    cases trail with
    | false => exact t.keep (.inr rfl)
    | true =>
      rw [if_pos rfl]
      unfold BackBroker.updateTrailStop
      rw [he.get]
      dsimp only
      split
      · exact t.keep (.inr rfl)
      · rename_i v hv
        have ht : Turn lo feeds B d₀ n i kept groups .picked
            ((b.edit i ({ · with trailStopPrice := v })).sync i) := t.touch he.get (Desk.Tweak.trail e v)
        exact ht.keep (.inr rfl)
  | noStopPrice =>
    rw [if_pos rfl]
    exact (t.refuse he.get (.inl rfl)).afterFill hh
  | fill price =>
    dsimp only
    by_cases ha : b.affords e price bar.datetime = true
    · simp only [if_pos ha, if_true]
      exact (t.book hh he hfeed (hB price hm ha)).afterFill hh
    · simp only [if_neg ha, if_true]
      exact (t.refuse he.get (.inr rfl)).afterFill hh

/-- An order that leaves the pass without having been matched. -/
theorem dropped (t : Turn lo feeds B d₀ n i kept groups .picked b) (hh : BackBroker.Tame h)
    (hget : b.pendingOrders[i]? = some e) (s : OrderStatus) (hs : s = .Rejected ∨ s = .Expired)
    (hwhy : feeds.length ≤ e.dataIndex ∨ e.validUntilBar ≠ none) (broker : BackBroker α W) :
    Between lo feeds B d₀ n (i + 1)
      (Pass.drop h (·.setStatus s) { broker, stillPending := kept, filledOcoGroups := groups } b i) :=
  ((t.drop hget hs hwhy).drift (hh.notify _ i).toDrift).leave fun _ _ _ hr => .dismiss hr (.inl rfl)

/-- Taking an order up, with the release of an order whose parent has filled. -/
theorem pick (t : Turn lo feeds B d₀ n i kept groups .idle b) (hget : b.pendingOrders[i]? = some o)
    (halive : o.isAlive = true) (hheld : Pass.held b o = false) :
    Turn lo feeds B d₀ n i kept groups .picked (Pass.release b i o) ∧
      BackBroker.Quiet b (Pass.release b i o) ∧
      ∃ e, Hand o (Pass.release b i o) i e ∧ e.isAlive = true ∧ e.status = o.status := by
  unfold Pass.release
  split_ifs with hr
  · have hnd : (b.pendingOrders.map Order.id).Nodup := by
      have := t.ok.nodup
      rwa [BackBroker.desk_pending t.fits] at this
    have hfilled : b.isParentFilled o.parentId = true := by
      rw [Pass.held, hr, Bool.true_and] at hheld
      simpa using hheld
    obtain ⟨p, hp, hst⟩ : ∃ p, b.findOrder o.parentId = some p ∧ p.status = .Completed := by
      unfold BackBroker.isParentFilled at hfilled
      cases hf : b.findOrder o.parentId with
      | none => rw [hf] at hfilled; cases hfilled
      | some p => rw [hf] at hfilled; exact ⟨p, rfl, by simpa using hfilled⟩
    refine ⟨t.step ?_ (by simp) rfl rfl, .edit b i _, { o with transmit := true }, ⟨?_, ⟨Desk.Ok.same_transmit o true, rfl⟩,
      fun hd => absurd halive (by rw [show o.isAlive = false from hd]; decide)⟩, halive, rfl⟩
    · have heq : (b.edit i ({ · with transmit := true })).desk (.inPass i n kept groups .picked) =
          { (b.desk (.inPass i n kept groups .idle)) with
            rest := { o with transmit := true } :: (b.pendingOrders.take n).drop (i + 1), phase := .picked } := by
        have hedit : (b.edit i ({ · with transmit := true })).desk (.inPass i n kept groups .idle) = _ :=
          BackBroker.desk_edit hnd hget
        have hsame : (b.desk (.inPass i n kept groups .idle)).edit o.id ({ · with transmit := true }) =
            (b.desk (.inPass i n kept groups .idle)).edit o.id fun _ => { o with transmit := true } := by
          have key : ∀ l : List (Order α), (∀ x ∈ l, x ∈ (b.desk (.inPass i n kept groups .idle)).pending) →
              Keyed.update Order.id o.id ({ · with transmit := true }) l =
                Keyed.update Order.id o.id (fun _ => { o with transmit := true }) l := by
            refine fun l hl => Keyed.update_congr fun x hx hxo => ?_
            rw [t.ok.eq_of_id (hl x hx) (Desk.head_mem_pending (t.rest hget)) hxo]
          unfold Desk.edit
          rw [key _ fun x hx => Desk.mem_pending.2 (.inl hx),
            key _ fun x hx => Desk.mem_pending.2 (.inr (.inl hx)),
            key _ fun x hx => Desk.mem_pending.2 (.inr (.inr hx))]
        rw [hsame, t.ok.edit_head (t.rest hget)] at hedit
        exact congrArg (fun d : Desk α => { d with phase := Phase.picked }) hedit
      rw [heq]
      exact .pick rfl (t.rest hget) halive (.inr ⟨rfl, p, by rwa [BackBroker.desk_record], hst⟩)
    · simp [hget]
  · refine ⟨t.step ?_ rfl rfl rfl, .refl b, o, ⟨hget, .refl o, fun hd => absurd halive (by rw [hd]; decide)⟩, halive, rfl⟩
    have heq : b.desk (.inPass i n kept groups .picked) =
        { (b.desk (.inPass i n kept groups .idle)) with
          rest := o :: (b.pendingOrders.take n).drop (i + 1), phase := .picked } := by
      rw [← t.rest hget]; rfl
    rw [heq]
    refine .pick rfl (t.rest hget) halive (.inl ⟨rfl, ?_⟩)
    simp only [Bool.and_eq_true, bne_iff_ne, ne_eq, not_and, not_not, Bool.not_eq_eq_eq_not,
      Bool.not_true] at hr
    cases ht : o.transmit with
    | true => exact .inl rfl
    | false => exact .inr (hr ht)

end Turn

/-- One turn of the loop. -/
theorem Between.visit {p : Pass α W} (hp : Between lo feeds B d₀ n i p) (hi : i < n) (hh : BackBroker.Tame h)
    (hB : ∀ o, p.broker.pendingOrders[i]? = some o → p.executes feeds o = true →
      ∀ e, Order.Track o e → B p.filledOcoGroups e) :
    Between lo feeds B d₀ n (i + 1) (Pass.visit h feeds p i) := by
  have t : Turn lo feeds B d₀ n i p.stillPending p.filledOcoGroups .idle { p.broker with turn := i + 1 } :=
    ⟨hp.path, hp.ok, hi, hp.length, rfl, hp.next⟩
  obtain ⟨o, ho⟩ := t.get
  unfold Pass.visit
  dsimp only
  rw [ho]
  dsimp only
  by_cases halive : o.isAlive = true
  swap
  · -- no longer alive
    rw [Bool.not_eq_true] at halive
    rw [halive, Bool.not_false, if_pos rfl]
    refine t.leave fun e he r hr => .skip rfl hr ?_
    rw [ho] at he; cases he; exact halive
  rw [halive, Bool.not_true, if_neg Bool.false_ne_true]
  by_cases hheld : Pass.held { p.broker with turn := i + 1 } o = true
  · rw [if_pos hheld]; exact t.keep (.inl rfl)
  rw [if_neg hheld]
  rw [Bool.not_eq_true] at hheld
  obtain ⟨t1, hq1, e, he, -, hest⟩ := t.pick ho halive hheld
  cases hfeed : feeds[o.dataIndex]? with
  | none =>
    refine t1.dropped hh he.get .Rejected (.inl rfl) (.inl ?_) _
    rw [he.track.dataIndex]; exact List.getElem?_eq_none_iff.1 hfeed
  | some feed =>
    dsimp only
    cases hbar : feed.current? with
    | none => exact t1.keep (.inr rfl)
    | some bar =>
      dsimp only
      split_ifs with hexp
      · refine t1.dropped hh he.get .Expired (.inr rfl) (.inr ?_) _
        rw [he.track.validUntilBar]
        unfold Pass.expired at hexp
        split at hexp
        · rename_i v hv; rw [hv]; exact fun hn => nomatch hn
        · cases hexp
      · have heq : Pass.submitAccept h (Pass.release { p.broker with turn := i + 1 } i o) i o =
            Pass.submitAccept h (Pass.release { p.broker with turn := i + 1 } i o) i e := by
          unfold Pass.submitAccept; rw [hest]
        rw [heq]
        obtain ⟨t2, hq2, e2, he2⟩ := t1.submitAccept hh he
        have hq := hq1.trans hq2
        refine t2.match' hh he2 _ (by rw [he2.track.dataIndex]; exact hfeed) fun price hm ha => ?_
        refine hB o ho ?_ e2 he2.track
        -- what the turn finds when it comes to match is what it found when it began
        have hm' : p.broker.matchOrder o bar = .fill price := by
          rw [← BrokerSettings.matchOrder_track _ he2.track, ← hm, hq.settings]
        have ha' : p.broker.affords o price bar.datetime = true := by
          rw [← ha]; exact (BackBroker.affords_track hq.settings hq.cash he2.track price _).symm
        have hheld' : Pass.held p.broker o = false := hheld
        have hexp' : Pass.expired p.broker o = false := by
          rw [Bool.not_eq_true] at hexp
          rw [← hexp]; unfold Pass.expired; rw [hq1.dataBarIndex]
        simp [Pass.executes, halive, hheld', hexp', hfeed, hbar, hm', ha']


/-! ### The second pass -/

/-- Up to position `j`, no kept order is alive in a filled group. -/
def Settled (p : Pass α W) (j : Nat) : Prop :=
  ∀ k < j, ∀ e, p.stillPending[k]? = some e → e.isAlive = true → e.ocoGroupId ≠ 0 →
    e.ocoGroupId ∉ p.filledOcoGroups

/-- The second pass has come to position `j`. -/
structure Between.Oco (lo : Nat) (feeds : List (DataFeed α)) (B : List Nat → Order α → Prop) (d₀ : Desk α)
    (n : Nat) (p p' : Pass α W) (j : Nat) : Prop where
  between : Between lo feeds B d₀ n n p'
  groups : p'.filledOcoGroups = p.filledOcoGroups
  length : p'.stillPending.length = p.stillPending.length
  settled : Settled p' j

theorem Between.Oco.cancelOco {p p' : Pass α W} {j : Nat} (ho : Between.Oco lo feeds B d₀ n p p' j)
    (hh : BackBroker.Tame h) (hne : p.filledOcoGroups ≠ []) (hj : j < p.stillPending.length) :
    Between.Oco lo feeds B d₀ n p (Pass.cancelOco h p' j) (j + 1) := by
  obtain ⟨e, he⟩ : ∃ e, p'.stillPending[j]? = some e := ⟨_, List.getElem?_eq_getElem (ho.length ▸ hj)⟩
  unfold Pass.cancelOco
  rw [he]
  dsimp only
  split_ifs with hc
  · simp only [Bool.and_eq_true, bne_iff_ne, ne_eq, List.contains_iff_mem] at hc
    obtain ⟨⟨hoco, halive⟩, hmem⟩ := hc
    have hb := ho.between
    have hrest : (p'.broker.desk (.inPass n n p'.stillPending p'.filledOcoGroups .idle)).rest = [] := by
      show (p'.broker.pendingOrders.take n).drop n = []
      rw [List.drop_eq_nil_iff, List.length_take]; exact Nat.min_le_left ..
    have hm : Desk.Move lo feeds B (p'.broker.desk (.inPass n n p'.stillPending p'.filledOcoGroups .idle))
        ((p'.broker.desk (.inPass n n p'.stillPending p'.filledOcoGroups .idle)).writeKept e.cancel) :=
      .oco rfl hrest (List.mem_of_getElem? he) halive ⟨hoco, hmem⟩
    obtain ⟨r, hr, -⟩ := hb.ok.known e (Desk.mem_copies.2 (.inr (List.mem_of_getElem? he)))
    rw [BackBroker.desk_record] at hr
    have hnd : (p'.stillPending.map Order.id).Nodup := hb.ok.nodup_stale.sublist hb.ok.keptIds
    have heq : (p'.broker.syncOrder e.cancel).desk
        (.inPass n n (p'.stillPending.set j e.cancel) p'.filledOcoGroups .idle) =
        (p'.broker.desk (.inPass n n p'.stillPending p'.filledOcoGroups .idle)).writeKept e.cancel := by
      have hset : p'.stillPending.set j e.cancel =
          Keyed.update Order.id e.cancel.id (fun _ => e.cancel) p'.stillPending := by
        rw [List.set_eq_modify, Keyed.modify_eq hnd he, Order.id_cancel]
      rw [hset, BackBroker.desk_syncOrder (by rw [Order.id_cancel]; exact hr)]
      rfl
    rw [← heq] at hm
    have hpos : 0 < n := by
      rcases Nat.eq_zero_or_pos n with h0 | h0
      · exact absurd (ho.groups ▸ hb.groups h0) hne
      · exact h0
    have hfit : (Place.inPass n n (p'.stillPending.set j e.cancel) p'.filledOcoGroups .idle).Fits
        (p'.broker.syncOrder e.cancel) :=
      ⟨le_rfl, hb.length, hb.turn.ge, lt_of_lt_of_eq hpos hb.turn.symm, fun hp => absurd rfl hp⟩
    have hok := hb.ok.move hm
    have hd := (hh.order e.cancel (p'.broker.syncOrder e.cancel)).toDrift
    have hcalls := hd.calls _ lo hfit hok hb.next
    refine ⟨⟨?_, hd.ok hfit hok, le_rfl, ?_, ?_, ?_, ?_⟩, ho.groups, ?_, ?_⟩
    · exact (hb.path.tail hm).trans (hcalls.lift id fun _ _ hc => .call hc)
    · exact hb.length.trans hd.length_le
    · exact hd.turn.trans hb.turn
    · exact hb.next.trans hd.next_le
    · exact hb.groups
    · rw [List.length_set]; exact ho.length
    · intro k hk x hx hxa hxo
      simp only [List.getElem?_set] at hx
      by_cases hkj : j = k
      · subst hkj
        rw [if_pos rfl, if_pos (ho.length ▸ hj)] at hx
        cases hx
        rw [Order.cancel, Order.isAlive_setStatus] at hxa
        exact absurd hxa (by rw [show OrderStatus.Canceled.isAlive = false from rfl, Bool.and_false]; decide)
      · rw [if_neg hkj] at hx
        exact ho.settled k (by omega) x hx hxa hxo
  · refine ⟨ho.between, ho.groups, ho.length, fun k hk x hx hxa hxo => ?_⟩
    by_cases hkj : k = j
    · subst hkj
      rw [he] at hx; cases hx
      intro hmem
      exact hc (by simp [hxa, hxo, hmem])
    · exact ho.settled k (by omega) x hx hxa hxo

/-- The end of a pass. -/
theorem Between.finish {p : Pass α W} (hp : Between lo feeds B d₀ n n p) (hh : BackBroker.Tame h) :
    ReflTransGen (Desk.Move lo feeds B) d₀ ((p.cancelOcoSiblings h).finish.desk .between) ∧
      lo ≤ (p.cancelOcoSiblings h).finish.nextOrderId := by
  have close : ∀ (q : Pass α W) (still : List (Order α)), Between lo feeds B d₀ n n q →
      still.Sublist q.stillPending → (∀ e ∈ q.stillPending, e.isAlive = true → e ∈ still) →
      (∀ e ∈ still, e.isAlive = true → e.ocoGroupId ≠ 0 → e.ocoGroupId ∉ q.filledOcoGroups) →
      ReflTransGen (Desk.Move lo feeds B) d₀
        (({ q with stillPending := still } : Pass α W).finish.desk .between) := by
    intro q still hq hsub hall hgroup
    have hrest : (q.broker.desk (.inPass n n q.stillPending q.filledOcoGroups .idle)).rest = [] := by
      show (q.broker.pendingOrders.take n).drop n = []
      rw [List.drop_eq_nil_iff, List.length_take]; exact Nat.min_le_left ..
    exact hq.path.tail (.finish rfl hrest hsub hall hgroup)
  unfold Pass.cancelOcoSiblings
  split_ifs with hempty
  · rw [List.isEmpty_iff] at hempty
    refine ⟨close p p.stillPending hp (List.Sublist.refl _) (fun e he _ => he) fun e _ _ _ => ?_, hp.next⟩
    rw [hempty]; exact List.not_mem_nil
  · have hne : p.filledOcoGroups ≠ [] := fun h0 => hempty (by rw [h0]; rfl)
    have key := @Fold.range_ind _ p.stillPending.length (Pass.cancelOco h) p
      (fun j p' => Between.Oco lo feeds B d₀ n p p' j)
      ⟨hp, rfl, rfl, fun k hk => absurd hk (Nat.not_lt_zero k)⟩
      (fun j p' hj ho => ho.cancelOco hh hne hj)
    dsimp only
    generalize (List.range p.stillPending.length).foldl (Pass.cancelOco h) p = q at key
    refine ⟨close q _ key.between List.filter_sublist (fun e he ha => List.mem_filter.2 ⟨he, ha⟩) ?_,
      key.between.next⟩
    intro e he ha hoco
    obtain ⟨k, hk⟩ := List.mem_iff_getElem?.1 (List.mem_filter.1 he).1
    have hlt : k < p.stillPending.length := key.length ▸ (List.getElem?_eq_some_iff.1 hk).1
    exact key.settled k hlt e hk ha hoco

/-- A pass is a sequence of moves. -/
theorem processOrders_path (hh : BackBroker.Tame h) (hok : (b.desk .between).Ok) (hturn : b.turn = 0)
    (hlo : lo ≤ b.nextOrderId)
    (hB : ∀ i < b.pendingOrders.length, ∀ o,
      (b.passAt h feeds i).broker.pendingOrders[i]? = some o → (b.passAt h feeds i).executes feeds o = true →
      ∀ e, Order.Track o e → B (b.passAt h feeds i).filledOcoGroups e) :
    ReflTransGen (Desk.Move lo feeds B) (b.desk .between) ((b.processOrders h feeds).desk .between) ∧
      lo ≤ (b.processOrders h feeds).nextOrderId := by
  have hstart : b.desk (.inPass 0 b.pendingOrders.length [] [] .idle) = b.desk .between := by
    simp [BackBroker.desk]
  have key : ∀ i ≤ b.pendingOrders.length,
      Between lo feeds B (b.desk .between) b.pendingOrders.length i (b.passAt h feeds i) := by
    intro i
    induction i with
    | zero =>
      exact fun _ => ⟨hstart ▸ .refl, hstart.symm ▸ hok, Nat.zero_le _, le_rfl, hturn, hlo, fun _ => rfl⟩
    | succ i ih =>
      intro hi
      have hlt : i < b.pendingOrders.length := hi
      have := (ih hlt.le).visit hlt hh (hB i hlt)
      rwa [BackBroker.passAt, List.range_succ, List.foldl_append]
  exact (key _ le_rfl).finish hh

/-! ### Runs -/

/-- A pass runs over its feeds, anything else over whatever feeds. -/
def Op.Over (feeds : List (DataFeed α)) : Op α → Prop
  | .processOrders feeds' => feeds' = feeds
  | _ => True

omit [Arith α] in
theorem Op.over_exists (op : Op α) : ∃ feeds, op.Over feeds := by
  cases op with
  | processOrders feeds => exact ⟨feeds, rfl⟩
  | cmd | setBarIndex => exact ⟨[], trivial⟩

/-- What is known of every order that the operation books. -/
def Op.Books (h : Hooks α W) (B : List (DataFeed α) → List Nat → Order α → Prop) (b : BackBroker α W) :
    Op α → Prop
  | .processOrders feeds => ∀ i < b.pendingOrders.length, ∀ o,
      (b.passAt h feeds i).broker.pendingOrders[i]? = some o → (b.passAt h feeds i).executes feeds o = true →
      ∀ e, Order.Track o e → B feeds (b.passAt h feeds i).filledOcoGroups e
  | _ => True

namespace Ready

theorem step {B : List (DataFeed α) → List Nat → Order α → Prop} (hr : Ready lo b) (hh : BackBroker.Tame h)
    (op : Op α) (hover : op.Over feeds) (hB : op.Books h B b) :
    ReflTransGen (Desk.Move lo feeds (B feeds)) (b.desk .between) ((b.step h op).desk .between) ∧
      Ready lo (b.step h op) := by
  cases op with
  | cmd c =>
    have hd := (BackBroker.exec_reach hh c b).toDrift
    exact ⟨(hd.calls .between lo hr.turn hr.ok hr.next).lift id fun _ _ hc => .call hc,
      @BackBroker.Drift.ok _ _ _ _ hd .between hr.turn hr.ok, hd.turn.trans hr.turn, hr.next.trans hd.next_le⟩
  | processOrders feeds' =>
    obtain rfl := hover
    obtain ⟨hpath, hnext⟩ := processOrders_path hh hr.ok hr.turn hr.next hB
    exact ⟨hpath, hr.ok.moves hpath, rfl, hnext⟩
  | setBarIndex k => exact ⟨.refl, hr.ok, hr.turn, hr.next⟩

theorem run_ready (hr : Ready lo b) (hh : BackBroker.Tame h) (ops : List (Op α)) : Ready lo (b.run h ops) := by
  induction ops using List.reverseRecOn with
  | nil => exact hr
  | append_singleton ops op ih =>
    rw [BackBroker.run_snoc]
    obtain ⟨feeds, hover⟩ := op.over_exists
    exact (@ih.step _ _ _ _ feeds _ _ (fun _ _ _ => True) hh op hover (by cases op <;> simp [Op.Books])).2

theorem step_journal_le (hr : Ready lo b) (hh : BackBroker.Tame h) (op : Op α) : b.journal <+: (b.step h op).journal := by
  obtain ⟨feeds, hover⟩ := op.over_exists
  obtain ⟨hpath, -⟩ := @hr.step _ _ _ _ feeds _ _ (fun _ _ _ => True) hh op hover (by cases op <;> simp [Op.Books])
  simpa using Desk.Moves.journal_le hpath

theorem journal_le (hr : Ready lo b) (hh : BackBroker.Tame h) (ops : List (Op α)) :
    b.journal <+: (b.run h ops).journal := by
  induction ops using List.reverseRecOn with
  | nil => exact List.prefix_rfl
  | append_singleton ops op ih =>
    rw [BackBroker.run_snoc]
    exact ih.trans ((hr.run_ready hh ops).step_journal_le hh op)

/-- What every move preserves holds after every run, as long as its feeds meet `F` and the journal `C`. -/
theorem run {B : List (DataFeed α) → List Nat → Order α → Prop} {C : List (Note α) → Prop}
    {F : List (DataFeed α) → Prop} {I : Desk α → Prop} (hr : Ready lo b) (hh : BackBroker.Tame h)
    (hC : ∀ j j', j <+: j' → C j' → C j) (hF0 : ∃ feeds, F feeds)
    (hmove : ∀ feeds d d', F feeds → d.Ok → Desk.Move lo feeds (B feeds) d d' → C d'.journal → I d → I d')
    (hI : I (b.desk .between)) :
    ∀ ops : List (Op α), (∀ feeds, .processOrders feeds ∈ ops → F feeds) →
      BackBroker.Along h (fun b op => op.Books h B b) b ops →
      C (b.run h ops).journal → I ((b.run h ops).desk .between) := by
  intro ops
  induction ops using List.reverseRecOn with
  | nil => exact fun _ _ _ => hI
  | append_singleton ops op ih =>
    intro hF hB hCl
    rw [BackBroker.along_snoc] at hB
    rw [BackBroker.run_snoc] at hCl ⊢
    have hready := hr.run_ready hh ops
    obtain ⟨feeds, hover, hFf⟩ : ∃ feeds, op.Over feeds ∧ F feeds := by
      cases op with
      | processOrders feeds => exact ⟨feeds, rfl, hF feeds (by simp)⟩
      | cmd | setBarIndex => exact hF0.imp fun feeds hf => ⟨trivial, hf⟩
    obtain ⟨hpath, -⟩ := hready.step hh op hover hB.2
    have hle := Desk.Moves.journal_le hpath
    rw [BackBroker.desk_journal, BackBroker.desk_journal] at hle
    refine Desk.Moves.induction hpath hready.ok hC (fun d d' => hmove feeds d d' hFf) ?_ (by rwa [BackBroker.desk_journal])
    exact ih (fun feeds hf => hF feeds (List.mem_append_left _ hf)) hB.1 (hC _ _ hle hCl)

/-- The same, for a condition on single notes and nothing known of the orders that are booked. -/
theorem run_of_notes {C : Note α → Prop} {I : Desk α → Prop} (hr : Ready lo b) (hh : BackBroker.Tame h)
    (hmove : ∀ feeds d d', d.Ok → Desk.Move lo feeds (fun _ _ => True) d d' → (∀ n ∈ d'.journal, C n) → I d → I d')
    (hI : I (b.desk .between)) (ops : List (Op α)) (hCl : ∀ n ∈ (b.run h ops).journal, C n) :
    I ((b.run h ops).desk .between) := by
  refine @hr.run _ _ _ _ _ _ (fun _ _ _ => True) (fun j => ∀ n ∈ j, C n) (fun _ => True) _ hh
    (fun j j' hle hC n hn => hC n (hle.subset hn)) ⟨[], trivial⟩ (fun feeds d d' _ => hmove feeds d d') hI ops
    (fun _ _ => trivial) ?_ hCl
  exact BackBroker.Along.mono (fun b op _ => by cases op <;> simp [Op.Books]) (BackBroker.along_trivial b ops)

end Ready

end StratForge
