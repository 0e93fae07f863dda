import Mathlib.Tactic.Linarith
import StratForge.EngineCalls

/-!
# Flattening

`flatten_positions` closes what it finds booked, with a market order of the size of the position, and does
not look at closing orders that are still out. One closing order takes the position to flat and no further,
however its fills are reported (`Fills.level`); a second one, from a `stop()` that comes before the first
one is filled, reverses it.
-/

namespace StratForge

variable {W : Type}

/-- From `last` towards `target`. -/
def Towards (target last size : ℚ) : Prop := (last ≤ size ∧ size ≤ target) ∨ (target ≤ size ∧ size ≤ last)

instance (target last size : ℚ) : Decidable (Towards target last size) := inferInstanceAs (Decidable (_ ∨ _))

/-- What is booked on a data index is one order, of which the reports are cumulative, from `last` on. -/
def Fills (k id : Nat) (target : ℚ) : ℚ → List (LiveNote ℚ) → Prop
  | _, [] => True
  | last, .booking o prev t :: ns =>
    if o.dataIndex = k then
      o.id = id ∧ (prev.map Trade.size).getD 0 = last ∧ Towards target last t.size ∧ Fills k id target t.size ns
    else Fills k id target last ns
  | last, _ :: ns => Fills k id target last ns

/-- How far the reports have come. -/
def reported (k : Nat) : ℚ → List (LiveNote ℚ) → ℚ
  | last, [] => last
  | last, .booking o _ t :: ns => reported k (if o.dataIndex = k then t.size else last) ns
  | last, _ :: ns => reported k last ns

/-- The position is what the reports have left of it, or flat when that is negligible. -/
def Level (open_ last size : ℚ) : Prop :=
  Towards (-open_) 0 last ∧ (size = open_ + last ∨ size = 0 ∧ |open_ + last| < 1e-10)

namespace Fills
variable {k id : Nat} {target last size P : ℚ}

instance decidable : ∀ (last : ℚ) (ns : List (LiveNote ℚ)), Decidable (Fills k id target last ns)
  | _, [] => inferInstanceAs (Decidable True)
  | last, .booking o prev t :: ns =>
    have := decidable t.size ns
    have := decidable last ns
    inferInstanceAs (Decidable (if o.dataIndex = k then
      o.id = id ∧ (prev.map Trade.size).getD 0 = last ∧ Towards target last t.size ∧ Fills k id target t.size ns
    else Fills k id target last ns))
  | last, .bracket _ :: ns => decidable last ns
  | last, .cancelled _ _ :: ns => decidable last ns

theorem of_prefix {ns' : List (LiveNote ℚ)} : ∀ (ns : List (LiveNote ℚ)) {last}, Fills k id target last (ns ++ ns') →
    Fills k id target last ns
  | [], _, _ => trivial
  | n :: ns, last, h => by
    cases n with
    | booking o prev t =>
      rw [List.cons_append] at h
      unfold Fills at h ⊢
      split_ifs at h ⊢
      exacts [⟨h.1, h.2.1, h.2.2.1, of_prefix ns h.2.2.2⟩, of_prefix ns h]
    | bracket _ => exact of_prefix ns h
    | cancelled _ _ => exact of_prefix ns h

/-- Before anything of the order is booked, nothing is booked on the data index. -/
theorem untouched : ∀ (ns : List (LiveNote ℚ)) {last}, Fills k id target last ns →
    (∀ o prev t, LiveNote.booking o prev t ∈ ns → o.id ≠ id) → ∀ size, replay k size ns = size
  | [], _, _, _, _ => rfl
  | n :: ns, last, h, hid, size => by
    have hid' : ∀ o prev t, LiveNote.booking o prev t ∈ ns → o.id ≠ id := fun o prev t ho =>
      hid o prev t (List.mem_cons_of_mem _ ho)
    cases n with
    | booking o prev t =>
      unfold Fills at h
      split_ifs at h with hk
      · exact absurd h.1 (hid o prev t (List.mem_cons_self ..))
      · have hmove : LiveNote.move k size (.booking o prev t) = size := if_neg hk
        show replay k (LiveNote.move k size (.booking o prev t)) ns = size
        rw [hmove]
        exact untouched ns h hid' size
    | bracket _ => exact untouched ns h hid' size
    | cancelled _ _ => exact untouched ns h hid' size

end Fills

/-- One report more. -/
theorem Level.next {P last size size' : ℚ} (h : Level P last size) (ht : Towards (-P) last size') :
    Level P size' (if |size + (size' - last)| < 1e-10 then 0 else size + (size' - last)) := by
  obtain ⟨hlast, hsize⟩ := h
  have hto : Towards (-P) 0 size' := by
    rcases hlast with ⟨h1, h2⟩ | ⟨h1, h2⟩ <;> rcases ht with ⟨h3, h4⟩ | ⟨h3, h4⟩
    · exact .inl ⟨h1.trans h3, h4⟩
    · exact .inl ⟨by linarith, by linarith⟩
    · exact .inr ⟨by linarith, by linarith⟩
    · exact .inr ⟨h3, h4.trans h2⟩
  refine ⟨hto, ?_⟩
  rcases hsize with rfl | ⟨rfl, hsmall⟩
  · have heq : P + last + (size' - last) = P + size' := by ring
    rw [heq]
    split_ifs with hflat
    exacts [.inr ⟨rfl, hflat⟩, .inl rfl]
  · -- what is left of a position that has been rounded to flat is negligible, and so is each part of it
    rw [abs_lt] at hsmall
    have hpart : |0 + (size' - last)| < 1e-10 := by
      rw [zero_add, abs_lt]
      rcases ht with ⟨h3, h4⟩ | ⟨h3, h4⟩ <;> constructor <;> linarith
    rw [if_pos hpart]
    refine .inr ⟨rfl, ?_⟩
    rw [abs_lt]
    rcases ht with ⟨h3, h4⟩ | ⟨h3, h4⟩ <;> constructor <;> linarith

/-- A position that is closed does not change sides. -/
theorem Level.same_side {P last size : ℚ} (h : Level P last size) : 0 ≤ P * size := by
  rcases h with ⟨hlast, rfl | ⟨rfl, -⟩⟩
  · rcases hlast with ⟨h1, h2⟩ | ⟨h1, h2⟩ <;> nlinarith
  · rw [mul_zero]

theorem Level.flat {P size : ℚ} (h : Level P (-P) size) : size = 0 := by
  rcases h.2 with rfl | ⟨rfl, -⟩
  exacts [add_neg_cancel P, rfl]

/-- Any number of reports. -/
theorem Fills.level {k id : Nat} {P : ℚ} : ∀ (ns : List (LiveNote ℚ)) {last size : ℚ}, Fills k id (-P) last ns →
    Level P last size → Level P (reported k last ns) (replay k size ns)
  | [], _, _, _, hl => hl
  | n :: ns, last, size, h, hl => by
    cases n with
    | booking o prev t =>
      unfold Fills at h
      unfold reported
      have hmove : LiveNote.move k size (.booking o prev t) = if o.dataIndex = k then
          (if |size + (t.size - (prev.map Trade.size).getD 0)| < 1e-10 then 0
            else size + (t.size - (prev.map Trade.size).getD 0)) else size := by
        unfold LiveNote.move
        simp only [Arith.abs_rat]
      show Level P _ (replay k (LiveNote.move k size (.booking o prev t)) ns)
      rw [hmove]
      by_cases hk : o.dataIndex = k
      · rw [if_pos hk] at h ⊢
        obtain ⟨-, hprev, hto, hrest⟩ := h
        rw [if_pos hk, hprev]
        exact Fills.level ns hrest (hl.next hto)
      · rw [if_neg hk] at h ⊢
        rw [if_neg hk]
        exact Fills.level ns h hl
    | bracket _ => exact Fills.level ns h hl
    | cancelled _ _ => exact Fills.level ns h hl

namespace LiveEngine

/-- The position of a data index when the broker had made that many notes. -/
def sizeAt (e : LiveEngine ℚ W) (k notes : Nat) : ℚ := replay k 0 (e.world.events.take notes)

/-- The closing orders of a data index that have gone to the connector since the `i`-th run of
`flatten_positions` began. -/
def closings (e : LiveEngine ℚ W) (i k : Nat) : List (Offer ℚ) :=
  e.engine.offers.filter fun f => f.passed && f.own.any (fun i' => decide (i ≤ i')) && f.order.dataIndex == k

variable {hook : EngineHook ℚ W} {e e' : LiveEngine ℚ W} {i began k : Nat} {f : Offer ℚ}

theorem Sound.position_size (h : Sound hook e) (k : Nat) : (e.position k).size = e.sizeAt k e.world.events.length := by
  rw [BackBroker.position_size, h.positions, sizeAt, List.take_length]

/-- The closing order closes what was open when flattening began, if nothing else has been booked since. -/
theorem Sound.closing_signedSize (h : Sound hook e) (hbegan : e.engine.flattens[i]? = some began)
    (hopen : 1e-10 < |e.sizeAt k began|)
    (hhook : ∀ side e', (hook side |e.sizeAt k began| k e').1.finalSize = |e.sizeAt k began|)
    (hone : closings e i k = [f]) {target : ℚ} (hfills : Fills k f.order.id target 0 (e.world.events.drop began)) :
    f.order.signedSize = -e.sizeAt k began := by
  have hf : f ∈ closings e i k := hone ▸ List.mem_singleton_self f
  simp only [closings, List.mem_filter, Bool.and_eq_true, Option.any_eq_true, decide_eq_true_eq, beq_iff_eq] at hf
  obtain ⟨hf, ⟨-, i', hown, hle⟩, hk⟩ := hf
  obtain ⟨began', ns, hbegan', hns, hlen, hnew, hside, e', hsize⟩ := h.closing f hf i' hown
  have hbb : began ≤ began' := by
    rcases Nat.eq_or_lt_of_le hle with rfl | hlt
    · rw [hbegan] at hbegan'
      exact (Option.some.inj hbegan').le
    · obtain ⟨hi, rfl⟩ := List.getElem?_eq_some_iff.1 hbegan
      obtain ⟨hi', rfl⟩ := List.getElem?_eq_some_iff.1 hbegan'
      exact List.pairwise_iff_getElem.1 h.sorted i i' hi hi' hlt
  -- nothing has been booked on the data index between the beginning and the reading of its position
  have hread : replay k 0 ns = e.sizeAt k began := by
    obtain ⟨rest, hrest⟩ := hns
    have hsplit : ns = e.world.events.take began ++ ns.drop began := by
      rw [← hrest, List.take_append_of_le_length (hbb.trans hlen), List.take_append_drop]
    have hdrop : e.world.events.drop began = ns.drop began ++ rest := by
      rw [← hrest, List.drop_append_of_le_length (hbb.trans hlen)]
    rw [hdrop] at hfills
    rw [hsplit, replay_append]
    exact (hfills.of_prefix _).untouched _ (fun o prev t ho =>
      (hnew o prev t (List.mem_of_mem_drop ho)).ne) _
  rw [hk, hread] at hside hsize
  rw [Arith.abs_rat, hhook] at hsize
  unfold Order.signedSize
  rw [hside, hsize]
  rcases lt_or_ge 1e-10 (e.sizeAt k began) with hpos | hneg
  · rw [if_pos (if_pos hpos), abs_of_pos ((by norm_num : (0 : ℚ) < 1e-10).trans hpos)]
  · rw [if_neg (by rw [if_neg (not_lt.2 hneg)]; decide)]
    have : e.sizeAt k began < 0 := by
      by_contra hc
      rw [abs_of_nonneg (not_lt.1 hc)] at hopen
      exact absurd hopen (not_lt.2 hneg)
    exact abs_of_neg this

end LiveEngine

open LiveEngine in
/-- A position that is open when flattening begins, of which one closing order has gone to the connector since,
of the size that `close` asked for: the reports of that order, cumulative and up to its size, leave the position
on its side, at every moment from then on, and flat when they have come to the size. -/
theorem flattening_keeps_side (L : EngineListener ℚ W) (fuel : Nat) {e₀ : LiveEngine ℚ W} (hstart : e₀.Unstarted)
    (cs : List (EngineCmd ℚ)) {i began k : Nat} {f : Offer ℚ} :
    let e := run (L.env fuel) e₀ cs
    let P := e.sizeAt k began
    e.engine.flattens[i]? = some began → 1e-10 < |P| →
    (∀ side e', (L.preOrderHook side |P| k e').1.finalSize = |P|) → closings e i k = [f] →
    Fills k f.order.id f.order.signedSize 0 (e.world.events.drop began) →
    (∀ notes, began ≤ notes → 0 ≤ P * e.sizeAt k notes) ∧
    (∀ cs', cs' <+: cs → began ≤ (run (L.env fuel) e₀ cs').world.events.length →
      0 ≤ P * ((run (L.env fuel) e₀ cs').position k).size) ∧
    (reported k 0 (e.world.events.drop began) = f.order.signedSize → (e.position k).size = 0) := by
  intro e P hbegan hopen hhook hone hfills
  have hgoes : ∀ cs', Goes L.preOrderHook [] e₀ (run (L.env fuel) e₀ cs') := fun cs' => run_goes (L.tame fuel) cs' e₀
  have hs : Sound L.preOrderHook e := (hgoes cs).sound hstart.sound
  have htarget : f.order.signedSize = -P := hs.closing_signedSize hbegan hopen hhook hone hfills
  rw [htarget] at hfills ⊢
  have hlevel : ∀ ns, ns <+: e.world.events.drop began → Level P (reported k 0 ns) (replay k P ns) := by
    rintro ns ⟨rest, hrest⟩
    rw [← hrest] at hfills
    refine (hfills.of_prefix ns).level ns ⟨?_, .inl (add_zero P).symm⟩
    rcases le_total P 0 with hP | hP
    exacts [.inl ⟨le_refl _, by linarith⟩, .inr ⟨by linarith, le_refl _⟩]
  have hat : ∀ notes, began ≤ notes → e.sizeAt k notes = replay k P ((e.world.events.drop began).take (notes - began)) := by
    intro notes hle
    show replay k 0 _ = replay k (replay k 0 _) _
    rw [← replay_append, ← List.take_add, Nat.add_sub_cancel' hle]
  have hside : ∀ notes, began ≤ notes → 0 ≤ P * e.sizeAt k notes := fun notes hle => by
    rw [hat notes hle]
    exact (hlevel _ (List.take_prefix ..)).same_side
  refine ⟨hside, fun cs' hcs' hle => ?_, fun hdone => ?_⟩
  · -- a state on the way has seen the first of the notes
    obtain ⟨rest, rfl⟩ := hcs'
    have hpre : (run (L.env fuel) e₀ cs').world.events <+: e.world.events := by
      have := (run_goes (L.tame fuel) rest (run (L.env fuel) e₀ cs')).prefix_events
      rwa [← run_append] at this
    have h := hside _ hle
    rwa [sizeAt, List.prefix_iff_eq_take.1 hpre |>.symm, ← ((hgoes cs').sound hstart.sound).positions,
      ← BackBroker.position_size] at h
  · rw [hs.position_size, hat _ (hs.began began (List.mem_of_getElem? hbegan))]
    rw [List.take_of_length_le (by rw [List.length_drop])]
    have h := hlevel _ List.prefix_rfl
    rw [hdone] at h
    exact h.flat

/-- A long position of 1 whose connection is lost, for examples. -/
def LiveEngine.lost (cs : List (EngineCmd ℚ)) : LiveEngine ℚ Unit :=
  run (EngineListener.silent.env 1) (.funded (.rate none)) ([.subscribe "PRIMARY", .start,
    .marketData { symbol := "PRIMARY", lastPrice := 100, lastSize := 1, timestamp := 0 },
    .broker (.buy 1 0 none .Market 0), .fill (.ofFill 1 1 100 0), .connectorState .Disconnected] ++ cs)

/-- Closed in two parts. -/
theorem flattening_keeps_side_twoParts :
    ((LiveEngine.lost [.fill (.ofFill 2 (-1/2) 100 0), .fill (.ofFill 2 (-1) 100 0)]).position 0).size = 0 := by
  let o : Order ℚ :=
    { id := 2, type := .Market, status := .Accepted, side := .Sell, size := 1, price := 0, stopPrice := none,
      executedPrice := 0, executedSize := 0, commission := 0, dataIndex := 0, candidateId := 0, validUntilBar := none,
      trailAmount := 0, trailPercent := 0, trailStopPrice := 0, ocoGroupId := 0, parentId := 0, childIds := [],
      transmit := true }
  exact (@flattening_keeps_side _ .silent 1 _ (LiveEngine.unstarted_funded (.rate none)) _ 0 1 0
    ⟨o, some 0, true, true, 0, true, 0⟩ (by decide +kernel) (by decide +kernel) (fun _ _ => rfl) (by decide +kernel)
    (by decide +kernel)).2.2 (by decide +kernel)

/-- The connection is lost, and the engine stopped and started again before the closing order is filled: both
closing orders are filled, nothing else is, and the position is short. -/
theorem flattened_twice_reverses :
    let e := LiveEngine.lost [.stop, .start, .fill (.ofFill 2 (-1) 100 0), .fill (.ofFill 3 (-1) 100 0)]
    e.engine.flattens = [1, 1] ∧ e.sizeAt 0 1 = 1 ∧ (LiveEngine.closings e 0 0).map (·.order.id) = [2, 3] ∧
    ((e.world.events.drop 1).map fun
      | .booking o _ t => (o.id, t.size)
      | _ => (0, 0)) = [(2, -1), (3, -1)] ∧
    (∀ o ∈ e.allOrders, o.status = .Completed) ∧ (e.position 0).size = -1 := by decide +kernel

end StratForge
