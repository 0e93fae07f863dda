import Mathlib.Tactic.Linarith
import Mathlib.Tactic.NormNum
import StratForge.Books
import StratForge.ProcessOrders

/-!
# The positions of a run, and what they are worth

`Filed` is what every run keeps of the positions: one for each data index, with the instrument registered
for it, flat or not negligible, at one price. On such positions `portfolio_value` is a sum over the data indices that are
held, at the closes the feeds stand at (`portfolioValue_eq`).
-/

namespace StratForge

namespace Position

/-- What a position counts at a mark. -/
def worth {α : Type} [Arith α] (p : Position α) (mark : α) : α :=
  match p.instrument with
  | some instr => instr.markToMarket p.size p.avgPrice mark
  | none => p.size * mark

theorem size_update_cases (p : Position ℚ) (s px : ℚ) : (p.update s px).size = 0 ∨ 1e-10 ≤ |(p.update s px).size| := by
  rw [size_update]
  split_ifs with h
  exacts [.inl rfl, .inr (not_lt.1 h)]

/-- The average price after a fill. -/
theorem update_avgPrice {pos : Position ℚ} (h : pos.price = pos.avgPrice) (s p : ℚ) :
    (pos.update s p).price = (pos.update s p).avgPrice ∧ (pos.update s p).avgPrice =
      if |pos.size + s| < 1e-10 then 0
      else if |pos.size| < 1e-10 then p
      else if (0 < pos.size ∧ 0 < s) ∨ (pos.size < 0 ∧ s < 0) then (pos.avgPrice * pos.size + s * p) / (pos.size + s)
      else if (0 < pos.size ∧ pos.size + s < 0) ∨ (pos.size < 0 ∧ 0 < pos.size + s) then p
      else pos.avgPrice := by
  unfold update
  dsimp only [Arith.abs_rat]
  split_ifs <;> simp [h]

end Position

/-- The feed of a data index stands at a close. -/
def MarkedAt {α : Type} (feeds : List (DataFeed α)) (k : Nat) (mark : α) : Prop :=
  ∃ feed, feeds[k]? = some feed ∧ feed.close.at' 0 = .ok mark

namespace BackBroker
variable {W : Type} {b b' : BackBroker ℚ W}

structure Filed (b : BackBroker ℚ W) : Prop where
  nodup : (b.positions.map (·.dataIndex)).Nodup
  instrument : ∀ p ∈ b.positions, p.instrument = b.instrumentMap p.dataIndex
  size : ∀ p ∈ b.positions, p.size = 0 ∨ 1e-10 ≤ |p.size|
  price : ∀ p ∈ b.positions, p.price = p.avgPrice

namespace Filed

/-- A new flat position. -/
theorem ensure {ps : List (Position ℚ)} (hb : { b with positions := ps }.Filed) (k : Nat) :
    { b with positions := Position.ensure b.instrumentMap ps k }.Filed := by
  have hnd : (ps.map (·.dataIndex)).Nodup := hb.nodup
  unfold Position.ensure
  cases hf : ps.find? (·.dataIndex == k) with
  | some p => exact hb
  | none =>
    have hnew : k ∉ ps.map Position.dataIndex := fun hk => by
      obtain ⟨p, hp, hpk⟩ := List.mem_map.1 hk
      exact List.find?_eq_none.1 hf p hp (by simpa using hpk)
    refine ⟨?_, fun p hp => ?_, fun p hp => ?_, fun p hp => ?_⟩
    · show ((ps ++ [_]).map Position.dataIndex).Nodup
      rw [List.map_append]
      exact List.Nodup.append hnd (by simp) fun i hi hi' => by
        have hik : i = k := List.mem_singleton.1 hi'
        exact hnew (hik ▸ hi)
    · rcases List.mem_append.1 hp with hp | hp
      · exact hb.instrument p hp
      · rw [List.mem_singleton.1 hp]; rfl
    · rcases List.mem_append.1 hp with hp | hp
      · exact hb.size p hp
      · rw [List.mem_singleton.1 hp]; exact .inl rfl
    · rcases List.mem_append.1 hp with hp | hp
      · exact hb.price p hp
      · rw [List.mem_singleton.1 hp]; rfl

theorem same (hs : SameBooks b b') (hb : b.Filed) : b'.Filed := by
  obtain ⟨ks, hks⟩ := hs.positions
  have him : b'.instrumentMap = b.instrumentMap := congrArg BrokerSettings.instrumentMap hs.settings
  have hps : { b with positions := b'.positions }.Filed := by
    rw [hks]
    exact Fold.foldl_ind (fun ps => { b with positions := ps }.Filed) ks b.positions hb fun ps k _ hps => hps.ensure k
  exact ⟨hps.nodup, fun p hp => (hps.instrument p hp).trans (congrFun him p.dataIndex).symm, hps.size, hps.price⟩

/-- What is held of a data index is the position there. -/
theorem holding_of_mem (hb : b.Filed) {p : Position ℚ} (hp : p ∈ b.positions) : b.holding p.dataIndex = p := by
  have hf : b.findPosition p.dataIndex = some p := (Keyed.find?_eq_some_iff hb.nodup).2 ⟨hp, rfl⟩
  rw [holding, hf]; rfl

/-- What is not flat is filed. -/
theorem mem_of_holding {k : Nat} (h : (b.holding k).size ≠ 0) : b.holding k ∈ b.positions ∧ (b.holding k).dataIndex = k := by
  unfold holding at h ⊢
  cases hf : b.findPosition k with
  | none => rw [hf] at h; exact absurd rfl h
  | some p =>
    exact ⟨List.mem_of_find?_eq_some hf, by simpa using List.find?_some hf⟩

theorem updatePosition (hb : b.Filed) (k : Nat) (s p : ℚ) : (b.updatePosition k s p).Filed := by
  have hkeys : (b.updatePosition k s p).positions.map (·.dataIndex) = b.positions.map (·.dataIndex) :=
    Keyed.map_key_modify_findIdx fun q hq => (Position.dataIndex_update q s p).trans hq
  have hmem : ∀ q ∈ (b.updatePosition k s p).positions, q ∈ b.positions ∨ ∃ q' ∈ b.positions, q = q'.update s p := by
    intro q hq
    obtain ⟨i, hi, rfl⟩ := List.mem_iff_getElem.1 hq
    have hi' : i < b.positions.length := by simpa [BackBroker.updatePosition] using hi
    by_cases he : b.positions.findIdx (·.dataIndex == k) = i
    · exact .inr ⟨b.positions[i], List.getElem_mem _, by simp [BackBroker.updatePosition, he]⟩
    · exact .inl (by simp [BackBroker.updatePosition, he])
  refine ⟨hkeys ▸ hb.nodup, fun q hq => ?_, fun q hq => ?_, fun q hq => ?_⟩
  · rcases hmem q hq with hq | ⟨q', hq', rfl⟩
    · exact hb.instrument q hq
    · rw [Position.instrument_update, Position.dataIndex_update]
      exact hb.instrument q' hq'
  · rcases hmem q hq with hq | ⟨q', hq', rfl⟩
    exacts [hb.size q hq, q'.size_update_cases s p]
  · rcases hmem q hq with hq | ⟨q', hq', rfl⟩
    exacts [hb.price q hq, (Position.update_avgPrice (hb.price q' hq') s p).1]

end Filed

theorem kept_filed : Kept fun b : BackBroker ℚ W => b.Filed where
  same b b' hs hb := hb.same hs
  enter b x dt _ hb := by
    have h1 : ((b.pay x.currency (x.size * x.price + x.commission)).ensurePosition x.order.dataIndex).Filed :=
      Filed.ensure (b := b.pay x.currency (x.size * x.price + x.commission)) ⟨hb.nodup, hb.instrument, hb.size, hb.price⟩ _
    have h2 := h1.updatePosition x.order.dataIndex x.size x.price
    unfold enter
    dsimp only
    obtain ⟨n, os, cs, heq⟩ := updateTrades_none _ x.order.dataIndex _ x.size x.price x.commission _ dt x.order.candidateId
    rw [heq]
    exact ⟨h2.nodup, h2.instrument, h2.size, h2.price⟩

theorem Filed.of_fresh (hf : b.Fresh) : b.Filed := by
  refine ⟨?_, ?_, ?_, ?_⟩ <;> simp [hf.positions]

/-- The positions that count. -/
def held (b : BackBroker ℚ W) : List (Position ℚ) := b.positions.filter (!·.isFlat)

/-- A loop that leaves flat positions out and adds the others up. -/
theorem foldlM_held {f : ℚ → Position ℚ → Except Error ℚ} {w : Position ℚ → ℚ} {ps : List (Position ℚ)}
    (hflat : ∀ value p, p.isFlat = true → f value p = .ok value)
    (hheld : ∀ value, ∀ p ∈ ps.filter (!·.isFlat), f value p = .ok (value + w p)) (value : ℚ) :
    ps.foldlM f value = .ok (value + ((ps.filter (!·.isFlat)).map w).sum) := by
  induction ps generalizing value with
  | nil => simp [pure, Except.pure]
  | cons p ps ih =>
    rw [List.foldlM_cons]
    by_cases hp : p.isFlat = true
    · rw [List.filter_cons_of_neg (by simp [hp])] at hheld ⊢
      rw [hflat value p hp]
      exact ih hheld value
    · rw [List.filter_cons_of_pos (by simp [hp])] at hheld ⊢
      rw [hheld value p (List.mem_cons_self ..), List.map_cons, List.sum_cons, ← add_assoc]
      exact ih (fun v q hq => hheld v q (List.mem_cons_of_mem _ hq)) _

/-- At the closes the feeds stand at, what is held is added to the cash. -/
theorem portfolioValue_eq {feeds : List (DataFeed ℚ)} {mark : Nat → ℚ}
    (hm : ∀ p ∈ b.held, MarkedAt feeds p.dataIndex (mark p.dataIndex)) :
    b.portfolioValue feeds = .ok (b.cash b.baseCcy + (b.held.map fun p => p.worth (mark p.dataIndex)).sum) := by
  refine foldlM_held (fun value p hp => if_pos hp) (fun value p hp => ?_) _
  have hflat : ¬ p.isFlat = true := by simpa using (List.mem_filter.1 hp).2
  obtain ⟨feed, hfeed, hclose⟩ := hm p hp
  rw [if_neg hflat, hfeed]
  dsimp only
  rw [hclose]
  unfold Position.worth
  cases p.instrument <;> rfl

end BackBroker
end StratForge
