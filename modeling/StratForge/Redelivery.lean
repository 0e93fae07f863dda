import StratForge.LiveFill

/-!
# Reports that come again

A report is recognised as a duplicate by the stored snapshot of its order: `record_live_fill` books
what the report has beyond it. `redelivery_harmless_iff`: a session meets the law of duplicates (a
report that comes again changes nothing, no order is filled beyond its size, a report that repeats the
size charges what the commission has grown by) exactly when every report that comes again meets a
snapshot of its size, every report that is booked fits into what is left of its order, and none that
repeats the size has a higher commission.
-/

namespace StratForge

variable {W : Type}

namespace BackBroker
variable {h : LiveHooks ℚ W} {b b' : BackBroker ℚ (Live ℚ W)} {past : List (Trade ℚ)} {op : LiveOp ℚ}

/-- `P` holds at every step of a session, of the reports before it, the broker as it is then and the step. -/
def AlongLive (h : LiveHooks ℚ W) (P : List (Trade ℚ) → BackBroker ℚ (Live ℚ W) → LiveOp ℚ → Prop) :
    List (Trade ℚ) → BackBroker ℚ (Live ℚ W) → List (LiveOp ℚ) → Prop
  | _, _, [] => True
  | past, b, op :: ops => P past b op ∧
    AlongLive h P (match op with | .fill t => past ++ [t] | _ => past) (b.liveStep h op) ops

/-- Cash, positions, trades and the record of the order are the same. -/
structure Untouched (b b' : BackBroker ℚ (Live ℚ W)) (id : Nat) : Prop where
  cash : b'.cash = b.cash
  positions : b'.positions = b.positions
  openTrades : b'.openTrades = b.openTrades
  closedTrades : b'.closedTrades = b.closedTrades
  record : b'.findOrder id = b.findOrder id

/-- No order is filled beyond its size. -/
def Within (b : BackBroker ℚ (Live ℚ W)) : Prop := ∀ id r, b.findOrder id = some r → r.executedSize ≤ r.size

/-- The law of duplicates at one step. -/
structure Harmless (h : LiveHooks ℚ W) (past : List (Trade ℚ)) (b : BackBroker ℚ (Live ℚ W)) (op : LiveOp ℚ) : Prop where
  again : ∀ t, op = .fill t → t ∈ past → Untouched b (b.liveStep h op) t.id
  within : (b.liveStep h op).Within
  charged : ∀ t o, op = .fill t → b.findOrder t.id = some o → b.Repeats t → b.bookedCommission t.id < t.commission →
    (b.liveStep h op).cash (b.settleCcy o.dataIndex) =
      b.cash (b.settleCcy o.dataIndex) - (t.commission - b.bookedCommission t.id)

/-- What the report asks of the broker it meets. -/
structure Expected (past : List (Trade ℚ)) (b : BackBroker ℚ (Live ℚ W)) (t : Trade ℚ) (o : Order ℚ) : Prop where
  again : t ∈ past → b.Repeats t
  fits : ¬ b.Repeats t → o.executedSize + |t.size - b.bookedSize t.id| ≤ o.size
  commission : b.Repeats t → t.commission ≤ b.bookedCommission t.id

/-- The condition at one step: on the reports, and on the sizes of the orders submitted so far. -/
structure Foreseen (h : LiveHooks ℚ W) (past : List (Trade ℚ)) (b : BackBroker ℚ (Live ℚ W)) (op : LiveOp ℚ) : Prop where
  report : ∀ t o, op = .fill t → b.findOrder t.id = some o → Expected past b t o
  sizes : ∀ o turn seen, Note.submitted o turn seen ∈ (b.liveStep h op).journal → 0 ≤ o.size

/-- Every submission has its record, and executed sizes add up absolute values. -/
structure Tallied (b : BackBroker ℚ (Live ℚ W)) : Prop where
  numbered : b.Numbered
  nonneg : ∀ id r, b.findOrder id = some r → 0 ≤ r.executedSize
  logged : ∀ o turn seen, Note.submitted o turn seen ∈ b.journal → ∃ r, b.findOrder o.id = some r ∧ r.size = o.size

/-- What one step does to the records, booked or not: the order of a booked report has its executed size
raised, the others keep theirs, new ones have none. -/
theorem liveStep_records (hh : LiveTame h) (hb : b.Tallied) (op : LiveOp ℚ) {id : Nat} {r' : Order ℚ}
    (hf' : (b.liveStep h op).findOrder id = some r') :
    (∃ r, b.findOrder id = some r ∧ r'.size = r.size ∧ (r'.executedSize = r.executedSize ∨
      ∃ t, op = .fill t ∧ t.id = id ∧ ¬ b.Repeats t ∧
        r'.executedSize = r.executedSize + |t.size - b.bookedSize id|)) ∨
    r'.executedSize = 0 ∧
      ∃ o turn seen, Note.submitted o turn seen ∈ (b.liveStep h op).journal ∧ r'.size = o.size := by
  rcases liveStep_cases hh hb.numbered op with ⟨c, _, hk⟩ | ⟨t, o, hop, hf, hrep, hk⟩ | ⟨t, o, _, _, _, heq⟩ |
    ⟨t, _, _, heq⟩ | ⟨idx, _, heq⟩
  · cases hf : b.findOrder id with
    | none => exact .inr ⟨(hk.new id r' hf' hf).1, (hk.new id r' hf' hf).2.1⟩
    | some r =>
      obtain ⟨x, hx, hs, -⟩ := hk.record id r hf
      obtain rfl := Option.some.inj (hx.symm.trans hf')
      exact .inl ⟨r, rfl, hs.size, .inl hs.executedSize⟩
  · by_cases hid : id = t.id
    · subst hid
      obtain ⟨x, hx, hs, hexec, -⟩ := hk.record
      obtain rfl := Option.some.inj (hx.symm.trans hf')
      exact .inl ⟨o, hf, hs.size, .inr ⟨t, hop, rfl, hrep, hexec⟩⟩
    · cases hf : b.findOrder id with
      | none => exact .inr ⟨(hk.new id r' hf' hf).1, (hk.new id r' hf' hf).2.1⟩
      | some r =>
        obtain ⟨x, hx, hs, -⟩ := hk.other id r hid hf
        obtain rfl := Option.some.inj (hx.symm.trans hf')
        exact .inl ⟨r, rfl, hs.size, .inl hs.executedSize⟩
  · rw [heq] at hf'; exact .inl ⟨r', hf', rfl, .inl rfl⟩
  · rw [heq] at hf'; exact .inl ⟨r', hf', rfl, .inl rfl⟩
  · rw [heq] at hf'; exact .inl ⟨r', hf', rfl, .inl rfl⟩

theorem liveStep_tallied (hh : LiveTame h) (hb : b.Tallied) (op : LiveOp ℚ) : (b.liveStep h op).Tallied := by
  refine ⟨liveStep_numbered hh hb.numbered op, fun id r' hf' => ?_, fun o turn seen ho => ?_⟩
  · rcases liveStep_records hh hb op hf' with ⟨r, hf, -, heq | ⟨t, -, -, -, heq⟩⟩ | ⟨heq, -⟩
    · rw [heq]; exact hb.nonneg id r hf
    · rw [heq]
      have := hb.nonneg id r hf
      positivity
    · rw [heq]
  · have old : (∀ id r, b.findOrder id = some r → ∃ r', (b.liveStep h op).findOrder id = some r' ∧ r'.size = r.size) →
        Note.submitted o turn seen ∈ b.journal → ∃ r, (b.liveStep h op).findOrder o.id = some r ∧ r.size = o.size := by
      intro hkeep hmem
      obtain ⟨r, hf, hsz⟩ := hb.logged o turn seen hmem
      obtain ⟨r', hf', hsz'⟩ := hkeep _ r hf
      exact ⟨r', hf', hsz'.trans hsz⟩
    rcases liveStep_cases hh hb.numbered op with ⟨c, _, hk⟩ | ⟨t, o', hop, hf, hrep, hk⟩ | ⟨t, o', _, _, _, heq⟩ |
      ⟨t, _, _, heq⟩ | ⟨idx, _, heq⟩
    · rcases hk.logged o turn seen ho with hmem | hr
      · refine old (fun id r hf => ?_) hmem
        obtain ⟨r', hf', hs, -⟩ := hk.record id r hf
        exact ⟨r', hf', hs.size⟩
      · exact hr
    · rcases hk.logged o turn seen ho with hmem | hr
      · refine old (fun id r hf' => ?_) hmem
        by_cases hid : id = t.id
        · subst hid
          obtain rfl := Option.some.inj (hf.symm.trans hf')
          obtain ⟨x, hx, hs, -⟩ := hk.record
          exact ⟨x, hx, hs.size⟩
        · obtain ⟨r', hr', hs, -⟩ := hk.other id r hid hf'
          exact ⟨r', hr', hs.size⟩
      · exact hr
    · rw [heq] at ho ⊢; exact hb.logged o turn seen ho
    · rw [heq] at ho ⊢; exact hb.logged o turn seen ho
    · rw [heq] at ho ⊢; exact hb.logged o turn seen ho

/-- One step, from a broker that has no order filled beyond its size. -/
theorem harmless_iff (hh : LiveTame h) (hb : b.Tallied) (hwithin : b.Within) (past : List (Trade ℚ)) (op : LiveOp ℚ) :
    Harmless h past b op ↔ Foreseen h past b op := by
  have hb' := liveStep_tallied hh hb op
  constructor
  · intro hl
    refine ⟨fun t o hop hf => ?_, fun o turn seen ho => ?_⟩
    · subst hop
      refine ⟨fun hpast => ?_, fun hrep => ?_, fun hrep => ?_⟩
      · -- a booking would have raised the executed size
        by_contra hrep
        have hk := recordLiveFill_books hh hb.numbered hf hrep
        obtain ⟨r, hr, -, hexec, -⟩ := hk.record
        have hsame : (b.liveStep h (.fill t)).findOrder t.id = some o := (hl.again t rfl hpast).record.trans hf
        obtain rfl := Option.some.inj (hr.symm.trans hsame)
        have hzero : Arith.abs (t.size - b.bookedSize t.id) = 0 := by linarith
        refine hrep ?_
        unfold Repeats
        rw [hzero]
        norm_num
      · obtain ⟨r, hr, hs, hexec, -⟩ := (recordLiveFill_books hh hb.numbered hf hrep).record
        have := hl.within t.id r hr
        rwa [hexec, hs.size] at this
      · by_contra hlt
        have hc := hl.charged t o rfl hf hrep (not_le.1 hlt)
        have heq : b.liveStep h (.fill t) = b.setSnapshot t.id (some t) := recordLiveFill_repeated hf hrep
        rw [heq] at hc
        have hc : b.cash _ = b.cash _ - (t.commission - b.bookedCommission t.id) := hc
        linarith [not_le.1 hlt]
    · obtain ⟨r, hf, hsz⟩ := hb'.logged o turn seen ho
      rw [← hsz]
      exact (hb'.nonneg _ r hf).trans (hl.within _ r hf)
  · intro hc
    refine ⟨?_, ?_, ?_⟩
    · rintro t rfl hpast
      cases hf : b.findOrder t.id with
      | none =>
        have heq : b.liveStep h (.fill t) = b := recordLiveFill_unknown hf
        rw [heq]
        exact ⟨rfl, rfl, rfl, rfl, rfl⟩
      | some o =>
        have heq : b.liveStep h (.fill t) = b.setSnapshot t.id (some t) :=
          recordLiveFill_repeated hf ((hc.report t o rfl hf).again hpast)
        rw [heq]
        exact ⟨rfl, rfl, rfl, rfl, rfl⟩
    · intro id r' hf'
      rcases liveStep_records hh hb op hf' with ⟨r, hf, hsz, hexec | ⟨t, rfl, rfl, hrep, hexec⟩⟩ |
        ⟨hexec, o, turn, seen, ho, hsz⟩
      · rw [hexec, hsz]; exact hwithin id r hf
      · rw [hexec, hsz]; exact (hc.report t r rfl hf).fits hrep
      · rw [hexec, hsz]; exact hc.sizes o turn seen ho
    · rintro t o rfl hf hrep hlt
      exact absurd ((hc.report t o rfl hf).commission hrep) (not_le.2 hlt)

theorem alongLive_iff (hh : LiveTame h) (ops : List (LiveOp ℚ)) (hb : b.Tallied) (hwithin : b.Within)
    (past : List (Trade ℚ)) : AlongLive h (Harmless h) past b ops ↔ AlongLive h (Foreseen h) past b ops := by
  induction ops generalizing b past with
  | nil => exact Iff.rfl
  | cons op ops ih =>
    have hstep := harmless_iff hh hb hwithin past op
    constructor
    · rintro ⟨hl, hrest⟩
      exact ⟨hstep.1 hl, (ih (liveStep_tallied hh hb op) hl.within _).1 hrest⟩
    · rintro ⟨hc, hrest⟩
      have hl := hstep.2 hc
      exact ⟨hl, (ih (liveStep_tallied hh hb op) hl.within _).2 hrest⟩

end BackBroker

open BackBroker in
/-- In every session from a fresh broker: the law of duplicates holds at every step if and only if every
step is as foreseen. -/
theorem redelivery_harmless_iff (L : LiveListener ℚ W) (fuel : Nat) {b₀ : BackBroker ℚ (Live ℚ W)}
    (hfresh : b₀.FreshLive) (ops : List (LiveOp ℚ)) :
    AlongLive (L.hooks fuel) (Harmless (L.hooks fuel)) [] b₀ ops ↔
      AlongLive (L.hooks fuel) (Foreseen (L.hooks fuel)) [] b₀ ops := by
  have hnone : ∀ id, b₀.findOrder id = none := fun id => by rw [findOrder, hfresh.allOrders]; rfl
  refine alongLive_iff (L.tame_hooks fuel) ops ⟨.of_fresh hfresh.toFresh, fun id r hf => ?_, fun o turn seen ho => ?_⟩
    (fun id r hf => ?_) []
  · rw [hnone] at hf; cases hf
  · rw [hfresh.journal] at ho; cases ho
  · rw [hnone] at hf; cases hf

/-- The report of a part of an order comes twice. -/
theorem redelivery_harmless_iff_partial : BackBroker.liveFunded.FreshLive ∧
    (BackBroker.AlongLive (LiveListener.silent.hooks 1) (BackBroker.Harmless (LiveListener.silent.hooks 1)) []
      BackBroker.liveFunded [.cmd (.buy 2 0 none .Market 0), .fill (.ofFill 1 1 100 1), .fill (.ofFill 1 1 100 1)] ↔
    BackBroker.AlongLive (LiveListener.silent.hooks 1) (BackBroker.Foreseen (LiveListener.silent.hooks 1)) []
      BackBroker.liveFunded [.cmd (.buy 2 0 none .Market 0), .fill (.ofFill 1 1 100 1), .fill (.ofFill 1 1 100 1)]) :=
  ⟨BackBroker.freshLive_liveFunded, redelivery_harmless_iff .silent 1 BackBroker.freshLive_liveFunded _⟩

/-- The report that completes an order comes twice and is booked twice; and a report that repeats the
size of a partial fill with a commission of 5 instead of 1 is not charged. -/
theorem duplicate_is_booked :
    ((BackBroker.liveFunded.liveRun (LiveListener.silent.hooks 1)
      [.cmd (.buy 1 0 none .Market 0), .fill (.ofFill 1 1 100 0)]).cash .USD = 900 ∧
    (BackBroker.liveFunded.liveRun (LiveListener.silent.hooks 1)
      [.cmd (.buy 1 0 none .Market 0), .fill (.ofFill 1 1 100 0), .fill (.ofFill 1 1 100 0)]).cash .USD = 800 ∧
    ((BackBroker.liveFunded.liveRun (LiveListener.silent.hooks 1)
      [.cmd (.buy 1 0 none .Market 0), .fill (.ofFill 1 1 100 0), .fill (.ofFill 1 1 100 0)]).findOrder 1).map
        (fun o => (o.executedSize, o.size)) = some (2, 1)) ∧
    (BackBroker.liveFunded.liveRun (LiveListener.silent.hooks 1)
      [.cmd (.buy 2 0 none .Market 0), .fill (.ofFill 1 1 100 1)]).cash .USD = 899 ∧
    (BackBroker.liveFunded.liveRun (LiveListener.silent.hooks 1)
      [.cmd (.buy 2 0 none .Market 0), .fill (.ofFill 1 1 100 1), .fill (.ofFill 1 1 100 5)]).cash .USD = 899 := by
  decide +kernel

end StratForge
