import StratForge.Cerebro

/-!
# What a master bar delivers

After the gated advance on a bar of the master, a context feed has delivered the bars whose period has closed by
the close of that bar, and no other (`gated_advance`).
-/

namespace StratForge

variable {α W : Type}

namespace Clock

/-- A slot of a context feed between two bars. -/
structure Holds (f : DataFeed α) (s : Slot α) : Prop where
  data : s.feed.lines.data = f.lines.data
  timeframe : s.feed.timeframe = f.timeframe
  inStep : s.InStep

theorem Holds.gate {f : DataFeed α} {s s' : Slot α} {close : DateTime} (h : Holds f s) (hs : s.gate close = .ok s') :
    Holds f s' ∧ Slot.Gated close { s with feedAdvanced := false } s' := by
  have hg := Slot.gate_gated h.inStep hs
  exact ⟨⟨hg.bars.data.trans h.data, hg.bars.timeframe.trans h.timeframe, hg.inStep⟩, hg⟩

/-- The clock after `t` bars. -/
structure Along (feeds : DataFeed α × List (DataFeed α)) (t : Nat) (c : Clock α) : Prop where
  data : c.master.feed.lines.data = feeds.1.lines.data
  timeframe : c.master.feed.timeframe = feeds.1.timeframe
  index : c.master.feed.index = min t (feeds.1.size - 1)
  context : List.Forall₂ Holds feeds.2 c.context

theorem along_start (feeds : DataFeed α × List (DataFeed α)) : (Clock.start feeds).Along feeds 0 := by
  refine ⟨rfl, rfl, by rw [Nat.zero_min]; rfl, ?_⟩
  show List.Forall₂ _ _ (feeds.2.map _)
  rw [List.forall₂_map_right_iff]
  exact List.forall₂_same.2 fun f _ => ⟨rfl, rfl, rfl, Nat.zero_le _, rfl⟩

/-- What the gate does to the context feeds. -/
theorem tick_context {c c' : Clock α} {t : Nat} (h : c.tick t = .ok c') : c'.master.feed = c.master.feed ∧
    ((c.context = [] ∧ c'.context = []) ∨ ∃ close, c.execClose = .ok close ∧
      List.Forall₂ (fun s s' => s.gate close = .ok s') c.context c'.context) := by
  unfold tick at h
  dsimp only at h
  split at h
  · rename_i hnil
    cases h
    exact ⟨rfl, .inl ⟨List.isEmpty_iff.1 hnil, rfl⟩⟩
  · obtain ⟨close, hclose, h⟩ := bind_eq_ok.1 h
    obtain ⟨context, hcontext, h⟩ := bind_eq_ok.1 h
    cases h
    exact ⟨rfl, .inr ⟨close, hclose, Fold.mapM_ok hcontext⟩⟩

theorem Along.tick {feeds : DataFeed α × List (DataFeed α)} {t : Nat} {c c' : Clock α} (h : c.Along feeds t)
    (hc : c.tick t = .ok c') : c'.Along feeds t := by
  obtain ⟨hm, hctx⟩ := tick_context hc
  refine ⟨by rw [hm, h.data], by rw [hm, h.timeframe], by rw [hm, h.index], ?_⟩
  rcases hctx with ⟨hnil, hnil'⟩ | ⟨close, -, hgate⟩
  · rw [hnil', ← hnil]
    exact h.context
  · have := h.context
    generalize c.context = ss at this hgate
    generalize c'.context = ss' at hgate ⊢
    generalize feeds.2 = fs at this ⊢
    induction this generalizing ss' with
    | nil => cases hgate; exact .nil
    | cons hs _ ih =>
      cases hgate with
      | cons hg hgate => exact .cons (hs.gate hg).1 (ih _ hgate)

theorem Along.advance {feeds : DataFeed α × List (DataFeed α)} {t : Nat} {c : Clock α} (h : c.Along feeds t)
    (ht : t + 1 < feeds.1.size) : c.advance.Along feeds (t + 1) := by
  refine ⟨(Line.data_advance _).trans h.data, h.timeframe, ?_, h.context⟩
  have hidx := h.index
  show c.master.feed.lines.advance.idx = _
  rw [Line.idx_advance, h.data, DataFeed.size_eq] at *
  rw [DataFeed.index_eq] at hidx
  omega

end Clock

namespace Cerebro
variable [Arith α] (c : Cerebro α W) {feeds : DataFeed α × List (DataFeed α)} {b : BackBroker α W}

omit [Arith α] in
theorem clock_gate {n : Nat} {e e' : CerebroState α W} (h : gate n e = .ok e') : e.clock.tick n = .ok e'.clock := by
  obtain ⟨clock, hclock, h⟩ := bind_eq_ok.1 h
  cases h
  exact hclock

/-- After a bar the context feeds are where the gate has put them. -/
theorem bar_ok {n : Nat} {e e' : CerebroState α W} (h : c.bar n e = .ok e') : ∃ e₁, gate n e = .ok e₁ ∧
    e'.clock = if n + 1 < e₁.clock.master.feed.size then e₁.clock.advance else e₁.clock := by
  obtain ⟨e₁, h₁, h⟩ := bind_eq_ok.1 h
  refine ⟨e₁, h₁, ?_⟩
  cases h
  show (if n + 1 < e₁.clock.master.feed.size then _ else c.trade n e₁).clock = _
  split <;> rfl

theorem along_upTo : ∀ {t : Nat} {e : CerebroState α W}, t < feeds.1.size → c.upTo feeds b t = .ok e → e.clock.Along feeds t := by
  intro t
  induction t with
  | zero =>
    intro e _ h
    obtain ⟨-, -, h⟩ := bind_eq_ok.1 h
    obtain ⟨-, -, h⟩ := bind_eq_ok.1 h
    cases h
    exact Clock.along_start feeds
  | succ t ih =>
    intro e ht h
    obtain ⟨e₀, h₀, h⟩ := bind_eq_ok.1 h
    obtain ⟨e₁, h₁, h⟩ := c.bar_ok h
    have hal := (ih (by omega) h₀).tick (clock_gate h₁)
    rw [h, if_pos (by rw [DataFeed.size_eq, hal.data, ← DataFeed.size_eq]; exact ht)]
    exact hal.advance ht

/-- The gate at work on one context feed. -/
theorem gated_slot {t k : Nat} {e : CerebroState α W} {f : DataFeed α} (h : c.gated feeds b t = .ok e) (ht : t < feeds.1.size)
    (hf : feeds.2[k]? = some f) : ∃ e₀ s₀ s barOpen close, c.upTo feeds b t = .ok e₀ ∧ e₀.clock.context[k]? = some s₀ ∧
      e.clock.context[k]? = some s ∧ feeds.1.datetime.data[t]? = some barOpen ∧
      barClose feeds.1.timeframe barOpen = .ok close ∧ Clock.Holds f s ∧
      Slot.Gated close { s₀ with feedAdvanced := false } s := by
  obtain ⟨e₀, h₀, h⟩ := bind_eq_ok.1 h
  have hal := c.along_upTo ht h₀
  have htick := clock_gate h
  obtain ⟨s₀, hs₀, hholds⟩ := Fold.forall₂_get? hal.context hf
  obtain ⟨-, ⟨hnil, -⟩ | ⟨close, hclose, hgate⟩⟩ := Clock.tick_context htick
  · rw [hnil] at hs₀
    cases hs₀
  obtain ⟨s, hs, hgate⟩ := Fold.forall₂_get? hgate hs₀
  obtain ⟨hholds', hgated⟩ := hholds.gate hgate
  obtain ⟨barOpen, hopen, hclose⟩ := bind_eq_ok.1 hclose
  have hne : e₀.clock.context.isEmpty = false := by
    rw [List.isEmpty_eq_false_iff]
    rintro hnil
    rw [hnil] at hs₀
    cases hs₀
  rw [hne, if_neg Bool.false_ne_true, hal.timeframe] at hclose
  refine ⟨e₀, s₀, s, barOpen, close, h₀, hs₀, hs, ?_, hclose, hholds', hgated⟩
  rw [Line.at'_zero] at hopen
  have hidx := hal.index
  rw [DataFeed.index_eq] at hidx
  rw [DataFeed.size_eq] at ht hidx
  have hcur : e₀.clock.master.feed.datetime.current? = feeds.1.datetime.data[t]? := by
    show (e₀.clock.master.feed.lines.data.map _)[e₀.clock.master.feed.lines.idx]? = (feeds.1.lines.data.map _)[t]?
    rw [hal.data, hidx, show min t (feeds.1.lines.data.length - 1) = t by omega]
  rw [hcur] at hopen
  cases hget : feeds.1.datetime.data[t]? with
  | none => rw [hget] at hopen; cases hopen
  | some dt => rw [hget] at hopen; cases hopen; rfl

theorem upTo_succ_context {t : Nat} {e : CerebroState α W} (h : c.upTo feeds b (t + 1) = .ok e) :
    ∃ e₁, c.gated feeds b t = .ok e₁ ∧ e.clock.context = e₁.clock.context := by
  obtain ⟨e₀, h₀, h⟩ := bind_eq_ok.1 h
  obtain ⟨e₁, h₁, h⟩ := c.bar_ok h
  refine ⟨e₁, bind_eq_ok.2 ⟨e₀, h₀, h₁⟩, ?_⟩
  rw [h]
  split <;> rfl

/-- Bars of the master come in the order of time. -/
def Ordered (feed : DataFeed α) : Prop := feed.datetime.data.Pairwise (· ≤ ·)

omit [Arith α] in
theorem Ordered.le {feed : DataFeed α} (h : Ordered feed) {i j : Nat} {dt dt' : DateTime} (hij : i ≤ j)
    (hi : feed.datetime.data[i]? = some dt) (hj : feed.datetime.data[j]? = some dt') : dt ≤ dt' := by
  rcases hij.lt_or_eq with hlt | rfl
  · obtain ⟨hi', rfl⟩ := List.getElem?_eq_some_iff.1 hi
    obtain ⟨hj', rfl⟩ := List.getElem?_eq_some_iff.1 hj
    exact List.pairwise_iff_getElem.1 h i j hi' hj' hlt
  · rw [hi] at hj
    cases hj
    exact le_refl _

/-- Before a bar, what has been delivered has closed by the close of that bar. -/
theorem delivered_closed (hmaster : Ordered feeds.1) {k : Nat} {f : DataFeed α} (hf : feeds.2[k]? = some f) :
    ∀ {t : Nat} {e : CerebroState α W} {s : Slot α} {barOpen close : DateTime}, t < feeds.1.size → c.upTo feeds b t = .ok e →
      e.clock.context[k]? = some s → feeds.1.datetime.data[t]? = some barOpen → barClose feeds.1.timeframe barOpen = .ok close →
      ∀ i dt, f.datetime.data[i]? = some dt → i < s.barsDelivered → Closed f.timeframe close dt := by
  intro t
  induction t with
  | zero =>
    intro e s _ _ _ h hs _ _ i _ _ hi
    obtain ⟨-, -, h⟩ := bind_eq_ok.1 h
    obtain ⟨-, -, h⟩ := bind_eq_ok.1 h
    cases h
    have hs : (feeds.2.map fun f => ({ feed := f.home } : Slot α))[k]? = some s := hs
    rw [List.getElem?_map, hf] at hs
    cases hs
    exact absurd hi (Nat.not_lt_zero i)
  | succ t ih =>
    intro e s barOpen close ht h hs hopen hclose i dt hdt hi
    obtain ⟨e₁, h₁, hcontext⟩ := c.upTo_succ_context h
    obtain ⟨e₀, s₀, s', barOpen', close', h₀, hs₀, hs', hopen', hclose', hholds, hg⟩ := c.gated_slot h₁ (by omega) hf
    have hle : close' ≤ close := barClose_mono hclose' hclose (hmaster.le (Nat.le_succ t) hopen' hopen)
    rw [hcontext, hs'] at hs
    cases hs
    have hclosed : Closed f.timeframe close' dt := by
      rcases Nat.lt_or_ge i s₀.barsDelivered with hlt | hge
      · exact ih (by omega) h₀ hs₀ hopen' hclose' i dt hdt hlt
      · have hdata := hg.bars.data.symm.trans hholds.data
        have htf : s₀.feed.timeframe = f.timeframe := hg.bars.timeframe.symm.trans hholds.timeframe
        rw [← htf]
        refine hg.closed i dt hge hi ?_
        rw [← hdt]
        exact congrArg (fun l : List (Row α) => (l.map Row.datetime)[i]?) hdata
    exact hclosed.mono (le_refl _) hle

/-- With timeframes of the vocabulary the gate throws on no bar. -/
theorem gated_returns {t : Nat} {e : CerebroState α W} (h : c.upTo feeds b t = .ok e) (ht : t < feeds.1.size)
    (hm : feeds.1.timeframe.Supported) (hs : ∀ f ∈ feeds.2, f.timeframe.Supported) : ∃ e', c.gated feeds b t = .ok e' := by
  have hal := c.along_upTo ht h
  suffices hclock : ∃ clock, e.clock.tick t = .ok clock by
    obtain ⟨clock, hclock⟩ := hclock
    exact ⟨_, bind_eq_ok.2 ⟨e, h, bind_eq_ok.2 ⟨clock, hclock, rfl⟩⟩⟩
  have hclose : ∃ close, e.clock.execClose = .ok close := by
    have hpos : e.clock.master.feed.datetime.current? ≠ none := by
      rw [Ne, Line.current?_eq_none]
      show ¬ e.clock.master.feed.lines.data.map _ = []
      rw [hal.data, List.map_eq_nil_iff]
      rintro hnil
      rw [DataFeed.size_eq, hnil] at ht
      exact absurd ht (Nat.not_lt_zero t)
    obtain ⟨barOpen, hopen⟩ := Option.ne_none_iff_exists'.1 hpos
    unfold Clock.execClose
    rw [Line.at'_zero, hopen, hal.timeframe]
    dsimp only [bind, Except.bind]
    split
    exacts [⟨_, rfl⟩, barClose_returns hm barOpen]
  obtain ⟨close, hclose⟩ := hclose
  have hgates : ∃ ss, e.clock.context.mapM (Slot.gate close) = .ok ss := by
    refine Fold.mapM_returns fun s hmem => ?_
    obtain ⟨f, hf, hholds⟩ := Fold.forall₂_mem hal.context hmem
    exact Slot.gateLoop_returns close _ (hholds.timeframe ▸ hs f hf)
  obtain ⟨ss, hss⟩ := hgates
  unfold Clock.tick
  dsimp only
  split
  exacts [⟨_, rfl⟩, ⟨_, bind_eq_ok.2 ⟨close, hclose, bind_eq_ok.2 ⟨ss, hss, rfl⟩⟩⟩]

/-- So the run comes to its end if it starts. -/
theorem upTo_returns {e₀ : CerebroState α W} (h : c.start feeds b = .ok e₀) (hm : feeds.1.timeframe.Supported)
    (hs : ∀ f ∈ feeds.2, f.timeframe.Supported) {n : Nat} (hn : n ≤ feeds.1.size) : ∃ e, c.upTo feeds b n = .ok e := by
  induction n with
  | zero => exact ⟨e₀, h⟩
  | succ n ih =>
    obtain ⟨e, he⟩ := ih (by omega)
    obtain ⟨e', he'⟩ := c.gated_returns he hn hm hs
    obtain ⟨e₁, h₁, hgate⟩ := bind_eq_ok.1 he'
    rw [he] at h₁
    cases h₁
    exact ⟨_, bind_eq_ok.2 ⟨e, he, bind_eq_ok.2 ⟨e', hgate, rfl⟩⟩⟩

theorem start_of_upTo {n : Nat} {e : CerebroState α W} (h : c.upTo feeds b n = .ok e) : ∃ e₀, c.start feeds b = .ok e₀ := by
  induction n generalizing e with
  | zero => exact ⟨e, h⟩
  | succ n ih =>
    obtain ⟨e', he', -⟩ := bind_eq_ok.1 h
    exact ih he'

omit [Arith α] in
theorem checkPlan_eq_ok {clock : Clock α} : clock.checkPlan = .ok () ↔
    ∀ s ∈ clock.context, finerThan s.feed.timeframe clock.master.feed.timeframe = false := by
  unfold Clock.checkPlan
  rw [Fold.forM_eq_ok]
  constructor
  · intro h s hs
    obtain ⟨i, hi, rfl⟩ := List.getElem_of_mem hs
    have hstep := h i (List.mem_range.2 hi)
    rw [List.getElem?_eq_getElem hi] at hstep
    by_contra hf
    rw [Bool.not_eq_false] at hf
    simp [hf] at hstep
  · intro h i hi
    rw [List.mem_range] at hi
    rw [List.getElem?_eq_getElem hi]
    simp [h _ (List.getElem_mem hi)]

/-- A run over bars has found no context feed finer than the master. -/
theorem not_finer_of_run {e : CerebroState α W} (h : c.run feeds b = .ok e) (hne : feeds.1.size ≠ 0) :
    ∀ f ∈ feeds.2, finerThan f.timeframe feeds.1.timeframe = false := by
  rw [run, if_neg hne] at h
  obtain ⟨e₀, h₀⟩ := c.start_of_upTo h
  obtain ⟨_, hplan, -⟩ := bind_eq_ok.1 h₀
  intro f hf
  exact checkPlan_eq_ok.1 hplan _ (List.mem_map_of_mem (f := fun f => ({ feed := f.home } : Slot α)) hf)

omit c in
/-- With no other strategy to wait for, that is all that can stop a run. -/
theorem silent_returns {b : BackBroker α Unit} (hm : feeds.1.timeframe.Supported)
    (hs : ∀ f ∈ feeds.2, f.timeframe.Supported) (hf : ∀ f ∈ feeds.2, finerThan f.timeframe feeds.1.timeframe = false) :
    ∃ e, silent.run feeds b = .ok e := by
  unfold run
  split
  · exact ⟨_, rfl⟩
  · have hplan : (Clock.start feeds).checkPlan = .ok () := by
      rw [checkPlan_eq_ok]
      rintro s hs
      obtain ⟨f, hmem, rfl⟩ := List.mem_map.1 hs
      exact hf f hmem
    have hwarm : ∀ w, (silent : Cerebro α Unit).checkWarmup (Clock.start feeds) w = .ok () := fun w => by
      refine Fold.forM_eq_ok.2 fun si _ => Fold.forM_eq_ok.2 fun k _ => ?_
      split
      · rfl
      · exact if_neg (Nat.not_lt_zero _)
    exact upTo_returns _ (bind_eq_ok.2 ⟨(), hplan, bind_eq_ok.2 ⟨(), hwarm _, rfl⟩⟩) hm hs le_rfl

/-- The first `n` bars of a context feed are delivered if they have closed with the last bar of the master. -/
theorem delivered_of_closed {e : CerebroState α W} (h : c.run feeds b = .ok e) {t : Nat} (ht : feeds.1.size = t + 1)
    {k : Nat} {f : DataFeed α} (hf : feeds.2[k]? = some f) {barOpen close : DateTime}
    (hopen : feeds.1.datetime.data[t]? = some barOpen) (hclose : barClose feeds.1.timeframe barOpen = .ok close) {n : Nat}
    (hn : n ≤ f.lines.data.length)
    (hclosed : ∀ i dt, i < n → f.datetime.data[i]? = some dt → Closed f.timeframe close dt) :
    ∃ s, e.clock.context[k]? = some s ∧ s.feed.lines.data = f.lines.data ∧ n ≤ s.barsDelivered := by
  rw [run, if_neg (by omega), ht] at h
  obtain ⟨e₁, h₁, hcontext⟩ := c.upTo_succ_context h
  obtain ⟨e₀, s₀, s, barOpen', close', -, -, hs, hopen', hclose', hholds, hg⟩ := c.gated_slot h₁ (by omega) hf
  obtain rfl : barOpen = barOpen' := Option.some.inj (hopen.symm.trans hopen')
  obtain rfl : close = close' := Except.ok.inj (hclose.symm.trans hclose')
  refine ⟨s, by rw [hcontext, hs], hholds.data, ?_⟩
  by_contra hlt
  rw [not_le] at hlt
  have htimes : s₀.feed.datetime.data = f.datetime.data :=
    congrArg (List.map Row.datetime) (hg.bars.data.symm.trans hholds.data)
  have htf : s₀.feed.timeframe = f.timeframe := hg.bars.timeframe.symm.trans hholds.timeframe
  have hlen : s.barsDelivered < f.datetime.data.length := by
    simp only [DataFeed.datetime, Line.map, List.length_map]
    omega
  have hdt := List.getElem?_eq_getElem hlen
  refine hg.next _ ((congrArg (·[s.barsDelivered]?) htimes).trans hdt) ?_
  show Closed s₀.feed.timeframe close _
  rw [htf]
  exact hclosed _ _ hlt hdt

/-- On a bar of the master what has been delivered is what has closed by the close of the bar. -/
theorem visible (hmaster : Ordered feeds.1) {k : Nat} {f : DataFeed α} (hf : feeds.2[k]? = some f) (hordered : Ordered f)
    {t : Nat} (ht : t < feeds.1.size) {e : CerebroState α W} (h : c.gated feeds b t = .ok e) {s : Slot α}
    (hs : e.clock.context[k]? = some s) {barOpen close : DateTime} (hopen : feeds.1.datetime.data[t]? = some barOpen)
    (hclose : barClose feeds.1.timeframe barOpen = .ok close) (i : Nat) (dt : DateTime) (hdt : f.datetime.data[i]? = some dt) :
    i < s.barsDelivered ↔ Closed f.timeframe close dt := by
  obtain ⟨e₀, s₀, s', barOpen', close', h₀, hs₀, hs', hopen', hclose', hholds, hg⟩ := c.gated_slot h ht hf
  rw [hs] at hs'
  cases hs'
  rw [hopen] at hopen'
  cases hopen'
  rw [hclose] at hclose'
  cases hclose'
  have htimes : s₀.feed.datetime.data = f.datetime.data :=
    congrArg (List.map Row.datetime) (hg.bars.data.symm.trans hholds.data)
  have htf : s₀.feed.timeframe = f.timeframe := hg.bars.timeframe.symm.trans hholds.timeframe
  constructor
  · intro hi
    rcases Nat.lt_or_ge i s₀.barsDelivered with hlt | hge
    · exact c.delivered_closed hmaster hf ht h₀ hs₀ hopen hclose i dt hdt hlt
    · rw [← htf]
      exact hg.closed i dt hge hi (by rw [← hdt]; exact congrArg (·[i]?) htimes)
  · intro hc
    by_contra hge
    have hlt : s.barsDelivered < f.datetime.data.length :=
      (Nat.not_lt.1 hge).trans_lt (List.getElem?_eq_some_iff.1 hdt).1
    have hnext := hg.next _ ((congrArg (·[s.barsDelivered]?) htimes).trans (List.getElem?_eq_getElem hlt))
    rw [show ({ s₀ with feedAdvanced := false } : Slot α).feed.timeframe = f.timeframe from htf] at hnext
    exact hnext (hc.mono (hordered.le (Nat.not_lt.1 hge) (List.getElem?_eq_getElem hlt) hdt) (le_refl _))

/-- After the gated advance on bar `t` of the master, a context feed has delivered the bars that have closed by the
close of that bar: no other, and none is missing. -/
theorem gated_advance (hmaster : Ordered feeds.1) {k : Nat} {f : DataFeed α} (hf : feeds.2[k]? = some f)
    (hordered : Ordered f) {t : Nat} (ht : t < feeds.1.size) {e : CerebroState α W} (h : c.gated feeds b t = .ok e) :
    ∃ e₀ s₀ s barOpen close, c.upTo feeds b t = .ok e₀ ∧ e₀.clock.context[k]? = some s₀ ∧ e.clock.context[k]? = some s ∧
      feeds.1.datetime.data[t]? = some barOpen ∧ barClose feeds.1.timeframe barOpen = .ok close ∧
      s.feed.lines.data = f.lines.data ∧ s.barsDelivered ≤ f.size ∧
      (∀ i dt, f.datetime.data[i]? = some dt → (i < s.barsDelivered ↔ Closed f.timeframe close dt)) ∧
      (∀ t' ≤ t, ∀ e' s', c.gated feeds b t' = .ok e' → e'.clock.context[k]? = some s' →
        s'.barsDelivered ≤ s.barsDelivered) ∧
      s₀.barsDelivered ≤ s.barsDelivered ∧ (s.feedAdvanced = true ↔ s₀.barsDelivered < s.barsDelivered) ∧
      s.feed.index = s.barsDelivered - 1 := by
  obtain ⟨e₀, s₀, s, barOpen, close, h₀, hs₀, hs, hopen, hclose, hholds, hg⟩ := c.gated_slot h ht hf
  have hsize : s.barsDelivered ≤ f.size := by
    rw [DataFeed.size_eq, ← hholds.data]
    exact hholds.inStep.le
  have hvisible := c.visible hmaster hf hordered ht h hs hopen hclose
  refine ⟨e₀, s₀, s, barOpen, close, h₀, hs₀, hs, hopen, hclose, hholds.data, hsize, hvisible, fun t' ht' e' s' h' hs' => ?_,
    hg.le, by rw [hg.advanced]; simp, hholds.inStep.index⟩
  -- what was visible on an earlier bar still is
  obtain ⟨-, -, s₁, barOpen', close', -, -, hs₁, hopen', hclose', hholds', -⟩ := c.gated_slot h' (by omega) hf
  rw [hs'] at hs₁
  cases hs₁
  have hvisible' := c.visible hmaster hf hordered (by omega) h' hs' hopen' hclose'
  by_contra hlt
  have hlen : s.barsDelivered < f.datetime.data.length := by
    have := hholds'.inStep.le
    rw [hholds'.data] at this
    simp only [DataFeed.datetime, Line.map, List.length_map]
    omega
  have hdt := List.getElem?_eq_getElem hlen
  have hclosed := (hvisible' _ _ hdt).1 (Nat.not_le.1 hlt)
  exact lt_irrefl _ ((hvisible _ _ hdt).2 (hclosed.mono (le_refl _) (barClose_mono hclose' hclose (hmaster.le ht' hopen' hopen))))

/-- The last hour of a day: the bar of the day is delivered when it closes. -/
theorem gated_advance_daily :
    let hour : Int := 3600 * nsPerSecond
    ∃ e s, silent.gated (.timed ⟨.Minutes, 60⟩ [22 * hour, 23 * hour], [.timed ⟨.Days, 1⟩ [0, 24 * hour]])
      (BackBroker.init .USD (1000 : ℚ) none ()) 1 = .ok e ∧ e.clock.context[0]? = some s ∧ s.barsDelivered = 1 := by
  intro hour
  let feeds : DataFeed ℚ × List (DataFeed ℚ) :=
    (.timed ⟨.Minutes, 60⟩ [22 * hour, 23 * hour], [.timed ⟨.Days, 1⟩ [0, 24 * hour]])
  have hok : ∃ e, silent.gated feeds (BackBroker.init .USD (1000 : ℚ) none ()) 1 = .ok e := by
    have hok : (silent.gated feeds (BackBroker.init .USD (1000 : ℚ) none ()) 1).isOk = true := by decide +kernel
    cases hrun : silent.gated feeds (BackBroker.init .USD (1000 : ℚ) none ()) 1 with
    | error err => rw [hrun] at hok; cases hok
    | ok e => exact ⟨e, rfl⟩
  obtain ⟨e, he⟩ := hok
  obtain ⟨-, -, s, barOpen, close, -, -, hs, hopen, hclose, -, -, hvisible, -⟩ :=
    @gated_advance _ _ _ silent feeds _ (by unfold Ordered; decide +kernel) 0 _ rfl (by unfold Ordered; decide +kernel) _
      (by decide +kernel) _ he
  cases hopen
  cases hclose
  refine ⟨e, s, he, hs, ?_⟩
  have h0 : 0 < s.barsDelivered := (hvisible 0 _ rfl).2 ⟨24 * hour, by decide +kernel, by decide +kernel⟩
  have h1 : ¬ 1 < s.barsDelivered := fun h => by
    obtain ⟨stop, hstop, hle⟩ := (hvisible 1 _ rfl).1 h
    cases hstop
    exact absurd hle (by decide +kernel)
  omega

end Cerebro

end StratForge
