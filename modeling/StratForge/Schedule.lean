import StratForge.Delivery

/-!
# The schedule of a run

Which bars of a context feed the engine has delivered before a bar of the master is settled by the timestamps of the
two feeds alone (`delivered`); the slots of the clock follow it (`upTo_slot`, `gated_slots`).
-/

namespace StratForge

variable {α W : Type}

/-- `Closed`, as the gate decides it. -/
def closedBy (tf : TimeFrameCompression) (close dt : DateTime) : Bool :=
  match periodEnd dt tf with
  | .ok e => decide (e ≤ close)
  | .error _ => false

theorem closedBy_eq_true {tf : TimeFrameCompression} {close dt : DateTime} : closedBy tf close dt = true ↔ Closed tf close dt := by
  unfold closedBy Closed
  cases periodEnd dt tf <;> simp

/-- The bars of a context feed that a bar of the master releases when `d` of them are delivered. -/
def released (master feed : DataFeed α) (bar d : Nat) : Nat :=
  match master.datetime.data[bar]? with
  | none => 0
  | some barOpen =>
    match barClose master.timeframe barOpen with
    | .error _ => 0
    | .ok close => ((feed.datetime.data.drop d).takeWhile (closedBy feed.timeframe close)).length

/-- The bars of a context feed that are delivered before bar `n` of the master. -/
def delivered (master feed : DataFeed α) : Nat → Nat
  | 0 => 0
  | n + 1 => delivered master feed n + released master feed n (delivered master feed n)

theorem delivered_le_succ (master feed : DataFeed α) (n : Nat) : delivered master feed n ≤ delivered master feed (n + 1) :=
  Nat.le_add_right ..

/-! ### One flag a bar -/

/-- The cursor of a feed on the bars on which its flag is up, for a feed that has delivered `d n` bars before bar `n`. -/
def flagged (d : Nat → Nat) : Nat → List Nat
  | 0 => []
  | n + 1 => flagged d n ++ if d n < d (n + 1) then [d (n + 1) - 1] else []

theorem length_flagged_le {d : Nat → Nat} (hd : ∀ n, d n ≤ d (n + 1)) (n : Nat) : (flagged d n).length ≤ d n := by
  induction n with
  | zero => exact Nat.zero_le _
  | succ n ih =>
    have := hd n
    rw [flagged, List.length_append]
    split_ifs
    · rw [List.length_singleton]; omega
    · rw [List.length_nil]; omega

/-- The flag tells of every bar as long as no two come at once; one that is missed is missed for good. -/
theorem flagged_eq_range {d : Nat → Nat} (h0 : d 0 = 0) (hd : ∀ n, d n ≤ d (n + 1)) (n : Nat) :
    flagged d n = List.range (d n) ↔ ∀ m < n, d (m + 1) ≤ d m + 1 := by
  induction n with
  | zero => simp [flagged, h0]
  | succ n ih =>
    have hle := length_flagged_le hd n
    have hstep := hd n
    constructor
    · intro h
      have hlen := congrArg List.length h
      rw [flagged, List.length_append, List.length_range] at hlen
      have hone : d (n + 1) ≤ d n + 1 ∧ (flagged d n).length = d n := by
        split_ifs at hlen with hlt
        · rw [List.length_singleton] at hlen; omega
        · rw [List.length_nil] at hlen; omega
      have hn : flagged d n = List.range (d n) := by
        have htake := congrArg (List.take (d n)) h
        rw [flagged, List.take_left' hone.2, List.take_range, Nat.min_eq_left hstep] at htake
        exact htake
      intro m hm
      rcases Nat.lt_succ_iff_lt_or_eq.1 hm with hm | rfl
      exacts [ih.1 hn m hm, hone.1]
    · intro h
      rw [flagged, ih.2 fun m hm => h m (Nat.lt_succ_of_lt hm)]
      have hone := h n (Nat.lt_succ_self n)
      split_ifs with hlt
      · rw [show d (n + 1) = d n + 1 by omega, Nat.add_sub_cancel, List.range_succ]
      · rw [show d (n + 1) = d n by omega, List.append_nil]

/-- The elements up to the first one that fails the test. -/
theorem length_takeWhile {A : Type} {p : A → Bool} {l : List A} {n : Nat} (hn : n ≤ l.length)
    (hp : ∀ i x, i < n → l[i]? = some x → p x = true) (hstop : ∀ x, l[n]? = some x → p x = false) :
    (l.takeWhile p).length = n := by
  induction n generalizing l with
  | zero =>
    cases l with
    | nil => rfl
    | cons x l => rw [List.takeWhile_cons_of_neg (by simp [hstop x rfl])]; rfl
  | succ n ih =>
    cases l with
    | nil => cases hn
    | cons x l =>
      rw [List.takeWhile_cons_of_pos (hp 0 x (Nat.succ_pos n) rfl), List.length_cons]
      exact congrArg (· + 1) (ih (Nat.le_of_succ_le_succ hn) (fun i y hi => hp (i + 1) y (Nat.succ_lt_succ hi)) hstop)

namespace Cerebro
variable [Arith α] (c : Cerebro α W) {feeds : DataFeed α × List (DataFeed α)} {b : BackBroker α W} {n k : Nat}
  {e : CerebroState α W} {f : DataFeed α}

omit [Arith α] in
/-- What the gate releases is what the timestamps say. -/
theorem released_of_gated {s₀ s : Slot α} {barOpen close : DateTime} (hopen : feeds.1.datetime.data[n]? = some barOpen)
    (hclose : barClose feeds.1.timeframe barOpen = .ok close) (hholds : Clock.Holds f s)
    (hg : Slot.Gated close { s₀ with feedAdvanced := false } s) :
    s.barsDelivered = s₀.barsDelivered + released feeds.1 f n s₀.barsDelivered := by
  have htimes : s₀.feed.datetime.data = f.datetime.data :=
    congrArg (List.map Row.datetime) (hg.bars.data.symm.trans hholds.data)
  have htf : s₀.feed.timeframe = f.timeframe := hg.bars.timeframe.symm.trans hholds.timeframe
  have hle : s₀.barsDelivered ≤ s.barsDelivered := hg.le
  have hlen : s.barsDelivered ≤ f.datetime.data.length := by
    have := hholds.inStep.le
    rw [hholds.data] at this
    simpa only [DataFeed.datetime, Line.map, List.length_map] using this
  have hrel : released feeds.1 f n s₀.barsDelivered = s.barsDelivered - s₀.barsDelivered := by
    unfold released
    rw [hopen]
    dsimp only
    rw [hclose]
    refine length_takeWhile (by rw [List.length_drop]; omega) (fun i dt hi hdt => ?_) fun dt hdt => ?_
    · rw [List.getElem?_drop, ← htimes] at hdt
      rw [closedBy_eq_true, ← htf]
      exact hg.closed _ dt (Nat.le_add_right ..) (show s₀.barsDelivered + i < _ by omega) hdt
    · rw [List.getElem?_drop, ← htimes, Nat.add_sub_of_le hle] at hdt
      have := hg.next dt hdt
      rwa [show ({ s₀ with feedAdvanced := false } : Slot α).feed.timeframe = f.timeframe from htf, ← closedBy_eq_true,
        Bool.not_eq_true] at this
  omega

/-- The slot of a context feed on a bar, after the gate. -/
theorem gated_slots (h : c.gated feeds b n = .ok e) (hn : n < feeds.1.size) (hf : feeds.2[k]? = some f)
    (h₀ : ∀ e₀ s₀, c.upTo feeds b n = .ok e₀ → e₀.clock.context[k]? = some s₀ → s₀.barsDelivered = delivered feeds.1 f n) :
    ∃ s, e.clock.context[k]? = some s ∧ Clock.Holds f s ∧ s.barsDelivered = delivered feeds.1 f (n + 1) ∧
      (s.feedAdvanced = true ↔ delivered feeds.1 f n < delivered feeds.1 f (n + 1)) := by
  obtain ⟨e₀, s₀, s, barOpen, close, hup, hs₀, hs, hopen, hclose, hholds, hg⟩ := c.gated_slot h hn hf
  have hd := released_of_gated hopen hclose hholds hg
  have hd₀ := h₀ e₀ s₀ hup hs₀
  have hd' : s.barsDelivered = delivered feeds.1 f (n + 1) := by rw [hd, hd₀]; rfl
  refine ⟨s, hs, hholds, hd', ?_⟩
  rw [hg.advanced, ← hd', ← hd₀]
  simp

/-- Between two bars the slots follow the schedule. -/
theorem upTo_slot (h : c.upTo feeds b n = .ok e) (hn : n ≤ feeds.1.size) (hf : feeds.2[k]? = some f) :
    ∃ s, e.clock.context[k]? = some s ∧ s.barsDelivered = delivered feeds.1 f n := by
  induction n generalizing e with
  | zero =>
    obtain ⟨-, -, h⟩ := bind_eq_ok.1 h
    obtain ⟨-, -, h⟩ := bind_eq_ok.1 h
    cases h
    refine ⟨{ feed := f.home }, ?_, rfl⟩
    show (feeds.2.map fun f => ({ feed := f.home } : Slot α))[k]? = _
    rw [List.getElem?_map, hf]
    rfl
  | succ n ih =>
    obtain ⟨e₁, h₁, hcontext⟩ := c.upTo_succ_context h
    obtain ⟨s, hs, -, hd, -⟩ := c.gated_slots h₁ (by omega) hf fun e₀ s₀ hup hs₀ => by
      obtain ⟨s', hs', hd'⟩ := ih hup (by omega)
      rw [hs₀] at hs'
      cases hs'
      exact hd'
    exact ⟨s, by rw [hcontext]; exact hs, hd⟩

/-- The slot of a context feed on a bar: where the schedule has it, with the cursor on the last bar delivered. -/
theorem gated_schedule (h : c.gated feeds b n = .ok e) (hn : n < feeds.1.size) (hf : feeds.2[k]? = some f) :
    ∃ s, e.clock.context[k]? = some s ∧ s.feed.lines.data = f.lines.data ∧
      s.barsDelivered = delivered feeds.1 f (n + 1) ∧ s.feed.index = delivered feeds.1 f (n + 1) - 1 ∧
      (s.feedAdvanced = true ↔ delivered feeds.1 f n < delivered feeds.1 f (n + 1)) := by
  obtain ⟨s, hs, hholds, hd, hflag⟩ := c.gated_slots h hn hf fun e₀ s₀ hup hs₀ => by
    obtain ⟨s', hs', hd'⟩ := c.upTo_slot hup hn.le hf
    rw [hs₀] at hs'
    cases hs'
    exact hd'
  exact ⟨s, hs, hholds.data, hd, hd ▸ hholds.inStep.index, hflag⟩

/-- The master on a bar. -/
theorem gated_master (h : c.gated feeds b n = .ok e) (hn : n < feeds.1.size) :
    e.clock.master.feed.lines.data = feeds.1.lines.data ∧ e.clock.master.feed.index = n ∧
      e.clock.master.barsDelivered = n + 1 ∧ e.clock.master.feedAdvanced = true := by
  obtain ⟨e₀, h₀, h⟩ := bind_eq_ok.1 h
  have hal := (c.along_upTo hn h₀).tick (clock_gate h)
  refine ⟨hal.data, by rw [hal.index]; omega, ?_⟩
  have htick := clock_gate h
  generalize e.clock = clock at htick
  unfold Clock.tick at htick
  dsimp only at htick
  split at htick
  · cases htick
    exact ⟨rfl, rfl⟩
  · obtain ⟨_, -, htick⟩ := bind_eq_ok.1 htick
    obtain ⟨_, -, htick⟩ := bind_eq_ok.1 htick
    cases htick
    exact ⟨rfl, rfl⟩

theorem upTo_succ (h : c.upTo feeds b (n + 1) = .ok e) : ∃ e₁, c.gated feeds b n = .ok e₁ ∧
    e.broker = (c.trade n e₁).broker ∧ e.entered = (c.trade n e₁).entered ∧ e.clock.context = e₁.clock.context := by
  obtain ⟨e₀, h₀, h⟩ := bind_eq_ok.1 h
  obtain ⟨e₁, h₁, h⟩ := bind_eq_ok.1 h
  refine ⟨e₁, bind_eq_ok.2 ⟨e₀, h₀, h₁⟩, ?_⟩
  cases h
  split_ifs <;> exact ⟨rfl, rfl, rfl⟩

/-- The gate moves the clock and sets the bar index. -/
theorem gated_broker (h : c.gated feeds b n = .ok e) : ∃ e₀, c.upTo feeds b n = .ok e₀ ∧
    e.broker = e₀.broker.setBarIndex n ∧ e.entered = e₀.entered := by
  obtain ⟨e₀, h₀, h⟩ := bind_eq_ok.1 h
  obtain ⟨clock, -, h⟩ := bind_eq_ok.1 h
  cases h
  exact ⟨e₀, h₀, rfl, rfl⟩

theorem context_upTo (h : c.upTo feeds b n = .ok e) (hn : n ≤ feeds.1.size) :
    e.clock.context.length = feeds.2.length := by
  cases n with
  | zero =>
    obtain ⟨-, -, h⟩ := bind_eq_ok.1 h
    obtain ⟨-, -, h⟩ := bind_eq_ok.1 h
    cases h
    exact List.length_map _
  | succ n =>
    obtain ⟨e₁, h₁, hcontext⟩ := c.upTo_succ_context h
    obtain ⟨e₀, h₀, h₁⟩ := bind_eq_ok.1 h₁
    rw [hcontext]
    exact ((c.along_upTo (by omega) h₀).tick (clock_gate h₁)).context.length_eq.symm

end Cerebro

end StratForge
