import StratForge.Line
import StratForge.Fold

/-!
# The clock of `Cerebro::run`

Feed 0 is the master: the run goes through its bars. A bar of another feed is delivered once its period has
closed by the close of the master bar. A `Slot` is a feed with its entries of the vectors `context_cursor`,
`bars_delivered` and `feed_advanced_flags`.
-/

namespace StratForge

structure Slot (α : Type) where
  feed : DataFeed α
  contextCursor : Nat := 0
  barsDelivered : Nat := 0
  feedAdvanced : Bool := false
deriving DecidableEq

namespace Slot
variable {α : Type}

/-- The next bar becomes visible; the cursor of the feed is on the first bar already. -/
def deliver (s : Slot α) : Slot α :=
  { feed := if 0 < s.barsDelivered then s.feed.advance else s.feed
    contextCursor := s.contextCursor + 1
    barsDelivered := s.barsDelivered + 1
    feedAdvanced := true }

/-- The `while` loop, with what is left of the feed as the bound. -/
def gateLoop (execClose : DateTime) : Nat → Slot α → Except Error (Slot α)
  | 0, s => .ok s
  | n + 1, s =>
    match s.feed.datetime.data[s.contextCursor]? with
    | none => .ok s
    | some dt => do
      let barPeriodEnd ← periodEnd dt s.feed.timeframe
      if barPeriodEnd ≤ execClose then gateLoop execClose n s.deliver else return s

/-- One master bar: the flag is reset, and what has closed is delivered. -/
def gate (execClose : DateTime) (s : Slot α) : Except Error (Slot α) :=
  gateLoop execClose (s.feed.size - s.contextCursor) { s with feedAdvanced := false }

end Slot

/-- When the bar of the master that opens at `barOpen` closes. -/
def barClose (tf : TimeFrameCompression) (barOpen : DateTime) : Except Error DateTime :=
  if tf.timeframe = .Weeks ∨ tf.timeframe = .Months then periodEnd barOpen tf
  else do return barOpen + (← durationOf tf) * nsPerSecond

structure Clock (α : Type) where
  master : Slot α
  context : List (Slot α)
deriving DecidableEq

namespace Clock
variable {α : Type}

def slots (c : Clock α) : List (Slot α) := c.master :: c.context

def feeds (c : Clock α) : List (DataFeed α) := c.slots.map (·.feed)

/-- `compute_exec_close`: without a context feed nothing is gated. -/
def execClose (c : Clock α) : Except Error DateTime := do
  let barOpen ← c.master.feed.datetime.at' 0
  if c.context.isEmpty then return barOpen else barClose c.master.feed.timeframe barOpen

/-- The clock goes to a master bar. -/
def tick (bar : Nat) (c : Clock α) : Except Error (Clock α) := do
  let master := { c.master with feedAdvanced := true, barsDelivered := bar + 1 }
  if c.context.isEmpty then return { master, context := [] }
  else
    let execClose ← c.execClose
    return { master, context := ← c.context.mapM (Slot.gate execClose) }

/-- `data_feeds_[0]->advance()`. -/
def advance (c : Clock α) : Clock α := { c with master := { c.master with feed := c.master.feed.advance } }

/-- What `preload()` leaves: every cursor on the first bar, nothing delivered. -/
def start (feeds : DataFeed α × List (DataFeed α)) : Clock α :=
  { master := { feed := feeds.1.home }, context := feeds.2.map fun f => { feed := f.home } }

end Clock

/-! ### What one bar of the master delivers -/

/-- The period of a bar has closed. -/
def Closed (tf : TimeFrameCompression) (close dt : DateTime) : Prop := ∃ e, periodEnd dt tf = .ok e ∧ e ≤ close

theorem Closed.mono {tf : TimeFrameCompression} {close close' dt dt' : DateTime} (h : Closed tf close dt) (hdt : dt' ≤ dt)
    (hclose : close ≤ close') : Closed tf close' dt' := by
  obtain ⟨e, he, hle⟩ := h
  have hs := supported_of_periodEnd he
  rw [periodEnd_eq hs] at he
  cases he
  exact ⟨_, periodEnd_eq hs dt', (tf.grid.stop_mono hdt).trans (hle.trans hclose)⟩

theorem barClose_returns {tf : TimeFrameCompression} (hs : tf.Supported) (dt : DateTime) : ∃ close, barClose tf dt = .ok close := by
  unfold barClose
  split
  · exact ⟨_, periodEnd_eq hs dt⟩
  · rename_i hcal
    rcases hs with hs | ⟨hcal', -⟩
    · rw [durationOf_eq hs]
      exact ⟨_, rfl⟩
    · exact absurd hcal' hcal

theorem lt_of_barClose {tf : TimeFrameCompression} {dt close : DateTime} (h : barClose tf dt = .ok close) : dt < close := by
  unfold barClose at h
  split at h
  · have hs := supported_of_periodEnd h
    rw [periodEnd_eq hs] at h
    cases h
    exact tf.grid.lt_stop dt
  · obtain ⟨span, hspan, h⟩ := bind_eq_ok.1 h
    cases h
    have hpos : 0 < span := by
      unfold durationOf at hspan
      split at hspan
      · cases hspan
      · rename_i hc
        split at hspan
        · cases hspan
          omega
        · cases hspan
          exact Int.mul_pos (by omega) (by decide)
        · cases hspan
    exact Int.lt_add_of_pos_right _ (Int.mul_pos hpos (by decide))

theorem barClose_mono {tf : TimeFrameCompression} {dt dt' close close' : DateTime} (h : barClose tf dt = .ok close)
    (h' : barClose tf dt' = .ok close') (hle : dt ≤ dt') : close ≤ close' := by
  unfold barClose at h h'
  split at h
  · rename_i hcal
    rw [if_pos hcal] at h'
    have hs := supported_of_periodEnd h
    rw [periodEnd_eq hs] at h h'
    cases h
    cases h'
    exact tf.grid.stop_mono hle
  · rename_i hcal
    rw [if_neg hcal] at h'
    obtain ⟨span, hspan, h⟩ := bind_eq_ok.1 h
    obtain ⟨span', hspan', h'⟩ := bind_eq_ok.1 h'
    rw [hspan] at hspan'
    cases hspan'
    cases h
    cases h'
    exact Int.add_le_add_right hle _

namespace Slot
variable {α : Type} {s s' s'' : Slot α} {close : DateTime}

/-- The three counters of a slot agree. -/
structure InStep (s : Slot α) : Prop where
  cursor : s.contextCursor = s.barsDelivered
  le : s.barsDelivered ≤ s.feed.lines.data.length
  index : s.feed.index = s.barsDelivered - 1

/-- The bars are the same ones. -/
structure SameBars (s s' : Slot α) : Prop where
  data : s'.feed.lines.data = s.feed.lines.data
  timeframe : s'.feed.timeframe = s.feed.timeframe

theorem SameBars.trans (h : SameBars s s') (h' : SameBars s' s'') : SameBars s s'' :=
  ⟨h'.data.trans h.data, h'.timeframe.trans h.timeframe⟩

theorem SameBars.times (h : SameBars s s') : s'.feed.datetime.data = s.feed.datetime.data := by
  show s'.feed.lines.data.map _ = s.feed.lines.data.map _
  rw [h.data]

theorem sameBars_deliver (s : Slot α) : SameBars s s.deliver := by
  unfold deliver
  split
  exacts [⟨Line.data_advance _, rfl⟩, ⟨rfl, rfl⟩]

theorem InStep.deliver (h : s.InStep) (hlt : s.contextCursor < s.feed.lines.data.length) : s.deliver.InStep := by
  have hcur := h.cursor
  have hidx : s.feed.lines.idx = s.barsDelivered - 1 := h.index
  refine ⟨congrArg (· + 1) hcur, ?_, ?_⟩
  · rw [(sameBars_deliver s).data]
    show s.barsDelivered + 1 ≤ _
    omega
  · show (if 0 < s.barsDelivered then s.feed.advance else s.feed).lines.idx = s.barsDelivered + 1 - 1
    split
    · show s.feed.lines.advance.idx = _
      rw [Line.idx_advance]
      omega
    · omega

/-- What the gate does on a master bar that closes at `close`. -/
structure Gated (close : DateTime) (s s' : Slot α) : Prop where
  bars : SameBars s s'
  inStep : s'.InStep
  le : s.barsDelivered ≤ s'.barsDelivered
  closed : ∀ i dt, s.barsDelivered ≤ i → i < s'.barsDelivered → s.feed.datetime.data[i]? = some dt →
    Closed s.feed.timeframe close dt
  next : ∀ dt, s.feed.datetime.data[s'.barsDelivered]? = some dt → ¬ Closed s.feed.timeframe close dt
  advanced : s'.feedAdvanced = true ↔ s.feedAdvanced = true ∨ s.barsDelivered < s'.barsDelivered

theorem gateLoop_gated : ∀ (n : Nat) {s s' : Slot α}, s.InStep → s.feed.lines.data.length - s.contextCursor ≤ n →
    gateLoop close n s = .ok s' → Gated close s s' := by
  intro n
  induction n with
  | zero =>
    intro s s' h hn hs
    cases hs
    refine ⟨⟨rfl, rfl⟩, h, le_refl _, fun i dt hi hi' => absurd hi' (by omega), fun dt hdt => ?_, by simp⟩
    have := (List.getElem?_eq_some_iff.1 hdt).1
    have hcur := h.cursor
    simp only [DataFeed.datetime, Line.map, List.length_map] at this
    omega
  | succ n ih =>
    intro s s' h hn hs
    unfold gateLoop at hs
    cases hdt : s.feed.datetime.data[s.contextCursor]? with
    | none =>
      rw [hdt] at hs
      cases hs
      refine ⟨⟨rfl, rfl⟩, h, le_refl _, fun i dt hi hi' => absurd hi' (by omega), fun dt hdt' => ?_, by simp⟩
      rw [← h.cursor, hdt] at hdt'
      cases hdt'
    | some dt =>
      rw [hdt] at hs
      obtain ⟨e, he, hs⟩ := bind_eq_ok.1 hs
      have hlt : s.contextCursor < s.feed.lines.data.length := by
        have := (List.getElem?_eq_some_iff.1 hdt).1
        simpa only [DataFeed.datetime, Line.map, List.length_map] using this
      have hb := sameBars_deliver s
      split at hs
      · rename_i hle
        have hg := ih (h.deliver hlt) (by rw [hb.data]; show _ - (s.contextCursor + 1) ≤ n; omega) hs
        have hd : s.deliver.barsDelivered = s.barsDelivered + 1 := rfl
        have hgle := hg.le
        refine ⟨hb.trans hg.bars, hg.inStep, by omega, fun i dt' hi hi' hdt' => ?_, fun dt' hdt' => ?_, ?_⟩
        · rcases Nat.lt_or_ge s.barsDelivered i with hlt' | hge
          · rw [← hb.timeframe]
            exact hg.closed i dt' (by omega) hi' (by rw [hb.times]; exact hdt')
          · obtain rfl : i = s.contextCursor := by have := h.cursor; omega
            rw [hdt] at hdt'
            cases hdt'
            exact ⟨e, he, hle⟩
        · rw [← hb.timeframe]
          exact hg.next dt' (by rw [hb.times]; exact hdt')
        · exact ⟨fun _ => .inr (by omega), fun _ => hg.advanced.2 (.inl rfl)⟩
      · rename_i hgt
        cases hs
        refine ⟨⟨rfl, rfl⟩, h, le_refl _, fun i dt hi hi' => absurd hi' (by omega), fun dt' hdt' => ?_, by simp⟩
        rw [← h.cursor, hdt] at hdt'
        cases hdt'
        rintro ⟨e', he', hle⟩
        rw [he] at he'
        cases he'
        exact hgt hle

/-- The loop throws for no timeframe of the vocabulary. -/
theorem gateLoop_returns (close : DateTime) : ∀ (n : Nat) {s : Slot α}, s.feed.timeframe.Supported →
    ∃ s', gateLoop close n s = .ok s'
  | 0, s, _ => ⟨s, rfl⟩
  | n + 1, s, hs => by
    unfold gateLoop
    cases s.feed.datetime.data[s.contextCursor]? with
    | none => exact ⟨s, rfl⟩
    | some dt =>
      obtain ⟨s', hs'⟩ := gateLoop_returns close n ((sameBars_deliver s).timeframe ▸ hs)
      dsimp only
      rw [periodEnd_eq hs]
      by_cases hle : s.feed.timeframe.grid.stop dt ≤ close
      · exact ⟨s', (if_pos hle).trans hs'⟩
      · exact ⟨s, if_neg hle⟩

theorem gate_gated (h : s.InStep) (hs : s.gate close = .ok s') :
    Gated close { s with feedAdvanced := false } s' :=
  gateLoop_gated _ ⟨h.cursor, h.le, h.index⟩ (by rw [DataFeed.size_eq]) hs

end Slot

end StratForge
