import StratForge.FedBars
import StratForge.Marks
import StratForge.TwoRuns

/-!
# Runs over data that show the same

Two data sets show the same up to a bar of the master if their master bars are the same, and the bars that the other feeds
have delivered (`SameUpTo`). The clock then stands the same on every bar (`alike_gated`). Runs that begin together stay
together, bar for bar, where the agents read no more than that and no order comes to a feed that has delivered nothing
(`trade_together`, `runs_together`).
-/

namespace StratForge

variable {α W : Type}

/-! ### Clocks that show the same -/

/-- The feeds stand alike, and what they have delivered is the same. -/
structure Slot.Alike (s s' : Slot α) : Prop where
  timeframe : s'.feed.timeframe = s.feed.timeframe
  barsDelivered : s'.barsDelivered = s.barsDelivered
  feedAdvanced : s'.feedAdvanced = s.feedAdvanced
  index : s'.feed.index = s.feed.index
  rows : s'.feed.lines.data.take s.barsDelivered = s.feed.lines.data.take s.barsDelivered

namespace Clock
variable {clock clock' : Clock α} {k : Nat}

structure Alike (clock clock' : Clock α) : Prop where
  master : clock.master.Alike clock'.master
  context : List.Forall₂ Slot.Alike clock.context clock'.context

/-- A feed that has delivered a bar; a data index without a feed counts as one. -/
def Delivering (clock : Clock α) (k : Nat) : Prop := ∀ s, clock.slots[k]? = some s → 0 < s.barsDelivered

/-- A feed that has delivered a bar stands on one it has delivered. -/
def Upright (clock : Clock α) : Prop := ∀ s ∈ clock.slots, 0 < s.barsDelivered → s.feed.index < s.barsDelivered

theorem Alike.slots (h : clock.Alike clock') : List.Forall₂ Slot.Alike clock.slots clock'.slots := .cons h.master h.context

/-- Where a bar has been delivered, the two quote the same. -/
theorem Alike.quote (h : clock.Alike clock') (hup : clock.Upright) (hk : clock.Delivering k) :
    BackBroker.quote clock'.feeds k = BackBroker.quote clock.feeds k := by
  unfold BackBroker.quote Clock.feeds
  rw [List.getElem?_map, List.getElem?_map]
  cases hs : clock.slots[k]? with
  | none =>
    have hs' : clock'.slots[k]? = none := by
      rw [List.getElem?_eq_none_iff] at hs ⊢
      rwa [← h.slots.length_eq]
    rw [hs']
  | some s =>
    obtain ⟨s', hs', hsame⟩ := Fold.forall₂_get? h.slots hs
    have hlt := hup s (List.mem_of_getElem? hs) (hk s hs)
    have hget : ∀ l : List (Row α), l[s.feed.index]? = (l.take s.barsDelivered)[s.feed.index]? := fun l => by
      rw [List.getElem?_take, if_pos hlt]
    rw [hs']
    show some (s'.feed.lines.data[s'.feed.index]?, s'.feed.index) = some (s.feed.lines.data[s.feed.index]?, s.feed.index)
    rw [hsame.index, hget s'.feed.lines.data, hsame.rows, ← hget]

/-- What is read of the bar under the cursor, the last close for one. -/
theorem Alike.column {T : Type} (h : clock.Alike clock') (hup : clock.Upright) (hk : clock.Delivering k) (g : Row α → T) :
    clock'.feeds[k]?.map (fun f => (f.lines.map g).at' 0) = clock.feeds[k]?.map (fun f => (f.lines.map g).at' 0) := by
  have hread : ∀ feeds : List (DataFeed α), feeds[k]?.map (fun f => (f.lines.map g).at' 0) =
      (BackBroker.quote feeds k).map fun q => (q.1.map g).elim (.error (.outOfRange "Line index out of range")) .ok := by
    intro feeds
    unfold BackBroker.quote
    rw [Option.map_map]
    congr 1
    funext f
    have hcur : (f.lines.map g).current? = f.current?.map g := List.getElem?_map ..
    rw [Line.at'_zero, hcur]
    dsimp only [Function.comp_apply]
    cases f.current?.map g <;> rfl
  rw [hread, hread, h.quote hup hk]

end Clock

variable [Arith α]

namespace BackBroker
variable {clock clock' : Clock α} {b : BackBroker α W}

/-- What a position adds to the value at its mark, in its own currency and in the base currency. -/
def markValue (value : α) (pos : Position α) (markPx : α) : Except Error α :=
  match pos.instrument with
  | some instr => pure (value + instr.markToMarket pos.size pos.avgPrice markPx)
  | none => pure (value + pos.size * markPx)

def markValueAt (b : BackBroker α W) («at» : DateTime) (value : α) (pos : Position α) (markPx : α) : Except Error α :=
  match pos.instrument with
  | some instr => pure (value + b.toBase instr.settlementCcy «at» (instr.markToMarket pos.size pos.avgPrice markPx))
  | none => pure (value + pos.size * markPx)

/-- Positions on feeds that have delivered are marked alike. -/
theorem marks_alike (halike : clock.Alike clock') (hup : clock.Upright) (g : α → Position α → α → Except Error α)
    (hopen : b.OpenOn clock.Delivering) (value : α) :
    b.positions.foldlM (fun value pos => if pos.isFlat then pure value else match clock'.feeds[pos.dataIndex]? with
      | none => pure value
      | some feed => feed.close.at' 0 >>= g value pos) value =
    b.positions.foldlM (fun value pos => if pos.isFlat then pure value else match clock.feeds[pos.dataIndex]? with
      | none => pure value
      | some feed => feed.close.at' 0 >>= g value pos) value := by
  refine Fold.foldlM_congr (fun value pos hpos => ?_) value
  split
  · rfl
  next hflat =>
  have hmark := halike.column hup (hopen pos hpos (by simpa using hflat)) Row.close
  cases hfeed : clock.feeds[pos.dataIndex]? with
  | none =>
    rw [hfeed] at hmark
    rw [Option.map_eq_none_iff.1 hmark]
  | some feed =>
    rw [hfeed] at hmark
    obtain ⟨feed', hfeed', hclose⟩ := Option.map_eq_some_iff.1 hmark
    rw [hfeed']
    exact congrArg (· >>= g value pos) hclose

theorem OpenOn.portfolioValue_alike (hopen : b.OpenOn clock.Delivering) (halike : clock.Alike clock') (hup : clock.Upright) :
    b.portfolioValue clock'.feeds = b.portfolioValue clock.feeds :=
  marks_alike halike hup markValue hopen _

theorem OpenOn.portfolioValueAt_alike (hopen : b.OpenOn clock.Delivering) (halike : clock.Alike clock') (hup : clock.Upright)
    («at» : DateTime) : b.portfolioValueAt «at» clock'.feeds = b.portfolioValueAt «at» clock.feeds :=
  marks_alike halike hup (markValueAt b «at») hopen _

end BackBroker

/-! ### One bar -/

namespace Cerebro

/-- Agents that do the same on both clocks, with positions open on feeds that have delivered, but for what they capture,
unless the first one gives the run up. -/
structure Sees (c : Cerebro α W) (lost : W → Prop) (S : W → W → Prop) (clock clock' : Clock α) : Prop where
  listener : (c.listener clock).Agree (c.listener clock') lost S clock.Delivering
  call : ∀ ph si (b : BackBroker α W) (w : W), ¬ lost b.world → S b.world w → b.OpenOn clock.Delivering →
    (c.call ph clock' si (b.capture w)).2 = (c.call ph clock si b).2 ∧ S (c.call ph clock si b).1 (c.call ph clock' si (b.capture w)).1
  call_lost : ∀ ph si (b : BackBroker α W), lost b.world → lost (c.call ph clock si b).1
  minimumPeriod : ∀ w w', S w w' → c.minimumPeriod w' = c.minimumPeriod w

/-- A pass takes no order to a feed that has delivered nothing. -/
def Serves (c : Cerebro α W) (e : CerebroState α W) : Prop :=
  ∀ i < e.broker.pendingOrders.length, ∀ o, (e.broker.passAt (c.hooks e.clock) e.clock.feeds i).broker.pendingOrders[i]? = some o →
    o.isAlive = true → Pass.held (e.broker.passAt (c.hooks e.clock) e.clock.feeds i).broker o = false → e.clock.Delivering o.dataIndex

/-- The strategies of two runs after some of their turns. -/
def Abreast (lost : W → Prop) (S : W → W → Prop) (D : Nat → Prop) (st st' : BackBroker α W × List Bool) : Prop :=
  lost st.1.world ∨ (st'.1 = st.1.capture st'.1.world ∧ S st.1.world st'.1.world ∧ st.1.OpenOn D) ∧ st'.2 = st.2

/-- A bar up to the analyzers. -/
def afterTurns (c : Cerebro α W) (e : CerebroState α W) : BackBroker α W × List Bool :=
  (List.range c.strategies).foldl (c.turn e.clock) (e.broker.processOrders (c.hooks e.clock) e.clock.feeds, e.entered)

theorem trade_eq (c : Cerebro α W) (n : Nat) (e : CerebroState α W) : c.trade n e =
    { e with broker := (c.afterTurns e).1.capture (c.closing n e.clock (c.afterTurns e).1), entered := (c.afterTurns e).2 } := rfl

variable {c : Cerebro α W} {lost : W → Prop} {S : W → W → Prop} {clock clock' : Clock α} {b b' : BackBroker α W}

omit [Arith α] in
theorem ready_alike (halike : clock.Alike clock') {w w' : W} (hw : c.minimumPeriod w' = c.minimumPeriod w) (si : Nat) :
    c.ready clock' w' si = c.ready clock w si := by
  unfold ready
  rw [← halike.slots.length_eq, hw]
  congr 1
  funext k
  cases hs : clock.slots[k]? with
  | none =>
    have hs' : clock'.slots[k]? = none := by
      rw [List.getElem?_eq_none_iff] at hs ⊢
      rwa [← halike.slots.length_eq]
    rw [hs']
  | some s =>
    obtain ⟨s', hs', hsame⟩ := Fold.forall₂_get? halike.slots hs
    rw [hs']
    exact congrArg (fun d => decide (c.minimumPeriod w si k ≤ d)) hsame.barsDelivered

section
open BackBroker
variable (hsees : c.Sees lost S clock clock')
include hsees

/-- What is lost stays lost in every method. -/
theorem drive_lost (ph : Lifecycle) (si n : Nat) (hl : lost b.world) :
    lost ((c.listener clock).drive c.fuel (c.call ph clock si) n b).world := by
  have hexec : ∀ cmd {b : BackBroker α W}, lost b.world → lost (b.exec (c.hooks clock) cmd).world := fun cmd _ hb =>
    (stays_hooks hsees.listener c.fuel).exec cmd hb
  exact drive_keeps (P := fun b => lost b.world) hexec (fun ph si b hb => hsees.call_lost ph si b hb) ph si n hl

variable (hflat : Arith.abs (0 : α) < 1e-10)
include hflat

theorem drive_together (ph : Lifecycle) (si n : Nat) (hR : Agreed lost S clock.Delivering b b') :
    Agreed lost S clock.Delivering ((c.listener clock).drive c.fuel (c.call ph clock si) n b)
      ((c.listener clock').drive c.fuel (c.call ph clock' si) n b') := by
  have hL := lockstep_hooks hsees.listener hflat c.fuel
  induction n generalizing b b' with
  | zero => exact hR
  | succ n ih =>
    by_cases hl : lost b.world
    · exact .inl (drive_lost hsees ph si (n + 1) hl)
    obtain ⟨heq, hS, hopen⟩ := hR.resolve_left hl
    rw [heq]
    obtain ⟨hcmd, hworld⟩ := hsees.call ph si b b'.world hl hS hopen
    unfold Listener.drive
    cases hcall : c.call ph clock si b with
    | mk world cmd =>
      cases hcall' : c.call ph clock' si (b.capture b'.world) with
      | mk world' cmd' =>
        rw [hcall, hcall'] at hcmd hworld
        obtain rfl : cmd' = cmd := hcmd
        cases cmd' with
        | none => exact .inr ⟨rfl, hworld, hopen⟩
        | some cmd =>
          have hR' : Agreed lost S clock.Delivering { b with world } { b with world := world' } := .inr ⟨rfl, hworld, hopen⟩
          exact ih (hL.exec hR' cmd)

theorem turn_together (halike : clock.Alike clock') (si : Nat) {st st' : BackBroker α W × List Bool}
    (h : Abreast lost S clock.Delivering st st') : Abreast lost S clock.Delivering (c.turn clock st si) (c.turn clock' st' si) := by
  rcases h with hl | ⟨hR, hentered⟩
  · have hphase := fun ph => drive_lost hsees ph si c.fuel hl
    unfold turn
    split_ifs <;> exact .inl (hphase _)
  · have hphase : ∀ ph entered, Abreast lost S clock.Delivering (c.phase ph clock st.1 si, entered)
        (c.phase ph clock' st'.1 si, entered) := fun ph entered =>
      (drive_together hsees hflat ph si c.fuel (.inr hR)).imp id fun h => ⟨h, rfl⟩
    unfold turn
    rw [ready_alike halike (hsees.minimumPeriod _ _ hR.2.1) si, hentered]
    split_ifs <;> exact hphase _ _

end

/-- Two bars up to the analyzers. -/
theorem turns_together (hflat : Arith.abs (0 : α) < 1e-10) {e e' : CerebroState α W} (halike : e.clock.Alike e'.clock)
    (hup : e.clock.Upright) (hsees : c.Sees lost S e.clock e'.clock) (hserves : c.Serves e)
    (hR : BackBroker.Agreed lost S e.clock.Delivering e.broker e'.broker) (hentered : e'.entered = e.entered) :
    Abreast lost S e.clock.Delivering (c.afterTurns e) (c.afterTurns e') := by
  have hpass := (BackBroker.lockstep_hooks hsees.listener hflat c.fuel).processOrders hR fun i hi o ho halive hheld =>
    ⟨halike.quote hup (hserves i hi o ho halive hheld), hserves i hi o ho halive hheld⟩
  have h0 : Abreast lost S e.clock.Delivering (e.broker.processOrders (c.hooks e.clock) e.clock.feeds, e.entered)
      (e'.broker.processOrders (c.hooks e'.clock) e'.clock.feeds, e'.entered) := hpass.imp id fun h => ⟨h, hentered⟩
  exact List.foldl_rel (r := Abreast lost S e.clock.Delivering) h0 fun si _ st st' hst => turn_together hsees hflat halike si hst

end Cerebro

/-! ### Data that show the same -/

/-- The `k`-th feed has delivered a bar before bar `n` of the master; a data index without a feed counts as one. -/
def DeliveredBy (feeds : DataFeed α × List (DataFeed α)) (n k : Nat) : Prop :=
  ∀ f, (feeds.1 :: feeds.2)[k]? = some f → 0 < barsBefore feeds k n

/-- The data show the same on the first `n` bars of the master. -/
structure SameUpTo (n : Nat) (feeds feeds' : DataFeed α × List (DataFeed α)) : Prop where
  timeframe : feeds'.1.timeframe = feeds.1.timeframe
  bars : feeds'.1.lines.data.take n = feeds.1.lines.data.take n
  context : List.Forall₂ (fun f f' : DataFeed α => f'.timeframe = f.timeframe ∧ delivered feeds'.1 f' n = delivered feeds.1 f n ∧
    f'.lines.data.take (delivered feeds.1 f n) = f.lines.data.take (delivered feeds.1 f n)) feeds.2 feeds'.2

section
omit [Arith α]
variable {feeds feeds' : DataFeed α × List (DataFeed α)} {m n k : Nat}

/-- What stops within the part that is the same stops at the same place. -/
theorem length_takeWhile_congr {A : Type} {p : A → Bool} {l l' : List A} {d : Nat} (h : l'.take d = l.take d)
    (hl : (l.takeWhile p).length ≤ d) (hl' : (l'.takeWhile p).length ≤ d) : (l'.takeWhile p).length = (l.takeWhile p).length := by
  rw [← List.take_of_length_le hl, ← List.take_of_length_le hl', List.take_takeWhile, List.take_takeWhile, h]

theorem delivered_mono (master f : DataFeed α) (hmn : m ≤ n) : delivered master f m ≤ delivered master f n :=
  monotone_nat_of_le_succ (delivered_le_succ master f) hmn

/-- The same bars are delivered at the same time. -/
theorem delivered_same {master master' f f' : DataFeed α} (hmaster : master'.timeframe = master.timeframe)
    (hbars : master'.lines.data.take n = master.lines.data.take n) (htf : f'.timeframe = f.timeframe)
    (hd : delivered master' f' n = delivered master f n)
    (hrows : f'.lines.data.take (delivered master f n) = f.lines.data.take (delivered master f n)) :
    ∀ m ≤ n, delivered master' f' m = delivered master f m := by
  intro m hm
  induction m with
  | zero => rfl
  | succ m ih =>
    have ih := ih (Nat.le_of_succ_le hm)
    have hopen : master'.datetime.data[m]? = master.datetime.data[m]? := by
      have hget : ∀ g : DataFeed α, g.datetime.data[m]? = ((g.lines.data.take n)[m]?).map Row.datetime := fun g => by
        rw [List.getElem?_take, if_pos (Nat.lt_of_succ_le hm)]
        exact List.getElem?_map ..
      rw [hget, hget, hbars]
    have hle : delivered master f m + released master f m (delivered master f m) ≤ delivered master f n := delivered_mono master f hm
    have hle' : delivered master' f' m + released master' f' m (delivered master' f' m) ≤ delivered master f n :=
      hd ▸ delivered_mono master' f' hm
    show delivered master' f' m + released master' f' m (delivered master' f' m) =
      delivered master f m + released master f m (delivered master f m)
    rw [ih] at hle' ⊢
    generalize delivered master f m = d at hle hle' ⊢
    generalize delivered master f n = total at hle hle' hrows
    unfold released at hle hle' ⊢
    rw [hopen, hmaster, htf] at hle' ⊢
    cases hdt : master.datetime.data[m]? with
    | none => rfl
    | some barOpen =>
      rw [hdt] at hle hle'
      dsimp only at hle hle' ⊢
      cases hclose : barClose master.timeframe barOpen with
      | error => rfl
      | ok close =>
        rw [hclose] at hle hle'
        dsimp only at hle hle' ⊢
        have htimes : (f'.datetime.data.drop d).take (total - d) = (f.datetime.data.drop d).take (total - d) := by
          have htake : f'.datetime.data.take total = f.datetime.data.take total := by
            have := congrArg (List.map Row.datetime) hrows
            rwa [List.map_take, List.map_take] at this
          rw [← List.drop_take, ← List.drop_take, htake]
        rw [length_takeWhile_congr htimes (by omega) (by omega)]

theorem SameUpTo.mono (h : SameUpTo n feeds feeds') (hmn : m ≤ n) : SameUpTo m feeds feeds' := by
  have htake : ∀ {l l' : List (Row α)} {i j : Nat}, i ≤ j → l'.take j = l.take j → l'.take i = l.take i := fun hij heq => by
    rw [← Nat.min_eq_left hij, ← List.take_take, heq, List.take_take]
  refine ⟨h.timeframe, htake hmn h.bars, h.context.imp fun f f' ⟨htf, hd, hrows⟩ => ⟨htf, ?_, ?_⟩⟩
  · exact delivered_same h.timeframe h.bars htf hd hrows m hmn
  · exact htake (delivered_mono feeds.1 f hmn) hrows

theorem barsBefore_context {f : DataFeed α} (hf : feeds.2[k]? = some f) (n : Nat) :
    barsBefore feeds (k + 1) n = delivered feeds.1 f n := by rw [barsBefore, hf]

theorem barsBefore_zero (feeds : DataFeed α × List (DataFeed α)) (k : Nat) : barsBefore feeds k 0 = 0 := by
  unfold barsBefore
  split
  · rfl
  · split <;> rfl

/-- Each feed has delivered the same. -/
theorem SameUpTo.feed {f f' : DataFeed α} (h : SameUpTo n feeds feeds') (hf : (feeds.1 :: feeds.2)[k]? = some f)
    (hf' : (feeds'.1 :: feeds'.2)[k]? = some f') : f'.timeframe = f.timeframe ∧ (∀ m ≤ n, barsBefore feeds' k m = barsBefore feeds k m) ∧
      f'.lines.data.take (barsBefore feeds k n) = f.lines.data.take (barsBefore feeds k n) := by
  cases k with
  | zero =>
    cases hf
    cases hf'
    exact ⟨h.timeframe, fun _ _ => rfl, h.bars⟩
  | succ k =>
    have hf : feeds.2[k]? = some f := hf
    obtain ⟨g, hg, htf, hd, hrows⟩ := Fold.forall₂_get? h.context hf
    cases hg.symm.trans (show feeds'.2[k]? = some f' from hf')
    rw [barsBefore_context hf]
    refine ⟨htf, fun m hm => ?_, hrows⟩
    rw [barsBefore_context hf, barsBefore_context hg]
    exact delivered_same h.timeframe h.bars htf hd hrows m hm

theorem barsBefore_mono (hmn : m ≤ n) : barsBefore feeds k m ≤ barsBefore feeds k n := by
  unfold barsBefore
  split
  · exact hmn
  · split
    · exact delivered_mono _ _ hmn
    · exact le_rfl

theorem DeliveredBy.mono (h : DeliveredBy feeds m k) (hmn : m ≤ n) : DeliveredBy feeds n k := by
  intro f hf
  exact lt_of_lt_of_le (h f hf) (barsBefore_mono hmn)

end

namespace Cerebro
variable {c : Cerebro α W} {feeds feeds' : DataFeed α × List (DataFeed α)} {b b' : BackBroker α W} {n k : Nat}
  {e e' : CerebroState α W}

/-- The slots of the clock after the gate of a bar. -/
theorem gated_slots_at (h : c.gated feeds b n = .ok e) (hn : n < feeds.1.size) {f : DataFeed α} (hf : (feeds.1 :: feeds.2)[k]? = some f) :
    ∃ s, e.clock.slots[k]? = some s ∧ s.feed.timeframe = f.timeframe ∧ s.feed.lines.data = f.lines.data ∧
      s.barsDelivered = barsBefore feeds k (n + 1) ∧ s.feed.index = barsBefore feeds k (n + 1) - 1 ∧
      (s.feedAdvanced = true ↔ barsBefore feeds k n < barsBefore feeds k (n + 1)) := by
  have halong := c.along_gated h hn
  cases k with
  | zero =>
    cases hf
    obtain ⟨hdata, hidx, hdel, hflag⟩ := c.gated_master h hn
    exact ⟨_, rfl, halong.timeframe, hdata, hdel, hidx, iff_of_true hflag (Nat.lt_succ_self n)⟩
  | succ k =>
    have hf : feeds.2[k]? = some f := hf
    obtain ⟨s, hs, hdata, hdel, hidx, hflag⟩ := c.gated_schedule h hn hf
    obtain ⟨s', hs', hholds⟩ := Fold.forall₂_get? halong.context hf
    cases hs.symm.trans hs'
    rw [barsBefore_context hf, barsBefore_context hf]
    exact ⟨s, hs, hholds.timeframe, hdata, hdel, hidx, hflag⟩

theorem slots_gated (h : c.gated feeds b n = .ok e) (hn : n < feeds.1.size) :
    e.clock.slots.length = (feeds.1 :: feeds.2).length := by
  have hcontext := (c.along_gated h hn).context.length_eq
  simp [Clock.slots, hcontext]

theorem upright_gated (h : c.gated feeds b n = .ok e) (hn : n < feeds.1.size) : e.clock.Upright := by
  intro s hs hpos
  obtain ⟨k, hk⟩ := List.mem_iff_getElem?.1 hs
  have hlt : k < (feeds.1 :: feeds.2).length := slots_gated h hn ▸ (List.getElem?_eq_some_iff.1 hk).1
  obtain ⟨s', hs', -, -, hdel, hidx, -⟩ := gated_slots_at h hn (List.getElem?_eq_getElem hlt)
  cases hk.symm.trans hs'
  omega

theorem delivering_gated (h : c.gated feeds b n = .ok e) (hn : n < feeds.1.size) :
    e.clock.Delivering k ↔ DeliveredBy feeds (n + 1) k := by
  cases hf : (feeds.1 :: feeds.2)[k]? with
  | none =>
    have hs : e.clock.slots[k]? = none := by
      rw [List.getElem?_eq_none_iff] at hf ⊢
      rwa [slots_gated h hn]
    exact iff_of_true (fun s hs' => by cases hs.symm.trans hs') fun f hf' => by cases hf.symm.trans hf'
  | some f =>
    obtain ⟨s, hs, -, -, hdel, -⟩ := gated_slots_at h hn hf
    constructor
    · intro hd f' _
      exact hdel ▸ hd s hs
    · intro hd s' hs'
      cases hs.symm.trans hs'
      exact hdel.symm ▸ hd f hf

/-- Data that show the same up to a bar put the clock of the bar in the same place. -/
theorem alike_gated (hsame : SameUpTo (n + 1) feeds feeds') (h : c.gated feeds b n = .ok e) (hn : n < feeds.1.size)
    (h' : c.gated feeds' b' n = .ok e') (hn' : n < feeds'.1.size) : e.clock.Alike e'.clock := by
  have hslots : List.Forall₂ Slot.Alike e.clock.slots e'.clock.slots := by
    have hlen : feeds.2.length = feeds'.2.length := hsame.context.length_eq
    rw [List.forall₂_iff_get]
    refine ⟨by rw [slots_gated h hn, slots_gated h' hn', List.length_cons, List.length_cons, hlen], fun k hk hk' => ?_⟩
    have hs : e.clock.slots[k]? = some (e.clock.slots.get ⟨k, hk⟩) := List.getElem?_eq_getElem hk
    have hs' : e'.clock.slots[k]? = some (e'.clock.slots.get ⟨k, hk'⟩) := List.getElem?_eq_getElem hk'
    generalize e.clock.slots.get ⟨k, hk⟩ = s at hs ⊢
    generalize e'.clock.slots.get ⟨k, hk'⟩ = s' at hs' ⊢
    rw [slots_gated h hn] at hk
    rw [slots_gated h' hn'] at hk'
    -- the same number of bars, and the same bars
    obtain ⟨f, hf⟩ : ∃ f, (feeds.1 :: feeds.2)[k]? = some f := ⟨_, List.getElem?_eq_getElem hk⟩
    obtain ⟨f', hf'⟩ : ∃ f', (feeds'.1 :: feeds'.2)[k]? = some f' := ⟨_, List.getElem?_eq_getElem hk'⟩
    obtain ⟨htf, hd, hrows⟩ := hsame.feed hf hf'
    obtain ⟨s₁, hs₁, htf₁, hdata₁, hdel₁, hidx₁, hflag₁⟩ := gated_slots_at h hn hf
    obtain ⟨s₂, hs₂, htf₂, hdata₂, hdel₂, hidx₂, hflag₂⟩ := gated_slots_at h' hn' hf'
    cases hs.symm.trans hs₁
    cases hs'.symm.trans hs₂
    refine ⟨?_, ?_, ?_, ?_, ?_⟩
    · rw [htf₁, htf₂, htf]
    · rw [hdel₁, hdel₂, hd _ le_rfl]
    · rw [Bool.eq_iff_iff, hflag₁, hflag₂, hd _ le_rfl, hd _ (Nat.le_succ n)]
    · rw [hidx₁, hidx₂, hd _ le_rfl]
    · rw [hdata₁, hdata₂, hdel₁]
      exact hrows
  cases hslots with
  | cons hmaster hcontext => exact ⟨hmaster, hcontext⟩

omit [Arith α] in
/-- Before the first bar nothing shows but what the feeds are. -/
theorem alike_start (hsame : SameUpTo 0 feeds feeds') : (Clock.start feeds).Alike (Clock.start feeds') := by
  have hslot : ∀ {f f' : DataFeed α}, f'.timeframe = f.timeframe →
      Slot.Alike ({ feed := f.home } : Slot α) { feed := f'.home } := fun htf => ⟨htf, rfl, rfl, rfl, rfl⟩
  refine ⟨hslot hsame.timeframe, ?_⟩
  show List.Forall₂ _ (feeds.2.map _) (feeds'.2.map _)
  rw [List.forall₂_map_left_iff, List.forall₂_map_right_iff]
  exact hsame.context.imp fun f f' h => hslot h.1

omit [Arith α] in
/-- Before the first bar nothing has been delivered. -/
theorem start_empty (feeds : DataFeed α × List (DataFeed α)) : ∀ s ∈ (Clock.start feeds).slots, s.barsDelivered = 0 := by
  intro s hs
  rcases List.mem_cons.1 hs with rfl | hs
  · rfl
  · obtain ⟨f, -, rfl⟩ := List.mem_map.1 hs
    rfl

omit [Arith α] in
theorem upright_start (feeds : DataFeed α × List (DataFeed α)) : (Clock.start feeds).Upright := fun s hs hpos =>
  absurd (start_empty feeds s hs) hpos.ne'

omit [Arith α] in
/-- A data index without a feed is all that counts as delivered before the first bar. -/
theorem delivering_start : (Clock.start feeds).Delivering k ↔ DeliveredBy feeds 0 k := by
  have hslots : (Clock.start feeds).slots.length = (feeds.1 :: feeds.2).length := by simp [Clock.slots, Clock.start]
  cases hf : (feeds.1 :: feeds.2)[k]? with
  | none =>
    refine iff_of_true (fun s hs => ?_) fun f hf' => by cases hf.symm.trans hf'
    rw [List.getElem?_eq_none_iff, ← hslots, ← List.getElem?_eq_none_iff] at hf
    cases hf.symm.trans hs
  | some f =>
    have hk : k < (Clock.start feeds).slots.length := hslots ▸ (List.getElem?_eq_some_iff.1 hf).1
    refine iff_of_false (fun hd => ?_) fun hd => absurd (hd f hf) (by rw [barsBefore_zero]; exact lt_irrefl 0)
    have hs := List.getElem?_eq_getElem hk
    exact absurd (start_empty feeds _ (List.mem_of_getElem? hs)) (hd _ hs).ne'

/-! ### Two runs -/

/-- Two runs at the same point: the same but for what they capture, which is in `S`. -/
structure Tied (S : W → W → Prop) (D : Nat → Prop) (e e' : CerebroState α W) : Prop where
  broker : e'.broker = e.broker.capture e'.broker.world
  world : S e.broker.world e'.broker.world
  entered : e'.entered = e.entered
  opened : e.broker.OpenOn D

/-- What a bar needs to end in `S`: what is captured is in some `T` while the clock stands, with agents that do the same on
both clocks, none of which gives the run up, no order to a feed that has delivered nothing, and analyzers that do the same. -/
structure Steady (c : Cerebro α W) (S : W → W → Prop) (n : Nat) (e e' : CerebroState α W) : Prop where
  sees : ∃ (lost : W → Prop) (T : W → W → Prop), T e.broker.world e'.broker.world ∧ c.Sees lost T e.clock e'.clock ∧
    ¬ lost (c.afterTurns e).1.world ∧ ∀ (b : BackBroker α W) (w : W), T b.world w → b.OpenOn e.clock.Delivering →
      S (c.closing n e.clock b) (c.closing n e'.clock (b.capture w))
  serves : c.Serves e

/-- A step of two runs. -/
theorem trade_together {S S' : W → W → Prop} {e₀ e₀' : CerebroState α W} (hflat : Arith.abs (0 : α) < 1e-10)
    (hsame : SameUpTo (n + 1) feeds feeds') (h : c.gated feeds b n = .ok e) (hn : n < feeds.1.size)
    (h' : c.gated feeds' b' n = .ok e') (hn' : n < feeds'.1.size) (h₀ : c.upTo feeds b n = .ok e₀) (h₀' : c.upTo feeds' b' n = .ok e₀')
    (hR : Tied S (DeliveredBy feeds n) e₀ e₀')
    (hst : S e.broker.world e'.broker.world → c.Steady S' n e e') :
    Tied S' e.clock.Delivering (c.trade n e) (c.trade n e') := by
  obtain ⟨e₁, h₁, heq, hent⟩ := c.gated_broker h
  obtain ⟨e₁', h₁', heq', hent'⟩ := c.gated_broker h'
  cases h₀.symm.trans h₁
  cases h₀'.symm.trans h₁'
  have hst := hst (by rw [heq, heq']; exact hR.world)
  obtain ⟨lost, T, hworld, hsees, hkept, hclose⟩ := hst.sees
  have halike := alike_gated hsame h hn h' hn'
  have hopen : e.broker.OpenOn e.clock.Delivering := by
    have hopen : (e₀.broker.setBarIndex n).OpenOn (DeliveredBy feeds n) := hR.opened
    rw [heq]
    exact hopen.mono fun k hk => (delivering_gated h hn).2 (hk.mono (Nat.le_succ n))
  have hbroker : e'.broker = e.broker.capture e'.broker.world := by
    rw [heq, heq', hR.broker]
    rfl
  obtain ⟨⟨hcapt, hS, hopen'⟩, hentered⟩ := (turns_together hflat halike (upright_gated h hn) hsees hst.serves
    (.inr ⟨hbroker, hworld, hopen⟩) (hent'.trans (hR.entered.trans hent.symm))).resolve_left hkept
  have hclosing := hclose (c.afterTurns e).1 (c.afterTurns e').1.world hS hopen'
  rw [← hcapt] at hclosing
  rw [trade_eq c n e, trade_eq c n e']
  refine ⟨?_, hclosing, hentered, hopen'⟩
  show (c.afterTurns e').1.capture _ = (c.afterTurns e).1.capture _
  generalize c.closing n e'.clock (c.afterTurns e').1 = w
  rw [hcapt]
  rfl

/-- Runs that begin together over data that show the same, and whose bars are steady, stay together. -/
theorem runs_together {S : Nat → W → W → Prop} (hflat : Arith.abs (0 : α) < 1e-10) (hsame : SameUpTo n feeds feeds')
    (h0 : ∀ e e', c.start feeds b = .ok e → c.start feeds' b' = .ok e' → Tied (S 0) (DeliveredBy feeds 0) e e')
    (hbar : ∀ m < n, ∀ e e', c.gated feeds b m = .ok e → c.gated feeds' b' m = .ok e' → S m e.broker.world e'.broker.world →
      c.Steady (S (m + 1)) m e e')
    (h : c.upTo feeds b n = .ok e) (hn : n ≤ feeds.1.size) (h' : c.upTo feeds' b' n = .ok e') (hn' : n ≤ feeds'.1.size) :
    Tied (S n) (DeliveredBy feeds n) e e' := by
  induction n generalizing e e' with
  | zero => exact h0 e e' h h'
  | succ n ih =>
    obtain ⟨e₁, h₁, hbroker, hentered, -⟩ := c.upTo_succ h
    obtain ⟨e₁', h₁', hbroker', hentered', -⟩ := c.upTo_succ h'
    obtain ⟨e₀, h₀, -⟩ := c.gated_broker h₁
    obtain ⟨e₀', h₀', -⟩ := c.gated_broker h₁'
    have hR := ih (hsame.mono (Nat.le_succ n)) (fun m hm => hbar m (Nat.lt_succ_of_lt hm)) h₀ (Nat.le_of_succ_le hn) h₀'
      (Nat.le_of_succ_le hn')
    have htied := trade_together hflat hsame h₁ hn h₁' hn' h₀ h₀' hR (hbar n (Nat.lt_succ_self n) e₁ e₁' h₁ h₁')
    refine ⟨?_, ?_, ?_, ?_⟩
    · rw [hbroker, hbroker']
      exact htied.broker
    · rw [hbroker, hbroker']
      exact htied.world
    · rw [hentered, hentered']
      exact htied.entered
    · rw [hbroker]
      exact htied.opened.mono fun k => (delivering_gated h₁ hn).1

/-- What a run does before its first bar. -/
theorem start_together {lost : W → Prop} {S : W → W → Prop} (hflat : Arith.abs (0 : α) < 1e-10)
    (hsees : c.Sees lost S (Clock.start feeds) (Clock.start feeds')) (hopening : ∀ w w', S w w' → S (c.opening w) (c.opening w'))
    (hlost : ∀ w, lost w → lost (c.opening w)) (hS : S b.world b'.world) (hb : b' = b.capture b'.world) (hnone : b.positions = [])
    (h : c.start feeds b = .ok e) (h' : c.start feeds' b' = .ok e') (hkept : ¬ lost e.broker.world) :
    Tied S (DeliveredBy feeds 0) e e' := by
  have hopen : b.OpenOn (Clock.start feeds).Delivering := fun pos hpos => absurd (hnone ▸ hpos) List.not_mem_nil
  have hstart : BackBroker.Agreed lost S (Clock.start feeds).Delivering b b' := .inr ⟨hb, hS, hopen⟩
  let phases (clock : Clock α) (b : BackBroker α W) (si : Nat) : BackBroker α W :=
    c.phase .start clock (c.phase .init clock b si) si
  have hphases : BackBroker.Agreed lost S (Clock.start feeds).Delivering
      ((List.range c.strategies).foldl (phases (Clock.start feeds)) b)
      ((List.range c.strategies).foldl (phases (Clock.start feeds')) b') := List.foldl_rel hstart fun si _ b b' hR =>
    drive_together hsees hflat .start si c.fuel (drive_together hsees hflat .init si c.fuel hR)
  obtain ⟨-, -, h⟩ := bind_eq_ok.1 h
  obtain ⟨-, -, h⟩ := bind_eq_ok.1 h
  obtain ⟨-, -, h'⟩ := bind_eq_ok.1 h'
  obtain ⟨-, -, h'⟩ := bind_eq_ok.1 h'
  cases h
  cases h'
  obtain ⟨heq, hS', hopen'⟩ := hphases.resolve_left fun hl => hkept (hlost _ hl)
  refine ⟨?_, hopening _ _ hS', rfl, hopen'.mono fun k => delivering_start.1⟩
  rw [heq]
  rfl

end Cerebro

end StratForge
