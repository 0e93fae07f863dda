import StratForge.EngineStays
import StratForge.TradeBook

/-!
# Whose bars a live trade counts

The broker of a live engine has one bar index, that of the symbol which has ticked last, and books a fill of any
symbol at it. A `FillStamp` is a fill that opens or ends a trade, as it comes in: how many ticks its feed has had, and
at which index it is booked. The surroundings write them down (`noting`); no definition of the engine reads the log.

`Noted` is what holds of the trades and the log in every state, whatever the ticks are: a trade has the bars of the
stamps that opened and ended it, and the stamps of a feed count up. Where every stamp is at the last bar of its own
feed, the bars of the trades are (`bars_of_own_feed`).
-/

namespace StratForge

structure FillStamp where
  dataIndex : Nat
  /-- `bars_pushed` of the order's feed: one bar for each tick. -/
  ticks : Nat
  /-- `data_bar_index_`. -/
  barIndex : Nat
  time : DateTime
deriving DecidableEq, Repr

/-- The symbol that has ticked last has as many bars as the order's feed. -/
def FillStamp.Own (f : FillStamp) : Prop := f.barIndex + 1 = f.ticks

instance : DecidablePred FillStamp.Own := fun f => inferInstanceAs (Decidable (f.barIndex + 1 = f.ticks))

namespace LiveEngine
variable {α W : Type}

/-- `bars_pushed` of a feed. -/
def ticks (e : LiveEngine α W) (k : Nat) : Nat := (delivered e).getD k 0

variable [Arith α]

/-- A fill of `s` on feed `k` opens a trade, ends one, or does both. -/
def turns (k : Nat) (s : α) (e : LiveEngine α W) : Bool :=
  let old := (e.position k).size
  if Arith.abs old < 1e-10 then true
  else
    match e.openTrades[e.openTradeIdx k]? with
    | none => false
    | some (t, _) =>
      decide (Arith.abs t.size < 1e-10) || !decide (1e-10 ≤ Arith.abs (t.size + s)) ||
        (!decide ((0 < old ∧ 0 < s) ∨ (old < 0 ∧ s < 0)) && decide (Arith.abs t.size < Arith.abs s))

/-- The stamp of a call, if it is a fill that is booked and opens or ends a trade. -/
def stamps (c : EngineCmd α) (e : LiveEngine α W) : List FillStamp :=
  match c with
  | .fill t =>
    match e.findOrder t.id with
    | none => []
    | some o =>
      if e.engine.active && !e.engine.aborted && !decide (Arith.abs (fillSize t e) < 1e-12) &&
          turns o.dataIndex (fillSize t e) e then
        [⟨o.dataIndex, ticks e o.dataIndex, e.dataBarIndex, if t.isClosed then t.exitTime else t.entryTime⟩]
      else []
  | _ => []

def log (e : LiveEngine α (W × List FillStamp)) : List FillStamp := e.engine.captured.2

/-- The surroundings write down a call before it is made. -/
def note (c : EngineCmd α) (e : LiveEngine α (W × List FillStamp)) : LiveEngine α (W × List FillStamp) :=
  modify ({ · with captured := (e.engine.captured.1, log e ++ stamps c e) }) e

/-- A session in which every call is written down. -/
def session (env : Env α (W × List FillStamp)) (e : LiveEngine α (W × List FillStamp)) (cs : List (EngineCmd α)) :
    LiveEngine α (W × List FillStamp) :=
  cs.foldl (fun e c => exec env c (note c e)) e

end LiveEngine

/-- The same surroundings, which write down the calls that they make. -/
def EngineListener.noting {α W : Type} [Arith α] (L : EngineListener α (W × List FillStamp)) :
    EngineListener α (W × List FillStamp) where
  act ev e :=
    match L.act ev e with
    | ((w, _), none) => ((w, e.log), none)
    | ((w, _), some c) => ((w, e.log ++ LiveEngine.stamps c e), some c)
  preOrderHook side size k e :=
    let (por, w, _) := L.preOrderHook side size k e
    (por, w, e.log)
  minimumPeriod := L.minimumPeriod
  spare := L.spare

/-! ### The bars of one trade -/

namespace Trade
variable {α : Type} {t : Trade α} {f g : FillStamp} {log log' : List FillStamp}

structure OpenedBy (t : Trade α) (f : FillStamp) : Prop where
  dataIndex : f.dataIndex = t.dataIndex
  entryBar : t.entryBar = f.barIndex
  entryTime : t.entryTime = f.time

structure EndedBy (t : Trade α) (g : FillStamp) : Prop where
  dataIndex : g.dataIndex = t.dataIndex
  exitBar : t.exitBar = g.barIndex
  exitTime : t.exitTime = g.time
  barlen : t.barlen = if t.entryBar ≤ t.exitBar then t.exitBar - t.entryBar else 0

variable [Arith α]

/-- The bars of a trade are those of its stamps, the one that opened it not later than the one that ended it. -/
structure Stamped (log : List FillStamp) (t : Trade α) : Prop where
  opened : (Arith.abs t.size < 1e-10 ∧ t.isopen = false ∧ t.status = .Open) ∨ ∃ f ∈ log, t.OpenedBy f
  ended : t.status = .Closed → ∃ l g, l ++ [g] <+: log ∧ t.EndedBy g ∧ ∃ f ∈ l ++ [g], t.OpenedBy f

theorem Stamped.mono (h : t.Stamped log) (hlog : log <+: log') : t.Stamped log' := by
  refine ⟨h.opened.imp_right fun ⟨f, hf, ho⟩ => ⟨f, hlog.mem hf, ho⟩, fun hs => ?_⟩
  obtain ⟨l, g, hl, hg⟩ := h.ended hs
  exact ⟨l, g, hl.trans hlog, hg⟩

theorem stamped_fresh (hzero : Arith.abs (0 : α) < 1e-10) (id k cand : Nat) : (fresh id k cand : Trade α).Stamped log :=
  ⟨.inl ⟨hzero, rfl, rfl⟩, fun h => nomatch h⟩

/-- When a trade was opened, and how long it has been. -/
def bars (t : Trade α) : Nat × DateTime × Nat := (t.entryBar, t.entryTime, t.barlen)

theorem stampEntry_bars (old : α) (bar : Nat) (dt : DateTime) : (t.stampEntry old bar dt).bars =
    (if Arith.abs old < 1e-10 then bar else t.entryBar, if Arith.abs old < 1e-10 then dt else t.entryTime, t.barlen) := by
  unfold stampEntry
  by_cases h : Arith.abs old < 1e-10
  · simp [h, bars]
  · simp [h, bars]

theorem reprice_bars (old s p : α) : (t.reprice old s p).bars = t.bars := by
  unfold reprice
  split_ifs <;> rfl

theorem enterAt_bars (p : α) : (t.enterAt p).bars = t.bars := by
  unfold enterAt
  split_ifs <;> rfl

theorem finish_bars (p : α) (bar : Nat) (dt : DateTime) : (t.finish p bar dt).bars = t.bars ∧
    ((t.finish p bar dt).status = .Closed → (t.finish p bar dt).exitBar = bar ∧ (t.finish p bar dt).exitTime = dt) := by
  unfold finish
  split_ifs
  · exact ⟨rfl, fun _ => ⟨rfl, rfl⟩⟩
  · exact ⟨rfl, fun h => nomatch h⟩

/-- What a fill does to the bars of a trade. -/
theorem update_bars {s : α} (hs : ¬ Arith.abs s < 1e-10) (p c : α) (bar : Nat) (dt : DateTime) :
    (t.update s p c bar dt).entryBar = (if Arith.abs t.size < 1e-10 then bar else t.entryBar) ∧
      (t.update s p c bar dt).entryTime = (if Arith.abs t.size < 1e-10 then dt else t.entryTime) ∧
      (t.update s p c bar dt).barlen = (if (t.update s p c bar dt).entryBar ≤ bar then
        bar - (t.update s p c bar dt).entryBar else 0) ∧
      ((t.update s p c bar dt).status = .Closed →
        (t.update s p c bar dt).exitBar = bar ∧ (t.update s p c bar dt).exitTime = dt) := by
  rw [update_eq t s p c bar dt hs]
  let t₁ : Trade α := ({ t with commission := t.commission + c, size := t.size + s } : Trade α).stampEntry t.size bar dt
  obtain ⟨hfin, hend⟩ := finish_bars (t := ((((t₁.flag t.size bar).reprice t.size s p).settle).enterAt p)) p bar dt
  have hbars : ((((((t₁.flag t.size bar).reprice t.size s p).settle).enterAt p).finish p bar dt)).bars =
      (t₁.flag t.size bar).bars :=
    hfin.trans ((enterAt_bars p).trans (reprice_bars ..))
  have h₁ := stampEntry_bars (t := { t with commission := t.commission + c, size := t.size + s }) t.size bar dt
  have hbar := congrArg Prod.fst hbars
  refine ⟨hbar.trans (congrArg Prod.fst h₁), (congrArg (·.2.1) hbars).trans (congrArg (·.2.1) h₁), ?_, hend⟩
  refine (congrArg (·.2.2) hbars).trans ?_
  exact congrArg (fun n => if n ≤ bar then bar - n else 0) hbar.symm

/-- A fill with its stamp, which is the last one. -/
theorem Stamped.update (h : t.Stamped (log ++ [g])) (hk : g.dataIndex = t.dataIndex) (s p c : α) :
    (t.update s p c g.barIndex g.time).Stamped (log ++ [g]) := by
  by_cases hs : Arith.abs s < 1e-10
  · rw [update_negligible t s p c _ _ hs]
    exact h
  · have hu := updated t s p c g.barIndex g.time hs
    obtain ⟨hentry, htime, hlen, hend⟩ := update_bars hs p c g.barIndex g.time (t := t)
    have hopened : ∃ f ∈ log ++ [g], (t.update s p c g.barIndex g.time).OpenedBy f := by
      by_cases hnew : Arith.abs t.size < 1e-10
      · rw [if_pos hnew] at hentry htime
        exact ⟨g, by simp, hk.trans hu.dataIndex.symm, hentry, htime⟩
      · rw [if_neg hnew] at hentry htime
        obtain ⟨hsmall, -⟩ | ⟨f, hf, ho⟩ := h.opened
        · exact absurd hsmall hnew
        · exact ⟨f, hf, ho.dataIndex.trans hu.dataIndex.symm, hentry.trans ho.entryBar, htime.trans ho.entryTime⟩
    refine ⟨.inr hopened, fun hst => ⟨log, g, List.prefix_rfl, ⟨hk.trans hu.dataIndex.symm, ?_, ?_, ?_⟩, hopened⟩⟩
    · exact (hend hst).1
    · exact (hend hst).2
    · rw [(hend hst).1]
      exact hlen

/-- A fill that neither opens nor ends the trade. -/
theorem Stamped.update_within (h : t.Stamped log) {s : α} (hsize : ¬ Arith.abs t.size < 1e-10)
    (hend : 1e-10 ≤ Arith.abs (t.size + s)) (p c : α) (bar : Nat) (dt : DateTime) :
    (t.update s p c bar dt).Stamped log := by
  by_cases hs : Arith.abs s < 1e-10
  · rw [update_negligible t s p c _ _ hs]
    exact h
  · have hu := updated t s p c bar dt hs
    obtain ⟨hentry, htime, -⟩ := update_bars hs p c bar dt (t := t)
    rw [if_neg hsize] at hentry htime
    obtain ⟨hsmall, -⟩ | ⟨f, hf, ho⟩ := h.opened
    · exact absurd hsmall hsize
    · refine ⟨.inr ⟨f, hf, ho.dataIndex.trans hu.dataIndex.symm, hentry.trans ho.entryBar, htime.trans ho.entryTime⟩, fun hst => ?_⟩
      rw [hu.status, if_neg fun hc => hc.2 hend] at hst
      cases hst

end Trade

/-! ### The trades and the log -/

namespace LiveEngine
variable {α W : Type} [Arith α] {e e' : LiveEngine α (W × List FillStamp)} {l : List FillStamp}

/-- `l` has been written down, the stamps of a feed count up to its ticks, and the trades have their stamps. -/
structure Noted (l : List FillStamp) (e : LiveEngine α (W × List FillStamp)) : Prop where
  prior : l <+: log e
  ordered : (log e).Pairwise fun f g => f.dataIndex = g.dataIndex → f.ticks ≤ g.ticks
  behind : ∀ f ∈ log e, f.ticks ≤ ticks e f.dataIndex
  opened : ∀ x ∈ e.openTrades, x.1.Stamped (log e)
  closed : ∀ x ∈ e.closedTrades, x.1.Stamped (log e)

theorem Noted.of_log (h : Noted l e) (hl : log e' = log e) (ht : ∀ k, ticks e k ≤ ticks e' k)
    (ho : ∀ x ∈ e'.openTrades, x.1.Stamped (log e)) (hc : ∀ x ∈ e'.closedTrades, x.1.Stamped (log e)) : Noted l e' :=
  ⟨hl ▸ h.prior, hl ▸ h.ordered, fun f hf => (h.behind f (hl ▸ hf)).trans (ht _), fun x hx => hl ▸ ho x hx,
    fun x hx => hl ▸ hc x hx⟩

omit [Arith α] in
theorem ticks_congr (h : e'.engine.feeds = e.engine.feeds) (k : Nat) : ticks e' k = ticks e k :=
  congrArg (fun feeds => (feeds.map fun f : String × DataFeed α => f.2.size).getD k 0) h

theorem Noted.written (h : Noted l e) : Noted (log e) e := ⟨List.prefix_rfl, h.ordered, h.behind, h.opened, h.closed⟩

theorem Noted.of_prefix (h : Noted l e) {l₀ : List FillStamp} (hl : l₀ <+: l) : Noted l₀ e :=
  ⟨hl.trans h.prior, h.ordered, h.behind, h.opened, h.closed⟩

theorem Noted.frame (h : Noted l e) (hm : Unmoved e e') : Noted l e' :=
  h.of_log (congrArg Prod.snd hm.captured) (fun k => (ticks_congr hm.feeds k).ge) (fun x hx => h.opened x (hm.openTrades ▸ hx))
    fun x hx => h.closed x (hm.closedTrades ▸ hx)

omit [Arith α] in
theorem ticks_addFeed (symbol : String) (e : LiveEngine α (W × List FillStamp)) (k : Nat) :
    ticks e k ≤ ticks (addFeed symbol e) k := by
  show (delivered e).getD k 0 ≤ ((e.engine.feeds ++ [(symbol, ({} : DataFeed α))]).map fun f => f.2.size).getD k 0
  rw [List.map_append, List.getD_eq_getElem?_getD, List.getD_eq_getElem?_getD]
  by_cases hk : k < (delivered e).length
  · exact (congrArg (Option.getD · 0) (List.getElem?_append_left hk)).ge
  · rw [List.getElem?_eq_none (not_lt.1 hk)]
    exact Nat.zero_le _

theorem ticks_pushBar (i : Nat) (s : MarketDataSnapshot α) (e : LiveEngine α (W × List FillStamp)) (k : Nat) :
    ticks e k ≤ ticks (pushBar i s e) k := by
  show ((e.engine.feeds.map fun f : String × DataFeed α => f.2.size)).getD k 0 ≤
    ((e.engine.feeds.modify i fun x => (x.1, x.2.pushSnapshot s)).map fun f => f.2.size).getD k 0
  simp only [List.getD_eq_getElem?_getD, List.getElem?_map, List.getElem?_modify]
  cases e.engine.feeds[k]? with
  | none => simp
  | some f =>
    by_cases hik : i = k
    · simp [hik, DataFeed.pushSnapshot, DataFeed.forwardRow, DataFeed.size_eq, Line.forward]
    · simp [hik]

theorem Noted.addFeed (h : Noted l e) (symbol : String) : Noted l (addFeed symbol e) :=
  h.of_log rfl (ticks_addFeed symbol e) h.opened h.closed

theorem Noted.pushBar (h : Noted l e) (i : Nat) (s : MarketDataSnapshot α) : Noted l (pushBar i s e) :=
  h.of_log rfl (ticks_pushBar i s e) h.opened h.closed

/-! ### One fill -/

/-- The surroundings keep what is noted. -/
def Keeps (env : Env α (W × List FillStamp)) : Prop := ∀ l, EngineStays env (Noted l)

variable {env : Env α (W × List FillStamp)} {submit : Order α → LiveEngine α (W × List FillStamp) → LiveEngine α (W × List FillStamp)}

omit [Arith α] in
theorem mem_of_openTradeIdx {b : BackBroker α W} {k : Nat} {x : Trade α × α} (h : b.openTrades[b.openTradeIdx k]? = some x) :
    x ∈ b.openTrades ∧ x.1.dataIndex = k := by
  obtain ⟨hi, rfl⟩ := List.getElem?_eq_some_iff.1 h
  have := List.findIdx_getElem (p := fun t : Trade α × α => t.1.dataIndex == k && t.1.isOpen) (w := hi)
  rw [Bool.and_eq_true, beq_iff_eq] at this
  exact ⟨List.getElem_mem hi, this.1⟩

theorem Noted.set (h : Noted l e) (i : Nat) {t : Trade α} (ht : t.Stamped (log e)) (orig : α) :
    Noted l { e with openTrades := e.openTrades.set i (t, orig) } :=
  h.of_log rfl (fun _ => le_rfl) (fun _ hx => (List.mem_or_eq_of_mem_set hx).elim (h.opened _) fun heq => heq ▸ ht) h.closed

theorem Noted.retireTrade (hS : Keeps env) (h : Noted l e) (i : Nat) {t : Trade α} (ht : t.Stamped (log e)) (orig : α) :
    Noted l (e.retireTrade (hooksWith env submit).toHooks i t orig) := by
  have h1 : Noted l { e with openTrades := e.openTrades.set i (t, orig), closedTrades := e.closedTrades ++ [(t, orig)] } := by
    refine (h.set i ht orig).of_log rfl (fun _ => le_rfl) (h.set i ht orig).opened fun x hx => ?_
    rcases List.mem_append.1 hx with hx | hx
    · exact h.closed x hx
    · obtain rfl := List.mem_singleton.1 hx
      exact ht
  have h2 := (hS l).call (.trade t orig) h1
  exact h2.of_log rfl (fun _ => le_rfl) (fun x hx => h2.opened x (List.mem_of_mem_eraseIdx hx)) h2.closed

/-- A trade that is opened has the stamp that came last when the fill came in. -/
theorem Noted.openTrade (hzero : Arith.abs (0 : α) < 1e-10) {g : FillStamp} (h : Noted (l ++ [g]) e) (s p c : α) (cand : Nat) :
    Noted (l ++ [g]) (e.openTrade g.dataIndex s p c g.barIndex g.time cand) := by
  have hfresh : Trade.Stamped (l ++ [g]) ((Trade.fresh e.nextTradeId g.dataIndex cand).update s p c g.barIndex g.time) :=
    (Trade.stamped_fresh hzero e.nextTradeId g.dataIndex cand).update rfl s p c
  refine h.of_log rfl (fun _ => le_rfl) (fun x hx => ?_) h.closed
  rcases List.mem_append.1 hx with hx | hx
  · exact h.opened x hx
  · obtain rfl := List.mem_singleton.1 hx
    exact hfresh.mono h.prior

/-- A fill that opens or ends a trade, with its stamp written down. -/
theorem Noted.updateTrades (hS : Keeps env) (hzero : Arith.abs (0 : α) < 1e-10) {g : FillStamp} (h : Noted (l ++ [g]) e)
    (hlog : log e = l ++ [g]) (old s p c : α) (cand : Nat) :
    Noted (l ++ [g]) (e.updateTrades (hooksWith env submit).toHooks g.dataIndex old s p c g.barIndex g.time cand) := by
  have hup : ∀ {x : Trade α × α}, e.openTrades[e.openTradeIdx g.dataIndex]? = some x → ∀ s p c,
      (x.1.update s p c g.barIndex g.time).Stamped (log e) := fun hx s p c => by
    obtain ⟨hmem, hk⟩ := mem_of_openTradeIdx hx
    rw [hlog]
    exact (hlog ▸ h.opened _ hmem).update hk.symm s p c
  unfold BackBroker.updateTrades
  dsimp only
  split_ifs
  · exact h.openTrade hzero s p c cand
  · refine h.of_log rfl (fun _ => le_rfl) (fun y hy => ?_) h.closed
    rcases Fold.mem_modify hy with hy | ⟨x, hx, rfl⟩
    exacts [h.opened y hy, hup hx s p c]
  · split
    · exact h
    · rename_i hx
      split_ifs
      · exact (h.retireTrade hS _ (hup hx ..) _).openTrade hzero ..
      · exact h.retireTrade hS _ (hup hx ..) _
      · exact h.set _ (hup hx ..) _

/-- A fill that neither opens nor ends a trade. -/
theorem Noted.updateTrades_within (hS : Keeps env) (h : Noted l e) {k : Nat} {old s : α} (hold : ¬ Arith.abs old < 1e-10)
    (hfound : ∀ x, e.openTrades[e.openTradeIdx k]? = some x → ¬ Arith.abs x.1.size < 1e-10 ∧
      1e-10 ≤ Arith.abs (x.1.size + s) ∧ ((0 < old ∧ 0 < s ∨ old < 0 ∧ s < 0) ∨ ¬ Arith.abs x.1.size < Arith.abs s))
    (p c : α) (bar : Nat) (dt : DateTime) (cand : Nat) :
    Noted l (e.updateTrades (hooksWith env submit).toHooks k old s p c bar dt cand) := by
  have hup : ∀ {x : Trade α × α}, e.openTrades[e.openTradeIdx k]? = some x → (x.1.update s p c bar dt).Stamped (log e) :=
    fun hx => (h.opened _ (mem_of_openTradeIdx hx).1).update_within (hfound _ hx).1 (hfound _ hx).2.1 p c bar dt
  unfold BackBroker.updateTrades
  dsimp only
  rw [if_neg hold]
  split_ifs with hside
  · refine h.of_log rfl (fun _ => le_rfl) (fun y hy => ?_) h.closed
    rcases Fold.mem_modify hy with hy | ⟨x, hx, rfl⟩
    exacts [h.opened y hy, hup hx]
  · split
    · exact h
    · rename_i t orig hx
      obtain ⟨hsize, hend, hle⟩ := hfound _ hx
      rw [if_neg (hle.resolve_left hside)]
      split_ifs
      · exact h.retireTrade hS _ (hup hx) _
      · exact h.set _ (hup hx) _

theorem position_ensurePosition (b : BackBroker α W) (k : Nat) : ((b.ensurePosition k).position k).size = (b.position k).size := by
  rw [BackBroker.position_size, BackBroker.position_size, @BackBroker.holding_ensured _ _ _ b (b.ensurePosition k) rfl ⟨[k], rfl⟩]

/-- Whether a fill opens or ends a trade is seen before it is booked. -/
theorem Noted.booked (hS : Keeps env) (hzero : Arith.abs (0 : α) < 1e-10) {o : Order α} {t : Trade α} (h : Noted l e)
    {l' : List FillStamp} (hlog : log e = l' ++ (if turns o.dataIndex (fillSize t e) e then
      [⟨o.dataIndex, ticks e o.dataIndex, e.dataBarIndex, if t.isClosed then t.exitTime else t.entryTime⟩] else [])) :
    Noted l (booked (hooksWith env submit) o t e) := by
  let s := fillSize t e
  let price := BackBroker.liveFillPrice (e.world.snapshots t.id) t
  let comm := t.commission - ((e.world.snapshots t.id).map Trade.commission).getD 0
  let e₁ : LiveEngine α (W × List FillStamp) := ((((e.liveNote (.booking o (e.world.snapshots t.id) t)).setBusy
    (o.id :: e.world.busy)).pay (e.settleCcy o.dataIndex) (s * price + comm)).ensurePosition o.dataIndex)
  let e₂ : LiveEngine α (W × List FillStamp) := e₁.updatePosition o.dataIndex s price
  have hold : (e₁.position o.dataIndex).size = (e.position o.dataIndex).size := position_ensurePosition ..
  show Noted l (e₂.updateTrades (hooksWith env submit).toHooks o.dataIndex (e₁.position o.dataIndex).size s price comm
    e.dataBarIndex (if t.isClosed then t.exitTime else t.entryTime) o.candidateId)
  rw [hold]
  have h₂ : Noted (log e) e₂ := h.written.of_log rfl (fun _ => le_rfl) h.opened h.closed
  refine of_prefix ?_ h.prior
  by_cases hturn : turns o.dataIndex (fillSize t e) e
  · rw [if_pos hturn] at hlog
    rw [hlog] at h₂ ⊢
    exact h₂.updateTrades hS hzero hlog _ s price comm o.candidateId
  · unfold turns at hturn
    dsimp only at hturn
    have hflat : ¬ Arith.abs (e.position o.dataIndex).size < 1e-10 := fun hflat => hturn (if_pos hflat)
    rw [if_neg hflat] at hturn
    refine h₂.updateTrades_within hS hflat (fun x hx => ?_) ..
    rw [show e.openTrades[e.openTradeIdx o.dataIndex]? = some x from hx] at hturn
    rw [Bool.or_eq_true, Bool.or_eq_true, Bool.and_eq_true, not_or, not_or, not_and] at hturn
    simp only [Bool.not_eq_true', decide_eq_true_eq, decide_eq_false_iff_not, not_not] at hturn
    exact ⟨hturn.1.1, hturn.1.2, or_iff_not_imp_left.2 hturn.2⟩

/-! ### A session -/

/-- A stamp is at the ticks there are. -/
theorem Noted.noteLog (h : Noted l e) (c : EngineCmd α) (w : W) :
    Noted l (modify ({ · with captured := (w, log e ++ stamps c e) }) e) := by
  have hnow : ∀ g ∈ stamps c e, g.ticks = ticks e g.dataIndex := by
    intro g hg
    unfold stamps at hg
    cases c with
    | fill t =>
      dsimp only at hg
      split at hg
      · cases hg
      · split at hg
        · obtain rfl := List.mem_singleton.1 hg
          rfl
        · cases hg
    | _ => cases hg
  have hone : (stamps c e).Pairwise fun f g => f.dataIndex = g.dataIndex → f.ticks ≤ g.ticks :=
    List.pairwise_of_forall_mem_list fun f hf g hg heq => by rw [hnow f hf, hnow g hg, heq]
  refine ⟨h.prior.trans (List.prefix_append ..), ?_, fun f hf => ?_, fun x hx => (h.opened x hx).mono (List.prefix_append ..),
    fun x hx => (h.closed x hx).mono (List.prefix_append ..)⟩
  · refine List.pairwise_append.2 ⟨h.ordered, hone, fun f hf g hg heq => ?_⟩
    rw [hnow g hg, ← heq]
    exact h.behind f hf
  · rcases List.mem_append.1 (show f ∈ log e ++ stamps c e from hf) with hf | hf
    exacts [h.behind f hf, (hnow f hf).le]

theorem stamps_fill {t : Trade α} {o : Order α} (hrun : e.engine.aborted = false) (hactive : e.engine.active = true)
    (hf : e.findOrder t.id = some o) (hsize : ¬ Arith.abs (fillSize t e) < 1e-12) :
    stamps (.fill t) e = if turns o.dataIndex (fillSize t e) e then
      [⟨o.dataIndex, ticks e o.dataIndex, e.dataBarIndex, if t.isClosed then t.exitTime else t.entryTime⟩] else [] := by
  unfold stamps
  dsimp only
  rw [hf]
  dsimp only
  rw [hactive, hrun, decide_eq_false hsize]
  rfl

/-- A call that is written down is made. -/
theorem Noted.exec (hS : Keeps env) (hzero : Arith.abs (0 : α) < 1e-10) (h : Noted l e) (c : EngineCmd α) (w : W) :
    Noted l (exec env c (modify ({ · with captured := (w, log e ++ stamps c e) }) e)) := by
  have hn := h.noteLog c w
  refine (hS l).exec (fun h _ => h.of_log rfl (fun _ => le_rfl) h.opened h.closed) (fun i s _ h => h.pushBar i s) c ⟨?_, ?_⟩ hn
  · rintro t o rfl hrun hactive hf hsize
    exact hn.booked hS hzero (congrArg (log e ++ ·) (stamps_fill hrun hactive hf hsize))
  · intro symbol _ _
    exact hn.addFeed symbol

end LiveEngine

open LiveEngine

namespace EngineListener
variable {α W : Type} [Arith α] (L : EngineListener α (W × List FillStamp))

/-- By induction on the bound on the callbacks. -/
theorem noting_react (hzero : Arith.abs (0 : α) < 1e-10) : ∀ n l ev {e}, Noted l e → Noted l (L.noting.react n ev e)
  | 0, _, _, _, he => he
  | n + 1, l, ev, e, he => by
    have hS : Keeps (L.noting.envOf (L.noting.react n)) := fun l =>
      ⟨fun hm h => h.frame hm, fun ev _ h => noting_react hzero n l ev h,
        fun _ _ _ _ h => h.of_log rfl (fun _ => le_rfl) h.opened h.closed⟩
    unfold react
    rcases hr : L.act ev e with ⟨⟨w, l'⟩, _ | c⟩
    · rw [show L.noting.act ev e = ((w, e.log), none) by simp only [noting, hr]]
      exact he.of_log rfl (fun _ => le_rfl) he.opened he.closed
    · rw [show L.noting.act ev e = ((w, e.log ++ stamps c e), some c) by simp only [noting, hr]]
      exact noting_react hzero n l ev (he.exec hS hzero c w)

theorem noting_keeps (hzero : Arith.abs (0 : α) < 1e-10) (fuel : Nat) : Keeps (L.noting.env fuel) := fun l =>
  ⟨fun hm h => h.frame hm, fun ev _ h => L.noting_react hzero fuel l ev h,
    fun _ _ _ _ h => h.of_log rfl (fun _ => le_rfl) h.opened h.closed⟩

theorem noted_session (hzero : Arith.abs (0 : α) < 1e-10) (fuel : Nat) {e : LiveEngine α (W × List FillStamp)}
    (h : e.Unstarted) (hlog : e.log = []) (cs : List (EngineCmd α)) : Noted [] (session (L.noting.env fuel) e cs) := by
  have h0 : Noted [] e := by
    refine ⟨List.nil_prefix, ?_, fun f hf => ?_, fun x hx => ?_, fun x hx => ?_⟩
    · rw [hlog]
      exact .nil
    · rw [hlog] at hf
      cases hf
    · rw [h.openTrades] at hx
      cases hx
    · rw [h.closedTrades] at hx
      cases hx
  exact Fold.foldl_ind (Noted []) cs e h0 fun _ _ _ he => he.exec (L.noting_keeps hzero fuel) hzero _ _

end EngineListener

/-- Where every fill that opens or ends a trade comes in at an index that is the last bar of its own feed, a trade has
bars of its own feed: of the stamp that opened it and, once closed, of the one that ended it, which is not before. -/
theorem bars_of_own_feed {α W : Type} [Arith α] (hzero : Arith.abs (0 : α) < 1e-10) (L : EngineListener α (W × List FillStamp))
    (fuel : Nat) (e₀ : LiveEngine α (W × List FillStamp)) (cs : List (EngineCmd α)) (hstart : e₀.Unstarted) (hlog : e₀.log = []) :
    let e := session (L.noting.env fuel) e₀ cs
    (∀ f ∈ e.log, f.Own) → ∀ x ∈ e.openTrades ++ e.closedTrades,
      (x.1.isopen = true ∨ x.1.isClosed = true → ∃ f ∈ e.log, f.dataIndex = x.1.dataIndex ∧ x.1.entryTime = f.time ∧
        x.1.entryBar + 1 = f.ticks) ∧
      (x.1.isClosed = true → ∃ f ∈ e.log, ∃ g ∈ e.log, (f.dataIndex = x.1.dataIndex ∧ x.1.entryTime = f.time ∧
        x.1.entryBar + 1 = f.ticks) ∧ (g.dataIndex = x.1.dataIndex ∧ x.1.exitTime = g.time ∧ x.1.exitBar + 1 = g.ticks) ∧
        x.1.entryBar ≤ x.1.exitBar ∧ x.1.barlen = g.ticks - f.ticks) := by
  intro e hown x hx
  have hn : Noted [] e := L.noted_session hzero fuel hstart hlog cs
  have hst : x.1.Stamped e.log := (List.mem_append.1 hx).elim (hn.opened x) (hn.closed x)
  refine ⟨fun h => ?_, fun h => ?_⟩
  · obtain ⟨-, hisopen, hopen⟩ | ⟨f, hf, ho⟩ := hst.opened
    · rw [hisopen, Trade.isClosed, hopen] at h
      simp at h
    · exact ⟨f, hf, ho.dataIndex, ho.entryTime, by rw [ho.entryBar, hown f hf]⟩
  · obtain ⟨l, g, hl, hg, f, hf, ho⟩ := hst.ended (of_decide_eq_true h)
    have hfl : f ∈ e.log := hl.mem hf
    have hgl : g ∈ e.log := hl.mem (by simp)
    have hfo : f.barIndex + 1 = f.ticks := hown f hfl
    have hgo : g.barIndex + 1 = g.ticks := hown g hgl
    have hle : f.ticks ≤ g.ticks := by
      rcases List.mem_append.1 hf with hf | hf
      · have hord := (List.pairwise_append.1 (hn.ordered.sublist hl.sublist)).2.2
        exact hord f hf g (List.mem_singleton_self _) (ho.dataIndex.trans hg.dataIndex.symm)
      · obtain rfl := List.mem_singleton.1 hf
        exact le_rfl
    have hentry := ho.entryBar
    have hexit := hg.exitBar
    have hbarle : x.1.entryBar ≤ x.1.exitBar := by omega
    refine ⟨f, hfl, g, hgl, ⟨ho.dataIndex, ho.entryTime, by omega⟩, ⟨hg.dataIndex, hg.exitTime, by omega⟩, hbarle, ?_⟩
    rw [hg.barlen, if_pos hbarle]
    omega

/-- Surroundings that only write down. -/
def EngineListener.scribe : EngineListener ℚ (Unit × List FillStamp) :=
  { act := fun _ e => (e.engine.captured, none), preOrderHook := fun _ size _ e => (⟨0, size, false⟩, e.engine.captured),
    minimumPeriod := fun _ _ => 0, spare := 0 }

def LiveEngine.recorded : LiveEngine ℚ (Unit × List FillStamp) :=
  .init .USD 1000 none
    { symbols := [], snapshots := fun _ => none, busy := [], events := [],
      rest := { (LiveEngine.funded (.rate none)).engine with captured := ((), []) } }

/-- One symbol of two ticks, a trade from the first to the second. -/
theorem bars_of_own_feed_single :
    let cs : List (EngineCmd ℚ) := [.subscribe "PRIMARY", .start, .marketData ⟨"PRIMARY", 100, 1, 0⟩,
      .broker (.buy 1 0 none .Market 0), .fill (.ofFill 1 1 100 0), .marketData ⟨"PRIMARY", 101, 1, 60⟩,
      .broker (.close 0), .fill (.ofFill 2 (-1) 101 0)]
    let e := session (EngineListener.scribe.noting.env 1) LiveEngine.recorded cs
    e.closedTrades.length = 1 ∧ ∀ x ∈ e.openTrades ++ e.closedTrades,
      (x.1.isopen = true ∨ x.1.isClosed = true → ∃ f ∈ e.log, f.dataIndex = x.1.dataIndex ∧ x.1.entryTime = f.time ∧
        x.1.entryBar + 1 = f.ticks) ∧
      (x.1.isClosed = true → ∃ f ∈ e.log, ∃ g ∈ e.log, (f.dataIndex = x.1.dataIndex ∧ x.1.entryTime = f.time ∧
        x.1.entryBar + 1 = f.ticks) ∧ (g.dataIndex = x.1.dataIndex ∧ x.1.exitTime = g.time ∧ x.1.exitBar + 1 = g.ticks) ∧
        x.1.entryBar ≤ x.1.exitBar ∧ x.1.barlen = g.ticks - f.ticks) := by
  refine ⟨by decide +kernel, bars_of_own_feed (by norm_num) .scribe 1 .recorded _ ?_ rfl (by decide +kernel)⟩
  exact ⟨⟨BackBroker.fresh_init .., fun _ => rfl, rfl, rfl⟩, rfl, rfl, rfl, rfl, rfl, rfl, rfl, rfl⟩

/-- A trade of the first symbol is opened on its third bar; the second symbol ticks for the first time; the trade is closed,
on bar 0. -/
theorem closed_before_it_opened :
    let e := LiveEngine.run (EngineListener.silent.env 1) (.funded (.rate none))
      [.subscribe "PRIMARY", .subscribe "SECONDARY", .start, .marketData ⟨"PRIMARY", 100, 1, 0⟩,
        .marketData ⟨"PRIMARY", 100, 1, 60⟩, .marketData ⟨"PRIMARY", 100, 1, 120⟩, .broker (.buy 1 0 none .Market 0),
        .fill (.ofFill 1 1 100 0), .marketData ⟨"SECONDARY", 50, 1, 130⟩, .broker (.close 0), .fill (.ofFill 2 (-1) 101 0)]
    e.closedTrades.map (fun x => (x.1.dataIndex, x.1.entryBar, x.1.exitBar, x.1.barlen)) = [(0, 2, 0, 0)] ∧
      e.delivered = [3, 1] := by decide +kernel

end StratForge
