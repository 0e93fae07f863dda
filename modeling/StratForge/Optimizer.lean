import StratForge.Schedule
import StratForge.Resample
import StratForge.WorkPool

/-!
# The optimizer (`engine/optimizer.hpp`)

Worker threads take the parameter maps of the grid one after another and run each over clones of the feeds. `clone()`
of `CsvData` and `InMemoryFeed` makes a new object from the same params or the same span: it has the bars, not the name
and not the timeframe of the original, which belong to `DataFeed`. The optimizer computes what single runs over the
feeds compute exactly where these are the defaults, or nothing is run (`computes_iff`).
-/

namespace StratForge

inductive ParamValue (α : Type)
  | int (n : Int)
  | double (x : α)
  | bool (b : Bool)
  | string (s : String)
deriving DecidableEq, Repr

/-- An `unordered_map`, by its entries. -/
abbrev ParamMap (α : Type) := List (String × ParamValue α)

/-- `m[name] = value`. -/
def ParamMap.assign {α : Type} (m : ParamMap α) (name : String) (value : ParamValue α) : ParamMap α :=
  if m.any (·.1 == name) then m.map fun e => if e.1 == name then (name, value) else e else m ++ [(name, value)]

structure ParamRange (α : Type) where
  name : String
  values : List (ParamValue α)

/-- `generate_param_grid`. -/
def generateParamGrid {α : Type} : List (ParamRange α) → List (ParamMap α)
  | [] => []
  | r :: rest =>
    rest.foldl (fun grid r => grid.flatMap fun existing => r.values.map fun val => existing.assign r.name val)
      (r.values.map fun val => ParamMap.assign [] r.name val)

structure OptResult (α : Type) where
  params : ParamMap α
  finalValue : α
  sharpeRatio : α
  maxDrawdown : α
  totalTrades : Nat

/-- An `InMemoryFeed` or a `CsvData`: the bars of its span or of its file, those that `load()` has still to append, and
the `DataFeed` that it is. -/
structure SourceFeed (α : Type) where
  bars : List (Row α)
  unread : List (Row α)
  self : DataFeed α
  name : String
  loads : self.lines.data ++ unread = bars

namespace SourceFeed
variable {α : Type}

def clone (f : SourceFeed α) : SourceFeed α := { bars := f.bars, unread := f.bars, self := {}, name := "", loads := rfl }

/-- What `preload()` leaves. -/
def preload (f : SourceFeed α) : DataFeed α := (f.unread.foldl DataFeed.forwardRow f.self).home

/-- With the name and the timeframe that a new feed has. -/
structure Plain (f : SourceFeed α) : Prop where
  name : f.name = ""
  timeframe : f.self.timeframe = {}

end SourceFeed

/-- `Optimizer::Config`. -/
structure OptConfig (α : Type) where
  cash : α
  commission : CommissionInfo α
  maxThreads : Nat

/-- The strategy factory and the extractor. The strategy is told the names of the feeds; `final_bars_delivered` is empty
when nothing has been run. -/
structure Trial (α W : Type) where
  factory : List String → ParamMap α → Cerebro α W
  world : ParamMap α → W
  extractor : BackBroker α W → List Nat → ParamMap α → OptResult α

namespace Optimizer
variable {α W : Type} [Arith α]

/-- The extractor on a Cerebro run with these parameters. -/
def singleRun (config : OptConfig α) (t : Trial α W) (feeds : List (SourceFeed α)) (params : ParamMap α) :
    Except Error (OptResult α) :=
  let b := { BackBroker.init .USD config.cash none (t.world params) with legacyCommission := config.commission }
  match feeds.map SourceFeed.preload with
  | [] => .ok (t.extractor b [] params)
  | f :: fs => do
    let e ← (t.factory (feeds.map (·.name)) params).run (f, fs) b
    return t.extractor e.broker (if f.size = 0 then [] else e.clock.slots.map (·.barsDelivered)) params

/-- A feed that is no `SourceFeed` has no clone. -/
def cloneFeeds (feeds : List (SourceFeed α ⊕ Feed α)) : Option (List (SourceFeed α)) :=
  feeds.mapM fun
    | .inl f => some f.clone
    | .inr _ => none

/-- What a worker does with an index. -/
def work (config : OptConfig α) (t : Trial α W) (feeds : List (SourceFeed α ⊕ Feed α)) (grid : List (ParamMap α))
    (idx : Nat) : WorkPool.Outcome (OptResult α) :=
  match grid[idx]? with
  | none => .leaves
  | some params =>
    match cloneFeeds feeds with
    | none => .leaves
    | some clones =>
      match singleRun config t clones params with
      | .error _ => .throws
      | .ok r => .stores { r with params }

def numThreads (config : OptConfig α) (hardwareConcurrency : Nat) : Nat :=
  if config.maxThreads = 0 then (if hardwareConcurrency = 0 then 1 else hardwareConcurrency) else config.maxThreads

def noResult : OptResult α := { params := [], finalValue := 0, sharpeRatio := 0, maxDrawdown := 0, totalTrades := 0 }

/-- The threads as they are launched. -/
def launched (config : OptConfig α) (hardwareConcurrency : Nat) (grid : List (ParamMap α)) : WorkPool.Pool (OptResult α) :=
  .start grid.length (min (numThreads config hardwareConcurrency) grid.length) noResult

/-- `Optimizer::run` returns the results of single runs over the feeds: every interleaving of the threads ends, with all
of them joined and each result that of its parameters. -/
structure Computes (config : OptConfig α) (t : Trial α W) (feeds : List (SourceFeed α)) (ranges : List (ParamRange α))
    (hardwareConcurrency : Nat) : Prop where
  ends : Acc (fun s' s => WorkPool.Step (work config t (feeds.map .inl) (generateParamGrid ranges))
    (generateParamGrid ranges).length s s') (launched config hardwareConcurrency (generateParamGrid ranges))
  results : ∀ s, WorkPool.Runs (work config t (feeds.map .inl) (generateParamGrid ranges)) (generateParamGrid ranges).length
      (launched config hardwareConcurrency (generateParamGrid ranges)) s →
    WorkPool.Final (work config t (feeds.map .inl) (generateParamGrid ranges)) (generateParamGrid ranges).length s →
    s.down = false ∧ (∀ x ∈ s.workers, x = .gone) ∧ s.results.length = (generateParamGrid ranges).length ∧
      ∀ (i : Nat) params, (generateParamGrid ranges)[i]? = some params →
        ∃ r, singleRun config t feeds params = .ok r ∧ s.results[i]? = some { r with params }

end Optimizer

/-! ### Feeds and their clones -/

namespace SourceFeed
variable {α : Type} {f : SourceFeed α}

theorem foldl_forwardRow (rows : List (Row α)) (self : DataFeed α) :
    (rows.foldl DataFeed.forwardRow self).lines.data = self.lines.data ++ rows ∧
      (rows.foldl DataFeed.forwardRow self).timeframe = self.timeframe := by
  induction rows generalizing self with
  | nil => exact ⟨(List.append_nil _).symm, rfl⟩
  | cons r rows ih =>
    obtain ⟨hdata, htf⟩ := ih (self.forwardRow r)
    refine ⟨?_, htf⟩
    rw [List.foldl_cons, hdata, List.append_cons]
    rfl

theorem preload_data (f : SourceFeed α) : f.preload.lines.data = f.bars :=
  (foldl_forwardRow f.unread f.self).1.trans f.loads

theorem preload_timeframe (f : SourceFeed α) : f.preload.timeframe = f.self.timeframe := (foldl_forwardRow f.unread f.self).2

/-- Preloaded, a clone has the bars of the original. -/
theorem preload_clone_lines (f : SourceFeed α) : f.clone.preload.lines = f.preload.lines :=
  Line.ext_data_idx ((preload_data f.clone).trans (preload_data f).symm) rfl

theorem Plain.preload_clone (h : f.Plain) : f.clone.preload = f.preload := by
  have hlines := preload_clone_lines f
  have htf : f.clone.preload.timeframe = f.preload.timeframe :=
    (preload_timeframe f.clone).trans (h.timeframe.symm.trans (preload_timeframe f).symm)
  generalize f.clone.preload = c at hlines htf ⊢
  generalize f.preload = p at hlines htf ⊢
  cases c
  cases p
  cases hlines
  cases htf
  rfl

end SourceFeed

namespace Cerebro
variable {α V W : Type} [Arith α]

/-- The clock of a run is that of any other over the same feeds. -/
theorem clock_upTo (c : Cerebro α V) (c' : Cerebro α W) {feeds : DataFeed α × List (DataFeed α)} {b : BackBroker α V}
    {b' : BackBroker α W} {e₀ : CerebroState α W} (hstart : c'.start feeds b' = .ok e₀) :
    ∀ {n : Nat} {e : CerebroState α V}, c.upTo feeds b n = .ok e → ∃ e', c'.upTo feeds b' n = .ok e' ∧ e'.clock = e.clock := by
  have hclock : ∀ {V : Type} {c : Cerebro α V} {b : BackBroker α V} {e}, c.start feeds b = .ok e → e.clock = Clock.start feeds := by
    intro V c b e h
    obtain ⟨-, -, h⟩ := bind_eq_ok.1 h
    obtain ⟨-, -, h⟩ := bind_eq_ok.1 h
    cases h
    rfl
  intro n
  induction n with
  | zero => exact fun h => ⟨e₀, hstart, (hclock hstart).trans (hclock h).symm⟩
  | succ n ih =>
    intro e h
    obtain ⟨e₁, h₁, h⟩ := bind_eq_ok.1 h
    obtain ⟨e₁', h₁', heq⟩ := ih h₁
    obtain ⟨e₂, h₂, h⟩ := bind_eq_ok.1 h
    have htick := clock_gate h₂
    rw [← heq] at htick
    have hgate : gate n e₁' = .ok { e₁' with clock := e₂.clock, broker := e₁'.broker.setBarIndex n } :=
      bind_eq_ok.2 ⟨e₂.clock, htick, rfl⟩
    refine ⟨_, bind_eq_ok.2 ⟨e₁', h₁', bind_eq_ok.2 ⟨_, hgate, rfl⟩⟩, ?_⟩
    cases h
    show CerebroState.clock (if n + 1 < e₂.clock.master.feed.size then _ else _) =
      CerebroState.clock (if n + 1 < e₂.clock.master.feed.size then _ else _)
    split <;> rfl

end Cerebro

namespace Optimizer
variable {α W : Type} [Arith α]

/-- Something is run over the feeds: there are bars of the master, and neither the plan nor a timeframe stops a run. -/
def Runs (feeds : List (SourceFeed α)) : Prop :=
  ∃ f fs, feeds = f :: fs ∧ f.bars ≠ [] ∧
    ∃ e : CerebroState α Unit, Cerebro.silent.run (f.preload, fs.map SourceFeed.preload) (.init .USD 0 none ()) = .ok e

variable {config : OptConfig α} {t : Trial α W} {feeds : List (SourceFeed α)} {params : ParamMap α}

omit [Arith α] in
theorem size_preload (f : SourceFeed α) : f.preload.size = f.bars.length := by
  rw [DataFeed.size_eq, SourceFeed.preload_data]

theorem silent_start {feeds : DataFeed α × List (DataFeed α)} (h : (Clock.start feeds).checkPlan = .ok ()) (b : BackBroker α Unit) :
    ∃ e, Cerebro.silent.start feeds b = .ok e := by
  have hwarm : ∀ w, (Cerebro.silent : Cerebro α Unit).checkWarmup (Clock.start feeds) w = .ok () := fun w => by
    refine Fold.forM_eq_ok.2 fun si _ => Fold.forM_eq_ok.2 fun k _ => ?_
    split
    · rfl
    · exact if_neg (Nat.not_lt_zero _)
  exact ⟨_, bind_eq_ok.2 ⟨(), h, bind_eq_ok.2 ⟨(), hwarm _, rfl⟩⟩⟩

/-- Where one strategy is run, another one may be. -/
theorem runs_of_run {c : Cerebro α W} {f : SourceFeed α} {fs : List (SourceFeed α)} {b : BackBroker α W} {e : CerebroState α W}
    (h : c.run (f.preload, fs.map SourceFeed.preload) b = .ok e) (hne : f.bars ≠ []) : Runs (f :: fs) := by
  have hsize : f.preload.size ≠ 0 := by rwa [size_preload, ne_eq, List.length_eq_zero_iff]
  rw [Cerebro.run, if_neg hsize] at h
  obtain ⟨e₀, h₀⟩ := c.start_of_upTo h
  obtain ⟨_, hplan, -⟩ := bind_eq_ok.1 h₀
  obtain ⟨e₁, h₁⟩ := silent_start hplan (.init .USD 0 none ())
  obtain ⟨e', he', -⟩ := Cerebro.clock_upTo c Cerebro.silent h₁ h
  exact ⟨f, fs, rfl, hne, e', by rw [Cerebro.run, if_neg hsize, he']⟩

theorem singleRun_clones (hplain : Runs feeds → ∀ f ∈ feeds, f.Plain) {r : OptResult α}
    (h : singleRun config t feeds params = .ok r) :
    singleRun config t (feeds.map SourceFeed.clone) params = singleRun config t feeds params := by
  cases feeds with
  | nil => rfl
  | cons f fs =>
    by_cases hne : f.bars = []
    · have hzero : f.preload.size = 0 := by rw [size_preload, hne, List.length_nil]
      have hzero' : f.clone.preload.size = 0 := by rw [size_preload, show f.clone.bars = [] from hne, List.length_nil]
      unfold singleRun
      simp only [List.map_cons, Cerebro.run, hzero, hzero', if_true]
      rfl
    · have hruns : Runs (f :: fs) := by
        obtain ⟨e, he, -⟩ := bind_eq_ok.1 h
        exact runs_of_run he hne
      have hfeeds : ((f :: fs).map SourceFeed.clone).map SourceFeed.preload = (f :: fs).map SourceFeed.preload := by
        rw [List.map_map]
        exact List.map_congr_left fun g hg => (hplain hruns g hg).preload_clone
      have hnames : ((f :: fs).map SourceFeed.clone).map (·.name) = (f :: fs).map (·.name) := by
        rw [List.map_map]
        exact List.map_congr_left fun g hg => (hplain hruns g hg).name.symm
      unfold singleRun
      rw [hfeeds, hnames]

omit [Arith α] in
theorem cloneFeeds_source (feeds : List (SourceFeed α)) : cloneFeeds (feeds.map .inl) = some (feeds.map SourceFeed.clone) := by
  unfold cloneFeeds
  induction feeds with
  | nil => rfl
  | cons f fs ih => rw [List.map_cons, List.mapM_cons, ih]; rfl

theorem work_eq {grid : List (ParamMap α)} {i : Nat} (hi : grid[i]? = some params) :
    work config t (feeds.map .inl) grid i = match singleRun config t (feeds.map SourceFeed.clone) params with
      | .error _ => .throws
      | .ok r => .stores { r with params } := by
  unfold work
  rw [hi, cloneFeeds_source]

omit [Arith α] in
theorem numThreads_pos (config : OptConfig α) (hardwareConcurrency : Nat) : 0 < numThreads config hardwareConcurrency := by
  unfold numThreads
  split_ifs <;> omega

/-- Where single runs over the clones are single runs over the feeds. -/
theorem computes_of_clones {ranges : List (ParamRange α)} (hardwareConcurrency : Nat)
    (h : ∀ params ∈ generateParamGrid ranges, ∃ r, singleRun config t feeds params = .ok r ∧
      singleRun config t (feeds.map SourceFeed.clone) params = .ok r) : Computes config t feeds ranges hardwareConcurrency := by
  have hwork : ∀ (i : Nat) params, (generateParamGrid ranges)[i]? = some params → ∃ r, singleRun config t feeds params = .ok r ∧
      work config t (feeds.map .inl) (generateParamGrid ranges) i = .stores { r with params } := by
    intro i params hi
    obtain ⟨r, hr, hr'⟩ := h params (List.mem_of_getElem? hi)
    exact ⟨r, hr, by rw [work_eq hi, hr']⟩
  refine ⟨WorkPool.acc _, fun s hs hfinal => ?_⟩
  have hall : ∀ i < (generateParamGrid ranges).length, ∃ r,
      work config t (feeds.map .inl) (generateParamGrid ranges) i = .stores r := fun i hi => by
    obtain ⟨r, -, hr⟩ := hwork i _ (List.getElem?_eq_getElem hi)
    exact ⟨_, hr⟩
  have hthreads : (generateParamGrid ranges).length ≠ 0 →
      0 < min (numThreads config hardwareConcurrency) (generateParamGrid ranges).length := fun hne =>
    Nat.lt_min.2 ⟨numThreads_pos .., Nat.pos_of_ne_zero hne⟩
  obtain ⟨hup, hgone, hstored⟩ := WorkPool.stored_of_final hall hthreads hs hfinal
  refine ⟨hup, hgone, (WorkPool.sound_runs hs).length, fun i params hi => ?_⟩
  obtain ⟨r, hr, hwork⟩ := hwork i params hi
  obtain ⟨r', hr', hget⟩ := hstored i (List.getElem?_eq_some_iff.1 hi).1
  rw [hwork] at hr'
  cases hr'
  exact ⟨r, hr, hget⟩

/-- A result that is there at the end has been computed over the clones. -/
theorem Computes.result {ranges : List (ParamRange α)} {hardwareConcurrency : Nat}
    (h : Computes config t feeds ranges hardwareConcurrency) {i : Nat} (hi : (generateParamGrid ranges)[i]? = some params) :
    ∃ r, singleRun config t feeds params = .ok r ∧ (({ r with params } : OptResult α) = noResult ∨
      ∃ r', singleRun config t (feeds.map SourceFeed.clone) params = .ok r' ∧
        ({ r with params } : OptResult α) = { r' with params }) := by
  obtain ⟨s, hs, hfinal⟩ := WorkPool.exists_final (work config t (feeds.map .inl) (generateParamGrid ranges))
    (generateParamGrid ranges).length (launched config hardwareConcurrency (generateParamGrid ranges))
  obtain ⟨-, -, -, hresults⟩ := h.results s hs hfinal
  obtain ⟨r, hr, hget⟩ := hresults i params hi
  refine ⟨r, hr, ((WorkPool.sound_runs hs).given i _ hget).imp_right fun hwork => ?_⟩
  rw [work_eq hi] at hwork
  cases hclone : singleRun config t (feeds.map SourceFeed.clone) params with
  | error err =>
    rw [hclone] at hwork
    cases hwork
  | ok r' =>
    rw [hclone] at hwork
    exact ⟨r', rfl, (WorkPool.Outcome.stores.inj hwork).symm⟩

/-! ### A strategy that looks at its feeds -/

/-- On each bar it notes the names and the timeframes. -/
def onlooker (names : List String) : Cerebro α (List String × List TimeFrameCompression) where
  listener _ := { act := fun _ b => (b.world, none), preOrderHook := fun _ size _ b => (⟨0, size, false⟩, b.world) }
  strategies := 1
  call _ clock _ _ := ((names, clock.feeds.map (·.timeframe)), none)
  minimumPeriod _ _ _ := 0
  opening := id
  closing _ _ b := b.world
  fuel := 1

theorem onlooker_turn (names : List String) (clock : Clock α) (st : BackBroker α (List String × List TimeFrameCompression) × List Bool) :
    ((onlooker names).turn clock st 0).1.world = (names, clock.feeds.map (·.timeframe)) := by
  unfold Cerebro.turn
  split_ifs <;> rfl

theorem onlooker_noted {names : List String} {feeds : DataFeed α × List (DataFeed α)}
    {b : BackBroker α (List String × List TimeFrameCompression)} {e} (h : (onlooker names).run feeds b = .ok e)
    (hne : feeds.1.size ≠ 0) : e.broker.world = (names, (feeds.1 :: feeds.2).map (·.timeframe)) := by
  rw [Cerebro.run, if_neg hne] at h
  obtain ⟨n, hn⟩ := Nat.exists_eq_succ_of_ne_zero hne
  rw [hn] at h
  obtain ⟨e₁, h₁, hbroker, -⟩ := (onlooker names).upTo_succ h
  obtain ⟨e₀, h₀, hgate⟩ := bind_eq_ok.1 h₁
  have hal := ((onlooker names).along_upTo (by omega) h₀).tick (Cerebro.clock_gate hgate)
  have htf : e₁.clock.feeds.map (·.timeframe) = (feeds.1 :: feeds.2).map (·.timeframe) := by
    have hcontext : e₁.clock.context.map (·.feed.timeframe) = feeds.2.map (·.timeframe) :=
      (List.forall₂_eq_eq_eq ▸ (List.forall₂_map_left_iff.2 <| List.forall₂_map_right_iff.2 <|
        hal.context.flip.imp fun _ _ hs => hs.timeframe))
    show (e₁.clock.master.feed :: e₁.clock.context.map (·.feed)).map (·.timeframe) = _
    rw [List.map_cons, List.map_cons, hal.timeframe, List.map_map]
    exact congrArg _ hcontext
  rw [hbroker, ← htf]
  exact onlooker_turn names e₁.clock _

theorem onlooker_runs (names : List String) {feeds : DataFeed α × List (DataFeed α)} {b : BackBroker α Unit} {e} (b')
    (h : Cerebro.silent.run feeds b = .ok e) (hne : feeds.1.size ≠ 0) : ∃ e', (onlooker names).run feeds b' = .ok e' := by
  rw [Cerebro.run, if_neg hne] at h
  obtain ⟨e₀, h₀⟩ := Cerebro.silent.start_of_upTo h
  obtain ⟨_, hplan, -⟩ := bind_eq_ok.1 h₀
  have hwarm : ∀ w, (onlooker names).checkWarmup (Clock.start feeds) w = .ok () := fun w => by
    refine Fold.forM_eq_ok.2 fun si _ => Fold.forM_eq_ok.2 fun k _ => ?_
    split
    · rfl
    · exact if_neg (Nat.not_lt_zero _)
  have hstart : ∃ e, (onlooker names).start feeds b' = .ok e := ⟨_, bind_eq_ok.2 ⟨(), hplan, bind_eq_ok.2 ⟨(), hwarm _, rfl⟩⟩⟩
  obtain ⟨e₁, h₁⟩ := hstart
  obtain ⟨e', he', -⟩ := Cerebro.clock_upTo Cerebro.silent (onlooker names) h₁ h
  exact ⟨e', by rw [Cerebro.run, if_neg hne, he']⟩

/-- The extractor counts one trade if the strategy has noted `seen`. -/
def watching (seen : List String × List TimeFrameCompression) : Trial α (List String × List TimeFrameCompression) where
  factory names _ := onlooker names
  world _ := ([], [])
  extractor b _ _ := { (noResult : OptResult α) with totalTrades := if b.world = seen then 1 else 0 }

/-- The optimizer computes what single runs over the feeds compute, for every strategy, extractor, grid and number of
threads, exactly when all feeds have the name and the timeframe of a new one, or nothing is run. -/
theorem computes_iff (feeds : List (SourceFeed α)) :
    (∀ (W : Type) (config : OptConfig α) (t : Trial α W) (ranges : List (ParamRange α)) (hardwareConcurrency : Nat),
      (ranges.map (·.name)).Nodup →
      (∀ params ∈ generateParamGrid ranges, ∃ r, singleRun config t feeds params = .ok r) →
      Computes config t feeds ranges hardwareConcurrency) ↔
    (Runs feeds → ∀ f ∈ feeds, f.Plain) := by
  constructor
  · rintro h ⟨f, fs, rfl, hne, e, he⟩
    have hsize : f.preload.size ≠ 0 := by rwa [size_preload, ne_eq, List.length_eq_zero_iff]
    have hsize' : f.clone.preload.size ≠ 0 := by rwa [size_preload, ne_eq, List.length_eq_zero_iff]
    let names := (f :: fs).map (·.name)
    let seen := (names, ((f :: fs).map SourceFeed.preload).map (·.timeframe))
    let config : OptConfig α := ⟨0, ⟨.Percentage, 0, 0⟩, 1⟩
    let ranges : List (ParamRange α) := [⟨"length", [.int 1]⟩]
    have hsingle : ∀ params, ∃ r, singleRun config (watching seen) (f :: fs) params = .ok r ∧ r.totalTrades = 1 := by
      intro params
      obtain ⟨e', he'⟩ := onlooker_runs names { BackBroker.init .USD config.cash none ([], []) with
        legacyCommission := config.commission } he hsize
      exact ⟨_, bind_eq_ok.2 ⟨e', he', rfl⟩, if_pos (onlooker_noted he' hsize)⟩
    have hcomputes := h _ config (watching seen) ranges 1 (List.nodup_singleton _) fun params _ =>
      (hsingle params).imp fun _ hr => hr.1
    have hgrid : (generateParamGrid ranges)[0]? = some [("length", .int 1)] := rfl
    obtain ⟨r, hr, hresult⟩ := hcomputes.result hgrid
    obtain ⟨r₁, hr₁, hone⟩ := hsingle [("length", .int 1)]
    rw [hr] at hr₁
    cases hr₁
    rcases hresult with hnone | ⟨r', hr', heq⟩
    · have := congrArg OptResult.totalTrades hnone
      rw [show ({ r with params := [("length", .int 1)] } : OptResult α).totalTrades = 1 from hone] at this
      cases this
    obtain ⟨e', he', hext⟩ := bind_eq_ok.1 hr'
    have hnoted := onlooker_noted he' hsize'
    cases hext
    have hseen : e'.broker.world = seen := by
      by_contra hother
      have := congrArg OptResult.totalTrades heq
      rw [show ({ r with params := [("length", .int 1)] } : OptResult α).totalTrades = 1 from hone] at this
      exact absurd (this.trans (if_neg hother)) (by decide)
    rw [hnoted] at hseen
    obtain ⟨hnames, htimeframes⟩ := Prod.mk.inj hseen
    rw [List.map_map] at hnames htimeframes
    have htimeframes : ((f :: fs).map fun g => g.clone.preload.timeframe) = (f :: fs).map fun g => g.preload.timeframe := by
      rw [List.map_cons, List.map_cons]
      simpa only [List.map_map, List.map_cons, Function.comp_def] using htimeframes
    intro g hg
    refine ⟨(List.map_inj_left.1 hnames g hg).symm, ?_⟩
    have htf := List.map_inj_left.1 htimeframes g hg
    rw [SourceFeed.preload_timeframe, SourceFeed.preload_timeframe] at htf
    exact htf.symm
  · intro hplain W config t ranges hardwareConcurrency _ hruns
    refine computes_of_clones hardwareConcurrency fun params hparams => ?_
    obtain ⟨r, hr⟩ := hruns params hparams
    exact ⟨r, hr, (singleRun_clones hplain hr).trans hr⟩

/-! ### Two hours and the day, counted -/

def hoursAndDay : List (SourceFeed ℚ) :=
  let bars (times : List DateTime) : List (Row ℚ) := times.map (⟨·, 1, 1, 1, 1, 1, 0⟩)
  [{ bars := bars [0, 3600 * nsPerSecond], unread := bars [0, 3600 * nsPerSecond], self := { timeframe := ⟨.Minutes, 60⟩ },
     name := "hours", loads := rfl },
   { bars := bars [0], unread := bars [0], self := {}, name := "days", loads := rfl }]

/-- The extractor counts the bars delivered. -/
def counting : Trial ℚ Unit where
  factory _ _ := Cerebro.silent
  world _ := ()
  extractor _ delivered _ := { (noResult : OptResult ℚ) with totalTrades := delivered.sum }

def counted : OptConfig ℚ := ⟨1000, ⟨.Percentage, 0, 0⟩, 1⟩

def counts (feeds : List (SourceFeed ℚ)) : Option Nat :=
  (singleRun counted counting feeds [("length", .int 1)]).toOption.map (·.totalTrades)

/-- The day does not close in the run over the feeds, and does in that over the clones, which are both daily. -/
theorem counts_the_day_of_the_clones :
    ¬ Computes counted counting hoursAndDay [⟨"length", [.int 1]⟩] 1 := by
  have hgrid : (generateParamGrid [(⟨"length", [.int 1]⟩ : ParamRange ℚ)])[0]? = some [("length", .int 1)] := rfl
  have hfeeds : counts hoursAndDay = some 2 := by decide +kernel
  have hclones : counts (hoursAndDay.map SourceFeed.clone) = some 3 := by decide +kernel
  intro h
  obtain ⟨r, hr, hresult⟩ := h.result hgrid
  have htwo : r.totalTrades = 2 := by
    rw [counts, hr] at hfeeds
    exact Option.some.inj hfeeds
  rcases hresult with hnone | ⟨r', hr', heq⟩
  · have hzero : r.totalTrades = 0 := congrArg OptResult.totalTrades hnone
    omega
  · have hthree : r'.totalTrades = 3 := by
      rw [counts, hr'] at hclones
      exact Option.some.inj hclones
    have hsame := congrArg OptResult.totalTrades heq
    dsimp only at hsame
    omega

end Optimizer

end StratForge
