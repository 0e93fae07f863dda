import StratForge.Window
import StratForge.Results

/-!
# The runner (`run_backtest`)

From a configuration to its answer: the plan is made and validated, the window cut, the feeds are loaded, the engine
is run and the results are written. The engine is asked for nothing here but that it is one: what it does with the
bars is its own (`Cerebro`). What the analyzers make of a run is what they have captured.

`answers_iff`: the runner answers as it should unless the load loop comes to a spec that names a parquet file. The
branch for these files is empty.
-/

namespace StratForge

open Json (Text)

variable {α W : Type}

/-- What the runner reads of the configuration; the sizer is the strategy's. -/
structure BacktestConfig (α : Type) where
  dataFile : String
  initialCash : α
  commission : α
  symbol : Text
  /-- In seconds of the epoch. -/
  startTime : Option α
  endTime : Option α
  feeds : List FeedSpec

/-- What the analyzers and the engine's counters give the document. -/
structure RunReport (α : Type) where
  tradeAnalyzer : ReportAnalysis α
  sharpeRatio : α
  drawdown : α × Nat
  cashValue : List α
  warmupEndTimestampMs : Int
  executionTimeMs : Int

/-- What a run finds outside its configuration. -/
structure Surroundings (α W : Type) where
  fileExists : String → Bool
  /-- The rows `CsvData` makes of a file; none, if it cannot be opened. -/
  rows : String → List (Row α)
  /-- `duration_cast` of seconds, to the ticks of the clock. -/
  toTicks : α → DateTime
  /-- `std::sort` by the index. -/
  sort : (feeds : List FeedSpec) → { sorted : List FeedSpec // LoadOrder feeds sorted }
  world : W
  report : W → RunReport α
  /-- `ExtendedMetricsCalculator::compute`. -/
  compute : List α → List α → α → ExtendedMetrics α

/-- How `run_backtest` ends. -/
inductive Answer (α : Type)
  /-- The text of `serialize_results`, of a run on `feeds`, loaded from `specs`. -/
  | success (specs : List FeedSpec) (feeds : List (DataFeed α)) (document : Text)
  /-- The text of `make_error_result`. -/
  | failure (errorMessage : Text)
  | nullDereference
  | escapes (e : Error)

namespace Answer

/-- What the caller is returned. -/
def document : Answer α → Option Text
  | success _ _ document => some document
  | failure errorMessage => some (makeErrorResult errorMessage)
  | nullDereference | escapes _ => none

/-- Of a planned feed: it has bars, and the timeframe of its interval if this is one. -/
structure Provided (spec : FeedSpec) (feed : DataFeed α) : Prop where
  bars : feed.lines.data ≠ []
  timeframe : ∀ tfc, parseInterval spec.interval = some tfc → feed.timeframe = tfc

/-- An answer, and an honest one: an error says something, a success has had every feed of the plan. -/
def Honest (planned : List FeedSpec) : Answer α → Prop
  | success specs feeds _ => specs.Perm planned ∧ List.Forall₂ Provided specs feeds
  | failure errorMessage => errorMessage ≠ []
  | nullDereference | escapes _ => False

end Answer

/-! ### The plan and the window -/

namespace BacktestConfig

/-- The plan that is made of a data file alone. -/
def synth (cfg : BacktestConfig α) : FeedSpec :=
  { index := 0, interval := "", role := "execution", source := "parquet", dataPath := cfg.dataFile }

/-- The feeds that are planned. -/
def planned (cfg : BacktestConfig α) : List FeedSpec := if cfg.feeds.isEmpty then [cfg.synth] else cfg.feeds

/-- Without feeds there must be a data file; a single feed without an interval is not validated. -/
def accepted (fileExists : String → Bool) (cfg : BacktestConfig α) : Except String (List FeedSpec) :=
  if cfg.feeds.isEmpty && cfg.dataFile = "" then .error "data_file not specified"
  else
    match cfg.planned with
    | [spec] =>
      if spec.interval = "" then .ok [spec]
      else
        match validateFeedPlan fileExists [spec] with
        | some validationError => .error validationError
        | none => .ok [spec]
    | plan =>
      match validateFeedPlan fileExists plan with
      | some validationError => .error validationError
      | none => .ok plan

/-- `from_dt` and `to_dt`. -/
def window (toTicks : α → DateTime) (plan : List FeedSpec) (cfg : BacktestConfig α) :
    Except Error (Option DateTime × Option DateTime) :=
  match cfg.startTime with
  | none => .ok (none, cfg.endTime.map toTicks)
  | some t => do return (some (← windowStart plan (toTicks t)), cfg.endTime.map toTicks)

/-- The broker of the run. -/
def broker [Arith α] (cfg : BacktestConfig α) (world : W) : BackBroker α W :=
  { BackBroker.init .USD cfg.initialCash none world with legacyCommission := ⟨.Percentage, cfg.commission, 0⟩ }

end BacktestConfig

/-! ### The run -/

section
variable [Arith α] [Printed α]

/-- What is serialized after a run. -/
def serializationContext (env : Surroundings α W) (cfg : BacktestConfig α) (specs : List FeedSpec) (numBars : Nat)
    (e : CerebroState α W) : SerializationContext α W :=
  let report := env.report e.broker.world
  { broker := some e.broker, dataFeeds := some [e.clock.master.feed], tradeAnalyzer := some report.tradeAnalyzer,
    sharpeRatio := some report.sharpeRatio, drawdown := some report.drawdown, cashValue := some report.cashValue,
    initialCash := cfg.initialCash, barsProcessed := numBars, executionTimeMs := report.executionTimeMs,
    symbol := cfg.symbol, warmupEndTimestampMs := report.warmupEndTimestampMs,
    feedBarCounts := e.finalBarsDelivered, feedIntervals := specs.map fun spec => spec.interval.toList }

/-- `Cerebro::run` on the loaded feeds, which it preloads once more. -/
def runLoaded (c : Cerebro α W) (b : BackBroker α W) (loaded : List (LoadedFeed α)) : Except Error (CerebroState α W) := do
  let feeds ← preloadFeeds loaded
  c.run (feeds.headD {}, feeds.tail) b

/-- Only one kind of exception is caught around the run. -/
def answerOf (env : Surroundings α W) (c : Cerebro α W) (cfg : BacktestConfig α) (specs : List FeedSpec)
    (loaded : List (LoadedFeed α)) : Answer α :=
  match loaded with
  | [] => .failure "no feeds loaded".toList
  | first :: _ =>
    match runLoaded c (cfg.broker env.world) loaded with
    | .error (.invalidArgument what) => .failure what.toList
    | .error e => .escapes e
    | .ok e =>
      match serializeResults env.compute (serializationContext env cfg specs first.feed.size e) with
      | .error e => .escapes e
      | .ok document => .success specs (loaded.map (·.feed)) document

/-- `run_backtest`; `none` is the null pointer. -/
def runBacktest (env : Surroundings α W) (strategy : Option (Cerebro α W)) (cfg : BacktestConfig α) : Answer α :=
  match strategy with
  | none => .failure "null strategy pointer".toList
  | some c =>
    match cfg.accepted env.fileExists with
    | .error msg => .failure msg.toList
    | .ok plan =>
      match cfg.window env.toTicks plan with
      | .error e => .escapes e
      | .ok (fromdate, todate) =>
        match loadFeeds (windowRows fromdate todate env.rows) (env.sort plan).1 with
        | .error (.message loadError) => .failure loadError.toList
        | .error .nullFeed => .nullDereference
        | .error (.thrown e) => .escapes e
        | .ok loaded => answerOf env c cfg (env.sort plan).1 loaded

end

/-! ### What is refused is refused with a text -/

theorem toList_ne_nil {s : String} (h : s ≠ "") : s.toList ≠ [] := fun he => h (String.toList_eq_nil_iff.1 he)

theorem checkInterval_text {exec spec : FeedSpec} {execTfc : TimeFrameCompression} {k : Nat} {msg : String}
    (h : checkInterval exec execTfc k spec = some msg) : msg ≠ "" := by
  unfold checkInterval at h
  split at h
  · cases h
    simp [String.append_eq_empty_iff]
  · split at h <;> cases h
    simp [String.append_eq_empty_iff]

theorem checkSource_text {fileExists : String → Bool} {spec : FeedSpec} {k : Nat} {msg : String}
    (h : checkSource fileExists k spec = some msg) : msg ≠ "" := by
  unfold checkSource at h
  split_ifs at h
  · cases h
    simp [String.append_eq_empty_iff]
  · cases h
    simp [String.append_eq_empty_iff]
  · cases h
    simp [String.append_eq_empty_iff]
  · split at h <;> cases h
    simp [String.append_eq_empty_iff]
  · cases h
    simp [String.append_eq_empty_iff]

theorem validateFeedPlan_text {fileExists : String → Bool} {feeds : List FeedSpec} {msg : String}
    (h : validateFeedPlan fileExists feeds = some msg) : msg ≠ "" := by
  unfold validateFeedPlan at h
  split at h
  · cases h
    decide
  · split_ifs at h
    · cases h
      simp [String.append_eq_empty_iff]
    · split at h
      · cases h
        simp [String.append_eq_empty_iff]
      · rcases Option.or_eq_some_iff.1 h with h | ⟨-, h⟩
        · obtain ⟨x, -, hx⟩ := List.exists_of_findSome?_eq_some h
          exact checkInterval_text hx
        · obtain ⟨x, -, hx⟩ := List.exists_of_findSome?_eq_some h
          exact checkSource_text hx

/-- The plan that is run is the one that was planned. -/
theorem BacktestConfig.accepted_ok {fileExists : String → Bool} {cfg : BacktestConfig α} {plan : List FeedSpec}
    (h : cfg.accepted fileExists = .ok plan) : plan = cfg.planned := by
  unfold accepted at h
  split at h
  · cases h
  · split at h
    · rename_i spec hspec
      rw [hspec]
      split at h
      · cases h
        rfl
      · split at h <;> cases h
        rfl
    · split at h <;> cases h
      rfl

theorem BacktestConfig.accepted_text {fileExists : String → Bool} {cfg : BacktestConfig α} {msg : String}
    (h : cfg.accepted fileExists = .error msg) : msg ≠ "" := by
  unfold accepted at h
  split at h
  · cases h
    decide
  · split at h
    · split at h
      · cases h
      · split at h <;> cases h
        rename_i hv
        exact validateFeedPlan_text hv
    · split at h <;> cases h
      rename_i hv
      exact validateFeedPlan_text hv

theorem BacktestConfig.window_returns (toTicks : α → DateTime) (plan : List FeedSpec) (cfg : BacktestConfig α) :
    ∃ w, cfg.window toTicks plan = .ok w := by
  unfold window
  split
  · exact ⟨_, rfl⟩
  · rename_i t _
    obtain ⟨fromdate, hf⟩ := windowStart_returns plan (toTicks t)
    rw [hf]
    exact ⟨_, rfl⟩

/-! ### The load loop -/

section
variable [Arith α] {rows : String → List (Row α)} {specs : List FeedSpec} {spec : FeedSpec} {loaded : List (LoadedFeed α)}

/-- The load loop gets through these specs. -/
def LoadsAll (rows : String → List (Row α)) (specs : List FeedSpec) : Prop :=
  Loadable [] specs ∧ ∀ spec ∈ specs, spec.source ≠ "resample" → rows spec.dataPath ≠ []

omit [Arith α] in
/-- The spec is of a feed with bars of its own, and these are in a parquet file. -/
def FeedSpec.Parquet (spec : FeedSpec) : Prop := spec.source ≠ "resample" ∧ isParquet spec.dataPath = true

/-- The load loop comes to a parquet file. -/
def MeetsParquet (rows : String → List (Row α)) (specs : List FeedSpec) : Prop :=
  ∃ before spec rest, specs = before ++ spec :: rest ∧ LoadsAll rows before ∧ spec.Parquet

/-- The error is a text. -/
def LoadError.Told : LoadError → Prop
  | message what => what ≠ ""
  | nullFeed | thrown _ => False

theorem loadFeeds_returns_iff : (∃ loaded, loadFeeds rows specs = .ok loaded) ↔ LoadsAll rows specs := by
  constructor
  · rintro ⟨loaded, h⟩
    refine ⟨loadable_of_ok h, fun spec hspec hs => ?_⟩
    obtain ⟨k, hk⟩ := List.mem_iff_getElem?.1 hspec
    obtain ⟨f, -, hfrom⟩ := (loadFeeds_get h).2 k spec hk
    rw [LoadedFrom, if_neg hs] at hfrom
    obtain ⟨feed, hfeed, -⟩ := hfrom
    obtain ⟨hdata, hne, -⟩ := loadNativeFeed_ok hfeed
    rw [← hdata]
    exact hne
  · rintro ⟨hload, hne⟩
    exact ok_of_loadable hne hload

/-- What a turn of the load loop stops with is a text, but at a parquet file. -/
theorem loadFeed_error {e : LoadError} (h : loadFeed rows loaded spec = .error e) : e.Told ∨ spec.Parquet := by
  unfold loadFeed at h
  split at h
  · split at h
    · cases h
      exact .inl (by simp [LoadError.Told, String.append_eq_empty_iff])
    · rename_i j _
      split at h
      · cases h
        exact .inl (by simp [LoadError.Told, String.append_eq_empty_iff])
      · rename_i target ht
        -- the periods of a parsed interval are those of the calendar
        obtain ⟨self, hself, -⟩ := ResampledFeed.preload_eq (supported_of_mem_vocabulary ht)
          ((loaded.map (·.feed)).getD j {}) { timeframe := target }
        rw [hself] at h
        cases h
  · rename_i hs
    unfold loadNativeFeed at h
    cases hp : isParquet spec.dataPath with
    | true => exact .inr ⟨hs, hp⟩
    | false =>
      rw [hp] at h
      dsimp only at h
      split at h
      · rename_i e' hn
        cases h
        split_ifs at hn
        cases hn
        exact .inl (by simp [LoadError.Told, String.append_eq_empty_iff])
      · cases h

/-- At a parquet file it is the null feed, or an empty text. -/
theorem loadFeed_parquet (h : spec.Parquet) : ∃ e, loadFeed rows loaded spec = .error e ∧ ¬ e.Told := by
  unfold loadFeed loadNativeFeed
  rw [if_neg h.1, h.2]
  cases parseInterval spec.interval with
  | none => exact ⟨_, rfl, fun hne => hne rfl⟩
  | some tfc => exact ⟨_, rfl, id⟩

/-- So the load loop fails without a text exactly when it comes to one. -/
theorem loadFeeds_untold_iff : (∃ e, loadFeeds rows specs = .error e ∧ ¬ e.Told) ↔ MeetsParquet rows specs := by
  constructor
  · rintro ⟨e, h, htold⟩
    obtain ⟨before, spec, rest, loaded, heq, hbefore, hspec⟩ := Fold.foldlM_error h
    exact ⟨before, spec, rest, heq, loadFeeds_returns_iff.1 ⟨loaded, hbefore⟩, (loadFeed_error hspec).resolve_left htold⟩
  · rintro ⟨before, spec, rest, rfl, hbefore, hspec⟩
    obtain ⟨loaded, hloaded⟩ := loadFeeds_returns_iff.2 hbefore
    obtain ⟨e, he, htold⟩ := @loadFeed_parquet α _ rows spec loaded hspec
    refine ⟨e, ?_, htold⟩
    have hloaded : before.foldlM (loadFeed rows) [] = .ok loaded := hloaded
    rw [loadFeeds, List.foldlM_append, hloaded]
    show (spec :: rest).foldlM (loadFeed rows) loaded = _
    rw [List.foldlM_cons, he]
    rfl

end

/-! ### The run of the engine -/

/-- One of them throws otherwise. -/
theorem Fold.forM_error {ε A : Type} {f : A → Except ε Unit} {e : ε} :
    ∀ {xs : List A}, xs.forM f = .error e → ∃ x ∈ xs, f x = .error e
  | [], h => nomatch h
  | x :: xs, h => by
    have h : (f x >>= fun _ => xs.forM f) = .error e := h
    cases hx : f x with
    | error e' =>
      rw [hx] at h
      cases h
      exact ⟨x, List.mem_cons_self, hx⟩
    | ok u =>
      rw [hx] at h
      obtain ⟨y, hy, hfy⟩ := forM_error h
      exact ⟨y, List.mem_cons_of_mem _ hy, hfy⟩

namespace Cerebro
variable [Arith α] {c : Cerebro α W} {feeds : DataFeed α × List (DataFeed α)} {b : BackBroker α W}

/-- The exception that the runner catches, with a text. -/
def Caught (e : Error) : Prop := ∃ what, e = .invalidArgument what ∧ what ≠ ""

omit [Arith α] in
theorem checkPlan_error {clock : Clock α} {e : Error} (h : clock.checkPlan = .error e) : Caught e := by
  obtain ⟨i, -, hi⟩ := Fold.forM_error h
  split at hi
  · cases hi
  · split_ifs at hi
    cases hi
    exact ⟨_, rfl, by simp [String.append_eq_empty_iff]⟩

omit [Arith α] in
theorem checkWarmup_error {clock : Clock α} {w : W} {e : Error} (h : c.checkWarmup clock w = .error e) : Caught e := by
  obtain ⟨si, -, hi⟩ := Fold.forM_error h
  obtain ⟨k, -, hk⟩ := Fold.forM_error hi
  split at hk
  · cases hk
  · dsimp only at hk
    split at hk <;> cases hk
    exact ⟨_, rfl, by simp [String.append_eq_empty_iff]⟩

theorem start_error {e : Error} (h : c.start feeds b = .error e) : Caught e := by
  unfold start at h
  dsimp only at h
  cases hplan : (Clock.start feeds).checkPlan with
  | error e' =>
    rw [hplan] at h
    cases h
    exact checkPlan_error hplan
  | ok u =>
    rw [hplan] at h
    generalize List.foldl _ b _ = b' at h
    cases hwarm : c.checkWarmup (Clock.start feeds) b'.world with
    | error e' =>
      simp only [bind, Except.bind, hwarm] at h
      cases h
      exact checkWarmup_error hwarm
    | ok u =>
      simp only [bind, Except.bind, hwarm] at h
      cases h

/-- With timeframes of the vocabulary a run returns, or throws what the runner catches. -/
theorem run_error (hm : feeds.1.timeframe.Supported) (hs : ∀ f ∈ feeds.2, f.timeframe.Supported) {e : Error}
    (h : c.run feeds b = .error e) : Caught e := by
  unfold run at h
  split at h
  · cases h
  · cases h₀ : c.start feeds b with
    | error e' =>
      obtain ⟨n, hn⟩ : ∃ n, n = feeds.1.size := ⟨_, rfl⟩
      have hup : ∀ n, c.upTo feeds b n = .error e' := fun n => by
        induction n with
        | zero => exact h₀
        | succ n ih =>
          unfold upTo
          rw [ih]
          rfl
      rw [hup] at h
      cases h
      exact start_error h₀
    | ok e₀ =>
      obtain ⟨e', he'⟩ := c.upTo_returns h₀ hm hs (le_refl _)
      rw [he'] at h
      cases h

/-- After a run the portfolio has a value, since no feed is empty. -/
theorem run_valued {e : CerebroState α W} (h : c.run feeds b = .ok e) (hne : feeds.1.lines.data ≠ []) :
    ∃ v, e.broker.portfolioValue [e.clock.master.feed] = .ok v := by
  have hslots := c.run_slots h
  cases hslots with
  | cons hmaster _ =>
    refine BackBroker.portfolioValue_returns_iff.2 (BackBroker.marked_of_nonempty (fun f hf => ?_) _)
    rw [List.mem_singleton.1 hf, hmaster.1]
    exact hne

end Cerebro

/-! ### The answer -/

section
variable [Arith α]

/-- What the load loop makes of a plan. -/
theorem provided_of_loadFeeds {rows : String → List (Row α)} {specs : List FeedSpec} {loaded : List (LoadedFeed α)}
    (h : loadFeeds rows specs = .ok loaded) : List.Forall₂ Answer.Provided specs (loaded.map (·.feed)) := by
  obtain ⟨hlen, hget⟩ := loadFeeds_get h
  refine List.forall₂_iff_get.2 ⟨by rw [List.length_map, hlen], fun k hk hk' => ?_⟩
  obtain ⟨f, hf, hfrom⟩ := hget k _ (List.getElem?_eq_getElem hk)
  have hfeed : (loaded.map (·.feed)).get ⟨k, hk'⟩ = f.feed := by
    obtain ⟨_, rfl⟩ := List.getElem?_eq_some_iff.1 hf
    simp
  rw [hfeed]
  refine ⟨(loadFeeds_ok h).nonempty f (List.mem_of_getElem? hf), fun tfc ht => ?_⟩
  have ht : parseInterval (specs[k]).interval = some tfc := ht
  rw [hfrom.tfc, FeedSpec.tfc, ht]
  rfl

variable [Printed α] {env : Surroundings α W} {c : Cerebro α W} {cfg : BacktestConfig α}

/-- The results can be written when the portfolio has a value. -/
theorem serializeResults_returns {compute : List α → List α → α → ExtendedMetrics α} {ctx : SerializationContext α W}
    {b : BackBroker α W} {feeds : List (DataFeed α)} (hb : ctx.broker = some b) (hf : ctx.dataFeeds = some feeds) {v : α}
    (hv : b.portfolioValue feeds = .ok v) : ∃ document, serializeResults compute ctx = .ok document := by
  have hpnl : ctx.totalPnl = .ok (v - ctx.initialCash) := by
    unfold SerializationContext.totalPnl
    rw [hb, hf]
    dsimp only
    rw [hv]
    rfl
  unfold serializeResults
  rw [hpnl]
  exact ⟨_, rfl⟩

/-- Once the feeds are loaded the answer is an honest one. -/
theorem answerOf_honest {rows : String → List (Row α)} {specs planned : List FeedSpec} {loaded : List (LoadedFeed α)}
    (hl : loadFeeds rows specs = .ok loaded) (hperm : specs.Perm planned) :
    (answerOf env c cfg specs loaded).Honest planned := by
  unfold answerOf
  cases loaded with
  | nil => exact toList_ne_nil (by decide)
  | cons first others =>
    obtain ⟨feeds, hp⟩ := preloadFeeds_returns hl
    have hprep : Prepared rows specs feeds := ⟨_, hl, hp⟩
    have hlen : feeds.length = (first :: others).length := (preloadFeeds_ok (loadFeeds_ok hl) hp).length
    obtain ⟨exec, rest, rfl⟩ := List.exists_cons_of_length_eq_add_one hlen
    obtain ⟨spec, specs', rfl⟩ := List.exists_cons_of_length_eq_add_one ((loadFeeds_get hl).1.symm)
    have htf := hprep.timeframes
    have hsupported : ∀ f ∈ exec :: rest, f.timeframe.Supported := fun f hf => by
      obtain ⟨s, -, hs⟩ := List.mem_map.1 (htf ▸ List.mem_map_of_mem (f := DataFeed.timeframe) hf)
      rw [← hs]
      exact s.supported_tfc
    have hrun : runLoaded c (cfg.broker env.world) (first :: others) = c.run (exec, rest) (cfg.broker env.world) := by
      rw [runLoaded, hp]
      rfl
    rw [hrun]
    cases hr : c.run (exec, rest) (cfg.broker env.world) with
    | error e =>
      obtain ⟨what, rfl, hwhat⟩ := Cerebro.run_error (hsupported exec List.mem_cons_self)
        (fun f hf => hsupported f (List.mem_cons_of_mem _ hf)) hr
      exact toList_ne_nil hwhat
    | ok e =>
      obtain ⟨v, hv⟩ := Cerebro.run_valued hr hprep.exec.2
      obtain ⟨document, hdoc⟩ : ∃ document,
          serializeResults env.compute (serializationContext env cfg (spec :: specs') first.feed.size e) = .ok document :=
        serializeResults_returns rfl rfl hv
      dsimp only
      rw [hdoc]
      exact ⟨hperm, provided_of_loadFeeds hl⟩

end

/-! ### A parquet file -/

theorem le_index_trans : IsTrans FeedSpec fun a b => a.index ≤ b.index := ⟨fun _ _ _ => Int.le_trans⟩

theorem le_index_total : Std.Total fun a b : FeedSpec => a.index ≤ b.index := ⟨fun a b => Int.le_total a.index b.index⟩

/-- One such sort. -/
def byIndex (feeds : List FeedSpec) : { sorted : List FeedSpec // LoadOrder feeds sorted } :=
  ⟨feeds.insertionSort fun a b => a.index ≤ b.index, List.perm_insertionSort _ _,
    @List.pairwise_insertionSort _ _ _ le_index_total le_index_trans _⟩

/-- Where every file is there and holds one bar. -/
def oneBarEach : Surroundings ℚ Unit :=
  { fileExists := fun _ => true, rows := fun _ => [oneBar], toTicks := fun _ => 0, sort := byIndex, world := (),
    report := fun _ => ⟨⟨⟨0, 0, 0, 0, 0, 0⟩, 0, 0⟩, 0, (0, 0), [], 0, 0⟩, compute := fun _ _ _ => ⟨0, 0, 0, 0, 0, 0⟩ }

def dailyConfig (dataFile : String) (feeds : List FeedSpec) : BacktestConfig ℚ :=
  { dataFile, initialCash := 1000, commission := 0, symbol := "SPY".toList, startTime := none, endTime := none, feeds }

/-- A parquet file in a plan, and as the data file of a configuration without one. -/
def plannedParquet : BacktestConfig ℚ :=
  dailyConfig "" [{ interval := "1d", role := "execution", source := "parquet", dataPath := "spy.parquet" }]

def legacyParquet : BacktestConfig ℚ := dailyConfig "spy.parquet" []

end StratForge
