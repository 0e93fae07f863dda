import StratForge.PlanOrder

/-!
# A run on a window of the data

With a start time `run_backtest` keeps the rows from there on, less a warm-up of fifty periods of the
coarsest timeframe of the plan. The start of the window is then a boundary of that timeframe's grid; for
another grid it may lie inside a period, and the bar resampled of that period is cut. A feed whose base
is resampled itself is aggregated a second time from a base that holds its bars twice. `window_safe_iff`
says which plans, with which start, see the bars of the full run whatever the data.
-/

namespace StratForge
variable {α W : Type}

/-! ### The window -/

/-- Whether `CsvData::load` keeps a row. -/
def inWindow (fromdate todate : Option DateTime) (dt : DateTime) : Bool :=
  (match fromdate with
    | some f => !decide (dt < f)
    | none => true) &&
  match todate with
  | some t => !decide (t < dt)
  | none => true

/-- The rows of the files in the window. -/
def windowRows (fromdate todate : Option DateTime) (rows : String → List (Row α)) : String → List (Row α) :=
  fun path => (rows path).filter fun r => inWindow fromdate todate r.datetime

def kDefaultWarmupBars : Int := 50

/-- The coarsest timeframe of the plan, the first of them. -/
def coarsestTfc (feeds : List FeedSpec) : Option TimeFrameCompression :=
  feeds.foldl (fun coarsest spec =>
    match parseInterval spec.interval, coarsest with
    | none, _ => coarsest
    | some tfc, none => some tfc
    | some tfc, some c => if finerThan c tfc then some tfc else some c) none

/-- Where the window of a run with a start time begins. -/
def windowStart (feeds : List FeedSpec) (startTime : DateTime) : Except Error DateTime :=
  if 1 < feeds.length then
    match coarsestTfc feeds with
    | some tfc => advancePeriods startTime tfc (-kDefaultWarmupBars)
    | none => .ok startTime
  else .ok startTime

/-! ### What a run delivers -/

/-- The bars of a feed that have been visible. -/
def Slot.delivered (s : Slot α) : List (Row α) := s.feed.lines.data.take s.barsDelivered

/-- The feeds as the main loop has them: loaded, and preloaded once more. -/
def Prepared [Arith α] (rows : String → List (Row α)) (sorted : List FeedSpec) (feeds : List (DataFeed α)) : Prop :=
  ∃ loaded, loadFeeds rows sorted = .ok loaded ∧ preloadFeeds loaded = .ok feeds

structure SameOhlcv (bar bar' : Row α) : Prop where
  datetime : bar'.datetime = bar.datetime
  «open» : bar'.open = bar.open
  high : bar'.high = bar.high
  low : bar'.low = bar.low
  close : bar'.close = bar.close
  volume : bar'.volume = bar.volume

/-- Whatever sorted data and whatever the engine is given, every resampled bar that a run on the window delivers
is a bar of the full run. -/
def WindowSafe (sorted : List FeedSpec) (fromdate : DateTime) : Prop :=
  ∀ (rows : String → List (Row ℚ)) (todate : Option DateTime),
    (∀ path, ((rows path).map Row.datetime).Pairwise (· ≤ ·)) →
  ∀ (full : List (DataFeed ℚ)) (exec : DataFeed ℚ) (rest : List (DataFeed ℚ)),
    Prepared (windowRows none todate rows) sorted full →
    Prepared (windowRows (some fromdate) todate rows) sorted (exec :: rest) →
  ∀ (W : Type) (c : Cerebro ℚ W) (b : BackBroker ℚ W) (e : CerebroState ℚ W), c.run (exec, rest) b = .ok e →
  ∀ (k : Nat) (spec : FeedSpec) (slot : Slot ℚ) (f : DataFeed ℚ), sorted[k]? = some spec → spec.source = "resample" → e.clock.slots[k]? = some slot →
    full[k]? = some f → ∀ bar ∈ slot.delivered, ∃ bar' ∈ f.lines.data, SameOhlcv bar bar'

/-! ### Plans -/

/-- The spec whose feed the load loop takes for the base of the `k`-th one. -/
def baseIdx (sorted : List FeedSpec) (k : Nat) (spec : FeedSpec) : Option Nat :=
  (sorted.take k).findIdx? (·.token == some spec.base)

/-- The timeframe of a feed. -/
def FeedSpec.tfc (spec : FeedSpec) : TimeFrameCompression := (parseInterval spec.interval).getD {}

theorem FeedSpec.supported_tfc (spec : FeedSpec) : spec.tfc.Supported := by
  unfold FeedSpec.tfc
  cases h : parseInterval spec.interval with
  | none => exact .inl ⟨.inr rfl, Int.one_pos⟩
  | some tfc => exact supported_of_mem_vocabulary h

/-- The plan loads in this order, and `Cerebro::run` takes its first feed for the master. -/
def Runnable : List FeedSpec → Prop
  | [] => False
  | exec :: rest => Loadable [] (exec :: rest) ∧ ∀ spec ∈ rest, finerThan spec.tfc exec.tfc = false

/-- Every resampled feed is built of a feed with bars of its own, and the window begins with one of its periods. -/
def Aligned (sorted : List FeedSpec) (fromdate : DateTime) : Prop :=
  ∀ k spec, sorted[k]? = some spec → spec.source = "resample" →
    (∃ j base, baseIdx sorted k spec = some j ∧ sorted[j]? = some base ∧ base.source = "parquet") ∧
    periodStart fromdate spec.tfc = .ok fromdate

/-! ### What the feeds hold -/

namespace ResampledFeed
variable [Arith α] {target : TimeFrameCompression}

theorem bars_append {xs ys : List (Row α)} (h : ∀ x ∈ xs, ∀ y ∈ ys, bucketStart target x ≠ bucketStart target y) :
    bars target (xs ++ ys) = bars target xs ++ bars target ys := by
  cases xs with
  | nil => simp [bars, buckets]
  | cons x xs =>
    cases ys with
    | nil => simp [bars, buckets]
    | cons y ys =>
      have hy : ∀ z ∈ x :: xs, bucketStart target z ≠ bucketStart target y := fun z hz => h z hz y List.mem_cons_self
      unfold bars
      rw [← List.map_append]
      congr 1
      exact Runs.collect_append xs ys y (hy x List.mem_cons_self) fun z hz => hy z (List.mem_cons_of_mem _ hz)

/-- The first bar opens with the first row. -/
theorem bars_head (target : TimeFrameCompression) (r : Row α) (rest : List (Row α)) :
    ∃ bar more, bars target (r :: rest) = bar :: more ∧ bar.datetime = bucketStart target r ∧ bar.open = r.open := by
  obtain ⟨t, more, h⟩ := @Runs.collect_head _ _ _ _ (bucketStart target) Bucket.ofRow Bucket.accumulate rest
    (bucketStart target r) (.ofRow r)
  refine ⟨_, _, congrArg (List.map _) h, rfl, ?_⟩
  show (t.foldl Bucket.accumulate (.ofRow r)).o = r.open
  rw [Bucket.foldl_accumulate]
  rfl

end ResampledFeed

section
variable [Arith α] {rows : String → List (Row α)} {sorted : List FeedSpec} {loaded : List (LoadedFeed α)}
  {done : List (DataFeed α)}

/-- What the second preload makes of a loaded feed. -/
def PreloadedFrom (before : List (DataFeed α)) (f : LoadedFeed α) (d : DataFeed α) : Prop :=
  match f.base with
  | none => d = f.feed.home
  | some (j, target) => ResampledFeed.preload (before.getD j {}) target f.feed = .ok d

theorem preloadFeeds_get (h : preloadFeeds loaded = .ok done) : done.length = loaded.length ∧
    ∀ k f, loaded[k]? = some f → ∃ d, done[k]? = some d ∧ PreloadedFrom (done.take k) f d := by
  refine @Fold.foldlM_ok _ _ _ preloadFeed (fun pre d => d.length = pre.length ∧
    ∀ k f, pre[k]? = some f → ∃ g, d[k]? = some g ∧ PreloadedFrom (d.take k) f g) ?_
    loaded [] [] done ⟨rfl, by simp⟩ h
  rintro pre d f d' ⟨hlen, hget⟩ hs
  obtain ⟨g, rfl, hg⟩ : ∃ g, d' = d ++ [g] ∧ PreloadedFrom d f g := by
    unfold preloadFeed at hs
    unfold PreloadedFrom
    cases hb : f.base with
    | none =>
      rw [hb] at hs
      cases hs
      exact ⟨_, rfl, rfl⟩
    | some p =>
      rw [hb] at hs
      obtain ⟨g, hp, hs⟩ := bind_eq_ok.1 hs
      cases hs
      exact ⟨g, rfl, hp⟩
  refine ⟨by simp [hlen], fun k x hk => ?_⟩
  rcases Nat.lt_or_ge k pre.length with hlt | hge
  · rw [List.getElem?_append_left hlt] at hk
    obtain ⟨y, hy, hfrom⟩ := hget k x hk
    have hkd : k < d.length := by omega
    rw [List.getElem?_append_left hkd, List.take_append_of_le_length hkd.le]
    exact ⟨y, hy, hfrom⟩
  · have hkp : k = pre.length := by
      have := (List.getElem?_eq_some_iff.1 hk).1
      simp at this
      omega
    subst hkp
    rw [List.getElem?_concat_length] at hk
    cases hk
    exact ⟨g, by rw [← hlen]; simp, by rw [← hlen, List.take_left]; exact hg⟩

theorem loadFeeds_tokens (h : loadFeeds rows sorted = .ok loaded) :
    loaded.map (·.interval) = sorted.map FeedSpec.token := by
  obtain ⟨hlen, hget⟩ := loadFeeds_get h
  refine List.ext_getElem? fun k => ?_
  rw [List.getElem?_map, List.getElem?_map]
  cases hk : sorted[k]? with
  | none =>
    have hle : loaded.length ≤ k := by
      rw [hlen]
      exact List.getElem?_eq_none_iff.1 hk
    rw [List.getElem?_eq_none hle]
    rfl
  | some spec =>
    obtain ⟨f, hf, hfrom⟩ := hget k spec hk
    rw [hf, Option.map_some, Option.map_some, hfrom.token]

/-- Bars are appended to a resampled feed twice: of its base as loaded, and of its base as preloaded again. -/
structure Resampled (rows : String → List (Row α)) (sorted : List FeedSpec) (loaded : List (LoadedFeed α))
    (done : List (DataFeed α)) (k j : Nat) (base : FeedSpec) (lb : LoadedFeed α) (db lf df : DataFeed α)
    (target : TimeFrameCompression) : Prop where
  lt : j < k
  baseSpec : sorted[j]? = some base
  baseLoaded : loaded[j]? = some lb
  baseFrom : LoadedFrom rows (loaded.take j) base lb
  baseDone : done[j]? = some db
  baseAgain : PreloadedFrom (done.take j) lb db
  feed : (loaded[k]?).map LoadedFeed.feed = some lf
  data : lf.lines.data = ResampledFeed.bars target lb.feed.lines.data
  prepared : done[k]? = some df
  twice : df.lines.data = ResampledFeed.bars target lb.feed.lines.data ++ ResampledFeed.bars target db.lines.data
  timeframe : df.timeframe = target

theorem resampled_of_prepared (hl : loadFeeds rows sorted = .ok loaded) (hp : preloadFeeds loaded = .ok done) {k : Nat}
    {spec : FeedSpec} (hk : sorted[k]? = some spec) (hs : spec.source = "resample") :
    ∃ j base lb db lf df target, baseIdx sorted k spec = some j ∧ parseInterval spec.interval = some target ∧
      Resampled rows sorted loaded done k j base lb db lf df target := by
  obtain ⟨hlen, hget⟩ := loadFeeds_get hl
  obtain ⟨hdlen, hdget⟩ := preloadFeeds_get hp
  obtain ⟨f, hf, hfrom⟩ := hget k spec hk
  obtain ⟨df, hdf, hagain⟩ := hdget k f hf
  rw [LoadedFrom, if_pos hs] at hfrom
  obtain ⟨j, lb, target, lf, hj, hlb, -, ht, hpre, rfl⟩ := hfrom
  have hkl : k < loaded.length := (List.getElem?_eq_some_iff.1 hf).1
  have hjk : j < k := by
    have := (List.getElem?_eq_some_iff.1 hlb).1
    rw [List.length_take] at this
    omega
  rw [List.getElem?_take_of_lt hjk] at hlb
  have hjl : j < sorted.length := by omega
  obtain ⟨lb', hlb', hbase⟩ := hget j _ (List.getElem?_eq_getElem hjl)
  obtain rfl : lb = lb' := Option.some.inj (hlb.symm.trans hlb')
  obtain ⟨db, hdb, hdbfrom⟩ := hdget j lb hlb
  have hidx : baseIdx sorted k spec = some j := by
    have htok := congrArg (List.take k) (loadFeeds_tokens hl)
    rw [← List.map_take, ← List.map_take] at htok
    have hmap := congrArg (List.findIdx? (· == some spec.base)) htok
    rw [List.findIdx?_map, List.findIdx?_map] at hmap
    exact hmap.symm.trans hj
  obtain ⟨hdata, -⟩ := ResampledFeed.preload_ok hpre
  have hdone : (done.take k).getD j {} = db := by
    rw [List.getD_eq_getElem?_getD, List.getElem?_take_of_lt hjk, hdb]
    rfl
  unfold PreloadedFrom at hagain
  dsimp only at hagain
  rw [hdone] at hagain
  obtain ⟨htwice, htf⟩ := ResampledFeed.preload_ok hagain
  have hlf : lf.lines.data = ResampledFeed.bars target lb.feed.lines.data := by simpa using hdata
  refine ⟨j, sorted[j], lb, db, lf, df, target, hidx, ht, hjk, List.getElem?_eq_getElem hjl, hlb, hbase, hdb, hdbfrom, ?_, hlf,
    hdf, ?_, htf.trans (ResampledFeed.preload_ok hpre).2⟩
  · rw [hf]
    rfl
  · rw [htwice, hlf]

/-- A base with bars of its own has the rows of its file, also when preloaded again. -/
theorem Resampled.native {k j : Nat} {base : FeedSpec} {lb : LoadedFeed α} {db lf df : DataFeed α}
    {target : TimeFrameCompression} (h : Resampled rows sorted loaded done k j base lb db lf df target)
    (hb : base.source = "parquet") : lb.feed.lines.data = rows base.dataPath ∧ db.lines.data = rows base.dataPath := by
  have hfrom := h.baseFrom
  rw [LoadedFrom, if_neg (by rw [hb]; decide)] at hfrom
  obtain ⟨feed, hload, rfl⟩ := hfrom
  obtain ⟨hdata, -⟩ := loadNativeFeed_ok hload
  obtain rfl : db = feed.home := h.baseAgain
  exact ⟨hdata, hdata⟩

/-- A feed resampled of one with bars of its own holds the bars of the file twice. -/
theorem native_twice (hl : loadFeeds rows sorted = .ok loaded) (hp : preloadFeeds loaded = .ok done) {k j : Nat}
    {spec base : FeedSpec} (hk : sorted[k]? = some spec) (hs : spec.source = "resample")
    (hj : baseIdx sorted k spec = some j) (hbase : sorted[j]? = some base) (hb : base.source = "parquet") :
    ∃ lf df, (loaded[k]?).map LoadedFeed.feed = some lf ∧ done[k]? = some df ∧
      lf.lines.data = ResampledFeed.bars spec.tfc (rows base.dataPath) ∧
      df.lines.data = ResampledFeed.bars spec.tfc (rows base.dataPath) ++
        ResampledFeed.bars spec.tfc (rows base.dataPath) := by
  obtain ⟨j', base', lb, db, lf, df, target, hj', ht, hr⟩ := resampled_of_prepared hl hp hk hs
  obtain rfl : j = j' := Option.some.inj (hj.symm.trans hj')
  obtain rfl : base = base' := Option.some.inj (hbase.symm.trans hr.baseSpec)
  obtain rfl : spec.tfc = target := by rw [FeedSpec.tfc, ht]; rfl
  obtain ⟨hlb, hdb⟩ := hr.native hb
  have hdata := hr.data
  have htwice := hr.twice
  rw [hlb] at hdata htwice
  rw [hdb] at htwice
  exact ⟨lf, df, hr.feed, hr.prepared, hdata, htwice⟩

/-- A feed resampled of such a feed holds first its bars, then the bars of its bars twice. -/
theorem chain_twice (hl : loadFeeds rows sorted = .ok loaded) (hp : preloadFeeds loaded = .ok done) {k j i : Nat}
    {spec base first : FeedSpec} (hk : sorted[k]? = some spec) (hs : spec.source = "resample")
    (hj : baseIdx sorted k spec = some j) (hbase : sorted[j]? = some base) (hbs : base.source = "resample")
    (hi : baseIdx sorted j base = some i) (hfirst : sorted[i]? = some first) (hf : first.source = "parquet") :
    ∃ df, done[k]? = some df ∧ df.lines.data =
      ResampledFeed.bars spec.tfc (ResampledFeed.bars base.tfc (rows first.dataPath)) ++
        ResampledFeed.bars spec.tfc (ResampledFeed.bars base.tfc (rows first.dataPath) ++
          ResampledFeed.bars base.tfc (rows first.dataPath)) := by
  obtain ⟨j', base', lb, db, lf, df, target, hj', ht, hr⟩ := resampled_of_prepared hl hp hk hs
  obtain rfl : j = j' := Option.some.inj (hj.symm.trans hj')
  obtain rfl : base = base' := Option.some.inj (hbase.symm.trans hr.baseSpec)
  obtain rfl : spec.tfc = target := by rw [FeedSpec.tfc, ht]; rfl
  obtain ⟨lf', df', hlf', hdf', hdata, htwice⟩ := native_twice hl hp hbase hbs hi hfirst hf
  rw [hr.baseLoaded, Option.map_some, Option.some.injEq] at hlf'
  obtain rfl : db = df' := Option.some.inj (hr.baseDone.symm.trans hdf')
  refine ⟨df, hr.prepared, ?_⟩
  rw [hr.twice, hlf', hdata, htwice]

end

/-! ### Aligned windows -/

theorem SameOhlcv.refl (bar : Row α) : SameOhlcv bar bar := ⟨rfl, rfl, rfl, rfl, rfl, rfl⟩

/-- In a sorted file the rows before a time come first. -/
theorem before_append_after {xs : List (Row α)} (h : (xs.map Row.datetime).Pairwise (· ≤ ·)) (t : DateTime) :
    xs = xs.filter (fun r => decide (r.datetime < t)) ++ xs.filter fun r => !decide (r.datetime < t) := by
  induction xs with
  | nil => rfl
  | cons x xs ih =>
    obtain ⟨hx, hxs⟩ := List.pairwise_cons.1 h
    by_cases hlt : x.datetime < t
    · simpa [hlt] using ih hxs
    · have hall : ∀ y ∈ xs, ¬ y.datetime < t := fun y hy =>
        not_lt.2 ((not_lt.1 hlt).trans (hx y.datetime (List.mem_map_of_mem hy)))
      have hnone : xs.filter (fun r => decide (r.datetime < t)) = [] :=
        List.filter_eq_nil_iff.2 fun y hy => by simpa using hall y hy
      have hkeep : xs.filter (fun r => !decide (r.datetime < t)) = xs :=
        List.filter_eq_self.2 fun y hy => by simpa using hall y hy
      simp [hlt, hnone, hkeep]

/-- The rows of the window among those of the full run. -/
theorem windowRows_from (fromdate : DateTime) (todate : Option DateTime) (rows : String → List (Row α)) (path : String) :
    windowRows (some fromdate) todate rows path =
      (windowRows none todate rows path).filter fun r => !decide (r.datetime < fromdate) := by
  unfold windowRows
  rw [List.filter_filter]
  refine List.filter_congr fun r _ => ?_
  simp [inWindow]

/-- A window that begins with a period cuts no bar. -/
theorem bars_window_subset {target : TimeFrameCompression} {fromdate : DateTime} (hal : target.grid.start fromdate = fromdate)
    {todate : Option DateTime} {rows : String → List (Row ℚ)} {path : String}
    (hsorted : ((rows path).map Row.datetime).Pairwise (· ≤ ·)) :
    ResampledFeed.bars target (windowRows (some fromdate) todate rows path) ⊆
      ResampledFeed.bars target (windowRows none todate rows path) := by
  have hfull : ((windowRows none todate rows path).map Row.datetime).Pairwise (· ≤ ·) :=
    hsorted.sublist (List.filter_sublist.map _)
  have hkeys : ∀ x ∈ (windowRows none todate rows path).filter (fun r => decide (r.datetime < fromdate)),
      ∀ y ∈ windowRows (some fromdate) todate rows path,
        ResampledFeed.bucketStart target x ≠ ResampledFeed.bucketStart target y := by
    intro x hx y hy heq
    rw [windowRows_from, List.mem_filter] at hy
    have hbefore : x.datetime < fromdate := by simpa using (List.mem_filter.1 hx).2
    have hafter : fromdate ≤ y.datetime := by simpa using hy.2
    have hx' : ResampledFeed.bucketStart target x ≤ x.datetime := target.grid.start_le _
    have hy' : fromdate ≤ ResampledFeed.bucketStart target y := by
      rw [← hal]
      exact target.grid.start_mono hafter
    rw [heq] at hx'
    exact absurd (lt_of_le_of_lt hx' hbefore) (not_lt.2 hy')
  have hsplit := before_append_after hfull fromdate
  rw [← windowRows_from] at hsplit
  rw [hsplit, ResampledFeed.bars_append hkeys]
  exact List.subset_append_right _ _

theorem windowSafe_of_aligned {sorted : List FeedSpec} {fromdate : DateTime} (h : Aligned sorted fromdate) :
    WindowSafe sorted fromdate := by
  rintro rows todate hsorted full exec rest ⟨lf, hlf, hdf⟩ ⟨lw, hlw, hdw⟩ W c b e hrun k spec slot f hk hs hslot hf bar hbar
  obtain ⟨⟨j, base, hj, hbase, hnative⟩, haligned⟩ := h k spec hk hs
  obtain ⟨-, d₁, -, hd₁, -, hfull⟩ := native_twice hlf hdf hk hs hj hbase hnative
  obtain ⟨-, d₂, -, hd₂, -, hwindow⟩ := native_twice hlw hdw hk hs hj hbase hnative
  obtain rfl : d₁ = f := Option.some.inj (hd₁.symm.trans hf)
  have hgrid : spec.tfc.grid.start fromdate = fromdate := by
    rw [periodStart_eq spec.supported_tfc] at haligned
    exact Except.ok.inj haligned
  obtain ⟨s, hs', hdata, -⟩ := Fold.forall₂_get? (c.run_slots hrun) hd₂
  obtain rfl : slot = s := Option.some.inj (hslot.symm.trans hs')
  have hmem : bar ∈ d₂.lines.data := by
    rw [← hdata]
    exact List.mem_of_mem_take hbar
  rw [hwindow, List.mem_append, or_self] at hmem
  refine ⟨bar, ?_, .refl bar⟩
  rw [hfull]
  exact List.mem_append_left _ (bars_window_subset hgrid (hsorted base.dataPath) hmem)

/-! ### A run of the plan -/

section
variable [Arith α] {rows : String → List (Row α)} {sorted : List FeedSpec}

theorem LoadedFrom.tfc {before : List (LoadedFeed α)} {spec : FeedSpec} {f : LoadedFeed α}
    (h : LoadedFrom rows before spec f) : f.feed.timeframe = spec.tfc := by
  unfold LoadedFrom at h
  split at h
  · obtain ⟨j, base, target, self, -, -, -, ht, hp, rfl⟩ := h
    rw [FeedSpec.tfc, ht]
    exact (ResampledFeed.preload_ok hp).2
  · obtain ⟨feed, hf, rfl⟩ := h
    exact (loadNativeFeed_ok hf).2.2.2

theorem Prepared.timeframes {feeds : List (DataFeed α)} (h : Prepared rows sorted feeds) :
    feeds.map (·.timeframe) = sorted.map FeedSpec.tfc := by
  obtain ⟨loaded, hl, hp⟩ := h
  rw [preloadFeeds_timeframe hp]
  obtain ⟨hlen, hget⟩ := loadFeeds_get hl
  refine List.ext_getElem? fun k => ?_
  rw [List.getElem?_map, List.getElem?_map]
  cases hk : sorted[k]? with
  | none =>
    have hle : loaded.length ≤ k := by
      rw [hlen]
      exact List.getElem?_eq_none_iff.1 hk
    rw [List.getElem?_eq_none hle]
    rfl
  | some spec =>
    obtain ⟨f, hf, hfrom⟩ := hget k spec hk
    rw [hf, Option.map_some, Option.map_some, hfrom.tfc]

theorem preloadFeeds_returns {loaded : List (LoadedFeed α)} (hl : loadFeeds rows sorted = .ok loaded) :
    ∃ done, preloadFeeds loaded = .ok done := by
  refine Fold.foldlM_returns (fun done f hf => ?_) []
  obtain ⟨k, hk⟩ := List.mem_iff_getElem?.1 hf
  obtain ⟨spec, -, hfrom⟩ := loadFeeds_getSpec hl hk
  unfold LoadedFrom at hfrom
  split at hfrom
  · obtain ⟨j, base, target, self, -, -, -, ht, -, rfl⟩ := hfrom
    obtain ⟨self', hself, -⟩ := ResampledFeed.preload_eq (supported_of_mem_vocabulary ht) (done.getD j {}) self
    exact ⟨done ++ [self'], bind_eq_ok.2 ⟨self', hself, rfl⟩⟩
  · obtain ⟨feed, -, rfl⟩ := hfrom
    exact ⟨_, rfl⟩

/-- The first feed is the file of the first spec. -/
theorem Prepared.exec {spec : FeedSpec} {rest : List FeedSpec} {exec : DataFeed α} {feeds : List (DataFeed α)}
    (h : Prepared rows (spec :: rest) (exec :: feeds)) : exec.lines.data = rows spec.dataPath ∧ exec.lines.data ≠ [] := by
  obtain ⟨loaded, hl, hp⟩ := h
  obtain ⟨-, hget⟩ := loadFeeds_get hl
  obtain ⟨f, hf, hfrom⟩ := hget 0 spec rfl
  obtain ⟨-, hdone⟩ := preloadFeeds_get hp
  obtain ⟨d, hd, hagain⟩ := hdone 0 f hf
  cases hd
  unfold LoadedFrom at hfrom
  split at hfrom
  · obtain ⟨j, base, target, self, hj, -⟩ := hfrom
    cases hj
  · obtain ⟨feed, hload, rfl⟩ := hfrom
    obtain rfl : exec = feed.home := hagain
    exact ⟨(loadNativeFeed_ok hload).1, (loadNativeFeed_ok hload).2.1⟩

/-- What `Runnable` asks for is what a run over bars has passed. -/
theorem runnable_of_run {c : Cerebro α W} {exec : DataFeed α} {feeds : List (DataFeed α)} {b : BackBroker α W}
    {e : CerebroState α W} (h : Prepared rows sorted (exec :: feeds)) (hrun : c.run (exec, feeds) b = .ok e) :
    Runnable sorted := by
  have htf := h.timeframes
  cases sorted with
  | nil => cases htf
  | cons spec rest =>
    rw [List.map_cons, List.map_cons, List.cons.injEq] at htf
    obtain ⟨hexec, hrest⟩ := htf
    have hne : (exec, feeds).1.size ≠ 0 := by
      rw [DataFeed.size_eq]
      exact fun h0 => h.exec.2 (List.length_eq_zero_iff.1 h0)
    obtain ⟨loaded, hl, -⟩ := h
    refine ⟨loadable_of_ok hl, fun s hs => ?_⟩
    obtain ⟨f, hf, htf⟩ := List.mem_map.1 (hrest ▸ List.mem_map_of_mem (f := FeedSpec.tfc) hs)
    rw [← htf, ← hexec]
    exact c.not_finer_of_run hrun hne f hf

/-- Over files with bars such a plan is run to the end. -/
theorem Runnable.run (h : Runnable sorted) (hne : ∀ path, rows path ≠ []) (b : BackBroker α Unit) :
    ∃ exec feeds e, Prepared rows sorted (exec :: feeds) ∧ Cerebro.silent.run (exec, feeds) b = .ok e := by
  cases sorted with
  | nil => exact h.elim
  | cons spec rest =>
    obtain ⟨hload, hfiner⟩ := h
    obtain ⟨loaded, hl⟩ := @ok_of_loadable α _ _ (spec :: rest) [] (fun s _ _ => hne s.dataPath) hload
    obtain ⟨done, hp⟩ := preloadFeeds_returns hl
    have hprep : Prepared rows (spec :: rest) done := ⟨loaded, hl, hp⟩
    have htf := hprep.timeframes
    cases done with
    | nil => cases htf
    | cons exec feeds =>
      rw [List.map_cons, List.map_cons, List.cons.injEq] at htf
      obtain ⟨hexec, hrest⟩ := htf
      have hcontext : ∀ f ∈ feeds, ∃ s ∈ rest, f.timeframe = s.tfc := fun f hf => by
        obtain ⟨s, hs, htf⟩ := List.mem_map.1 (hrest ▸ List.mem_map_of_mem (f := DataFeed.timeframe) hf)
        exact ⟨s, hs, htf.symm⟩
      obtain ⟨e, he⟩ := @Cerebro.silent_returns α _ (exec, feeds) b (hexec ▸ spec.supported_tfc)
        (fun f hf => by
          obtain ⟨s, -, htf⟩ := hcontext f hf
          exact htf ▸ s.supported_tfc)
        (fun f hf => by
          obtain ⟨s, hs, htf⟩ := hcontext f hf
          rw [htf, hexec]
          exact hfiner s hs)
      exact ⟨exec, feeds, e, hprep, he⟩

end

/-! ### Windows that cut a bar -/

/-- The bars that have closed with the last row of the files are delivered. -/
theorem Prepared.delivers {rows : String → List (Row ℚ)} {first spec : FeedSpec} {others : List FeedSpec}
    {exec dw : DataFeed ℚ} {rest : List (DataFeed ℚ)} (h : Prepared rows (first :: others) (exec :: rest))
    {ys : List (Row ℚ)} {last : Row ℚ} (hdata : rows first.dataPath = ys ++ [last]) {c : Cerebro ℚ W} {b : BackBroker ℚ W}
    {e : CerebroState ℚ W} (he : c.run (exec, rest) b = .ok e) {k : Nat} (hk : others[k]? = some spec)
    (hdw : rest[k]? = some dw) {n : Nat} (hn : n ≤ dw.lines.data.length)
    (hclosed : ∀ r ∈ dw.lines.data.take n, spec.tfc.grid.stop r.datetime ≤ last.datetime + 1) :
    ∃ slot, e.clock.slots[k + 1]? = some slot ∧ dw.lines.data.take n ⊆ slot.delivered := by
  have hexec := h.exec.1.trans hdata
  have htf := h.timeframes
  rw [List.map_cons, List.map_cons, List.cons.injEq] at htf
  obtain ⟨hmaster, hrest⟩ := htf
  have hctx : dw.timeframe = spec.tfc := by
    have := congrArg (·[k]?) hrest
    simpa only [List.getElem?_map, hdw, hk, Option.map_some, Option.some_inj] using this
  have hsize : exec.size = ys.length + 1 := by
    rw [DataFeed.size_eq, hexec, List.length_append]
    rfl
  have hopen : exec.datetime.data[ys.length]? = some last.datetime := by
    show (exec.lines.data.map Row.datetime)[ys.length]? = _
    simp [hexec]
  obtain ⟨close, hclose⟩ := barClose_returns (hmaster ▸ first.supported_tfc) last.datetime
  have hlate : last.datetime + 1 ≤ close := lt_of_barClose hclose
  obtain ⟨slot, hslot, hsame, hle⟩ := c.delivered_of_closed he hsize hdw hopen hclose hn fun i dt hi hdt => by
    obtain ⟨r, hr, rfl⟩ := Option.map_eq_some_iff.1 ((List.getElem?_map ..).symm.trans hdt)
    have hmem : r ∈ dw.lines.data.take n := List.mem_of_getElem? ((List.getElem?_take_of_lt hi).trans hr)
    rw [hctx]
    exact ⟨_, periodEnd_eq spec.supported_tfc _, (hclosed r hmem).trans hlate⟩
  refine ⟨slot, hslot, ?_⟩
  rw [Slot.delivered, hsame]
  exact List.take_subset_take_left _ hle

/-- The runs of a safe plan whose files all hold `xs`, of which the window keeps `ys` and `last`: what has closed with
`last` is among the bars of the full run. -/
theorem WindowSafe.bars {sorted : List FeedSpec} {fromdate : DateTime} (h : WindowSafe sorted fromdate)
    (hrun : Runnable sorted) {xs ys : List (Row ℚ)} {last : Row ℚ} (hsorted : (xs.map Row.datetime).Pairwise (· ≤ ·))
    (hwindow : xs.filter (fun r => inWindow (some fromdate) none r.datetime) = ys ++ [last]) :
    ∃ loadedF full loadedW window, loadFeeds (fun _ => xs) sorted = .ok loadedF ∧ preloadFeeds loadedF = .ok full ∧
      loadFeeds (fun _ => ys ++ [last]) sorted = .ok loadedW ∧ preloadFeeds loadedW = .ok window ∧
      ∀ (k : Nat) (spec : FeedSpec) (df dw : DataFeed ℚ), sorted[k]? = some spec → spec.source = "resample" →
        full[k]? = some df → window[k]? = some dw → ∀ n ≤ dw.lines.data.length,
          (∀ r ∈ dw.lines.data.take n, spec.tfc.grid.stop r.datetime ≤ last.datetime + 1) →
          ∀ bar ∈ dw.lines.data.take n, ∃ bar' ∈ df.lines.data, SameOhlcv bar bar' := by
  have hfull : windowRows none none (fun _ => xs) = fun _ : String => xs := by
    funext path
    exact List.filter_eq_self.2 fun r _ => rfl
  have hwin : windowRows (some fromdate) none (fun _ => xs) = fun _ : String => ys ++ [last] := funext fun _ => hwindow
  have hxs : xs ≠ [] := by
    rintro rfl
    simp at hwindow
  let b : BackBroker ℚ Unit := BackBroker.init .USD 1000 none ()
  obtain ⟨execF, restF, -, ⟨loadedF, hlF, hdF⟩, -⟩ := @Runnable.run ℚ _ (fun _ => xs) _ hrun (fun _ => hxs) b
  obtain ⟨exec, rest, e, ⟨loadedW, hlW, hdW⟩, he⟩ := @Runnable.run ℚ _ (fun _ => ys ++ [last]) _ hrun (fun _ => by simp) b
  refine ⟨loadedF, _, loadedW, _, hlF, hdF, hlW, hdW, fun k spec df dw hk hs hdf hdw n hn hclosed bar hbar => ?_⟩
  cases sorted with
  | nil => exact hrun.elim
  | cons first others =>
    cases k with
    | zero =>
      -- the first feed has bars of its own
      cases hk
      have hfirst := hrun.1.1
      rw [FeedSpec.LoadsAfter, if_pos hs] at hfirst
      exact absurd hfirst.1 List.not_mem_nil
    | succ k =>
      obtain ⟨slot, hslot, hsub⟩ := Prepared.delivers ⟨loadedW, hlW, hdW⟩ rfl he hk hdw hn hclosed
      have hpF : Prepared (windowRows none none fun _ => xs) (first :: others) (execF :: restF) := by
        rw [hfull]
        exact ⟨loadedF, hlF, hdF⟩
      have hpW : Prepared (windowRows (some fromdate) none fun _ => xs) (first :: others) (exec :: rest) := by
        rw [hwin]
        exact ⟨loadedW, hlW, hdW⟩
      exact h _ none (fun _ => hsorted) _ exec rest hpF hpW Unit _ b e he (k + 1) spec slot df hk hs hslot hdf bar
        (hsub hbar)

/-- A row that tells its time, its open and its volume. -/
def rowOf (dt : DateTime) (o v : ℚ) : Row ℚ := ⟨dt, o, 1, 1, 1, v, 0⟩

/-- Of two rows of one period and a later one, the second opens no bar. -/
theorem bars_open {target : TimeFrameCompression} {s t u : DateTime} (h : target.grid.start t = target.grid.start s) :
    ∀ bar ∈ ResampledFeed.bars target [rowOf s 1 1, rowOf t 2 1, rowOf u 3 1], bar.open ≠ 2 := by
  have hsame : ResampledFeed.bucketStart target (rowOf t 2 1) = ResampledFeed.bucketStart target (rowOf s 1 1) := h
  unfold ResampledFeed.bars ResampledFeed.buckets
  dsimp only
  rw [Runs.collect_same hsame]
  by_cases hu : ResampledFeed.bucketStart target (rowOf u 3 1) = ResampledFeed.bucketStart target (rowOf s 1 1)
  · rw [Runs.collect_same hu]
    simp [Runs.collect, Bucket.toRow, Bucket.accumulate, Bucket.ofRow, rowOf]
  · rw [Runs.collect_change hu]
    simp [Runs.collect, Bucket.toRow, Bucket.accumulate, Bucket.ofRow, rowOf]

theorem WindowSafe.starts {sorted : List FeedSpec} {fromdate : DateTime} (h : WindowSafe sorted fromdate)
    (hrun : Runnable sorted) {k j : Nat} {spec base : FeedSpec} (hk : sorted[k]? = some spec)
    (hs : spec.source = "resample") (hj : baseIdx sorted k spec = some j) (hbase : sorted[j]? = some base)
    (hnative : base.source = "parquet") : spec.tfc.grid.start fromdate = fromdate := by
  by_contra hne
  have hlt : spec.tfc.grid.start fromdate < fromdate := lt_of_le_of_ne (spec.tfc.grid.start_le _) hne
  have hstop : fromdate < spec.tfc.grid.stop fromdate := spec.tfc.grid.lt_stop _
  have hsorted : (([rowOf (spec.tfc.grid.start fromdate) 1 1, rowOf fromdate 2 1,
      rowOf (spec.tfc.grid.stop fromdate) 3 1]).map Row.datetime).Pairwise (· ≤ ·) := by
    simp [rowOf, hlt.le, hstop.le, (hlt.trans hstop).le]
  obtain ⟨loadedF, full, loadedW, window, hlF, hdF, hlW, hdW, hbars⟩ :=
    @WindowSafe.bars _ _ h hrun _ [rowOf fromdate 2 1] (rowOf (spec.tfc.grid.stop fromdate) 3 1) hsorted
      (by simp [inWindow, rowOf, hlt, hstop.le])
  obtain ⟨-, d₁, -, hd₁, -, hfull⟩ := native_twice hlF hdF hk hs hj hbase hnative
  obtain ⟨-, d₂, -, hd₂, -, hwindow⟩ := native_twice hlW hdW hk hs hj hbase hnative
  obtain ⟨bar, more, hhead, hdt, hopen⟩ := ResampledFeed.bars_head spec.tfc (rowOf fromdate 2 1)
    [rowOf (spec.tfc.grid.stop fromdate) 3 1]
  rw [List.singleton_append, hhead] at hwindow
  obtain ⟨bar', hmem, hsame⟩ := hbars k spec d₁ d₂ hk hs hd₁ hd₂ 1 (by simp [hwindow]) (fun r hr => by
    rw [hwindow, List.cons_append, List.take_succ_cons, List.take_zero, List.mem_singleton] at hr
    rw [hr, hdt]
    show spec.tfc.grid.stop (spec.tfc.grid.start fromdate) ≤ spec.tfc.grid.stop fromdate + 1
    rw [Grid.stop_start]
    exact Int.le_add_one le_rfl) bar (by simp [hwindow])
  rw [hfull, List.mem_append, or_self] at hmem
  exact bars_open (spec.tfc.grid.start_eq_start_iff.2 (spec.tfc.grid.cell_start fromdate).symm) bar' hmem
    (hsame.open.trans hopen)

/-- What the two preloads make of volumes 10 and 1, whatever the periods. -/
theorem bars_volume (target base : TimeFrameCompression) (s t : DateTime) :
    let once := ResampledFeed.bars base [rowOf s 1 10, rowOf t 1 1]
    ∀ bar ∈ ResampledFeed.bars target once ++ ResampledFeed.bars target (once ++ once), bar.volume ≠ 2 := by
  intro once
  have honce : (∃ p : Row ℚ, once = [p] ∧ p.volume = 11) ∨
      ∃ p q : Row ℚ, once = [p, q] ∧ p.volume = 10 ∧ q.volume = 1 := by
    by_cases h : ResampledFeed.bucketStart base (rowOf t 1 1) = ResampledFeed.bucketStart base (rowOf s 1 10)
    · refine .inl ⟨_, congrArg (List.map _) (Runs.collect_same h), ?_⟩
      show (10 + 1 : ℚ) = 11
      norm_num
    · exact .inr ⟨_, _, congrArg (List.map _) (Runs.collect_change h), rfl, rfl⟩
  rcases honce with ⟨p, hp, hv⟩ | ⟨p, q, hpq, hv, hv'⟩
  · rw [hp]
    simp [ResampledFeed.bars, ResampledFeed.buckets, Runs.collect, Bucket.toRow, Bucket.accumulate, Bucket.ofRow, hv]
    norm_num
  · rw [hpq]
    by_cases h : ResampledFeed.bucketStart target q = ResampledFeed.bucketStart target p
    · simp [ResampledFeed.bars, ResampledFeed.buckets, Runs.collect, Bucket.toRow, Bucket.accumulate, Bucket.ofRow, h, hv, hv']
      norm_num
    · simp [ResampledFeed.bars, ResampledFeed.buckets, Runs.collect, Bucket.toRow, Bucket.ofRow, h, Ne.symm h, hv, hv']

theorem WindowSafe.unchained {sorted : List FeedSpec} {fromdate : DateTime} (h : WindowSafe sorted fromdate)
    (hrun : Runnable sorted) {k j i : Nat} {spec base first : FeedSpec} (hk : sorted[k]? = some spec)
    (hs : spec.source = "resample") (hj : baseIdx sorted k spec = some j) (hbase : sorted[j]? = some base)
    (hbs : base.source = "resample") (hi : baseIdx sorted j base = some i) (hfirst : sorted[i]? = some first) :
    first.source ≠ "parquet" := by
  intro hnative
  let x := spec.tfc.grid.stop fromdate - 1
  have hlt : fromdate < spec.tfc.grid.stop fromdate := spec.tfc.grid.lt_stop _
  have hx : fromdate ≤ x := Int.le_sub_one_of_lt hlt
  have hy : fromdate - 1 < fromdate := Int.sub_one_lt_of_le le_rfl
  obtain ⟨loadedF, full, loadedW, window, hlF, hdF, hlW, hdW, hbars⟩ :=
    @WindowSafe.bars _ _ h hrun [rowOf (fromdate - 1) 1 10, rowOf x 1 1] [] (rowOf x 1 1)
      (by simpa [rowOf] using hy.le.trans hx) (by simp [inWindow, rowOf, hx])
  obtain ⟨d₁, hd₁, hfull⟩ := chain_twice hlF hdF hk hs hj hbase hbs hi hfirst hnative
  obtain ⟨d₂, hd₂, hwindow⟩ := chain_twice hlW hdW hk hs hj hbase hbs hi hfirst hnative
  -- one row makes one bar, and the two preloads make two bars of it
  obtain ⟨bar, hdata, hdt, hvolume⟩ : ∃ bar : Row ℚ,
      d₂.lines.data = [rowOf (spec.tfc.grid.start (base.tfc.grid.start x)) 1 1, bar] ∧
        bar.datetime = spec.tfc.grid.start (base.tfc.grid.start x) ∧ bar.volume = 2 := by
    refine ⟨_, hwindow.trans (congrArg (_ :: List.map _ ·) (Runs.collect_same rfl)), rfl, ?_⟩
    show (1 + 1 : ℚ) = 2
    norm_num
  have hstop : spec.tfc.grid.stop (spec.tfc.grid.start (base.tfc.grid.start x)) ≤ x + 1 := by
    have hcell : spec.tfc.grid.cell x = spec.tfc.grid.cell fromdate :=
      spec.tfc.grid.cell_eq_iff.2 ⟨(spec.tfc.grid.start_le _).trans hx, Int.sub_one_lt_of_le le_rfl⟩
    calc spec.tfc.grid.stop (spec.tfc.grid.start (base.tfc.grid.start x))
        = spec.tfc.grid.stop (base.tfc.grid.start x) := spec.tfc.grid.stop_start _
      _ ≤ spec.tfc.grid.stop x := spec.tfc.grid.stop_mono (base.tfc.grid.start_le x)
      _ = spec.tfc.grid.stop fromdate := congrArg (fun i => spec.tfc.grid.boundary (i + 1)) hcell
      _ = x + 1 := (Int.sub_add_cancel _ _).symm
  obtain ⟨bar', hmem, hsame⟩ := hbars k spec d₁ d₂ hk hs hd₁ hd₂ 2 (by rw [hdata]; rfl) (fun r hr => by
    rw [hdata] at hr
    rcases List.mem_pair.1 hr with rfl | rfl
    · exact hstop
    · exact hdt ▸ hstop) bar (by simp [hdata])
  rw [hfull] at hmem
  exact bars_volume _ _ _ _ bar' hmem (hsame.volume.trans hvolume)

/-- Of a plan that runs every base is loaded before. -/
theorem Runnable.base {sorted : List FeedSpec} (hrun : Runnable sorted) {k : Nat} {spec : FeedSpec}
    (hk : sorted[k]? = some spec) (hs : spec.source = "resample") :
    ∃ j base, baseIdx sorted k spec = some j ∧ sorted[j]? = some base ∧ j < k := by
  obtain ⟨_, _, _, ⟨loaded, hl, hp⟩, -⟩ := @Runnable.run ℚ _ (oneBarAt 0) _ hrun (fun _ => by simp [oneBarAt])
    (BackBroker.init .USD 1000 none ())
  obtain ⟨j, base, lb, db, lf, df, target, hj, -, hr⟩ := resampled_of_prepared hl hp hk hs
  exact ⟨j, base, hj, hr.baseSpec, hr.lt⟩

theorem aligned_of_windowSafe {sorted : List FeedSpec} {fromdate : DateTime} (h : WindowSafe sorted fromdate)
    (hrun : Runnable sorted) (hsrc : ∀ s ∈ sorted, s.source = "parquet" ∨ s.source = "resample") :
    Aligned sorted fromdate := by
  have hnative : ∀ k spec, sorted[k]? = some spec → spec.source = "resample" →
      ∃ j base, baseIdx sorted k spec = some j ∧ sorted[j]? = some base ∧ base.source = "parquet" := by
    intro k
    induction k using Nat.strong_induction_on with
    | _ k ih =>
      intro spec hk hs
      obtain ⟨j, base, hj, hbase, hjk⟩ := hrun.base hk hs
      refine ⟨j, base, hj, hbase, (hsrc base (List.mem_of_getElem? hbase)).resolve_right fun hbs => ?_⟩
      obtain ⟨i, first, hi, hfirst, hf⟩ := ih j hjk base hbase hbs
      exact h.unchained hrun hk hs hj hbase hbs hi hfirst hf
  intro k spec hk hs
  obtain ⟨j, base, hj, hbase, hb⟩ := hnative k spec hk hs
  refine ⟨⟨j, base, hj, hbase, hb⟩, ?_⟩
  rw [periodStart_eq spec.supported_tfc, h.starts hrun hk hs hj hbase hb]

/-! ### The plans that are safe -/

theorem coarsestTfc_supported {feeds : List FeedSpec} {tfc : TimeFrameCompression} (h : coarsestTfc feeds = some tfc) :
    tfc.Supported := by
  suffices hall : ∀ tfc, coarsestTfc feeds = some tfc → tfc.Supported from hall tfc h
  refine Fold.foldl_ind (fun c : Option TimeFrameCompression => ∀ tfc, c = some tfc → tfc.Supported) feeds none
    (fun _ h => nomatch h) fun c spec _ hc tfc htfc => ?_
  cases hp : parseInterval spec.interval with
  | none =>
    rw [hp] at htfc
    exact hc tfc htfc
  | some parsed =>
    rw [hp] at htfc
    have hparsed := supported_of_mem_vocabulary hp
    cases c with
    | none => exact Option.some.inj htfc ▸ hparsed
    | some coarsest =>
      dsimp only at htfc
      split at htfc
      · exact Option.some.inj htfc ▸ hparsed
      · exact Option.some.inj htfc ▸ hc coarsest rfl

theorem windowStart_returns (feeds : List FeedSpec) (startTime : DateTime) : ∃ t, windowStart feeds startTime = .ok t := by
  unfold windowStart
  split
  · split
    · rename_i tfc h
      exact advancePeriods_returns (coarsestTfc_supported h) _ _
    · exact ⟨_, rfl⟩
  · exact ⟨_, rfl⟩

/-- A run of an accepted plan from any start time delivers, whatever the data, only resampled bars that the run without
a start time has, exactly when the plan does not run in the order of its indices or its extended window begins with a
period of every resampled feed and all of these are built of feeds with bars of their own. -/
theorem window_safe_iff (fileExists : String → Bool) (feeds sorted : List FeedSpec) (startTime : DateTime)
    (hv : validateFeedPlan fileExists feeds = none) (ho : LoadOrder feeds sorted) :
    ∃ fromdate, windowStart feeds startTime = .ok fromdate ∧
      (WindowSafe sorted fromdate ↔ (Runnable sorted → Aligned sorted fromdate)) := by
  obtain ⟨exec, rest, rfl, hval⟩ := validated_of_none hv
  obtain ⟨fromdate, hfrom⟩ := windowStart_returns (exec :: rest) startTime
  refine ⟨fromdate, hfrom, ⟨fun h hrun => aligned_of_windowSafe h hrun fun s hs => ?_, fun h => ?_⟩⟩
  · cases hval.source s (ho.perm.mem_iff.1 hs) with
    | parquet hp => exact .inl hp
    | resample hr => exact .inr hr
  · intro rows todate hsorted full exec' rest' hfull hwindow W c b e he
    exact windowSafe_of_aligned (h (runnable_of_run hwindow he)) rows todate hsorted full exec' rest' hfull hwindow W c b e he

/-- The hours of a minute file, in a run that starts at half past two on 3 January 1970. -/
theorem window_safe_iff_hours : ∃ fromdate, windowStart hoursOfMinutes (62 * 3600 * nsPerSecond + 1800 * nsPerSecond) = .ok fromdate ∧
    fromdate = 12 * 3600 * nsPerSecond ∧ WindowSafe hoursOfMinutes fromdate := by
  obtain ⟨fromdate, hfrom, hiff⟩ := window_safe_iff (fun _ => true) hoursOfMinutes hoursOfMinutes
    (62 * 3600 * nsPerSecond + 1800 * nsPerSecond) (by decide) ⟨List.Perm.refl _, by decide⟩
  obtain rfl : 12 * 3600 * nsPerSecond = fromdate := Except.ok.inj hfrom
  refine ⟨_, hfrom, rfl, hiff.2 fun _ k spec hk hs => ?_⟩
  match k, hk with
  | 0, hk =>
    cases hk
    exact absurd hs (by decide)
  | 1, hk =>
    cases hk
    exact ⟨⟨0, _, by decide, rfl, rfl⟩, by decide⟩

/-! Weeks and months of a daily file. The run starts on 15 July 1974, its window on Friday, 1 May 1970. -/

def weeksAndMonths : List FeedSpec :=
  [{ index := 0, interval := "1d", role := "execution", source := "parquet", dataPath := "d.csv" },
   { index := 1, interval := "1w", role := "context", source := "resample", base := "1d" },
   { index := 2, interval := "1M", role := "context", source := "resample", base := "1d" }]

/-- The Thursday before, the Friday and the Monday after. -/
def firstOfMay : String → List (Row ℚ) := fun _ =>
  [rowOf (119 * nsPerDay) 1 10, rowOf (120 * nsPerDay) 1 1, rowOf (123 * nsPerDay) 1 1]

/-- The week of 27 April has lost its Thursday. -/
theorem weeksAndMonths_cuts_a_week : validateFeedPlan (fun _ => true) weeksAndMonths = none ∧
    LoadOrder weeksAndMonths weeksAndMonths ∧ windowStart weeksAndMonths (1656 * nsPerDay) = .ok (120 * nsPerDay) ∧
    ∃ (full : List (DataFeed ℚ)) (exec : DataFeed ℚ) (rest : List (DataFeed ℚ)) (e : CerebroState ℚ Unit)
      (slot : Slot ℚ) (f : DataFeed ℚ) (bar : Row ℚ),
      Prepared (windowRows none none firstOfMay) weeksAndMonths full ∧
      Prepared (windowRows (some (120 * nsPerDay)) none firstOfMay) weeksAndMonths (exec :: rest) ∧
      Cerebro.silent.run (exec, rest) (BackBroker.init .USD (1000 : ℚ) none ()) = .ok e ∧
      e.clock.slots[1]? = some slot ∧ full[1]? = some f ∧ bar ∈ slot.delivered ∧
      (∃ bar' ∈ f.lines.data, bar'.datetime = bar.datetime) ∧
      ∀ bar' ∈ f.lines.data, bar'.datetime = bar.datetime → bar'.volume ≠ bar.volume := by
  obtain ⟨lf, full, lw, exec, rest, hlf, hdf, hlw, hdw, hrun, hfull⟩ : ∃ (lf : List (LoadedFeed ℚ))
      (full : List (DataFeed ℚ)) (lw : List (LoadedFeed ℚ)) (exec : DataFeed ℚ) (rest : List (DataFeed ℚ)),
      loadFeeds (windowRows none none firstOfMay) weeksAndMonths = .ok lf ∧ preloadFeeds lf = .ok full ∧
      loadFeeds (windowRows (some (120 * nsPerDay)) none firstOfMay) weeksAndMonths = .ok lw ∧
      preloadFeeds lw = .ok (exec :: rest) ∧
      (Cerebro.silent.run (exec, rest) (BackBroker.init .USD (1000 : ℚ) none ())).toOption.bind
        (fun e => e.clock.slots[1]?.map Slot.delivered) = some [rowOf (116 * nsPerDay) 1 1] ∧
      full[1]?.map (·.lines.data) = some [rowOf (116 * nsPerDay) 1 11, rowOf (123 * nsPerDay) 1 1,
        rowOf (116 * nsPerDay) 1 11, rowOf (123 * nsPerDay) 1 1] :=
    ⟨_, _, _, _, _, rfl, rfl, rfl, rfl, by decide +kernel, by decide +kernel⟩
  cases hr : Cerebro.silent.run (exec, rest) (BackBroker.init .USD (1000 : ℚ) none ()) with
  | error err => rw [hr] at hrun; cases hrun
  | ok e =>
    rw [hr] at hrun
    obtain ⟨slot, hslot, hdelivered⟩ := Option.map_eq_some_iff.1 hrun
    obtain ⟨f, hf, hdata⟩ := Option.map_eq_some_iff.1 hfull
    refine ⟨by decide, ⟨List.Perm.refl _, by decide⟩, rfl, full, exec, rest, e, slot, f, _, ⟨lf, hlf, hdf⟩, ⟨lw, hlw, hdw⟩, hr,
      hslot, hf, hdelivered ▸ List.mem_singleton_self _, ?_⟩
    rw [hdata]
    decide +kernel

end StratForge
