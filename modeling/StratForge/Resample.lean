import StratForge.Line

/-!
# Derived feeds (`data/resampled_feed.hpp`, `data/resampler.hpp`, `data/replay.hpp`)

The three feeds that build their bars from another feed's, each in `preload()`, and the feeds that
read their own bars. `Feed.preload` is the virtual function of `DataFeed`: file and in-memory feeds
append what they have not delivered yet and go home, the derived feeds append one more aggregation
of whatever the feed they refer to then holds.
-/

namespace StratForge

variable {α : Type} [Arith α]

/-- The bar under construction in the resampling loops. -/
structure Bucket (α : Type) where
  o : α
  h : α
  l : α
  c : α
  v : α
deriving DecidableEq, Repr

namespace Bucket

def ofRow (r : Row α) : Bucket α := ⟨r.open, r.high, r.low, r.close, r.volume⟩

def accumulate (b : Bucket α) (r : Row α) : Bucket α :=
  { b with h := Arith.max b.h r.high, l := Arith.min b.l r.low, c := r.close, v := b.v + r.volume }

/-- The row `emit_bar` appends to the seven lines. -/
def toRow (b : Bucket α) (ts : DateTime) : Row α := ⟨ts, b.o, b.h, b.l, b.c, b.v, 0⟩

end Bucket

namespace ResampledFeed

def emitBar (f : DataFeed α) (ts : DateTime) (b : Bucket α) : DataFeed α := f.pushRow (b.toRow ts)

/-- The loop over the base bars from the second on; `start` is `current_bucket_start`. -/
def loop (target : TimeFrameCompression) :
    List (Row α) → DateTime → Bucket α → DataFeed α → Except Error (DataFeed α)
  | [], start, b, f => .ok (emitBar f start b)
  | r :: rest, start, b, f => do
      let barBucket ← periodStart r.datetime target
      if barBucket ≠ start then loop target rest barBucket (.ofRow r) (emitBar f start b)
      else loop target rest start (b.accumulate r) f

def preload (base : DataFeed α) (target : TimeFrameCompression) (self : DataFeed α) :
    Except Error (DataFeed α) :=
  match base.lines.data with
  | [] => .ok self
  | r :: rest => do
      let start ← periodStart r.datetime target
      let self ← loop target rest start (.ofRow r) self
      return self.home

end ResampledFeed

/-- `get_bucket` of `Resampler` and `DataReplay`; the divisions truncate. -/
def getBucket (dt : DateTime) (tf : TimeFrame) (compression : Int) : Int :=
  let sysDays := dt / nsPerDay
  let timeOfDay := dt - sysDays * nsPerDay
  match tf with
  | .Minutes => sysDays * 10000 + (timeOfDay / (60 * nsPerSecond)).tdiv compression
  | .Days => sysDays.tdiv compression
  | .Weeks => (sysDays + 3).tdiv 7
  | .Months => Civil.monthOf (sysDays + epochDay) + 3
  | _ => dt

namespace Resampler

/-- Date and 23:59:59. -/
def endOfDay (dt : DateTime) : DateTime := dt / nsPerDay * nsPerDay + 86399 * nsPerSecond

/-- `get_bucket_timestamp` for minutes, its only caller's case. -/
def getBucketTimestamp (dt : DateTime) (compression : Int) : DateTime :=
  let sysDays := dt / nsPerDay
  let totalMins := (dt - sysDays * nsPerDay) / (60 * nsPerSecond)
  sysDays * nsPerDay + (totalMins.tdiv compression + 1) * compression * (60 * nsPerSecond)

def computeBarTimestamp (tf : TimeFrame) (compression : Int) (lastBarDt : DateTime) : DateTime :=
  if tf = .Minutes then getBucketTimestamp lastBarDt compression else endOfDay lastBarDt

/-- The loop after its first bar: the open bucket, its number and the last bar's time. -/
def loop (tf : TimeFrame) (compression : Int) :
    List (Row α) → Bucket α → Int → DateTime → DataFeed α → DataFeed α
  | [], b, _, lastDt, f => f.pushRow (b.toRow (computeBarTimestamp tf compression lastDt))
  | r :: rest, b, current, lastDt, f =>
      let bucket := getBucket r.datetime tf compression
      if bucket ≠ current then
        let isDayBoundary := tf = .Minutes ∧ lastDt / nsPerDay ≠ r.datetime / nsPerDay
        let ts := if isDayBoundary then endOfDay lastDt else computeBarTimestamp tf compression lastDt
        loop tf compression rest (.ofRow r) bucket r.datetime (f.pushRow (b.toRow ts))
      else loop tf compression rest (b.accumulate r) bucket r.datetime f

/-- The first bar of all is accumulated into a volume that starts at zero. -/
def firstBucket (r : Row α) : Bucket α := { Bucket.ofRow r with v := 0 + r.volume }

def preload (source : DataFeed α) (tf : TimeFrame) (compression : Int) (self : DataFeed α) :
    DataFeed α :=
  match source.lines.data with
  | [] => self
  | r :: rest => (loop tf compression rest (firstBucket r) (getBucket r.datetime tf compression)
      r.datetime self).home

end Resampler

namespace DataReplay

/-- Every source bar emits the state of its period so far. -/
def loop (tf : TimeFrame) (compression : Int) : List (Row α) → Bucket α → Int → DataFeed α → DataFeed α
  | [], _, _, f => f
  | r :: rest, b, current, f =>
      let bucket := getBucket r.datetime tf compression
      let b := if bucket ≠ current then Bucket.ofRow r else b.accumulate r
      loop tf compression rest b bucket (f.pushRow (b.toRow r.datetime))

def preload (source : DataFeed α) (tf : TimeFrame) (compression : Int) (self : DataFeed α) :
    DataFeed α :=
  match source.lines.data with
  | [] => self
  | r :: rest =>
      let b := Resampler.firstBucket r
      (loop tf compression rest b (getBucket r.datetime tf compression)
        (self.pushRow (b.toRow r.datetime))).home

def isPeriodEnd (source : DataFeed α) (tf : TimeFrame) (compression : Int) (i : Nat) : Bool :=
  match source.lines.data[i]?, source.lines.data[i + 1]? with
  | some r, some next => getBucket r.datetime tf compression != getBucket next.datetime tf compression
  | _, _ => true

end DataReplay

/-- A feed object: its lines, and what its `preload()` reads. -/
inductive Feed (α : Type)
  /-- `CsvData`, `InMemoryFeed`: `unread` is what `load()` has still to append. -/
  | native (self : DataFeed α) (unread : List (Row α))
  /-- `ResampledFeed`, whose base was preloaded by someone else. -/
  | resampled (base : Feed α) (target : TimeFrameCompression) (self : DataFeed α)
  | resampler (source : Feed α) (tf : TimeFrame) (compression : Int) (self : DataFeed α)
  | replay (source : Feed α) (tf : TimeFrame) (compression : Int) (self : DataFeed α)

namespace Feed

/-- The `DataFeed` part of the object. -/
def toDataFeed : Feed α → DataFeed α
  | native self _ => self
  | resampled _ _ self => self
  | resampler _ _ _ self => self
  | replay _ _ _ self => self

/-- The bars a derived feed aggregates; a native feed aggregates none. -/
def upstream : Feed α → List (Row α)
  | native _ _ => []
  | resampled base _ _ => base.toDataFeed.lines.data
  | resampler source _ _ _ => source.toDataFeed.lines.data
  | replay source _ _ _ => source.toDataFeed.lines.data

def preload : Feed α → Except Error (Feed α)
  | native self unread => .ok (native (unread.foldl DataFeed.forwardRow self).home [])
  | resampled base target self => do
      let self ← ResampledFeed.preload base.toDataFeed target self
      return resampled base target self
  | resampler source tf compression self => do
      let source ← source.preload
      return resampler source tf compression
        (Resampler.preload source.toDataFeed tf compression self)
  | replay source tf compression self => do
      let source ← source.preload
      return replay source tf compression (DataReplay.preload source.toDataFeed tf compression self)

end Feed

/-! ### The load loop of `run_backtest` and the preload loop of `Cerebro::run` -/

/-- One entry of the feed plan. -/
structure FeedSpec where
  index : Int := 0
  interval : String := ""
  role : String := ""
  source : String := ""
  dataPath : String := ""
  base : String := ""
deriving DecidableEq, Repr

inductive LoadError
  | message (what : String)
  /-- The parquet branch leaves `feed` null and sets its timeframe. -/
  | nullFeed
  | thrown (e : Error)
deriving DecidableEq, Repr

/-- `path.compare(path.size() - 8, 8, ".parquet") == 0`. -/
def isParquet (path : String) : Bool := ".parquet".toList.isSuffixOf path.toList

/-- `load_native_feed`; `rows path` are the rows `CsvData` reads inside the window. -/
def loadNativeFeed (rows : String → List (Row α)) (spec : FeedSpec) :
    Except LoadError (DataFeed α) :=
  match isParquet spec.dataPath, parseInterval spec.interval with
  | true, some _ => .error .nullFeed
  | true, none => .error (.message "")
  | false, tfc =>
      if (rows spec.dataPath).isEmpty then
        .error (.message ("failed to load data file for feed " ++ toString spec.index ++ ": " ++
          spec.dataPath))
      else
        .ok { lines := { data := rows spec.dataPath }, timeframe := tfc.getD {} }

/-- A feed of the plan: the token it is registered under as a possible base, and for a resampled one
the position of its base and its target. -/
structure LoadedFeed (α : Type) where
  interval : Option String
  feed : DataFeed α
  base : Option (Nat × TimeFrameCompression)

/-- One turn of the load loop over the sorted specs. -/
def loadFeed (rows : String → List (Row α)) (loaded : List (LoadedFeed α)) (spec : FeedSpec) :
    Except LoadError (List (LoadedFeed α)) :=
  if spec.source = "resample" then
    match loaded.findIdx? (·.interval == some spec.base) with
    | none => .error (.message ("feed " ++ toString spec.index ++
        " (source=resample) references base interval \"" ++ spec.base ++ "\" which is not loaded"))
    | some j =>
      match parseInterval spec.interval with
      | none => .error (.message ("feed " ++ toString spec.index ++ " has invalid interval \"" ++
          spec.interval ++ "\""))
      | some target =>
        match ResampledFeed.preload ((loaded.map (·.feed)).getD j {}) target { timeframe := target } with
        | .error e => .error (.thrown e)
        | .ok self => .ok (loaded ++ [⟨some spec.interval, self, some (j, target)⟩])
  else
    match loadNativeFeed rows spec with
    | .error e => .error e
    | .ok feed =>
      .ok (loaded ++ [⟨if spec.source = "parquet" then some spec.interval else none, feed, none⟩])

def loadFeeds (rows : String → List (Row α)) (specs : List FeedSpec) :
    Except LoadError (List (LoadedFeed α)) :=
  specs.foldlM (loadFeed rows) []

/-- `Cerebro::run` preloads the feeds in order; `done` holds those already preloaded. -/
def preloadFeed (done : List (DataFeed α)) (f : LoadedFeed α) : Except Error (List (DataFeed α)) :=
  match f.base with
  | none => .ok (done ++ [f.feed.home])
  | some (j, target) => do
      let self ← ResampledFeed.preload (done.getD j {}) target f.feed
      return done ++ [self]

def preloadFeeds (feeds : List (LoadedFeed α)) : Except Error (List (DataFeed α)) :=
  feeds.foldlM preloadFeed []

end StratForge
