import StratForge.PreloadTwice
import StratForge.Runs

/-!
# Resampling partitions the base feed (`data/resampled_feed.hpp`)

One `preload()` of an empty `ResampledFeed` appends the summaries of the consecutive runs of base
bars that lie in one period (`preload_eq`): every base bar is in exactly one of them, and an output
bar is the open, high, low, close and volume of its run.
-/

namespace StratForge

variable {α : Type} [Arith α]

omit [Arith α] in
@[simp] theorem DataFeed.data_foldl_pushRow (rows : List (Row α)) (f : DataFeed α) :
    (rows.foldl pushRow f).lines.data = f.lines.data ++ rows := by
  induction rows generalizing f with
  | nil => simp
  | cons r rows ih => simp [ih]

omit [Arith α] in
@[simp] theorem DataFeed.timeframe_foldl_pushRow (rows : List (Row α)) (f : DataFeed α) :
    (rows.foldl pushRow f).timeframe = f.timeframe := by
  induction rows generalizing f with
  | nil => rfl
  | cons r rows ih => exact ih (f.pushRow r)

/-- What a pass over the rows of a run leaves in the open bucket. -/
theorem Bucket.foldl_accumulate (t : List (Row α)) (b : Bucket α) :
    t.foldl accumulate b = ⟨b.o, (t.map Row.high).foldl Arith.max b.h, (t.map Row.low).foldl Arith.min b.l,
      (t.map Row.close).getLastD b.c, (t.map Row.volume).foldl (· + ·) b.v⟩ := by
  induction t generalizing b with
  | nil => rfl
  | cons r t ih =>
    rw [List.foldl_cons, ih]
    simp only [accumulate, List.map_cons, List.foldl_cons, List.getLastD_cons]

/-- `bar` is the open, high, low, close and volume of the bars `run`. -/
structure Aggregate (run : List (Row ℚ)) (bar : Row ℚ) : Prop where
  «open» : (run.map Row.open).head? = some bar.open
  high : (run.map Row.high).max? = some bar.high
  low : (run.map Row.low).min? = some bar.low
  close : (run.map Row.close).getLast? = some bar.close
  volume : bar.volume = (run.map Row.volume).sum

theorem Bucket.aggregate_toRow {κ : Type} {key : Row ℚ → κ} {run : List (Row ℚ)} {p : κ × Bucket ℚ}
    (h : Runs.Summary key ofRow accumulate run p) (ts : DateTime) : Aggregate run (p.2.toRow ts) := by
  obtain ⟨x, t, rfl, -, hp⟩ := h
  rw [Bucket.foldl_accumulate] at hp
  have hmax : Arith.max (α := ℚ) = max := by funext a b; exact Arith.max_rat a b
  have hmin : Arith.min (α := ℚ) = min := by funext a b; exact Arith.min_rat a b
  refine ⟨?_, ?_, ?_, ?_, ?_⟩
  · simp [hp, Bucket.toRow, Bucket.ofRow]
  · rw [List.map_cons, List.max?_cons', hp, hmax]; rfl
  · rw [List.map_cons, List.min?_cons', hp, hmin]; rfl
  · rw [List.map_cons, List.getLast?_cons, hp, List.getLastD_eq_getLast?]; rfl
  · have hsum : ((x :: t).map Row.volume).sum = (t.map Row.volume).foldl (· + ·) x.volume := by
      rw [List.map_cons, List.sum_eq_foldl, List.foldl_cons, zero_add]
    rw [hsum, hp]
    rfl

namespace ResampledFeed

/-- The period of a row. -/
def bucketStart (target : TimeFrameCompression) (r : Row α) : DateTime := target.grid.start r.datetime

/-- Start and summary of each bucket of the rows, in order. -/
def buckets (target : TimeFrameCompression) : List (Row α) → List (DateTime × Bucket α)
  | [] => []
  | r :: rest => Runs.collect (bucketStart target) Bucket.ofRow Bucket.accumulate rest
      (bucketStart target r) (.ofRow r)

/-- The bars `emit_bar` appends for them. -/
def bars (target : TimeFrameCompression) (rows : List (Row α)) : List (Row α) :=
  (buckets target rows).map fun p => p.2.toRow p.1

variable {target : TimeFrameCompression}

theorem loop_eq (hs : target.Supported) (rows : List (Row α)) (start : DateTime) (b : Bucket α)
    (f : DataFeed α) :
    loop target rows start b f = .ok (((Runs.collect (bucketStart target) Bucket.ofRow Bucket.accumulate
      rows start b).map fun p => p.2.toRow p.1).foldl DataFeed.pushRow f) := by
  induction rows generalizing start b f with
  | nil => rfl
  | cons r rest ih =>
    have hb : periodStart r.datetime target = .ok (bucketStart target r) := periodStart_eq hs _
    simp only [loop, hb, bind, Except.bind, Runs.collect]
    split
    · rw [ih]; rfl
    · exact ih start _ f

theorem preload_eq (hs : target.Supported) (base self : DataFeed α) :
    ∃ self', preload base target self = .ok self' ∧
      self'.lines.data = self.lines.data ++ bars target base.lines.data ∧
      self'.timeframe = self.timeframe := by
  cases hb : base.lines.data with
  | nil => exact ⟨self, preload_nil hb, by simp [bars, buckets], rfl⟩
  | cons r rest =>
    have hp : periodStart r.datetime target = .ok (bucketStart target r) := periodStart_eq hs _
    simp only [preload, hb, hp, loop_eq hs, bind, Except.bind]
    exact ⟨_, rfl, by simp [bars, buckets], DataFeed.timeframe_foldl_pushRow ..⟩

theorem preload_ok {base self self' : DataFeed α} (h : preload base target self = .ok self') :
    self'.lines.data = self.lines.data ++ bars target base.lines.data ∧ self'.timeframe = self.timeframe := by
  cases hb : base.lines.data with
  | nil =>
    rw [preload_nil hb] at h
    cases h
    exact ⟨by simp [bars, buckets], rfl⟩
  | cons r rest =>
    have hs : target.Supported := by
      simp only [preload, hb] at h
      obtain ⟨start, hstart, -⟩ := bind_eq_ok.1 h
      exact supported_of_periodStart hstart
    obtain ⟨f, hp, hf⟩ := preload_eq hs base self
    rw [hp] at h
    cases h
    rw [← hb]
    exact hf

/-- `bar` is the aggregate of a run of base bars that all lie in its period. -/
structure Aggregates (target : TimeFrameCompression) (run : List (Row ℚ)) (bar : Row ℚ) : Prop where
  period : ∀ r ∈ run, periodStart r.datetime target = .ok bar.datetime
  «open» : (run.map Row.open).head? = some bar.open
  high : (run.map Row.high).max? = some bar.high
  low : (run.map Row.low).min? = some bar.low
  close : (run.map Row.close).getLast? = some bar.close
  volume : bar.volume = (run.map Row.volume).sum

theorem aggregates_of_summary (hs : target.Supported) {run : List (Row ℚ)} {p : DateTime × Bucket ℚ}
    (h : Runs.Summary (bucketStart target) Bucket.ofRow Bucket.accumulate run p) :
    Aggregates target run (p.2.toRow p.1) := by
  obtain ⟨hopen, hhigh, hlow, hclose, hvolume⟩ := Bucket.aggregate_toRow h p.1
  refine ⟨fun r hr => ?_, hopen, hhigh, hlow, hclose, hvolume⟩
  obtain ⟨x, t, rfl, hkey, -⟩ := h
  rw [periodStart_eq hs, ← hkey r hr]
  rfl

theorem bars_runs (hs : target.Supported) (rows : List (Row ℚ)) :
    ∃ runs : List (List (Row ℚ)), runs.flatten = rows ∧
      List.Forall₂ (Aggregates target) runs (bars target rows) := by
  cases rows with
  | nil => exact ⟨[], rfl, .nil⟩
  | cons r rest =>
    obtain ⟨runs, hflat, hruns⟩ := @Runs.collect_runs _ _ _ _ (bucketStart target) Bucket.ofRow
      Bucket.accumulate rest r [] (by simp)
    refine ⟨runs, hflat, ?_⟩
    rw [bars, List.forall₂_map_right_iff]
    exact hruns.imp fun run p h => aggregates_of_summary hs h

/-- The output volumes add up to the base volumes. -/
theorem sum_volume {runs : List (List (Row ℚ))} {out : List (Row ℚ)}
    (h : List.Forall₂ (Aggregates target) runs out) :
    (out.map Row.volume).sum = (runs.flatten.map Row.volume).sum := by
  induction h with
  | nil => rfl
  | cons hagg _ ih =>
    rw [List.map_cons, List.sum_cons, ih, hagg.volume, List.flatten_cons, List.map_append,
      List.sum_append]

theorem timestamps_bars (rows : List (Row α)) :
    (bars target rows).map Row.datetime = (buckets target rows).map Prod.fst := by
  rw [bars, List.map_map]
  rfl

theorem mem_timestamps_bars (rows : List (Row α)) (ts : DateTime) :
    ts ∈ (bars target rows).map Row.datetime ↔ ∃ r ∈ rows, bucketStart target r = ts := by
  rw [timestamps_bars]
  cases rows with
  | nil => simp [buckets]
  | cons r rest =>
    rw [buckets, Runs.mem_collect_key]
    simp only [List.mem_cons, exists_eq_or_imp, @eq_comm _ ts (bucketStart target r)]

theorem bars_increasing {rows : List (Row α)} (h : (rows.map Row.datetime).Pairwise (· ≤ ·)) :
    ((bars target rows).map Row.datetime).Pairwise (· < ·) := by
  rw [timestamps_bars]
  cases rows with
  | nil => exact .nil
  | cons r rest =>
    obtain ⟨hr, hrest⟩ := List.pairwise_cons.1 (List.pairwise_map.1 h)
    have hmono := target.grid.start_mono
    rw [List.pairwise_map]
    exact (Runs.collect_sorted rest (fun x hx => hmono (hr x hx))
      (hrest.imp fun hxy => hmono hxy)).1

/-- One `preload()` of an empty feed: the base bars split into consecutive runs, one for each bar of
the feed, which is their aggregate; the bars stand at the distinct periods of the base in increasing
order. -/
theorem preload_partitions (base self : DataFeed ℚ) (target : TimeFrameCompression)
    (hself : self.lines.data = []) (hs : target.Supported) (hb : base.timestamps.Pairwise (· ≤ ·)) :
    ∃ self' runs, preload base target self = .ok self' ∧ runs.flatten = base.lines.data ∧
      List.Forall₂ (Aggregates target) runs self'.lines.data ∧ OnePerBucket base target self' ∧
      (self'.lines.data.map Row.volume).sum = (base.lines.data.map Row.volume).sum := by
  obtain ⟨self', hp, hd, -⟩ := preload_eq hs base self
  rw [hself, List.nil_append] at hd
  obtain ⟨runs, hflat, hagg⟩ := bars_runs hs base.lines.data
  rw [← hd] at hagg
  refine ⟨self', runs, hp, hflat, hagg, ⟨?_, fun ts => ?_⟩, ?_⟩
  · show (self'.lines.data.map Row.datetime).Pairwise (· < ·)
    rw [hd]
    exact bars_increasing hb
  · show ts ∈ self'.lines.data.map Row.datetime ↔ ∃ t ∈ base.lines.data.map Row.datetime, _
    rw [hd, mem_timestamps_bars]
    constructor
    · rintro ⟨r, hr, rfl⟩
      exact ⟨r.datetime, List.mem_map_of_mem hr, periodStart_eq hs _⟩
    · rintro ⟨t, ht, hts⟩
      obtain ⟨r, hr, rfl⟩ := List.mem_map.1 ht
      rw [periodStart_eq hs] at hts
      exact ⟨r, hr, Except.ok.inj hts⟩
  · rw [sum_volume hagg, hflat]

/-- Two bars of one week, the second repeated, and a bar of the week after, by weeks. -/
def fortnight : DataFeed ℚ :=
  { lines := { data := [⟨0, 1, 3, 1, 2, 10, 0⟩, ⟨nsPerDay, 2, 5, 2, 4, 20, 0⟩,
      ⟨nsPerDay, 4, 4, 0, 1, 5, 0⟩, ⟨9 * nsPerDay, 7, 8, 6, 7, 1, 0⟩] } }

theorem preload_partitions_fortnight :
    ∃ self' runs, preload fortnight ⟨.Weeks, 1⟩ {} = .ok self' ∧
      runs.flatten = fortnight.lines.data ∧
      List.Forall₂ (Aggregates ⟨.Weeks, 1⟩) runs self'.lines.data ∧
      OnePerBucket fortnight ⟨.Weeks, 1⟩ self' ∧
      (self'.lines.data.map Row.volume).sum = (fortnight.lines.data.map Row.volume).sum :=
  preload_partitions fortnight {} ⟨.Weeks, 1⟩ rfl (by decide) (by decide)

end ResampledFeed

end StratForge
