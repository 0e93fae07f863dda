import StratForge.Resamplers

/-!
# Replayed bars (`data/replay.hpp`)

`DataReplay::preload` appends one bar for each source bar: the bar of the higher timeframe as far as
the source has come. It is the aggregate of the run of equal buckets under way (`Runs.current`), at
every index and not only where a period ends, so that within one run the open stands still and the
range only widens.
-/

namespace StratForge

namespace DataReplay

/-- `out` are the replayed bars of the source bars `rows`. -/
structure Progression (tf : TimeFrame) (compression : Int) (rows out : List (Row ℚ)) : Prop where
  timestamps : out.map Row.datetime = rows.map Row.datetime
  aggregate : ∀ i b, out[i]? = some b →
    Aggregate (Runs.current (rowBucket tf compression) (rows.take (i + 1))) b
  close : out.map Row.close = rows.map Row.close
  within : ∀ i j b b', Runs.OneRun (rowBucket tf compression) rows i j → out[i]? = some b →
    out[j]? = some b' → b'.open = b.open ∧ b.high ≤ b'.high ∧ b'.low ≤ b.low

/-- The bars `loop` appends. -/
def replayed (tf : TimeFrame) (compression : Int) : List (Row ℚ) → List (Row ℚ)
  | [] => []
  | r :: rest => (Bucket.ofRow r).toRow r.datetime ::
      List.zipWith Bucket.toRow (Runs.partials (rowBucket tf compression) Bucket.ofRow Bucket.accumulate
        rest (rowBucket tf compression r) (.ofRow r)) (rest.map Row.datetime)

theorem data_loop (tf : TimeFrame) (c : Int) (rows : List (Row ℚ)) (b : Bucket ℚ) (n : Int)
    (f : DataFeed ℚ) :
    (loop tf c rows b n f).lines.data = f.lines.data ++ List.zipWith Bucket.toRow
      (Runs.partials (rowBucket tf c) Bucket.ofRow Bucket.accumulate rows n b) (rows.map Row.datetime) := by
  induction rows generalizing b n f with
  | nil => simp [loop, Runs.partials]
  | cons r rest ih =>
    rw [loop, ih, Runs.partials, DataFeed.data_pushRow, List.append_assoc]
    rfl

theorem data_preload (source self : DataFeed ℚ) (tf : TimeFrame) (c : Int) :
    (preload source tf c self).lines.data = self.lines.data ++ replayed tf c source.lines.data := by
  cases hs : source.lines.data with
  | nil => simp [preload, hs, replayed]
  | cons r rest =>
    simp only [preload, hs, DataFeed.data_home, data_loop, Resampler.firstBucket_rat,
      DataFeed.data_pushRow, List.append_assoc]
    rfl

theorem length_replayed (tf : TimeFrame) (c : Int) (rows : List (Row ℚ)) :
    (replayed tf c rows).length = rows.length := by
  cases rows with
  | nil => rfl
  | cons r rest => simp [replayed]

theorem timestamps_replayed (tf : TimeFrame) (c : Int) (rows : List (Row ℚ)) :
    (replayed tf c rows).map Row.datetime = rows.map Row.datetime := by
  cases rows with
  | nil => rfl
  | cons r rest =>
    have hzip : ∀ (bs : List (Bucket ℚ)) (ts : List DateTime), bs.length = ts.length →
        (List.zipWith Bucket.toRow bs ts).map Row.datetime = ts := by
      intro bs ts h
      rw [List.map_zipWith]
      show List.zipWith (fun _ t => t) bs ts = ts
      rw [← List.map_uncurry_zip_eq_zipWith]
      exact List.map_snd_zip h.ge
    rw [replayed, List.map_cons, hzip _ _ (by simp), List.map_cons]
    rfl

/-- Each replayed bar sums up the run under way. -/
theorem aggregate_replayed (tf : TimeFrame) (c : Int) (rows : List (Row ℚ)) {i : Nat} {b : Row ℚ}
    (h : (replayed tf c rows)[i]? = some b) :
    Aggregate (Runs.current (rowBucket tf c) (rows.take (i + 1))) b := by
  cases rows with
  | nil => simp [replayed] at h
  | cons r rest =>
    have hfirst : Runs.Summary (rowBucket tf c) Bucket.ofRow Bucket.accumulate
        (Runs.current (rowBucket tf c) ([] ++ [r])) (rowBucket tf c r, Bucket.ofRow r) :=
      ⟨r, [], by simp, by simp, rfl⟩
    rw [replayed] at h
    cases i with
    | zero =>
      simp only [List.getElem?_cons_zero, Option.some.injEq] at h
      subst h
      simpa using Bucket.aggregate_toRow hfirst r.datetime
    | succ i =>
      rw [List.getElem?_cons_succ, List.getElem?_zipWith_eq_some] at h
      obtain ⟨s, ts, hs, -, rfl⟩ := h
      obtain ⟨k, hk⟩ := Runs.partials_summary rest [] r _ hfirst hs
      simpa using Bucket.aggregate_toRow hk ts

/-- A longer run has the same open and a wider range. -/
theorem widen {run run' : List (Row ℚ)} {b b' : Row ℚ} (hb : Aggregate run b)
    (hb' : Aggregate run' b') (h : run <+: run') :
    b'.open = b.open ∧ b.high ≤ b'.high ∧ b'.low ≤ b.low := by
  refine ⟨?_, ?_, ?_⟩
  · obtain ⟨t, rfl⟩ := h
    have hopen := hb'.open
    rw [List.map_append, List.head?_append, hb.open] at hopen
    exact (Option.some.inj hopen).symm
  · have hmem := (h.map Row.high).subset (List.max?_mem hb.high)
    exact (List.max?_eq_some_iff.1 hb'.high).2 _ hmem
  · have hmem := (h.map Row.low).subset (List.min?_mem hb.low)
    exact (List.min?_eq_some_iff.1 hb'.low).2 _ hmem

/-- The last bar of the run under way is the last bar. -/
theorem getLast?_current (tf : TimeFrame) (c : Int) (rows : List (Row ℚ)) {x : Row ℚ}
    (h : (Runs.current (rowBucket tf c) rows).getLast? = some x) : rows.getLast? = some x := by
  obtain ⟨t, ht⟩ := @Runs.current_suffix _ _ _ (rowBucket tf c) rows
  rw [← ht, List.getLast?_append, h]
  rfl

theorem close_replayed (tf : TimeFrame) (c : Int) (rows : List (Row ℚ)) :
    (replayed tf c rows).map Row.close = rows.map Row.close := by
  refine List.ext_getElem (by simp [length_replayed]) fun i hi hi' => ?_
  rw [List.length_map] at hi hi'
  rw [List.getElem_map, List.getElem_map]
  have hclose := (aggregate_replayed tf c rows (List.getElem?_eq_getElem hi)).close
  rw [List.getLast?_map] at hclose
  obtain ⟨x, hx, hxc⟩ := Option.map_eq_some_iff.1 hclose
  have hlast := getLast?_current tf c _ hx
  rw [List.take_succ_eq_append_getElem hi', List.getLast?_concat] at hlast
  rw [← hxc, Option.some.inj hlast]

theorem progression (tf : TimeFrame) (c : Int) (rows : List (Row ℚ)) :
    Progression tf c rows (replayed tf c rows) where
  timestamps := timestamps_replayed tf c rows
  aggregate _ _ h := aggregate_replayed tf c rows h
  close := close_replayed tf c rows
  within i j b b' hrun hi hj := by
    have hlt : j < rows.length := by
      rw [← length_replayed tf c rows]
      exact (List.getElem?_eq_some_iff.1 hj).1
    exact widen (aggregate_replayed tf c rows hi) (aggregate_replayed tf c rows hj)
      (Runs.current_prefix hrun hlt)

/-- `preload()` appends one bar for each bar its source holds after `preload()`, the aggregate of the
run under way. -/
theorem preload_progresses (source source' : Feed ℚ) (tf : TimeFrame) (c : Int) (self : DataFeed ℚ)
    (hs : source.preload = .ok source') :
    ∃ f out, (Feed.replay source tf c self).preload = .ok f ∧
      f.toDataFeed.lines.data = self.lines.data ++ out ∧
      Progression tf c source'.toDataFeed.lines.data out := by
  refine ⟨.replay source' tf c (preload source'.toDataFeed tf c self),
    replayed tf c source'.toDataFeed.lines.data, ?_, data_preload .., progression tf c _⟩
  simp only [Feed.preload, hs, bind, Except.bind, pure, Except.pure]

/-- Three bars of one week and one of the next. -/
theorem preload_progresses_fortnight :
    ∃ f out, (Feed.replay (.native ResampledFeed.fortnight []) .Weeks 1 {}).preload = .ok f ∧
      f.toDataFeed.lines.data = [] ++ out ∧
      Progression .Weeks 1 ResampledFeed.fortnight.lines.data out :=
  preload_progresses (.native ResampledFeed.fortnight []) (.native ResampledFeed.fortnight.home []) .Weeks 1
    {} rfl

end DataReplay

end StratForge
