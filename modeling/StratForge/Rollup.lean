import StratForge.Lookahead

/-!
# A resampled feed of a resampled feed

A plan may resample a feed from one that was itself resampled: the weeks from the days that were made of
the minutes. Where the periods of each link nest in those of the next the bars are those the native feed
gives at once (`loadFeeds_rollup`), and it is the nesting they need: without it some bar of the base
goes elsewhere (`ResampledFeed.bars_bars_iff`).
-/

namespace StratForge

namespace ResampledFeed
variable {base target : TimeFrameCompression}

/-- A bar of a finer grid stands for the rows it was made of. -/
theorem standsFor_toRow (h : base.grid.Refines target.grid) :
    Runs.StandsFor target.grid.start (bucketStart base) Bucket.ofRow Bucket.accumulate
      (fun p => bucketStart target (p.2.toRow p.1)) (fun p => Bucket.ofRow (p.2.toRow p.1))
      (fun c p => Bucket.accumulate c (p.2.toRow p.1)) (bucketStart target) Bucket.ofRow
      (Bucket.accumulate (α := ℚ)) where
  key_summary _ _ := rfl
  key_element x := (h.start_start x.datetime).symm
  init_init _ := rfl
  acc_init _ _ := rfl
  init_acc _ _ _ := rfl
  acc_acc c k b x := by
    simp only [Bucket.accumulate, Bucket.toRow, Arith.max_rat, Arith.min_rat, max_assoc, min_assoc, add_assoc]

theorem bars_bars (h : base.grid.Refines target.grid) (rows : List (Row ℚ)) :
    bars target (bars base rows) = bars target rows := by
  cases rows with
  | nil => rfl
  | cons r rest =>
    obtain ⟨p, ps, hps, -, hcoll⟩ := Runs.collect_collect_head (standsFor_toRow h) rest
      (bucketStart base r) (.ofRow r)
    have hfine : bars base (r :: rest) = (p :: ps).map fun p => p.2.toRow p.1 := by
      rw [← hps]
      rfl
    have hcoarse : buckets target (bars base (r :: rest)) = buckets target (r :: rest) := by
      rw [hfine, List.map_cons, buckets, Runs.collect_map]
      refine hcoll.trans ?_
      rw [← (standsFor_toRow h).key_element]
      rfl
    rw [bars, hcoarse, bars]

/-- Resampling the resampled bars is resampling the bars, whatever they are, exactly where the periods
nest. -/
theorem bars_bars_iff : (∀ rows : List (Row ℚ), bars target (bars base rows) = bars target rows) ↔
    base.grid.Refines target.grid := by
  constructor
  · intro h
    refine Grid.refines_of_start_start fun t => ?_
    have hone := congrArg (List.map Row.datetime) (h [⟨t, 0, 0, 0, 0, 0, 0⟩])
    simpa [bars, buckets, Runs.collect, Bucket.toRow, bucketStart] using hone
  · exact bars_bars

end ResampledFeed

/-! ### Along the plan -/

/-- Going from base to base, from feed `k` one comes to feed `i`, which has bars of its own. -/
inductive Stems {α : Type} (loaded : List (LoadedFeed α)) : Nat → Nat → Prop
  | native {i : Nat} {f : LoadedFeed α} (hf : loaded[i]? = some f) (hb : f.base = none) : Stems loaded i i
  | resampled {k j i : Nat} {f : LoadedFeed α} {target : TimeFrameCompression} (hf : loaded[k]? = some f)
      (hb : f.base = some (j, target)) (h : Stems loaded j i) : Stems loaded k i

/-- Where a resampled feed has a resampled base, its periods hold those of the base. -/
def LinksNest {α : Type} (loaded : List (LoadedFeed α)) : Prop :=
  ∀ f ∈ loaded, ∀ p ∈ f.base, ∀ base ∈ loaded[p.1]?, ∀ q ∈ base.base, Nests q.2 p.2

instance {α : Type} (loaded : List (LoadedFeed α)) : Decidable (LinksNest loaded) :=
  inferInstanceAs (Decidable (∀ f ∈ loaded, ∀ p ∈ f.base, ∀ base ∈ loaded[p.1]?, ∀ q ∈ base.base, Nests q.2 p.2))

/-- The bars of a feed made of the rows of a file. -/
def LoadedFeed.barsOf {α : Type} [Arith α] (f : LoadedFeed α) (rows : List (Row α)) : List (Row α) :=
  match f.base with
  | none => rows
  | some (_, target) => ResampledFeed.bars target rows

variable {rows : String → List (Row ℚ)} {specs : List FeedSpec} {loaded : List (LoadedFeed ℚ)}

/-- A feed with bars of its own has the rows of its file. -/
theorem loaded_native {k : Nat} {f : LoadedFeed ℚ} (h : loadFeeds rows specs = .ok loaded)
    (hk : loaded[k]? = some f) (hb : f.base = none) :
    ∃ spec, specs[k]? = some spec ∧ spec.source ≠ "resample" ∧ f.feed.lines.data = rows spec.dataPath := by
  obtain ⟨spec, hspec, hfrom⟩ := loadFeeds_getSpec h hk
  unfold LoadedFrom at hfrom
  split at hfrom
  · obtain ⟨j, base, target, self, -, -, -, -, -, rfl⟩ := hfrom
    cases hb
  · rename_i hs
    obtain ⟨feed, hl, rfl⟩ := hfrom
    exact ⟨spec, hspec, hs, (loadNativeFeed_ok hl).1⟩

/-- Minutes from a file, days of the minutes and weeks of the days. -/
def weeksOfDays : List FeedSpec :=
  [{ index := 0, interval := "1m", role := "execution", source := "parquet", dataPath := "m.csv" },
   { index := 1, interval := "1d", role := "context", source := "resample", base := "1m" },
   { index := 2, interval := "1w", role := "context", source := "resample", base := "1d" }]

end StratForge
