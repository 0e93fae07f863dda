import StratForge.Partition

/-!
# The three ways to resample (`data/resampler.hpp`, `data/replay.hpp`, `data/resampled_feed.hpp`)

`Resampler` and `DataReplay` number their buckets with `getBucket`, `ResampledFeed` compares period
starts. All three are the same pass over the rows (`Runs.collect`), so they agree where the two
numberings tell the same bars apart: everywhere but in weeks before 1970, where the division of
`getBucket` truncates.
-/

namespace StratForge

variable {α : Type} [Arith α]

/-- The (open, high, low, close, volume) of the bars of a feed. -/
def ohlcv (rows : List (Row α)) : List (Bucket α) := rows.map Bucket.ofRow

/-- The replayed bars at the indices where `is_period_end` holds. -/
def DataReplay.completed (source self : DataFeed α) (tf : TimeFrame) (compression : Int) : List (Row α) :=
  (self.lines.data.zipIdx.filter fun p => isPeriodEnd source tf compression p.2).map Prod.fst

/-- The three feeds built over one base hold the same bars, and put the same base bars together. -/
structure ResamplersAgree (base : DataFeed α) (tfc : TimeFrameCompression) : Prop where
  bars : ∃ f, ResampledFeed.preload base tfc {} = .ok f ∧
    ohlcv (Resampler.preload base tfc.timeframe tfc.compression {}).lines.data = ohlcv f.lines.data ∧
    ohlcv (DataReplay.completed base (DataReplay.preload base tfc.timeframe tfc.compression {})
      tfc.timeframe tfc.compression) = ohlcv f.lines.data
  buckets : ∀ s ∈ base.timestamps, ∀ t ∈ base.timestamps,
    (getBucket s tfc.timeframe tfc.compression = getBucket t tfc.timeframe tfc.compression ↔
      periodStart s tfc = periodStart t tfc)

/-! ### The bars are those of one pass -/

/-- The number `get_bucket` gives the bar. -/
def rowBucket (tf : TimeFrame) (compression : Int) (r : Row α) : Int := getBucket r.datetime tf compression

@[simp] theorem Bucket.ofRow_toRow (b : Bucket α) (ts : DateTime) : Bucket.ofRow (b.toRow ts) = b := rfl

theorem Resampler.firstBucket_rat (r : Row ℚ) : firstBucket r = Bucket.ofRow r := by
  simp [firstBucket, Bucket.ofRow]

theorem Resampler.ohlcv_loop (tf : TimeFrame) (c : Int) (rows : List (Row α)) (b : Bucket α) (n : Int)
    (dt : DateTime) (f : DataFeed α) :
    ohlcv (loop tf c rows b n dt f).lines.data = ohlcv f.lines.data ++
      (Runs.collect (rowBucket tf c) Bucket.ofRow Bucket.accumulate rows n b).map Prod.snd := by
  induction rows generalizing b n dt f with
  | nil => simp [loop, ohlcv, Runs.collect]
  | cons r rest ih =>
    by_cases hr : rowBucket tf c r = n
    · have hl : loop tf c (r :: rest) b n dt f = loop tf c rest (b.accumulate r) n r.datetime f := by
        simp only [loop, show getBucket r.datetime tf c = n from hr, ne_eq, not_true_eq_false, if_false]
      rw [hl, ih, Runs.collect_same hr]
    · obtain ⟨ts, hl⟩ : ∃ ts, loop tf c (r :: rest) b n dt f =
          loop tf c rest (.ofRow r) (rowBucket tf c r) r.datetime (f.pushRow (b.toRow ts)) :=
        ⟨_, by simp only [loop]; exact if_pos hr⟩
      rw [hl, ih, Runs.collect_change hr]
      simp [ohlcv]

theorem DataReplay.ohlcv_loop (tf : TimeFrame) (c : Int) (rows : List (Row α)) (b : Bucket α) (n : Int)
    (f : DataFeed α) :
    ohlcv (loop tf c rows b n f).lines.data = ohlcv f.lines.data ++
      Runs.partials (rowBucket tf c) Bucket.ofRow Bucket.accumulate rows n b := by
  induction rows generalizing b n f with
  | nil => simp [loop, Runs.partials]
  | cons r rest ih =>
    rw [loop, ih, Runs.partials, ohlcv, ohlcv, DataFeed.data_pushRow, List.map_append, List.append_assoc]
    rfl

omit [Arith α] in
/-- `is_period_end` marks the ends of the runs of equal bucket. -/
theorem DataReplay.ends_eq (tf : TimeFrame) (c : Int) (source : DataFeed α) :
    Runs.ends (rowBucket tf c) source.lines.data =
      (List.range source.lines.data.length).map (isPeriodEnd source tf c) := by
  refine List.ext_getElem (by simp) fun i hi _ => ?_
  rw [Runs.length_ends] at hi
  have hr := List.getElem?_eq_getElem hi
  have hget : (Runs.ends (rowBucket tf c) source.lines.data)[i]? = _ := Runs.ends_get? _ hr
  rw [List.getElem?_eq_getElem (by simpa using hi), Option.some_inj] at hget
  rw [hget, List.getElem_map, List.getElem_range, isPeriodEnd, hr]
  cases source.lines.data[i + 1]? with
  | none => rfl
  | some next => exact decide_not

/-- The bars one pass over the base makes when it numbers the buckets by `getBucket`. -/
def numberedBars (tf : TimeFrame) (c : Int) : List (Row α) → List (Bucket α)
  | [] => []
  | r :: rest => (Runs.collect (rowBucket tf c) Bucket.ofRow Bucket.accumulate rest (rowBucket tf c r)
      (.ofRow r)).map Prod.snd

theorem Resampler.ohlcv_preload (base : DataFeed ℚ) (tf : TimeFrame) (c : Int) :
    ohlcv (preload base tf c {}).lines.data = numberedBars tf c base.lines.data := by
  cases hb : base.lines.data with
  | nil => simp [preload, hb, ohlcv, numberedBars]
  | cons r rest =>
    simp only [preload, hb, DataFeed.data_home, ohlcv_loop, firstBucket_rat]
    rfl

theorem DataReplay.ohlcv_completed (base : DataFeed ℚ) (tf : TimeFrame) (c : Int) :
    ohlcv (completed base (preload base tf c {}) tf c) = numberedBars tf c base.lines.data := by
  cases hb : base.lines.data with
  | nil => simp [completed, preload, hb, ohlcv, numberedBars]
  | cons r rest =>
    have hrows : ohlcv (preload base tf c {}).lines.data = Bucket.ofRow r ::
        Runs.partials (rowBucket tf c) Bucket.ofRow Bucket.accumulate rest (rowBucket tf c r) (.ofRow r) := by
      simp only [preload, hb, DataFeed.data_home, ohlcv_loop, Resampler.firstBucket_rat]
      rfl
    have hlen : (preload base tf c {}).lines.data.length = base.lines.data.length := by
      have := congrArg List.length hrows
      simpa [ohlcv, hb] using this
    have hends := ends_eq tf c base
    rw [← hlen] at hends
    rw [completed, ohlcv, Runs.filter_zipIdx _ hends, Runs.map_filter_zip, ← ohlcv, hrows, hb,
      Runs.partials_ends]
    rfl

/-! ### The two numberings -/

/-- The vocabulary: divisors of a day in minutes, then a day, a week and a month. -/
theorem parseInterval_cases {tok : String} {tfc : TimeFrameCompression} (h : parseInterval tok = some tfc) :
    (∃ c, tfc = ⟨.Minutes, c⟩ ∧ 0 < c ∧ c ∣ 1440) ∨ tfc = ⟨.Days, 1⟩ ∨ tfc = ⟨.Weeks, 1⟩ ∨
      tfc = ⟨.Months, 1⟩ := by
  obtain ⟨e, he, rfl⟩ := Option.map_eq_some_iff.1 h
  have hall : ∀ e ∈ intervalVocabulary, (e.2.timeframe = .Minutes ∧ 0 < e.2.compression ∧
      e.2.compression ∣ 1440) ∨ e.2 = ⟨.Days, 1⟩ ∨ e.2 = ⟨.Weeks, 1⟩ ∨ e.2 = ⟨.Months, 1⟩ := by decide
  rcases hall e (List.mem_of_find?_eq_some he) with ⟨hf, hc⟩ | h
  · exact .inl ⟨e.2.compression, by rw [← hf], hc⟩
  · exact .inr h

/-- Two numbers with digits `q` below `k` are equal when their digits are. -/
theorem mul_add_inj {k a b q r : Int} (hq : 0 ≤ q ∧ q < k) (hr : 0 ≤ r ∧ r < k) :
    a * k + q = b * k + r ↔ a = b ∧ q = r := by
  constructor
  · intro h
    have hk : k ≠ 0 := by omega
    have ha : (a * k + q) / k = a := by
      rw [add_comm, Int.add_mul_ediv_right _ _ hk, Int.ediv_eq_zero_of_lt hq.1 hq.2, zero_add]
    have hb : (b * k + r) / k = b := by
      rw [add_comm, Int.add_mul_ediv_right _ _ hk, Int.ediv_eq_zero_of_lt hr.1 hr.2, zero_add]
    have hab : a = b := by rw [← ha, ← hb, h]
    subst hab
    exact ⟨rfl, by omega⟩
  · rintro ⟨rfl, rfl⟩
    rfl

/-- Minutes of the day, in minutes since the epoch. -/
theorem minutesOfDay (t : Int) :
    (t - t / nsPerDay * nsPerDay) / (60 * nsPerSecond) = t / (60 * nsPerSecond) % 1440 := by
  have hd : nsPerDay = 86400000000000 := rfl
  have hm : 60 * nsPerSecond = 60000000000 := rfl
  rw [hd, hm]
  omega

theorem getBucket_minutes (c : Int) (t : DateTime) :
    getBucket t .Minutes c = t / (60 * nsPerSecond) / 1440 * 10000 + t / (60 * nsPerSecond) % 1440 / c := by
  have hday : t / nsPerDay = t / (60 * nsPerSecond) / 1440 := by
    rw [Int.ediv_ediv_of_nonneg (by decide)]
    rfl
  have hnn : 0 ≤ t / (60 * nsPerSecond) % 1440 := Int.emod_nonneg _ (by decide)
  simp only [getBucket, minutesOfDay]
  rw [hday, Int.tdiv_eq_ediv_of_nonneg hnn]

theorem cell_minutes {c : Int} (hc : 0 < c) (t : DateTime) :
    (TimeFrameCompression.grid ⟨.Minutes, c⟩).cell t = t / (60 * nsPerSecond) / c := by
  have hgrid : TimeFrameCompression.grid ⟨.Minutes, c⟩ =
      spanGrid (TimeFrameCompression.spanSeconds ⟨.Minutes, c⟩ * nsPerSecond) 0
        (mul_pos (TimeFrameCompression.spanSeconds_pos hc) (by decide)) := by
    simp [TimeFrameCompression.grid, hc]
  rw [hgrid, Int.ediv_ediv_of_nonneg (by decide)]
  show (t - 0) / (c * 60 * nsPerSecond) = _
  rw [sub_zero, mul_assoc, mul_comm c]

/-- A quotient by `c` is the quotient by a multiple of it and the quotient of the remainder. -/
theorem ediv_split {c k : Int} (hc : 0 < c) (m : Int) :
    m / c = m / (k * c) * k + m % (k * c) / c := by
  have h : m % (k * c) + m / (k * c) * k * c = m := by
    rw [mul_assoc, mul_comm (m / (k * c))]
    exact Int.emod_add_mul_ediv m (k * c)
  have hdiv := Int.add_mul_ediv_right (m % (k * c)) (m / (k * c) * k) (Int.ne_of_gt hc)
  rw [h] at hdiv
  rw [hdiv, add_comm]

theorem getBucket_minutes_iff {c : Int} (hc : 0 < c) (hd : c ∣ 1440) (s t : DateTime) :
    getBucket s .Minutes c = getBucket t .Minutes c ↔
      (TimeFrameCompression.grid ⟨.Minutes, c⟩).cell s = (TimeFrameCompression.grid ⟨.Minutes, c⟩).cell t := by
  obtain ⟨k, hk⟩ := hd
  rw [mul_comm] at hk
  have hdigit : ∀ m : Int, 0 ≤ m % 1440 / c ∧ m % 1440 / c < k := fun m =>
    ⟨Int.ediv_nonneg (Int.emod_nonneg _ (by decide)) hc.le,
      Int.ediv_lt_of_lt_mul hc (by rw [← hk]; exact Int.emod_lt_of_pos _ (by decide))⟩
  have hk' : k ≤ 1440 := by
    rw [hk]
    nlinarith
  rw [getBucket_minutes, getBucket_minutes, cell_minutes hc, cell_minutes hc,
    @ediv_split c k hc (s / _), @ediv_split c k hc (t / _), ← hk]
  have hs := hdigit (s / (60 * nsPerSecond))
  have ht := hdigit (t / (60 * nsPerSecond))
  rw [mul_add_inj hs ht, mul_add_inj ⟨hs.1, by omega⟩ ⟨ht.1, by omega⟩]

theorem cell_days (t : DateTime) : (TimeFrameCompression.grid ⟨.Days, 1⟩).cell t = t / nsPerDay := by
  show (t - 0) / (1 * secondsPerDay * nsPerSecond) = _
  rw [sub_zero, one_mul]
  rfl

/-- Days since Monday, 29 December 1969. -/
def daysSinceMonday (t : DateTime) : Int := t / nsPerDay + 3

theorem cell_weeks (t : DateTime) : weekGrid.cell t = daysSinceMonday t / 7 := by
  show (t - -3 * nsPerDay) / (7 * nsPerDay) = _
  rw [mul_comm 7, ← Int.ediv_ediv_of_nonneg nsPerDay_pos.le, neg_mul, sub_neg_eq_add,
    Int.add_mul_ediv_right _ _ (Int.ne_of_gt nsPerDay_pos)]
  rfl

/-- Before 29 December 1969 `get_bucket` counts a week from Tuesday to the Monday after, and the week
before that date it counts to the one that follows. -/
def WeekClash (s t : DateTime) : Prop :=
  (daysSinceMonday s < 0 ∧ daysSinceMonday s / 7 = daysSinceMonday t / 7 ∧
    daysSinceMonday s % 7 = 0 ∧ daysSinceMonday t % 7 ≠ 0) ∨
  (daysSinceMonday t < 0 ∧ daysSinceMonday t = (daysSinceMonday s / 7 + 1) * 7 ∧
    daysSinceMonday s % 7 ≠ 0) ∨
  (-7 < daysSinceMonday s ∧ daysSinceMonday s < 0 ∧ 0 ≤ daysSinceMonday t ∧ daysSinceMonday t < 7)

instance (s t : DateTime) : Decidable (WeekClash s t) := inferInstanceAs (Decidable (_ ∨ _ ∨ _))

theorem tdiv_week_iff {d e : Int} (h : d ≤ e) :
    (d.tdiv 7 = e.tdiv 7 ↔ d / 7 = e / 7) ↔
      ¬ ((d < 0 ∧ d / 7 = e / 7 ∧ d % 7 = 0 ∧ e % 7 ≠ 0) ∨ (e < 0 ∧ e = (d / 7 + 1) * 7 ∧ d % 7 ≠ 0) ∨
        (-7 < d ∧ d < 0 ∧ 0 ≤ e ∧ e < 7)) := by
  have htdiv : ∀ x : Int, (0 ≤ x ∧ x.tdiv 7 = x / 7) ∨ (x < 0 ∧ x.tdiv 7 = -(-x / 7)) := by
    intro x
    rcases lt_or_ge x 0 with hx | hx
    · refine .inr ⟨hx, ?_⟩
      rw [← Int.tdiv_eq_ediv_of_nonneg (by omega), Int.neg_tdiv, neg_neg]
    · exact .inl ⟨hx, Int.tdiv_eq_ediv_of_nonneg hx⟩
  rcases htdiv d with ⟨hd, hdd⟩ | ⟨hd, hdd⟩ <;> rcases htdiv e with ⟨he, hee⟩ | ⟨he, hee⟩ <;>
    rw [hdd, hee] <;> constructor <;> intro hx <;> omega

/-- When the numbering and the calendar agree on whether two bars share a bucket. -/
theorem getBucket_iff {tok : String} {tfc : TimeFrameCompression} (h : parseInterval tok = some tfc)
    {s t : DateTime} (hst : s ≤ t) :
    (getBucket s tfc.timeframe tfc.compression = getBucket t tfc.timeframe tfc.compression ↔
      periodStart s tfc = periodStart t tfc) ↔ (tfc.timeframe = .Weeks → ¬ WeekClash s t) := by
  have hs := supported_of_mem_vocabulary h
  have hcell : periodStart s tfc = periodStart t tfc ↔ tfc.grid.cell s = tfc.grid.cell t := by
    rw [periodStart_eq hs, periodStart_eq hs, Except.ok.injEq, Grid.start_eq_start_iff]
  rw [hcell]
  rcases parseInterval_cases h with ⟨c, rfl, hc, hd⟩ | rfl | rfl | rfl
  · simp [getBucket_minutes_iff hc hd]
  · simp [cell_days, getBucket]
  · have hle : daysSinceMonday s ≤ daysSinceMonday t :=
      Int.add_le_add_right (Int.ediv_le_ediv nsPerDay_pos hst) 3
    simp only [forall_const]
    show (_ ↔ weekGrid.cell s = weekGrid.cell t) ↔ _
    rw [cell_weeks, cell_weeks]
    exact tdiv_week_iff hle
  · have hm : (TimeFrameCompression.grid ⟨.Months, 1⟩) = monthGrid := by simp [TimeFrameCompression.grid]
    simp [hm, getBucket, monthGrid]

/-! ### Agreement -/

theorem numberedBars_eq (tfc : TimeFrameCompression) (rows : List (Row α))
    (h : rows.Pairwise fun r r' => rowBucket tfc.timeframe tfc.compression r =
      rowBucket tfc.timeframe tfc.compression r' ↔
        ResampledFeed.bucketStart tfc r = ResampledFeed.bucketStart tfc r') :
    numberedBars tfc.timeframe tfc.compression rows = ohlcv (ResampledFeed.bars tfc rows) := by
  cases rows with
  | nil => rfl
  | cons r rest =>
    rw [numberedBars, Runs.collect_congr rest r _ h, ohlcv, ResampledFeed.bars, List.map_map]
    rfl

/-- The three agree unless the bars are grouped by weeks and two of them clash. -/
theorem resamplers_agree_iff (base : DataFeed ℚ) (tok : String) (tfc : TimeFrameCompression)
    (h : parseInterval tok = some tfc) (hb : base.timestamps.Pairwise (· ≤ ·)) :
    ResamplersAgree base tfc ↔
      (tfc.timeframe = .Weeks → base.timestamps.Pairwise fun s t => ¬ WeekClash s t) := by
  have hs := supported_of_mem_vocabulary h
  constructor
  · intro ha hw
    exact hb.imp_of_mem fun hm hm' hle => (getBucket_iff h hle).1 (ha.buckets _ hm _ hm') hw
  · intro hc
    have hpair : base.timestamps.Pairwise fun s t =>
        getBucket s tfc.timeframe tfc.compression = getBucket t tfc.timeframe tfc.compression ↔
          periodStart s tfc = periodStart t tfc := by
      by_cases hw : tfc.timeframe = .Weeks
      · exact (hb.and (hc hw)).imp fun hle => (getBucket_iff h hle.1).2 fun _ => hle.2
      · exact hb.imp fun hle => (getBucket_iff h hle).2 fun e => absurd e hw
    refine ⟨?_, fun s hms t hmt => ?_⟩
    · obtain ⟨f, hp, hd, -⟩ := ResampledFeed.preload_eq hs base {}
      have hrows : numberedBars tfc.timeframe tfc.compression base.lines.data = ohlcv f.lines.data := by
        rw [show f.lines.data = ResampledFeed.bars tfc base.lines.data from hd]
        refine numberedBars_eq tfc _ ((List.pairwise_map.1 hpair).imp fun {r r'} hrr => ?_)
        rw [periodStart_eq hs, periodStart_eq hs, Except.ok.injEq] at hrr
        exact hrr
      exact ⟨f, hp, by rw [Resampler.ohlcv_preload, hrows], by rw [DataReplay.ohlcv_completed, hrows]⟩
    · refine hpair.forall_of_forall_of_flip (fun _ _ => by simp) (hpair.imp fun hxy => ?_) hms hmt
      exact ⟨fun e => (hxy.1 e.symm).symm, fun e => (hxy.2 e.symm).symm⟩

/-- A Thursday, a Friday and the Monday after, in 1970. -/
def newYear : DataFeed ℚ :=
  { lines := { data := [⟨0, 1, 3, 1, 2, 10, 0⟩, ⟨nsPerDay, 2, 5, 2, 4, 20, 0⟩,
      ⟨4 * nsPerDay, 7, 8, 6, 7, 1, 0⟩] } }

theorem resamplers_agree_iff_newYear : ResamplersAgree newYear ⟨.Weeks, 1⟩ ↔
    ((⟨.Weeks, 1⟩ : TimeFrameCompression).timeframe = .Weeks →
      newYear.timestamps.Pairwise fun s t => ¬ WeekClash s t) :=
  resamplers_agree_iff newYear "1w" ⟨.Weeks, 1⟩ (by decide) (by decide)

/-- Monday and Tuesday of the last full week before 1970. -/
def christmas : DataFeed ℚ :=
  { lines := { data := [⟨-10 * nsPerDay, 1, 3, 1, 2, 10, 0⟩, ⟨-9 * nsPerDay, 2, 5, 2, 4, 20, 0⟩] } }

/-- One weekly bar or two. -/
theorem resamplers_disagree_christmas : parseInterval "1w" = some ⟨.Weeks, 1⟩ ∧
    christmas.timestamps.Pairwise (· ≤ ·) ∧
    (∃ f, ResampledFeed.preload christmas ⟨.Weeks, 1⟩ {} = .ok f ∧ f.lines.data.length = 1) ∧
    (Resampler.preload christmas .Weeks 1 {}).lines.data.length = 2 ∧
    (DataReplay.completed christmas (DataReplay.preload christmas .Weeks 1 {}) .Weeks 1).length = 2 ∧
    ¬ ResamplersAgree christmas ⟨.Weeks, 1⟩ := by
  refine ⟨by decide, by decide, ⟨_, rfl, rfl⟩, rfl, rfl, ?_⟩
  rintro ⟨⟨f, hf, hbars, -⟩, -⟩
  cases hf
  exact absurd (congrArg List.length hbars) (by decide)

end StratForge
