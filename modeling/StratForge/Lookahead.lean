import StratForge.Plan

/-!
# What a resampled bar has seen

A bar of a base feed closes at the end of its period in the base's timeframe, the bar it is aggregated
into at the end of its own. The one comes first when the cells of the base's grid nest in those of the
target's (`Nests`); validation compares every interval with that of feed 0 only, so a plan may resample
from a base that does not.
-/

namespace StratForge

/-- The target is not finer than the base, and it is not the months from weeks. -/
def Nests (base target : TimeFrameCompression) : Prop :=
  finerThan target base = false ∧ ¬ (base = ⟨.Weeks, 1⟩ ∧ target = ⟨.Months, 1⟩)

instance (base target : TimeFrameCompression) : Decidable (Nests base target) :=
  inferInstanceAs (Decidable (_ ∧ _))

/-! ### Periods that nest -/

theorem spanGrid_refines {width : Int} (hw : 0 < width) {g : Grid Int} (h : ∀ i, width ∣ g.boundary i) :
    (spanGrid width 0 hw).Refines g := by
  intro i
  obtain ⟨j, hj⟩ := h i
  refine ⟨j, ?_⟩
  show g.boundary i = j * width + 0
  rw [hj, add_zero, mul_comm]

/-- Minutes and days. -/
def TimeFrameCompression.Fixed (tfc : TimeFrameCompression) : Prop :=
  tfc.timeframe = .Minutes ∨ tfc.timeframe = .Days

instance (tfc : TimeFrameCompression) : Decidable tfc.Fixed := inferInstanceAs (Decidable (_ ∨ _))

theorem vocabulary_fixed : ∀ e ∈ intervalVocabulary, e.2.Fixed → e.2.spanSeconds ∣ secondsPerDay ∧
    0 < e.2.compression ∧ ∀ e' ∈ intervalVocabulary, e'.2.Fixed → finerThan e'.2 e.2 = false →
      e.2.spanSeconds ∣ e'.2.spanSeconds := by decide

theorem vocabulary_calendar : ∀ e ∈ intervalVocabulary, ¬ e.2.Fixed →
    e.2 = ⟨.Weeks, 1⟩ ∨ e.2 = ⟨.Months, 1⟩ := by decide

theorem parseInterval_mem {tok : String} {tfc : TimeFrameCompression} (h : parseInterval tok = some tfc) :
    ∃ e ∈ intervalVocabulary, e.2 = tfc := by
  obtain ⟨e, he, rfl⟩ := Option.map_eq_some_iff.1 h
  exact ⟨e, List.mem_of_find?_eq_some he, rfl⟩

theorem dvd_weekGrid {width : Int} (h : width ∣ nsPerDay) (i : Int) : width ∣ weekGrid.boundary i := by
  show width ∣ i * (7 * nsPerDay) + -3 * nsPerDay
  exact Int.dvd_add (Dvd.dvd.mul_left (Dvd.dvd.mul_left h 7) i) (Dvd.dvd.mul_left h (-3))

theorem dvd_monthGrid {width : Int} (h : width ∣ nsPerDay) (i : Int) : width ∣ monthGrid.boundary i :=
  Dvd.dvd.mul_left h _

theorem refines_of_nests {b t : String} {base target : TimeFrameCompression} (hb : parseInterval b = some base)
    (ht : parseInterval t = some target) (h : Nests base target) : base.grid.Refines target.grid := by
  obtain ⟨e, he, rfl⟩ := parseInterval_mem hb
  obtain ⟨e', he', rfl⟩ := parseInterval_mem ht
  by_cases hf : e.2.Fixed
  · obtain ⟨hday, hc, hspan⟩ := vocabulary_fixed e he hf
    rw [TimeFrameCompression.grid_fixed hf hc]
    have hns : e.2.spanSeconds * nsPerSecond ∣ nsPerDay := mul_dvd_mul_right hday _
    by_cases hf' : e'.2.Fixed
    · obtain ⟨-, hc', -⟩ := vocabulary_fixed e' he' hf'
      rw [TimeFrameCompression.grid_fixed hf' hc']
      refine spanGrid_refines _ fun i => ?_
      show _ ∣ i * (e'.2.spanSeconds * nsPerSecond) + 0
      rw [add_zero]
      exact Dvd.dvd.mul_left (mul_dvd_mul_right (hspan e' he' hf' h.1) _) i
    · rcases vocabulary_calendar e' he' hf' with hw | hm
      · rw [hw]
        exact spanGrid_refines _ fun i => dvd_weekGrid hns i
      · rw [hm]
        exact spanGrid_refines _ fun i => dvd_monthGrid hns i
  · have hnf : ∀ x ∈ intervalVocabulary, ∀ y ∈ intervalVocabulary, ¬ x.2.Fixed → Nests x.2 y.2 → x.2 = y.2 := by
      decide
    rw [hnf e he e' he' hf h]
    exact Grid.Refines.refl _

/-! ### Loaded feeds -/

variable {α : Type} [Arith α]

/-- Every base bar that a resampled feed has aggregated into a bar has closed by the end of that bar. -/
def NoLookahead (loaded : List (LoadedFeed α)) : Prop :=
  ∀ (k j : Nat) (f base : LoadedFeed α) (target : TimeFrameCompression), loaded[k]? = some f →
    f.base = some (j, target) → loaded[j]? = some base →
    ∀ r ∈ base.feed.lines.data, ∀ bar ∈ f.feed.lines.data, periodStart r.datetime target = .ok bar.datetime →
      ∃ closes ends', periodEnd r.datetime base.feed.timeframe = .ok closes ∧
        periodEnd bar.datetime target = .ok ends' ∧ closes ≤ ends'

variable {rows : String → List (Row α)} {specs : List FeedSpec} {spec : FeedSpec}
  {loaded : List (LoadedFeed α)} {f base : LoadedFeed α} {k j : Nat} {target : TimeFrameCompression}

/-- A resampled feed, its spec, its base and the bars it was given. -/
theorem loaded_resampled (h : loadFeeds rows specs = .ok loaded) (hk : loaded[k]? = some f)
    (hb : f.base = some (j, target)) :
    ∃ spec base, specs[k]? = some spec ∧ spec.source = "resample" ∧ j < k ∧ loaded[j]? = some base ∧
      base.interval = some spec.base ∧ parseInterval spec.interval = some target ∧
      f.feed.lines.data = ResampledFeed.bars target base.feed.lines.data := by
  obtain ⟨spec, hspec, hfrom⟩ := loadFeeds_getSpec h hk
  unfold LoadedFrom at hfrom
  split at hfrom
  · rename_i hs
    obtain ⟨j', base, target', self, -, hget, hi, ht, hp, rfl⟩ := hfrom
    cases hb
    have hjk : j < k := lt_of_lt_of_le (List.getElem?_eq_some_iff.1 hget).1 (by simp)
    rw [List.getElem?_take_of_lt hjk] at hget
    refine ⟨spec, base, hspec, hs, hjk, hget, hi, ht, ?_⟩
    simpa using (ResampledFeed.preload_ok hp).1
  · obtain ⟨feed, -, rfl⟩ := hfrom
    cases hb

/-- Nested plans do not look ahead, whatever the files hold. -/
theorem noLookahead_of_nests (h : loadFeeds rows specs = .ok loaded)
    (hn : ∀ s ∈ specs, s.source = "resample" → ∀ b t, parseInterval s.base = some b →
      parseInterval s.interval = some t → Nests b t)
    (hb : ∀ s ∈ specs, s.source = "resample" → ∃ b, parseInterval s.base = some b) : NoLookahead loaded := by
  intro k j f base target hk hbase hj r hr bar hbar hts
  obtain ⟨spec, base', hspec, hs, -, hj', hi, ht, -⟩ := loaded_resampled h hk hbase
  rw [hj] at hj'
  cases hj'
  have hmem := List.mem_of_getElem? hspec
  obtain ⟨b, hpb⟩ := hb spec hmem hs
  obtain ⟨_, -, hfrom⟩ := loadFeeds_getSpec h hj
  have htf : base.feed.timeframe = b := (hfrom.timeframe hi hpb).2
  have hsb := supported_of_mem_vocabulary hpb
  have hst := supported_of_mem_vocabulary ht
  rw [periodStart_eq hst] at hts
  refine ⟨_, _, by rw [htf]; exact periodEnd_eq hsb _, periodEnd_eq hst _, ?_⟩
  rw [← Except.ok.inj hts, Grid.stop_start]
  exact (refines_of_nests hpb ht (hn spec hmem hs b target hpb ht)).stop_le _

/-! ### A plan that does not nest looks ahead on some data -/

/-- The file of one bar. -/
def oneBarAt (x : DateTime) : String → List (Row α) := fun _ => [⟨x, 1, 1, 1, 1, 1, 0⟩]

/-- If bases are on a boundary where their targets are, a plan over one bar there has one bar there. -/
theorem dates_oneBarAt {x : DateTime} (h : loadFeeds (oneBarAt x : String → List (Row α)) specs = .ok loaded)
    (hb : ∀ s ∈ specs, s.source = "resample" → ∃ b, parseInterval s.base = some b ∧
      ∀ t, parseInterval s.interval = some t → t.grid.start x = x → b.grid.start x = x) :
    ∀ (k : Nat) (f : LoadedFeed α) (tok : String) (tfc : TimeFrameCompression), loaded[k]? = some f →
      f.interval = some tok → parseInterval tok = some tfc → tfc.grid.start x = x →
      ∃ r, f.feed.lines.data = [r] ∧ r.datetime = x := by
  intro k
  induction k using Nat.strong_induction_on with
  | _ k ih =>
    intro f tok tfc hk hi ht hx
    obtain ⟨spec, hspec, hfrom⟩ := loadFeeds_getSpec h hk
    obtain ⟨htok, -⟩ := hfrom.timeframe hi ht
    cases hbase : f.base with
    | some p =>
      obtain ⟨j, target⟩ := p
      obtain ⟨spec', base, hspec', hs, hjk, hj, hbi, htt, hd⟩ := loaded_resampled h hk hbase
      rw [hspec] at hspec'
      cases hspec'
      rw [htok, ht] at htt
      cases htt
      obtain ⟨b, hpb, hbx⟩ := hb spec (List.mem_of_getElem? hspec) hs
      obtain ⟨r, hr, hrx⟩ := ih j hjk base spec.base b hj hbi hpb (hbx tfc (by rw [htok, ht]) hx)
      refine ⟨(Bucket.ofRow r).toRow (ResampledFeed.bucketStart tfc r), by rw [hd, hr]; rfl, ?_⟩
      show tfc.grid.start r.datetime = x
      rw [hrx, hx]
    | none =>
      unfold LoadedFrom at hfrom
      split at hfrom
      · obtain ⟨_, _, _, _, -, -, -, -, -, rfl⟩ := hfrom
        cases hbase
      · obtain ⟨feed, hl, rfl⟩ := hfrom
        exact ⟨_, (loadNativeFeed_ok hl).1, rfl⟩

/-- There a base whose period outlasts its target's looks ahead. -/
theorem not_noLookahead_oneBarAt {x : DateTime}
    (h : loadFeeds (oneBarAt x : String → List (Row α)) specs = .ok loaded)
    (hb : ∀ s ∈ specs, s.source = "resample" → ∃ b, parseInterval s.base = some b ∧
      ∀ t, parseInterval s.interval = some t → t.grid.start x = x → b.grid.start x = x)
    (hspec : spec ∈ specs) (hs : spec.source = "resample") {b t : TimeFrameCompression}
    (hpb : parseInterval spec.base = some b) (hpt : parseInterval spec.interval = some t)
    (hx : b.grid.start x = x) (hlate : t.grid.stop x < b.grid.stop x) : ¬ NoLookahead loaded := by
  intro hno
  obtain ⟨k, hk, hkspec⟩ := List.getElem_of_mem hspec
  obtain ⟨f, hf, hfrom⟩ := (loadFeeds_get h).2 k spec (List.getElem?_eq_some_iff.2 ⟨hk, hkspec⟩)
  rw [LoadedFrom, if_pos hs] at hfrom
  obtain ⟨j, base, target, self, -, hget, hi, ht, -, rfl⟩ := hfrom
  obtain ⟨_, base', hspec', -, hjk, hj, hbi, -, hd⟩ := loaded_resampled h hf rfl
  rw [List.getElem?_take_of_lt hjk, hj] at hget
  cases hget
  rw [hpt] at ht
  cases ht
  obtain ⟨r, hr, hrx⟩ := dates_oneBarAt h hb j base spec.base b hj hi hpb hx
  obtain ⟨_, -, hbfrom⟩ := loadFeeds_getSpec h hj
  have hst := supported_of_mem_vocabulary hpt
  rw [hr] at hd
  have hbar : (Bucket.ofRow r).toRow (ResampledFeed.bucketStart t r) ∈ self.lines.data := by
    rw [show self.lines.data = _ from hd]
    exact List.mem_singleton.2 rfl
  obtain ⟨closes, ends', hc, he, hle⟩ := hno k j _ base t hf rfl hj r (by rw [hr]; simp) _ hbar
    (periodStart_eq hst _)
  rw [(hbfrom.timeframe hi hpb).2, periodEnd_eq (supported_of_mem_vocabulary hpb), hrx] at hc
  have he' : periodEnd (t.grid.start r.datetime) t = .ok ends' := he
  rw [periodEnd_eq hst, hrx, Grid.stop_start] at he'
  cases hc
  cases he'
  exact absurd hle (not_le.2 hlate)

/-! ### The plans that nest -/

/-- Monday, 1 June 1970, on a boundary of every timeframe. -/
def firstOfJune : DateTime := 151 * nsPerDay

/-- Monday, 26 January 1970, on a boundary of every timeframe but the months. -/
def lastMonday : DateTime := 25 * nsPerDay

theorem firstOfJune_start : ∀ e ∈ intervalVocabulary, e.2.grid.start firstOfJune = firstOfJune := by
  decide +kernel

theorem firstOfJune_stop : ∀ e ∈ intervalVocabulary, ∀ e' ∈ intervalVocabulary, finerThan e'.2 e.2 = true →
    e'.2.grid.stop firstOfJune < e.2.grid.stop firstOfJune := by decide +kernel

theorem lastMonday_start : ∀ e ∈ intervalVocabulary, e.2.grid.start lastMonday = lastMonday ↔
    e.2 ≠ ⟨.Months, 1⟩ := by decide +kernel

theorem lastMonday_stop : (TimeFrameCompression.grid ⟨.Months, 1⟩).stop lastMonday <
    (TimeFrameCompression.grid ⟨.Weeks, 1⟩).stop lastMonday := by decide +kernel

theorem not_months_of_coarser : ∀ e ∈ intervalVocabulary, ∀ e' ∈ intervalVocabulary,
    finerThan e'.2 e.2 = false → e'.2 ≠ ⟨.Months, 1⟩ → e.2 ≠ ⟨.Months, 1⟩ := by decide

/-- An accepted plan never looks ahead, whatever its files hold, exactly when every resampled feed of it
nests: its interval is not finer than its base and it does not make months of weeks. -/
theorem no_lookahead_iff_nests (fileExists : String → Bool) (feeds sorted : List FeedSpec)
    (hv : validateFeedPlan fileExists feeds = none) (ho : LoadOrder feeds sorted)
    (hacc : ∃ (rows : String → List (Row α)) (loaded : List (LoadedFeed α)),
      loadFeeds rows sorted = .ok loaded) :
    (∀ (rows : String → List (Row α)) (loaded : List (LoadedFeed α)), loadFeeds rows sorted = .ok loaded →
      NoLookahead loaded) ↔
    ∀ s ∈ feeds, s.source = "resample" → ∀ b t, parseInterval s.base = some b →
      parseInterval s.interval = some t → Nests b t := by
  obtain ⟨exec, rest, rfl, hval⟩ := validated_of_none hv
  have hmem : ∀ s, s ∈ sorted ↔ s ∈ exec :: rest := fun s => ho.perm.mem_iff
  have hbase : ∀ s ∈ sorted, s.source = "resample" → ∃ b, parseInterval s.base = some b := by
    intro s hs hsrc
    cases hval.source s ((hmem s).1 hs) with
    | parquet hp => exact absurd (hsrc.symm.trans hp) (by decide)
    | resample _ hb => exact ⟨_, hb⟩
  constructor
  · intro hno s hs hsrc b t hb ht
    obtain ⟨e, he, rfl⟩ := parseInterval_mem hb
    obtain ⟨e', he', rfl⟩ := parseInterval_mem ht
    obtain ⟨rows, loaded, hload⟩ := hacc
    have hone : ∀ x, ∃ l, loadFeeds (oneBarAt x : String → List (Row α)) sorted = .ok l := fun x =>
      ok_of_loadable (fun _ _ _ => by simp [oneBarAt]) (loadable_of_ok hload)
    -- a target finer than its base anywhere in the plan is late on the first of June
    have hfiner : ∀ s ∈ sorted, s.source = "resample" → ∀ b t, parseInterval s.base = some b →
        parseInterval s.interval = some t → finerThan t b = false := by
      intro s hs hsrc b t hb ht
      by_contra hf
      obtain ⟨e, he, rfl⟩ := parseInterval_mem hb
      obtain ⟨e', he', rfl⟩ := parseInterval_mem ht
      obtain ⟨l, hl⟩ := hone firstOfJune
      refine not_noLookahead_oneBarAt hl (fun s hs hsrc => ?_) hs hsrc hb ht (firstOfJune_start e he)
        (firstOfJune_stop e he e' he' (by simpa using hf)) (hno _ l hl)
      obtain ⟨b, hb⟩ := hbase s hs hsrc
      obtain ⟨e, he, rfl⟩ := parseInterval_mem hb
      exact ⟨e.2, hb, fun _ _ _ => firstOfJune_start e he⟩
    refine ⟨hfiner s ((hmem s).2 hs) hsrc _ _ hb ht, ?_⟩
    rintro ⟨hw, hm⟩
    obtain ⟨l, hl⟩ := hone lastMonday
    refine not_noLookahead_oneBarAt hl (fun s hs hsrc => ?_) ((hmem s).2 hs) hsrc hb ht
      ((lastMonday_start e he).2 (by rw [hw]; decide)) (by rw [hw, hm]; exact lastMonday_stop) (hno _ l hl)
    obtain ⟨b, hb⟩ := hbase s hs hsrc
    refine ⟨b, hb, fun t ht htx => ?_⟩
    have hf := hfiner s hs hsrc b t hb ht
    obtain ⟨x, hx, rfl⟩ := parseInterval_mem hb
    obtain ⟨y, hy, rfl⟩ := parseInterval_mem ht
    exact (lastMonday_start x hx).2 (not_months_of_coarser x hx y hy hf ((lastMonday_start y hy).1 htx))
  · intro hn rows loaded hload
    exact noLookahead_of_nests hload (fun s hs => hn s ((hmem s).1 hs)) hbase

/-! A minute plan with a daily context and hours made of days, and one with hours made of minutes. -/

def hoursOfDays : List FeedSpec :=
  [{ index := 0, interval := "1m", role := "execution", source := "parquet", dataPath := "m.csv" },
   { index := 1, interval := "1d", role := "context", source := "parquet", dataPath := "d.csv" },
   { index := 2, interval := "1h", role := "context", source := "resample", base := "1d" }]

def hoursOfMinutes : List FeedSpec :=
  [{ index := 0, interval := "1m", role := "execution", source := "parquet", dataPath := "m.csv" },
   { index := 1, interval := "1h", role := "context", source := "resample", base := "1m" }]

theorem no_lookahead_iff_nests_hours :
    (∀ (rows : String → List (Row ℚ)) loaded, loadFeeds rows hoursOfMinutes = .ok loaded →
      NoLookahead loaded) ↔
    ∀ s ∈ hoursOfMinutes, s.source = "resample" → ∀ b t, parseInterval s.base = some b →
      parseInterval s.interval = some t → Nests b t :=
  no_lookahead_iff_nests (fun _ => true) hoursOfMinutes hoursOfMinutes (by decide)
    ⟨List.Perm.refl _, by decide⟩ ⟨oneBarAt 0, _, rfl⟩

/-- The hour from a day's bar closes 23 hours before the day does. -/
theorem hoursOfDays_looks_ahead : validateFeedPlan (fun _ => true) hoursOfDays = none ∧
    LoadOrder hoursOfDays hoursOfDays ∧
    ∃ loaded : List (LoadedFeed ℚ), loadFeeds (oneBarAt 0) hoursOfDays = .ok loaded ∧ ¬ NoLookahead loaded := by
  refine ⟨by decide, ⟨List.Perm.refl _, by decide⟩, _, rfl, fun h => ?_⟩
  obtain ⟨closes, ends', hc, he, hle⟩ := h 2 1 _ _ ⟨.Minutes, 60⟩ rfl rfl rfl _ (List.mem_singleton.2 rfl) _
    (List.mem_singleton.2 rfl) rfl
  have hday : periodEnd 0 ⟨.Days, 1⟩ = .ok closes := hc
  have hhour : periodEnd 0 ⟨.Minutes, 60⟩ = .ok ends' := he
  cases hday
  cases hhour
  exact absurd hle (by decide)

end StratForge
