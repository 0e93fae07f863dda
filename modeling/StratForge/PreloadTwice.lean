import StratForge.Resample
import StratForge.Fold

/-!
# Preloading a derived feed again

`preload()` of a derived feed starts from whatever its lines hold and appends the whole aggregation
once more. `preload_twice_iff` says when the second call changes nothing; `not_onePerBucket_of_loaded`
follows the two calls that `run_backtest` and `Cerebro::run` make.
-/

namespace StratForge

variable {α : Type} [Arith α]

/-! ### What one call appends -/

namespace ResampledFeed

/-- The loop appends at least the bar it holds, which starts where that bar's bucket does. -/
theorem loop_appends (target : TimeFrameCompression) (rows : List (Row α)) {start : DateTime}
    {b : Bucket α} {f f' : DataFeed α} (h : loop target rows start b f = .ok f') :
    ∃ r em, f'.lines.data = f.lines.data ++ r :: em ∧ r.datetime = start := by
  induction rows generalizing start b f with
  | nil =>
    cases h
    exact ⟨b.toRow start, [], rfl, rfl⟩
  | cons r rest ih =>
    obtain ⟨barBucket, -, h⟩ := bind_eq_ok.1 h
    split at h
    · obtain ⟨r', em, hd, -⟩ := ih h
      exact ⟨b.toRow start, r' :: em, by simpa [emitBar] using hd, rfl⟩
    · exact ih h

theorem preload_nil {base self : DataFeed α} {target : TimeFrameCompression}
    (hb : base.lines.data = []) : preload base target self = .ok self := by
  simp [preload, hb]

theorem preload_appends {base self self' : DataFeed α} {target : TimeFrameCompression} {r : Row α}
    {rest : List (Row α)} (hb : base.lines.data = r :: rest)
    (h : preload base target self = .ok self') :
    ∃ r' em, self'.lines.data = self.lines.data ++ r' :: em ∧
      periodStart r.datetime target = .ok r'.datetime := by
  simp only [preload, hb] at h
  obtain ⟨start, hs, h⟩ := bind_eq_ok.1 h
  obtain ⟨f, hl, h⟩ := bind_eq_ok.1 h
  obtain ⟨r', em, hd, hr⟩ := loop_appends target rest hl
  cases h
  exact ⟨r', em, hd, by rw [hs, hr]⟩

end ResampledFeed

theorem Resampler.loop_length (tf : TimeFrame) (c : Int) (rows : List (Row α)) (b : Bucket α) (n : Int)
    (dt : DateTime) (f : DataFeed α) :
    f.lines.data.length < (Resampler.loop tf c rows b n dt f).lines.data.length := by
  induction rows generalizing b n dt f with
  | nil => simp [Resampler.loop]
  | cons r rest ih =>
    simp only [Resampler.loop]
    split
    · exact lt_trans (by simp) (ih _ _ _ _)
    · exact ih _ _ _ _

theorem DataReplay.loop_length (tf : TimeFrame) (c : Int) (rows : List (Row α)) (b : Bucket α) (n : Int)
    (f : DataFeed α) : f.lines.data.length ≤ (DataReplay.loop tf c rows b n f).lines.data.length := by
  induction rows generalizing b n f with
  | nil => simp [DataReplay.loop]
  | cons r rest ih =>
    simp only [DataReplay.loop]
    exact le_trans (by simp) (ih _ _ _)

theorem Resampler.preload_length {source self : DataFeed α} (tf : TimeFrame) (c : Int)
    (hs : source.lines.data ≠ []) :
    self.lines.data.length < (Resampler.preload source tf c self).lines.data.length := by
  obtain ⟨r, rest, hr⟩ := List.exists_cons_of_ne_nil hs
  simp only [Resampler.preload, hr, DataFeed.data_home]
  exact Resampler.loop_length tf c _ _ _ _ _

theorem DataReplay.preload_length {source self : DataFeed α} (tf : TimeFrame) (c : Int)
    (hs : source.lines.data ≠ []) :
    self.lines.data.length < (DataReplay.preload source tf c self).lines.data.length := by
  obtain ⟨r, rest, hr⟩ := List.exists_cons_of_ne_nil hs
  simp only [DataReplay.preload, hr, DataFeed.data_home]
  exact lt_of_lt_of_le (by simp) (DataReplay.loop_length tf c _ _ _ _)

/-! ### The second call -/

namespace Feed

/-- The object is one of the three derived feeds. -/
def Derived : Feed α → Prop
  | native _ _ => False
  | _ => True

theorem preload_resampled {base f' : Feed α} {target : TimeFrameCompression} {self : DataFeed α}
    (h : (resampled base target self).preload = .ok f') :
    ∃ self', ResampledFeed.preload base.toDataFeed target self = .ok self' ∧
      f' = resampled base target self' := by
  obtain ⟨self', hp, h⟩ := bind_eq_ok.1 h
  cases h
  exact ⟨self', hp, rfl⟩

theorem preload_resampler {source f' : Feed α} {tf : TimeFrame} {c : Int} {self : DataFeed α}
    (h : (resampler source tf c self).preload = .ok f') :
    ∃ source', source.preload = .ok source' ∧
      f' = resampler source' tf c (Resampler.preload source'.toDataFeed tf c self) := by
  obtain ⟨source', hp, h⟩ := bind_eq_ok.1 h
  cases h
  exact ⟨source', hp, rfl⟩

theorem preload_replay {source f' : Feed α} {tf : TimeFrame} {c : Int} {self : DataFeed α}
    (h : (replay source tf c self).preload = .ok f') :
    ∃ source', source.preload = .ok source' ∧
      f' = replay source' tf c (DataReplay.preload source'.toDataFeed tf c self) := by
  obtain ⟨source', hp, h⟩ := bind_eq_ok.1 h
  cases h
  exact ⟨source', hp, rfl⟩

/-- A derived feed that aggregates nothing appends nothing. -/
theorem lines_of_upstream_nil {f f' : Feed α} (hd : f.Derived) (h : f.preload = .ok f')
    (hu : f'.upstream = []) : f'.toDataFeed.lines = f.toDataFeed.lines := by
  cases f with
  | native self unread => exact hd.elim
  | resampled base target self =>
    obtain ⟨self', hp, rfl⟩ := preload_resampled h
    rw [ResampledFeed.preload_nil hu] at hp
    cases hp; rfl
  | resampler source tf c self =>
    obtain ⟨source', -, rfl⟩ := preload_resampler h
    show (Resampler.preload source'.toDataFeed tf c self).lines = self.lines
    rw [Resampler.preload, show source'.toDataFeed.lines.data = [] from hu]
  | replay source tf c self =>
    obtain ⟨source', -, rfl⟩ := preload_replay h
    show (DataReplay.preload source'.toDataFeed tf c self).lines = self.lines
    rw [DataReplay.preload, show source'.toDataFeed.lines.data = [] from hu]

/-- A feed that aggregates something grows. -/
theorem length_of_upstream_ne_nil {f f' : Feed α} (h : f.preload = .ok f') (hu : f'.upstream ≠ []) :
    f.toDataFeed.lines.data.length < f'.toDataFeed.lines.data.length := by
  cases f with
  | native self unread => cases h; exact absurd rfl hu
  | resampled base target self =>
    obtain ⟨self', hp, rfl⟩ := preload_resampled h
    obtain ⟨r, rest, hr⟩ := List.exists_cons_of_ne_nil hu
    obtain ⟨r', em, hd, -⟩ := ResampledFeed.preload_appends hr hp
    simp [toDataFeed, hd]
  | resampler source tf c self =>
    obtain ⟨source', -, rfl⟩ := preload_resampler h
    exact Resampler.preload_length tf c hu
  | replay source tf c self =>
    obtain ⟨source', -, rfl⟩ := preload_replay h
    exact DataReplay.preload_length tf c hu

theorem derived_of_preload {f f' : Feed α} (h : f.preload = .ok f') : f'.Derived ↔ f.Derived := by
  cases f with
  | native self unread => cases h; rfl
  | resampled base target self => obtain ⟨_, -, rfl⟩ := preload_resampled h; rfl
  | resampler source tf c self => obtain ⟨_, -, rfl⟩ := preload_resampler h; rfl
  | replay source tf c self => obtain ⟨_, -, rfl⟩ := preload_replay h; rfl

/-- Whether a feed holds bars is settled by its first preload, if that is so of what it reads. -/
theorem data_eq_nil_twice {f f1 f2 : Feed α} (h1 : f.preload = .ok f1) (h2 : f1.preload = .ok f2)
    (hu : f2.upstream = [] ↔ f1.upstream = []) :
    f2.toDataFeed.lines.data = [] ↔ f1.toDataFeed.lines.data = [] := by
  by_cases hn : f1.upstream = []
  · by_cases hd : f1.Derived
    · rw [lines_of_upstream_nil hd h2 (hu.2 hn)]
    · cases f with
      | native self unread => cases h1; cases h2; rfl
      | _ => exact absurd ((derived_of_preload h1).2 trivial) hd
  · have g1 := length_of_upstream_ne_nil h1 hn
    have g2 := length_of_upstream_ne_nil h2 (fun h => hn (hu.1 h))
    have n1 : f1.toDataFeed.lines.data ≠ [] := List.length_pos_iff.1 (by omega)
    have n2 : f2.toDataFeed.lines.data ≠ [] := List.length_pos_iff.1 (by omega)
    exact iff_of_false n2 n1

theorem upstream_eq_nil_twice {f f1 f2 : Feed α} (h1 : f.preload = .ok f1) (h2 : f1.preload = .ok f2) :
    f2.upstream = [] ↔ f1.upstream = [] := by
  induction f generalizing f1 f2 with
  | native self unread => cases h1; cases h2; rfl
  | resampled base target self _ =>
    obtain ⟨_, -, rfl⟩ := preload_resampled h1
    obtain ⟨_, -, rfl⟩ := preload_resampled h2
    rfl
  | resampler source tf c self ih =>
    obtain ⟨s1, hs1, rfl⟩ := preload_resampler h1
    obtain ⟨s2, hs2, rfl⟩ := preload_resampler h2
    exact data_eq_nil_twice hs1 hs2 (ih hs1 hs2)
  | replay source tf c self ih =>
    obtain ⟨s1, hs1, rfl⟩ := preload_replay h1
    obtain ⟨s2, hs2, rfl⟩ := preload_replay h2
    exact data_eq_nil_twice hs1 hs2 (ih hs1 hs2)

/-- The second preload of a derived feed leaves its seven lines alone exactly when the feed it
aggregates holds no bars. -/
theorem preload_twice_iff {f f1 f2 : Feed α} (hd : f.Derived) (h1 : f.preload = .ok f1)
    (h2 : f1.preload = .ok f2) : f2.toDataFeed.lines = f1.toDataFeed.lines ↔ f1.upstream = [] := by
  rw [← upstream_eq_nil_twice h1 h2]
  constructor
  · intro h
    by_contra hu
    have := length_of_upstream_ne_nil h2 hu
    rw [h] at this
    exact lt_irrefl _ this
  · exact lines_of_upstream_nil ((derived_of_preload h1).2 hd) h2

end Feed

/-! ### The plan of `run_backtest`, preloaded once more by `Cerebro::run` -/

def DataFeed.timestamps (f : DataFeed α) : List DateTime := f.datetime.data

/-- One bar per non-empty bucket of the base, in increasing order. -/
def OnePerBucket (base : DataFeed α) (target : TimeFrameCompression) (ctx : DataFeed α) : Prop :=
  ctx.timestamps.Pairwise (· < ·) ∧
    ∀ ts, ts ∈ ctx.timestamps ↔ ∃ t ∈ base.timestamps, periodStart t target = .ok ts

/-- The first bar of `ctx` stands at the bucket of the first bar of `base`. -/
def HeadBucket (base : DataFeed α) (target : TimeFrameCompression) (ctx : DataFeed α) : Prop :=
  ∃ r r', base.lines.data.head? = some r ∧ ctx.lines.data.head? = some r' ∧
    periodStart r.datetime target = .ok r'.datetime

/-- What the load loop guarantees of the feeds it has loaded. -/
structure LoadedOk (loaded : List (LoadedFeed α)) : Prop where
  nonempty : ∀ f ∈ loaded, f.feed.lines.data ≠ []
  base : ∀ k f j target, loaded[k]? = some f → f.base = some (j, target) →
    j < k ∧ HeadBucket ((loaded.map (·.feed)).getD j {}) target f.feed

omit [Arith α] in
theorem LoadedOk.append {loaded : List (LoadedFeed α)} {f : LoadedFeed α} (h : LoadedOk loaded)
    (hne : f.feed.lines.data ≠ [])
    (hb : ∀ j target, f.base = some (j, target) →
      j < loaded.length ∧ HeadBucket ((loaded.map (·.feed)).getD j {}) target f.feed) :
    LoadedOk (loaded ++ [f]) := by
  have hget : ∀ j < loaded.length, (((loaded ++ [f]).map (·.feed)).getD j {}) =
      (loaded.map (·.feed)).getD j {} := by
    intro j hj
    simp [List.getD_eq_getElem?_getD, List.getElem?_append_left, hj]
  refine ⟨?_, ?_⟩
  · intro x hx
    rcases List.mem_append.1 hx with hx | hx
    · exact h.nonempty x hx
    · rw [List.mem_singleton.1 hx]; exact hne
  · intro k x j target hk hx
    by_cases hlt : k < loaded.length
    · rw [List.getElem?_append_left hlt] at hk
      obtain ⟨hj, hh⟩ := h.base k x j target hk hx
      exact ⟨hj, by rw [hget j (by omega)]; exact hh⟩
    · have hkl : k = loaded.length := by
        have := (List.getElem?_eq_some_iff.1 hk).1
        simp at this; omega
      subst hkl
      rw [List.getElem?_append_right (le_refl _)] at hk
      simp at hk
      subst hk
      obtain ⟨hj, hh⟩ := hb j target hx
      exact ⟨hj, by rw [hget j hj]; exact hh⟩

omit [Arith α] in
theorem loadNativeFeed_nonempty {rows : String → List (Row α)} {spec : FeedSpec} {f : DataFeed α}
    (h : loadNativeFeed rows spec = .ok f) : f.lines.data ≠ [] := by
  unfold loadNativeFeed at h
  split at h
  · cases h
  · cases h
  · split at h
    · cases h
    · rename_i hne
      cases h
      simpa using hne

theorem loadFeed_ok {rows : String → List (Row α)} {loaded loaded' : List (LoadedFeed α)}
    {spec : FeedSpec} (hl : LoadedOk loaded) (h : loadFeed rows loaded spec = .ok loaded') :
    LoadedOk loaded' := by
  unfold loadFeed at h
  split at h
  · split at h
    · cases h
    · rename_i j hj
      have hjlt : j < loaded.length := (List.findIdx?_eq_some_iff_getElem.1 hj).1
      split at h
      · cases h
      · rename_i target _
        split at h
        · cases h
        · rename_i self hp
          cases h
          have hbase : (loaded.map (·.feed)).getD j {} = loaded[j].feed := by
            simp [List.getD_eq_getElem?_getD, hjlt]
          obtain ⟨r, rest, hr⟩ := List.exists_cons_of_ne_nil
            (hl.nonempty loaded[j] (List.getElem_mem hjlt))
          rw [hbase] at hp
          obtain ⟨r', em, hd, hs⟩ := ResampledFeed.preload_appends hr hp
          have hd' : self.lines.data = r' :: em := by simpa using hd
          refine hl.append (by simp [hd']) ?_
          rintro j' target' ⟨⟩
          exact ⟨hjlt, r, r', by rw [hbase, hr]; rfl, by rw [hd']; rfl, hs⟩
  · split at h
    · cases h
    · rename_i f hf
      cases h
      exact hl.append (loadNativeFeed_nonempty hf) (by simp)

theorem loadFeeds_ok {rows : String → List (Row α)} {specs : List FeedSpec}
    {loaded : List (LoadedFeed α)} (h : loadFeeds rows specs = .ok loaded) : LoadedOk loaded :=
  Fold.foldlM_ok (fun _ l => LoadedOk l) (fun _ _ _ _ hl hs => loadFeed_ok hl hs) specs [] [] loaded
    ⟨by simp, by simp⟩ h

/-- After the second preload: every feed still starts with the bars it was loaded with, and a
resampled one has its first bucket once more behind them. -/
structure PreloadedOk (loaded : List (LoadedFeed α)) (done : List (DataFeed α)) : Prop where
  length : done.length = loaded.length
  keeps : ∀ k f, loaded[k]? = some f → ∃ em, (done.getD k {}).lines.data = f.feed.lines.data ++ em
  again : ∀ k f j target, loaded[k]? = some f → f.base = some (j, target) →
    ∃ r r' em, (done.getD j {}).lines.data.head? = some r ∧
      (done.getD k {}).lines.data = f.feed.lines.data ++ r' :: em ∧
      periodStart r.datetime target = .ok r'.datetime

theorem preloadFeed_ok {loaded rest : List (LoadedFeed α)} {f : LoadedFeed α}
    {done done' : List (DataFeed α)} (hl : LoadedOk (loaded ++ f :: rest))
    (hd : PreloadedOk loaded done) (h : preloadFeed done f = .ok done') :
    PreloadedOk (loaded ++ [f]) done' := by
  have hf : (loaded ++ f :: rest)[loaded.length]? = some f := by simp
  have hlen := hd.length
  -- the new feed's lines, and the first bar of its base, which is its own loaded one
  have hnew : ∃ g, done' = done ++ [g] ∧ (∃ em, g.lines.data = f.feed.lines.data ++ em) ∧
      ∀ j target, f.base = some (j, target) → ∃ r r' em, (done.getD j {}).lines.data.head? = some r ∧
        g.lines.data = f.feed.lines.data ++ r' :: em ∧ periodStart r.datetime target = .ok r'.datetime := by
    unfold preloadFeed at h
    split at h
    · rename_i hb
      cases h
      exact ⟨_, rfl, ⟨[], by simp⟩, by simp [hb]⟩
    · rename_i j target hb
      obtain ⟨self, hp, h⟩ := bind_eq_ok.1 h
      cases h
      obtain ⟨hj, r, -, hr, -, -⟩ := hl.base _ f j target hf hb
      have hjl : j < loaded.length := hj
      have hbase : (loaded ++ f :: rest)[j]? = some loaded[j] := by
        rw [List.getElem?_append_left hjl, List.getElem?_eq_getElem hjl]
      obtain ⟨em, hem⟩ := hd.keeps j loaded[j] (List.getElem?_eq_getElem hjl)
      obtain ⟨r0, rest0, hr0⟩ := List.exists_cons_of_ne_nil
        (hl.nonempty loaded[j] (List.mem_of_getElem? hbase))
      rw [hr0] at hem
      obtain ⟨r', em', hd', hs⟩ := ResampledFeed.preload_appends hem hp
      refine ⟨self, rfl, ⟨_, hd'⟩, ?_⟩
      rintro j' target' hb'
      rw [hb] at hb'; cases hb'
      exact ⟨r0, r', em', by rw [hem]; rfl, hd', hs⟩
  obtain ⟨g, rfl, hkeep, hagain⟩ := hnew
  have hold : ∀ k < loaded.length, (done ++ [g]).getD k {} = done.getD k {} := by
    intro k hk
    simp [List.getD_eq_getElem?_getD, List.getElem?_append_left, hlen, hk]
  have hlast : (done ++ [g]).getD loaded.length {} = g := by
    simp [List.getD_eq_getElem?_getD, ← hlen]
  have hcase : ∀ k x, (loaded ++ [f])[k]? = some x →
      (k < loaded.length ∧ loaded[k]? = some x) ∨ (k = loaded.length ∧ x = f) := by
    intro k x hk
    by_cases hlt : k < loaded.length
    · exact .inl ⟨hlt, by rwa [List.getElem?_append_left hlt] at hk⟩
    · have hkl : k = loaded.length := by
        have := (List.getElem?_eq_some_iff.1 hk).1
        simp at this; omega
      subst hkl
      simp at hk
      exact .inr ⟨rfl, hk.symm⟩
  refine ⟨by simp [hlen], ?_, ?_⟩
  · intro k x hk
    rcases hcase k x hk with ⟨hlt, hx⟩ | ⟨rfl, rfl⟩
    · rw [hold k hlt]; exact hd.keeps k x hx
    · rw [hlast]; exact hkeep
  · intro k x j target hk hb
    rcases hcase k x hk with ⟨hlt, hx⟩ | ⟨rfl, rfl⟩
    · have hj : j < k := (hl.base k x j target (by rwa [List.getElem?_append_left hlt]) hb).1
      rw [hold k hlt, hold j (by omega)]; exact hd.again k x j target hx hb
    · have hj : j < loaded.length := (hl.base _ x j target hf hb).1
      rw [hlast, hold j hj]; exact hagain j target hb

theorem preloadFeeds_ok {loaded : List (LoadedFeed α)} {done : List (DataFeed α)}
    (hl : LoadedOk loaded) (h : preloadFeeds loaded = .ok done) : PreloadedOk loaded done := by
  refine (@Fold.foldlM_ok _ _ _ preloadFeed
    (fun pre d => ∀ rest, loaded = pre ++ rest → PreloadedOk pre d) ?_ loaded [] [] done ?_ h)
    [] (by simp)
  · intro pre d f d' hP hs rest hrest
    have heq : loaded = pre ++ f :: rest := by simpa using hrest
    exact preloadFeed_ok (heq ▸ hl) (hP (f :: rest) heq) hs
  · intro rest _
    exact ⟨rfl, by simp, by simp⟩

/-- When the main loop starts, a resampled feed holds its first bucket twice. -/
theorem not_onePerBucket_of_loaded {rows : String → List (Row α)} {specs : List FeedSpec}
    {loaded : List (LoadedFeed α)} {done : List (DataFeed α)} (hload : loadFeeds rows specs = .ok loaded)
    (hrun : preloadFeeds loaded = .ok done) {k j : Nat} {f : LoadedFeed α}
    {target : TimeFrameCompression} (hk : loaded[k]? = some f) (hb : f.base = some (j, target)) :
    ¬ OnePerBucket (done.getD j {}) target (done.getD k {}) := by
  have hl := loadFeeds_ok hload
  have hp := preloadFeeds_ok hl hrun
  obtain ⟨hjk, r, r', hr, hr', hs⟩ := hl.base k f j target hk hb
  obtain ⟨r2, r2', em, hr2, hd, hs2⟩ := hp.again k f j target hk hb
  -- both copies of the first bucket start at the period of the same base bar
  have hjl : j < loaded.length := lt_trans hjk (List.getElem?_eq_some_iff.1 hk).1
  obtain ⟨em', hem'⟩ := hp.keeps j loaded[j] (List.getElem?_eq_getElem hjl)
  have hsame : r2 = r := by
    have hbase : (loaded.map (·.feed)).getD j {} = loaded[j].feed := by
      simp [List.getD_eq_getElem?_getD, hjl]
    rw [hbase] at hr
    rw [hem', List.head?_append, hr] at hr2
    simpa using hr2.symm
  subst hsame
  have hts : r'.datetime = r2'.datetime := by rw [hs] at hs2; exact Except.ok.inj hs2
  obtain ⟨rest, hrest⟩ : ∃ rest, f.feed.lines.data = r' :: rest := by
    cases hf : f.feed.lines.data with
    | nil => rw [hf] at hr'; cases hr'
    | cons a l => rw [hf] at hr'; cases hr'; exact ⟨l, rfl⟩
  rintro ⟨hinc, -⟩
  have hmap : (done.getD k {}).timestamps =
      r'.datetime :: (rest.map Row.datetime ++ r2'.datetime :: em.map Row.datetime) := by
    show (done.getD k {}).lines.data.map Row.datetime = _
    rw [hd, hrest]; simp
  rw [hmap] at hinc
  have hlt := (List.pairwise_cons.1 hinc).1 r2'.datetime (by simp)
  rw [hts] at hlt
  exact lt_irrefl _ hlt

/-- The seven lines of two feeds are the same. -/
def DataFeed.SameLines (f f' : DataFeed α) : Prop :=
  f.datetime = f'.datetime ∧ f.open = f'.open ∧ f.high = f'.high ∧ f.low = f'.low ∧
    f.close = f'.close ∧ f.volume = f'.volume ∧ f.openinterest = f'.openinterest

/-- A second `preload()` is harmless exactly when there is nothing to aggregate, and the resampled
feeds of a `run_backtest` plan always have something: at the main loop none of them holds one bar per
bucket. -/
theorem preload_idempotent_iff_nothing_to_aggregate :
    (∀ f f1 f2 : Feed α, f.Derived → f.preload = .ok f1 → f1.preload = .ok f2 →
      (f2.toDataFeed.SameLines f1.toDataFeed ↔ f1.upstream = [])) ∧
    (∀ (rows : String → List (Row α)) (specs : List FeedSpec) (loaded : List (LoadedFeed α))
      (done : List (DataFeed α)), loadFeeds rows specs = .ok loaded → preloadFeeds loaded = .ok done →
      ∀ (k j : Nat) (f : LoadedFeed α) (target : TimeFrameCompression), loaded[k]? = some f →
        f.base = some (j, target) → ¬ OnePerBucket (done.getD j {}) target (done.getD k {})) := by
  refine ⟨fun f f1 f2 hd h1 h2 => ?_, fun rows specs loaded done hl hr k j f target hk hb =>
    not_onePerBucket_of_loaded hl hr hk hb⟩
  rw [← Feed.preload_twice_iff hd h1 h2]
  exact (DataFeed.lines_eq_iff _ _).symm

/-! A base of one bar, resampled to five minutes, and the plan that does so. -/

def oneBar : Row ℚ := ⟨0, 1, 2, 1, 2, 10, 0⟩

def oneBarFeed : Feed ℚ := .resampled (.native { lines := { data := [oneBar] } } []) ⟨.Minutes, 5⟩ {}

def oneBarPlan : List FeedSpec :=
  [{ index := 0, interval := "1m", source := "parquet", dataPath := "a.csv" },
   { index := 1, interval := "5m", source := "resample", base := "1m" }]

theorem preload_idempotent_iff_nothing_to_aggregate_oneBar :
    (∃ f1 f2, oneBarFeed.preload = .ok f1 ∧ f1.preload = .ok f2 ∧
      (f2.toDataFeed.SameLines f1.toDataFeed ↔ f1.upstream = [])) ∧
    ∃ loaded done, loadFeeds (fun _ => [oneBar]) oneBarPlan = .ok loaded ∧
      preloadFeeds loaded = .ok done ∧ ¬ OnePerBucket (done.getD 0 {}) ⟨.Minutes, 5⟩ (done.getD 1 {}) := by
  refine ⟨⟨_, _, rfl, rfl,
    (@preload_idempotent_iff_nothing_to_aggregate ℚ _).1 oneBarFeed _ _ trivial rfl rfl⟩, ?_⟩
  obtain ⟨loaded, f, done, hload, hrun, hf, hb⟩ : ∃ loaded f done,
      loadFeeds (fun _ => [oneBar]) oneBarPlan = .ok loaded ∧ preloadFeeds loaded = .ok done ∧
        loaded[1]? = some f ∧ f.base = some (0, ⟨.Minutes, 5⟩) := ⟨_, _, _, rfl, rfl, rfl, rfl⟩
  exact ⟨loaded, done, hload, hrun,
    (@preload_idempotent_iff_nothing_to_aggregate ℚ _).2 _ oneBarPlan loaded done hload hrun
      1 0 f _ hf hb⟩

/-- Neither half of the idempotence holds of these. -/
theorem preload_twice_doubles :
    (¬ ∀ f f1 f2 : Feed ℚ, f.Derived → f.preload = .ok f1 → f1.preload = .ok f2 →
      f2.toDataFeed.SameLines f1.toDataFeed) ∧
    ∃ loaded done, loadFeeds (fun _ => [oneBar]) oneBarPlan = .ok loaded ∧
      preloadFeeds loaded = .ok done ∧ ¬ OnePerBucket (done.getD 0 {}) ⟨.Minutes, 5⟩ (done.getD 1 {}) := by
  refine ⟨fun h => ?_, _, _, rfl, rfl, ?_⟩
  · have := h oneBarFeed _ _ trivial rfl rfl
    exact absurd this.1 (by decide)
  · rintro ⟨hinc, -⟩
    exact absurd hinc (by decide)

end StratForge
