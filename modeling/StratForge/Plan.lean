import StratForge.Partition

/-!
# Feed plans (`validate_feed_plan` and the load loop of `run_backtest`)

The plan is validated in the order of its list and loaded in the order of its indices, which
`std::sort` makes of it: any sorted rearrangement (`LoadOrder`). `loadFeeds_get` gives what the load
loop has made of each spec.
-/

namespace StratForge

/-! ### Validation -/

/-- A feed after the first: a canonical interval, not finer than that of feed 0. -/
def checkInterval (exec : FeedSpec) (execTfc : TimeFrameCompression) (k : Nat) (spec : FeedSpec) :
    Option String :=
  match parseInterval spec.interval with
  | none => some ("feed " ++ toString k ++ " has invalid interval token \"" ++ spec.interval ++ "\"")
  | some ctxTfc =>
    if finerThan ctxTfc execTfc then
      some ("feed " ++ toString k ++ " (interval " ++ spec.interval ++
        ") is finer than feed 0 (execution, interval " ++ exec.interval ++
        "); the execution feed must be the finest")
    else none

def checkSource (fileExists : String → Bool) (k : Nat) (spec : FeedSpec) : Option String :=
  if spec.source = "parquet" then
    if spec.dataPath = "" then some ("feed " ++ toString k ++ " (source=parquet) has no dataPath")
    else if !fileExists spec.dataPath then
      some ("feed " ++ toString k ++ " data file not found: " ++ spec.dataPath)
    else none
  else if spec.source = "resample" then
    if spec.base = "" then some ("feed " ++ toString k ++ " (source=resample) has no base interval")
    else match parseInterval spec.base with
      | none => some ("feed " ++ toString k ++ " has invalid base interval token \"" ++ spec.base ++ "\"")
      | some _ => none
  else some ("feed " ++ toString k ++ " has unknown source \"" ++ spec.source ++ "\"")

/-- The first complaint, or `none` for the empty string of success. -/
def validateFeedPlan (fileExists : String → Bool) (feeds : List FeedSpec) : Option String :=
  match feeds with
  | [] => some "feed plan is empty: at least one feed is required"
  | exec :: rest =>
    if exec.role ≠ "execution" then
      some ("feed 0 must have role \"execution\", got \"" ++ exec.role ++ "\"")
    else match parseInterval exec.interval with
    | none => some ("feed 0 has invalid interval token \"" ++ exec.interval ++ "\"")
    | some execTfc =>
      ((rest.zipIdx 1).findSome? fun p => checkInterval exec execTfc p.2 p.1).or
        (feeds.zipIdx.findSome? fun p => checkSource fileExists p.2 p.1)

/-- The two ways to come by bars. -/
inductive SourceOk (fileExists : String → Bool) (spec : FeedSpec) : Prop
  | parquet (hs : spec.source = "parquet") (hp : spec.dataPath ≠ "") (he : fileExists spec.dataPath = true)
  | resample (hs : spec.source = "resample") {base : TimeFrameCompression}
      (hb : parseInterval spec.base = some base)

/-- A plan that passes. -/
structure Validated (fileExists : String → Bool) (exec : FeedSpec) (rest : List FeedSpec) : Prop where
  role : exec.role = "execution"
  interval : ∃ execTfc, parseInterval exec.interval = some execTfc ∧ ∀ s ∈ rest, ∃ ctxTfc,
    parseInterval s.interval = some ctxTfc ∧ finerThan ctxTfc execTfc = false
  source : ∀ s ∈ exec :: rest, SourceOk fileExists s

theorem checkSource_none {fileExists : String → Bool} {k : Nat} {spec : FeedSpec}
    (h : checkSource fileExists k spec = none) : SourceOk fileExists spec := by
  unfold checkSource at h
  split at h
  · rename_i hs
    split at h
    · cases h
    · rename_i hp
      split at h
      · cases h
      · rename_i he
        exact .parquet hs hp (by simpa using he)
  · split at h
    · rename_i hs
      split at h
      · cases h
      · split at h
        · cases h
        · rename_i base hb
          exact .resample hs hb
    · cases h

theorem checkInterval_none {exec spec : FeedSpec} {execTfc : TimeFrameCompression} {k : Nat}
    (h : checkInterval exec execTfc k spec = none) :
    ∃ ctxTfc, parseInterval spec.interval = some ctxTfc ∧ finerThan ctxTfc execTfc = false := by
  unfold checkInterval at h
  split at h
  · cases h
  · rename_i ctxTfc hp
    split at h
    · cases h
    · rename_i hf
      exact ⟨ctxTfc, hp, by simpa using hf⟩

/-- A loop that looks for a complaint looks at every element. -/
theorem findSome?_zipIdx_none {A B : Type} {f : A × Nat → Option B} {xs : List A} {n : Nat}
    (h : (xs.zipIdx n).findSome? f = none) {x : A} (hx : x ∈ xs) : ∃ k, f (x, k) = none := by
  rw [List.findSome?_eq_none_iff] at h
  obtain ⟨i, hi, rfl⟩ := List.getElem_of_mem hx
  exact ⟨n + i, h _ (List.mk_add_mem_zipIdx_iff_getElem?.2 (by simp))⟩

theorem validated_of_none {fileExists : String → Bool} {feeds : List FeedSpec}
    (h : validateFeedPlan fileExists feeds = none) :
    ∃ exec rest, feeds = exec :: rest ∧ Validated fileExists exec rest := by
  unfold validateFeedPlan at h
  split at h
  · cases h
  · rename_i exec rest
    split at h
    · cases h
    · rename_i hrole
      split at h
      · cases h
      · rename_i execTfc hexec
        rw [Option.or_eq_none_iff] at h
        refine ⟨exec, rest, rfl, not_not.1 hrole, ⟨execTfc, hexec, fun s hs => ?_⟩, fun s hs => ?_⟩
        · obtain ⟨k, hk⟩ := findSome?_zipIdx_none h.1 hs
          exact checkInterval_none hk
        · obtain ⟨k, hk⟩ := findSome?_zipIdx_none h.2 hs
          exact checkSource_none hk

/-! ### Loading -/

/-- `std::sort` by index, which is not stable: any sorted rearrangement. -/
structure LoadOrder (feeds sorted : List FeedSpec) : Prop where
  perm : sorted.Perm feeds
  sorted : sorted.Pairwise fun a b => a.index ≤ b.index

variable {α : Type} [Arith α] {rows : String → List (Row α)} {specs : List FeedSpec} {spec : FeedSpec}
  {before loaded : List (LoadedFeed α)} {f : LoadedFeed α}

/-- What a turn of the load loop appends for a resampled spec, `base` being the first feed registered
under its base interval. -/
def LoadedResampled (before : List (LoadedFeed α)) (spec : FeedSpec) (f : LoadedFeed α) : Prop :=
  ∃ j base target self, before.findIdx? (·.interval == some spec.base) = some j ∧ before[j]? = some base ∧
    base.interval = some spec.base ∧ parseInterval spec.interval = some target ∧
    ResampledFeed.preload base.feed target { timeframe := target } = .ok self ∧
    f = ⟨some spec.interval, self, some (j, target)⟩

/-- And for the others. -/
def LoadedNative (rows : String → List (Row α)) (spec : FeedSpec) (f : LoadedFeed α) : Prop :=
  ∃ feed, loadNativeFeed rows spec = .ok feed ∧
    f = ⟨if spec.source = "parquet" then some spec.interval else none, feed, none⟩

def LoadedFrom (rows : String → List (Row α)) (before : List (LoadedFeed α)) (spec : FeedSpec)
    (f : LoadedFeed α) : Prop :=
  if spec.source = "resample" then LoadedResampled before spec f else LoadedNative rows spec f

omit [Arith α] in
theorem getD_feed {j : Nat} {base : LoadedFeed α} (h : before[j]? = some base) :
    (before.map (·.feed)).getD j {} = base.feed := by
  rw [List.getD_eq_getElem?_getD, List.getElem?_map, h]
  rfl

theorem loadedFrom_of_loadFeed (h : loadFeed rows before spec = .ok loaded) :
    ∃ f, loaded = before ++ [f] ∧ LoadedFrom rows before spec f := by
  unfold loadFeed at h
  by_cases hs : spec.source = "resample"
  · rw [if_pos hs] at h
    split at h
    · cases h
    rename_i j hj
    split at h
    · cases h
    rename_i target ht
    split at h
    · cases h
    rename_i self hp
    cases h
    obtain ⟨hlt, hbase, -⟩ := List.findIdx?_eq_some_iff_getElem.1 hj
    have hget := List.getElem?_eq_getElem hlt
    rw [getD_feed hget] at hp
    refine ⟨_, rfl, ?_⟩
    rw [LoadedFrom, if_pos hs]
    exact ⟨j, before[j], target, self, hj, hget, by simpa using hbase, ht, hp, rfl⟩
  · rw [if_neg hs] at h
    split at h
    · cases h
    rename_i feed hf
    cases h
    refine ⟨_, rfl, ?_⟩
    rw [LoadedFrom, if_neg hs]
    exact ⟨feed, hf, rfl⟩

theorem loadFeed_of_loadedFrom (h : LoadedFrom rows before spec f) :
    loadFeed rows before spec = .ok (before ++ [f]) := by
  unfold LoadedFrom at h
  unfold loadFeed
  split at h
  · rename_i hs
    obtain ⟨j, base, target, self, hj, hget, -, ht, hp, rfl⟩ := h
    rw [if_pos hs, hj, ht]
    simp only [getD_feed hget, hp]
  · rename_i hs
    obtain ⟨feed, hf, rfl⟩ := h
    rw [if_neg hs, hf]

/-- The load loop has made one feed of each spec, from the feeds before it. -/
theorem loadFeeds_get (h : loadFeeds rows specs = .ok loaded) : loaded.length = specs.length ∧
    ∀ k spec, specs[k]? = some spec → ∃ f, loaded[k]? = some f ∧ LoadedFrom rows (loaded.take k) spec f := by
  refine @Fold.foldlM_ok _ _ _ (loadFeed rows) (fun done l => l.length = done.length ∧
    ∀ k spec, done[k]? = some spec → ∃ f, l[k]? = some f ∧ LoadedFrom rows (l.take k) spec f) ?_
    specs [] [] loaded ⟨rfl, by simp⟩ h
  rintro done l x l' ⟨hlen, hget⟩ hl
  obtain ⟨f, rfl, hf⟩ := loadedFrom_of_loadFeed hl
  refine ⟨by simp [hlen], fun k spec hk => ?_⟩
  by_cases hlt : k < done.length
  · rw [List.getElem?_append_left hlt] at hk
    obtain ⟨g, hg, hfrom⟩ := hget k spec hk
    have hkl : k < l.length := by omega
    rw [List.getElem?_append_left hkl, List.take_append_of_le_length hkl.le]
    exact ⟨g, hg, hfrom⟩
  · have hkd : k = done.length := by
      have := (List.getElem?_eq_some_iff.1 hk).1
      simp at this
      omega
    subst hkd
    rw [List.getElem?_concat_length] at hk
    cases hk
    exact ⟨f, by rw [← hlen]; simp, by rw [← hlen, List.take_left]; exact hf⟩

omit [Arith α] in
theorem loadNativeFeed_ok {feed : DataFeed α} (h : loadNativeFeed rows spec = .ok feed) :
    feed.lines.data = rows spec.dataPath ∧ feed.lines.data ≠ [] ∧ isParquet spec.dataPath = false ∧
      feed.timeframe = (parseInterval spec.interval).getD {} := by
  unfold loadNativeFeed at h
  split at h
  · cases h
  · cases h
  · rename_i tfc hp
    split at h
    · cases h
    · rename_i hne
      cases h
      exact ⟨rfl, by simpa using hne, hp, rfl⟩

theorem loadFeeds_getSpec (h : loadFeeds rows specs = .ok loaded) {k : Nat} (hk : loaded[k]? = some f) :
    ∃ spec, specs[k]? = some spec ∧ LoadedFrom rows (loaded.take k) spec f := by
  obtain ⟨hlen, hget⟩ := loadFeeds_get h
  have hlt : k < specs.length := by
    rw [← hlen]
    exact (List.getElem?_eq_some_iff.1 hk).1
  obtain ⟨g, hg, hfrom⟩ := hget k _ (List.getElem?_eq_getElem hlt)
  rw [hk] at hg
  cases hg
  exact ⟨_, List.getElem?_eq_getElem hlt, hfrom⟩

/-- A feed registered under a token has its timeframe. -/
theorem LoadedFrom.timeframe {tok : String} {tfc : TimeFrameCompression}
    (h : LoadedFrom rows before spec f) (hi : f.interval = some tok) (ht : parseInterval tok = some tfc) :
    spec.interval = tok ∧ f.feed.timeframe = tfc := by
  unfold LoadedFrom at h
  split at h
  · obtain ⟨j, base, target, self, -, -, -, hpt, hp, rfl⟩ := h
    cases hi
    rw [hpt] at ht
    cases ht
    exact ⟨rfl, (ResampledFeed.preload_ok hp).2⟩
  · obtain ⟨feed, hf, rfl⟩ := h
    simp only at hi
    split at hi
    · cases hi
      refine ⟨rfl, ?_⟩
      rw [(loadNativeFeed_ok hf).2.2.2, ht]
      rfl
    · cases hi

/-! ### Which orders load -/

/-- The token a spec is registered under. -/
def FeedSpec.token (spec : FeedSpec) : Option String :=
  if spec.source = "resample" ∨ spec.source = "parquet" then some spec.interval else none

/-- The turn of the load loop for a spec succeeds after feeds registered under `toks`. -/
def FeedSpec.LoadsAfter (toks : List (Option String)) (spec : FeedSpec) : Prop :=
  if spec.source = "resample" then some spec.base ∈ toks ∧ (parseInterval spec.interval).isSome
  else isParquet spec.dataPath = false

/-- So do all the turns. -/
def Loadable : List (Option String) → List FeedSpec → Prop
  | _, [] => True
  | toks, spec :: rest => spec.LoadsAfter toks ∧ Loadable (toks ++ [spec.token]) rest

theorem FeedSpec.LoadsAfter.mono {toks toks' : List (Option String)} (h : toks ⊆ toks') 
    (hs : spec.LoadsAfter toks) : spec.LoadsAfter toks' := by
  unfold LoadsAfter at hs ⊢
  split at hs
  · rename_i hr
    rw [if_pos hr]
    exact ⟨h hs.1, hs.2⟩
  · rename_i hr
    rw [if_neg hr]
    exact hs

theorem Loadable.mono : ∀ {specs : List FeedSpec} {toks toks' : List (Option String)}, toks ⊆ toks' →
    Loadable toks specs → Loadable toks' specs
  | [], _, _, _, _ => trivial
  | _ :: _, _, _, h, hl =>
    ⟨hl.1.mono h, Loadable.mono (List.append_subset.2
      ⟨fun _ hx => List.mem_append_left _ (h hx), List.subset_append_right _ _⟩) hl.2⟩

/-- A feed with bars of its own can be loaded first. -/
theorem Loadable.move {spec : FeedSpec} (hs : spec.source ≠ "resample") {post : List FeedSpec} :
    ∀ {pre : List FeedSpec} {toks : List (Option String)}, Loadable toks (pre ++ spec :: post) →
      Loadable toks (spec :: (pre ++ post))
  | [], _, h => h
  | p :: pre, toks, h => by
    obtain ⟨hp, h⟩ := h
    obtain ⟨hspec, h⟩ := Loadable.move hs h
    have hnative : spec.LoadsAfter toks := by
      unfold FeedSpec.LoadsAfter at hspec ⊢
      rw [if_neg hs] at hspec ⊢
      exact hspec
    refine ⟨hnative, hp.mono (List.subset_append_left _ _), h.mono fun x hx => ?_⟩
    simp only [List.mem_append, List.mem_singleton] at hx ⊢
    rcases hx with (hx | hx) | hx
    · exact .inl (.inl hx)
    · exact .inr hx
    · exact .inl (.inr hx)

theorem LoadedFrom.token (h : LoadedFrom rows before spec f) : f.interval = spec.token := by
  by_cases hs : spec.source = "resample"
  · rw [LoadedFrom, if_pos hs] at h
    obtain ⟨j, base, target, self, -, -, -, -, -, rfl⟩ := h
    simp [FeedSpec.token, hs]
  · rw [LoadedFrom, if_neg hs] at h
    obtain ⟨feed, -, rfl⟩ := h
    simp [FeedSpec.token, hs]

theorem LoadedFrom.loadsAfter (h : LoadedFrom rows before spec f) :
    spec.LoadsAfter (before.map (·.interval)) := by
  unfold LoadedFrom at h
  unfold FeedSpec.LoadsAfter
  split at h
  · rename_i hs
    obtain ⟨j, base, target, self, -, hget, hi, ht, -, -⟩ := h
    rw [if_pos hs, ht]
    exact ⟨List.mem_map.2 ⟨base, List.mem_of_getElem? hget, hi⟩, rfl⟩
  · rename_i hs
    obtain ⟨feed, hl, -⟩ := h
    rw [if_neg hs]
    exact (loadNativeFeed_ok hl).2.2.1

theorem loadedFrom_of_loadsAfter (hne : spec.source ≠ "resample" → rows spec.dataPath ≠ [])
    (h : spec.LoadsAfter (before.map (·.interval))) : ∃ f, LoadedFrom rows before spec f := by
  unfold FeedSpec.LoadsAfter at h
  split at h
  · rename_i hs
    obtain ⟨hmem, ht⟩ := h
    obtain ⟨target, ht⟩ := Option.isSome_iff_exists.1 ht
    obtain ⟨base, hbase, hi⟩ := List.mem_map.1 hmem
    have hfind : (before.findIdx? (·.interval == some spec.base)).isSome := by
      rw [List.findIdx?_isSome]
      exact List.any_eq_true.2 ⟨base, hbase, by simp [hi]⟩
    obtain ⟨j, hj⟩ := Option.isSome_iff_exists.1 hfind
    obtain ⟨hlt, hb, -⟩ := List.findIdx?_eq_some_iff_getElem.1 hj
    obtain ⟨self, hp, -⟩ := ResampledFeed.preload_eq (supported_of_mem_vocabulary ht) before[j].feed
      { timeframe := target }
    refine ⟨⟨some spec.interval, self, some (j, target)⟩, ?_⟩
    rw [LoadedFrom, if_pos hs]
    exact ⟨j, before[j], target, self, hj, List.getElem?_eq_getElem hlt, by simpa using hb, ht, hp, rfl⟩
  · rename_i hs
    obtain ⟨feed, hl⟩ : ∃ feed, loadNativeFeed rows spec = .ok feed := by
      simp [loadNativeFeed, h, hne hs]
    refine ⟨⟨if spec.source = "parquet" then some spec.interval else none, feed, none⟩, ?_⟩
    rw [LoadedFrom, if_neg hs]
    exact ⟨feed, hl, rfl⟩

theorem loadable_of_ok : ∀ {specs : List FeedSpec} {before : List (LoadedFeed α)},
    specs.foldlM (loadFeed rows) before = .ok loaded → Loadable (before.map (·.interval)) specs
  | [], _, _ => trivial
  | spec :: specs, before, h => by
    rw [List.foldlM_cons] at h
    cases hs : loadFeed rows before spec with
    | error e => rw [hs] at h; cases h
    | ok mid =>
      rw [hs] at h
      obtain ⟨f, rfl, hf⟩ := loadedFrom_of_loadFeed hs
      have hrest := loadable_of_ok h
      rw [List.map_append, List.map_singleton, hf.token] at hrest
      exact ⟨hf.loadsAfter, hrest⟩

theorem ok_of_loadable : ∀ {specs : List FeedSpec} {before : List (LoadedFeed α)},
    (∀ s ∈ specs, s.source ≠ "resample" → rows s.dataPath ≠ []) → Loadable (before.map (·.interval)) specs →
      ∃ loaded, specs.foldlM (loadFeed rows) before = .ok loaded
  | [], before, _, _ => ⟨before, rfl⟩
  | spec :: specs, before, hne, h => by
    obtain ⟨f, hf⟩ := loadedFrom_of_loadsAfter (hne spec List.mem_cons_self) h.1
    have hrest : Loadable ((before ++ [f]).map (·.interval)) specs := by
      rw [List.map_append, List.map_singleton, hf.token]
      exact h.2
    obtain ⟨loaded, hl⟩ := ok_of_loadable (fun s hs => hne s (List.mem_cons_of_mem _ hs)) hrest
    rw [List.foldlM_cons, loadFeed_of_loadedFrom hf]
    exact ⟨loaded, hl⟩

end StratForge
