import StratForge.Lookahead
import StratForge.Delivery

/-!
# Which feed is feed 0

Validation takes the first spec of the list for the execution feed, the load loop the first in the order
of the indices. Everything the result says of a feed goes by that second order (`ResultFollows`), so it is
consistent with itself; `feed_zero_iff` says when the two orders agree on feed 0.
-/

namespace StratForge


variable {α W : Type}

/-- The name `add_data` registers the `k`-th loaded feed under. -/
def feedName (symbol : String) (k : Nat) (spec : FeedSpec) : String :=
  if k = 0 then symbol else symbol ++ "_" ++ spec.interval

def feedNames (symbol : String) (sorted : List FeedSpec) : List String :=
  sorted.zipIdx.map fun p => feedName symbol p.2 p.1

def feedIntervals (sorted : List FeedSpec) : List String := sorted.map (·.interval)

/-- `final_bars_delivered_`, the bar counts of the result. -/
def CerebroState.finalBarsDelivered (e : CerebroState α W) : List Nat := e.clock.slots.map (·.barsDelivered)

variable [Arith α]

/-- The `k`-th name, interval and bar count are those of the feed loaded from the `k`-th spec. -/
structure ResultFollows (symbol : String) (rows : String → List (Row α)) (sorted : List FeedSpec)
    (loaded : List (LoadedFeed α)) (e : CerebroState α W) : Prop where
  names : (feedNames symbol sorted).length = sorted.length
  intervals : (feedIntervals sorted).length = sorted.length
  counts : e.finalBarsDelivered.length = sorted.length
  feed : ∀ k spec, sorted[k]? = some spec → ∃ f s, loaded[k]? = some f ∧
    LoadedFrom rows (loaded.take k) spec f ∧ e.clock.slots[k]? = some s ∧
    s.feed.timeframe = f.feed.timeframe ∧ (∃ again, s.feed.lines.data = f.feed.lines.data ++ again) ∧
    (feedNames symbol sorted)[k]? = some (feedName symbol k spec) ∧
    (feedIntervals sorted)[k]? = some spec.interval ∧ e.finalBarsDelivered[k]? = some s.barsDelivered

/-! ### The run goes by the load order -/

/-- The slots of a run hold the feeds it was given. -/
theorem Cerebro.run_slots (c : Cerebro α W) {feeds : DataFeed α × List (DataFeed α)} {b : BackBroker α W}
    {e : CerebroState α W} (h : c.run feeds b = .ok e) : List.Forall₂ (fun f s => s.feed.lines.data = f.lines.data ∧
      s.feed.timeframe = f.timeframe) (feeds.1 :: feeds.2) e.clock.slots := by
  have hal : ∃ t, e.clock.Along feeds t := by
    unfold run at h
    split at h
    · cases h
      exact ⟨0, Clock.along_start feeds⟩
    · rename_i hsize
      obtain ⟨t, ht⟩ := Nat.exists_eq_succ_of_ne_zero hsize
      rw [ht] at h
      obtain ⟨e₀, h₀, h⟩ := bind_eq_ok.1 h
      obtain ⟨e₁, h₁, h⟩ := c.bar_ok h
      have hal := (c.along_upTo (by omega) h₀).tick (clock_gate h₁)
      rw [if_neg (by rw [DataFeed.size_eq, hal.data, ← DataFeed.size_eq]; omega)] at h
      exact ⟨t, by rw [h]; exact hal⟩
  obtain ⟨t, hal⟩ := hal
  exact .cons ⟨hal.data, hal.timeframe⟩ (hal.context.imp fun _ _ hs => ⟨hs.data, hs.timeframe⟩)

theorem preloadFeeds_timeframe {loaded : List (LoadedFeed α)} {done : List (DataFeed α)}
    (h : preloadFeeds loaded = .ok done) : done.map (·.timeframe) = loaded.map (·.feed.timeframe) := by
  refine @Fold.foldlM_ok _ _ _ preloadFeed (fun pre d => d.map (·.timeframe) = pre.map (·.feed.timeframe)) ?_
    loaded [] [] done rfl h
  intro pre d f d' hd hs
  obtain ⟨g, rfl, hg⟩ : ∃ g, d' = d ++ [g] ∧ g.timeframe = f.feed.timeframe := by
    unfold preloadFeed at hs
    split at hs
    · cases hs
      exact ⟨_, rfl, rfl⟩
    · obtain ⟨g, hp, hs⟩ := bind_eq_ok.1 hs
      cases hs
      exact ⟨g, rfl, (ResampledFeed.preload_ok hp).2⟩
  rw [List.map_append, List.map_append, hd, List.map_singleton, List.map_singleton, hg]

/-- Whatever the order, the result is consistent with it. -/
theorem resultFollows_of_run (symbol : String) {rows : String → List (Row α)} {sorted : List FeedSpec}
    {loaded : List (LoadedFeed α)} {exec : DataFeed α} {rest : List (DataFeed α)} (c : Cerebro α W)
    {b : BackBroker α W} {e : CerebroState α W} (hl : loadFeeds rows sorted = .ok loaded)
    (hp : preloadFeeds loaded = .ok (exec :: rest)) (hr : c.run (exec, rest) b = .ok e) :
    ResultFollows symbol rows sorted loaded e := by
  have hslots := c.run_slots hr
  have hpre := preloadFeeds_ok (loadFeeds_ok hl) hp
  obtain ⟨hlen, hget⟩ := loadFeeds_get hl
  refine ⟨by simp [feedNames], by simp [feedIntervals], ?_, fun k spec hk => ?_⟩
  · rw [CerebroState.finalBarsDelivered, List.length_map, ← hslots.length_eq, hpre.length, hlen]
  · obtain ⟨f, hf, hfrom⟩ := hget k spec hk
    have hkd : k < (exec :: rest).length := by
      rw [hpre.length]
      exact (List.getElem?_eq_some_iff.1 hf).1
    have hg := List.getElem?_eq_getElem hkd
    obtain ⟨s, hs, hdata, htf⟩ := Fold.forall₂_get? hslots hg
    obtain ⟨again, hagain⟩ := hpre.keeps k f hf
    have htf' := congrArg (·[k]?) (preloadFeeds_timeframe hp)
    simp only [List.getElem?_map, hg, hf, Option.map_some, Option.some_inj] at htf'
    rw [List.getD_eq_getElem?_getD, hg, Option.getD_some] at hagain
    refine ⟨f, s, hf, hfrom, hs, htf.trans htf', ⟨again, hdata.trans hagain⟩, ?_, ?_, ?_⟩
    · simp [feedNames, hk]
    · simp [feedIntervals, hk]
    · simp [CerebroState.finalBarsDelivered, hs]

/-! ### Feed 0 -/

/-- The execution feed has bars of its own, and no other such feed may come before it. -/
def ExecFirst (exec : FeedSpec) (rest : List FeedSpec) : Prop :=
  exec.source = "parquet" ∧ ∀ s ∈ rest, s.source = "parquet" → exec.index < s.index ∨ s = exec

instance (exec : FeedSpec) (rest : List FeedSpec) : Decidable (ExecFirst exec rest) :=
  inferInstanceAs (Decidable (_ ∧ _))

/-- A plan that loads begins with a feed that has bars of its own. -/
theorem Loadable.head_parquet {fileExists : String → Bool} {spec : FeedSpec} {rest : List FeedSpec}
    (h : Loadable [] (spec :: rest)) (hs : SourceOk fileExists spec) : spec.source = "parquet" := by
  cases hs with
  | parquet hs => exact hs
  | resample hs =>
    have hload := h.1
    rw [FeedSpec.LoadsAfter, if_pos hs] at hload
    exact absurd hload.1 (List.not_mem_nil)

theorem head_of_execFirst {fileExists : String → Bool} {exec : FeedSpec} {rest sorted : List FeedSpec}
    (hval : Validated fileExists exec rest) (ho : LoadOrder (exec :: rest) sorted) (hl : Loadable [] sorted)
    (hf : ExecFirst exec rest) : sorted.head? = some exec := by
  cases sorted with
  | nil => exact absurd ho.perm.length_eq (by simp)
  | cons s tail =>
    have hmem : s ∈ exec :: rest := ho.perm.mem_iff.1 (List.mem_cons_self ..)
    have hs := hl.head_parquet (hval.source s hmem)
    rcases List.mem_cons.1 hmem with rfl | hr
    · rfl
    · rcases hf.2 s hr hs with hlt | rfl
      · -- the execution feed would come later with a smaller index
        have hexec : exec ∈ s :: tail := ho.perm.mem_iff.2 (List.mem_cons_self ..)
        rcases List.mem_cons.1 hexec with rfl | htail
        · rfl
        · have := (List.pairwise_cons.1 ho.sorted).1 exec htail
          omega
      · rfl

/-- Another feed with bars of its own and an index no larger can be loaded first. -/
theorem swapped_order {exec s : FeedSpec} {rest tail : List FeedSpec} (ho : LoadOrder (exec :: rest) (exec :: tail))
    (hl : Loadable [] (exec :: tail)) (hs : s ∈ rest) (hp : s.source = "parquet")
    (hle : s.index ≤ exec.index) : ∃ sorted, LoadOrder (exec :: rest) (s :: sorted) ∧ Loadable [] (s :: sorted) := by
  have hst : s ∈ tail := (ho.perm.cons_inv).mem_iff.2 hs
  obtain ⟨pre, post, rfl⟩ := List.append_of_mem hst
  obtain ⟨hmin, htail⟩ := List.pairwise_cons.1 ho.sorted
  refine ⟨exec :: (pre ++ post), ⟨?_, ?_⟩, ?_⟩
  · refine List.Perm.trans ?_ ho.perm
    exact (@List.perm_middle _ s (exec :: pre) post).symm
  · have hsub : (pre ++ post).Sublist (pre ++ s :: post) :=
      List.Sublist.append_left (List.sublist_cons_self s post) pre
    refine List.pairwise_cons.2 ⟨fun x hx => ?_, List.pairwise_cons.2
      ⟨fun x hx => hmin x (hsub.subset hx), htail.sublist hsub⟩⟩
    rcases List.mem_cons.1 hx with rfl | hx
    · exact hle
    · exact hle.trans (hmin x (hsub.subset hx))
  · have hns : s.source ≠ "resample" := by
      rw [hp]
      decide
    exact @Loadable.move s hns post (exec :: pre) [] hl

/-- Feed 0 of every run of a validated plan is the feed validated as the execution feed, and the result
speaks of the feeds in the order they were loaded in, exactly when the plan loads in no order of its
indices or the execution feed comes first in all of them. -/
theorem feed_zero_iff (fileExists : String → Bool) (exec : FeedSpec) (rest : List FeedSpec) (symbol : String)
    (c : Cerebro α W) (b : BackBroker α W) (hv : validateFeedPlan fileExists (exec :: rest) = none) :
    (∀ (sorted : List FeedSpec) (rows : String → List (Row α)) (loaded : List (LoadedFeed α)),
      LoadOrder (exec :: rest) sorted → loadFeeds rows sorted = .ok loaded → sorted.head? = some exec ∧
        ∀ exec' rest' e, preloadFeeds loaded = .ok (exec' :: rest') → c.run (exec', rest') b = .ok e →
          ResultFollows symbol rows sorted loaded e) ↔
    ((∃ sorted, LoadOrder (exec :: rest) sorted ∧ Loadable [] sorted) → ExecFirst exec rest) := by
  obtain ⟨_, _, heq, hval⟩ := validated_of_none hv
  cases heq
  constructor
  · rintro h ⟨sorted, ho, hl⟩
    have hfirst : ∀ sorted, LoadOrder (exec :: rest) sorted → Loadable [] sorted → sorted.head? = some exec := by
      intro sorted ho hl
      obtain ⟨loaded, hload⟩ := @ok_of_loadable α _ (oneBarAt 0) sorted [] (fun _ _ _ => by simp [oneBarAt]) hl
      exact (h sorted _ loaded ho hload).1
    have hhead := hfirst sorted ho hl
    cases sorted with
    | nil => cases hhead
    | cons x tail =>
      cases hhead
      refine ⟨hl.head_parquet (hval.source _ (List.mem_cons_self ..)), fun s hs hp => ?_⟩
      by_contra hno
      obtain ⟨hle, hne⟩ := not_or.1 hno
      obtain ⟨sorted, ho', hl'⟩ := swapped_order ho hl hs hp (Int.not_lt.1 hle)
      exact hne (Option.some_inj.1 (hfirst _ ho' hl'))
  · intro h sorted rows loaded ho hload
    have hl : Loadable [] sorted := loadable_of_ok hload
    exact ⟨head_of_execFirst hval ho hl (h ⟨sorted, ho, hl⟩), fun exec' rest' e hp hr =>
      resultFollows_of_run symbol c hload hp hr⟩

/-! Two minute feeds, the context feed with the smaller index. -/

def contextFirst : List FeedSpec :=
  [{ index := 1, interval := "1m", role := "execution", source := "parquet", dataPath := "a.csv" },
   { index := 0, interval := "1m", role := "context", source := "parquet", dataPath := "b.csv" }]

theorem feed_zero_iff_hours : let plan := hoursOfMinutes
    ∃ exec rest, plan = exec :: rest ∧
      (∀ (sorted : List FeedSpec) (rows : String → List (Row ℚ)) (loaded : List (LoadedFeed ℚ)),
        LoadOrder plan sorted → loadFeeds rows sorted = .ok loaded → sorted.head? = some exec) := by
  intro plan
  refine ⟨_, _, rfl, fun sorted rows loaded ho hl => ?_⟩
  exact ((feed_zero_iff (fun _ => true) _ _ "X" Cerebro.silent (BackBroker.init .USD (1000 : ℚ) none ())
    (by decide)).2 (fun _ => by decide) sorted rows loaded ho hl).1

/-- The run goes through the bars of the context feed. -/
theorem contextFirst_swaps_the_clock : validateFeedPlan (fun _ => true) contextFirst = none ∧
    LoadOrder contextFirst contextFirst.reverse ∧ ∃ (loaded : List (LoadedFeed ℚ)) (exec : DataFeed ℚ)
      (rest : List (DataFeed ℚ)) (e : CerebroState ℚ Unit),
      loadFeeds (oneBarAt 0) contextFirst.reverse = .ok loaded ∧ preloadFeeds loaded = .ok (exec :: rest) ∧
      Cerebro.silent.run (exec, rest) (BackBroker.init .USD (1000 : ℚ) none ()) = .ok e ∧
      contextFirst.reverse.head?.map (·.role) = some "context" ∧
      contextFirst.reverse.head? ≠ contextFirst.head? := by
  obtain ⟨loaded, exec, rest, hl, hp, hok⟩ : ∃ (loaded : List (LoadedFeed ℚ)) (exec : DataFeed ℚ)
      (rest : List (DataFeed ℚ)), loadFeeds (oneBarAt 0) contextFirst.reverse = .ok loaded ∧
        preloadFeeds loaded = .ok (exec :: rest) ∧
        (Cerebro.silent.run (exec, rest) (BackBroker.init .USD (1000 : ℚ) none ())).isOk = true :=
    ⟨_, _, _, rfl, rfl, by decide +kernel⟩
  cases hr : Cerebro.silent.run (exec, rest) (BackBroker.init .USD (1000 : ℚ) none ()) with
  | error err => rw [hr] at hok; cases hok
  | ok e =>
    exact ⟨by decide, ⟨List.reverse_perm _, by decide⟩, loaded, exec, rest, e, hl, hp, hr, by decide, by decide⟩

end StratForge
