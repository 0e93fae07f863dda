import StratForge.CausalIndicators
import StratForge.Undelivered

/-!
# Features that look ahead

A candidate's features are read at the cursor of its feed, or from indicators that look back, but for two: the volume ratio
and the volatility take the volume and the close of the feed's last bar, the end of the data. So candidates of two runs
over data that show the same are the same where the ends have that volume and close in common too, or no candidate comes
when the averages of its feed are ready (`candidates_agree`).
-/

namespace StratForge

variable {α V W : Type} [Arith α] [Floating α]

/-! ### One candidate -/

namespace FeedIndicators
variable {feed feed' : DataFeed α} {fi : FeedIndicators α}

/-- What the last bars of two feeds must have in common for these indicators: the volume when its average is ready, and the
close when its average and deviation are. -/
structure EndsAlike (feed feed' : DataFeed α) (fi : FeedIndicators α) : Prop where
  volume : 0 < lastVal fi.volSma.line → feed'.volume.data.getLast? = feed.volume.data.getLast?
  close : ¬ lastVal fi.closeStddev.line < 1e-15 → feed'.close.data.getLast? = feed.close.data.getLast?

theorem EndsAlike.volumeRatio (h : fi.EndsAlike feed feed') : fi.volumeRatio feed' = fi.volumeRatio feed := by
  unfold FeedIndicators.volumeRatio
  by_cases hpos : 0 < lastVal fi.volSma.line
  · rw [h.volume hpos]
  · simp only [hpos, decide_false, Bool.and_false, Bool.false_eq_true, if_false]

theorem EndsAlike.volatilityZ (h : fi.EndsAlike feed feed') : fi.volatilityZ feed' = fi.volatilityZ feed := by
  unfold FeedIndicators.volatilityZ
  by_cases hsd : lastVal fi.closeStddev.line < 1e-15
  · simp only [hsd, decide_true, Bool.or_true, if_true]
  · rw [h.close hsd]

end FeedIndicators

namespace Collector
variable {clock clock' : Clock α} {b : BackBroker α W} {cl : Collector α} {side : OrderSide} {size : α} {k : Nat}

/-- The collector with other indicators. -/
def refed (cl : Collector α) (fis : List (FeedIndicators α)) : Collector α :=
  { cl with featureBuilder := { cl.featureBuilder with feedIndicators := fis } }

/-- Orders that get no candidate. -/
def Passes (cl : Collector α) (side : OrderSide) (k : Nat) (b : BackBroker α W) : Prop :=
  cl.isEnabled = false ∨ side = .Sell ∧ (b.position k).isLong = true ∨ side = .Buy ∧ (b.position k).isShort = true

theorem preOrderHook_of_passes (h : cl.Passes side k b) (feeds : List (DataFeed α)) :
    cl.preOrderHook side size k feeds b = (⟨0, size, false⟩, cl) := by
  unfold preOrderHook onPreOrder
  dsimp only
  by_cases hon : cl.isEnabled = true
  · rw [hon, if_neg (by simp), if_pos (h.resolve_left (by simp [hon]))]
  · rw [Bool.not_eq_true] at hon
    rw [hon]
    rfl

/-- The others give the run up, or get a candidate. -/
theorem preOrderHook_of_not_passes (h : ¬ cl.Passes side k b) (size : α) (feeds : List (DataFeed α)) :
    cl.preOrderHook side size k feeds b = (⟨0, size, true⟩, { cl with failed := true }) ∨
    ∃ por snap shadows, cl.preOrderHook side size k feeds b = (por, cl.issue snap k shadows) ∧
      ∀ s ∈ shadows, s.dataIndex = k := by
  have hon : cl.isEnabled = true := by simpa using fun hoff => h (.inl hoff)
  unfold preOrderHook onPreOrder
  dsimp only
  rw [hon, if_neg (by simp), if_neg fun hreduce => h (.inr hreduce)]
  cases hsnap : cl.snapshot side size k feeds b with
  | error err => exact .inl rfl
  | ok snap =>
    dsimp only [bind, Except.bind]
    split_ifs with hreject
    · cases hsh : cl.shadowOf side size k feeds snap with
      | error err => exact .inl rfl
      | ok shadows =>
        refine .inr ⟨_, snap, shadows, rfl, ?_⟩
        unfold shadowOf at hsh
        split at hsh
        · cases hsh
          exact fun s hs => absurd hs List.not_mem_nil
        · obtain ⟨entry, -, hsh⟩ := bind_eq_ok.1 hsh
          cases hsh
          exact fun s hs => by rw [List.mem_singleton.1 hs]
    · exact .inr ⟨_, snap, [], rfl, fun s hs => absurd hs List.not_mem_nil⟩

section
variable (halike : clock.Alike clock') (hup : clock.Upright)
include halike hup

section
variable (hk : clock.Delivering k)
include hk

omit [Arith α] [Floating α] in
theorem closeAt_alike (otherwise : α) : closeAt clock'.feeds k otherwise = closeAt clock.feeds k otherwise := by
  have hmark := halike.column hup hk Row.close
  unfold closeAt
  cases hfeed : clock.feeds[k]? with
  | none =>
    rw [hfeed] at hmark
    rw [Option.map_eq_none_iff.1 hmark]
  | some feed =>
    rw [hfeed] at hmark
    obtain ⟨feed', hfeed', hclose⟩ := Option.map_eq_some_iff.1 hmark
    rw [hfeed']
    exact hclose

omit [Arith α] [Floating α] in
theorem timestampAt_alike : timestampAt clock'.feeds k = timestampAt clock.feeds k := by
  have hmark := halike.column hup hk Row.datetime
  unfold timestampAt
  cases hfeed : clock.feeds[k]? with
  | none =>
    rw [hfeed] at hmark
    rw [Option.map_eq_none_iff.1 hmark]
  | some feed =>
    rw [hfeed] at hmark
    obtain ⟨feed', hfeed', hdate⟩ := Option.map_eq_some_iff.1 hmark
    rw [hfeed']
    exact congrArg (· >>= _) hdate

/-- Two features of a feed read its end; the others what it has delivered. -/
theorem build_alike (hopen : b.OpenOn clock.Delivering) (p : PopFeatureBuilder α) (fis : List (FeedIndicators α))
    (hread : ∀ feed feed', clock.feeds[k]? = some feed → clock'.feeds[k]? = some feed' →
      ∃ fi, p.feedIndicators[k]? = some fi ∧ fis[k]? = some fi ∧ fi.EndsAlike feed feed') :
    { p with feedIndicators := fis }.build side size k clock'.feeds b = p.build side size k clock.feeds b := by
  have hmark := halike.column hup hk Row.close
  unfold PopFeatureBuilder.build
  cases hfeed : clock.feeds[k]? with
  | none =>
    rw [hfeed] at hmark
    rw [Option.map_eq_none_iff.1 hmark]
    cases p.initialized <;> rfl
  | some feed =>
    rw [hfeed] at hmark
    obtain ⟨feed', hfeed', hclose⟩ := Option.map_eq_some_iff.1 hmark
    have hclose : feed'.close.at' 0 = feed.close.at' 0 := hclose
    obtain ⟨fi, hfi, hfi', hends⟩ := hread feed feed' hfeed hfeed'
    rw [hfeed', hfi, hfi']
    cases p.initialized with
    | false => rfl
    | true =>
      dsimp only
      rw [hclose, hopen.portfolioValue_alike halike hup, hends.volatilityZ, hends.volumeRatio]
      rfl

theorem preOrderHook_alike {fis : List (FeedIndicators α)} (hopen : b.OpenOn clock.Delivering) (w : W)
    (hread : ∀ feed feed', clock.feeds[k]? = some feed → clock'.feeds[k]? = some feed' →
      ∃ fi, cl.featureBuilder.feedIndicators[k]? = some fi ∧ fis[k]? = some fi ∧ fi.EndsAlike feed feed') :
    (cl.refed fis).preOrderHook side size k clock'.feeds (b.capture w) =
      ((cl.preOrderHook side size k clock.feeds b).1, (cl.preOrderHook side size k clock.feeds b).2.refed fis) := by
  have hsnap : (cl.refed fis).snapshot side size k clock'.feeds (b.capture w) = cl.snapshot side size k clock.feeds b := by
    unfold snapshot
    rw [timestampAt_alike halike hup hk]
    have hbuild : { cl.featureBuilder with feedIndicators := fis }.build side size k clock'.feeds (b.capture w) =
        cl.featureBuilder.build side size k clock.feeds (b.capture w) := build_alike halike hup hk hopen cl.featureBuilder fis hread
    rw [show (cl.refed fis).featureBuilder = { cl.featureBuilder with feedIndicators := fis } from rfl, hbuild]
    rfl
  have hsh : ∀ snap, (cl.refed fis).shadowOf side size k clock'.feeds snap = cl.shadowOf side size k clock.feeds snap := by
    intro snap
    have hmark := halike.column hup hk Row.close
    unfold shadowOf
    cases hfeed : clock.feeds[k]? with
    | none =>
      rw [hfeed] at hmark
      rw [Option.map_eq_none_iff.1 hmark]
    | some feed =>
      rw [hfeed] at hmark
      obtain ⟨feed', hfeed', hclose⟩ := Option.map_eq_some_iff.1 hmark
      have hclose : feed'.close.at' 0 = feed.close.at' 0 := hclose
      rw [hfeed']
      dsimp only
      rw [hclose]
      rfl
  have hon : (cl.refed fis).isEnabled = cl.isEnabled := rfl
  have hpos : (b.capture w).position k = b.position k := rfl
  unfold preOrderHook onPreOrder
  rw [hsnap, hon, hpos]
  dsimp only
  split_ifs
  · rfl
  · rfl
  cases hsnap : cl.snapshot side size k clock.feeds b with
  | error err => rfl
  | ok snap =>
    dsimp only [bind, Except.bind]
    rw [hsh]
    split_ifs
    · cases cl.shadowOf side size k clock.feeds snap <;> rfl
    · rfl

end

omit [Floating α] in
/-- A tick of shadows on feeds that have delivered. -/
theorem tick_alike {ledger : List (ShadowEntry α)} (hon : ∀ s ∈ ledger, clock.Delivering s.dataIndex) :
    ShadowLedger.tick clock'.feeds ledger = ShadowLedger.tick clock.feeds ledger := by
  refine Fold.foldlM_congr (fun acc s hs => ?_) ([], [])
  have hclose : ∀ held, ShadowEntry.closeShadow clock'.feeds { s with barsHeld := held } =
      ShadowEntry.closeShadow clock.feeds { s with barsHeld := held } := fun held => by
    unfold ShadowEntry.closeShadow ShadowEntry.settle ShadowEntry.exitPriceAt ShadowEntry.barTimestampNs
    rw [closeAt_alike halike hup (hon s hs), timestampAt_alike halike hup (hon s hs)]
  dsimp only
  rw [hclose]

/-- The end of a bar: only the indicators are not the same. -/
theorem onBar_alike (hon : ∀ s ∈ cl.shadowLedger, clock.Delivering s.dataIndex) (hopen : b.OpenOn clock.Delivering)
    (fis : List (FeedIndicators α)) (w : W) :
    ∃ fis', (cl.refed fis).orFailed ((cl.refed fis).onBar clock'.feeds (b.capture w)) =
      (cl.orFailed (cl.onBar clock.feeds b)).refed fis' := by
  have hpv : (b.capture w).portfolioValue clock'.feeds = b.portfolioValue clock.feeds := hopen.portfolioValue_alike halike hup
  have hpeak : ∀ (p : PopFeatureBuilder α) fis pv, { p with feedIndicators := fis }.updateEquityPeak pv =
      { p.updateEquityPeak pv with feedIndicators := fis } := fun p fis pv => by
    unfold PopFeatureBuilder.updateEquityPeak
    dsimp only
    split_ifs <;> rfl
  unfold onBar
  rw [hpv, show (cl.refed fis).shadowLedger = cl.shadowLedger from rfl, tick_alike halike hup hon,
    show (cl.refed fis).isEnabled = cl.isEnabled from rfl]
  cases cl.isEnabled with
  | false => exact ⟨fis, rfl⟩
  | true =>
    cases b.portfolioValue clock.feeds with
    | error err => exact ⟨fis, rfl⟩
    | ok pv =>
      cases ShadowLedger.tick clock.feeds cl.shadowLedger with
      | error err => exact ⟨fis, rfl⟩
      | ok ticked =>
        refine ⟨List.zipWith FeedIndicators.advance clock'.feeds fis, ?_⟩
        have hadvance : ((cl.refed fis).featureBuilder.advance clock'.feeds).updateEquityPeak pv =
            { (cl.featureBuilder.advance clock.feeds).updateEquityPeak pv with
              feedIndicators := List.zipWith FeedIndicators.advance clock'.feeds fis } := hpeak (cl.featureBuilder.advance clock.feeds) _ pv
        show ({ cl.refed fis with featureBuilder := _, shadowLedger := _, outcomes := _ } : Collector α) = _
        rw [hadvance]
        rfl

end

/-! ### Two collectors -/

omit [Floating α] in
/-- A tick opens no shadow. -/
theorem tick_dataIndices {feeds : List (DataFeed α)} {ledger still : List (ShadowEntry α)} {closed : List (OutcomeRecord α)}
    (h : ShadowLedger.tick feeds ledger = .ok (closed, still)) {D : Nat → Prop} (hon : ∀ s ∈ ledger, D s.dataIndex) :
    ∀ s ∈ still, D s.dataIndex := by
  refine Fold.foldlM_ok (fun (done : List (ShadowEntry α)) (r : List (OutcomeRecord α) × List (ShadowEntry α)) =>
    (∀ s ∈ done, D s.dataIndex) → ∀ s ∈ r.2, D s.dataIndex)
    (fun done r s r' hr hs hdone => ?_) ledger [] ([], []) (closed, still) (fun _ s hs => absurd hs List.not_mem_nil) h hon
  have hr := hr fun s hs => hdone s (List.mem_append_left _ hs)
  dsimp only at hs
  split_ifs at hs
  · obtain ⟨record, -, hs⟩ := bind_eq_ok.1 hs
    cases hs
    exact hr
  · cases hs
    intro t ht
    rcases List.mem_append.1 ht with ht | ht
    · exact hr t ht
    · rw [List.mem_singleton.1 ht]
      exact hdone s (List.mem_append_right _ (List.mem_singleton_self s))

/-- Two collectors that are the same but for the indicators, which have been fed the bars of their own data, and whose
shadows are on data indices of `D`. -/
structure Twin (D : Nat → Prop) (feeds feeds' : DataFeed α × List (DataFeed α)) (n : Nat) (cl cl' : Collector α) : Prop where
  same : ∃ fis, cl' = cl.refed fis
  fed : cl.FedTo feeds n
  fed' : cl'.FedTo feeds' n
  shadows : ∀ s ∈ cl.shadowLedger, D s.dataIndex

namespace Twin
variable {D : Nat → Prop} {feeds feeds' : DataFeed α × List (DataFeed α)} {n : Nat} {cl cl' : Collector α}

theorem mono {D' : Nat → Prop} (h : Twin D feeds feeds' n cl cl') (hD : ∀ k, D k → D' k) : Twin D' feeds feeds' n cl cl' :=
  ⟨h.same, h.fed, h.fed', fun s hs => hD _ (h.shadows s hs)⟩

theorem hear (h : Twin D feeds feeds' n cl cl') (ev : Event α) (answer : Option (Cmd α)) :
    Twin D feeds feeds' n (cl.hear ev answer) (cl'.hear ev answer) := by
  obtain ⟨fis, rfl⟩ := h.same
  have hrefed : ∀ t : Trade α, (cl.refed fis).onTradeClosed t = (cl.onTradeClosed t).refed fis := fun t => by
    unfold Collector.onTradeClosed
    rw [show (cl.refed fis).isEnabled = cl.isEnabled from rfl]
    split_ifs <;> rfl
  rcases hear_cases ev answer with heq | ⟨-, t, -, -, -, heq⟩ <;> rw [heq, heq]
  · exact h
  · refine ⟨⟨fis, hrefed t⟩, h.fed.onTradeClosed t, h.fed'.onTradeClosed t, ?_⟩
    rcases cl.onTradeClosed_cases t with heq | ⟨-, -, heq⟩ <;> rw [heq] <;> exact h.shadows

/-- The end of a bar. -/
theorem onBar {now now' : Clock α} {b : BackBroker α W} (halike : now.Alike now') (hup : now.Upright)
    (h : Twin now.Delivering feeds feeds' n cl cl') (hopen : b.OpenOn now.Delivering) (w : W)
    (hnow : ∀ k f, (feeds.1 :: feeds.2)[k]? = some f → ∃ feed, now.feeds[k]? = some feed ∧ feed.lines.data = f.lines.data ∧
      feed.index = barsBefore feeds k (n + 1) - 1)
    (hnow' : ∀ k f, (feeds'.1 :: feeds'.2)[k]? = some f → ∃ feed, now'.feeds[k]? = some feed ∧ feed.lines.data = f.lines.data ∧
      feed.index = barsBefore feeds' k (n + 1) - 1) :
    Twin now.Delivering feeds feeds' (n + 1) (cl.orFailed (cl.onBar now.feeds b))
      (cl'.orFailed (cl'.onBar now'.feeds (b.capture w))) := by
  obtain ⟨fis, rfl⟩ := h.same
  refine ⟨onBar_alike halike hup h.shadows hopen fis w, h.fed.onBar b hnow, h.fed'.onBar (b.capture w) hnow', ?_⟩
  rcases cl.onBar_cases now.feeds b with ⟨-, heq⟩ | heq | ⟨pv, closed, still, htick, heq⟩ <;> rw [heq]
  · exact h.shadows
  · exact h.shadows
  · exact tick_dataIndices htick h.shadows

end Twin

/-- Where the feeds stand, a candidate for the data index `k` reads the same of both data. -/
structure ReadsAlike (clock clock' : Clock α) (feeds feeds' : DataFeed α × List (DataFeed α)) (n k : Nat) : Prop where
  delivering : clock.Delivering k
  ends : ∀ feed feed', clock.feeds[k]? = some feed → clock'.feeds[k]? = some feed' →
    ∃ f f', (feeds.1 :: feeds.2)[k]? = some f ∧ (feeds'.1 :: feeds'.2)[k]? = some f' ∧
      FeedIndicators.fed f'.lines.data (stands (barsBefore feeds' k) n) =
        FeedIndicators.fed f.lines.data (stands (barsBefore feeds k) n) ∧
      (FeedIndicators.fed f.lines.data (stands (barsBefore feeds k) n)).EndsAlike feed feed'

/-- The run has been given up, or a candidate after the first `old` ones is one for a data index outside of `good`. -/
def Strayed (good : Nat → Prop) (old : Nat) (cl : Collector α) : Prop :=
  cl.failed = true ∨ ∃ k ∈ cl.dataIndices.drop old, ¬ good k

section
variable {good : Nat → Prop} {old : Nat} {feeds : List (DataFeed α)}

omit [Floating α] in
theorem hear_dataIndices (cl : Collector α) (ev : Event α) (answer : Option (Cmd α)) :
    (cl.hear ev answer).dataIndices = cl.dataIndices ∧ (cl.hear ev answer).failed = cl.failed := by
  rcases hear_cases (α := α) ev answer with heq | ⟨-, t, -, -, -, heq⟩ <;> rw [heq]
  · exact ⟨rfl, rfl⟩
  · rcases cl.onTradeClosed_cases t with heq | ⟨-, -, heq⟩ <;> rw [heq] <;> exact ⟨rfl, rfl⟩

omit [Floating α] in
theorem Strayed.hear (h : cl.Strayed good old) (ev : Event α) (answer : Option (Cmd α)) : (cl.hear ev answer).Strayed good old := by
  unfold Strayed
  rw [(cl.hear_dataIndices ev answer).1, (cl.hear_dataIndices ev answer).2]
  exact h

omit [Arith α] [Floating α] in
theorem Strayed.issue (h : cl.Strayed good old) (snap : CandidateSnapshot α) (k : Nat) (shadows : List (ShadowEntry α)) :
    (cl.issue snap k shadows).Strayed good old := by
  refine h.imp id fun ⟨j, hj, hbad⟩ => ⟨j, ?_, hbad⟩
  show j ∈ (cl.dataIndices ++ [k]).drop old
  rw [List.drop_append]
  exact List.mem_append_left _ hj

theorem Strayed.preOrderHook (h : cl.Strayed good old) :
    (cl.preOrderHook side size k feeds b).2.Strayed good old :=
  preOrderHook_keeps (fun _ => .inl rfl) (fun snap shadows _ _ _ h => h.issue snap k shadows) h

theorem Strayed.onBar (h : cl.Strayed good old) : (cl.orFailed (cl.onBar feeds b)).Strayed good old := by
  rcases cl.onBar_cases feeds b with ⟨-, heq⟩ | heq | ⟨pv, closed, still, -, heq⟩ <;> rw [heq]
  · exact h
  · exact .inl rfl
  · exact h

/-- The hook answers the same for two collectors, unless it strays. -/
theorem Twin.preOrderHook (halike : clock.Alike clock') (hup : clock.Upright) {cl cl' : Collector α}
    {feeds feeds' : DataFeed α × List (DataFeed α)} {n : Nat} (h : Twin clock.Delivering feeds feeds' n cl cl')
    (hkept : ¬ cl.Strayed good old) (hold : old ≤ cl.dataIndices.length) (hopen : b.OpenOn clock.Delivering) (w : W)
    (hgood : good k → ReadsAlike clock clock' feeds feeds' n k) :
    (cl.preOrderHook side size k clock.feeds b).2.Strayed good old ∨
    (cl'.preOrderHook side size k clock'.feeds (b.capture w)).1 = (cl.preOrderHook side size k clock.feeds b).1 ∧
      Twin clock.Delivering feeds feeds' n (cl.preOrderHook side size k clock.feeds b).2
        (cl'.preOrderHook side size k clock'.feeds (b.capture w)).2 ∧
      old ≤ (cl.preOrderHook side size k clock.feeds b).2.dataIndices.length := by
  obtain ⟨fis, rfl⟩ := h.same
  by_cases hpasses : cl.Passes side k b
  · rw [preOrderHook_of_passes hpasses, preOrderHook_of_passes (show (cl.refed fis).Passes side k (b.capture w) from hpasses)]
    exact .inr ⟨rfl, h, hold⟩
  have hissued := preOrderHook_of_not_passes hpasses size clock.feeds
  by_cases hk : good k
  · right
    obtain ⟨hdel, hread⟩ := hgood hk
    have hon : cl.isEnabled = true := by simpa using fun hoff => hpasses (.inl hoff)
    obtain ⟨-, hfed⟩ := h.fed.resolve_left (fun hfailed => hkept (.inl hfailed)) hon
    obtain ⟨-, hfed'⟩ := h.fed'.resolve_left (fun hfailed => hkept (.inl hfailed)) hon
    rw [preOrderHook_alike halike hup hdel hopen w fun feed feed' hfeed hfeed' => by
      obtain ⟨f, f', hf, hf', hsame, hends⟩ := hread feed feed' hfeed hfeed'
      exact ⟨_, hfed k f hf, (hfed' k f' hf').trans (congrArg some hsame), hends⟩]
    rcases hissued with heq | ⟨por, snap, shadows, heq, hshadows⟩ <;> rw [heq]
    · exact ⟨rfl, ⟨⟨fis, rfl⟩, .inl rfl, .inl rfl, h.shadows⟩, hold⟩
    · refine ⟨rfl, ⟨⟨fis, rfl⟩, h.fed.issue snap k shadows, h.fed'.issue snap k shadows, fun s hs => ?_⟩, ?_⟩
      · rcases List.mem_append.1 hs with hs | hs
        · exact h.shadows s hs
        · rw [hshadows s hs]
          exact hdel
      · show old ≤ (cl.dataIndices ++ [k]).length
        rw [List.length_append]
        exact hold.trans (Nat.le_add_right _ _)
  · left
    rcases hissued with heq | ⟨por, snap, shadows, heq, -⟩ <;> rw [heq]
    · exact .inl rfl
    · refine .inr ⟨k, ?_, hk⟩
      show k ∈ (cl.dataIndices ++ [k]).drop old
      rw [List.drop_append_of_le_length hold]
      exact List.mem_append_right _ (List.mem_singleton_self k)

end

end Collector

/-! ### Two runs with a collector -/

/-- The broker when a run with a new collector begins. -/
def BackBroker.withCollector (b : BackBroker α V) (config : CollectorConfig α)
    (infer : Option (Nat → Vector α kPopFeatureCountV1 → α → InferenceResult α)) (feeds : DataFeed α × List (DataFeed α)) :
    BackBroker α (V × Collector α) := b.capture (b.world, .start config infer (feeds.2.length + 1))

namespace Cerebro
variable {c : Cerebro α V} {clock clock' : Clock α} {feeds feeds' : DataFeed α × List (DataFeed α)} {n : Nat}

/-- What two runs with a collector have in common, `old` candidates after the beginning. -/
structure Paired (D : Nat → Prop) (feeds feeds' : DataFeed α × List (DataFeed α)) (n old : Nat) (w w' : V × Collector α) : Prop where
  world : w'.1 = w.1
  twin : Collector.Twin D feeds feeds' n w.2 w'.2
  old : old ≤ w.2.dataIndices.length

theorem collecting_sees (hc : c.ReadsDelivered) (halike : clock.Alike clock') (hup : clock.Upright) {good : Nat → Prop}
    (hgood : ∀ k, good k → Collector.ReadsAlike clock clock' feeds feeds' n k) (old : Nat) :
    c.collecting.Sees (fun w => w.2.Strayed good old) (Paired clock.Delivering feeds feeds' n old) clock clock' where
  listener :=
    { act := fun ev b w _ hw hopen => by
        have hact : (c.listener clock').act ev ((b.capture w).capture w.1) = (c.listener clock).act ev (b.capture b.world.1) := by
          rw [hw.world]
          exact hc.act halike hup ev hopen
        rw [act_collecting, act_collecting, show (b.capture w).world = w from rfl, hact]
        exact ⟨rfl, rfl, hw.twin.hear ev _, hw.old.trans (congrArg List.length (Collector.hear_dataIndices ..).1).ge⟩
      hook := fun side size k b w hkept hw hopen => by
        refine (hw.twin.preOrderHook halike hup hkept hw.old hopen w (hgood k)).imp id fun ⟨hpor, htwin, hold⟩ => ?_
        exact ⟨hpor, hw.world, htwin, hold⟩
      act_lost := fun ev b hlost => by
        rw [act_collecting]
        exact hlost.hear ev _
      hook_lost := fun side size k b hlost => hlost.preOrderHook }
  call ph si b w _ hw hopen := by
    have hcall : c.call ph clock' si ((b.capture w).capture w.1) = c.call ph clock si (b.capture b.world.1) := by
      rw [hw.world]
      exact hc.call halike hup ph si hopen
    have hcollecting : ∀ clock (b : BackBroker α (V × Collector α)), c.collecting.call ph clock si b =
        let r := c.call ph clock si (b.capture b.world.1)
        ((r.1, b.world.2), r.2) := fun _ _ => rfl
    rw [hcollecting, hcollecting, show (b.capture w).world = w from rfl, hcall]
    exact ⟨rfl, rfl, hw.twin, hw.old⟩
  call_lost _ _ _ := id
  minimumPeriod w w' hw := congrArg c.minimumPeriod hw.world

/-- A candidate for the data index `k` on bar `n` does not see the end of the data. -/
structure Unseeing (feeds feeds' : DataFeed α × List (DataFeed α)) (n k : Nat) : Prop where
  delivered : DeliveredBy feeds (n + 1) k
  ends : ∀ f f', (feeds.1 :: feeds.2)[k]? = some f → (feeds'.1 :: feeds'.2)[k]? = some f' →
    (FeedIndicators.fed f.lines.data (stands (barsBefore feeds k) n)).EndsAlike f f'

variable {b b' : BackBroker α (V × Collector α)} {e e' : CerebroState α (V × Collector α)}

theorem Unseeing.readsAlike {k : Nat} (hk : Unseeing feeds feeds' n k) (hsame : SameUpTo (n + 1) feeds feeds')
    (h : c.collecting.gated feeds b n = .ok e) (hn : n < feeds.1.size) (h' : c.collecting.gated feeds' b' n = .ok e')
    (hn' : n < feeds'.1.size) : Collector.ReadsAlike e.clock e'.clock feeds feeds' n k where
  delivering := (delivering_gated h hn).2 hk.delivered
  ends feed feed' hfeed hfeed' := by
    have hfound : ∀ {clock : Clock α} {feeds : DataFeed α × List (DataFeed α)} {feed : DataFeed α},
        clock.slots.length = (feeds.1 :: feeds.2).length → clock.feeds[k]? = some feed → ∃ f, (feeds.1 :: feeds.2)[k]? = some f := by
      intro clock feeds feed hlen hfeed
      have hk := (List.getElem?_eq_some_iff.1 hfeed).1
      rw [Clock.feeds, List.length_map, hlen] at hk
      exact ⟨_, List.getElem?_eq_getElem hk⟩
    obtain ⟨f, hf⟩ := hfound (slots_gated h hn) hfeed
    obtain ⟨f', hf'⟩ := hfound (slots_gated h' hn') hfeed'
    obtain ⟨g, hg, hdata, -⟩ := c.collecting.gated_feed h hn hf
    obtain ⟨g', hg', hdata', -⟩ := c.collecting.gated_feed h' hn' hf'
    cases hfeed.symm.trans hg
    cases hfeed'.symm.trans hg'
    obtain ⟨-, hbefore, hrows⟩ := hsame.feed hf hf'
    have hpos := hk.delivered f hf
    have hstands : stands (barsBefore feeds' k) n = stands (barsBefore feeds k) n :=
      List.map_congr_left fun m hm => by rw [hbefore (m + 1) (Nat.succ_le_succ (List.mem_range.1 hm).le)]
    refine ⟨f, f', hf, hf', ?_, fun hready => ?_, fun hready => ?_⟩
    · rw [hstands]
      refine FeedIndicators.fed_congr hrows fun i hi => ?_
      obtain ⟨m, hm, rfl⟩ := List.mem_map.1 hi
      have hle : barsBefore feeds k (m + 1) ≤ barsBefore feeds k (n + 1) :=
        barsBefore_mono (Nat.succ_le_succ (List.mem_range.1 hm).le)
      omega
    · show (feed'.lines.data.map Row.volume).getLast? = (feed.lines.data.map Row.volume).getLast?
      rw [hdata, hdata']
      exact (hk.ends f f' hf hf').volume hready
    · show (feed'.lines.data.map Row.close).getLast? = (feed.lines.data.map Row.close).getLast?
      rw [hdata, hdata']
      exact (hk.ends f f' hf hf').close hready

/-- A bar on which nothing is read that has not been delivered: no order comes to a feed that has delivered nothing, and no
candidate sees the end of the data. -/
structure Shielded (c : Cerebro α V) (feeds feeds' : DataFeed α × List (DataFeed α)) (n : Nat)
    (e : CerebroState α (V × Collector α)) : Prop where
  serves : c.collecting.Serves e
  kept : (c.collecting.trade n e).broker.world.2.failed = false
  unseeing : ∀ k ∈ (c.collecting.trade n e).broker.world.2.dataIndices.drop e.broker.world.2.dataIndices.length,
    Unseeing feeds feeds' n k

theorem Shielded.steady (hc : c.ReadsDelivered) (hsame : SameUpTo (n + 1) feeds feeds')
    (h : c.collecting.gated feeds b n = .ok e) (hn : n < feeds.1.size) (h' : c.collecting.gated feeds' b' n = .ok e')
    (hn' : n < feeds'.1.size) (hbar : c.Shielded feeds feeds' n e)
    (hpaired : Paired (DeliveredBy feeds n) feeds feeds' n 0 e.broker.world e'.broker.world) :
    c.collecting.Steady (Paired (DeliveredBy feeds (n + 1)) feeds feeds' (n + 1) 0) n e e' where
  sees := by
    have halike := alike_gated hsame h hn h' hn'
    have hup := upright_gated h hn
    have hD : ∀ k, e.clock.Delivering k ↔ DeliveredBy feeds (n + 1) k := fun k => delivering_gated h hn
    refine ⟨fun w => w.2.Strayed (Unseeing feeds feeds' n) e.broker.world.2.dataIndices.length, _, ?_,
      collecting_sees hc halike hup (fun k hk => hk.readsAlike hsame h hn h' hn') _, ?_, fun b w hw hopen => ?_⟩
    · exact ⟨hpaired.world, hpaired.twin.mono fun k hk => (hD k).2 (hk.mono (Nat.le_succ n)), le_rfl⟩
    · -- the end of the bar hides nothing
      intro hstrayed
      have hend : (c.collecting.trade n e).broker.world.2.Strayed (Unseeing feeds feeds' n)
          e.broker.world.2.dataIndices.length := Collector.Strayed.onBar hstrayed
      rcases hend with hfailed | ⟨k, hk, hbad⟩
      · exact Bool.false_ne_true (hbar.kept.symm.trans hfailed)
      · exact hbad (hbar.unseeing k hk)
    · refine ⟨?_, ?_, Nat.zero_le _⟩
      · show c.closing n e'.clock ((b.capture w).capture w.1) = c.closing n e.clock (b.capture b.world.1)
        rw [hw.world]
        exact hc.closing halike hup n hopen
      · exact (hw.twin.onBar halike hup hopen w (fun k f hf => c.collecting.gated_feed h hn hf)
          fun k f hf => c.collecting.gated_feed h' hn' hf).mono fun k => (hD k).1
  serves := hbar.serves

/-- Before the first bar nothing has been delivered, so a candidate must be one for no feed. -/
theorem start_paired (hflat : Arith.abs (0 : α) < 1e-10) (hc : c.ReadsDelivered) (hsame : SameUpTo 0 feeds feeds')
    (hpaired : Paired (DeliveredBy feeds 0) feeds feeds' 0 0 b.world b'.world) (hb : b' = b.capture b'.world) (hnone : b.positions = [])
    (h : c.collecting.start feeds b = .ok e) (h' : c.collecting.start feeds' b' = .ok e') (hkept : e.broker.world.2.failed = false)
    (hunseeing : ∀ k ∈ e.broker.world.2.dataIndices, DeliveredBy feeds 0 k) :
    Tied (Paired (DeliveredBy feeds 0) feeds feeds' 0 0) (DeliveredBy feeds 0) e e' := by
  have hgood : ∀ k, DeliveredBy feeds 0 k → Collector.ReadsAlike (Clock.start feeds) (Clock.start feeds') feeds feeds' 0 k := by
    refine fun k hk => ⟨delivering_start.2 hk, fun feed feed' hfeed => ?_⟩
    have hlt : k < (feeds.1 :: feeds.2).length := by
      have := (List.getElem?_eq_some_iff.1 hfeed).1
      simpa [Clock.feeds, Clock.slots, Clock.start] using this
    have hpos := hk _ (List.getElem?_eq_getElem hlt)
    rw [barsBefore_zero] at hpos
    exact absurd hpos (lt_irrefl 0)
  have hsees := collecting_sees hc (alike_start hsame) (upright_start feeds) hgood 0
  have hS : Paired (Clock.start feeds).Delivering feeds feeds' 0 0 b.world b'.world :=
    ⟨hpaired.world, hpaired.twin.mono fun k => delivering_start.2, hpaired.old⟩
  have htied := start_together hflat hsees (fun w w' hw => ⟨congrArg c.opening hw.world, hw.twin, hw.old⟩) (fun w => id) hS hb hnone
    h h' fun hstrayed => ?_
  · exact ⟨htied.broker, ⟨htied.world.world, htied.world.twin.mono fun k => delivering_start.1, htied.world.old⟩, htied.entered,
      htied.opened⟩
  · rcases hstrayed with hfailed | ⟨k, hk, hbad⟩
    · exact Bool.false_ne_true (hkept.symm.trans hfailed)
    · exact hbad (hunseeing k hk)

/-- It buys on the master, on one bar. -/
def buysOnMaster (bar : Nat) : Cerebro OrNan Unit :=
  { silent with
    call := fun _ clock _ b =>
      ((), if clock.master.feed.index = bar ∧ b.nextOrderId = 1 then some (.buy 1 0 none .Market 0) else none)
    fuel := 2 }

theorem readsDelivered_buysOnMaster (bar : Nat) : (buysOnMaster bar).ReadsDelivered where
  act _ _ _ _ _ := rfl
  hook _ _ _ _ _ _ _ := rfl
  call halike _ _ _ _ _ := by
    show ((), if _ then _ else _) = ((), if _ then _ else _)
    rw [halike.master.index]
  closing _ _ _ _ _ := rfl

/-- Minutes of which the last has this low. -/
def minutesWithLow (low : OrNan) : DataFeed OrNan × List (DataFeed OrNan) :=
  let f := DataFeed.rising ⟨.Minutes, 1⟩ 60 22
  ({ f with lines := { data := f.lines.data.modify 21 fun bar => { bar with low } } }, [])

end Cerebro

end StratForge
