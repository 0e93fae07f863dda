import StratForge.Batcher
import StratForge.Literals
import StratForge.Spelling

/-!
# The increments as a consumer reads them

A consumer parses the text of every increment and strings together the lists it finds. From a stream whose numbers are
finite it has each bar, equity point, trade, candidate and outcome of the run, once and in order, numbered documents, and
the mark of the last one on the last one only (`stream_received`): what `Stream.run_lossless` says of the snapshots holds of
the texts. A number arrives as its seventeen digits.
-/

namespace StratForge

open Json (Text Data Spells)

/-! ### Documents -/

namespace Wire

section
variable {α : Type} [Printed α]

def numberData (x : α) : Data := .number (Decimal.written 17 (Printed.double x))

def candleData (b : Bar α) : Data := .object
  [(lit "timestamp", .number (DateTime.toMillis b.timestamp)), (lit "open", numberData b.open),
    (lit "high", numberData b.high), (lit "low", numberData b.low), (lit "close", numberData b.close),
    (lit "volume", numberData b.volume)]

def equityPointData (e : EquityPoint α) : Data := .object
  [(lit "timestamp", .number (DateTime.toMillis e.timestamp)), (lit "equity", numberData e.portfolioValue),
    (lit "drawdown", numberData e.drawdownPct)]

def candidateData (c : CandidateSnapshot α) : Data := .object
  [(lit "candidateId", .number c.candidateId), (lit "asOfTimestampNs", .number c.asOfTimestampNs),
    (lit "symbolId", .number c.symbolId), (lit "side", .string (candidateSide c.side)),
    (lit "proposedSize", numberData c.proposedSize), (lit "finalSize", numberData c.finalSize),
    (lit "featureVector", .array (c.featureVector.toList.map numberData)),
    (lit "featureSchemaHash", .number c.featureSchemaHash), (lit "gateVerdict", .number c.gateVerdict.toNat),
    (lit "calibratedProbability", numberData c.calibratedProbability)]

def outcomeData (o : OutcomeRecord α) : Data := .object
  [(lit "candidateId", .number o.candidateId), (lit "outcomeType", .number o.outcomeType.toNat),
    (lit "entryTimestampNs", .number o.entryTimestampNs), (lit "exitTimestampNs", .number o.exitTimestampNs),
    (lit "holdingIntervalBars", .number o.holdingIntervalBars), (lit "grossPnl", numberData o.grossPnl),
    (lit "commission", numberData o.commission), (lit "slippage", numberData o.slippage), (lit "netPnl", numberData o.netPnl),
    (lit "completionStatus", .number o.completionStatus.toNat), (lit "profitLabel", .number o.profitLabel)]

theorem spells_double {x : α} (h : Printed.isFinite x = true) : Spells (double x) (numberData x) := .general (by norm_num) h

theorem spells_bool (b : Bool) : Spells (bool b) (.bool b) := by
  have h := Spells.bool b
  cases b <;> exact h

/-- Text that needs no escape. -/
theorem spells_plain {t : Text} (h : Json.IsKey t) : Spells (Json.quoted t) (.string t) := .string h.spells

theorem spells_candle {b : Bar α} (h : b.Finite) : Spells (candle b) (candleData b) := by
  obtain ⟨ho, hh, hl, hc, hv⟩ := h
  rw [candle_eq]
  exact .object (.cons (.of_key (by decide) (.int _)) (.cons (.of_key (by decide) (spells_double ho))
    (.cons (.of_key (by decide) (spells_double hh)) (.cons (.of_key (by decide) (spells_double hl))
      (.cons (.of_key (by decide) (spells_double hc)) (.cons (.of_key (by decide) (spells_double hv)) .nil))))))

theorem spells_equityPoint {e : EquityPoint α} (h : e.Finite) : Spells (equityPoint e) (equityPointData e) := by
  rw [equityPoint_eq]
  exact .object (.cons (.of_key (by decide) (.int _)) (.cons (.of_key (by decide) (spells_double h.1))
    (.cons (.of_key (by decide) (spells_double h.2)) .nil)))

theorem spells_candidate {c : CandidateSnapshot α} (h : c.Finite) : Spells (candidate c) (candidateData c) := by
  obtain ⟨hp, hf, hvector, hprob⟩ := h
  have hside : Spells (Json.quoted (candidateSide c.side)) (.string (candidateSide c.side)) :=
    spells_plain (by cases c.side <;> decide)
  rw [candidate_eq]
  exact .object (.cons (.of_key (by decide) (.nat _)) (.cons (.of_key (by decide) (.nat _))
    (.cons (.of_key (by decide) (.nat _)) (.cons (.of_key (by decide) hside)
      (.cons (.of_key (by decide) (spells_double hp)) (.cons (.of_key (by decide) (spells_double hf))
        (.cons (.of_key (by decide) (.list fun x hx => spells_double (hvector x hx)))
          (.cons (.of_key (by decide) (.nat _)) (.cons (.of_key (by decide) (.nat _))
            (.cons (.of_key (by decide) (spells_double hprob)) .nil))))))))))

theorem spells_outcome {o : OutcomeRecord α} (h : o.Finite) : Spells (outcome o) (outcomeData o) := by
  obtain ⟨hg, hc, hs, hn⟩ := h
  rw [outcome_eq]
  exact .object (.cons (.of_key (by decide) (.nat _)) (.cons (.of_key (by decide) (.nat _))
    (.cons (.of_key (by decide) (.nat _)) (.cons (.of_key (by decide) (.nat _)) (.cons (.of_key (by decide) (.nat _))
      (.cons (.of_key (by decide) (spells_double hg)) (.cons (.of_key (by decide) (spells_double hc))
        (.cons (.of_key (by decide) (spells_double hs)) (.cons (.of_key (by decide) (spells_double hn))
          (.cons (.of_key (by decide) (.nat _)) (.cons (.of_key (by decide) (.int _)) .nil)))))))))))

end

variable {α : Type} [Arith α] [Printed α]

def tradeData (names : List (Option Text)) (t : TradeRecord α) : Data := .object
  [(lit "entryTime", .number t.wire.entryTime), (lit "exitTime", .number t.wire.exitTime),
    (lit "symbol", .string (symbol names t.dataIndex)), (lit "side", .string (side t.wire.side)),
    (lit "entryPrice", numberData t.wire.entryPrice), (lit "exitPrice", numberData t.wire.exitPrice),
    (lit "commission", numberData t.wire.commission), (lit "pnl", numberData t.wire.pnl),
    (lit "quantity", numberData t.wire.quantity), (lit "reason", .string [])]

def metricsData (m : MetricsSnapshot α) : Data := .object
  [(lit "totalPnl", numberData m.wire.totalPnl), (lit "totalReturn", numberData m.wire.totalReturn),
    (lit "totalTrades", .number m.wire.totalTrades), (lit "winningTrades", .number m.wire.winningTrades),
    (lit "losingTrades", .number m.wire.losingTrades), (lit "winRate", numberData m.wire.winRate)]

def incrementData (names : List (Option Text)) (s : IncrementSnapshot α (CandidateSnapshot α) (OutcomeRecord α)) : Data :=
  .object
    [(lit "seq", .number s.seq), (lit "isFinal", .bool s.isFinal),
      (lit "droppedSinceLastFlush", .number s.droppedSinceLastFlush), (lit "processedBars", .number s.processedBars),
      (lit "totalBars", s.totalBars.elim .null fun n => .number n), (lit "newCandles", .array (s.newBars.map candleData)),
      (lit "newEquityPoints", .array (s.newEquityPoints.map equityPointData)),
      (lit "newTrades", .array (s.newTrades.map (tradeData names))), (lit "currentMetrics", metricsData s.currentMetrics),
      (lit "newCandidates", .array (s.newCandidates.map candidateData)),
      (lit "newOutcomes", .array (s.newOutcomes.map outcomeData))]

theorem spells_trade (names : List (Option Text)) {t : TradeRecord α} (h : t.Finite) :
    Spells (trade names t) (tradeData names t) := by
  obtain ⟨hentry, hexit, hcomm, hpnl, hsize⟩ := h
  have hside : Spells (Json.quoted (side t.wire.side)) (.string (side t.wire.side)) :=
    spells_plain (by cases t.wire.side <;> decide)
  have hsymbol : Spells (Json.quoted (jsonEscapeInto (symbol names t.dataIndex))) (.string (symbol names t.dataIndex)) :=
    .string (StandsFor.escaped fun c _ => standsFor_jsonEscape c)
  rw [trade_eq]
  exact .object (.cons (.of_key (by decide) (.int _)) (.cons (.of_key (by decide) (.int _))
    (.cons (.of_key (by decide) hsymbol) (.cons (.of_key (by decide) hside)
      (.cons (.of_key (by decide) (spells_double hentry)) (.cons (.of_key (by decide) (spells_double hexit))
        (.cons (.of_key (by decide) (spells_double hcomm)) (.cons (.of_key (by decide) (spells_double hpnl))
          (.cons (.of_key (by decide) (spells_double hsize)) (.cons (.of_key (by decide) (spells_plain (by decide))) .nil))))))))))

theorem spells_metrics {m : MetricsSnapshot α} (h : m.Finite) : Spells (metrics m) (metricsData m) := by
  rw [metrics_eq]
  exact .object (.cons (.of_key (by decide) (spells_double h.1)) (.cons (.of_key (by decide) (spells_double h.2.1))
    (.cons (.of_key (by decide) (.nat _)) (.cons (.of_key (by decide) (.nat _)) (.cons (.of_key (by decide) (.nat _))
      (.cons (.of_key (by decide) (spells_double h.2.2)) .nil))))))

/-- The text of an increment is that of its document. -/
theorem spells_increment (names : List (Option Text)) {s : IncrementSnapshot α (CandidateSnapshot α) (OutcomeRecord α)}
    (h : s.Finite) : Spells (snapshotToIncrementV2Json s names) (incrementData names s) := by
  have htotal : Spells (s.totalBars.elim (lit "null") Decimal.nat) (s.totalBars.elim .null fun n => .number n) := by
    cases s.totalBars with
    | none => exact .null
    | some n => exact .nat n
  rw [increment_eq]
  exact .object (.cons (.of_key (by decide) (.nat _)) (.cons (.of_key (by decide) (spells_bool _))
    (.cons (.of_key (by decide) (.nat _)) (.cons (.of_key (by decide) (.nat _)) (.cons (.of_key (by decide) htotal)
      (.cons (.of_key (by decide) (.list fun b hb => spells_candle (h.bars b hb)))
        (.cons (.of_key (by decide) (.list fun e he => spells_equityPoint (h.equityPoints e he)))
          (.cons (.of_key (by decide) (.list fun t ht => spells_trade names (h.trades t ht)))
            (.cons (.of_key (by decide) (spells_metrics h.metrics))
              (.cons (.of_key (by decide) (.list fun c hc => spells_candidate (h.candidates c hc)))
                (.cons (.of_key (by decide) (.list fun o ho => spells_outcome (h.outcomes o ho))) .nil)))))))))))

end Wire

/-! ### The consumer -/

namespace Consumer

def member (key : String) : Data → Option Data
  | .object ms => (ms.find? fun m => m.1 == key.toList).map Prod.snd
  | _ => none

/-- The elements of a list that is a member. -/
def items (key : String) (d : Data) : List Data :=
  match member key d with
  | some (.array ds) => ds
  | _ => []

/-- What the documents bring is what the calls have made. -/
structure Received {α : Type} [Arith α] [Printed α] (names : List (Option Text))
    (collector : Option (CandidateCollector (CandidateSnapshot α) (OutcomeRecord α)))
    (calls : List (Stream.Call α (CandidateSnapshot α) (OutcomeRecord α))) (docs : List Data) : Prop where
  candles : docs.flatMap (items "newCandles") = (calls.flatMap Stream.Call.bars).map Wire.candleData
  equityPoints : docs.flatMap (items "newEquityPoints") =
    (Stream.equityPoints 0 (calls.flatMap Stream.Call.readings)).map Wire.equityPointData
  trades : docs.flatMap (items "newTrades") = (calls.flatMap Stream.Call.trades).map (Wire.tradeData names)
  candidates : docs.flatMap (items "newCandidates") =
    (Stream.collected collector CandidateCollector.pendingCandidates Stream.Call.candidates calls).map Wire.candidateData
  outcomes : docs.flatMap (items "newOutcomes") =
    (Stream.collected collector CandidateCollector.pendingOutcomes Stream.Call.outcomes calls).map Wire.outcomeData
  numbered : docs.map (member "seq") = (List.range' 1 docs.length).map fun n => some (.number n)
  ended : docs.map (member "isFinal") = List.replicate (docs.length - 1) (some (.bool false)) ++ [some (.bool true)]

variable {α : Type} [Arith α] [Printed α] (names : List (Option Text))

/-- The lists of the documents, strung together. -/
theorem flatMap_items {A : Type} {key : String}
    {emitted : List (IncrementSnapshot α (CandidateSnapshot α) (OutcomeRecord α))}
    {list : IncrementSnapshot α (CandidateSnapshot α) (OutcomeRecord α) → List A} {f : A → Data}
    (h : ∀ s, items key (Wire.incrementData names s) = (list s).map f) {xs : List A} (hxs : emitted.flatMap list = xs) :
    (emitted.map (Wire.incrementData names)).flatMap (items key) = xs.map f := by
  rw [← hxs, List.flatMap_map, List.map_flatMap]
  exact List.flatMap_congr fun s _ => h s

/-- A stream without infinities and NaN reaches whoever parses it whole. -/
theorem stream_received (config : IncrementBatcher.Config)
    (collector : Option (CandidateCollector (CandidateSnapshot α) (OutcomeRecord α))) (now : Int)
    (calls : List (Stream.Call α (CandidateSnapshot α) (OutcomeRecord α))) (hfeed : ∀ call ∈ calls, call.HasFeed)
    (hfinite : ∀ s ∈ Stream.run config collector now calls, s.Finite) :
    ∃ docs, (Stream.run config collector now calls).map (fun s => Json.parse (snapshotToIncrementV2Json s names)) =
      docs.map some ∧ Received names collector calls docs := by
  have hloss := Stream.run_lossless config collector now calls hfeed
  generalize Stream.run config collector now calls = emitted at hfinite hloss
  refine ⟨emitted.map (Wire.incrementData names), ?_, ?_⟩
  · rw [List.map_map]
    exact List.map_congr_left fun s hs => (Wire.spells_increment names (hfinite s hs)).parse
  · constructor
    · exact flatMap_items names (fun _ => rfl) hloss.bars
    · exact flatMap_items names (fun _ => rfl) hloss.equityPoints
    · exact flatMap_items names (fun _ => rfl) hloss.trades
    · exact flatMap_items names (fun _ => rfl) hloss.candidates
    · exact flatMap_items names (fun _ => rfl) hloss.outcomes
    · rw [List.length_map, ← hloss.seq, List.map_map, List.map_map]
      rfl
    · obtain ⟨before, last, rfl, hlast, hbefore⟩ := hloss.final
      have hfinal : ∀ s : IncrementSnapshot α (CandidateSnapshot α) (OutcomeRecord α),
          member "isFinal" (Wire.incrementData names s) = some (.bool s.isFinal) := fun _ => rfl
      rw [List.map_map, List.map_append, List.length_map, List.length_append, List.length_singleton, Nat.add_sub_cancel]
      refine congrArg₂ (· ++ ·) (List.eq_replicate_iff.2 ⟨List.length_map _, fun d hd => ?_⟩) ?_
      · obtain ⟨s, hs, rfl⟩ := List.mem_map.1 hd
        exact (hfinal s).trans (by rw [hbefore s hs])
      · exact congrArg (fun b => [some (Data.bool b)]) hlast

/-- Two bars, a trade that is closed between them. -/
def barTradeBar : List (Stream.Call ℚ (CandidateSnapshot ℚ) (OutcomeRecord ℚ)) :=
  [.next 10 ⟨some (2, ⟨0, 100, 110, 90, 105, 7⟩), 1000, 1000, 1000⟩, .notifyTrade (.fresh 1 0 0) 5,
    .next 20 ⟨some (2, ⟨60, 105, 106, 95, 99, 4⟩), 900, 1000, 1000⟩]

theorem stream_received_barTradeBar : ∃ docs, (Stream.run {} (some {}) 0 barTradeBar).map
    (fun s => Json.parse (snapshotToIncrementV2Json s [some ['A']])) = docs.map some ∧
    Received [some ['A']] (some {}) barTradeBar docs := by
  refine stream_received [some ['A']] {} (some {}) 0 barTradeBar ?_ fun s _ => ?_
  · intro call hcall
    simp only [barTradeBar, List.mem_cons, List.not_mem_nil, or_false] at hcall
    rcases hcall with rfl | rfl | rfl
    exacts [rfl, trivial, rfl]
  · exact ⟨fun _ _ => ⟨rfl, rfl, rfl, rfl, rfl⟩, fun _ _ => ⟨rfl, rfl⟩, fun _ _ => ⟨rfl, rfl, rfl, rfl, rfl⟩, ⟨rfl, rfl, rfl⟩,
      fun _ _ => ⟨rfl, rfl, fun _ _ => rfl, rfl⟩, fun _ _ => ⟨rfl, rfl, rfl, rfl⟩⟩

end Consumer

end StratForge
