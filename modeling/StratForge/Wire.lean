import StratForge.Contracts
import StratForge.Decimal
import StratForge.Streamed

/-!
# The increment on the wire

`snapshotToIncrementV2Json` writes a snapshot as the consumer reads it. Names are escaped, every count and every
time is an integer, and a `double` is written by the stream as it is. So the text is well formed exactly when the
numbers in it are finite (`wellFormed_increment_iff`).

`Printed`: the `double` that a number of the model is for the stream.
-/

namespace StratForge

open Json (Text IsJson SettledMembers WellFormed)

class Printed (α : Type) where
  double : α → Decimal.Double

instance : Printed ℚ := ⟨Decimal.Double.ofRat⟩

/-- `std::isfinite`. -/
def Printed.isFinite {α : Type} [Printed α] (x : α) : Bool := (double x).isFinite

/-! ### Escapes -/

/-- One character of `json_escape_into`. -/
def jsonEscape (ch : Char) : Text :=
  if ch = '"' then ['\\', '"']
  else if ch = '\\' then ['\\', '\\']
  else if ch = '\n' then ['\\', 'n']
  else if ch = '\r' then ['\\', 'r']
  else if ch = '\t' then ['\\', 't']
  else if ch.toNat < 32 then '\\' :: 'u' :: Decimal.pad 4 (Nat.toDigits 16 ch.toNat)
  else [ch]

/-- `json_escape_into`. -/
def jsonEscapeInto (s : Text) : Text := s.flatMap jsonEscape

/-! ### The writer -/

namespace Wire
variable {α : Type} [Arith α] [Printed α]

/-- A text of the source. -/
def lit (s : String) : Text := s.toList

/-- `os << x` at a precision of 17. -/
def double (x : α) : Text := Decimal.general 17 (Printed.double x)

def bool (b : Bool) : Text := if b then lit "true" else lit "false"

def candle (b : Bar α) : Text :=
  [lit "\x7b\"timestamp\":", Decimal.int (DateTime.toMillis b.timestamp),
    lit ",\"open\":", double b.open,
    lit ",\"high\":", double b.high,
    lit ",\"low\":", double b.low,
    lit ",\"close\":", double b.close,
    lit ",\"volume\":", double b.volume, lit "\x7d"].flatten

def equityPoint (e : EquityPoint α) : Text :=
  [lit "\x7b\"timestamp\":", Decimal.int (DateTime.toMillis e.timestamp),
    lit ",\"equity\":", double e.portfolioValue,
    lit ",\"drawdown\":", double e.drawdownPct, lit "\x7d"].flatten

def side : WireSide → Text
  | .long => lit "long"
  | .short => lit "short"
  | .flat => lit "flat"

/-- `names` are the feeds' names; a null pointer has none. -/
def symbol (names : List (Option Text)) (dataIndex : Nat) : Text := (names[dataIndex]?.join).getD []

def trade (names : List (Option Text)) (t : TradeRecord α) : Text :=
  [lit "\x7b\"entryTime\":", Decimal.int t.wire.entryTime,
    lit ",\"exitTime\":", Decimal.int t.wire.exitTime,
    lit ",\"symbol\":\"", jsonEscapeInto (symbol names t.dataIndex),
    lit "\",\"side\":\"", side t.wire.side,
    lit "\",\"entryPrice\":", double t.wire.entryPrice,
    lit ",\"exitPrice\":", double t.wire.exitPrice,
    lit ",\"commission\":", double t.wire.commission,
    lit ",\"pnl\":", double t.wire.pnl,
    lit ",\"quantity\":", double t.wire.quantity,
    lit ",\"reason\":\"\"", lit "\x7d"].flatten

def metrics (m : MetricsSnapshot α) : Text :=
  [lit "\x7b\"totalPnl\":", double m.wire.totalPnl,
    lit ",\"totalReturn\":", double m.wire.totalReturn,
    lit ",\"totalTrades\":", Decimal.nat m.wire.totalTrades,
    lit ",\"winningTrades\":", Decimal.nat m.wire.winningTrades,
    lit ",\"losingTrades\":", Decimal.nat m.wire.losingTrades,
    lit ",\"winRate\":", double m.wire.winRate, lit "\x7d"].flatten

def candidateSide : CandidateSide → Text
  | .kLong => lit "long"
  | .kShort => lit "short"

def candidate (c : CandidateSnapshot α) : Text :=
  [lit "\x7b\"candidateId\":", Decimal.nat c.candidateId,
    lit ",\"asOfTimestampNs\":", Decimal.nat c.asOfTimestampNs,
    lit ",\"symbolId\":", Decimal.nat c.symbolId,
    lit ",\"side\":\"", candidateSide c.side,
    lit "\",\"proposedSize\":", double c.proposedSize,
    lit ",\"finalSize\":", double c.finalSize,
    lit ",\"featureVector\":[", Json.joined (c.featureVector.toList.map double), lit "]",
    lit ",\"featureSchemaHash\":", Decimal.nat c.featureSchemaHash,
    lit ",\"gateVerdict\":", Decimal.nat c.gateVerdict.toNat,
    lit ",\"calibratedProbability\":", double c.calibratedProbability, lit "\x7d"].flatten

def outcome (o : OutcomeRecord α) : Text :=
  [lit "\x7b\"candidateId\":", Decimal.nat o.candidateId,
    lit ",\"outcomeType\":", Decimal.nat o.outcomeType.toNat,
    lit ",\"entryTimestampNs\":", Decimal.nat o.entryTimestampNs,
    lit ",\"exitTimestampNs\":", Decimal.nat o.exitTimestampNs,
    lit ",\"holdingIntervalBars\":", Decimal.nat o.holdingIntervalBars,
    lit ",\"grossPnl\":", double o.grossPnl,
    lit ",\"commission\":", double o.commission,
    lit ",\"slippage\":", double o.slippage,
    lit ",\"netPnl\":", double o.netPnl,
    lit ",\"completionStatus\":", Decimal.nat o.completionStatus.toNat,
    lit ",\"profitLabel\":", Decimal.int o.profitLabel, lit "\x7d"].flatten

end Wire

variable {α : Type} [Arith α] [Printed α]

open Wire in
/-- `snapshot_to_increment_v2_json`. -/
def snapshotToIncrementV2Json (s : IncrementSnapshot α (CandidateSnapshot α) (OutcomeRecord α))
    (names : List (Option Text)) : Text :=
  [lit "\x7b\"seq\":", Decimal.nat s.seq,
    lit ",\"isFinal\":", Wire.bool s.isFinal,
    lit ",\"droppedSinceLastFlush\":", Decimal.nat s.droppedSinceLastFlush,
    lit ",\"processedBars\":", Decimal.nat s.processedBars,
    lit ",\"totalBars\":", s.totalBars.elim (lit "null") Decimal.nat,
    lit ",\"newCandles\":[", Json.joined (s.newBars.map Wire.candle), lit "]",
    lit ",\"newEquityPoints\":[", Json.joined (s.newEquityPoints.map Wire.equityPoint), lit "]",
    lit ",\"newTrades\":[", Json.joined (s.newTrades.map (Wire.trade names)), lit "]",
    lit ",\"currentMetrics\":", Wire.metrics s.currentMetrics,
    lit ",\"newCandidates\":[", Json.joined (s.newCandidates.map Wire.candidate), lit "]",
    lit ",\"newOutcomes\":[", Json.joined (s.newOutcomes.map Wire.outcome), lit "]", lit "\x7d"].flatten

/-! ### Strings -/

/-- Characters that are escaped one by one make a string. -/
theorem exists_str_flatMap {esc : Char → Text} {t : Text} (h : ∀ c ∈ t, ∃ s : Json.Str, Json.Str.raw s = esc c) :
    ∃ s : Json.Str, Json.Str.raw s = t.flatMap esc := by
  induction t with
  | nil => exact ⟨[], rfl⟩
  | cons c t ih =>
    obtain ⟨⟨s, hs⟩, ht⟩ := List.forall_mem_cons.1 h
    obtain ⟨s', hs'⟩ := ih ht
    refine ⟨s ++ s', ?_⟩
    rw [List.flatMap_cons, ← hs, ← hs']
    exact List.flatMap_append

theorem exists_str_control (n : Fin 32) :
    ∃ s : Json.Str, Json.Str.raw s = '\\' :: 'u' :: Decimal.pad 4 (Nat.toDigits 16 n) := by
  have hlen : (Decimal.pad 4 (Nat.toDigits 16 n)).length = 4 := by revert n; decide
  have hhex : (Decimal.pad 4 (Nat.toDigits 16 n)).all Json.isHex = true := by revert n; decide
  have hval : (⟨_, hlen, hhex⟩ : Json.Hex4).value < 0xD800 := by revert n; decide
  refine ⟨[.unicode ⟨_, hlen, hhex⟩ (.inl hval)], ?_⟩
  exact List.append_nil _

theorem exists_str_jsonEscape (c : Char) : ∃ s : Json.Str, Json.Str.raw s = jsonEscape c := by
  unfold jsonEscape
  split_ifs with hq hb hn hr ht hctl
  · exact ⟨[.escape .quotationMark], rfl⟩
  · exact ⟨[.escape .reverseSolidus], rfl⟩
  · exact ⟨[.escape .lineFeed], rfl⟩
  · exact ⟨[.escape .carriageReturn], rfl⟩
  · exact ⟨[.escape .tab], rfl⟩
  · exact exists_str_control ⟨c.toNat, hctl⟩
  · exact ⟨[.plain c ⟨hq, hb, not_lt.1 hctl⟩], rfl⟩

theorem isJson_quoted {t : Text} (h : ∃ s : Json.Str, Json.Str.raw s = t) : IsJson (Json.quoted t) := by
  obtain ⟨s, rfl⟩ := h
  exact .string s

theorem isJson_literal {t : Text} (h : Json.IsKey t) : IsJson (Json.quoted t) := isJson_quoted h.exists_str

/-! ### The numbers -/

section
variable {α : Type} [Printed α]

def Bar.Finite (b : Bar α) : Prop :=
  Printed.isFinite b.open ∧ Printed.isFinite b.high ∧ Printed.isFinite b.low ∧ Printed.isFinite b.close ∧
    Printed.isFinite b.volume

def EquityPoint.Finite (e : EquityPoint α) : Prop := Printed.isFinite e.portfolioValue ∧ Printed.isFinite e.drawdownPct

def CandidateSnapshot.Finite (c : CandidateSnapshot α) : Prop :=
  Printed.isFinite c.proposedSize ∧ Printed.isFinite c.finalSize ∧ (∀ x ∈ c.featureVector.toList, Printed.isFinite x) ∧
    Printed.isFinite c.calibratedProbability

def OutcomeRecord.Finite (o : OutcomeRecord α) : Prop :=
  Printed.isFinite o.grossPnl ∧ Printed.isFinite o.commission ∧ Printed.isFinite o.slippage ∧ Printed.isFinite o.netPnl

variable [Arith α]

def TradeRecord.Finite (t : TradeRecord α) : Prop :=
  Printed.isFinite t.entryPrice ∧ Printed.isFinite t.exitPrice ∧ Printed.isFinite t.commission ∧ Printed.isFinite t.pnl ∧
    Printed.isFinite (Arith.abs t.size)

def MetricsSnapshot.Finite (m : MetricsSnapshot α) : Prop :=
  Printed.isFinite (m.realizedPnl + m.unrealizedPnl) ∧ Printed.isFinite m.totalReturnPct ∧ Printed.isFinite m.winRatePct

/-- Every number that is written is finite. -/
structure IncrementSnapshot.Finite (s : IncrementSnapshot α (CandidateSnapshot α) (OutcomeRecord α)) : Prop where
  bars : ∀ b ∈ s.newBars, b.Finite
  equityPoints : ∀ e ∈ s.newEquityPoints, e.Finite
  trades : ∀ t ∈ s.newTrades, t.Finite
  metrics : s.currentMetrics.Finite
  candidates : ∀ c ∈ s.newCandidates, c.Finite
  outcomes : ∀ o ∈ s.newOutcomes, o.Finite

end

namespace Wire

section
variable {α : Type} [Printed α]

theorem settled_double (x : α) : Json.Settled (double x) (Printed.isFinite x = true) := Decimal.settled_general 17 _

theorem isJson_bool (b : Bool) : IsJson (bool b) := by
  have h := Json.isJson_bool b
  cases b <;> exact h

theorem candle_eq (b : Bar α) : candle b = Json.object
    [(lit "timestamp", Decimal.int (DateTime.toMillis b.timestamp)), (lit "open", double b.open),
      (lit "high", double b.high), (lit "low", double b.low), (lit "close", double b.close),
      (lit "volume", double b.volume)] := by
  rw [Json.object_eq]
  rfl

theorem settled_candle (b : Bar α) : Json.Settled (candle b) b.Finite := by
  rw [candle_eq]
  exact (Json.Settled.object (.cons_json (by decide) (Decimal.isJson_int _) (.cons (by decide) (settled_double _)
    (.cons (by decide) (settled_double _) (.cons (by decide) (settled_double _) (.cons (by decide) (settled_double _)
      (.cons (by decide) (settled_double _) .nil))))))).congr (by simp [Bar.Finite])

theorem equityPoint_eq (e : EquityPoint α) : equityPoint e = Json.object
    [(lit "timestamp", Decimal.int (DateTime.toMillis e.timestamp)), (lit "equity", double e.portfolioValue),
      (lit "drawdown", double e.drawdownPct)] := by
  rw [Json.object_eq]
  rfl

theorem settled_equityPoint (e : EquityPoint α) : Json.Settled (equityPoint e) e.Finite := by
  rw [equityPoint_eq]
  exact (Json.Settled.object (.cons_json (by decide) (Decimal.isJson_int _) (.cons (by decide) (settled_double _)
    (.cons (by decide) (settled_double _) .nil)))).congr (by simp [EquityPoint.Finite])

theorem candidate_eq (c : CandidateSnapshot α) : candidate c = Json.object
    [(lit "candidateId", Decimal.nat c.candidateId), (lit "asOfTimestampNs", Decimal.nat c.asOfTimestampNs),
      (lit "symbolId", Decimal.nat c.symbolId), (lit "side", Json.quoted (candidateSide c.side)),
      (lit "proposedSize", double c.proposedSize), (lit "finalSize", double c.finalSize),
      (lit "featureVector", Json.array (c.featureVector.toList.map double)),
      (lit "featureSchemaHash", Decimal.nat c.featureSchemaHash), (lit "gateVerdict", Decimal.nat c.gateVerdict.toNat),
      (lit "calibratedProbability", double c.calibratedProbability)] := by
  rw [Json.object_eq]
  simp only [Json.membersThen, Json.quoted_append, Json.array_append]
  rfl

theorem settled_candidate (c : CandidateSnapshot α) : Json.Settled (candidate c) c.Finite := by
  have hside : IsJson (Json.quoted (candidateSide c.side)) := isJson_literal (by cases c.side <;> decide)
  have hvector : Json.Settled (Json.array (c.featureVector.toList.map double)) (∀ x ∈ c.featureVector.toList, Printed.isFinite x) :=
    .array fun x _ => settled_double x
  rw [candidate_eq]
  exact (Json.Settled.object (.cons_json (by decide) (Decimal.isJson_nat _) (.cons_json (by decide) (Decimal.isJson_nat _)
    (.cons_json (by decide) (Decimal.isJson_nat _) (.cons_json (by decide) hside (.cons (by decide) (settled_double _)
      (.cons (by decide) (settled_double _) (.cons (by decide) hvector (.cons_json (by decide) (Decimal.isJson_nat _)
        (.cons_json (by decide) (Decimal.isJson_nat _) (.cons (by decide) (settled_double _) .nil))))))))))).congr
    (by simp [CandidateSnapshot.Finite])

set_option maxRecDepth 2000 in
theorem outcome_eq (o : OutcomeRecord α) : outcome o = Json.object
    [(lit "candidateId", Decimal.nat o.candidateId), (lit "outcomeType", Decimal.nat o.outcomeType.toNat),
      (lit "entryTimestampNs", Decimal.nat o.entryTimestampNs), (lit "exitTimestampNs", Decimal.nat o.exitTimestampNs),
      (lit "holdingIntervalBars", Decimal.nat o.holdingIntervalBars), (lit "grossPnl", double o.grossPnl),
      (lit "commission", double o.commission), (lit "slippage", double o.slippage), (lit "netPnl", double o.netPnl),
      (lit "completionStatus", Decimal.nat o.completionStatus.toNat), (lit "profitLabel", Decimal.int o.profitLabel)] := by
  rw [Json.object_eq]
  rfl

theorem settled_outcome (o : OutcomeRecord α) : Json.Settled (outcome o) o.Finite := by
  rw [outcome_eq]
  exact (Json.Settled.object (.cons_json (by decide) (Decimal.isJson_nat _) (.cons_json (by decide) (Decimal.isJson_nat _)
    (.cons_json (by decide) (Decimal.isJson_nat _) (.cons_json (by decide) (Decimal.isJson_nat _)
      (.cons_json (by decide) (Decimal.isJson_nat _) (.cons (by decide) (settled_double _)
        (.cons (by decide) (settled_double _) (.cons (by decide) (settled_double _) (.cons (by decide) (settled_double _)
          (.cons_json (by decide) (Decimal.isJson_nat _) (.cons_json (by decide) (Decimal.isJson_int _) .nil)))))))))))).congr
    (by simp [OutcomeRecord.Finite])

end

variable {α : Type} [Arith α] [Printed α]

theorem trade_eq (names : List (Option Text)) (t : TradeRecord α) : trade names t = Json.object
    [(lit "entryTime", Decimal.int t.wire.entryTime), (lit "exitTime", Decimal.int t.wire.exitTime),
      (lit "symbol", Json.quoted (jsonEscapeInto (symbol names t.dataIndex))), (lit "side", Json.quoted (side t.wire.side)),
      (lit "entryPrice", double t.wire.entryPrice), (lit "exitPrice", double t.wire.exitPrice),
      (lit "commission", double t.wire.commission), (lit "pnl", double t.wire.pnl), (lit "quantity", double t.wire.quantity),
      (lit "reason", Json.quoted [])] := by
  rw [Json.object_eq]
  simp only [Json.membersThen, Json.quoted_append]
  rfl

theorem settled_trade (names : List (Option Text)) (t : TradeRecord α) : Json.Settled (trade names t) t.Finite := by
  have hsymbol : IsJson (Json.quoted (jsonEscapeInto (symbol names t.dataIndex))) :=
    isJson_quoted (exists_str_flatMap fun c _ => exists_str_jsonEscape c)
  have hside : IsJson (Json.quoted (side t.wire.side)) := isJson_literal (by cases t.wire.side <;> decide)
  have hreason : IsJson (Json.quoted []) := isJson_literal (by decide)
  rw [trade_eq]
  exact (Json.Settled.object (.cons_json (by decide) (Decimal.isJson_int _) (.cons_json (by decide) (Decimal.isJson_int _)
    (.cons_json (by decide) hsymbol (.cons_json (by decide) hside (.cons (by decide) (settled_double _)
      (.cons (by decide) (settled_double _) (.cons (by decide) (settled_double _) (.cons (by decide) (settled_double _)
        (.cons (by decide) (settled_double _) (.cons_json (by decide) hreason .nil))))))))))).congr
    (by simp [TradeRecord.Finite, TradeRecord.wire])

theorem metrics_eq (m : MetricsSnapshot α) : metrics m = Json.object
    [(lit "totalPnl", double m.wire.totalPnl), (lit "totalReturn", double m.wire.totalReturn),
      (lit "totalTrades", Decimal.nat m.wire.totalTrades), (lit "winningTrades", Decimal.nat m.wire.winningTrades),
      (lit "losingTrades", Decimal.nat m.wire.losingTrades), (lit "winRate", double m.wire.winRate)] := by
  rw [Json.object_eq]
  rfl

theorem settled_metrics (m : MetricsSnapshot α) : Json.Settled (metrics m) m.Finite := by
  rw [metrics_eq]
  exact (Json.Settled.object (.cons (by decide) (settled_double _) (.cons (by decide) (settled_double _)
    (.cons_json (by decide) (Decimal.isJson_nat _) (.cons_json (by decide) (Decimal.isJson_nat _)
      (.cons_json (by decide) (Decimal.isJson_nat _) (.cons (by decide) (settled_double _) .nil))))))).congr
    (by simp [MetricsSnapshot.Finite, MetricsSnapshot.wire])

end Wire

/-! ### The increment -/

section
variable {α : Type} [Arith α] [Printed α] (s : IncrementSnapshot α (CandidateSnapshot α) (OutcomeRecord α))
  (names : List (Option Text))

open Wire

set_option maxRecDepth 2000 in
theorem increment_eq : snapshotToIncrementV2Json s names = Json.object
    [(lit "seq", Decimal.nat s.seq), (lit "isFinal", bool s.isFinal),
      (lit "droppedSinceLastFlush", Decimal.nat s.droppedSinceLastFlush), (lit "processedBars", Decimal.nat s.processedBars),
      (lit "totalBars", s.totalBars.elim (lit "null") Decimal.nat), (lit "newCandles", Json.array (s.newBars.map candle)),
      (lit "newEquityPoints", Json.array (s.newEquityPoints.map equityPoint)),
      (lit "newTrades", Json.array (s.newTrades.map (trade names))), (lit "currentMetrics", metrics s.currentMetrics),
      (lit "newCandidates", Json.array (s.newCandidates.map candidate)),
      (lit "newOutcomes", Json.array (s.newOutcomes.map outcome))] := by
  rw [Json.object_eq]
  simp only [Json.membersThen, Json.array_append]
  rfl

/-- The increment is well formed exactly when what it has to write is finite. -/
theorem wellFormed_increment_iff : WellFormed (snapshotToIncrementV2Json s names) ↔ s.Finite := by
  have htotal : IsJson (s.totalBars.elim (lit "null") Decimal.nat) := by
    cases s.totalBars with
    | none => exact Json.isJson_null
    | some n => exact Decimal.isJson_nat n
  rw [increment_eq]
  refine ((Json.Settled.object (.cons_json (by decide) (Decimal.isJson_nat _) (.cons_json (by decide) (isJson_bool _)
    (.cons_json (by decide) (Decimal.isJson_nat _) (.cons_json (by decide) (Decimal.isJson_nat _)
      (.cons_json (by decide) htotal (.cons (by decide) (.array fun b _ => settled_candle b)
        (.cons (by decide) (.array fun e _ => settled_equityPoint e)
          (.cons (by decide) (.array fun t _ => settled_trade names t) (.cons (by decide) (settled_metrics _)
            (.cons (by decide) (.array fun c _ => settled_candidate c)
              (.cons (by decide) (.array fun o _ => settled_outcome o) .nil)))))))))))).congr ?_).wellFormed_iff
  constructor
  · rintro ⟨hb, he, ht, hm, hc, ho, -⟩
    exact ⟨hb, he, ht, hm, hc, ho⟩
  · rintro ⟨hb, he, ht, hm, hc, ho⟩
    exact ⟨hb, he, ht, hm, hc, ho, trivial⟩

end

end StratForge
