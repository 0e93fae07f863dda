import StratForge.JsonTree

/-!
# The result document as a tree (`engine/detail/backtest_result_serializer.hpp`)

`serialize_results` drives the writer through a tree (`writeResults_eq`): its calls, with the conditions some of them stand
under, are those that `JsonTree.write` makes for `resultsTree`. So the document parses to that tree
(`results_parse`), with every closed trade of the broker, every bar of feed 0 and a point of the curve for each value the
observer has, in their order.
-/

namespace StratForge
variable {α W : Type}

namespace JsonTree
open JsonWriter
variable [Printed α]

theorem writeMembers_append (ms ns : List (String × JsonTree α)) (w : JsonWriter) :
    writeMembers (ms ++ ns) w = writeMembers ns (writeMembers ms w) := by
  induction ms generalizing w with
  | nil => rfl
  | cons m ms ih => exact ih _

/-- A loop that writes one value each time writes the elements of a list. -/
theorem foldl_write {A : Type*} {step : JsonWriter → A → JsonWriter} {f : A → JsonTree α}
    (h : ∀ w x, step w x = (f x).write w) (xs : List A) (w : JsonWriter) : xs.foldl step w = writeItems (xs.map f) w := by
  induction xs generalizing w with
  | nil => rfl
  | cons x xs ih =>
    rw [List.foldl_cons, h, ih]
    rfl

end JsonTree

namespace SerializationContext
variable [Arith α] [Printed α] (ctx : SerializationContext α W)

open JsonWriter JsonTree

/-! ### The tree -/

def feedBarCountTree (x : Nat × Nat) : JsonTree α :=
  let interval : List (String × JsonTree α) := match ctx.feedIntervals[x.2]? with
    | some interval => if interval.isEmpty then [] else [("interval", .string interval)]
    | none => []
  .object ([("index", .uint x.2)] ++ interval ++ [("bars", .uint x.1)])

def metricsTree (totalPnl : α) (ext : ExtendedMetrics α) : JsonTree α :=
  let totalTrades := (ctx.tradeAnalyzer.map fun a => a.closedTotal).getD 0
  let winning := (ctx.tradeAnalyzer.map fun a => a.wonTotal).getD 0
  .object
    [("totalPnl", .double totalPnl 2),
      ("totalReturn", .double (if 0 < ctx.initialCash then totalPnl / ctx.initialCash * 100.0 else 0) 4),
      ("annualizedReturn", .double ext.annualizedReturn 4),
      ("sharpeRatio", .double (ctx.sharpeRatio.getD 0) 4),
      ("sortinoRatio", .double ext.sortinoRatio 4),
      ("calmarRatio", .double ext.calmarRatio 4),
      ("maxDrawdown", .double ((ctx.drawdown.map fun d => -d.1).getD 0) 2),
      ("maxDrawdownDuration", .double ((ctx.drawdown.map fun d => Arith.ofCount d.2).getD 0) 0),
      ("totalTrades", .uint totalTrades),
      ("winningTrades", .uint winning),
      ("losingTrades", .uint ((ctx.tradeAnalyzer.map fun a => a.lostTotal).getD 0)),
      ("winRate", .double (if 0 < totalTrades then Arith.ofCount winning / Arith.ofCount totalTrades else 0) 4),
      ("averageWin", .double ((ctx.tradeAnalyzer.map ReportAnalysis.wonAverage).getD 0) 2),
      ("averageLoss", .double ((ctx.tradeAnalyzer.map ReportAnalysis.lostAverage).getD 0) 2),
      ("profitFactor", .double ((ctx.tradeAnalyzer.map profitFactor).getD 0) 4),
      ("expectancy", .double ext.expectancy 2),
      ("volatility", .double ext.volatility 4),
      ("valueAtRisk95", .double ext.valueAtRisk95 2)]

/-- A value of the curve, its time and the highest one up to it. -/
def curvePoint (value : α) (dt : DateTime) (peak : α) : JsonTree α := .object
  [("timestamp", .int (DateTime.toMillis dt)), ("equity", .double value 2),
    ("drawdown", .double (if 0 < peak then peak - value else 0) 2)]

def curveTrees : α → List (α × DateTime) → List (JsonTree α)
  | _, [] => []
  | peak, (value, dt) :: rest =>
    let peak := if peak < value then value else peak
    curvePoint value dt peak :: curveTrees peak rest

def tradeTree (t : ReportTrade α) : JsonTree α := .object
  [("entryTime", .int t.entryTime), ("exitTime", .int t.exitTime), ("symbol", .string ctx.symbol),
    ("side", .string (if t.side = .buy then "buy".toList else "sell".toList)), ("entryPrice", .double t.entryPrice 6),
    ("exitPrice", .double t.exitPrice 6), ("quantity", .double t.quantity 6), ("pnl", .double t.pnl 2),
    ("commission", .double t.commission 4), ("reason", .string [])]

def candleTree (row : Row α) : JsonTree α := .object
  [("timestamp", .int (DateTime.toMillis row.datetime)), ("open", .double row.open 6), ("high", .double row.high 6),
    ("low", .double row.low 6), ("close", .double row.close 6), ("volume", .double row.volume 0)]

def headMembers : List (String × JsonTree α) :=
  [("success", .bool true), ("errorMessage", .string []), ("startTime", .int ctx.startTime), ("endTime", .int ctx.endTime),
    ("executionTimeMs", .int ctx.executionTimeMs), ("executionCycles", .int 0)] ++
    (if 0 < ctx.warmupEndTimestampMs then [("warmupEndTimestamp", .int ctx.warmupEndTimestampMs)] else []) ++
    if ctx.feedBarCounts.isEmpty then [] else [("feedBarCounts", .array (ctx.feedBarCounts.zipIdx.map ctx.feedBarCountTree))]

def curve : List (JsonTree α) :=
  match ctx.cashValue, ctx.feed0 with
  | some equity, some feed => curveTrees 0 (equity.zip feed.datetime.data)
  | _, _ => []

def trades : List (JsonTree α) :=
  match ctx.broker, ctx.dataFeeds with
  | some b, some feeds => (serializeTrades b feeds).map ctx.tradeTree
  | _, _ => []

def candles : List (JsonTree α) := (ctx.feed0.elim [] fun feed => feed.lines.data).map candleTree

/-- The document of a run. -/
def resultsTree (totalPnl : α) (ext : ExtendedMetrics α) : JsonTree α := .object
  (ctx.headMembers ++
    [("metrics", ctx.metricsTree totalPnl ext), ("equityCurve", .array ctx.curve), ("trades", .array ctx.trades),
      ("candles", .array ctx.candles),
      ("dryRunInfo", .object [("isDryRun", .bool false), ("totalBars", .uint ctx.barsProcessed), ("totalLlmCalls", .uint 0),
        ("llmCalls", .array [])])])

/-! ### The writer's calls are those for the tree -/

omit [Arith α] in
theorem writeFeedBarCount_eq (w : JsonWriter) (x : Nat × Nat) :
    ctx.writeFeedBarCount w x = (ctx.feedBarCountTree x).write w := by
  unfold writeFeedBarCount feedBarCountTree
  cases ctx.feedIntervals[x.2]? with
  | none => rfl
  | some interval => cases interval <;> rfl

theorem writeEquityCurve_eq (peak : α) (points : List (α × DateTime)) (w : JsonWriter) :
    writeEquityCurve peak points w = writeItems (curveTrees peak points) w := by
  induction points generalizing peak w with
  | nil => rfl
  | cons p points ih =>
    obtain ⟨value, dt⟩ := p
    exact ih _ _

theorem writeTrade_eq (feed : DataFeed α) (w : JsonWriter) (x : Trade α × α) :
    ctx.writeTrade feed w x = (ctx.tradeTree (x.1.report feed x.2)).write w := by
  unfold writeTrade tradeTree
  dsimp only
  cases (x.1.report feed x.2).side <;> rfl

omit [Arith α] in
theorem writeHead_eq (w : JsonWriter) : ctx.writeHead w = writeMembers ctx.headMembers w := by
  unfold writeHead headMembers
  rw [writeMembers_append, writeMembers_append]
  dsimp only
  have hcounts : ∀ w, ctx.feedBarCounts.zipIdx.foldl ctx.writeFeedBarCount w =
      writeItems (ctx.feedBarCounts.zipIdx.map ctx.feedBarCountTree) w := foldl_write ctx.writeFeedBarCount_eq _
  rw [hcounts]
  split_ifs <;> rfl

theorem writeCurve_eq (w : JsonWriter) : ctx.writeCurve w = writeItems ctx.curve w := by
  unfold writeCurve curve
  cases ctx.cashValue with
  | none => rfl
  | some equity =>
    cases ctx.feed0 with
    | none => rfl
    | some feed => exact writeEquityCurve_eq ..

theorem writeTrades_eq (w : JsonWriter) : ctx.writeTrades w = writeItems ctx.trades w := by
  unfold writeTrades trades feed0
  cases ctx.broker with
  | none => rfl
  | some b =>
    cases ctx.dataFeeds with
    | none => rfl
    | some feeds =>
      cases feeds with
      | nil => rfl
      | cons feed feeds =>
        show b.closedTrades.foldl (ctx.writeTrade feed) w =
          writeItems ((b.closedTrades.map fun x => x.1.report feed x.2).map ctx.tradeTree) w
        rw [List.map_map]
        exact foldl_write (ctx.writeTrade_eq feed) _ _

omit [Arith α] in
theorem writeCandles_eq (w : JsonWriter) : ctx.writeCandles w = writeItems ctx.candles w := by
  unfold writeCandles candles
  cases ctx.feed0 with
  | none => rfl
  | some feed => exact foldl_write (f := candleTree) (fun _ _ => rfl) _ _

/-- The serializer goes through the tree. -/
theorem writeResults_eq (totalPnl : α) (ext : ExtendedMetrics α) :
    ctx.writeResults totalPnl ext = (ctx.resultsTree totalPnl ext).write {} := by
  unfold writeResults resultsTree
  dsimp only
  rw [JsonTree.write, writeMembers_append, ← writeHead_eq, writeCurve_eq, writeTrades_eq, writeCandles_eq]
  rfl

/-- A report is made exactly when the broker can be valued, and it parses to the tree. -/
theorem results_parse (compute : List α → List α → α → ExtendedMetrics α) :
    (serializeResults compute ctx).map Json.parse =
      ctx.totalPnl.map fun pnl => some (ctx.resultsTree pnl (ctx.extended compute)).data := by
  unfold serializeResults
  cases ctx.totalPnl with
  | error e => rfl
  | ok pnl =>
    show (Except.ok (Json.parse (ctx.writeResults pnl (ctx.extended compute)).ss) : Except Error (Option Json.Data)) = _
    rw [writeResults_eq, (parse_write (ctx.resultsTree pnl (ctx.extended compute))).2.1]
    rfl

end SerializationContext

end StratForge
