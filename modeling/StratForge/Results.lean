import StratForge.Marks
import StratForge.Wire

/-!
# The results of a run

`serialize_results` writes through a `JsonWriter`, which puts the commas, escapes what it can and leaves out what it
cannot, and writes `null` for a number that is not finite. `Adds f ts`: `f` adds the texts `ts` to the innermost list
of the writer. What it writes of a context is well formed whatever the numbers and the names are
(`wellFormed_results`).

`make_error_result` escapes three characters only: its text is well formed exactly when the message has no other
control character (`wellFormed_error_iff`).
-/

namespace StratForge

open Json (Text IsJson IsKey WellFormed)

/-! ### The writer -/

/-- The innermost open list is the head of `needsComma`. -/
structure JsonWriter where
  ss : Text := []
  needsComma : List Bool := []

namespace JsonWriter
variable {α : Type} [Printed α]

def put (t : Text) (w : JsonWriter) : JsonWriter := { w with ss := w.ss ++ t }

def commaIfNeeded (w : JsonWriter) : JsonWriter := if w.needsComma.head? = some true then w.put [','] else w

def setComma (b : Bool) (w : JsonWriter) : JsonWriter :=
  match w.needsComma with
  | [] => w
  | _ :: outer => { w with needsComma := b :: outer }

def markWritten (w : JsonWriter) : JsonWriter := w.setComma true

def beginWith (c : Char) (w : JsonWriter) : JsonWriter :=
  let w := w.commaIfNeeded.put [c]
  { w with needsComma := false :: w.needsComma }

def endWith (c : Char) (w : JsonWriter) : JsonWriter :=
  ({ w with needsComma := w.needsComma.tail }.put [c]).markWritten

def beginObject : JsonWriter → JsonWriter := beginWith '\x7b'

def endObject : JsonWriter → JsonWriter := endWith '\x7d'

def beginArray : JsonWriter → JsonWriter := beginWith '['

def endArray : JsonWriter → JsonWriter := endWith ']'

/-- One character of `write_string`; the other control characters are skipped. -/
def escape (c : Char) : Text :=
  if c = '"' then ['\\', '"']
  else if c = '\\' then ['\\', '\\']
  else if c = '\n' then ['\\', 'n']
  else if c = '\r' then ['\\', 'r']
  else if c = '\t' then ['\\', 't']
  else if c.toNat < 32 then []
  else [c]

/-- `write_string`. -/
def stringText (s : Text) : Text := '"' :: (s.flatMap escape ++ ['"'])

def key (k : String) (w : JsonWriter) : JsonWriter := (w.commaIfNeeded.put (stringText k.toList ++ [':'])).setComma false

/-- What the `value_` functions have in common. -/
def value (t : Text) (w : JsonWriter) : JsonWriter := (w.commaIfNeeded.put t).markWritten

def valueString (v : Text) : JsonWriter → JsonWriter := value (stringText v)

def valueBool (v : Bool) : JsonWriter → JsonWriter := value (if v then "true".toList else "false".toList)

def valueInt (v : Int) : JsonWriter → JsonWriter := value (Decimal.int v)

def valueUint (v : Nat) : JsonWriter → JsonWriter := value (Decimal.nat v)

def doubleText (v : α) (precision : Nat) : Text :=
  if Printed.isFinite v then Decimal.fixed precision (Printed.double v) else "null".toList

def valueDouble (v : α) (precision : Nat) : JsonWriter → JsonWriter := value (doubleText v precision)

def kvString (k : String) (v : Text) (w : JsonWriter) : JsonWriter := valueString v (key k w)

def kvBool (k : String) (v : Bool) (w : JsonWriter) : JsonWriter := valueBool v (key k w)

def kvInt (k : String) (v : Int) (w : JsonWriter) : JsonWriter := valueInt v (key k w)

def kvUint (k : String) (v : Nat) (w : JsonWriter) : JsonWriter := valueUint v (key k w)

def kvDouble (k : String) (v : α) (precision : Nat) (w : JsonWriter) : JsonWriter := valueDouble v precision (key k w)

end JsonWriter

/-! ### The results -/

/-- What `ExtendedMetricsCalculator::compute` gives the report. -/
structure ExtendedMetrics (α : Type) where
  annualizedReturn : α
  sortinoRatio : α
  calmarRatio : α
  volatility : α
  valueAtRisk95 : α
  expectancy : α

/-- `Analysis` with its averages. -/
structure ReportAnalysis (α : Type) extends Analysis α where
  wonAverage : α
  lostAverage : α

/-- The analyzers and the observer as what the report reads of them. -/
structure SerializationContext (α W : Type) where
  broker : Option (BackBroker α W)
  dataFeeds : Option (List (DataFeed α))
  tradeAnalyzer : Option (ReportAnalysis α)
  sharpeRatio : Option α
  /-- The drawdown and its length in bars. -/
  drawdown : Option (α × Nat)
  cashValue : Option (List α)
  initialCash : α
  barsProcessed : Nat
  executionTimeMs : Int
  symbol : Text
  warmupEndTimestampMs : Int
  feedBarCounts : List Nat
  feedIntervals : List Text

namespace SerializationContext
variable {α W : Type} [Arith α] [Printed α]

open JsonWriter

def feed0 (ctx : SerializationContext α W) : Option (DataFeed α) := ctx.dataFeeds.bind List.head?

def startTime (ctx : SerializationContext α W) : Int :=
  match ctx.feed0 with
  | some feed => if 0 < feed.size then (feed.datetime.data.head?.map DateTime.toMillis).getD 0 else 0
  | none => 0

def endTime (ctx : SerializationContext α W) : Int :=
  match ctx.feed0 with
  | some feed => if 0 < feed.size then (feed.datetime.data.getLast?.map DateTime.toMillis).getD 0 else 0
  | none => 0

/-- Realized and unrealized. -/
def totalPnl (ctx : SerializationContext α W) : Except Error α :=
  match ctx.broker, ctx.dataFeeds with
  | some b, some feeds => (b.portfolioValue feeds).map (· - ctx.initialCash)
  | _, _ => .ok 0

def profitFactor (a : ReportAnalysis α) : α :=
  if a.lostPnl < -1e-10 then a.wonPnl / -a.lostPnl else if 0 < a.wonPnl then 1e9 else 0

/-- From the equity curve, when there is one. -/
def extended (ctx : SerializationContext α W) (compute : List α → List α → α → ExtendedMetrics α) : ExtendedMetrics α :=
  match ctx.cashValue, ctx.tradeAnalyzer with
  | some equity, some _ =>
    if 1 < equity.length then
      compute equity ((ctx.broker.elim [] BackBroker.closedTrades).map fun x => x.1.pnlcomm) ctx.initialCash
    else ⟨0, 0, 0, 0, 0, 0⟩
  | _, _ => ⟨0, 0, 0, 0, 0, 0⟩

def writeFeedBarCount (ctx : SerializationContext α W) (w : JsonWriter) (x : Nat × Nat) : JsonWriter :=
  let w := kvUint "index" x.2 (beginObject w)
  let w := match ctx.feedIntervals[x.2]? with
    | some interval => if interval.isEmpty then w else kvString "interval" interval w
    | none => w
  endObject (kvUint "bars" x.1 w)

def writeMetrics (ctx : SerializationContext α W) (totalPnl : α) (ext : ExtendedMetrics α) (w : JsonWriter) : JsonWriter :=
  let totalTrades := (ctx.tradeAnalyzer.map fun a => a.closedTotal).getD 0
  let winning := (ctx.tradeAnalyzer.map fun a => a.wonTotal).getD 0
  let losing := (ctx.tradeAnalyzer.map fun a => a.lostTotal).getD 0
  let winRate : α := if 0 < totalTrades then Arith.ofCount winning / Arith.ofCount totalTrades else 0
  let totalReturn : α := if 0 < ctx.initialCash then totalPnl / ctx.initialCash * 100.0 else 0
  w |> kvDouble "totalPnl" totalPnl 2
    |> kvDouble "totalReturn" totalReturn 4
    |> kvDouble "annualizedReturn" ext.annualizedReturn 4
    |> kvDouble "sharpeRatio" (ctx.sharpeRatio.getD 0) 4
    |> kvDouble "sortinoRatio" ext.sortinoRatio 4
    |> kvDouble "calmarRatio" ext.calmarRatio 4
    |> kvDouble "maxDrawdown" ((ctx.drawdown.map fun d => -d.1).getD 0) 2
    |> kvDouble "maxDrawdownDuration" ((ctx.drawdown.map fun d => Arith.ofCount d.2).getD (0 : α)) 0
    |> kvUint "totalTrades" totalTrades
    |> kvUint "winningTrades" winning
    |> kvUint "losingTrades" losing
    |> kvDouble "winRate" winRate 4
    |> kvDouble "averageWin" ((ctx.tradeAnalyzer.map ReportAnalysis.wonAverage).getD 0) 2
    |> kvDouble "averageLoss" ((ctx.tradeAnalyzer.map ReportAnalysis.lostAverage).getD 0) 2
    |> kvDouble "profitFactor" ((ctx.tradeAnalyzer.map profitFactor).getD 0) 4
    |> kvDouble "expectancy" ext.expectancy 2
    |> kvDouble "volatility" ext.volatility 4
    |> kvDouble "valueAtRisk95" ext.valueAtRisk95 2

def writeEquityCurve : α → List (α × DateTime) → JsonWriter → JsonWriter
  | _, [], w => w
  | peak, (value, dt) :: rest, w =>
    let peak := if peak < value then value else peak
    let dd := if 0 < peak then peak - value else 0
    writeEquityCurve peak rest <|
      endObject (kvDouble "drawdown" dd 2 (kvDouble "equity" value 2 (kvInt "timestamp" (DateTime.toMillis dt) (beginObject w))))

def writeTrade (ctx : SerializationContext α W) (feed : DataFeed α) (w : JsonWriter) (x : Trade α × α) : JsonWriter :=
  let t := x.1.report feed x.2
  beginObject w
    |> kvInt "entryTime" t.entryTime
    |> kvInt "exitTime" t.exitTime
    |> kvString "symbol" ctx.symbol
    |> kvString "side" (match t.side with | .buy => "buy".toList | .sell => "sell".toList)
    |> kvDouble "entryPrice" t.entryPrice 6
    |> kvDouble "exitPrice" t.exitPrice 6
    |> kvDouble "quantity" t.quantity 6
    |> kvDouble "pnl" t.pnl 2
    |> kvDouble "commission" t.commission 4
    |> kvString "reason" []
    |> endObject

def writeCandle (w : JsonWriter) (row : Row α) : JsonWriter :=
  beginObject w
    |> kvInt "timestamp" (DateTime.toMillis row.datetime)
    |> kvDouble "open" row.open 6
    |> kvDouble "high" row.high 6
    |> kvDouble "low" row.low 6
    |> kvDouble "close" row.close 6
    |> kvDouble "volume" row.volume 0
    |> endObject

/-- Up to the metrics. -/
def writeHead (ctx : SerializationContext α W) (w : JsonWriter) : JsonWriter :=
  let w := w
    |> kvBool "success" true
    |> kvString "errorMessage" []
    |> kvInt "startTime" ctx.startTime
    |> kvInt "endTime" ctx.endTime
    |> kvInt "executionTimeMs" ctx.executionTimeMs
    |> kvInt "executionCycles" 0
  let w := if 0 < ctx.warmupEndTimestampMs then kvInt "warmupEndTimestamp" ctx.warmupEndTimestampMs w else w
  if ctx.feedBarCounts.isEmpty then w
  else endArray (ctx.feedBarCounts.zipIdx.foldl ctx.writeFeedBarCount (beginArray (key "feedBarCounts" w)))

def writeCurve (ctx : SerializationContext α W) (w : JsonWriter) : JsonWriter :=
  match ctx.cashValue, ctx.feed0 with
  | some equity, some feed => writeEquityCurve 0 (equity.zip feed.datetime.data) w
  | _, _ => w

def writeTrades (ctx : SerializationContext α W) (w : JsonWriter) : JsonWriter :=
  match ctx.broker, ctx.feed0 with
  | some b, some feed => b.closedTrades.foldl (ctx.writeTrade feed) w
  | _, _ => w

def writeCandles (ctx : SerializationContext α W) (w : JsonWriter) : JsonWriter :=
  match ctx.feed0 with
  | some feed => feed.lines.data.foldl writeCandle w
  | none => w

def writeDryRunInfo (ctx : SerializationContext α W) (w : JsonWriter) : JsonWriter :=
  let w := kvUint "totalLlmCalls" 0 (kvUint "totalBars" ctx.barsProcessed (kvBool "isDryRun" false w))
  endArray (beginArray (key "llmCalls" w))

def writeResults (ctx : SerializationContext α W) (totalPnl : α) (ext : ExtendedMetrics α) : JsonWriter :=
  let w := ctx.writeHead (beginObject {})
  let w := endObject (ctx.writeMetrics totalPnl ext (beginObject (key "metrics" w)))
  let w := endArray (ctx.writeCurve (beginArray (key "equityCurve" w)))
  let w := endArray (ctx.writeTrades (beginArray (key "trades" w)))
  let w := endArray (ctx.writeCandles (beginArray (key "candles" w)))
  let w := endObject (ctx.writeDryRunInfo (beginObject (key "dryRunInfo" w)))
  endObject w

end SerializationContext

/-- `serialize_results`. -/
def serializeResults {α W : Type} [Arith α] [Printed α] (compute : List α → List α → α → ExtendedMetrics α)
    (ctx : SerializationContext α W) : Except Error Text := do
  let totalPnl ← ctx.totalPnl
  pure (ctx.writeResults totalPnl (ctx.extended compute)).ss

/-! ### An error -/

def errorEscape (ch : Char) : Text :=
  if ch = '"' then ['\\', '"']
  else if ch = '\\' then ['\\', '\\']
  else if ch = '\n' then ['\\', 'n']
  else [ch]

/-- `make_error_result`. -/
def makeErrorResult (msg : Text) : Text :=
  [Wire.lit "\x7b\"success\":false,\"errorMessage\":\"", msg.flatMap errorEscape, Wire.lit "\"\x7d"].flatten

/-! ### What the writer adds -/

namespace JsonWriter
variable {α : Type} [Printed α]

/-- Texts after what a list has already, or has not. -/
def more : Bool → List Text → Text
  | false, ts => Json.joined ts
  | true, ts => ts.flatMap (',' :: ·)

theorem joined_cons (t : Text) (ts : List Text) : Json.joined (t :: ts) = t ++ more true ts := by
  induction ts generalizing t with
  | nil => exact (List.append_nil t).symm
  | cons t' ts ih =>
    show t ++ ',' :: Json.joined (t' :: ts) = _
    rw [ih t']
    rfl

theorem more_append (b : Bool) (ts us : List Text) : more b (ts ++ us) = more b ts ++ more (b || !ts.isEmpty) us := by
  cases b with
  | true => exact List.flatMap_append
  | false =>
    cases ts with
    | nil => rfl
    | cons t ts =>
      show Json.joined (t :: (ts ++ us)) = Json.joined (t :: ts) ++ more true us
      rw [joined_cons, joined_cons, List.append_assoc]
      exact congrArg (t ++ ·) List.flatMap_append

/-- From `w` to `w'` the texts have been added to the innermost list. -/
def Adds (w w' : JsonWriter) (ts : List Text) : Prop :=
  ∀ b outer, w.needsComma = b :: outer → w' = ⟨w.ss ++ more b ts, (b || !ts.isEmpty) :: outer⟩

theorem Adds.refl (w : JsonWriter) : Adds w w [] := by
  rintro b outer h
  obtain ⟨ss, needsComma⟩ := w
  obtain rfl : needsComma = b :: outer := h
  cases b <;> simp [more, Json.joined]

theorem Adds.trans {w w' w'' : JsonWriter} {ts us : List Text} (h : Adds w w' ts) (h' : Adds w' w'' us) :
    Adds w w'' (ts ++ us) := by
  intro b outer hw
  have h1 := h b outer hw
  rw [h' _ outer (congrArg needsComma h1), h1, more_append, List.append_assoc]
  cases b <;> cases ts <;> rfl

theorem commaIfNeeded_eq {w : JsonWriter} {b : Bool} {outer : List Bool} (h : w.needsComma = b :: outer) :
    w.commaIfNeeded = ⟨w.ss ++ (if b then [','] else []), b :: outer⟩ := by
  obtain ⟨ss, needsComma⟩ := w
  obtain rfl : needsComma = b :: outer := h
  cases b <;> simp [commaIfNeeded, put]

theorem adds_value (t : Text) (w : JsonWriter) : Adds w (value t w) [t] := by
  intro b outer h
  rw [value, commaIfNeeded_eq h]
  cases b <;> simp [put, markWritten, setComma, more, Json.joined]

/-- A list in brackets. -/
theorem adds_brackets {open' close : Char} {w w' : JsonWriter} {ts : List Text} (h : Adds (beginWith open' w) w' ts) :
    Adds w (endWith close w') [open' :: Json.joined ts ++ [close]] := by
  intro b outer hw
  have h1 := h false (b :: outer) (by rw [beginWith, commaIfNeeded_eq hw]; rfl)
  rw [h1, beginWith, commaIfNeeded_eq hw]
  cases b <;> simp [endWith, put, markWritten, setComma, more, Json.joined]

theorem flatMap_escape_key {k : Text} (h : IsKey k) : k.flatMap escape = k := by
  induction k with
  | nil => rfl
  | cons c k ih =>
    obtain ⟨⟨hq, hb, hctl⟩, hk⟩ := List.forall_mem_cons.1 h
    have hctl' : ∀ d : Char, d.toNat < 32 → c ≠ d := by
      rintro d hd rfl
      omega
    have hc : escape c = [c] := by
      rw [escape, if_neg hq, if_neg hb, if_neg (hctl' _ (by decide)), if_neg (hctl' _ (by decide)),
        if_neg (hctl' _ (by decide)), if_neg (by omega)]
    rw [List.flatMap_cons, hc, ih hk]
    rfl

/-- After a key the next text is the member's. -/
theorem adds_escaped_key (k : String) {w w' : JsonWriter} {t : Text} (h : Adds (key k w) w' [t]) :
    Adds w w' [Json.member (k.toList.flatMap escape) t] := by
  intro b outer hw
  have hkey : key k w = ⟨w.ss ++ (if b then [','] else []) ++ (stringText k.toList ++ [':']), false :: outer⟩ := by
    rw [key, commaIfNeeded_eq hw]
    rfl
  rw [h false outer (congrArg needsComma hkey), hkey]
  cases b <;> simp [more, Json.joined, Json.member, stringText]

theorem adds_key {k : String} (hk : IsKey k.toList) {w w' : JsonWriter} {t : Text} (h : Adds (key k w) w' [t]) :
    Adds w w' [Json.member k.toList t] := by
  have hmember := adds_escaped_key k h
  rwa [flatMap_escape_key hk] at hmember

/-! ### What the writer adds is well formed -/

/-- Well-formed members have been added. -/
def Members (w w' : JsonWriter) : Prop :=
  ∃ ms : List (Text × Text), (∀ m ∈ ms, IsKey m.1 ∧ IsJson m.2) ∧ Adds w w' (ms.map fun m => Json.member m.1 m.2)

/-- Well-formed elements have been added. -/
def Elements (w w' : JsonWriter) : Prop := ∃ ts : List Text, (∀ t ∈ ts, IsJson t) ∧ Adds w w' ts

variable {w w' w₀ : JsonWriter} {k : String}

theorem Members.refl (w : JsonWriter) : Members w w := ⟨[], fun _ h => (nomatch h), .refl w⟩

theorem Elements.refl (w : JsonWriter) : Elements w w := ⟨[], fun _ h => (nomatch h), .refl w⟩

theorem Members.trans (h : Members w₀ w) (h' : Members w w') : Members w₀ w' := by
  obtain ⟨ms, hms, ha⟩ := h
  obtain ⟨ms', hms', ha'⟩ := h'
  refine ⟨ms ++ ms', fun m hm => (List.mem_append.1 hm).elim (hms m) (hms' m), ?_⟩
  rw [List.map_append]
  exact ha.trans ha'

theorem Elements.trans (h : Elements w₀ w) (h' : Elements w w') : Elements w₀ w' := by
  obtain ⟨ts, hts, ha⟩ := h
  obtain ⟨ts', hts', ha'⟩ := h'
  exact ⟨ts ++ ts', fun t ht => (List.mem_append.1 ht).elim (hts t) (hts' t), ha.trans ha'⟩

theorem Members.of_key {t : Text} (hk : IsKey k.toList) (ht : IsJson t) (h : Adds (key k w) w' [t]) : Members w w' :=
  ⟨[(k.toList, t)], by rintro m hm; obtain rfl := List.mem_singleton.1 hm; exact ⟨hk, ht⟩, adds_key hk h⟩

theorem Elements.of_isJson {t : Text} (ht : IsJson t) (h : Adds w w' [t]) : Elements w w' :=
  ⟨[t], by rintro u hu; obtain rfl := List.mem_singleton.1 hu; exact ht, h⟩

theorem Members.isJson (h : Members (beginObject w) w') : ∃ t, IsJson t ∧ Adds w (endObject w') [t] := by
  obtain ⟨ms, hms, ha⟩ := h
  exact ⟨Json.object ms, .object hms, adds_brackets ha⟩

theorem Elements.isJson (h : Elements (beginArray w) w') : ∃ t, IsJson t ∧ Adds w (endArray w') [t] := by
  obtain ⟨ts, hts, ha⟩ := h
  exact ⟨Json.array ts, .array hts, adds_brackets ha⟩

theorem Members.value {t : Text} (h : Members w₀ w) (hk : IsKey k.toList) (ht : IsJson t) :
    Members w₀ (value t (key k w)) := h.trans (.of_key hk ht (adds_value t _))

theorem Members.object (h : Members w₀ w) (hk : IsKey k.toList) (hbody : Members (beginObject (key k w)) w') :
    Members w₀ (endObject w') := by
  obtain ⟨t, ht, ha⟩ := hbody.isJson
  exact h.trans (.of_key hk ht ha)

theorem Members.array (h : Members w₀ w) (hk : IsKey k.toList) (hbody : Elements (beginArray (key k w)) w') :
    Members w₀ (endArray w') := by
  obtain ⟨t, ht, ha⟩ := hbody.isJson
  exact h.trans (.of_key hk ht ha)

theorem Elements.object (h : Elements w₀ w) (hbody : Members (beginObject w) w') : Elements w₀ (endObject w') := by
  obtain ⟨t, ht, ha⟩ := hbody.isJson
  exact h.trans (.of_isJson ht ha)

theorem Elements.foldl {A : Type*} {f : JsonWriter → A → JsonWriter} (hf : ∀ w x, Elements w (f w x)) (xs : List A)
    (w : JsonWriter) : Elements w (xs.foldl f w) := by
  induction xs generalizing w with
  | nil => exact .refl w
  | cons x xs ih => exact (hf w x).trans (ih (f w x))

/-- The whole text of an object. -/
theorem Members.document (h : Members (beginObject {}) w) : IsJson (endObject w).ss := by
  obtain ⟨ms, hms, ha⟩ := h
  rw [ha false [] rfl]
  exact .object hms

theorem exists_str_escape (c : Char) : ∃ s : Json.Str, Json.Str.raw s = escape c := by
  unfold escape
  split_ifs with hq hb hn hr ht hctl
  · exact ⟨[.escape .quotationMark], rfl⟩
  · exact ⟨[.escape .reverseSolidus], rfl⟩
  · exact ⟨[.escape .lineFeed], rfl⟩
  · exact ⟨[.escape .carriageReturn], rfl⟩
  · exact ⟨[.escape .tab], rfl⟩
  · exact ⟨[], rfl⟩
  · exact ⟨[.plain c ⟨hq, hb, not_lt.1 hctl⟩], rfl⟩

theorem isJson_stringText (s : Text) : IsJson (stringText s) :=
  isJson_quoted (exists_str_flatMap fun c _ => exists_str_escape c)

theorem isJson_doubleText (v : α) (precision : Nat) : IsJson (doubleText v precision) := by
  unfold doubleText
  split_ifs with hv
  · exact Decimal.isJson_fixed precision hv
  · exact Json.isJson_null

namespace Members

theorem kvString (h : Members w₀ w) (hk : IsKey k.toList) (v : Text) : Members w₀ (kvString k v w) :=
  h.value hk (isJson_stringText v)

theorem kvBool (h : Members w₀ w) (hk : IsKey k.toList) (v : Bool) : Members w₀ (kvBool k v w) :=
  h.value hk (by cases v; exacts [Json.isJson_bool false, Json.isJson_bool true])

theorem kvInt (h : Members w₀ w) (hk : IsKey k.toList) (v : Int) : Members w₀ (kvInt k v w) :=
  h.value hk (Decimal.isJson_int v)

theorem kvUint (h : Members w₀ w) (hk : IsKey k.toList) (v : Nat) : Members w₀ (kvUint k v w) :=
  h.value hk (Decimal.isJson_nat v)

theorem kvDouble (h : Members w₀ w) (hk : IsKey k.toList) (v : α) (precision : Nat) : Members w₀ (kvDouble k v precision w) :=
  h.value hk (isJson_doubleText v precision)

end Members

end JsonWriter

/-! ### The results are well formed -/

namespace SerializationContext
variable {α W : Type} [Arith α] [Printed α] (ctx : SerializationContext α W)

open JsonWriter

omit [Arith α] [Printed α] in
theorem elements_feedBarCount (w : JsonWriter) (x : Nat × Nat) : Elements w (ctx.writeFeedBarCount w x) := by
  refine (Elements.refl w).object (.kvUint ?_ (by decide) _)
  have hindex := (Members.refl (beginObject w)).kvUint (k := "index") (by decide) x.2
  split
  · split_ifs
    · exact hindex
    · exact hindex.kvString (by decide) _
  · exact hindex

theorem members_metrics (totalPnl : α) (ext : ExtendedMetrics α) (w : JsonWriter) :
    Members w (ctx.writeMetrics totalPnl ext w) :=
  (Members.refl w)
    |>.kvDouble (by decide) _ _
    |>.kvDouble (by decide) _ _
    |>.kvDouble (by decide) _ _
    |>.kvDouble (by decide) _ _
    |>.kvDouble (by decide) _ _
    |>.kvDouble (by decide) _ _
    |>.kvDouble (by decide) _ _
    |>.kvDouble (by decide) _ _
    |>.kvUint (by decide) _
    |>.kvUint (by decide) _
    |>.kvUint (by decide) _
    |>.kvDouble (by decide) _ _
    |>.kvDouble (by decide) _ _
    |>.kvDouble (by decide) _ _
    |>.kvDouble (by decide) _ _
    |>.kvDouble (by decide) _ _
    |>.kvDouble (by decide) _ _
    |>.kvDouble (by decide) _ _

theorem elements_equityCurve (peak : α) (points : List (α × DateTime)) (w : JsonWriter) :
    Elements w (writeEquityCurve peak points w) := by
  induction points generalizing peak w with
  | nil => exact .refl w
  | cons p points ih =>
    have hpoint : ∀ dd : α, Elements w (endObject (kvDouble "drawdown" dd 2 (kvDouble "equity" p.1 2
        (kvInt "timestamp" (DateTime.toMillis p.2) (beginObject w))))) := fun dd =>
      (Elements.refl w).object ((((Members.refl _).kvInt (by decide) _).kvDouble (by decide) _ _).kvDouble (by decide) _ _)
    exact (hpoint _).trans (ih _ _)

theorem elements_trade (feed : DataFeed α) (w : JsonWriter) (x : Trade α × α) : Elements w (ctx.writeTrade feed w x) :=
  (Elements.refl w).object <| (Members.refl _)
    |>.kvInt (by decide) _
    |>.kvInt (by decide) _
    |>.kvString (by decide) _
    |>.kvString (by decide) _
    |>.kvDouble (by decide) _ _
    |>.kvDouble (by decide) _ _
    |>.kvDouble (by decide) _ _
    |>.kvDouble (by decide) _ _
    |>.kvDouble (by decide) _ _
    |>.kvString (by decide) _

omit [Arith α] in
theorem elements_candle (w : JsonWriter) (row : Row α) : Elements w (writeCandle w row) :=
  (Elements.refl w).object <| (Members.refl _)
    |>.kvInt (by decide) _
    |>.kvDouble (by decide) _ _
    |>.kvDouble (by decide) _ _
    |>.kvDouble (by decide) _ _
    |>.kvDouble (by decide) _ _
    |>.kvDouble (by decide) _ _

omit [Arith α] [Printed α] in
theorem members_head (w : JsonWriter) : Members w (ctx.writeHead w) := by
  have htimes : Members w (kvInt "executionCycles" 0 (kvInt "executionTimeMs" ctx.executionTimeMs (kvInt "endTime" ctx.endTime
      (kvInt "startTime" ctx.startTime (kvString "errorMessage" [] (kvBool "success" true w)))))) :=
    (Members.refl w)
      |>.kvBool (by decide) _
      |>.kvString (by decide) _
      |>.kvInt (by decide) _
      |>.kvInt (by decide) _
      |>.kvInt (by decide) _
      |>.kvInt (by decide) _
  unfold writeHead
  dsimp only
  split_ifs
  · exact htimes.kvInt (by decide) _
  · exact htimes
  · exact (htimes.kvInt (by decide) _).array (by decide) (.foldl ctx.elements_feedBarCount _ _)
  · exact htimes.array (by decide) (.foldl ctx.elements_feedBarCount _ _)

theorem elements_curve (w : JsonWriter) : Elements w (ctx.writeCurve w) := by
  unfold writeCurve
  split
  · exact elements_equityCurve _ _ _
  · exact .refl w

theorem elements_trades (w : JsonWriter) : Elements w (ctx.writeTrades w) := by
  unfold writeTrades
  split
  · exact .foldl (ctx.elements_trade _) _ _
  · exact .refl w

omit [Arith α] in
theorem elements_candles (w : JsonWriter) : Elements w (ctx.writeCandles w) := by
  unfold writeCandles
  split
  · exact .foldl elements_candle _ _
  · exact .refl w

omit [Arith α] [Printed α] in
theorem members_dryRunInfo (w : JsonWriter) : Members w (ctx.writeDryRunInfo w) :=
  ((((Members.refl w).kvBool (by decide) _).kvUint (by decide) _).kvUint (by decide) _).array (k := "llmCalls") (by decide)
    (.refl _)

theorem isJson_writeResults (totalPnl : α) (ext : ExtendedMetrics α) : IsJson (ctx.writeResults totalPnl ext).ss :=
  Members.document <| (ctx.members_head (beginObject {}))
    |>.object (k := "metrics") (by decide) (ctx.members_metrics totalPnl ext _)
    |>.array (k := "equityCurve") (by decide) (ctx.elements_curve _)
    |>.array (k := "trades") (by decide) (ctx.elements_trades _)
    |>.array (k := "candles") (by decide) (ctx.elements_candles _)
    |>.object (k := "dryRunInfo") (by decide) (ctx.members_dryRunInfo _)

omit [Printed α] in
theorem totalPnl_returns_iff : (∃ v, ctx.totalPnl = .ok v) ↔
    ∀ b ∈ ctx.broker, ∀ feeds ∈ ctx.dataFeeds, b.Marked feeds := by
  unfold totalPnl
  cases hb : ctx.broker with
  | none => simp
  | some b =>
    cases hf : ctx.dataFeeds with
    | none => simp
    | some feeds =>
      simp only [Option.mem_some_iff, forall_eq', ← BackBroker.portfolioValue_returns_iff]
      cases b.portfolioValue feeds with
      | ok v => simp [Except.map]
      | error err => simp [Except.map]

end SerializationContext

variable {α W : Type} [Arith α] [Printed α]

/-- The results are written, and well formed, exactly when the broker can be valued. -/
theorem wellFormed_results (compute : List α → List α → α → ExtendedMetrics α) (ctx : SerializationContext α W) :
    (∃ t, serializeResults compute ctx = .ok t ∧ WellFormed t) ↔ ∀ b ∈ ctx.broker, ∀ feeds ∈ ctx.dataFeeds, b.Marked feeds := by
  rw [← ctx.totalPnl_returns_iff, serializeResults]
  cases ctx.totalPnl with
  | error err => exact ⟨fun ⟨_, h, _⟩ => (nomatch h), fun ⟨_, h⟩ => (nomatch h)⟩
  | ok v => exact ⟨fun _ => ⟨v, rfl⟩, fun _ => ⟨_, rfl, (ctx.isJson_writeResults v _).wellFormed⟩⟩

/-! ### Errors -/

/-- The control characters that are escaped are the line feeds. -/
def PlainMessage (msg : Text) : Prop := ∀ c ∈ msg, 32 ≤ c.toNat ∨ c = '\n'

theorem exists_str_errorEscape {c : Char} (h : 32 ≤ c.toNat ∨ c = '\n') : ∃ s : Json.Str, Json.Str.raw s = errorEscape c := by
  unfold errorEscape
  split_ifs with hq hb hn
  · exact ⟨[.escape .quotationMark], rfl⟩
  · exact ⟨[.escape .reverseSolidus], rfl⟩
  · exact ⟨[.escape .lineFeed], rfl⟩
  · exact ⟨[.plain c ⟨hq, hb, h.resolve_right hn⟩], rfl⟩

/-- The scanner stops at the first control character. -/
theorem scan_error {msg : Text} (h : ¬ PlainMessage msg) : Json.scan .string (msg.flatMap errorEscape) = none := by
  induction msg with
  | nil => exact absurd (fun c hc => (nomatch hc)) h
  | cons c msg ih =>
    rw [List.flatMap_cons]
    by_cases hc : 32 ≤ c.toNat ∨ c = '\n'
    · obtain ⟨s, hs⟩ := exists_str_errorEscape hc
      rw [← hs, Json.scan_of_some s.scan_raw]
      exact ih fun hm => h (List.forall_mem_cons.2 ⟨hc, hm⟩)
    · push Not at hc
      have hother : ∀ d : Char, 32 ≤ d.toNat → c ≠ d := by
        rintro d hd rfl
        omega
      have hq := hother '"' (by decide)
      have hb := hother '\\' (by decide)
      rw [errorEscape, if_neg hq, if_neg hb, if_neg hc.2]
      show (Json.Lex.string.step c).bind _ = none
      rw [show Json.Lex.string.step c = none from (if_neg hq).trans ((if_neg hb).trans (if_pos hc.1))]
      rfl

theorem settled_error (msg : Text) : Json.Settled (makeErrorResult msg) (PlainMessage msg) where
  json h := by
    have heq : makeErrorResult msg = Json.object
        [(Wire.lit "success", Wire.lit "false"), (Wire.lit "errorMessage", Json.quoted (msg.flatMap errorEscape))] := by
      rw [Json.object_eq]
      simp only [Json.membersThen, Json.quoted_append]
      rfl
    rw [heq]
    refine .object fun m hm => ?_
    rcases List.mem_cons.1 hm with rfl | hm
    · exact ⟨(by decide : IsKey (Wire.lit "success")), Json.isJson_bool false⟩
    · obtain rfl := List.mem_singleton.1 hm
      exact ⟨(by decide : IsKey (Wire.lit "errorMessage")),
        isJson_quoted (exists_str_flatMap fun c hc => exists_str_errorEscape (h c hc))⟩
  refused h := by
    have hhead : Json.scan .outside (Wire.lit "\x7b\"success\":false,\"errorMessage\":\"") = some .string := by decide
    rw [Json.Refused, makeErrorResult, List.flatten_cons, Json.scan_of_some hhead, List.flatten_cons]
    exact Json.scan_of_none (scan_error h) _

namespace OrNan

instance : Printed OrNan where
  double
    | num q => .ofRat q
    | nan => .nan false

/-- One bar, whose close is not a number. -/
def nanClose : IncrementSnapshot OrNan (CandidateSnapshot OrNan) (OutcomeRecord OrNan) :=
  { seq := 0
    newBars := [{ timestamp := 0, «open» := num 10, high := num 11, low := num 9, close := nan, volume := num 100 }]
    newTrades := []
    newEquityPoints := []
    currentMetrics := ⟨num 0, num 0, num 0, num 0, num 0, 0, 0, 0, num 0⟩
    processedBars := 1
    totalBars := none
    isFinal := false
    termination := none
    droppedSinceLastFlush := 0
    newCandidates := []
    newOutcomes := [] }

end OrNan

end StratForge
