import StratForge.PopFeatures

/-!
# The candidate collector (`corrective/candidate_collector.hpp`, `corrective/shadow_ledger.hpp`)

A candidate is what is known of an order before it is placed; what becomes of it is its outcome. The collector issues
the candidates from the pre-order hook and takes the outcomes from trades that close, from the shadows of the orders
that the gate has rejected, and from what is still open at the end. `candidates` and `outcomes` keep everything that
has been pushed: draining them hands out what is new.

The inference context is an oracle that answers anything.
-/

namespace StratForge

/-- `to_ns_`: `int64` as `uint64`. -/
def toNs (dt : DateTime) : Nat := (dt % 2 ^ 64).toNat

/-- `static_cast<std::uint32_t>`. -/
def toUint32 (n : Nat) : Nat := n % 2 ^ 32

variable {α : Type} [Arith α] [Floating α]

/-- The close of a feed's bar, where there is a feed. -/
def closeAt (feeds : List (DataFeed α)) (dataIndex : Nat) (otherwise : α) : Except Error α :=
  match feeds[dataIndex]? with
  | some feed => feed.close.at' 0
  | none => .ok otherwise

/-- The time of a feed's bar, where there is a feed. -/
def timestampAt (feeds : List (DataFeed α)) (dataIndex : Nat) : Except Error Nat :=
  match feeds[dataIndex]? with
  | some feed => do return toNs (← feed.datetime.at' 0)
  | none => .ok 0

/-! ### Shadows -/

structure ShadowEntry (α : Type) where
  candidateId : Nat
  dataIndex : Nat
  entryPrice : α
  /-- Negative: short. -/
  size : α
  entryTimestampNs : Nat
  commissionPerSide : α
  /-- 0: no limit. -/
  horizonBars : Nat
  barsHeld : Nat := 0
deriving DecidableEq, Repr

namespace ShadowEntry

def exitPriceAt (feeds : List (DataFeed α)) (s : ShadowEntry α) : Except Error α := closeAt feeds s.dataIndex s.entryPrice

def barTimestampNs (feeds : List (DataFeed α)) (s : ShadowEntry α) : Except Error Nat := timestampAt feeds s.dataIndex

/-- A shadow sold at the bar of its feed; `label` is the profit label for its net pnl. -/
def settle (type : OutcomeType) (status : CompletionStatus) (label : α → Int) (feeds : List (DataFeed α))
    (s : ShadowEntry α) : Except Error (OutcomeRecord α) := do
  let exit ← s.exitPriceAt feeds
  let gross := (exit - s.entryPrice) * s.size
  let comm := s.commissionPerSide * 2.0
  let exitTimestampNs ← s.barTimestampNs feeds
  return { candidateId := s.candidateId, outcomeType := type, entryTimestampNs := s.entryTimestampNs, exitTimestampNs,
           holdingIntervalBars := toUint32 s.barsHeld, grossPnl := gross, commission := comm, slippage := 0,
           netPnl := gross - comm, completionStatus := status, profitLabel := label (gross - comm) }

def closeShadow (feeds : List (DataFeed α)) (s : ShadowEntry α) : Except Error (OutcomeRecord α) :=
  s.settle .kShadow .kComplete (fun net => if 0 < net then 1 else 0) feeds

def censorShadow (feeds : List (DataFeed α)) (s : ShadowEntry α) : Except Error (OutcomeRecord α) :=
  s.settle .kCensored .kCensored (fun _ => -1) feeds

end ShadowEntry

namespace ShadowLedger

/-- Every shadow is held for one bar more; those that reach their horizon are closed. -/
def tick (feeds : List (DataFeed α)) (openShadows : List (ShadowEntry α)) :
    Except Error (List (OutcomeRecord α) × List (ShadowEntry α)) :=
  openShadows.foldlM (fun (results, stillOpen) s =>
    let s := { s with barsHeld := s.barsHeld + 1 }
    if 0 < s.horizonBars ∧ s.horizonBars ≤ s.barsHeld then do return (results ++ [← s.closeShadow feeds], stillOpen)
    else .ok (results, stillOpen ++ [s])) ([], [])

/-- The ledger is empty afterwards. -/
def flushCensored (feeds : List (DataFeed α)) (openShadows : List (ShadowEntry α)) :
    Except Error (List (OutcomeRecord α)) := openShadows.mapM (·.censorShadow feeds)

end ShadowLedger

/-! ### The collector -/

structure CollectorConfig (α : Type) where
  corrective : CorrectiveRuntimeConfig α
  shadowHorizonBars : Nat

structure InferenceResult (α : Type) where
  calibratedProbability : α
  verdict : GateVerdict
  finalSize : α

structure Collector (α : Type) where
  config : CollectorConfig α
  nextCandidateId : Nat
  featureBuilder : PopFeatureBuilder α
  shadowLedger : List (ShadowEntry α)
  /-- What the inference context answers for each candidate. -/
  infer : Option (Nat → Vector α kPopFeatureCountV1 → α → InferenceResult α)
  candidates : List (CandidateSnapshot α)
  /-- The data index of each candidate; not in the source, and no definition reads it. -/
  dataIndices : List Nat
  outcomes : List (OutcomeRecord α)
  /-- A read outside a line has thrown, and the run is over. -/
  failed : Bool

namespace Collector

/-- After `init`, for `n` feeds. -/
def start (config : CollectorConfig α) (infer : Option (Nat → Vector α kPopFeatureCountV1 → α → InferenceResult α))
    (n : Nat) : Collector α :=
  { config, nextCandidateId := 1, featureBuilder := .init n, shadowLedger := [], infer, candidates := [],
    dataIndices := [], outcomes := [], failed := false }

variable (cl : Collector α)

def isEnabled : Bool := cl.config.corrective.state ≠ .kDisabled

/-- The gate's answer, from the inference context if it is asked. -/
def judge (candId : Nat) (features : Vector α kPopFeatureCountV1) (proposedSize : α) : InferenceResult α :=
  let collectOnly : InferenceResult α := ⟨-1, .kCollectOnly, proposedSize⟩
  if cl.config.corrective.state = .kCollectOnly then collectOnly
  else
    match cl.infer with
    | none => collectOnly
    | some infer => infer candId features proposedSize

/-- The candidate of an order. -/
def snapshot {W : Type} (side : OrderSide) (proposedSize : α) (dataIndex : Nat) (feeds : List (DataFeed α))
    (broker : BackBroker α W) : Except Error (CandidateSnapshot α) := do
  let asOf ← timestampAt feeds dataIndex
  let featureVector ← cl.featureBuilder.build side proposedSize dataIndex feeds broker
  let result := cl.judge cl.nextCandidateId featureVector proposedSize
  return { candidateId := cl.nextCandidateId, asOfTimestampNs := asOf, knowledgeCutoffTimestampNs := asOf,
           symbolId := toUint32 dataIndex, side := if side = .Buy then .kLong else .kShort, proposedSize,
           finalSize := result.finalSize, featureVector, featureSchemaHash := kPopFeatureSchemaHashV1,
           gateVerdict := result.verdict, calibratedProbability := result.calibratedProbability,
           sizingPolicy := cl.config.corrective.mode }

/-- The shadow of a rejected order; none for a data index without a feed. -/
def shadowOf (side : OrderSide) (proposedSize : α) (dataIndex : Nat) (feeds : List (DataFeed α))
    (snap : CandidateSnapshot α) : Except Error (List (ShadowEntry α)) :=
  match feeds[dataIndex]? with
  | none => .ok []
  | some feed => do
    return [{ candidateId := snap.candidateId, dataIndex, entryPrice := ← feed.close.at' 0,
              size := if side = .Buy then proposedSize else -proposedSize, entryTimestampNs := snap.asOfTimestampNs,
              commissionPerSide := 0, horizonBars := cl.config.shadowHorizonBars }]

/-- A candidate is issued, with the shadows of its order. -/
def issue (snap : CandidateSnapshot α) (dataIndex : Nat) (shadows : List (ShadowEntry α)) : Collector α :=
  { cl with nextCandidateId := cl.nextCandidateId + 1, candidates := cl.candidates ++ [snap],
            dataIndices := cl.dataIndices ++ [dataIndex], shadowLedger := cl.shadowLedger ++ shadows }

/-- Orders that reduce a position pass without a candidate. -/
def onPreOrder {W : Type} (side : OrderSide) (proposedSize : α) (dataIndex : Nat) (feeds : List (DataFeed α))
    (broker : BackBroker α W) : Except Error (PreOrderResult α × Collector α) :=
  if !cl.isEnabled then .ok (⟨0, proposedSize, false⟩, cl)
  else
    let pos := broker.position dataIndex
    if (side = .Sell ∧ pos.isLong) ∨ (side = .Buy ∧ pos.isShort) then .ok (⟨0, proposedSize, false⟩, cl)
    else do
      let snap ← cl.snapshot side proposedSize dataIndex feeds broker
      if snap.gateVerdict = .kReject then
        let shadows ← cl.shadowOf side proposedSize dataIndex feeds snap
        return (⟨snap.candidateId, 0, true⟩, cl.issue snap dataIndex shadows)
      else return (⟨snap.candidateId, snap.finalSize, false⟩, cl.issue snap dataIndex [])

/-- The outcome of a closed trade. -/
def actualOutcome (trade : Trade α) : OutcomeRecord α :=
  { candidateId := trade.candidateId, outcomeType := .kActual, entryTimestampNs := toNs trade.entryTime,
    exitTimestampNs := toNs trade.exitTime,
    holdingIntervalBars := toUint32 (if trade.entryBar ≤ trade.exitBar then trade.exitBar - trade.entryBar else 0),
    grossPnl := trade.pnl, commission := trade.commission, slippage := 0, netPnl := trade.pnlcomm,
    completionStatus := .kComplete, profitLabel := if 0 < trade.pnlcomm then 1 else 0 }

def onTradeClosed (trade : Trade α) : Collector α :=
  if !cl.isEnabled then cl
  else if trade.candidateId = 0 then cl
  else { cl with outcomes := cl.outcomes ++ [actualOutcome trade], featureBuilder := cl.featureBuilder.recordTrade }

def onBar {W : Type} (feeds : List (DataFeed α)) (broker : BackBroker α W) : Except Error (Collector α) :=
  if !cl.isEnabled then .ok cl
  else do
    let pv ← broker.portfolioValue feeds
    let (closed, shadowLedger) ← ShadowLedger.tick feeds cl.shadowLedger
    return { cl with featureBuilder := (cl.featureBuilder.advance feeds).updateEquityPeak pv, shadowLedger,
                     outcomes := cl.outcomes ++ closed }

/-- The outcome of a trade that is open at the end. -/
def censorTrade (feeds : List (DataFeed α)) (trade : Trade α) : Except Error (OutcomeRecord α) := do
  let closePrice ← closeAt feeds trade.dataIndex 0
  let exitTimestampNs ← timestampAt feeds trade.dataIndex
  let gross := (closePrice - trade.entryPrice) * trade.size
  return { candidateId := trade.candidateId, outcomeType := .kCensored, entryTimestampNs := toNs trade.entryTime,
           exitTimestampNs, holdingIntervalBars := toUint32 trade.barlen, grossPnl := gross,
           commission := trade.commission, slippage := 0, netPnl := gross - trade.commission,
           completionStatus := .kCensored }

def onStop {W : Type} (feeds : List (DataFeed α)) (broker : BackBroker α W) : Except Error (Collector α) :=
  if !cl.isEnabled then .ok cl
  else do
    let trades ← (broker.openTrades.filter fun (t, _) => t.isOpen && t.candidateId != 0).mapM fun (t, _) => censorTrade feeds t
    let shadows ← ShadowLedger.flushCensored feeds cl.shadowLedger
    return { cl with shadowLedger := [], outcomes := cl.outcomes ++ trades ++ shadows }

/-- The collector after a call, which may have thrown. -/
def orFailed (r : Except Error (Collector α)) : Collector α :=
  match r with
  | .ok cl' => cl'
  | .error _ => { cl with failed := true }

/-- The hook; when it throws, no order is placed any more. -/
def preOrderHook {W : Type} (side : OrderSide) (proposedSize : α) (dataIndex : Nat) (feeds : List (DataFeed α))
    (broker : BackBroker α W) : PreOrderResult α × Collector α :=
  match cl.onPreOrder side proposedSize dataIndex feeds broker with
  | .ok r => r
  | .error _ => (⟨0, proposedSize, true⟩, { cl with failed := true })

end Collector

end StratForge
