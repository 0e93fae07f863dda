import StratForge.Arith

/-!
# The contracts of the corrective layer

Candidates and their outcomes as the collector records them, and the configuration that the gate runs under.
-/

namespace StratForge

def kCorrectiveSchemaVersion : Nat := 1

def kPopFeatureSchemaVersion : Nat := 1

abbrev kPopFeatureCountV1 : Nat := 14

/-- FNV-1a over the names, with a zero byte between two of them. -/
def computeFeatureSchemaHash (names : List String) : Nat :=
  let step (hash byte : Nat) : Nat := (hash ^^^ byte) * 0x01000193 % 2 ^ 32
  names.zipIdx.foldl (fun hash (name, i) =>
    name.toList.foldl (fun hash c => step hash c.toNat) (if 0 < i then step hash 0 else hash)) 0x811c9dc5

def kPopFeatureNamesV1 : List String :=
  ["proposed_size_normalized", "entry_price", "bid_ask_spread_bps", "atr_ratio", "volatility_z", "rsi_14", "bb_percent_b",
    "macd_histogram", "volume_ratio", "unrealized_pnl_normalized", "open_position_count", "bars_since_last_trade",
    "current_drawdown_pct", "side_encoded"]

def kPopFeatureSchemaHashV1 : Nat := computeFeatureSchemaHash kPopFeatureNamesV1

inductive CandidateSide
  | kLong | kShort
deriving DecidableEq, Repr

inductive GateVerdict
  | kPass | kReject | kCollectOnly | kDisabled
deriving DecidableEq, Repr

/-- `static_cast<int>`. -/
def GateVerdict.toNat : GateVerdict → Nat
  | kPass => 0 | kReject => 1 | kCollectOnly => 2 | kDisabled => 3

inductive OutcomeType
  | kActual | kShadow | kCensored
deriving DecidableEq, Repr

def OutcomeType.toNat : OutcomeType → Nat
  | kActual => 0 | kShadow => 1 | kCensored => 2

inductive CompletionStatus
  | kComplete | kCensored
deriving DecidableEq, Repr

def CompletionStatus.toNat : CompletionStatus → Nat
  | kComplete => 0 | kCensored => 1

inductive SizingPolicy
  | kGate | kSizing | kHybrid
deriving DecidableEq, Repr

/-- What the collector has of an order before it is placed. A `float` is the `double` of the same value. -/
structure CandidateSnapshot (α : Type) where
  schemaVersion : Nat := kCorrectiveSchemaVersion
  candidateId : Nat
  asOfTimestampNs : Nat := 0
  knowledgeCutoffTimestampNs : Nat := 0
  symbolId : Nat
  side : CandidateSide
  proposedSize : α
  finalSize : α
  featureVector : Vector α kPopFeatureCountV1
  featureSchemaHash : Nat
  gateVerdict : GateVerdict
  calibratedProbability : α
  sizingPolicy : SizingPolicy
deriving DecidableEq, Repr

structure OutcomeRecord (α : Type) where
  schemaVersion : Nat := kCorrectiveSchemaVersion
  candidateId : Nat
  outcomeType : OutcomeType
  entryTimestampNs : Nat
  exitTimestampNs : Nat
  holdingIntervalBars : Nat
  grossPnl : α
  commission : α
  slippage : α
  netPnl : α
  completionStatus : CompletionStatus
  labelPolicyVersion : Nat := 1
  profitLabel : Int := -1
deriving DecidableEq, Repr

structure CorrectiveRuntimeConfig (α : Type) where
  state : GateVerdict
  mode : SizingPolicy
  threshold : α
  sizingExponent : α
  shadowHorizonBars : Nat
deriving DecidableEq, Repr

end StratForge
