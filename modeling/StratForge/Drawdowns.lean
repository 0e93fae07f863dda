import StratForge.Performance
import StratForge.RunningPeak
import StratForge.Streamed

/-!
# The drawdowns (`analyzers/drawdown.hpp`)

The worst drawdown of a run is computed three times: by the `Drawdown` analyzer, by the stream for its metrics and by the
extended metrics from the equity curve. The first two start from a peak of 0, the third from the first value. All three
are the worst fall below the running peak of the portfolio (`drawdowns_agree`).
-/

namespace StratForge
open RunningPeak
variable {α W C O : Type} [Arith α]

/-! ### The analyzer -/

structure DrawdownMax (α : Type) where
  len : Nat
  drawdown : α
  moneydown : α
deriving DecidableEq, Repr

structure DrawdownAnalysis (α : Type) where
  len : Nat
  drawdown : α
  moneydown : α
  max : DrawdownMax α
deriving DecidableEq, Repr

structure Drawdown (α : Type) where
  peak : α
  analysis : DrawdownAnalysis α
  drawdownValues : List α
deriving DecidableEq, Repr

namespace Drawdown

def start : Drawdown α := ⟨0, ⟨0, 0, 0, ⟨0, 0, 0⟩⟩, []⟩

/-- `next`, once the value of the portfolio is known. -/
def observe (d : Drawdown α) (value : α) : Drawdown α :=
  let peak := if d.peak < value then value else d.peak
  let moneydown := peak - value
  let drawdown := if 0 < peak then moneydown / peak * 100.0 else 0
  let len := if 0 < drawdown then d.analysis.len + 1 else 0
  { peak
    drawdownValues := d.drawdownValues ++ [moneydown]
    analysis :=
      { len, drawdown, moneydown
        max :=
          { len := max d.analysis.max.len len
            drawdown := Arith.max d.analysis.max.drawdown drawdown
            moneydown := Arith.max d.analysis.max.moneydown moneydown } } }

def next (d : Drawdown α) (b : BackBroker α W) (feeds : List (DataFeed α)) : Except Error (Drawdown α) :=
  (b.portfolioValue feeds).map d.observe

end Drawdown

/-! ### One loop -/

/-- A fall in percent of the peak. -/
def percentDown (peak v : ℚ) : ℚ := (peak - v) / peak * 100

namespace Drawdown

/-- What the analyzer keeps for its percentage. -/
def track (d : Drawdown ℚ) : ℚ × ℚ := (d.peak, d.analysis.max.drawdown)

theorem track_observe {d : Drawdown ℚ} (h : 0 ≤ d.analysis.max.drawdown) (value : ℚ) :
    (d.observe value).track = turn percentDown d.track value := by
  rw [turn_eq h]
  unfold observe track percentDown
  show (Arith.max d.peak value, Arith.max d.analysis.max.drawdown
    (if 0 < Arith.max d.peak value then (Arith.max d.peak value - value) / Arith.max d.peak value * 100.0 else 0)) = _
  rw [Arith.max_rat, Arith.max_rat]
  norm_num

theorem foldl_tracks {d : Drawdown ℚ} {vs : List ℚ} (h : Tracks percentDown vs d.track) (rest : List ℚ) :
    Tracks percentDown (vs ++ rest) (rest.foldl observe d).track := by
  induction rest generalizing d vs with
  | nil => simpa using h
  | cons v rest ih =>
    have hstep : Tracks percentDown (vs ++ [v]) (d.observe v).track := track_observe h.nonneg v ▸ h.concat v
    simpa using ih hstep

end Drawdown

namespace IncrementBatcher

def track (s : IncrementBatcher ℚ) : ℚ × ℚ := (s.peak, s.maxDd)

theorem observe_maxDd (s : IncrementBatcher α) (r : Reading α) :
    (s.observe r).maxDd = Arith.max s.maxDd (r.drawdown (Arith.max s.peak r.portfolioValue)) := by
  unfold observe
  cases s.firstBarSeen <;> cases r.feed0 <;> rfl

theorem track_observe {s : IncrementBatcher ℚ} (h : 0 ≤ s.maxDd) (r : Reading ℚ) :
    (s.observe r).track = turn percentDown s.track r.portfolioValue := by
  rw [turn_eq h]
  unfold track percentDown
  rw [observe_peak, observe_maxDd, Arith.max_rat, Arith.max_rat]
  unfold Reading.drawdown
  norm_num

theorem track_notifyTrade (s : IncrementBatcher ℚ) (t : Trade ℚ) (orig : ℚ) : (s.notifyTrade t orig).track = s.track := by
  unfold notifyTrade
  dsimp only
  split_ifs <;> rfl

end IncrementBatcher

namespace Stream

/-- What the calls show of the portfolio. -/
def values (calls : List (Call ℚ C O)) : List ℚ := (calls.flatMap Call.readings).map Reading.portfolioValue

theorem track_emit (s : Stream ℚ C O) (isFinal : Bool) : (s.emit isFinal).batcher.track = s.batcher.track := by
  obtain ⟨-, -, -, -, -, -, hbat⟩ := emit_cases s isFinal
  rw [hbat]
  rfl

theorem track_maybeFlush (s : Stream ℚ C O) (now : Int) : (s.maybeFlush now).batcher.track = s.batcher.track := by
  rcases maybeFlush_cases s now with hf | hf <;> rw [hf]
  exact track_emit s false

theorem step_tracks {s : Stream ℚ C O} {vs : List ℚ} (h : Tracks percentDown vs s.batcher.track) (call : Call ℚ C O) :
    Tracks percentDown (vs ++ values [call]) (s.step call).batcher.track := by
  cases call with
  | next now r =>
    have hstep := h.concat r.portfolioValue
    rw [← IncrementBatcher.track_observe h.nonneg] at hstep
    show Tracks percentDown (vs ++ [r.portfolioValue]) (maybeFlush _ now).batcher.track
    rw [track_maybeFlush]
    exact hstep
  | notifyTrade t orig =>
    show Tracks percentDown (vs ++ []) (s.batcher.notifyTrade t orig).track
    rw [List.append_nil, IncrementBatcher.track_notifyTrade]
    exact h
  | candidate c => exact (List.append_nil vs).symm ▸ h
  | outcome o => exact (List.append_nil vs).symm ▸ h

theorem foldl_tracks {s : Stream ℚ C O} {vs : List ℚ} (h : Tracks percentDown vs s.batcher.track) (calls : List (Call ℚ C O)) :
    Tracks percentDown (vs ++ values calls) (calls.foldl step s).batcher.track := by
  induction calls generalizing s vs with
  | nil => simpa [values] using h
  | cons call rest ih => simpa [values] using ih (step_tracks h call)

/-- The last snapshot of a run has the metrics of its end. -/
theorem run_getLast (config : IncrementBatcher.Config) (collector : Option (CandidateCollector C O)) (now : Int)
    (calls : List (Call α C O)) : ∃ m, (run config collector now calls).getLast? = some m ∧
      m.currentMetrics = (calls.foldl step (start config collector now)).batcher.currentMetrics := by
  obtain ⟨m, he, -, -, ⟨-, -, -, hmetrics⟩, -, -⟩ := emit_cases (calls.foldl step (start config collector now)) true
  refine ⟨m, ?_, hmetrics⟩
  unfold run stop
  rw [he, List.getLast?_concat]

end Stream

namespace ExtendedMetricsCalculator

theorem drawdownTurn_eq (s : ℚ × ℚ) (equity : ℚ) : drawdownTurn s equity = turn percentDown s equity := by
  unfold drawdownTurn turn percentDown
  simp only [Arith.max_rat]
  norm_num

theorem maxDrawdown_tracks (front : ℚ) (rest : List ℚ) :
    Tracks percentDown (front :: rest) ((front :: rest).foldl drawdownTurn (front, 0)) := by
  rw [funext₂ drawdownTurn_eq]
  exact (Tracks.first front).foldl rest

end ExtendedMetricsCalculator

/-- Whatever the portfolio is worth from bar to bar, and whatever else the stream is told in between. -/
theorem drawdowns_agree (maths : Maths ℚ) (metrics : ExtendedMetricsConfig ℚ) (tradePnls : List ℚ)
    (config : IncrementBatcher.Config) (collector : Option (CandidateCollector C O)) (now : Int)
    (calls : List (Stream.Call ℚ C O)) :
    let values := Stream.values calls
    ∃ d, IsGreatest (insert 0 {w | Falls percentDown values w}) d ∧
      (values.foldl Drawdown.observe .start).analysis.max.drawdown = d ∧
      (∃ m, (Stream.run config collector now calls).getLast? = some m ∧ m.currentMetrics.maxDdPct = d) ∧
      (ExtendedMetricsCalculator.compute maths values tradePnls metrics).maxDrawdown = d := by
  intro values
  have hanalyzer : Tracks percentDown values (values.foldl Drawdown.observe .start).track :=
    @Drawdown.foldl_tracks .start [] (.nil le_rfl) values
  have hstream : Tracks percentDown values (calls.foldl Stream.step (.start config collector now)).batcher.track :=
    @Stream.foldl_tracks _ _ (.start config collector now) [] (.nil le_rfl) calls
  have hextended : IsGreatest (insert 0 {w | Falls percentDown values w})
      (ExtendedMetricsCalculator.compute maths values tradePnls metrics).maxDrawdown := by
    match values with
    | [] => exact (Tracks.nil (le_refl (0 : ℚ))).worst
    | front :: rest => exact (ExtendedMetricsCalculator.maxDrawdown_tracks front rest).worst
  obtain ⟨m, hlast, hm⟩ := Stream.run_getLast config collector now calls
  refine ⟨_, hanalyzer.worst, rfl, ⟨m, hlast, ?_⟩, hextended.unique hanalyzer.worst⟩
  rw [hm]
  exact hstream.worst.unique hanalyzer.worst

end StratForge
