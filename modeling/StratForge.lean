import StratForge.PreloadTwice
import StratForge.Callbacks
import StratForge.Brackets
import StratForge.DeskRun
import StratForge.Absorbing
import StratForge.Books
import StratForge.NoneLost
import StratForge.Oco
import StratForge.LiveTerminal
import StratForge.Redelivery
import StratForge.Telescope
import StratForge.KillSwitch
import StratForge.Flatten
import StratForge.Agreement
import StratForge.Notified
import StratForge.Ledger
import StratForge.Valuation
import StratForge.Lockstep
import StratForge.Cerebro
import StratForge.Delivery
import StratForge.Lookahead
import StratForge.PlanOrder
import StratForge.Resamplers
import StratForge.TwoRuns
import StratForge.Batcher
import StratForge.StreamMetrics
import StratForge.StreamTrades
import StratForge.Config
import StratForge.FeedsArray
import StratForge.Window
import StratForge.Evaluator
import StratForge.Marks
import StratForge.Replace
import StratForge.Results
import StratForge.Preflight
import StratForge.PopFeatures
import StratForge.Collector
import StratForge.Collecting
import StratForge.FedBars
import StratForge.Tokens
import StratForge.OneOutcome
import StratForge.Settling
import StratForge.Triggers
import StratForge.EveryOutcome
import StratForge.OwnBars
import StratForge.WarmUp
import StratForge.WorkPool
import StratForge.Optimizer
import StratForge.Access
import StratForge.Indicators
import StratForge.InStep
import StratForge.GaussJordan
import StratForge.RollingAdf
import StratForge.RunBacktest
import StratForge.Readiness
import StratForge.MovingAverages
import StratForge.Oscillators
import StratForge.HistoryContract
import StratForge.Periods
import StratForge.Replay
import StratForge.Averaging
import StratForge.Marginal
import StratForge.Tiered
import StratForge.FillRange
import StratForge.CashFloor
import StratForge.Lined
import StratForge.Turns
import StratForge.Expiry
import StratForge.Trailing
import StratForge.SlidingWindow
import StratForge.RateLimit
import StratForge.Reconnect
import StratForge.PiecewiseLinear
import StratForge.Gating
import StratForge.Performance
import StratForge.RunningPeak
import StratForge.Drawdowns
import StratForge.Accumulators
import StratForge.TradeStats
import StratForge.Shadows
import StratForge.Censored
import StratForge.CsvData
import StratForge.JsonParse
import StratForge.Literals
import StratForge.JsonTree
import StratForge.Cleanup
import StratForge.Tuples
import StratForge.ParamGrid
import StratForge.Driven
import StratForge.Exact
import StratForge.Quotes
import StratForge.DirectionalRange
import StratForge.Extremes
import StratForge.SarLaws
import StratForge.SuperTrend
import StratForge.ZigZag
import StratForge.OrderStatistics
import StratForge.Quantile
import StratForge.Smoothing
import StratForge.NestedEma
import StratForge.MacdComposed
import StratForge.Cones
import StratForge.Strength
import StratForge.OscillatorBands
import StratForge.Composites
import StratForge.CompositeReady
import StratForge.Mixtures
import StratForge.LookBack
import StratForge.Adaptive
import StratForge.SignChanges
import StratForge.Crossover
import StratForge.DelayLine
import StratForge.Displacement
import StratForge.Places
import StratForge.ExtremeIndex
import StratForge.LeastSquares
import StratForge.Regression
import StratForge.Reductions
import StratForge.Trellis
import StratForge.Hmm2
import StratForge.DirectSearch
import StratForge.Garch11
import StratForge.AdfPValue
import StratForge.KeySearch
import StratForge.FreshFills
import StratForge.Undelivered
import StratForge.SameData
import StratForge.CausalIndicators
import StratForge.RowMajor
import StratForge.ShermanMorrison
import StratForge.RollingPerBar
import StratForge.EndOfData
import StratForge.Unlinked
import StratForge.Transparent
import StratForge.SeventeenDigits
import StratForge.Spelling
import StratForge.HypothesisResult
import StratForge.IncrementData
import StratForge.ResultsTree
import StratForge.OneUnit
import StratForge.Onlookers
import StratForge.Rollup
import StratForge.Reestimation
import StratForge.Likelihood
import StratForge.Ratios
import StratForge.BuySell
import StratForge.BothModes
import StratForge.Walks
import StratForge.Hurst
import StratForge.Kernels
import StratForge.WeightedWindows
import StratForge.VolumeFlow
