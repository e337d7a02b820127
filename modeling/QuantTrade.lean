import QuantTrade.Library.Transition
import QuantTrade.Library.Interleaving
import QuantTrade.Library.BoundedFifo
import QuantTrade.Library.RingIndex
import QuantTrade.Library.LittleEndian
import QuantTrade.Library.ByteWindow
import QuantTrade.Library.SeparatedSearch
import QuantTrade.Library.BoundedBuffer
import QuantTrade.Library.Framing
import QuantTrade.Library.WireLog
import QuantTrade.Library.KeyedStore
import QuantTrade.Library.QueueSweep
import QuantTrade.Library.Slicing
import QuantTrade.Library.Pacing
import QuantTrade.Library.Smoothing
import QuantTrade.Library.CheckedArray
import QuantTrade.Library.RunningMoments
import QuantTrade.Library.RunningMax
import QuantTrade.Library.OrderStatistic
import QuantTrade.Library.Json
import QuantTrade.Library.HttpMessage
import QuantTrade.Common.Types
import QuantTrade.Common.Doubles
import QuantTrade.Infra.SPSCQueue
import QuantTrade.Infra.SPSCInterleaved
import QuantTrade.Infra.MPSCQueue
import QuantTrade.Infra.MemoryPool
import QuantTrade.MarketData.Types
import QuantTrade.MarketData.Wire
import QuantTrade.MarketData.Normalizer
import QuantTrade.MarketData.OrderBook
import QuantTrade.MarketData.BookLocking
import QuantTrade.MarketData.BookBuilder
import QuantTrade.MarketData.BookSides
import QuantTrade.MarketData.DepthRoundTrip
import QuantTrade.MarketData.TradesInBook
import QuantTrade.MarketData.FeedHandler
import QuantTrade.MarketData.PcapReplayer
import QuantTrade.MarketData.FeedAgreement
import QuantTrade.MarketData.BatchParsing
import QuantTrade.MarketData.FeedDelivery
import QuantTrade.MarketData.CaptureFile
import QuantTrade.MarketData.ReplayBuffer
import QuantTrade.MarketData.ReplayEndian
import QuantTrade.MarketData.ReplayTiming
import QuantTrade.Oms.Order
import QuantTrade.Oms.OrderStateMachine
import QuantTrade.Oms.FillTracker
import QuantTrade.Oms.OMS
import QuantTrade.Oms.Lifecycle
import QuantTrade.Oms.Delivery
import QuantTrade.Oms.RejectedEvents
import QuantTrade.Oms.FillConservation
import QuantTrade.Oms.StoreIntegrity
import QuantTrade.Oms.ExchangeAgreement
import QuantTrade.Position.PositionManager
import QuantTrade.Position.PnlCalculator
import QuantTrade.Position.Portfolio
import QuantTrade.Position.AverageCost
import QuantTrade.Position.SlotReads
import QuantTrade.Risk.CircuitBreaker
import QuantTrade.Risk.BreakerLatch
import QuantTrade.Risk.ResetRace
import QuantTrade.Risk.PositionLimits
import QuantTrade.Risk.Reservations
import QuantTrade.Risk.ReserveRace
import QuantTrade.Risk.RateLimiter
import QuantTrade.Risk.TokenBucket
import QuantTrade.Risk.RefillDrift
import QuantTrade.Risk.RefillOverflow
import QuantTrade.Risk.LimitOverflow
import QuantTrade.Risk.RefillRace
import QuantTrade.Risk.PreTradeRisk
import QuantTrade.Risk.Gate
import QuantTrade.Risk.CheckOverflow
import QuantTrade.Connectivity.FixMessage
import QuantTrade.Connectivity.FixEncode
import QuantTrade.Connectivity.FixFraming
import QuantTrade.Connectivity.FixFields
import QuantTrade.Connectivity.FixRoundTrip
import QuantTrade.Connectivity.FixCapacity
import QuantTrade.Connectivity.FixReceive
import QuantTrade.Connectivity.FixNumbers
import QuantTrade.Connectivity.BinaryProtocol
import QuantTrade.Connectivity.BinaryReceive
import QuantTrade.Connectivity.BinaryAcceptance
import QuantTrade.Connectivity.BinaryStarvation
import QuantTrade.Connectivity.OutgoingStream
import QuantTrade.Connectivity.FixConnection
import QuantTrade.Connectivity.FixSequence
import QuantTrade.Connectivity.Correlation
import QuantTrade.Connectivity.SessionManager
import QuantTrade.Connectivity.Heartbeat
import QuantTrade.Connectivity.SimGateway
import QuantTrade.Execution.SmartRouter
import QuantTrade.Execution.Twap
import QuantTrade.Execution.Vwap
import QuantTrade.Execution.VwapBounds
import QuantTrade.Execution.VwapSlices
import QuantTrade.Execution.OnSchedule
import QuantTrade.Execution.Pov
import QuantTrade.Strategy.MarketMaker
import QuantTrade.Strategy.OrphanedQuotes
import QuantTrade.Strategy.SelfQuote
import QuantTrade.Strategy.Momentum
import QuantTrade.Strategy.OverClosing
import QuantTrade.Strategy.ReEntry
import QuantTrade.Strategy.MovingAverages
import QuantTrade.Strategy.WelfordStat
import QuantTrade.Strategy.SpreadEstimates
import QuantTrade.Strategy.StatArb
import QuantTrade.Strategy.WholePairs
import QuantTrade.Main.Pipeline
import QuantTrade.Main.Journal
import QuantTrade.Main.RequestFlow
import QuantTrade.Main.OrderIds
import QuantTrade.Main.Rounds
import QuantTrade.Main.DailyLossStop
import QuantTrade.Main.FillAttribution
import QuantTrade.Main.LiveOrders
import QuantTrade.Main.RiskPosition
import QuantTrade.Main.Inventory
import QuantTrade.Main.CaptureMode
import QuantTrade.Backtest.SimExchange
import QuantTrade.Backtest.MatchingMarket
import QuantTrade.Backtest.ImmediateOrders
import QuantTrade.Backtest.Backtester
import QuantTrade.Backtest.OmsProtocol
import QuantTrade.Backtest.QuantityLedger
import QuantTrade.Backtest.MetricsReport
import QuantTrade.Backtest.SharpeRatio
import QuantTrade.Backtest.MainBacktest
import QuantTrade.Monitor.Histogram
import QuantTrade.Monitor.LatencyTracker
import QuantTrade.Monitor.Alerting
import QuantTrade.Monitor.AlertHistory
import QuantTrade.Monitor.Webhook
import QuantTrade.Monitor.MetricsRegistry
import QuantTrade.Library.AtomicProgram
import QuantTrade.Library.CriticalSection
import QuantTrade.Library.Commitments
import QuantTrade.Risk.ConformingCalls
import QuantTrade.Strategy.QuoteExposure
