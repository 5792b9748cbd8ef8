import MatchingEngine.Library.SortedSet
import MatchingEngine.Library.Table
import MatchingEngine.Library.Footprint
import MatchingEngine.Library.ExpiringSet
import MatchingEngine.Library.Numerals
import MatchingEngine.Library.Doubles
import MatchingEngine.Library.Grouping
import MatchingEngine.Library.Withdrawals
import MatchingEngine.Library.Transactions
import MatchingEngine.Library.Lockstep
import MatchingEngine.Library.Coalescing
import MatchingEngine.Library.Consumer
import MatchingEngine.Library.Throttle
import MatchingEngine.Library.Ranks
import MatchingEngine.Types
import MatchingEngine.Valkey
import MatchingEngine.MatchScript
import MatchingEngine.MatchPlan
import MatchingEngine.PlanFacts
import MatchingEngine.BookInvariant
import MatchingEngine.SelfTrade
import MatchingEngine.Crossing
import MatchingEngine.Priority
import MatchingEngine.Maximal
import MatchingEngine.Engine
import MatchingEngine.Cache
import MatchingEngine.Requests
import MatchingEngine.EngineAgreement
import MatchingEngine.Postgres
import MatchingEngine.Gateway
import MatchingEngine.Conservation
import MatchingEngine.Session
import MatchingEngine.PositivePrices
import MatchingEngine.Outcomes
import MatchingEngine.Cancellation
import MatchingEngine.Obligations
import MatchingEngine.CancelledMakers
import MatchingEngine.Solvency
import MatchingEngine.Failures
import MatchingEngine.ApiWorker
import MatchingEngine.MarketOrders
import MatchingEngine.Commits
import MatchingEngine.BatchPersist
import MatchingEngine.BatchBalances
import MatchingEngine.Columns
import MatchingEngine.PersistEquivalence
import MatchingEngine.Idempotency
import MatchingEngine.Expiry
import MatchingEngine.TimedRequests
import MatchingEngine.OptimisticCas
import MatchingEngine.Reseeding
import MatchingEngine.CancelRace
import MatchingEngine.CasCalls
import MatchingEngine.BalanceLocks
import MatchingEngine.SelfTradeRuns
import MatchingEngine.Isolation
import MatchingEngine.PairLock
import MatchingEngine.Subscriptions
import MatchingEngine.GreedyEngine
import MatchingEngine.FillOrKill
import MatchingEngine.SplitOrders
import MatchingEngine.EngineReport
import MatchingEngine.Reservations
import MatchingEngine.Scaling
import MatchingEngine.HashFormat
import MatchingEngine.WireFormat
import MatchingEngine.Depth
import MatchingEngine.Ghosts
import MatchingEngine.PublishedBook
import MatchingEngine.TradeSettlement
import MatchingEngine.PersistPaths
import MatchingEngine.PersistReplay
import MatchingEngine.PersistFaults
import MatchingEngine.Warmup
import MatchingEngine.ReleasedAssets
import MatchingEngine.ScoreBounds
import MatchingEngine.CancelAll
import MatchingEngine.MatcherCalls
import MatchingEngine.Recovery
import MatchingEngine.AdminCommands
import MatchingEngine.ConcurrentSweep
import MatchingEngine.Debouncer
import MatchingEngine.OrderQueues
import MatchingEngine.PersistWorker
import MatchingEngine.CacheFeed
import MatchingEngine.LiveBook
import MatchingEngine.WebSockets
import MatchingEngine.Metrics
import MatchingEngine.UserCache
import MatchingEngine.DispatchModes
import MatchingEngine.QueueFailover
