import ActixPura.Runs
import ActixPura.OrderModel
import ActixPura.QueueMap
import ActixPura.OrderBook
import ActixPura.BookCoherence
import ActixPura.OrderMatcher
import ActixPura.MatchingRules
import ActixPura.LiveBook
import ActixPura.BookRuns
import ActixPura.MatchingTermination
import ActixPura.UncrossedBook
import ActixPura.FillAccounting
import ActixPura.PricePriority
import ActixPura.OrderActor
import ActixPura.ExecutionEngine
import ActixPura.FilledStatus
import ActixPura.CancelSafety
import ActixPura.StateMachine
import ActixPura.RaftNode
import ActixPura.LogAttestation
import ActixPura.RaftLog
import ActixPura.RaftNetwork
import ActixPura.LogMatching
import ActixPura.CommittedEntries
import ActixPura.VoteSafety
import ActixPura.LeaderCommit
import ActixPura.Replicas
import ActixPura.RoleCoherence
import ActixPura.MatchingPass
import ActixPura.PlacementOrder
import ActixPura.TimePriority
import ActixPura.OrderIsolation
import ActixPura.AccountActor
import ActixPura.ClusterMessages
import ActixPura.VectorClock
import ActixPura.ConflictResolution
import ActixPura.ByteCodec
import ActixPura.Bincode
import ActixPura.Serialization
import ActixPura.Framing
import ActixPura.Transport
import ActixPura.EnvelopeTransport
import ActixPura.Deliveries
import ActixPura.ProtoEnvelope
import ActixPura.MasterElection
import ActixPura.ElectionAgreement
import ActixPura.Broker
import ActixPura.AckTracking
import ActixPura.RemoteSubscriptions
import ActixPura.BrokerCopies
import ActixPura.SequenceNumbers
import ActixPura.BrokerCluster
import ActixPura.AckedDelivery
import ActixPura.ExactlyOnce
import ActixPura.Registry
import ActixPura.RegistryCache
import ActixPura.Locks
import ActixPura.RegistryTasks
import ActixPura.StaleActors
import ActixPura.Discovery
import ActixPura.Placement
import ActixPura.Consensus
import ActixPura.Migration
import ActixPura.Storage
import ActixPura.SwapRemove
import ActixPura.ContextFut
import ActixPura.ContextMoves
import ActixPura.RestartIsolation
import ActixPura.CanceledFutures
import ActixPura.StopProtocol
import ActixPura.TerminatedContext
import ActixPura.TerminateProtocol
import ActixPura.SinkWriter
import ActixPura.ExecutionTotals
import ActixPura.ResidualOrders
import ActixPura.TradeRecords
import ActixPura.ContinuousMatch
import ActixPura.ReachedCandidates
import ActixPura.SellsTaken
import ActixPura.LimitProtection
import ActixPura.PhantomOrders
import ActixPura.UpdateOrder
import ActixPura.Grouping
import ActixPura.TradeCreation
import ActixPura.TradeAttribution
import ActixPura.AcceptedIds
import ActixPura.OrderGateway
import ActixPura.OrderPipeline
import ActixPura.QueryEndpoints
import ActixPura.TwoLedgers
import ActixPura.PositionLedger
import ActixPura.CommitAdvance
import ActixPura.AppendIdempotence
import ActixPura.RaftOverflow
import ActixPura.CheckedRaft
import ActixPura.MachineIdentifiers
import ActixPura.FailedSave
import ActixPura.Snapshots
import ActixPura.OperationLog
import ActixPura.RestartBudget
import ActixPura.ErrorDispatch
import ActixPura.GreedyOrder
import ActixPura.RedundantPlacement
import ActixPura.RoundRobin
import ActixPura.ElectionPriority
import ActixPura.CacheTrimming
import ActixPura.LruCache
import ActixPura.Deduplicator
import ActixPura.PermUpTo
import ActixPura.ActixBroker
import ActixPura.BrokerHoldings
import ActixPura.BrokerSound
import ActixPura.BrokerDelivery
import ActixPura.MpscQueue
import ActixPura.MailboxDelivery
import ActixPura.MailboxWakeups
import ActixPura.MailboxCapacity
import ActixPura.ByteWriter
import ActixPura.SyncArbiter
import ActixPura.StreamCombinators
