import Rush.Foundation.Execution
import Rush.Foundation.History
import Rush.Foundation.Simulation
import Rush.Foundation.Interleaving
import Rush.Foundation.KeyedRows
import Rush.Actor.Error
import Rush.Actor.StopFinality
import Rush.Actor.Registry
import Rush.Actor.Unregistration
import Rush.Actor.PathUniqueness
import Rush.Actor.RestartLiveness
import Rush.Actor.SystemShutdown
import Rush.Actor.ShutdownRoots
import Rush.Actor.InnerActions
import Rush.Actor.ParentChild
import Rush.Actor.RunnerWaits
import Rush.Actor.PairDeadlock
import Rush.Database.RocksDbIsolation
import Rush.Database.RocksDbPurge
import Rush.Database.Memory
import Rush.Database.Sqlite
import Rush.Database.Backend
import Rush.Database.BackendSpec
import Rush.Database.MemoryBackend
import Rush.Database.SqliteBackend
import Rush.Database.BackendAgreement
import Rush.Database.RocksDbBackend
import Rush.Persistence.Recovery
import Rush.Persistence.StartStore
import Rush.Persistence.EventReplay
import Rush.Persistence.LogInvariant
import Rush.Persistence.LogContract
import Rush.Persistence.SavedState
import Rush.Persistence.Transparency
import Rush.Persistence.PurgedStore
import Rush.Persistence.UnreadableEvent
import Rush.Persistence.StoreCalls
import Rush.Persistence.ClearText
import Rush.Persistence.SharedStorage
import Rush.Persistence.FailedPersist
import Rush.Persistence.DurableSnapshot
import Rush.Persistence.LightAtomicity
import Rush.Persistence.SuffixReplay
import Rush.Actor.PostStop
import Rush.Actor.StartedWindow
import Rush.Actor.Backoff
import Rush.Actor.RootStart
import Rush.Actor.Hierarchy
import Rush.Actor.HierarchySpec
import Rush.Actor.Orphans
import Rush.Foundation.LastInFirstOut
import Rush.Actor.ChildStops
import Rush.Actor.StopOrder
import Rush.Actor.Cascade
import Rush.Actor.Ancestry
import Rush.Database.RangeQuery
import Rush.Database.IterationPanics
import Rush.Persistence.AbsentEntry
import Rush.Persistence.ReadPanics
import Rush.Persistence.AbstractLog
import Rush.Persistence.EventRange
import Rush.Actor.RetryActor
import Rush.Actor.RetryAttempts
import Rush.Actor.FailedHandling
import Rush.Actor.StopRequests
import Rush.Actor.StopCallers
import Rush.Actor.CreatedChildren
import Rush.Actor.PathText
import Rush.Foundation.ByteOrder
import Rush.Foundation.Linearizability
import Rush.Actor.Messaging
import Rush.Foundation.Broadcast
import Rush.Actor.Sink
import Rush.Actor.SinkDelivery
import Rush.Actor.SystemRunner
import Rush.Actor.AskAnswers
import Rush.Actor.AskLinearizable
import Rush.Persistence.KeyOrder
import Rush.Persistence.ConcurrentStore
import Rush.Persistence.EveryManager
import Rush.Persistence.SeparateKeys
import Rush.Foundation.WaitFor
import Rush.Actor.Handshakes
import Rush.Actor.Channels
import Rush.Actor.WaitsFor
import Rush.Actor.ErrorReports
import Rush.Actor.FaultAnswers
import Rush.Actor.HierarchyProgress
import Rush.Persistence.ActorLives
import Rush.Persistence.KeptState
import Rush.Persistence.ActorRecovery
