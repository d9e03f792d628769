import EventSorcery.Lib.Machine
import EventSorcery.Lib.SeqLog
import EventSorcery.Lib.Json
import EventSorcery.Lib.Batch
import EventSorcery.Entity
import EventSorcery.Storage
import EventSorcery.Job
import EventSorcery.JobLog
import EventSorcery.Engine
import EventSorcery.Commit
import EventSorcery.Repository
import EventSorcery.Projection
import EventSorcery.CatchUp
import EventSorcery.JobQueue
import EventSorcery.JobRuntime
import EventSorcery.JobProjection
import EventSorcery.JobSystem
import EventSorcery.JobSafety
import EventSorcery.QueueSafety
import EventSorcery.LeaseSafety
import EventSorcery.Store
import EventSorcery.StoreSystem
import EventSorcery.StoreSafety
import EventSorcery.StoreReaders
import EventSorcery.Snapshots
import EventSorcery.Sequential
import EventSorcery.Schema
import EventSorcery.SchemaSafety
import EventSorcery.Startup
import EventSorcery.Abi
import EventSorcery.Dispatch
import EventSorcery.DispatchSpec
import EventSorcery.WorkerSystem
import EventSorcery.DispatchSafety
import EventSorcery.AbiSafety
import EventSorcery.Retained
import EventSorcery.Views
import EventSorcery.ViewSystem
import EventSorcery.ViewRecovery
import EventSorcery.Requests
import EventSorcery.PageWalk
import EventSorcery.CloseSystem
import EventSorcery.TokenSystem
import EventSorcery.Lib.Decoder
import EventSorcery.Responses
import EventSorcery.Provenance
import EventSorcery.DispatchedJob
import EventSorcery.Lib.Sql
import EventSorcery.JobPoll
import EventSorcery.JobCounters
import EventSorcery.JobProgress
import EventSorcery.CommitLimit
import EventSorcery.Conflicts
import EventSorcery.Delays
import EventSorcery.PageBudget
import EventSorcery.ClaimEnding
import EventSorcery.JobRun
import EventSorcery.Backoff
import EventSorcery.ViewRepair
import EventSorcery.Lib.Crockford
import EventSorcery.JobIdentity
import EventSorcery.BindingStore
import EventSorcery.BindingStoreSafety
import EventSorcery.Lib.RefCount
import EventSorcery.OwnerSystem
import EventSorcery.OwnerSafety
import EventSorcery.Lib.SqlText
import EventSorcery.ViewQuery
import EventSorcery.NativePoll
import EventSorcery.Lib.Masked
import EventSorcery.StoreHandle
import EventSorcery.StoreHandleSafety
import EventSorcery.Heartbeat
import EventSorcery.HeartbeatSafety
import EventSorcery.Listing
import EventSorcery.ViewReads
import EventSorcery.ReactorDelivery
