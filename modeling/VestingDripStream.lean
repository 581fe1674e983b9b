import VestingDripStream.Lib.Checked
import VestingDripStream.Lib.Transaction
import VestingDripStream.Lib.Run
import VestingDripStream.Lib.KeyValue
import VestingDripStream.Lib.Gate
import VestingDripStream.Lib.Expiring
import VestingDripStream.Lib.CheckThenAct
import VestingDripStream.Lib.DueWork
import VestingDripStream.Lib.Client
import VestingDripStream.Lib.ReadCommitted
import VestingDripStream.Lib.Paging
import VestingDripStream.Lib.Keyset
import VestingDripStream.Lib.Piecewise
import VestingDripStream.Lib.Buckets
import VestingDripStream.Lib.Copies
import VestingDripStream.Lib.Base64
import VestingDripStream.Lib.Utf8
import VestingDripStream.Lib.BigEndian
import VestingDripStream.Lib.Xdr
import VestingDripStream.Contract.Types
import VestingDripStream.Contract.Storage
import VestingDripStream.Contract.StorageLaws
import VestingDripStream.Contract.Schedule
import VestingDripStream.Contract.EntryPoints
import VestingDripStream.Contract.Effects
import VestingDripStream.Contract.Stream
import VestingDripStream.Contract.PauseNeutrality
import VestingDripStream.Contract.PathIndependence
import VestingDripStream.Contract.Requests
import VestingDripStream.Contract.Creation
import VestingDripStream.Contract.Terminal
import VestingDripStream.Contract.SponsorIndex
import VestingDripStream.Contract.Solvency
import VestingDripStream.Contract.Drains
import VestingDripStream.Contract.VariableRate
import VestingDripStream.Contract.VariableAccrual
import VestingDripStream.Contract.AllRequests
import VestingDripStream.Contract.Recipients
import VestingDripStream.Contract.Allowlists
import VestingDripStream.Contract.ClaimAll
import VestingDripStream.Contract.Agreement
import VestingDripStream.Contract.Views
import VestingDripStream.Contract.Ttl
import VestingDripStream.Contract.Reentrant
import VestingDripStream.Contract.Reentrancy
import VestingDripStream.Contract.Announced
import VestingDripStream.Contract.Statistics
import VestingDripStream.Contract.Lifecycle
import VestingDripStream.Backend.Database
import VestingDripStream.Backend.Persistence
import VestingDripStream.Backend.EventRows
import VestingDripStream.Backend.Acceptance
import VestingDripStream.Backend.Balances
import VestingDripStream.Backend.ReusedRecipients
import VestingDripStream.Backend.Sessions
import VestingDripStream.Backend.StatusMachine
import VestingDripStream.Backend.Recompute
import VestingDripStream.Backend.Decoder
import VestingDripStream.Backend.Decoders
import VestingDripStream.Backend.Indexer
import VestingDripStream.Backend.CircuitBreaker
import VestingDripStream.Backend.Idempotency
import VestingDripStream.Backend.AuthNonces
import VestingDripStream.Backend.Expiry
import VestingDripStream.Backend.TerminalEvents
import VestingDripStream.Backend.ScheduleVersions
import VestingDripStream.Backend.JobQueue
import VestingDripStream.Backend.JobsKept
import VestingDripStream.Backend.WsStreams
import VestingDripStream.Backend.Subscriptions
import VestingDripStream.Backend.ViewCache
import VestingDripStream.Backend.Migrate
import VestingDripStream.Backend.WsCleanup
import VestingDripStream.Backend.SponsorStreams
import VestingDripStream.Contract.CreationLimits
import VestingDripStream.Lib.Floors
import VestingDripStream.Lib.LastWrites
import VestingDripStream.Contract.Fees
import VestingDripStream.Contract.Milestones
import VestingDripStream.Contract.Batches
import VestingDripStream.Contract.VariableShape
import VestingDripStream.Lib.Refill
import VestingDripStream.Backend.TokenBucket
import VestingDripStream.Backend.RateLimit
import VestingDripStream.Lib.SlidingWindow
import VestingDripStream.Lib.History
import VestingDripStream.Backend.CircuitHistory
import VestingDripStream.Lib.Bitwise
import VestingDripStream.Backend.Amounts
import VestingDripStream.Backend.Symbols
import VestingDripStream.Lib.RoundRobin
import VestingDripStream.Backend.RpcPool
import VestingDripStream.Backend.RpcQuarantine
import VestingDripStream.Lib.Chunks
import VestingDripStream.Backend.AdminBackfill
import VestingDripStream.Backend.BackfillScript
import VestingDripStream.Lib.OffsetPaging
import VestingDripStream.Lib.Csv
import VestingDripStream.Backend.ScheduleExport
import VestingDripStream.Frontend.ExportCsv
import VestingDripStream.Lib.Decimal
import VestingDripStream.Frontend.TokenAmount
import VestingDripStream.Frontend.StreamSchedule
import VestingDripStream.Lib.Base32
import VestingDripStream.Backend.AuthSignature
import VestingDripStream.Frontend.Abbreviation
import VestingDripStream.Lib.Hex
import VestingDripStream.Backend.WebhookSignature
import VestingDripStream.Lib.StableSort
import VestingDripStream.Frontend.DataTable
import VestingDripStream.Backend.GraphQLDocument
import VestingDripStream.Backend.GraphQLDepth
import VestingDripStream.Backend.GraphQLComplexity
import VestingDripStream.Lib.Numerals
import VestingDripStream.Lib.Patterns
import VestingDripStream.Lib.UrlHost
import VestingDripStream.Backend.WebhookUrl
import VestingDripStream.Frontend.TxTracking
import VestingDripStream.Contract.Authority
import VestingDripStream.Backend.AuthSessions
import VestingDripStream.Backend.WebhookDelivery
import VestingDripStream.Backend.Shutdown
import VestingDripStream.Lib.Lease
import VestingDripStream.Backend.Notifications
import VestingDripStream.Backend.BalanceJob
import VestingDripStream.Contract.EventLog
import VestingDripStream.Backend.IndexedClaims
import VestingDripStream.Contract.VariableReserves
import VestingDripStream.Contract.VariableView
import VestingDripStream.Backend.ScheduleListing
import VestingDripStream.Frontend.WebSocketManager
import VestingDripStream.Frontend.SessionTimeout
