import ContextqlServer.Lib.Rely
import ContextqlServer.Lib.Python
import ContextqlServer.Lib.Feed
import ContextqlServer.Deepsee.Synchronizer
import ContextqlServer.Deepsee.History
import ContextqlServer.Deepsee.Fetch
import ContextqlServer.Deepsee.Batch
import ContextqlServer.Deepsee.Fold
import ContextqlServer.Deepsee.Bootstrap
import ContextqlServer.Deepsee.Machine
import ContextqlServer.Deepsee.Consistency
import ContextqlServer.Deepsee.Crash
import ContextqlServer.Deepsee.Contiguous
import ContextqlServer.Deepsee.Instances
import ContextqlServer.Deepsee.Rest
import ContextqlServer.Deepsee.McpProvider
import ContextqlServer.Deepsee.Interference
import ContextqlServer.Deepsee.Torn
import ContextqlServer.Deepsee.Scores
import ContextqlServer.Deepsee.Acceptance
import ContextqlServer.Deepsee.Rebuild
import ContextqlServer.Lib.Isoformat
import ContextqlServer.Lib.JsonText
import ContextqlServer.Lib.Sql
import ContextqlServer.Db.Schema
import ContextqlServer.Db.Statements
import ContextqlServer.Db.Services
import ContextqlServer.Db.ContextCatalog
import ContextqlServer.Db.Calls
import ContextqlServer.Db.Shelf
import ContextqlServer.Db.Snapshots
import ContextqlServer.Db.Codec
import ContextqlServer.Db.Runs
import ContextqlServer.Db.ContextRows
import ContextqlServer.Db.VersionedMap
import ContextqlServer.Db.CatalogViews
import ContextqlServer.Db.NameReuse
import ContextqlServer.Db.CurrentPointer
import ContextqlServer.Lib.AsOf
import ContextqlServer.Db.AsOfAnswers
import ContextqlServer.Db.RetainedHistory
import ContextqlServer.Db.Promotions
import ContextqlServer.Db.Hydration
import ContextqlServer.Db.Restart
import ContextqlServer.Db.Tampering
import ContextqlServer.Db.LegacyRows
import ContextqlServer.Lib.JsonCompact
import ContextqlServer.Query.SelectLimits
import ContextqlServer.Query.ResponseBounds
import ContextqlServer.Db.Backfill
import ContextqlServer.Db.ContextIds
import ContextqlServer.Api.Providers
import ContextqlServer.Api.ReadableProviders
import ContextqlServer.Db.EngineMaps
import ContextqlServer.Lib.Trace
import ContextqlServer.Db.AuditTrail
import ContextqlServer.Scheduler.RefreshScheduler
import ContextqlServer.Scheduler.Isolation
import ContextqlServer.Lib.Threads
import ContextqlServer.Scheduler.Spacing
import ContextqlServer.Deepsee.Wire
import ContextqlServer.Deepsee.Chains
import ContextqlServer.Deepsee.Int64Keys
import ContextqlServer.Db.Lifecycle
import ContextqlServer.Db.LanguageEngine
import ContextqlServer.Db.AtomicUpdates
import ContextqlServer.Db.Deletion
import ContextqlServer.Db.StateFilter
import ContextqlServer.Scheduler.Cadence
import ContextqlServer.Deepsee.Cases
import ContextqlServer.Deepsee.RemoteProvider
import ContextqlServer.Deepsee.Retry
import ContextqlServer.Deepsee.Paging
import ContextqlServer.Deepsee.Batching
import ContextqlServer.Deepsee.Freshness
import ContextqlServer.Deepsee.Resolution
import ContextqlServer.Deepsee.TopK
import ContextqlServer.Db.ReadBack
import ContextqlServer.Db.CleanConnection
import ContextqlServer.Lib.Literals
import ContextqlServer.Db.DdlClauses
import ContextqlServer.Db.QualifiedNames
import ContextqlServer.Query.SizeEstimate
import ContextqlServer.Lib.InstantOrder
import ContextqlServer.Db.HistoryRange
import ContextqlServer.Db.BackfilledHashes
import ContextqlServer.Deepsee.NetEffect
import ContextqlServer.Deepsee.Filtering
import ContextqlServer.Lib.Numerals
import ContextqlServer.Db.MembershipEvents
import ContextqlServer.Db.Upgrades
import ContextqlServer.Lib.Shared
import ContextqlServer.Db.SharedConnection
import ContextqlServer.Deepsee.Recovery
import ContextqlServer.Deepsee.Quiescence
import ContextqlServer.Deepsee.ReadPaths
import ContextqlServer.Scheduler.Lifecycle
import ContextqlServer.Db.AuditLedger
import ContextqlServer.Db.Registries
import ContextqlServer.Db.EarlyPruning
