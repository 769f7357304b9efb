import UnleashSdk.BackupFile
import UnleashSdk.BackupPath
import UnleashSdk.CalendarTime
import UnleashSdk.ClientEvents
import UnleashSdk.ClientMachine
import UnleashSdk.ClientMutexes
import UnleashSdk.Config
import UnleashSdk.Context
import UnleashSdk.ContextQuery
import UnleashSdk.ContextRequests
import UnleashSdk.ContextSetters
import UnleashSdk.DecoderAcceptance
import UnleashSdk.Domain
import UnleashSdk.EtagCoherence
import UnleashSdk.EvaluationProgress
import UnleashSdk.Evaluations
import UnleashSdk.EventHandler
import UnleashSdk.EventOrder
import UnleashSdk.EventQueue
import UnleashSdk.EventRestart
import UnleashSdk.EventWakeups
import UnleashSdk.Events
import UnleashSdk.FetchOutcome
import UnleashSdk.Fetcher
import UnleashSdk.FlagUpdates
import UnleashSdk.HttpTransfer
import UnleashSdk.Impressions
import UnleashSdk.Intervals
import UnleashSdk.Lib.Amortized
import UnleashSdk.Lib.Bytes
import UnleashSdk.Lib.Calendar
import UnleashSdk.Lib.Cells
import UnleashSdk.Lib.Decimal
import UnleashSdk.Lib.Iso8601
import UnleashSdk.Lib.Json
import UnleashSdk.Lib.JsonPrefix
import UnleashSdk.Lib.JsonText
import UnleashSdk.Lib.KeyMap
import UnleashSdk.Lib.Machine
import UnleashSdk.Lib.Replica
import UnleashSdk.Lib.Signed
import UnleashSdk.Lib.Simulation
import UnleashSdk.Lib.UrlQuery
import UnleashSdk.Lib.WriteAhead
import UnleashSdk.Lifecycle
import UnleashSdk.LifecycleEvents
import UnleashSdk.Linearization
import UnleashSdk.Lives
import UnleashSdk.LocalTimestamp
import UnleashSdk.Metrics
import UnleashSdk.MetricsOutage
import UnleashSdk.MetricsPayload
import UnleashSdk.MetricsThread
import UnleashSdk.MonotoneReads
import UnleashSdk.OptionalAccess
import UnleashSdk.Polling
import UnleashSdk.PollingSequence
import UnleashSdk.Readiness
import UnleashSdk.ReadyEvents
import UnleashSdk.RequestHeaders
import UnleashSdk.RequestRate
import UnleashSdk.ResponseHeaders
import UnleashSdk.Restart
import UnleashSdk.ServerSync
import UnleashSdk.Shutdown
import UnleashSdk.StopReturns
import UnleashSdk.Storage
import UnleashSdk.Targeting
import UnleashSdk.Timestamps
import UnleashSdk.ToggleCodec
import UnleashSdk.Transport
import UnleashSdk.TransportChoice
import UnleashSdk.UpdateListener
import UnleashSdk.Usage
import UnleashSdk.UsageLedger
import UnleashSdk.UtcTimestamp
import UnleashSdk.VariantCoherence
import UnleashSdk.WorkerExceptions
