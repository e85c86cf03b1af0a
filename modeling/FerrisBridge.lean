import FerrisBridge.Bridge.Adapter
import FerrisBridge.Bridge.Exclusion
import FerrisBridge.Bridge.FirstAttempts
import FerrisBridge.Bridge.Handoff
import FerrisBridge.Bridge.Orchestrator
import FerrisBridge.Bridge.OutboxWorker
import FerrisBridge.Bridge.Restart
import FerrisBridge.Bridge.RestartSafety
import FerrisBridge.Bridge.Settlement
import FerrisBridge.Daemon.Commands
import FerrisBridge.Daemon.Host
import FerrisBridge.Daemon.Lifecycle
import FerrisBridge.Daemon.LifecycleExclusion
import FerrisBridge.Daemon.LifecycleLock
import FerrisBridge.Daemon.Ownership
import FerrisBridge.Daemon.Record
import FerrisBridge.Daemon.SingleDaemon
import FerrisBridge.Daemon.TornLock
import FerrisBridge.Format.Current
import FerrisBridge.Format.LogLine
import FerrisBridge.Format.Record
import FerrisBridge.Format.Shape
import FerrisBridge.Format.Text
import FerrisBridge.Format.Versioned
import FerrisBridge.Foundations.Checked
import FerrisBridge.Foundations.CrashLogic
import FerrisBridge.Foundations.Encoding
import FerrisBridge.Foundations.Files
import FerrisBridge.Foundations.Json
import FerrisBridge.Foundations.JsonText
import FerrisBridge.Foundations.Keyed
import FerrisBridge.Foundations.Masking
import FerrisBridge.Foundations.Occurrence
import FerrisBridge.Foundations.PathText
import FerrisBridge.Foundations.Program
import FerrisBridge.Foundations.Sequence
import FerrisBridge.Foundations.SortedMap
import FerrisBridge.Foundations.Storage
import FerrisBridge.Foundations.Text
import FerrisBridge.Foundations.Tickets
import FerrisBridge.Foundations.Trace
import FerrisBridge.Foundations.Word
import FerrisBridge.Policy.Access
import FerrisBridge.Runtime.Backoff
import FerrisBridge.Runtime.Confidentiality
import FerrisBridge.Runtime.Config
import FerrisBridge.Runtime.Event
import FerrisBridge.Runtime.Fields
import FerrisBridge.Runtime.Heading
import FerrisBridge.Runtime.Identity
import FerrisBridge.Runtime.Logging
import FerrisBridge.Runtime.Markers
import FerrisBridge.Runtime.Outbox
import FerrisBridge.Runtime.Polling
import FerrisBridge.Runtime.Queue
import FerrisBridge.Runtime.Redaction
import FerrisBridge.Runtime.RedactionOrder
import FerrisBridge.Runtime.RedactionSpans
import FerrisBridge.Runtime.Remnants
import FerrisBridge.Runtime.Retry
import FerrisBridge.Runtime.Run
import FerrisBridge.Runtime.Session
import FerrisBridge.Runtime.Spacing
import FerrisBridge.State.Atomicity
import FerrisBridge.State.Change
import FerrisBridge.State.Claim
import FerrisBridge.State.Continuation
import FerrisBridge.State.Duplicate
import FerrisBridge.State.Evolution
import FerrisBridge.State.Invariant
import FerrisBridge.State.Merge
import FerrisBridge.State.MergeValid
import FerrisBridge.State.Model
import FerrisBridge.State.Operation
import FerrisBridge.State.Preserve
import FerrisBridge.State.Recovery
import FerrisBridge.State.RunOrder
import FerrisBridge.State.Snapshot
import FerrisBridge.State.Validate
import FerrisBridge.Store.AgentRuns
import FerrisBridge.Store.Agreement
import FerrisBridge.Store.AtomicWrite
import FerrisBridge.Store.Call
import FerrisBridge.Store.Claiming
import FerrisBridge.Store.Completion
import FerrisBridge.Store.ConfigFile
import FerrisBridge.Store.Continuity
import FerrisBridge.Store.Crashes
import FerrisBridge.Store.Deliveries
import FerrisBridge.Store.DiskRefinement
import FerrisBridge.Store.Durability
import FerrisBridge.Store.Enqueue
import FerrisBridge.Store.History
import FerrisBridge.Store.LockKey
import FerrisBridge.Store.LoneWriter
import FerrisBridge.Store.Model
import FerrisBridge.Store.OnDisk
import FerrisBridge.Store.OutboxOrder
import FerrisBridge.Store.OutputIds
import FerrisBridge.Store.Ownership
import FerrisBridge.Store.Persistence
import FerrisBridge.Store.Recovery
import FerrisBridge.Store.Replay
import FerrisBridge.Store.Saving
import FerrisBridge.Store.Work
import FerrisBridge.Store.WriteSafety
