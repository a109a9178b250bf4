import DocumentPipeline.Json.Canonical
import DocumentPipeline.Json.Records
import DocumentPipeline.ReportLog
import DocumentPipeline.Settings.Loading
import DocumentPipeline.Simulation.Bench
import DocumentPipeline.Simulation.Script
import DocumentPipeline.Proofs.Histories
import DocumentPipeline.Proofs.Polls
import DocumentPipeline.Proofs.Moves
import DocumentPipeline.Proofs.Balance
import DocumentPipeline.Proofs.Frames
import DocumentPipeline.Proofs.Sections
import DocumentPipeline.Proofs.Launching
import DocumentPipeline.Proofs.Waiting
import DocumentPipeline.Proofs.Submissions
import DocumentPipeline.Proofs.Roster
import DocumentPipeline.Proofs.Duties
import DocumentPipeline.Proofs.Accounting
import DocumentPipeline.Proofs.Injection
import DocumentPipeline.Proofs.Lines
import DocumentPipeline.Proofs.Handshake
import DocumentPipeline.Proofs.Drain
import DocumentPipeline.Proofs.Announcement
import DocumentPipeline.Proofs.Shutdown
import DocumentPipeline.Proofs.Answers
import DocumentPipeline.Proofs.Refusals
import DocumentPipeline.Proofs.Verdicts
import DocumentPipeline.Proofs.Failures
import DocumentPipeline.Proofs.Teardown
import DocumentPipeline.Proofs.Conclusion
import DocumentPipeline.Proofs.Escapes
import DocumentPipeline.Proofs.Handoffs
import DocumentPipeline.Proofs.Endings
import DocumentPipeline.Proofs.Causes
import DocumentPipeline.Proofs.Closing
import DocumentPipeline.Proofs.Stages
import DocumentPipeline.Proofs.LockLines
import DocumentPipeline.Proofs.Workload
import DocumentPipeline.Proofs.Batches
import DocumentPipeline.Proofs.Signals
import DocumentPipeline.Proofs.Draining
import DocumentPipeline.Proofs.Progress
import DocumentPipeline.Proofs.Standstill
import DocumentPipeline.Proofs.Backpressure
import DocumentPipeline.Proofs.Clients
import DocumentPipeline.Proofs.Lifecycle
import DocumentPipeline.Proofs.Tokens
import DocumentPipeline.Proofs.Trees
import DocumentPipeline.Proofs.RoundTrip
import DocumentPipeline.Proofs.Retries
import DocumentPipeline.Proofs.Overtaking
import DocumentPipeline.Proofs.Stalls
import DocumentPipeline.Proofs.Clock
import DocumentPipeline.Proofs.Looks
import DocumentPipeline.Proofs.Precedence
import DocumentPipeline.Proofs.Pollers
import DocumentPipeline.Proofs.InOrder
import DocumentPipeline.Proofs.Statuses
import DocumentPipeline.Proofs.ItemTexts
import DocumentPipeline.Proofs.Sizes
import DocumentPipeline.Proofs.TomlTexts
import DocumentPipeline.Proofs.Building
import DocumentPipeline.Proofs.Bookkeeping
