import Vuzol.Theorems.Assistant.Plans
import Vuzol.Theorems.Assistant.Turns
import Vuzol.Theorems.Backup.Dsn
import Vuzol.Theorems.Backup.Labels
import Vuzol.Theorems.Backup.Manifest
import Vuzol.Theorems.Backup.Restore
import Vuzol.Theorems.Backup.Staging
import Vuzol.Theorems.Discussion.Batches
import Vuzol.Theorems.Discussion.CarryForward
import Vuzol.Theorems.Discussion.Memory
import Vuzol.Theorems.Discussion.Observation
import Vuzol.Theorems.Discussion.PackageRetry
import Vuzol.Theorems.Discussion.Skips
import Vuzol.Theorems.Execution.Artifacts
import Vuzol.Theorems.Execution.Attempts
import Vuzol.Theorems.Execution.ConnectProxy
import Vuzol.Theorems.Execution.Journal
import Vuzol.Theorems.Execution.ProviderTarget
import Vuzol.Theorems.Execution.Reconciliation
import Vuzol.Theorems.Execution.Redaction
import Vuzol.Theorems.Execution.ValidationRecovery
import Vuzol.Theorems.Execution.Whitespace
import Vuzol.Theorems.Execution.Worktrees
import Vuzol.Theorems.Leadership.Acceptance
import Vuzol.Theorems.Leadership.Amendments
import Vuzol.Theorems.Leadership.Continuation
import Vuzol.Theorems.Leadership.Inference
import Vuzol.Theorems.Leadership.Jobs
import Vuzol.Theorems.Leadership.Notebooks
import Vuzol.Theorems.Leadership.Suspension
import Vuzol.Theorems.Leadership.Turns
import Vuzol.Theorems.Leadership.Watchdog
import Vuzol.Theorems.Ops.LiveArtifacts
import Vuzol.Theorems.Ops.Provenance
import Vuzol.Theorems.Ops.StaticPublish
import Vuzol.Theorems.Ops.StaticTree
import Vuzol.Theorems.Plans.Contract
import Vuzol.Theorems.Plans.RoundTrip
import Vuzol.Theorems.Providers.Accounts
import Vuzol.Theorems.Providers.Family
import Vuzol.Theorems.Providers.Policy
import Vuzol.Theorems.Providers.Receipts
import Vuzol.Theorems.Providers.StepLedger
import Vuzol.Theorems.Review.Chunks
import Vuzol.Theorems.Review.Delivery
import Vuzol.Theorems.Review.Verdicts
import Vuzol.Theorems.Telegram.Delivery
import Vuzol.Theorems.Telegram.Formatting
import Vuzol.Theorems.Telegram.Parts
import Vuzol.Theorems.Workflow.Completion
import Vuzol.Theorems.Workflow.History
import Vuzol.Theorems.Workflow.LeaseRecovery
import Vuzol.Theorems.Workflow.PauseResume
import Vuzol.Theorems.Workflow.Publication
import Vuzol.Theorems.Workflow.ResultApproval
import Vuzol.Theorems.Workflow.Unattended
