import PiDispatch.DollarInterleaving
import PiDispatch.HostGiveBack
import PiDispatch.HostOvercommit
import PiDispatch.HostWaiting
import PiDispatch.RecordableHold
import PiDispatch.RunLedgerRuns
import PiDispatch.Kernel.Apportion
import PiDispatch.Priorities
import PiDispatch.PrioritiesLaws
import PiDispatch.AllocationState
import PiDispatch.Kernel.Contract
import PiDispatch.Allocation
import PiDispatch.AllocationRuns
import PiDispatch.ApprovalState
import PiDispatch.ApprovalLifecycle
import PiDispatch.Kernel.Service
import PiDispatch.WaitState
import PiDispatch.WatchStore
import PiDispatch.WatchStoreRuns
import PiDispatch.HeldReplies
import PiDispatch.HeldSettle
import PiDispatch.HeldSettleRuns
import PiDispatch.GovernedDollars
import PiDispatch.FleetLease
import PiDispatch.SteerInbox
import PiDispatch.SteerInboxRuns
import PiDispatch.InboxRelay
import PiDispatch.InboxRelayRuns
import PiDispatch.Kernel.Tokens
import PiDispatch.LateForge
import PiDispatch.LateForgeRuns
import PiDispatch.Kernel.JsonText
import PiDispatch.Kernel.JsonRoundTrip
import PiDispatch.Kernel.Stream
import PiDispatch.SteerFrames
import PiDispatch.SteerFramesRuns
import PiDispatch.DollarAttempt
import PiDispatch.Kernel.Deeds
import PiDispatch.DollarDeeds
import PiDispatch.DollarAttemptRuns
import PiDispatch.DollarFloors
import PiDispatch.Kernel.Utf8
import PiDispatch.Kernel.JsonBalance
import PiDispatch.ConsoleAudit
import PiDispatch.ConsoleAuditRows
import PiDispatch.ConsoleAuditFiles
import PiDispatch.ConsoleAuditDirectory
import PiDispatch.ConsoleAuditSteps
import PiDispatch.ConsoleAuditRuns
import PiDispatch.ConsoleAuditTamper
import PiDispatch.Kernel.Watch
import PiDispatch.RecoveryQueue
import PiDispatch.RecoveryEnqueueRuns
import PiDispatch.RecoverySweep
import PiDispatch.RecoverySweepRuns
import PiDispatch.Payload
import PiDispatch.ProviderCalls
import PiDispatch.CostGuard
import PiDispatch.CostGuardRuns
import PiDispatch.PayloadLaws
import PiDispatch.PolicyPayload
import PiDispatch.UsageMeter
import PiDispatch.ChildMeter
import PiDispatch.CostGuardForward
import PiDispatch.CostBoundLaws
import PiDispatch.ChildMoves
import PiDispatch.ChildMeterRuns
import PiDispatch.ChildLedger
import PiDispatch.UsageMeterLaws
import PiDispatch.LedgerRows
import PiDispatch.Kernel.DictSums
import PiDispatch.ChildLedgerRead
import PiDispatch.ChildLedgerText
import PiDispatch.ChildFolds
import PiDispatch.ChildFoldRuns
import PiDispatch.ChildLedgerRuns
import PiDispatch.ChildWatch
import PiDispatch.SessionRecovery
import PiDispatch.SessionRecoveryRuns
import PiDispatch.SessionStore
import PiDispatch.SessionStoreConduct
import PiDispatch.SessionStoreRuns
import PiDispatch.SessionChainRuns
import PiDispatch.TouchState
import PiDispatch.TouchStateRuns
import PiDispatch.ExitUsage
import PiDispatch.ExitUsageRuns
import PiDispatch.UsageRebuild
import PiDispatch.PrioritiesExact
import PiDispatch.QuestionGroups
import PiDispatch.QuestionGroupRuns
import PiDispatch.Kernel.Files
import PiDispatch.Kernel.Rely
import PiDispatch.SandboxStore
import PiDispatch.GatewaySession
import PiDispatch.RunnerInbox
import PiDispatch.RunnerInboxRuns
import PiDispatch.GatewaySessionRuns
import PiDispatch.SandboxKept
import PiDispatch.SandboxStoreRuns
import PiDispatch.BudgetFaults
import PiDispatch.DollarFaults
import PiDispatch.PrioritiesRebase
import PiDispatch.PauseWindows
import PiDispatch.PauseEnds
import PiDispatch.PauseOccurrences
import PiDispatch.JsonDuplicates
import PiDispatch.JsonDuplicatesExact
import PiDispatch.ConsoleAuditPages
import PiDispatch.ConsoleAuditPaging
import PiDispatch.Kernel.Fence
import PiDispatch.SteerText
import PiDispatch.SteerMessages
import PiDispatch.SteerWritten
import PiDispatch.EnvUtf8
import PiDispatch.TranscriptTail
import PiDispatch.Kernel.Rewrite
import PiDispatch.Kernel.Pattern
import PiDispatch.RedactSecrets
import PiDispatch.RedactSecretsLaws
import PiDispatch.ChildSpent
import PiDispatch.PayloadEdits
import PiDispatch.StderrTranscript
import PiDispatch.StderrChunks
import PiDispatch.StderrRecords
import PiDispatch.ChildSpent
import PiDispatch.PayloadEdits
import PiDispatch.StderrTranscript
import PiDispatch.StderrChunks
import PiDispatch.StderrRecords
import PiDispatch.PayloadEdits
import PiDispatch.StderrTranscript
import PiDispatch.StderrChunks
import PiDispatch.StderrRecords
import PiDispatch.StderrChunks
import PiDispatch.StderrRecords
import PiDispatch.Kernel.Points
import PiDispatch.TranscriptClip
import PiDispatch.RunProgressRuns
import PiDispatch.TurnBudget
import PiDispatch.CancelStateRuns
import PiDispatch.PollerComments
import PiDispatch.PollerPullsRuns
import PiDispatch.PollerReviews
import PiDispatch.PollerEventsRuns
import PiDispatch.CheckpointLock
