import Bobbit.Lib.Barrier
import Bobbit.Lib.Base64Url
import Bobbit.Lib.Bfs
import Bobbit.Lib.Blocks
import Bobbit.Lib.BoundedLane
import Bobbit.Lib.CappedClimb
import Bobbit.Lib.CycleSearch
import Bobbit.Lib.Decimal
import Bobbit.Lib.Dfs
import Bobbit.Lib.FileTree
import Bobbit.Lib.FreshName
import Bobbit.Lib.JsMap
import Bobbit.Lib.JsSet
import Bobbit.Lib.Json
import Bobbit.Lib.JsonRecord
import Bobbit.Lib.JsonRoundTrip
import Bobbit.Lib.Kahn
import Bobbit.Lib.Keyed
import Bobbit.Lib.List
import Bobbit.Lib.ParentTree
import Bobbit.Lib.ParentWalk
import Bobbit.Lib.Run
import Bobbit.Lib.Splice
import Bobbit.Lib.TwoKeyOrder
import Bobbit.Lib.Utf8
import Bobbit.Shared.MessageAuthor
import Bobbit.Server.ArchivePages
import Bobbit.Server.AuthorProjection
import Bobbit.Server.AuthorSidecar
import Bobbit.Server.BgProcessManager
import Bobbit.Server.BgProcessOutput
import Bobbit.Server.BobbitArchive
import Bobbit.Server.ChannelRegistry
import Bobbit.Server.ChildTeamScheduler
import Bobbit.Server.Chunker
import Bobbit.Server.CoalescedJsonWriter
import Bobbit.Server.CompactionCheckpoint
import Bobbit.Server.CompactionSidecar
import Bobbit.Server.Cookie
import Bobbit.Server.CostTracker
import Bobbit.Server.DeletionTombstones
import Bobbit.Server.DependsOnValidation
import Bobbit.Server.DynamicQueue
import Bobbit.Server.EventBuffer
import Bobbit.Server.GateSnapshot
import Bobbit.Server.GateStore
import Bobbit.Server.GoalStore
import Bobbit.Server.GoalSubtree
import Bobbit.Server.HostInterceptorRouter
import Bobbit.Server.HostNotificationDispatcher
import Bobbit.Server.InFlightSteers
import Bobbit.Server.InboxNudger
import Bobbit.Server.MentionMerge
import Bobbit.Server.OrchestrationCore
import Bobbit.Server.PlanMutation
import Bobbit.Server.PlanMutationStore
import Bobbit.Server.PromptConditionals
import Bobbit.Server.PromptQueue
import Bobbit.Server.ProposalFiles
import Bobbit.Server.RemoteState
import Bobbit.Server.RequestAdmission
import Bobbit.Server.RequestAdmissionPolicy
import Bobbit.Server.ReviewAnnotationStore
import Bobbit.Server.Semaphore
import Bobbit.Server.SessionCommandSerialiser
import Bobbit.Server.SessionDeletion
import Bobbit.Server.SessionSaver
import Bobbit.Server.SessionStore
import Bobbit.Server.SqlitePersistence
import Bobbit.Server.StaffTriggerEngine
import Bobbit.Server.SteerSplice
import Bobbit.Server.TaskManager
import Bobbit.Server.TaskStore
import Bobbit.Server.TemplateVars
import Bobbit.Server.TranscriptCursor
import Bobbit.Server.TranscriptSanitizer
import Bobbit.Server.TranscriptTree
import Bobbit.Server.WorkflowStore
import Bobbit.Server.WorkflowValidator
import Bobbit.Server.WritePermit
import Bobbit.App.MessageReducer
import Bobbit.App.MessageRow
import Bobbit.App.RemoteAgent
import Bobbit.Spec.ArchivePagesCorrect
import Bobbit.Spec.AttachmentContextCorrect
import Bobbit.Spec.AuthorProjectionCorrect
import Bobbit.Spec.AuthorSidecarMerge
import Bobbit.Spec.AuthorSidecarOrder
import Bobbit.Spec.AuthorSidecarPhases
import Bobbit.Spec.BobbitArchiveCorrect
import Bobbit.Spec.ChannelAccountingCorrect
import Bobbit.Spec.ChannelDeliveryCorrect
import Bobbit.Spec.ChannelIndexCorrect
import Bobbit.Spec.ChildIndex
import Bobbit.Spec.ChildOwnership
import Bobbit.Spec.ChunkerCorrect
import Bobbit.Spec.CompactionCopy
import Bobbit.Spec.CompactionMerge
import Bobbit.Spec.CompactionResolve
import Bobbit.Spec.CookieCorrect
import Bobbit.Spec.CronCorrect
import Bobbit.Spec.CronExpression
import Bobbit.Spec.DeletionTombstonesCorrect
import Bobbit.Spec.DependsOnCorrect
import Bobbit.Spec.DismissalPermanence
import Bobbit.Spec.DurabilityCorrect
import Bobbit.Spec.DynamicQueueCorrect
import Bobbit.Spec.EventBufferCorrect
import Bobbit.Spec.GateCascadeCorrect
import Bobbit.Spec.GateResetCorrect
import Bobbit.Spec.GateStoreCorrect
import Bobbit.Spec.GoalGenerationCorrect
import Bobbit.Spec.GoalSubtreeCorrect
import Bobbit.Spec.InFlightLedger
import Bobbit.Spec.InFlightLedgerCorrect
import Bobbit.Spec.InterceptorBypass
import Bobbit.Spec.KillEscalation
import Bobbit.Spec.MentionMergeCorrect
import Bobbit.Spec.MessageIntentCorrect
import Bobbit.Spec.MessageOrderCorrect
import Bobbit.Spec.MessageRowFacts
import Bobbit.Spec.NotificationOrder
import Bobbit.Spec.NudgerCorrect
import Bobbit.Spec.OutputBudgetCorrect
import Bobbit.Spec.OutputSplice
import Bobbit.Spec.PlanMutationCorrect
import Bobbit.Spec.PlanMutationStoreCorrect
import Bobbit.Spec.PreflightCorrect
import Bobbit.Spec.ProjectQueueView
import Bobbit.Spec.PromptConditionalsCorrect
import Bobbit.Spec.PromptQueueLanes
import Bobbit.Spec.PromptQueueRows
import Bobbit.Spec.ProposalFilesCorrect
import Bobbit.Spec.PublicationInvariant
import Bobbit.Spec.RemoteStateCorrect
import Bobbit.Spec.RequestAdmissionCorrect
import Bobbit.Spec.RetargetCorrect
import Bobbit.Spec.ReviewAnnotationCorrect
import Bobbit.Spec.SchedulerCorrect
import Bobbit.Spec.SchedulerInvariant
import Bobbit.Spec.SchedulerPreserved
import Bobbit.Spec.SemaphoreCorrect
import Bobbit.Spec.SequenceGateCorrect
import Bobbit.Spec.SerialiserCorrect
import Bobbit.Spec.SessionArchiveCorrect
import Bobbit.Spec.SessionDeletionCorrect
import Bobbit.Spec.SessionSaverViews
import Bobbit.Spec.SteerSpliceCorrect
import Bobbit.Spec.TaskManagerCorrect
import Bobbit.Spec.TaskStoreCorrect
import Bobbit.Spec.TemplateVarsCorrect
import Bobbit.Spec.TextSelectionCorrect
import Bobbit.Spec.TranscriptBlank
import Bobbit.Spec.TranscriptBranch
import Bobbit.Spec.TranscriptCursorCorrect
import Bobbit.Spec.TranscriptIdempotent
import Bobbit.Spec.TranscriptReparent
import Bobbit.Spec.TranscriptText
import Bobbit.Spec.TranscriptTreeSound
import Bobbit.Spec.TreeCostCache
import Bobbit.Spec.TreeShape
import Bobbit.Spec.TreeSignature
import Bobbit.Spec.TriggerEngineCorrect
import Bobbit.Spec.VerificationCacheCorrect
import Bobbit.Spec.WorkflowInheritance
import Bobbit.Spec.WorkflowRoundTrip
import Bobbit.Spec.WorkflowValidatorCorrect
import Bobbit.Spec.WorktreeGuardCorrect
import Bobbit.Spec.WritePermitCorrect
