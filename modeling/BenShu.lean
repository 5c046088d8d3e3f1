import BenShu.Agent.BareInvocation
import BenShu.Agent.BreakerDiscipline
import BenShu.Agent.GovernanceBudget
import BenShu.Agent.Hooks
import BenShu.Agent.PrunedSummary
import BenShu.Agent.ResponseCache
import BenShu.Agent.ToolArguments
import BenShu.Agent.ToolGates
import BenShu.Agent.ToolNames
import BenShu.Approval.Policy
import BenShu.Comm.Bidding
import BenShu.Comm.Bridge
import BenShu.Comm.Signing
import BenShu.Comm.Verification
import BenShu.Compression.CommandOutput
import BenShu.Engram.BitwiseKernels
import BenShu.Engram.Chunker
import BenShu.Engram.ContentHash
import BenShu.Engram.DocidMap
import BenShu.Engram.FtsCompaction
import BenShu.Engram.FtsSequence
import BenShu.Engram.FtsStatistics
import BenShu.Engram.FtsTransparency
import BenShu.Engram.FusionLaws
import BenShu.Engram.GlobalSearch
import BenShu.Engram.Promotion
import BenShu.Engram.Quarantine
import BenShu.Engram.RetentionPasses
import BenShu.Engram.SemanticDedup
import BenShu.Engram.SessionPruning
import BenShu.Engram.VectorCache
import BenShu.Engram.VectorFaults
import BenShu.Engram.VectorInsertion
import BenShu.Engram.VirtualPath
import BenShu.Experience.OutcomeCounts
import BenShu.Inference.Quantizers
import BenShu.Knowledge.ConceptFailures
import BenShu.Knowledge.PersistentGraph
import BenShu.LoopGuard.QueryHistory
import BenShu.Memory.BackgroundEnvelope
import BenShu.Memory.BreadthFirst
import BenShu.Memory.LayerAtomicity
import BenShu.Memory.NamespaceMap
import BenShu.Memory.ReadOnlyFrame
import BenShu.Memory.ShortTermAgreement
import BenShu.Novel.ApprovedChapters
import BenShu.Novel.BestDraft
import BenShu.Novel.DurableProgress
import BenShu.Novel.HookHistory
import BenShu.Orchestrator.Accounting
import BenShu.Protocol.Clarification
import BenShu.Providers.AnthropicDelivery
import BenShu.Providers.AnthropicMessages
import BenShu.Providers.Fragmentation
import BenShu.Providers.GeminiDelivery
import BenShu.Providers.OpenAiDelivery
import BenShu.Runtime.Cancellation
import BenShu.Runtime.CompletionGate
import BenShu.Runtime.RetryProtocol
import BenShu.Scheduler.Removal
import BenShu.Scheduler.RetryBound
import BenShu.Security.PolicyGuard
import BenShu.Security.QueryRates
import BenShu.Security.Redaction
import BenShu.Security.Retention
import BenShu.State.ArtifactCleanup
import BenShu.State.CompletionFields
