import BTagent.Lib.Machine
import BTagent.Data.Json
import BTagent.Engine.Compiler
import BTagent.Lib.Kahn
import BTagent.Engine.CompiledGraph
import BTagent.Data.Jsonb
import BTagent.Engine.Executor
import BTagent.Engine.EventLoop
import BTagent.Engine.EventLoopSteps
import BTagent.Engine.StepCap
import BTagent.Engine.ApprovalIsolation
import BTagent.Engine.ForkOnce
import BTagent.Runs.AttemptChain
import BTagent.Engine.Completion
import BTagent.Runs.CompletesOnce
import BTagent.Runs.Walk
import BTagent.Runs.Alike
import BTagent.Runs.Lockstep
import BTagent.Runs.ResumeRefines
import BTagent.Runs.BackgroundOnce
import BTagent.Auth.Tokens
import BTagent.Auth.Sessions
import BTagent.Auth.SessionSteps
import BTagent.Auth.SingleUse
import BTagent.Auth.FamilyRevoked
import BTagent.Auth.ForcedLogout
import BTagent.Auth.FactorsOnce
import BTagent.Auth.Revocation
import BTagent.Auth.RevocationLasts
import BTagent.Data.Timestamp
import BTagent.Engine.EvidenceChain
import BTagent.Runs.EvidenceHistory
import BTagent.Audit.Ledger
import BTagent.Audit.Linear
import BTagent.Data.CharTable
import BTagent.Data.IpAddress
import BTagent.Engine.Scope
import BTagent.Engine.ScopeDomains
import BTagent.Engine.ScopeSound
import BTagent.Lib.Delimited
import BTagent.Engine.PromptFence
import BTagent.Engine.Templating
import BTagent.Response.Safelist
import BTagent.Response.BulkMitigation
import BTagent.Response.ContainmentExecute
import BTagent.Response.PlanAgrees
import BTagent.Response.ExecuteAudited
import BTagent.Engine.QueryIR
import BTagent.Lib.Clauses
import BTagent.Engine.QueryMeaning
import BTagent.Hunt.Triage
import BTagent.Hunt.TriageService
import BTagent.Hunt.ClusterStates
import BTagent.Tasks.TaskManager
import BTagent.Tasks.TaskOwnership
import BTagent.Ws.Hub
import BTagent.Ws.DeliversOnce
import BTagent.Ws.TenantIsolation
import BTagent.Cti.PollComplete
import BTagent.Hunt.PackRun
import BTagent.Hunt.IngestedOnce
import BTagent.Lib.ReadCommitted
import BTagent.Workflows.Versions
import BTagent.Workflows.SinglePublished
import BTagent.Workflows.VersionHistory
import BTagent.Workflows.LifecycleAudited
import BTagent.Cti.Proposals
import BTagent.Cti.ShipsOnce
import BTagent.Playbooks.Links
import BTagent.Playbooks.Backend
import BTagent.Playbooks.Execution
import BTagent.Playbooks.GateOnce
import BTagent.Playbooks.Entries
import BTagent.Playbooks.FrontEnds
import BTagent.Frontend.WebSocketClient
import BTagent.Frontend.SocketLifecycle
import BTagent.Frontend.ChannelSubscriptions
import BTagent.Lib.Timing
import BTagent.Mcp.CircuitBreaker
import BTagent.Mcp.Registry
import BTagent.Mcp.PoolInvariant
import BTagent.Data.PyJson
import BTagent.Context.Cascade
import BTagent.Context.CascadeSound
import BTagent.Frontend.PlaybookGraph
import BTagent.Frontend.ScalarText
import BTagent.Frontend.StepLines
import BTagent.Frontend.ReadSteps
import BTagent.Frontend.EditorRoundTrip
import BTagent.Security.RateLimiter
import BTagent.Security.RateGuarantee
import BTagent.Audit.VerifiersAgree
import BTagent.Engine.GateInput
import BTagent.Engine.GatePauses
import BTagent.Engine.DecisionNext
import BTagent.Engine.CapabilityProvenance
import BTagent.Engine.PromptBudget
import BTagent.Security.TlpEgress
import BTagent.Security.TlpPolicy
import BTagent.Cti.StixPattern
import BTagent.Cti.StixExchange
import BTagent.Engine.FenceUnique
import BTagent.Response.SafelistUrl
import BTagent.Data.PyValue
import BTagent.Engine.Conditions
import BTagent.Engine.ConditionErrors
import BTagent.Data.PySize
import BTagent.Engine.ConditionSize
import BTagent.Runs.StoredRun
import BTagent.Runs.ResumeClaim
import BTagent.Hunt.NoiseBaseline
import BTagent.Hunt.DirectionsDisjoint
import BTagent.Lib.AsyncQueue
import BTagent.Ws.ClientQueue
import BTagent.Memory.MemoryService
import BTagent.Memory.RecallSurvives
import BTagent.Memory.StoreRuns
import BTagent.Knowledge.ChunkingService
import BTagent.Knowledge.SectionHeaders
import BTagent.Engine.Declarative
import BTagent.Engine.Pagination
import BTagent.Lib.Rewriting
import BTagent.Engine.Redaction
import BTagent.Engine.RedactionStages
import BTagent.Engine.RedactionIdempotent
import BTagent.Cti.ProposalUpsert
import BTagent.Cti.PrEvidence
import BTagent.Cti.PrPaths
import BTagent.Detection.ValidationFeedback
import BTagent.Detection.FeedbackIsolated
import BTagent.Detection.SigmaMatch
import BTagent.Detection.ConditionTrees
import BTagent.Hunt.RunConsistent
import BTagent.Hunt.Corpus
import BTagent.Hunt.PackFiles
import BTagent.Hunt.InstallAtomic
import BTagent.Hunt.CorpusPartition
import BTagent.Hunt.CorpusReload
import BTagent.Cti.CtiToDetection
import BTagent.Cti.ReportText
import BTagent.Cti.ReportKept
import BTagent.Detection.SigmaAgrees
import BTagent.Hunt.FindingSignature
import BTagent.Hunt.Behavioral
import BTagent.Hunt.FrequencyMap
import BTagent.Hunt.BenignFeedback
import BTagent.Hunt.SimilarProfiles
import BTagent.Cti.EditMetrics
import BTagent.Engine.RenderPath
import BTagent.Hunt.GrantsConverge
import BTagent.Hunt.IdentityGrants
import BTagent.Hunt.IngestUnbroken
import BTagent.Lib.Literals
import BTagent.Engine.QueryText
import BTagent.Engine.QueryLiterals
import BTagent.Lib.Cuttings
import BTagent.Engine.AwsPairs
import BTagent.Hunt.WeakSignals
import BTagent.Hunt.SignalAggregates
import BTagent.Detection.CoverageOrder
import BTagent.Lib.LongestPaths
import BTagent.Frontend.AutoLayout
import BTagent.Data.JsJson
import BTagent.Data.JsonRoundTrip
import BTagent.Frontend.SchemaForm
import BTagent.Frontend.FieldRoundTrip
import BTagent.Hunt.RuleHealth
import BTagent.Hunt.ConsoleState
import BTagent.Hunt.HealthAgrees
import BTagent.Lib.Bucket
import BTagent.Audit.TamperEvident
import BTagent.Response.SafelistRegistry
import BTagent.Auth.SsoIdentities
import BTagent.Auth.SsoKept
