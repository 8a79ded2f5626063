import ModelForge.RunInvariant
import ModelForge.LedgerStore
import ModelForge.LedgerOperations
import ModelForge.LedgerAccounting
import ModelForge.Escrow
import ModelForge.ReservationHolds
import ModelForge.LedgerCeiling
import ModelForge.ChatHandler
import ModelForge.ChatSteps
import ModelForge.ChatInvariant
import ModelForge.ChatReservations
import ModelForge.ChatCharging
import ModelForge.ChatStatus
import ModelForge.JsonText
import ModelForge.JsonMembers
import ModelForge.CanonicalJson
import ModelForge.ReceiptVerification
import ModelForge.KeyedMap
import ModelForge.DownloadQueue
import ModelForge.DownloadRunners
import ModelForge.DownloadSteps
import ModelForge.DownloadFiles
import ModelForge.ResumeIntegrity
import ModelForge.VerifiedCompletion
import ModelForge.CheckThenAct
import ModelForge.LlamaPool
import ModelForge.LlamaPoolSteps
import ModelForge.LlamaPoolBudget
import ModelForge.LlamaPoolEviction
import ModelForge.ModelPool
import ModelForge.HolderCount
import ModelForge.ModelPoolSteps
import ModelForge.ModelPoolBudget
import ModelForge.ModelPoolHandles
import ModelForge.LruEviction
import ModelForge.EvictionAgreement
import ModelForge.RegistryStatus
import ModelForge.InvoiceScan
import ModelForge.InvoiceCrash
import ModelForge.PeriodTiling
import ModelForge.BillingPeriods
import ModelForge.LedgerPeriods
import ModelForge.InvoicePayment
import ModelForge.RateLimit
import ModelForge.RedisConcurrency
import ModelForge.MemoryConcurrency
import ModelForge.LimiterSequence
import ModelForge.LimiterRoom
import ModelForge.LimiterHeaders
import ModelForge.RoutingPolicy
import ModelForge.PolicyRouter
import ModelForge.ReceiptChain
import ModelForge.QuotaCache
import ModelForge.WeightFiles
import ModelForge.BundleRegistration
import ModelForge.SuggestedIds
import ModelForge.WeightDeletion
import ModelForge.CanonicalRoundTrip
import ModelForge.SloCredits
import ModelForge.InvoiceAmount
import ModelForge.WindowCount
import ModelForge.RpmBound
import ModelForge.PricingVersions
import ModelForge.RefusedLoads
import ModelForge.SegmentTimestamps
import ModelForge.TranscriptText
import ModelForge.HallucinationFilter
import ModelForge.EventStream
import ModelForge.StreamRoundTrip
import ModelForge.BatchCoordinator
import ModelForge.CoreTrace
import ModelForge.CoreTraceSessions
import ModelForge.LatencyPercentile
import ModelForge.DownloadPaths
import ModelForge.CheckedList
import ModelForge.RoutingOrder
import ModelForge.CostCap
import ModelForge.TextDecoder
import ModelForge.UpstreamStream
import ModelForge.CanonicalGraph
import ModelForge.PatternScan
import ModelForge.PiiRedaction
import ModelForge.ReservationCover
import ModelForge.TransferRecovery
import ModelForge.LlamaGeneration
import ModelForge.EchoGeneration
import ModelForge.SpacedText
import ModelForge.TextChunks
import ModelForge.ChunkedWords
import ModelForge.StopSequences
import ModelForge.WindowCuts
import ModelForge.KnowledgeChunks
import ModelForge.RoleCoalescing
import ModelForge.SpeakerTurns
import ModelForge.SplitWords
import ModelForge.CollapsedBlanks
import ModelForge.TurnMerging
import ModelForge.SegmentOverlap
import ModelForge.GreedySelection
import ModelForge.DiversifiedChunks
import ModelForge.NormalizedTranscript
import ModelForge.ItemReader
import ModelForge.TextMarks
import ModelForge.ValueParse
import ModelForge.FencedJson
import ModelForge.GeminiVoiceJson
import ModelForge.DiarizedTranscript
import ModelForge.KnowledgeIsolation
import ModelForge.EngineReply
import ModelForge.SigningKeys
import ModelForge.RuntimeConfig
import ModelForge.InstallJobs
import ModelForge.RuntimeWrites
import ModelForge.RegexRules
