import Aestival.Library.Bytes
import Aestival.Library.Utf8
import Aestival.Library.Shell
import Aestival.Library.Json
import Aestival.Library.Prog
import Aestival.Library.Pool
import Aestival.Library.Runs
import Aestival.Library.Positions
import Aestival.Library.StableSort
import Aestival.Library.FlagCache
import Aestival.Library.Tables
import Aestival.Library.JsString
import Aestival.Library.Logins
import Aestival.Library.Markers
import Aestival.Library.ReplayCache
import Aestival.Library.Jwt
import Aestival.Library.Uri
import Aestival.Library.Express
import Aestival.EncodeUtils
import Aestival.Chat.Storage
import Aestival.Chat.Sqlite
import Aestival.Chat.SqliteRefinement
import Aestival.Chat.ContextManager
import Aestival.Chat.ConcurrentSummary
import Aestival.Chat.SummaryContents
import Aestival.Chat.SummaryFirst
import Aestival.Chat.Pairing
import Aestival.Agent.SelfIteration
import Aestival.Agent.Policy
import Aestival.Agent.Effects
import Aestival.Agent.Controller
import Aestival.Agent.ToolLoop
import Aestival.Agent.Replies
import Aestival.Agent.Pairing
import Aestival.Agent.TokenPhases
import Aestival.Config.BotConfig
import Aestival.Config.Reload
import Aestival.Config.Loaded
import Aestival.Config.RoundTrip
import Aestival.Management.Registry
import Aestival.Management.Api
import Aestival.Management.Reachable
import Aestival.Management.FileLoadable
import Aestival.Management.ListedAgents
import Aestival.Management.Credentials
import Aestival.Agent.TokenBudget
import Aestival.Web.Accounts
import Aestival.Web.Ownership
import Aestival.Web.Usernames
import Aestival.Web.AccountSpecs
import Aestival.Web.LoginMethods
import Aestival.Web.Tokens
import Aestival.Web.StateReplay
import Aestival.Web.Backend
import Aestival.Web.BackendSteps
import Aestival.Web.TokenKinds
import Aestival.Web.BrowserBinding
import Aestival.Web.AdminAccess
import Aestival.Web.Takeover
import Aestival.Web.LinkFlow
import Aestival.Web.Routes
import Aestival.Web.RouteSpecs
import Aestival.Web.BotCalls
import Aestival.Agent.Conversations
import Aestival.Agent.ClearCommand
import Aestival.Agent.RateWindows
import Aestival.Agent.UserRateLimit
import Aestival.Library.SharedPtr
import Aestival.Agent.AgentThreads
import Aestival.Agent.StopAgent
import Aestival.Platform.Dispatch
import Aestival.Platform.Gateway
import Aestival.Platform.Heartbeat
import Aestival.Platform.HeartbeatFrames
import Aestival.Platform.HttpPool
import Aestival.Platform.TokenRefresh
import Aestival.Agent.ReplyTargets
import Aestival.Agent.Plugins
import Aestival.Agent.ToolRegistry
import Aestival.Agent.McpClient
import Aestival.Agent.McpResponses
import Aestival.Agent.McpToolCalls
import Aestival.Agent.SystemCommands
import Aestival.Agent.Privileges
import Aestival.Agent.PluginSpecs
import Aestival.Agent.PluginCommands
import Aestival.Management.Sessions
import Aestival.Management.SessionSpecs
import Aestival.Management.SessionLifecycle
import Aestival.Management.ApiRoutes
import Aestival.Management.FailedRequests
import Aestival.Web.RateLimits
import Aestival.Web.ProxyRetry
import Aestival.Agent.WorkerPool
import Aestival.Agent.SerialWorkers
import Aestival.Agent.AcceptedMessages
import Aestival.Agent.InputCheck
import Aestival.Agent.OutputFilter
import Aestival.Agent.FixedWindows
import Aestival.Management.RoutedIds
import Aestival.Web.PluginNames
import Aestival.Management.Logs
import Aestival.Library.Base64
import Aestival.Management.JwtVerifier
import Aestival.Agent.ToolTranscripts
import Aestival.Agent.CallPhases
import Aestival.Agent.DayChange
import Aestival.Library.Transactions
import Aestival.Chat.SqliteFailures
import Aestival.Agent.PluginRegistration
import Aestival.Agent.PluginEnablement
import Aestival.Agent.PluginFailures
import Aestival.Agent.Samples
import Aestival.Agent.ReplyTexts
import Aestival.Agent.ToolOutputs
import Aestival.Agent.Improvements
import Aestival.Platform.Completions
import Aestival.Library.Brackets
import Aestival.Agent.SpeakerNames
import Aestival.Library.Decoder
import Aestival.Library.Pieces
import Aestival.Library.LastResults
import Aestival.Web.LogTail
import Aestival.Agent.TurnParts
import Aestival.Agent.MetricCounts
import Aestival.Agent.ToolCap
import Aestival.Agent.GroupRules
import Aestival.Web.AgentIds
import Aestival.Library.LongestSuffix
import Aestival.Web.MetricsHistory
import Aestival.Library.Escapes
import Aestival.Web.SafeUtf8
import Aestival.Library.JsDate
import Aestival.Web.ConversationLimit
import Aestival.Web.ConversationList
import Aestival.Platform.Reconnect
import Aestival.Web.MergeConserves
import Aestival.Web.StatementFailures
import Aestival.Web.FindOrCreateAtomic
import Aestival.Library.Tally
import Aestival.Library.JsonText
import Aestival.Chat.TokenUsage
import Aestival.Chat.Rounds
import Aestival.Management.TokenStats
import Aestival.Agent.UsageCounts
import Aestival.Agent.IterationCycle
import Aestival.Agent.IterationRuns
import Aestival.Agent.IterationAlone
import Aestival.Agent.SentRequests
import Aestival.Platform.Requests
import Aestival.Library.Mutex
import Aestival.Library.KeyedTable
import Aestival.Agent.McpSession
import Aestival.Agent.McpRuns
import Aestival.Agent.McpAlone
import Aestival.Agent.PluginConfig
import Aestival.Web.PasswordHashes
import Aestival.Web.PasswordLogins
import Aestival.Agent.LiveAgent
import Aestival.Agent.Delivery
