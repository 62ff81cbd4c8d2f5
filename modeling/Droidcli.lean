import Droidcli.Lib.Bytes
import Droidcli.Lib.Interaction
import Droidcli.Net.Json
import Droidcli.Net.Types
import Droidcli.Net.Router
import Droidcli.Cli.HttpMount
import Droidcli.Tools.MiniHttpServer
import Droidcli.Tools.Theorems.Gate
import Droidcli.App.Tasks
import Droidcli.App.TaskSystem
import Droidcli.App.Theorems.Queue
import Droidcli.App.Theorems.Cancel
import Droidcli.Net.Connector
import Droidcli.Reliability.Guards
import Droidcli.Ai.Types
import Droidcli.Ai.OpenAICompatClient
import Droidcli.Classify
import Droidcli.Cli.HostState
import Droidcli.Cli.LaunchTarget
import Droidcli.Cli.HostTools
import Droidcli.Lib.Json
import Droidcli.Net.Theorems.Json
import Droidcli.Net.Theorems.Decoding
import Droidcli.Cli.TickTasks
import Droidcli.Cli.Theorems.TickTasks
import Droidcli.Cli.MemoryStore
import Droidcli.Cli.AgentState
import Droidcli.Cli.AgentTurn
import Droidcli.Cli.AgentHandler
import Droidcli.Cli.Theorems.AgentTurn
import Droidcli.Lib.Slot
import Droidcli.Cli.Theorems.Approval
import Droidcli.Cli.Theorems.Display
import Droidcli.Cli.Theorems.Transcript
import Droidcli.Cli.Theorems.Isolation
import Droidcli.Cli.Theorems.Retry
import Droidcli.Lib.Coupling
import Droidcli.Net.Theorems.RoundTrip
import Droidcli.Lib.Json.Unambiguous
import Droidcli.Lib.Json.Strict
import Droidcli.Ai.Theorems.Request
import Droidcli.App.Theorems.Listing
import Droidcli.Cli.Theorems.Deletion
import Droidcli.Ai.LanguageRuntime
import Droidcli.Net.Handlers
import Droidcli.Cli.Droidcli
import Droidcli.Cli.Theorems.Settings
import Droidcli.Net.Theorems.Handlers
import Droidcli.Lib.Json.Search
import Droidcli.Net.Theorems.Extraction
import Droidcli.Ai.Theorems.Objects
import Droidcli.Net.Theorems.Connector
import Droidcli.Cli.Theorems.Persistence
import Droidcli.Lib.Locking
import Droidcli.Cli.Locking
import Droidcli.Cli.Theorems.Locking
import Droidcli.Cli.OsTools
import Droidcli.Cli.Theorems.Verdict
import Droidcli.Cli.Theorems.Prose
import Droidcli.Ai.Completion
import Droidcli.Ai.Theorems.Decoding
import Droidcli.Ai.Theorems.ToolCalls
import Droidcli.App.Jobs
import Droidcli.App.Theorems.Jobs
import Droidcli.Tools.Theorems.Fragments
import Droidcli.Tools.HttpMessage
import Droidcli.Tools.Theorems.HeaderLines
import Droidcli.Tools.Theorems.Responses
import Droidcli.Tools.Theorems.RoundTrip
import Droidcli.Cli.Gateway
import Droidcli.Cli.Theorems.Gateway
import Droidcli.Cli.Theorems.Freshness
import Droidcli.Cli.Theorems.Launch
import Droidcli.Cli.HostViews
import Droidcli.Cli.Tui
import Droidcli.Ai.Theorems.Members
import Droidcli.Ai.Theorems.Splitting
import Droidcli.Cli.Theorems.TaskRows
import Droidcli.Cli.Theorems.Seam
import Droidcli.Cli.Theorems.Answers
import Droidcli.Cli.Theorems.TuiSession
import Droidcli.Ai.Theorems.Transcript
import Droidcli.Cli.Theorems.Conclusion
import Droidcli.Cli.Theorems.Rejection
import Droidcli.Cli.Theorems.Budget
import Droidcli.Cli.Theorems.RetryNote
import Droidcli.Cli.Theorems.Replies
import Droidcli.Lib.Segments
import Droidcli.Reliability.Theorems.Invented
import Droidcli.Cli.Theorems.Resolution
import Droidcli.Cli.Theorems.FilePaths
import Droidcli.Cli.SystemInfo
import Droidcli.Cli.Theorems.BareNames
import Droidcli.Reliability.Theorems.Tokens
import Droidcli.Cli.CommandRunner
import Droidcli.Cli.Theorems.Replacement
import Droidcli.Cli.Theorems.Targets
import Droidcli.Cli.Theorems.CommandLine
import Droidcli.Cli.Theorems.Matching
import Droidcli.App.Theorems.Retrieval
import Droidcli.Cli.RunCommand
import Droidcli.Cli.Theorems.RunCommand
import Droidcli.Cli.Theorems.Capture
import Droidcli.Cli.Theorems.Waiting
import Droidcli.Cli.ProcessManager
import Droidcli.Cli.Theorems.ProcessGroups
import Droidcli.App.Schedule
import Droidcli.App.Theorems.History
import Droidcli.App.Theorems.Schedule
import Droidcli.Cli.Theorems.IntFields
import Droidcli.Cli.RuntimeSettings
import Droidcli.Cli.Theorems.RuntimeSettings
import Droidcli.Cli.CommandLessons
import Droidcli.Cli.Theorems.CommandLessons
import Droidcli.Cli.StringArrays
import Droidcli.Cli.Theorems.StringArrays
import Droidcli.Cli.ChatHistory
import Droidcli.Cli.Theorems.ChatHistory
import Droidcli.Cli.Theorems.QueryParams
import Droidcli.Lib.Columns
import Droidcli.Media.Store
import Droidcli.Media.Theorems.Store
import Droidcli.Lib.Cursor
import Droidcli.Media.MemoryInput
import Droidcli.Media.Theorems.MemoryInput
import Droidcli.App.Theorems.Overtaking
import Droidcli.Cli.ModelMenu
import Droidcli.Cli.Theorems.Effects
import Droidcli.Cli.Theorems.ModelMenu
import Droidcli.Cli.Theorems.Threads
import Droidcli.Cli.Theorems.Watchdog
import Droidcli.Lib.Ownership
import Droidcli.Media.Decode
import Droidcli.Media.Theorems.Decode
import Droidcli.Tools.Theorems.Credentials
