import Droidcli.Cli.LaunchTarget

namespace Droidcli.Cli

open Bytes Net App Reliability

-- What a method of the host that reaches out to the machine comes to: its value, what it appends
-- to the app log, and the world it leaves behind.
structure Ran (W α : Type) where
  value : α
  logged : List AppLogEntry
  world : W

def failureJson (error : Bytes) : Bytes :=
  jsonObject [jsonBoolField "ok" false, jsonStringField "error" error]

def outcomeJson (ok : Bool) (error : Bytes) : Bytes :=
  jsonObject [jsonBoolField "ok" ok, jsonStringField "error" error]

section Commands

def commandSucceeded (result : CommandRunResult) : Bool :=
  result.launched && result.exitCode = 0 && result.errorMessage = []

def trimLine (line : Bytes) : Bytes :=
  (line.reverse.dropWhile fun c => c = cr || c = space).reverse

def lastNonemptyLines (text : Bytes) (maxLines : Nat) : Bytes :=
  let lines := ((text.splitOn lf).map trimLine).filter (· ≠ [])
  joinWith " | " (lines.drop (lines.length - maxLines))

def summarizeCommandFailure (result : CommandRunResult) : Bytes :=
  let stderrTail := lastNonemptyLines result.stderrText 3
  if result.errorMessage ≠ [] then result.errorMessage
  else if stderrTail ≠ [] then stderrTail
  else lastNonemptyLines result.stdoutText 3

-- `std::atoi` on a digit run with an optional minus: a `long` by saturation, then its low 32 bits.
def atoi (n : Int) : Int :=
  (max int64Min (min int64Max n)).bmod (2 ^ 32)

-- The host's own reader of `int32_t` fields: unlike the one of `net/json.cpp` it never throws, and
-- takes a minus without digits for a zero.
def extractJsonInt32Field (json fieldName : Bytes) : Option Int :=
  (afterField json fieldName 0).bind fun text =>
    let negative := text.head? = some minus
    let digits := (if negative then text.tail else text).takeWhile isDigit
    if digits = [] ∧ ¬negative then none
    else some <| atoi <| if negative then -(digitsValue digits : Int) else digitsValue digits

def resolveWorkDirOrDesktop (host : HostState) (requestedWorkDir : Bytes) : Bytes :=
  let substituted := substituteBareDesktopToken requestedWorkDir host.desktopPath
  if requestedWorkDir = [] then host.desktopPath
  else if looksLikePlaceholderPath substituted
      || looksLikeInventedDesktopPath substituted host.desktopPath then
    host.desktopPath
  else
    substituted

-- `run_command` and `run_ffmpeg_json` are one procedure; these are the values they differ in.
structure Runner (W : Type) where
  field : Bytes
  resolvedField : Bytes
  channel : Bytes
  defaultTimeoutMs : Int
  failureLabel : Bytes
  run : Bytes → Bytes → Int → W → CommandRunResult × W

variable {W : Type} (os : Os W)

def commandRunner : Runner W where
  field := "command"
  resolvedField := "resolved_command"
  channel := "run"
  defaultTimeoutMs := 30000
  failureLabel := "Command"
  run := os.runCommandOnce

def ffmpegRunner : Runner W where
  field := "args"
  resolvedField := "resolved_args"
  channel := "ffmpeg"
  defaultTimeoutMs := 120000
  failureLabel := "ffmpeg"
  run := os.runFfmpeg

def notLaunchedJson (error : Bytes) : Bytes :=
  jsonObject [
    jsonBoolField "ok" false,
    jsonBoolField "launched" false,
    jsonIntField "exit_code" 0,
    jsonStringField "stdout" [],
    jsonStringField "stderr" [],
    jsonStringField "error" error
  ]

def placeholderError (host : HostState) (advice : Bytes) : Bytes :=
  str "this references a placeholder path (e.g. \"path/to/...\") instead of a real one - " ++
    "the real Desktop path is " ++ host.desktopPath ++ advice

def commandResultJson (runner : Runner W) (result : CommandRunResult)
    (requested command workDir effectiveWorkDir : Bytes) : Bytes :=
  jsonObject <| [
      jsonBoolField "ok" (commandSucceeded result),
      jsonBoolField "launched" result.launched,
      jsonIntField "exit_code" result.exitCode,
      jsonStringField "stdout" result.stdoutText,
      jsonStringField "stderr" result.stderrText,
      jsonStringField "error" result.errorMessage
    ] ++ (if command ≠ requested then [jsonStringField runner.resolvedField command] else [])
    ++ (if workDir ≠ effectiveWorkDir then
        [jsonStringField "resolved_work_dir" effectiveWorkDir] else [])
    ++ if commandSucceeded result then [] else
        [jsonStringField "failure_reason" <| runner.failureLabel ++ " failed (exit_code=" ++
          decimalInt result.exitCode ++ "): " ++ summarizeCommandFailure result]

def Runner.runJson (runner : Runner W) (host : HostState) (body : Bytes) (w : W) : Ran W Bytes :=
  let requested := extractJsonStringField body runner.field
  let workDir := extractJsonStringField body "work_dir"
  let timeoutMs := (extractJsonInt32Field body "timeout_ms").getD runner.defaultTimeoutMs
  if requested = [] then ⟨notLaunchedJson (str "missing " ++ runner.field), [], w⟩
  else if looksLikePlaceholderPath requested then
    ⟨notLaunchedJson (placeholderError host ", use that exact path instead"), [], w⟩
  else
    let command := substituteBareDesktopToken requested host.desktopPath
    let effectiveWorkDir := resolveWorkDirOrDesktop host workDir
    let (result, w) := runner.run command effectiveWorkDir timeoutMs w
    ⟨commandResultJson runner result requested command workDir effectiveWorkDir,
      [⟨runner.channel, "out", command, commandSucceeded result⟩], w⟩

def runCommand (host : HostState) (body : Bytes) (w : W) : Ran W Bytes :=
  (commandRunner os).runJson host body w

def runFfmpegJson (host : HostState) (body : Bytes) (w : W) : Ran W Bytes :=
  (ffmpegRunner os).runJson host body w

end Commands

section Connectors

variable {W : Type} (os : Os W)

def stripTrailingSlashes (value : Bytes) : Bytes :=
  (value.reverse.dropWhile (· = slash)).reverse

def joinUrl (base path : Bytes) : Bytes :=
  let trimmedBase := stripTrailingSlashes base
  if path = [] then trimmedBase
  else if path.head? = some slash then trimmedBase ++ path
  else trimmedBase ++ slash :: path

-- The two refusals of `launch_connector` still answer with "success", the field that the rest of
-- the method has dropped.
def refusalJson (error : Bytes) : Bytes :=
  jsonObject [jsonBoolField "success" false, jsonStringField "error" error]

def launchConnector (host : HostState) (connectorId : Bytes) (w : W) : Ran W Bytes :=
  match findConnector host.connectors connectorId with
  | none => ⟨refusalJson "unknown connector", [], w⟩
  | some connector =>
    if connector.kind ≠ str "launched_process" then
      ⟨refusalJson "connector is not a launched_process", [], w⟩
    else
      let ((ok, error), w) := os.launch connector w
      let summary :=
        if ok then str "launched connector: " ++ connector.id else str "launch failed: " ++ error
      ⟨outcomeJson ok error, [⟨"process", "out", summary, ok⟩], w⟩

def stopConnector (connectorId : Bytes) (w : W) : Ran W Bytes :=
  let ((ok, error), w) := os.stop connectorId w
  let summary :=
    if ok then str "stopped connector: " ++ connectorId else str "stop failed: " ++ error
  ⟨outcomeJson ok error, [⟨"process", "out", summary, ok⟩], w⟩

def callConnector (host : HostState) (connectorId path method body : Bytes) (w : W) :
    Ran W Bytes :=
  match findConnector host.connectors connectorId with
  | none => ⟨failureJson "unknown connector", [], w⟩
  | some connector =>
    if connector.kind ≠ str "http_peer" then
      ⟨failureJson "connector is not an http_peer", [], w⟩
    else if connector.enabled = false then ⟨failureJson "connector is disabled", [], w⟩
    else
      let url := joinUrl connector.baseUrl path
      let (reply, w) :=
        if method = str "GET" then os.syncHttpGet url w else os.syncHttpPostJson url body w
      let logged := [⟨"connector", "out", method ++ space :: connector.id ++ path, reply.isSome⟩]
      match reply with
      | none                  => ⟨failureJson "connector unreachable", logged, w⟩
      | some (_, responseBody) =>
        ⟨if responseBody = [] then jsonObject [] else responseBody, logged, w⟩

def connectorStatusJson (host : HostState) (connectorId : Bytes) (w : W) : Ran W Bytes :=
  match findConnector host.connectors connectorId with
  | none => ⟨failureJson "unknown connector", [], w⟩
  | some connector =>
    if connector.kind = str "launched_process" then
      let status :=
        match (os.snapshot w).find? (·.key = connector.id) with
        | some info => [jsonIntField "pid" info.pid, jsonBoolField "running" info.running,
            jsonStringField "status" info.statusText]
        | none      => [jsonBoolField "running" false, jsonStringField "status" "not launched"]
      ⟨jsonObject <| jsonBoolField "ok" true :: jsonStringField "kind" connector.kind :: status,
        [], w⟩
    else
      let (reply, w) := os.syncHttpGet (joinUrl connector.baseUrl "/health") w
      let online := reply.any fun (statusCode, _) => 200 ≤ statusCode && statusCode < 300
      ⟨jsonObject [
        jsonBoolField "ok" true,
        jsonStringField "kind" connector.kind,
        jsonBoolField "online" online,
        jsonStringField "base_url" connector.baseUrl
      ], [], w⟩

end Connectors

section Applications

variable {W : Type} (os : Os W)

def openApplication (host : HostState) (body : Bytes) (w : W) : Ran W Bytes :=
  let pathOrName := extractJsonStringField body "path_or_name"
  let args := extractJsonStringField body "args"
  let workDir := extractJsonStringField body "work_dir"
  let passthroughDisplayName := extractJsonStringField body "resolved_display_name"
  if pathOrName = [] then
    ⟨jsonObject [jsonBoolField "launched" false, jsonIntField "pid" 0,
      jsonStringField "error" "missing path_or_name"], [], w⟩
  else
    let resolved := resolveOpenApplicationTarget os host w pathOrName args
    let (result, w) :=
      match resolved with
      | .ok target   => os.launchApplication target.target target.effectiveArgs workDir w
      | .error error => (⟨false, 0, [], error⟩, w)
    let (source, resolvedName) :=
      match resolved with
      | .ok target => (target.source, target.displayName)
      | .error _   => ([], [])
    let displayName := if passthroughDisplayName = [] then resolvedName else passthroughDisplayName
    ⟨jsonObject <| [
        jsonBoolField "ok" result.launched,
        jsonBoolField "launched" result.launched,
        jsonIntField "pid" result.pid,
        jsonStringField "resolved_path" result.resolvedPath,
        jsonStringField "resolution_source" source,
        jsonStringField "error" result.errorMessage
      ] ++ (if displayName = [] then [] else [jsonStringField "resolved_display_name" displayName]),
      [⟨"open", "out", pathOrName, result.launched⟩], w⟩

def findApplicationsJson (host : HostState) (body : Bytes) : Bytes :=
  let normalizedQuery := normalizeForMatch (extractJsonStringField body "query")
  let apps := host.installedApps.filter fun app =>
    contains normalizedQuery (normalizeForMatch app.name)
  jsonObject [jsonBoolField "ok" true, needle "matches" ++ jsonArray (apps.map fun app =>
    jsonObject [jsonStringField "name" app.name, jsonStringField "path" app.path])]

def listWellKnownWindowsTargetsJson (targets : List WindowsLocationEntry) : Bytes :=
  let names := targets.foldl (fun seen target =>
    if target.displayName ∈ seen then seen else seen ++ [target.displayName]) []
  jsonObject [jsonBoolField "ok" true, needle "locations" ++ jsonArray (names.map jsonString)]

end Applications

section Tasks

-- `none` when the exception of `std::stoll` escapes.
def enqueueTask (host : HostState) (body : Bytes) (parsed now : Int) : Option Bytes × HostState :=
  match parseTaskRequestFromJson body parsed with
  | none                => (none, host)
  | some (.error error) => (some (failureJson error), host)
  | some (.ok task)     =>
    let (id, tasks) := host.tasks.enqueue task now
    (some <| jsonObject [jsonBoolField "ok" true, jsonStringField "id" id,
      jsonIntField "scheduled_for_ms" task.scheduledForMs], { host with tasks := tasks })

def cancelTaskJson (host : HostState) (taskId : Bytes) (now : Int) : Bytes × HostState :=
  if host.tasks.find taskId = none then (failureJson "unknown task", host)
  else
    let (cancelled, tasks) := host.tasks.cancel taskId now
    (if cancelled then jsonObject [jsonBoolField "ok" true]
      else failureJson "task is already in a terminal state", { host with tasks := tasks })

def recentFailures (appLog : List AppLogEntry) : Nat :=
  (appLog.reverse.take 20).countP (!·.success)

def buildSelfStatusJson (host : HostState) (appLog : List AppLogEntry) : Bytes :=
  let tasksIn (status : TaskStatus) := host.tasks.tasks.countP (·.status = status)
  jsonObject [
    jsonBoolField "ok" true,
    jsonBoolField "ai_enabled" host.config.enableAi,
    jsonBoolField "ollama_reachable" host.ollamaReachable,
    jsonIntField "ollama_last_check_ms" host.ollamaLastCheckMs,
    jsonStringField "ollama_last_check_error" host.ollamaLastCheckError,
    jsonIntField "connector_count" host.connectors.length,
    jsonIntField "connectors_enabled" (host.connectors.countP (·.enabled)),
    jsonIntField "tasks_pending" (tasksIn .pending),
    jsonIntField "tasks_running" (tasksIn .running),
    jsonIntField "tasks_failed" (tasksIn .failed),
    jsonBoolField "memory_store_open" host.memoryStoreOpen,
    jsonIntField "recent_failures_last_20_log_entries" (recentFailures appLog)
  ]

end Tasks

-- The tools behind `Os.osTool`.
def osTools : List Bytes := [
  "list_open_windows", "read_file", "write_file", "list_dir", "stat_path", "get_cwd", "which",
  "copy_file", "move_path", "delete_file", "create_directory", "read_clipboard", "write_clipboard",
  "get_system_info", "get_hardware_info", "search_command_fixes", "remember_location",
  "get_known_locations", "record_command_fix"
]

section Execute

variable {W : Type} (os : Os W)

def executeAgentTool (host : HostState) (appLog : List AppLogEntry) (toolName argumentsJson : Bytes)
    (w : W) : Ran W (Option Bytes) × HostState :=
  let field (name : Bytes) := extractJsonStringField argumentsJson name
  let now := os.currentTimestampMs w
  let ran (r : Ran W Bytes) := (⟨some r.value, r.logged, r.world⟩, host)
  let answer (result : Bytes) := (⟨some result, [], w⟩, host)
  if toolName = str "list_connectors" then answer (buildConnectorsJson host.connectors)
  else if toolName = str "connector_status" then ran (connectorStatusJson os host (field "id") w)
  else if toolName = str "launch_connector" then ran (launchConnector os host (field "id") w)
  else if toolName = str "stop_connector" then ran (stopConnector os (field "id") w)
  else if toolName = str "call_connector" then
    let method := if field "method" = [] then str "POST" else field "method"
    ran (callConnector os host (field "id") (field "path") method (field "payload_json") w)
  else if toolName = str "enqueue_task" then
    let later := os.passTime w
    let (result, host) := enqueueTask host argumentsJson now (os.currentTimestampMs later)
    (⟨result, [], later⟩, host)
  else if toolName = str "list_tasks" then answer (buildTasksJson host.tasks.tasks)
  else if toolName = str "cancel_task" then
    let (result, host) := cancelTaskJson host (field "task_id") now
    (⟨some result, [], w⟩, host)
  else if toolName = str "run_command" then ran (runCommand os host argumentsJson w)
  else if toolName = str "find_application" then answer (findApplicationsJson host argumentsJson)
  else if toolName = str "list_windows_locations" then
    answer (listWellKnownWindowsTargetsJson host.windowsLocations)
  else if toolName = str "open_application" then ran (openApplication os host argumentsJson w)
  else if toolName = str "run_ffmpeg" then ran (runFfmpegJson os host argumentsJson w)
  else if toolName = str "self_status" then answer (buildSelfStatusJson host appLog)
  else if toolName ∈ osTools then
    let ((result, logged), w) := os.osTool toolName argumentsJson w
    (⟨some result, logged, w⟩, host)
  else
    answer (failureJson (str "unknown tool: " ++ toolName))

end Execute
end Droidcli.Cli
