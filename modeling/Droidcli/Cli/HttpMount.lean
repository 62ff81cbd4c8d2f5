import Droidcli.Net.Json
import Droidcli.Net.Types

namespace Droidcli.Cli

open Bytes Net

-- The host method that a route of the gateway calls, with the arguments it is called with.
inductive HostCall
  | buildStatusJson
  | buildNetworkStatusJson
  | buildConfigJson
  | updateConfig (body : Bytes)
  | buildNotifyLogJson
  | buildAppLogJson
  | buildOllamaStatusJson
  | updateOllamaConfig (body : Bytes)
  | ollamaSetupStatusJson
  | installOllama
  | startOllama
  | pullOllamaModel (body : Bytes)
  | buildProcessStatusJson
  | runCommand (body : Bytes)
  | runFfmpegJson (body : Bytes)
  | openApplication (body : Bytes)
  | findApplicationsJson (body : Bytes)
  | listOpenWindowsJson
  | readFile (body : Bytes)
  | writeFile (body : Bytes)
  | listDir (body : Bytes)
  | statPath (body : Bytes)
  | getCwdJson
  | whichExecutableJson (body : Bytes)
  | copyFileJson (body : Bytes)
  | movePathJson (body : Bytes)
  | deleteFileJson (body : Bytes)
  | createDirectoryJson (body : Bytes)
  | readClipboardJson
  | writeClipboardJson (body : Bytes)
  | buildSystemInfoJson
  | buildHardwareInfoJson
  | buildAgentToolsJson
  | buildSelfStatusJson
  | agentTurn (body : Bytes)
  | agentToolDecision (body : Bytes)
  | recordCommandFixJson (body : Bytes)
  | searchCommandFixesJson (body : Bytes)
  | rememberLocationJson (body : Bytes)
  | listKnownLocationsJson
  | buildAgentHistoryJson (sessionId : Bytes)
  | buildAgentSessionsJson
  | deleteAgentSessionJson (body : Bytes)
  | listConnectorsJson
  | registerConnector (body : Bytes)
  | connectorStatusJson (connectorId : Bytes)
  | launchConnector (connectorId : Bytes)
  | stopConnector (connectorId : Bytes)
  | callConnector (connectorId path method payload : Bytes)
  | listTasksJson
  | enqueueTask (body : Bytes)
  | taskStatusJson (taskId : Bytes)
  | cancelTaskJson (taskId : Bytes)

-- The query string is split at `&`; the first pair that starts with `key=` wins.
def queryParam (queryString key : Bytes) : Bytes :=
  let needle := key ++ [0x3d]
  match (queryString.splitOn 0x26).find? (needle <+: ·) with
  | some pair => pair.drop needle.length
  | none      => []

-- A route that is matched by its method and its exact path.
structure Route where
  method : HttpMethod
  path : Bytes
  call : HttpRequest → HostCall

def hostRoutes : List Route := [
  ⟨.get,  "/api/status",                 fun _ => .buildStatusJson⟩,
  ⟨.get,  "/api/network/status",         fun _ => .buildNetworkStatusJson⟩,
  ⟨.get,  "/api/config",                 fun _ => .buildConfigJson⟩,
  ⟨.post, "/api/config",                 fun r => .updateConfig r.body⟩,
  ⟨.get,  "/api/notify/log",             fun _ => .buildNotifyLogJson⟩,
  ⟨.get,  "/api/app/log",                fun _ => .buildAppLogJson⟩,
  ⟨.get,  "/api/ollama/status",          fun _ => .buildOllamaStatusJson⟩,
  ⟨.post, "/api/ollama/config",          fun r => .updateOllamaConfig r.body⟩,
  ⟨.get,  "/api/ollama/setup-status",    fun _ => .ollamaSetupStatusJson⟩,
  ⟨.post, "/api/ollama/install",         fun _ => .installOllama⟩,
  ⟨.post, "/api/ollama/start",           fun _ => .startOllama⟩,
  ⟨.post, "/api/ollama/pull",            fun r => .pullOllamaModel r.body⟩,
  ⟨.get,  "/api/process/status",         fun _ => .buildProcessStatusJson⟩,
  ⟨.post, "/api/run",                    fun r => .runCommand r.body⟩,
  ⟨.post, "/api/ffmpeg/run",             fun r => .runFfmpegJson r.body⟩,
  ⟨.post, "/api/open",                   fun r => .openApplication r.body⟩,
  ⟨.post, "/api/apps/find",              fun r => .findApplicationsJson r.body⟩,
  ⟨.get,  "/api/apps/open",              fun _ => .listOpenWindowsJson⟩,
  ⟨.post, "/api/fs/read",                fun r => .readFile r.body⟩,
  ⟨.post, "/api/fs/write",               fun r => .writeFile r.body⟩,
  ⟨.post, "/api/fs/list",                fun r => .listDir r.body⟩,
  ⟨.post, "/api/fs/stat",                fun r => .statPath r.body⟩,
  ⟨.get,  "/api/fs/cwd",                 fun _ => .getCwdJson⟩,
  ⟨.post, "/api/fs/which",               fun r => .whichExecutableJson r.body⟩,
  ⟨.post, "/api/fs/copy",                fun r => .copyFileJson r.body⟩,
  ⟨.post, "/api/fs/move",                fun r => .movePathJson r.body⟩,
  ⟨.post, "/api/fs/delete",              fun r => .deleteFileJson r.body⟩,
  ⟨.post, "/api/fs/mkdir",               fun r => .createDirectoryJson r.body⟩,
  ⟨.get,  "/api/clipboard",              fun _ => .readClipboardJson⟩,
  ⟨.post, "/api/clipboard",              fun r => .writeClipboardJson r.body⟩,
  ⟨.get,  "/api/system",                 fun _ => .buildSystemInfoJson⟩,
  ⟨.get,  "/api/hardware",               fun _ => .buildHardwareInfoJson⟩,
  ⟨.get,  "/api/agent/tools",            fun _ => .buildAgentToolsJson⟩,
  ⟨.get,  "/api/agent/self_status",      fun _ => .buildSelfStatusJson⟩,
  ⟨.post, "/api/agent/turn",             fun r => .agentTurn r.body⟩,
  ⟨.post, "/api/agent/tool_decision",    fun r => .agentToolDecision r.body⟩,
  ⟨.post, "/api/agent/lessons",          fun r => .recordCommandFixJson r.body⟩,
  ⟨.post, "/api/agent/lessons/search",   fun r => .searchCommandFixesJson r.body⟩,
  ⟨.post, "/api/locations",              fun r => .rememberLocationJson r.body⟩,
  ⟨.get,  "/api/locations",              fun _ => .listKnownLocationsJson⟩,
  ⟨.get,  "/api/agent/history",
    fun r => .buildAgentHistoryJson (queryParam r.queryString "session_id")⟩,
  ⟨.get,  "/api/agent/sessions",         fun _ => .buildAgentSessionsJson⟩,
  ⟨.post, "/api/agent/sessions/delete",  fun r => .deleteAgentSessionJson r.body⟩,
  ⟨.get,  "/api/connectors",             fun _ => .listConnectorsJson⟩,
  ⟨.post, "/api/connectors",             fun r => .registerConnector r.body⟩
]

def taskRoutes : List Route := [
  ⟨.get,  "/api/tasks",                  fun _ => .listTasksJson⟩,
  ⟨.post, "/api/tasks",                  fun r => .enqueueTask r.body⟩
]

def findRoute (routes : List Route) (request : HttpRequest) : Option HostCall :=
  (routes.find? fun route => request.method = route.method ∧ request.path = route.path).map
    (·.call request)

-- `/api/connectors/<id>/<rest>` split into the id and the rest, the latter with its slash.
def splitIdAndRest (path routePrefix : Bytes) : Option (Bytes × Bytes) :=
  if routePrefix <+: path then
    let (id, rest) := (path.drop routePrefix.length).span (· ≠ slash)
    if id = [] then none else some (id, rest)
  else none

def connectorRoute (request : HttpRequest) : Option HostCall :=
  match splitIdAndRest request.path "/api/connectors/" with
  | none            => none
  | some (id, rest) =>
    if request.method = .get ∧ rest = str "/status" then some (.connectorStatusJson id)
    else if request.method = .post ∧ rest = str "/launch" then some (.launchConnector id)
    else if request.method = .post ∧ rest = str "/stop" then some (.stopConnector id)
    else if request.method = .post ∧ rest = str "/call" then
      let callPath := extractJsonStringField request.body "path"
      let method := extractJsonStringField request.body "method"
      let payload := extractJsonStringField request.body "payload_json"
      some (.callConnector id callPath (if method = [] then "POST" else method) payload)
    else none

def taskRoute (request : HttpRequest) : Option HostCall :=
  match splitIdAndRest request.path "/api/tasks/" with
  | none            => none
  | some (id, rest) =>
    if request.method = .get ∧ rest = [] then some (.taskStatusJson id)
    else if request.method = .post ∧ rest = str "/cancel" then some (.cancelTaskJson id)
    else none

-- The host call that `make_droidcli_route_dispatch` serves a request with, or `none` when it
-- returns false.
def customDispatch (request : HttpRequest) : Option HostCall :=
  findRoute hostRoutes request
    <|> connectorRoute request
    <|> findRoute taskRoutes request
    <|> taskRoute request

end Droidcli.Cli
