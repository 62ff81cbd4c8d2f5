import Droidcli.Ai.OpenAICompatClient
import Droidcli.Cli.HostTools
import Droidcli.Cli.MemoryStore

namespace Droidcli.Cli

open Bytes Net Ai Reliability

structure PendingToolActionRecord where
  tool : Bytes
  argumentsJson : Bytes
  resultJson : Bytes
  deriving DecidableEq

structure PendingAgentToolCall where
  sessionId : Bytes
  decidedCall : ToolCall
  actions : List PendingToolActionRecord
  deriving DecidableEq

-- The agent's part of `DroidHost`. An inactive `pending_tool_call_` is `none`.
structure AgentState where
  currentSessionId : Bytes
  agentTranscript : List ChatMessage
  memoryStore : MemoryStore
  pendingToolCall : Option PendingAgentToolCall

def toolCallRequiresApproval (toolName : Bytes) : Bool :=
  toolName ∈ [str "run_command", "run_ffmpeg", "write_file", "open_application",
    "launch_connector", "stop_connector", "enqueue_task", "cancel_task", "copy_file", "move_path",
    "delete_file", "create_directory", "write_clipboard"]

def isRetriableTool (toolName : Bytes) : Bool :=
  toolName ∈ [str "run_command", "run_ffmpeg", "read_file", "write_file", "copy_file",
    "move_path", "delete_file", "create_directory", "open_application"]

-- What follows the closing quote of a string.
def skipJsonString : Bytes → Bytes
  | c :: e :: text =>
    if      c = backslash then skipJsonString text
    else if c = quote     then e :: text
    else                       skipJsonString (e :: text)
  | _ => []

def replaceJsonStringFieldValue (json fieldName newValue : Bytes) : Bytes :=
  match breakOn (Net.needle fieldName) json with
  | none => json
  | some (before, rest) =>
    match rest.dropWhile isBlank with
    | c :: text =>
      if c = quote then
        before ++ Net.needle fieldName ++ rest.takeWhile isBlank ++ jsonString newValue ++
          skipJsonString text
      else json
    | [] => json

section Pending

variable {W : Type} (os : Os W) (host : HostState) (w : W)

-- The resolved path of a field of a file tool, as the prompt shows it.
def resolveField (json fieldName : Bytes) : Bytes :=
  let rawPath := extractJsonStringField json fieldName
  if rawPath = [] ∨ looksLikePlaceholderPath rawPath then json
  else
    let resolved := defaultBareFilenameToDesktop
      (substituteBareDesktopToken rawPath host.desktopPath) host.desktopPath
    if looksLikeInventedDesktopPath resolved host.desktopPath then json
    else
      match os.absolutePath resolved w with
      | none          => json
      | some fullPath =>
        if fullPath = [] then json else replaceJsonStringFieldValue json fieldName fullPath

def displayArgumentsWithFullPaths (toolName argumentsJson : Bytes) : Bytes :=
  if toolName ∈ [str "write_file", "delete_file", "create_directory"] then
    resolveField os host w argumentsJson "path"
  else if toolName ∈ [str "copy_file", "move_path"] then
    resolveField os host w (resolveField os host w argumentsJson "source_path") "destination_path"
  else if toolName = str "open_application" then
    let rawValue := extractJsonStringField argumentsJson "path_or_name"
    if rawValue = [] ∨ ¬looksLikePath rawValue then argumentsJson
    else
      match os.absolutePath rawValue w with
      | none          => argumentsJson
      | some fullPath =>
        if fullPath = [] then argumentsJson
        else replaceJsonStringFieldValue argumentsJson "path_or_name" fullPath
  else argumentsJson

-- What an approver is shown of a pending call.
structure PendingView where
  tool : Bytes
  argumentsJson : Bytes
  looksDestructive : Bool
  actions : List PendingToolActionRecord
  deriving DecidableEq

def viewPendingToolCall (pending : PendingAgentToolCall) : PendingView where
  tool := pending.decidedCall.name
  argumentsJson :=
    displayArgumentsWithFullPaths os host w pending.decidedCall.name
      pending.decidedCall.argumentsJson
  looksDestructive :=
    let field (name : Bytes) := extractJsonStringField pending.decidedCall.argumentsJson name
    if pending.decidedCall.name = str "run_command" then
      looksLikeDestructiveCommand (field "command")
    else if pending.decidedCall.name = str "run_ffmpeg" then
      looksLikeDestructiveCommand (field "args")
    else false
  actions := pending.actions.map fun action =>
    { action with
      argumentsJson := displayArgumentsWithFullPaths os host w action.tool action.argumentsJson }

-- The arguments with which a gated call is proposed, or the result of a call that cannot succeed.
-- Nothing else of the call changes.
def precheckAndResolveGatedCall (call : ToolCall) : Except Bytes Bytes :=
  let field (name : Bytes) := extractJsonStringField call.argumentsJson name
  if call.name = str "run_command" ∨ call.name = str "run_ffmpeg" then
    let commandText := field (if call.name = str "run_ffmpeg" then str "args" else "command")
    let requestedWorkDir := field "work_dir"
    let resolvedWorkDir := resolveWorkDirOrDesktop host requestedWorkDir
    if looksLikePlaceholderPath commandText then
      .error <| notLaunchedJson <| placeholderError host <|
        str ", use that exact path (or a bare relative filename, which already defaults to the " ++
        "Desktop) instead of a placeholder"
    else if resolvedWorkDir ≠ requestedWorkDir ∧ requestedWorkDir ≠ [] then
      .ok (replaceJsonStringFieldValue call.argumentsJson "work_dir" resolvedWorkDir)
    else
      .ok call.argumentsJson
  else if call.name ≠ str "open_application" then .ok call.argumentsJson
  else if field "path_or_name" = [] then .ok call.argumentsJson
  else
    match resolveOpenApplicationTarget os host w (field "path_or_name") (field "args") with
    | .error errorMessage =>
      .error <| jsonObject [
        jsonBoolField "ok" false,
        jsonBoolField "launched" false,
        jsonIntField "pid" 0,
        jsonStringField "resolved_path" [],
        jsonStringField "resolution_source" [],
        jsonStringField "error" errorMessage
      ]
    | .ok resolved =>
      .ok <| jsonObject <| [
          jsonStringField "path_or_name" resolved.target,
          jsonStringField "args" resolved.effectiveArgs,
          jsonStringField "work_dir" (field "work_dir")
        ] ++ if resolved.displayName = [] then []
          else [jsonStringField "resolved_display_name" resolved.displayName]

end Pending
end Droidcli.Cli
