import Droidcli.App.Tasks
import Droidcli.Cli.AgentTurn

namespace Droidcli.Cli.Tui

open Bytes Net App

-- The loop is the one that splits the arrays of a provider.
def extractJsonObjectArray (json key : Bytes) : List Bytes :=
  (Ai.afterArrayKey json key).elim [] Ai.extractJsonObjectArray

structure TaskRow where
  id : Bytes
  connectorId : Bytes
  command : Bytes
  status : Bytes
  scheduledForMs : Int
  deriving DecidableEq

-- `none` when the exception of `std::stoll` escapes.
def parseTask (object : Bytes) : Option TaskRow := do
  let scheduledForMs ← (extractJsonIntField object "scheduled_for_ms").getD 0
  return {
    id := extractJsonStringField object "id"
    connectorId := extractJsonStringField object "connector_id"
    command := extractJsonStringField object "command"
    status := extractJsonStringField object "status"
    scheduledForMs := scheduledForMs
  }

def parseTasks (json : Bytes) : Option (List TaskRow) :=
  ((extractJsonObjectArray json "tasks").mapM parseTask).map (·.filter (·.id ≠ []))

structure LogRow where
  timestamp : Bytes
  channel : Bytes
  direction : Bytes
  summary : Bytes
  success : Bool
  deriving DecidableEq

def parseLogLine (object : Bytes) : LogRow where
  timestamp := extractJsonStringField object "timestamp"
  channel := extractJsonStringField object "channel"
  direction := extractJsonStringField object "direction"
  summary := extractJsonStringField object "summary"
  success := (extractJsonBoolField object "success").getD true

def parseLogLines (json : Bytes) : List LogRow :=
  (extractJsonObjectArray json "entries").map parseLogLine

inductive ChatEntryRole
  | user
  | assistant
  | thinking
  | tool
  | error
  | info
  deriving DecidableEq

-- A line of the chat panel. Without a timestamp it bears the time at which it is made.
structure ChatEntry where
  role : ChatEntryRole
  text : Bytes
  timestamp : Option Bytes
  deriving DecidableEq

def ChatEntry.now (role : ChatEntryRole) (text : Bytes) : ChatEntry :=
  ⟨role, text, none⟩

section AgentTurn

structure PendingToolCall where
  tool : Bytes
  argumentsJson : Bytes
  deriving DecidableEq

structure ParsedTurn where
  entries : List ChatEntry
  sessionId : Bytes
  pendingToolCall : Option PendingToolCall
  deriving DecidableEq

def parseAction (action : Bytes) : PendingToolActionRecord where
  tool := extractJsonStringField action "tool"
  argumentsJson := extractJsonStringField action "arguments_json"
  resultJson := extractJsonStringField action "result_json"

def parseActions (json : Bytes) : List PendingToolActionRecord :=
  (extractJsonObjectArray json "actions").map parseAction

def thinkingEntries (thinking : Bytes) : List ChatEntry :=
  if thinking = [] then [] else [.now .thinking thinking]

def actionEntry (action : PendingToolActionRecord) : ChatEntry :=
  .now .tool <| str "called " ++ action.tool ++ "(" ++ action.argumentsJson ++ ")" ++
    if action.resultJson = [] then [] else str " -> " ++ action.resultJson

def assistantEntry (assistant : Bytes) : ChatEntry :=
  .now .assistant (if assistant = [] then "(no reply)" else assistant)

def parseAgentTurnResponse (json : Bytes) : ParsedTurn :=
  let sessionId := extractJsonStringField json "session_id"
  if extractJsonBoolField json "ok" ≠ some true then
    let error := extractJsonStringField json "error"
    ⟨[.now .error (if error = [] then "agent turn failed" else error)], sessionId, none⟩
  else
    let entries := thinkingEntries (extractJsonStringField json "thinking") ++
      (parseActions json).map actionEntry
    match breakOn (needle "pending_tool_call") json with
    | none =>
      ⟨entries ++ [assistantEntry (extractJsonStringField json "assistant")], sessionId, none⟩
    | some (_, rest) =>
      let pendingObject := needle "pending_tool_call" ++ rest
      let pending : PendingToolCall :=
        ⟨extractJsonStringField pendingObject "tool",
          extractJsonStringField pendingObject "arguments_json"⟩
      let warning :=
        if extractJsonBoolField pendingObject "looks_destructive" = some true then
          str "[!! DESTRUCTIVE !!] "
        else []
      let prompt := warning ++ "[AGENT WANTS TO] " ++ pending.tool ++ "(" ++
        pending.argumentsJson ++ ") - approve? (yes/no, or say why not)"
      ⟨entries ++ [.now .info prompt], sessionId, some pending⟩

end AgentTurn

section History

structure HistoryMessage where
  role : Bytes
  content : Bytes
  createdAt : Bytes
  deriving DecidableEq

def parseMessage (message : Bytes) : HistoryMessage where
  role := extractJsonStringField message "role"
  content := extractJsonStringField message "content"
  createdAt := extractJsonStringField message "created_at"

def parseMessages (json : Bytes) : List HistoryMessage :=
  (extractJsonObjectArray json "messages").map parseMessage

def HistoryMessage.timestamp (message : HistoryMessage) : Option Bytes :=
  if message.createdAt.length < 8 then none
  else some (message.createdAt.drop (message.createdAt.length - 8))

def HistoryMessage.entry (message : HistoryMessage) : ChatEntry :=
  if message.role = str "assistant" then ⟨.assistant, message.content, message.timestamp⟩
  else if message.role = str "tool" then
    ⟨.tool, str "(resumed) " ++ message.content, message.timestamp⟩
  else ⟨.user, message.content, message.timestamp⟩

-- The lines of the messages, under one that says how many there are.
def resumedEntries (messages : List HistoryMessage) : List ChatEntry :=
  let entries := (messages.filter (·.role ≠ str "system")).map HistoryMessage.entry
  let sawSystemPrompt : Bool := messages.any (·.role = str "system")
  if entries = [] then []
  else
    let summary := str "Resumed a prior session (" ++ decimal entries.length ++ " message" ++
      (if entries.length = 1 then [] else str "s") ++
      (if sawSystemPrompt then str ", plus the system prompt" else []) ++
      "). Press 'n' to start a new session instead."
    .now .info summary :: entries

def parseAgentHistoryForResume (json : Bytes) : List ChatEntry :=
  resumedEntries (parseMessages json)

end History

end Droidcli.Cli.Tui
