import Droidcli.Cli.Tui

namespace Droidcli.Cli

open Bytes Net

-- `DroidHost::build_agent_sessions_json`, for the sessions that the memory store lists.
def buildAgentSessionsJson (currentSessionId : Bytes) (sessionIds : List Bytes) : Bytes :=
  jsonObject [
    jsonStringField "current_session_id" currentSessionId,
    needle "session_ids" ++ jsonArray (sessionIds.map jsonString)
  ]

-- What the host has found out about its provider.
structure OllamaStatus where
  aiEnabled : Bool
  ollamaUrl : Bytes
  model : Bytes
  online : Bool
  statusCode : Int
  models : List Bytes

def buildOllamaStatusJson (status : OllamaStatus) : Bytes :=
  jsonObject [
    jsonBoolField "ai_enabled" status.aiEnabled,
    jsonStringField "ollama_url" status.ollamaUrl,
    jsonStringField "model" status.model,
    jsonBoolField "online" status.online,
    jsonIntField "status_code" status.statusCode,
    needle "models" ++ jsonArray (status.models.map jsonString)
  ]

namespace Tui

-- A string up to its closing quote, and what follows that. Whatever is escaped stands for itself.
def readQuoted : Bytes → Bytes × Bytes
  | []  => ([], [])
  | [c] => if c = quote then ([], []) else ([c], [])
  | c :: e :: text =>
    if c = quote then ([], e :: text)
    else if c = backslash then
      let (value, rest) := readQuoted text
      (e :: value, rest)
    else
      let (value, rest) := readQuoted (e :: text)
      (c :: value, rest)

-- Each round reads a string, and takes a quote at least.
def readStrings : Nat → Bytes → List Bytes
  | 0, _ => []
  | rounds + 1, text =>
    match text.dropWhile Ai.isJsonGap with
    | c :: text =>
      if c = quote then
        let (value, rest) := readQuoted text
        value :: readStrings rounds rest
      else []
    | [] => []

def parseJsonStringArray (json key : Bytes) : List Bytes :=
  (Ai.afterArrayKey json key).elim [] fun text => readStrings text.length text

end Tui
end Droidcli.Cli
