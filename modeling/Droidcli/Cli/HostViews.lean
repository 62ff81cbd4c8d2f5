import Droidcli.App.Tasks
import Droidcli.Cli.HostState
import Droidcli.Cli.MemoryStore

namespace Droidcli.Cli

open Bytes Net

-- The entries of the log and the rows of the table, with the times that are only shown.
structure TimedLogEntry extends AppLogEntry where
  timestamp : Bytes
  deriving DecidableEq

structure TimedRecord extends MemoryRecord where
  createdAt : Bytes
  deriving DecidableEq

def logEntryJson (entry : TimedLogEntry) : Bytes :=
  jsonObject [
    jsonStringField "timestamp" entry.timestamp,
    jsonStringField "channel" entry.channel,
    jsonStringField "direction" entry.direction,
    jsonStringField "summary" entry.summary,
    jsonBoolField "success" entry.success
  ]

def buildAppLogJson (appLog : List TimedLogEntry) : Bytes :=
  jsonObject [needle "entries" ++ jsonArray (appLog.map logEntryJson)]

def recordJson (record : TimedRecord) : Bytes :=
  jsonObject [
    jsonIntField "hop_index" record.hopIndex,
    jsonStringField "role" record.role,
    jsonStringField "content" record.content,
    jsonStringField "created_at" record.createdAt
  ]

def buildAgentHistoryJson (currentSessionId : Bytes) (loadSession : Bytes → List TimedRecord)
    (sessionId : Bytes) : Bytes :=
  let resolvedSessionId := if sessionId = [] then currentSessionId else sessionId
  jsonObject [
    jsonStringField "session_id" resolvedSessionId,
    needle "messages" ++ jsonArray ((loadSession resolvedSessionId).map recordJson)
  ]

end Droidcli.Cli
