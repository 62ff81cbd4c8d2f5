import Droidcli.Net.Json

namespace Droidcli.Net

open Bytes

structure Connector where
  id : Bytes
  kind : Bytes
  baseUrl : Bytes
  launchCmd : Bytes
  workDir : Bytes
  capabilities : List Bytes
  enabled : Bool
  deriving DecidableEq

-- The connector takes the place of one with its identifier, or the last place.
def putConnector (connector : Connector) : List Connector → List Connector
  | []                  => [connector]
  | existing :: others =>
    if existing.id = connector.id then connector :: others
    else existing :: putConnector connector others

def registerConnector (connectors : List Connector) (connector : Connector) : List Connector :=
  if connector.id = [] ∨ connector.kind = [] then connectors
  else putConnector connector connectors

def findConnector (connectors : List Connector) (connectorId : Bytes) : Option Connector :=
  connectors.find? (·.id = connectorId)

def buildConnectorJson (connector : Connector) : Bytes :=
  jsonObject [
    jsonStringField "id" connector.id,
    jsonStringField "kind" connector.kind,
    jsonStringField "base_url" connector.baseUrl,
    jsonStringField "launch_cmd" connector.launchCmd,
    jsonStringField "work_dir" connector.workDir,
    jsonBoolField "enabled" connector.enabled,
    needle "capabilities" ++ jsonArray (connector.capabilities.map jsonString)
  ]

-- As in `buildTasksJson`, the opening brace is missing.
def buildConnectorsJson (connectors : List Connector) : Bytes :=
  jsonBoolField "ok" true ++ comma :: needle "connectors" ++
    jsonArray (connectors.map buildConnectorJson) ++ [rbrace]

def parseConnectorFromJson (json : Bytes) : Except Bytes Connector :=
  let id := extractJsonStringField json "id"
  let kind := extractJsonStringField json "kind"
  if id = [] ∨ kind = [] then .error "Connector requires id and kind."
  else if kind ≠ str "http_peer" ∧ kind ≠ str "launched_process" then
    .error "Connector kind must be http_peer or launched_process."
  else
    let capability := extractJsonStringField json "capabilities"
    .ok {
      id := id
      kind := kind
      baseUrl := extractJsonStringField json "base_url"
      launchCmd := extractJsonStringField json "launch_cmd"
      workDir := extractJsonStringField json "work_dir"
      capabilities := if capability ≠ [] then [capability] else []
      enabled := (extractJsonBoolField json "enabled").getD true
    }

end Droidcli.Net
