import Droidcli.Cli.HostState
import Droidcli.Cli.SettingsStore
import Droidcli.Tools.MiniHttpServer

namespace Droidcli.Cli

open Bytes Net Ai Tools

-- The part of `DroidHost` that stands behind the configuration and the notify log.
structure Host where
  config : HostConfig
  languageAi : LanguageRuntime
  notifyLog : List Bytes

namespace Host

def ollamaConfig (host : Host) : OpenAICompatConfig :=
  ⟨host.config.ollamaUrl, host.config.ollamaModel, true, false, host.config.ollamaNumCtx⟩

-- `configure` and `initialize`. The system prompt is followed by what the machine is.
def initialized (config : HostConfig) (systemInfo : Bytes) : Host :=
  let host : Host := ⟨config, .initial, []⟩
  if config.enableAi then
    let languageAi := (host.languageAi.setRuntimeEnabled true).setOllamaConfig host.ollamaConfig
    { host with languageAi :=
        if config.systemPrompt ≠ [] then
          languageAi.setSystemPrompt (config.systemPrompt ++ systemInfo)
        else languageAi }
  else { host with languageAi := host.languageAi.setRuntimeEnabled false }

-- What both updates end with, next to saving the settings.
def applyConfig (host : Host) : Host :=
  if host.config.enableAi then
    { host with languageAi := host.languageAi.setOllamaConfig host.ollamaConfig }
  else host

def configFields (host : Host) : List Bytes := [
  jsonBoolField "ai_enabled" host.config.enableAi,
  jsonStringField "ollama_url" host.config.ollamaUrl,
  jsonStringField "ollama_model" host.config.ollamaModel
]

def buildConfigJson (host : Host) : Bytes :=
  jsonObject host.configFields

def updateConfig (body : Bytes) (host : Host) : Bytes × Host :=
  let host := { host with config := { host.config with
    ollamaUrl := loadString body "ollama_url" host.config.ollamaUrl
    ollamaModel := loadString body "ollama_model" host.config.ollamaModel } }
  (jsonObject (jsonBoolField "success" true :: host.configFields), host.applyConfig)

def updateOllamaConfig (body : Bytes) (host : Host) : Bytes × Host :=
  let model := extractJsonStringField body "model"
  if model = [] then
    (jsonObject [jsonBoolField "success" false, jsonStringField "message" "Missing model field."],
      host)
  else
    let host := { host with config := { host.config with ollamaModel := model } }
    (jsonObject [jsonBoolField "success" true, jsonStringField "model" model], host.applyConfig)

def onNotify (message : Bytes) (host : Host) : Host :=
  let notifyLog := host.notifyLog ++ [message]
  { host with notifyLog := if 64 < notifyLog.length then notifyLog.tail else notifyLog }

def notifyLogJson (notifyLog : List Bytes) : Bytes :=
  jsonObject [needle "entries" ++
    jsonArray (notifyLog.map fun message => jsonObject [jsonStringField "message" message])]

def buildNotifyLogJson (host : Host) : Bytes :=
  notifyLogJson host.notifyLog

end Host

-- What the rest of the program answers a request with. The methods of the host that are not among
-- the above may change its configuration, but leave the notify log alone.
structure Answers where
  postJson : ProviderRequest → PostOutcome
  otherMethod : HostCall → Host → Bytes × HostConfig × LanguageRuntime

def Host.callMethod (answers : Answers) (call : HostCall) (host : Host) : Bytes × Host :=
  match call with
  | .buildConfigJson         => (host.buildConfigJson, host)
  | .updateConfig body       => host.updateConfig body
  | .updateOllamaConfig body => host.updateOllamaConfig body
  | .buildNotifyLogJson      => (host.buildNotifyLogJson, host)
  | call =>
    let (body, config, languageAi) := answers.otherMethod call host
    (body, ⟨config, languageAi, host.notifyLog⟩)

-- The program once it serves: the server and the host next to it.
structure Gateway where
  options : MiniHttpServerOptions Host
  languageAi : LanguageRuntime
  host : Host

-- The server that `main` starts, for the settings it has resolved. The callback writes the message
-- to the console.
def Gateway.start (settings : HostSettings) (systemPrompt systemInfo : Bytes) : Gateway :=
  let config : HostConfig := {
    enableAi := settings.enableAi
    ollamaUrl := settings.ollamaUrl
    ollamaModel := settings.ollamaModel
    ollamaNumCtx := settings.ollamaNumCtx.toInt
    systemPrompt := systemPrompt
  }
  let options : MiniHttpServerOptions Host := {
    session := ⟨"droidcli", "daemon"⟩
    onNotify := some fun _ host => host
    enableLanguageAi := settings.enableAi
    ollamaConfig := ⟨settings.ollamaUrl, settings.ollamaModel, settings.enableAi, false, 32768⟩
    systemPrompt := []
    apiToken := settings.apiToken
  }
  ⟨options, configureLanguageAi options .initial, .initialized config systemInfo⟩

-- What the server does about a request: its response, which is absent when an exception escapes,
-- and the request it has sent to the provider.
structure Polled where
  response : Option HttpResponse
  sent : Option ProviderRequest
  gateway : Gateway

namespace Gateway

def context (answers : Answers) (gateway : Gateway) : HandlerContext :=
  if gateway.options.enableLanguageAi then
    ⟨some gateway.languageAi, some ⟨some answers.postJson⟩⟩
  else ⟨none, none⟩

def notified (request : HttpRequest) (gateway : Gateway) : Polled :=
  let result := handleNotify request
  let host :=
    match gateway.options.onNotify with
    | some onNotify =>
      if result.hasNotifyMessage then onNotify result.notifyMessage.text gateway.host
      else gateway.host
    | none => gateway.host
  ⟨some result.response, none, { gateway with host := host }⟩

def chatted (answers : Answers) (request : HttpRequest) (gateway : Gateway) : Polled :=
  let result := handleAiChat request (gateway.context answers)
  let languageAi := result.languageAi.getD gateway.languageAi
  ⟨result.response, result.sent, { gateway with languageAi := languageAi }⟩

def unauthorizedBody : Bytes :=
  jsonObject [
    jsonStringField "error" "unauthorized",
    jsonStringField "message" "missing or invalid Authorization: Bearer <token> header"
  ]

def pollOnce (answers : Answers) (request : HttpRequest) (gateway : Gateway) : Polled :=
  match Tools.pollOnce gateway.options.apiToken request with
  | .unauthorized    => ⟨some ⟨.unauthorized, "application/json", unauthorizedBody⟩, none, gateway⟩
  | .handled .health => ⟨some (handleHealth gateway.options.session), none, gateway⟩
  | .handled .echo   => ⟨some (handleEcho request), none, gateway⟩
  | .handled .notify => gateway.notified request
  | .handled .aiChat => gateway.chatted answers request
  | .custom call     =>
    let (body, host) := gateway.host.callMethod answers call
    ⟨some ⟨.ok, "application/json", body⟩, none, { gateway with host := host }⟩
  | .notFound        =>
    ⟨some ⟨.notFound, "application/json", jsonObject [jsonStringField "error" "not_found"]⟩, none,
      gateway⟩

end Gateway

-- What happens to the program: a request comes in, or the terminal calls one of the updates.
inductive GatewayEvent
  | request (request : HttpRequest) (answers : Answers)
  | updateConfig (body : Bytes)
  | updateOllamaConfig (body : Bytes)

namespace Gateway

def step (gateway : Gateway) : GatewayEvent → Gateway
  | .request request answers => (gateway.pollOnce answers request).gateway
  | .updateConfig body       => { gateway with host := (gateway.host.updateConfig body).2 }
  | .updateOllamaConfig body => { gateway with host := (gateway.host.updateOllamaConfig body).2 }

def after (gateway : Gateway) (events : List GatewayEvent) : Gateway :=
  events.foldl step gateway

end Gateway
end Droidcli.Cli
