import Droidcli.Cli.Gateway
import Droidcli.Cli.HostTools
import Droidcli.Cli.StringArrays
import Droidcli.Cli.SystemInfo
import Droidcli.Cli.TuiSession

namespace Droidcli.Cli

open Bytes Net

-- The names of a document from some place in its text on. Each round leaves a key behind, and a
-- name that cannot be read ends them.
def readModelNames : Nat → Bytes → List Bytes → List Bytes
  | 0, _, names => names
  | rounds + 1, text, names =>
    match after (needle "name") text with
    | none      => names
    | some text' =>
      let name := extractJsonStringField text "name"
      if name = [] then names
      else readModelNames rounds text' (if name ∈ names then names else names ++ [name])

def parseOllamaModelNames (tagsJson : Bytes) : List Bytes :=
  (breakOn (needle "models") tagsJson).elim [] fun (_, rest) =>
    readModelNames tagsJson.length (needle "models" ++ rest) []

-- What the host finds out for the setup.
structure OllamaSetup where
  installed : Bool
  online : Bool
  models : List Bytes
  configuredModel : Bytes
  deriving DecidableEq

def OllamaSetup.json (setup : OllamaSetup) : Bytes :=
  jsonObject [
    jsonBoolField "installed" setup.installed,
    jsonBoolField "online" setup.online,
    needle "models" ++ jsonArray (setup.models.map jsonString),
    jsonStringField "configured_model" setup.configuredModel,
    jsonBoolField "configured_model_pulled" (setup.configuredModel ∈ setup.models)
  ]

def succeeds (reply : Option (Int × Bytes)) : Bool :=
  reply.any fun (statusCode, _) => 200 ≤ statusCode && statusCode < 300

def tagsUrl (config : HostConfig) : Bytes :=
  stripTrailingSlashes config.ollamaUrl ++ str "/api/tags"

-- What a call of the host comes to: next to its value and what it leaves behind, the entries that
-- it appends to the app log.
structure HostRan (W α : Type) where
  value : α
  logged : List AppLogEntry
  host : Host
  world : W

namespace Host

variable {W : Type} (os : Os W) (platform : Platform) (host : Host)

def whereCommand : Platform → Bytes → Bytes
  | .windows, name => str "where " ++ name
  | .posix,   name => str "which " ++ name

def ollamaSetup (w : W) : OllamaSetup × W :=
  let (whereResult, w) := os.runCommandOnce (whereCommand platform "ollama") [] 5000 w
  let (reply, w) := os.syncHttpGet (tagsUrl host.config) w
  ({
    installed :=
      whereResult.launched && whereResult.exitCode = 0 && whereResult.stdoutText ≠ []
    online := succeeds reply
    models := if succeeds reply then parseOllamaModelNames (reply.elim [] Prod.snd) else []
    configuredModel := host.config.ollamaModel
  }, w)

def ollamaSetupStatusJson (w : W) : Bytes × W :=
  let (setup, w) := host.ollamaSetup os platform w
  (setup.json, w)

section Install

def wingetInstall : Bytes :=
  str "winget install --id Ollama.Ollama -e --source winget --accept-package-agreements " ++
    str "--accept-source-agreements"

def installResultJson (ok : Bool) (exitCode : Int) (out err error : Bytes) : Bytes :=
  jsonObject [
    jsonBoolField "ok" ok,
    jsonIntField "exit_code" exitCode,
    jsonStringField "stdout" out,
    jsonStringField "stderr" err,
    jsonStringField "error" error
  ]

def noWinget : Bytes :=
  str "winget is not available on this system. Install Ollama manually from " ++
    str "https://ollama.com/download."

def windowsOnly : Bytes :=
  str "automatic install is only implemented on Windows; install Ollama manually from " ++
    str "https://ollama.com/download."

def installOllama (w : W) : HostRan W Bytes :=
  match platform with
  | .posix   => ⟨installResultJson false 0 [] [] windowsOnly, [], host, w⟩
  | .windows =>
    let (whereWinget, w) := os.runCommandOnce (whereCommand .windows "winget") [] 5000 w
    if !whereWinget.launched || whereWinget.exitCode ≠ 0 then
      ⟨installResultJson false 0 [] [] noWinget, [], host, w⟩
    else
      let (result, w) := os.runCommandOnce wingetInstall [] 300000 w
      let ok := commandSucceeded result
      let summary := if ok then str "installed Ollama via winget" else str "winget install failed"
      ⟨installResultJson ok result.exitCode result.stdoutText result.stderrText result.errorMessage,
        [⟨"ollama", "out", summary, ok⟩], host, w⟩

end Install

section Start

-- The entry of the process table that `start_ollama` launches, with the fields that count.
def ollamaProcess : Connector where
  id := "__ollama__"
  kind := "launched_process"
  baseUrl := []
  launchCmd := "ollama serve"
  workDir := []
  capabilities := []
  enabled := true

-- Half a second is waited before each attempt.
def awaitOnline (url : Bytes) : Nat → W → Bool × W
  | 0, w => (false, w)
  | attempts + 1, w =>
    let (reply, w) := os.syncHttpGet url (os.passTime w)
    if succeeds reply then (true, w) else awaitOnline url attempts w

def startOllama (w : W) : HostRan W Bytes :=
  let ((launched, error), w) := os.launch ollamaProcess w
  if !launched then
    ⟨jsonObject [
        jsonBoolField "ok" false, jsonBoolField "online" false, jsonStringField "error" error],
      [⟨"ollama", "out", str "failed to launch ollama serve: " ++ error, false⟩], host, w⟩
  else
    let pid := ((os.snapshot w).find? (·.key = ollamaProcess.id)).elim 0 (·.pid)
    let (online, w) := awaitOnline os (tagsUrl host.config) 6 w
    let summary :=
      if online then str "ollama serve came online"
      else str "ollama serve launched but is not yet reachable"
    ⟨jsonObject [jsonBoolField "ok" true, jsonIntField "pid" pid, jsonBoolField "online" online],
      [⟨"ollama", "out", summary, online⟩], host, w⟩

end Start

def modelBody (model : Bytes) : Bytes :=
  jsonObject [jsonStringField "model" model]

def pullResultJson (ok : Bool) (model : Bytes) (exitCode : Int) (error : Bytes) : Bytes :=
  jsonObject [
    jsonBoolField "ok" ok,
    jsonStringField "model" model,
    jsonIntField "exit_code" exitCode,
    jsonStringField "error" error
  ]

def pullOllamaModel (body : Bytes) (w : W) : HostRan W Bytes :=
  let model := extractJsonStringField body "model"
  if model = [] then ⟨pullResultJson false [] 0 "missing model", [], host, w⟩
  else
    let (result, w) := os.runCommandOnce (str "ollama pull " ++ model) [] 600000 w
    let ok := commandSucceeded result
    let summary := if ok then str "pulled model: " ++ model else str "pull failed: " ++ model
    let error :=
      if result.errorMessage = [] ∧ ¬ok then result.stderrText else result.errorMessage
    ⟨pullResultJson ok model result.exitCode error, [⟨"ollama", "out", summary, ok⟩],
      if ok then (host.updateOllamaConfig (modelBody model)).2 else host, w⟩

end Host

namespace Tui

structure OllamaSetupStatus where
  installed : Bool
  online : Bool
  models : List Bytes
  configuredModel : Bytes
  configuredModelPulled : Bool

def parseOllamaSetupStatus (json : Bytes) : OllamaSetupStatus where
  installed := (extractJsonBoolField json "installed").getD false
  online := (extractJsonBoolField json "online").getD false
  models := parseJsonStringArray json "models"
  configuredModel := extractJsonStringField json "configured_model"
  configuredModelPulled := (extractJsonBoolField json "configured_model_pulled").getD false

inductive OllamaSetupState
  | ready
  | needsInstall
  | needsStart
  | needsModel
  deriving DecidableEq

def computeSetupState (status : OllamaSetupStatus) : OllamaSetupState :=
  if !status.installed then .needsInstall
  else if !status.online then .needsStart
  else if status.models = [] || !status.configuredModelPulled then .needsModel
  else .ready

def numberedModels (models : List Bytes) : Bytes :=
  joinWith "  " <| models.mapIdx fun index model => decimal (index + 1) ++ str ") " ++ model

def describeSetupPrompt (state : OllamaSetupState) (models : List Bytes) : Bytes :=
  match state with
  | .needsInstall =>
    str "Ollama isn't installed. Type 'install ollama' to install it automatically " ++
      str "(via winget), or install it yourself from ollama.com."
  | .needsStart =>
    str "Ollama is installed but not running. Type 'start ollama' to launch it."
  | .needsModel =>
    if models = [] then
      str "No Ollama models found on this machine. Type a model name to download it " ++
        str "(e.g. 'llama3.2', 'qwen2.5', 'mistral-nemo') and I'll pull it for you."
    else
      str "Ollama has these models available: " ++ numberedModels models ++
        str ". Type a number or name to use one (Enter = 1), or 'pull <name>' to download a " ++
        str "different model."
  | .ready => []

def tryResolveModelSelection (trimmedMessage : Bytes) (models : List Bytes) : Option Bytes :=
  match models with
  | [] => none
  | front :: _ =>
    if trimmedMessage = [] then some front
    else if trimmedMessage.all isDigit then
      let index := atoi (digitsValue trimmedMessage)
      if 1 ≤ index then models[(index - 1).toNat]? else none
    else models.find? fun model => lowered model = lowered trimmedMessage

-- What a message of the chat comes to: the lines that answer it, or else it is one for the agent.
structure SetupTurn (W : Type) where
  entries : Option (List ChatEntry)
  logged : List AppLogEntry
  host : Host
  world : W

namespace SetupTurn

variable {W : Type} (os : Os W) (platform : Platform) (host : Host)

def told (text : Bytes) (host : Host) (w : W) : SetupTurn W :=
  ⟨some [.now .info text], [], host, w⟩

def install (w : W) : SetupTurn W :=
  let ran := host.installOllama os platform w
  let entry : ChatEntry :=
    if extractJsonBoolField ran.value "ok" = some true then
      .now .info <| str "Ollama installed. Type a message to continue - you'll be asked to start " ++
        str "it next."
    else
      let error := extractJsonStringField ran.value "error"
      .now .error <| str "Ollama install failed: " ++
        if error = [] then extractJsonStringField ran.value "stderr" else error
  ⟨some [.now .info "Installing Ollama, this can take a few minutes...", entry], ran.logged,
    ran.host, ran.world⟩

def start (w : W) : SetupTurn W :=
  let ran := host.startOllama os w
  let ok := extractJsonBoolField ran.value "ok" = some true
  let online := extractJsonBoolField ran.value "online" = some true
  let entry : ChatEntry :=
    if ok ∧ online then .now .info "Ollama is running. Type a message to continue."
    else if ok then
      .now .error <| str "Ollama process started but is not yet reachable at its configured URL. " ++
        str "Try again in a moment."
    else
      .now .error <| str "Failed to start Ollama: " ++ extractJsonStringField ran.value "error"
  ⟨some [.now .info "Starting Ollama...", entry], ran.logged, ran.host, ran.world⟩

def use (model : Bytes) (w : W) : SetupTurn W :=
  told (str "Using model '" ++ model ++ str "'. Type a message to start chatting.")
    (host.updateOllamaConfig (Host.modelBody model)).2 w

def pull (model : Bytes) (w : W) : SetupTurn W :=
  let ran := host.pullOllamaModel os (Host.modelBody model) w
  let entry : ChatEntry :=
    if extractJsonBoolField ran.value "ok" = some true then
      .now .info <| str "Model '" ++ model ++ str "' downloaded and set as the active model. " ++
        str "Type a message to start chatting."
    else
      .now .error <| str "Failed to pull model '" ++ model ++ str "': " ++
        extractJsonStringField ran.value "error"
  ⟨some [.now .info (str "Downloading model '" ++ model ++ str "', this can take a while..."),
    entry], ran.logged, ran.host, ran.world⟩

def pullPrefix : Bytes :=
  "pull "

def chooseModel (trimmedMessage : Bytes) (models : List Bytes) (w : W) : SetupTurn W :=
  let lowerMessage := lowered trimmedMessage
  let prompt := describeSetupPrompt .needsModel models
  if lowerMessage = str "list" then
    told (str "Pulled models: " ++
      if joinWith ", " models = [] then str "(none)" else joinWith ", " models) host w
  else if lowerMessage ∈ [str "install", str "install ollama", str "start", str "start ollama"] then
    told prompt host w
  else if pullPrefix <+: lowerMessage then
    let target := trim (trimmedMessage.drop 5)
    if target = [] then told prompt host w else pull os host target w
  else
    match tryResolveModelSelection trimmedMessage models with
    | some model => use host model w
    | none       => if trimmedMessage = [] then told prompt host w else pull os host trimmedMessage w

end SetupTurn

-- `run_chat_turn`, up to the request that it sends to the agent.
def setupTurn {W : Type} (os : Os W) (platform : Platform) (message : Bytes) (host : Host) (w : W) :
    SetupTurn W :=
  let trimmedMessage := trim message
  let lowerMessage := lowered trimmedMessage
  let (statusJson, w) := host.ollamaSetupStatusJson os platform w
  let status := parseOllamaSetupStatus statusJson
  let state := computeSetupState status
  match state with
  | .needsInstall =>
    if lowerMessage ∈ [str "install ollama", str "install"] then
      SetupTurn.install os platform host w
    else SetupTurn.told (describeSetupPrompt state status.models) host w
  | .needsStart =>
    if lowerMessage ∈ [str "start ollama", str "start"] then SetupTurn.start os host w
    else SetupTurn.told (describeSetupPrompt state status.models) host w
  | .needsModel => SetupTurn.chooseModel os host trimmedMessage status.models w
  | .ready => ⟨none, [], host, w⟩

end Tui
end Droidcli.Cli
