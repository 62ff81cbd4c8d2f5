import Droidcli.Ai.OpenAICompatClient

namespace Droidcli.Ai

open Bytes

structure LanguageRuntime where
  ollamaConfig : OpenAICompatConfig
  transcript : List ChatMessage
  lastUserMessage : Bytes
  lastAssistantMessage : Bytes
  statusText : Bytes
  runtimeEnabled : Bool
  awaitingResponse : Bool

-- `post_json` answers a request with what the provider sent back, and may be unbound.
structure LanguageTransportCallbacks where
  postJson : Option (ProviderRequest → PostOutcome)

-- What a turn leaves behind: the runtime, and the request it has sent. The flag is what the method
-- returns, and absent when the exception of `std::stoll` escapes.
structure CompletedTurn where
  completed : Option Bool
  runtime : LanguageRuntime
  sent : Option ProviderRequest

namespace LanguageRuntime

def initial : LanguageRuntime where
  ollamaConfig := ⟨"http://127.0.0.1:11434", "llama3.2", true, false, 32768⟩
  transcript := []
  lastUserMessage := []
  lastAssistantMessage := []
  statusText := "Language AI runtime idle."
  runtimeEnabled := true
  awaitingResponse := false

def setOllamaConfig (runtime : LanguageRuntime) (config : OpenAICompatConfig) : LanguageRuntime :=
  { runtime with ollamaConfig := config }

def setRuntimeEnabled (runtime : LanguageRuntime) (enabled : Bool) : LanguageRuntime :=
  { runtime with runtimeEnabled := enabled }

def clearTranscript (runtime : LanguageRuntime) : LanguageRuntime :=
  { runtime with
    transcript := []
    lastUserMessage := []
    lastAssistantMessage := []
    awaitingResponse := false
    statusText := "Language AI transcript cleared." }

def upsertSystemMessage (prompt : Bytes) : List ChatMessage → List ChatMessage
  | ⟨.system, _⟩ :: transcript => ⟨.system, prompt⟩ :: transcript
  | transcript                 => ⟨.system, prompt⟩ :: transcript

def eraseSystemMessage : List ChatMessage → List ChatMessage
  | ⟨.system, _⟩ :: transcript => transcript
  | transcript                 => transcript

def setSystemPrompt (runtime : LanguageRuntime) (prompt : Bytes) : LanguageRuntime :=
  { runtime with transcript :=
      if prompt = [] then eraseSystemMessage runtime.transcript
      else upsertSystemMessage prompt runtime.transcript }

def submitUserMessage (runtime : LanguageRuntime) (message : Bytes) : Bool × LanguageRuntime :=
  if runtime.runtimeEnabled = false then
    (false, { runtime with statusText := "Language AI runtime is disabled." })
  else if runtime.ollamaConfig.enabled = false then
    (false, { runtime with statusText := "Ollama integration is disabled." })
  else if message = [] then
    (false, { runtime with statusText := "User message is empty." })
  else if runtime.awaitingResponse then
    (false, { runtime with statusText := "Waiting for the previous Ollama response." })
  else
    (true, { runtime with
      transcript := runtime.transcript ++ [⟨.user, message⟩]
      lastUserMessage := message
      awaitingResponse := true
      statusText := "User message queued for Ollama." })

def buildPendingChatRequest (runtime : LanguageRuntime) : Except Bytes ProviderRequest :=
  if runtime.runtimeEnabled = false then .error "Language AI runtime is disabled."
  else if runtime.awaitingResponse = false then .error "No pending user message."
  else buildOpenaiChatRequest runtime.ollamaConfig runtime.transcript []

def applyChatResponse (runtime : LanguageRuntime) (response : ProviderResponse) :
    Bool × LanguageRuntime :=
  if runtime.awaitingResponse = false then
    (false, { runtime with statusText := "No pending Ollama request." })
  else if response.transportOk = false ∨ response.httpSuccess = false then
    (false, { runtime with statusText :=
      if response.errorMessage = [] then "Ollama request failed." else response.errorMessage })
  else if response.assistantMessage = [] then
    (false, { runtime with statusText :=
      if response.errorMessage = [] then "Ollama returned an empty assistant message."
      else response.errorMessage })
  else
    (true, { runtime with
      transcript := runtime.transcript ++ [⟨.assistant, response.assistantMessage⟩]
      lastAssistantMessage := response.assistantMessage
      awaitingResponse := false
      statusText := "Ollama response applied." })

def completeTurn (runtime : LanguageRuntime) (transport : LanguageTransportCallbacks) :
    CompletedTurn :=
  match runtime.buildPendingChatRequest, transport.postJson with
  | .error errorMessage, _ => ⟨some false, { runtime with statusText := errorMessage }, none⟩
  | .ok _, none            =>
    ⟨some false, { runtime with statusText := "Language AI transport is not bound." }, none⟩
  | .ok request, some postJson =>
    match (postJson request).parse with
    | none          => ⟨none, runtime, some request⟩
    | some response =>
      let (applied, runtime) := runtime.applyChatResponse response
      ⟨some applied, runtime, some request⟩

def representationText (runtime : LanguageRuntime) : Bytes :=
  if runtime.lastAssistantMessage ≠ [] then runtime.lastAssistantMessage
  else if runtime.lastUserMessage ≠ [] then runtime.lastUserMessage
  else runtime.statusText

end LanguageRuntime
end Droidcli.Ai
