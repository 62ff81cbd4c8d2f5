import Droidcli.Ai.LanguageRuntime
import Droidcli.Net.Types
import Droidcli.Notify.Parse

namespace Droidcli.Net

open Bytes Ai

inductive HttpStatus
  | ok
  | badRequest
  | unauthorized
  | notFound
  | internalError
  deriving DecidableEq

def HttpStatus.code : HttpStatus → Nat
  | ok            => 200
  | badRequest    => 400
  | unauthorized  => 401
  | notFound      => 404
  | internalError => 500

structure HttpResponse where
  status : HttpStatus
  contentType : Bytes
  body : Bytes

-- The runtime and its transport are null pointers on a host without AI.
structure HandlerContext where
  languageAi : Option LanguageRuntime
  languageAiTransport : Option LanguageTransportCallbacks

-- What `handle_ai_chat` leaves behind: its response, which is absent when an exception escapes, the
-- runtime, and the request that was sent to the provider.
structure AiChatHandleResult where
  response : Option HttpResponse
  completedTurn : Bool
  languageAi : Option LanguageRuntime
  sent : Option ProviderRequest

-- The part of the session that the handlers show.
structure RuntimeSession where
  mapName : Bytes
  buildLabel : Bytes

structure NotifyHandleResult where
  response : HttpResponse
  notifyMessage : Notify.NotifyMessage
  hasNotifyMessage : Bool

-- The first pair with the key decides, and a key without a value has the empty one.
def queryParam (queryString key : Bytes) : Bytes :=
  let value (pair : Bytes) : Option Bytes :=
    match breakOn [0x3d] pair with
    | some (pairKey, value) => if pairKey = key then some value else none
    | none                  => if pair = key then some [] else none
  ((queryString.splitOn 0x26).findSome? value).getD []

def handleHealth (session : RuntimeSession) : HttpResponse where
  status := .ok
  contentType := "application/json"
  body := jsonObject [
    jsonStringField "status" "ok",
    jsonStringField "map" session.mapName,
    jsonStringField "build" session.buildLabel
  ]

def handleEcho (request : HttpRequest) : HttpResponse where
  status := .ok
  contentType := "application/json"
  body :=
    let msg := queryParam request.queryString "msg"
    jsonObject [jsonStringField "echo" (if msg = [] then request.body else msg)]

def handleNotify (request : HttpRequest) : NotifyHandleResult :=
  let parsed := Notify.parseNotifyBody request.body
  ⟨⟨.ok, "application/json", jsonObject [jsonBoolField "ok" parsed.success]⟩, parsed.message,
    parsed.success⟩

def extractPromptField (body : Bytes) : Bytes :=
  let field (name : Bytes) := extractJsonStringField body name
  if field "prompt" ≠ [] then field "prompt"
  else if field "text" ≠ [] then field "text"
  else field "message"

def aiChatError (status : HttpStatus) (error : Bytes) : HttpResponse where
  status := status
  contentType := "application/json"
  body := jsonObject [jsonBoolField "ok" false, jsonStringField "error" error]

def aiChatReply (runtime : LanguageRuntime) : HttpResponse where
  status := .ok
  contentType := "application/json"
  body := jsonObject [
    jsonBoolField "ok" true,
    jsonStringField "assistant" runtime.lastAssistantMessage,
    jsonStringField "representation" runtime.representationText,
    jsonStringField "model" runtime.ollamaConfig.model,
    jsonStringField "status" runtime.statusText
  ]

-- The runtime as a request finds it, before its prompt is submitted.
def prepareRuntime (body : Bytes) (runtime : LanguageRuntime) : LanguageRuntime :=
  let clearTranscript := (extractJsonBoolField body "clear").getD false
  let runtime := if clearTranscript then runtime.clearTranscript else runtime
  let systemPrompt := extractJsonStringField body "system"
  if systemPrompt ≠ [] then runtime.setSystemPrompt systemPrompt else runtime

def handleAiChat (request : HttpRequest) (context : HandlerContext) : AiChatHandleResult :=
  match context.languageAi, context.languageAiTransport with
  | some runtime, some transport =>
    let prompt := extractPromptField request.body
    if prompt = [] then
      let error := "Missing prompt. Send JSON: " ++ jsonObject [jsonStringField "prompt" "..."]
      ⟨some (aiChatError .badRequest error), false, some runtime, none⟩
    else
      let (submitted, runtime) := (prepareRuntime request.body runtime).submitUserMessage prompt
      if submitted = false then
        ⟨some (aiChatError .badRequest runtime.statusText), false, some runtime, none⟩
      else
        let turn := runtime.completeTurn transport
        match turn.completed with
        | none       => ⟨none, false, some turn.runtime, turn.sent⟩
        | some false =>
          ⟨some (aiChatError .internalError turn.runtime.statusText), false, some turn.runtime,
            turn.sent⟩
        | some true  => ⟨some (aiChatReply turn.runtime), true, some turn.runtime, turn.sent⟩
  | languageAi, _ =>
    ⟨some (aiChatError .internalError "Language AI runtime is not available on this host."), false,
      languageAi, none⟩

end Droidcli.Net
