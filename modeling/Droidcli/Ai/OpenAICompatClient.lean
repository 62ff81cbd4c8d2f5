import Droidcli.Ai.Types
import Droidcli.Net.Json

namespace Droidcli.Ai

open Bytes Net

def trimTrailingSlash (value : Bytes) : Bytes :=
  (value.reverse.dropWhile (· = slash)).reverse

def buildOpenaiChatUrl (config : OpenAICompatConfig) : Bytes :=
  if config.baseUrl = [] then [] else trimTrailingSlash config.baseUrl ++ "/v1/chat/completions"

def serializeTool (tool : ToolDefinition) : Bytes :=
  jsonObject [
    jsonStringField "type" "function",
    needle "function" ++ jsonObject [
      jsonStringField "name" tool.name,
      jsonStringField "description" tool.description,
      needle "parameters" ++
        if tool.parametersJsonSchema = [] then jsonObject [] else tool.parametersJsonSchema
    ]
  ]

def serializeTools (tools : List ToolDefinition) : Bytes :=
  jsonArray (tools.map serializeTool)

def serializeChatMessages (messages : List ChatMessage) : Bytes :=
  jsonArray <| messages.map fun message =>
    jsonObject [
      jsonStringField "role" message.role.toText,
      jsonStringField "content" message.content
    ]

-- The request, or the `error_message` of an invalid one.
def buildOpenaiChatRequest (config : OpenAICompatConfig) (messages : List ChatMessage)
    (tools : List ToolDefinition) : Except Bytes ProviderRequest :=
  if config.enabled = false then .error "The LLM provider is disabled."
  else if config.model = [] then .error "Model name is empty."
  else if messages = [] then .error "Chat transcript is empty."
  else if buildOpenaiChatUrl config = [] then .error "Provider base URL is empty."
  else .ok {
    url := buildOpenaiChatUrl config
    body := jsonObject <| [
        jsonStringField "model" config.model,
        needle "messages" ++ serializeChatMessages messages,
        jsonBoolField "stream" config.stream,
        needle "options" ++ jsonObject [jsonIntField "num_ctx" config.numCtx]
      ] ++ if tools = [] then [] else [needle "tools" ++ serializeTools tools]
    headers := []
  }

def isJsonGap (c : UInt8) : Bool :=
  isBlank c || c = lf || c = cr || c = comma

-- The inner loop of `extract_json_object_array_at`: the text up to the brace that brings the depth
-- back to zero, and the rest. Braces inside of strings count like any other.
def walkObject : Nat → Bytes → Bytes × Bytes
  | _, [] => ([], [])
  | depth, c :: text =>
    if c = rbrace ∧ depth = 1 then ([c], text)
    else
      let depth := if c = lbrace then depth + 1 else if c = rbrace then depth - 1 else depth
      let (object, rest) := walkObject depth text
      (c :: object, rest)

theorem walkObject_length (depth : Nat) (text : Bytes) :
    (walkObject depth text).2.length ≤ text.length := by
  induction text generalizing depth
  case nil => simp [walkObject]
  case cons c text hi =>
    rw [walkObject]
    split
    case isTrue  => simp
    case isFalse => exact Nat.le_trans (hi _) (Nat.le_succ _)

-- The objects of an array, from behind its bracket on. Each round of the loop leaves less text
-- than it found, so the length of the text bounds the rounds.
def extractObjects : Nat → Bytes → List Bytes
  | 0, _ => []
  | rounds + 1, text =>
    match text.dropWhile isJsonGap with
    | c :: text =>
      if c = lbrace then
        let (object, rest) := walkObject 0 (c :: text)
        object :: extractObjects rounds rest
      else []
    | [] => []

def extractJsonObjectArray (text : Bytes) : List Bytes :=
  extractObjects text.length text

-- What follows the first bracket at or behind the first occurrence of a key.
def afterArrayKey (json key : Bytes) : Option Bytes :=
  (breakOn (needle key) json).bind fun (_, rest) => after [lbracket] rest

def extractReasoningField (messageObject : Bytes) : Bytes :=
  let value := extractJsonStringField messageObject "reasoning_content"
  if value = [] then extractJsonStringField messageObject "reasoning" else value

def parseToolCall (callObject : Bytes) : ToolCall :=
  let nameSearchFrom :=
    match breakOn (needle "function") callObject with
    | some (before, _) => before.length
    | none             => 0
  {
    id := extractJsonStringField callObject "id"
    name := extractJsonStringFieldFrom callObject "name" nameSearchFrom
    argumentsJson := extractJsonStringFieldFrom callObject "arguments" nameSearchFrom
  }

def parseToolCalls (firstChoice : Bytes) : List ToolCall :=
  match afterArrayKey firstChoice "tool_calls" with
  | some calls => ((extractJsonObjectArray calls).map parseToolCall).filter (·.name ≠ [])
  | none       => []

def failedResponse (transportOk : Bool) (errorMessage : Bytes) : ProviderResponse where
  transportOk := transportOk
  httpSuccess := false
  assistantMessage := []
  thinkingText := []
  toolCalls := []
  errorMessage := errorMessage
  promptTokens := 0
  completionTokens := 0
  doneReason := []

-- The first choice of a response, of which all but the token counts are read.
def firstChoice (responseBody : Bytes) : Option Bytes :=
  (afterArrayKey responseBody "choices").bind fun choices => (extractJsonObjectArray choices).head?

-- `none` when the exception of `std::stoll` escapes, on a token count that does not fit.
def parseOpenaiChatResponse (statusCode : Int) (responseBody : Bytes) (transportOk : Bool) :
    Option ProviderResponse :=
  if transportOk = false then
    some (failedResponse false "Network failure while calling the LLM provider.")
  else if statusCode < 200 ∨ 300 ≤ statusCode then
    some <| failedResponse true <|
      if responseBody = [] then "The LLM provider returned a non-success HTTP status."
      else responseBody
  else do
    let choice := firstChoice responseBody
    let assistantMessage := choice.elim [] (extractJsonStringField · "content")
    let toolCalls := choice.elim [] parseToolCalls
    let promptTokens ← (extractJsonIntField responseBody "prompt_tokens").getD 0
    let completionTokens ← (extractJsonIntField responseBody "completion_tokens").getD 0
    return {
      transportOk := true
      httpSuccess := true
      assistantMessage := assistantMessage
      thinkingText := choice.elim [] extractReasoningField
      toolCalls := toolCalls
      errorMessage :=
        if assistantMessage = [] ∧ toolCalls = [] then
          "The LLM provider's response contained no assistant text or tool calls."
        else []
      promptTokens := promptTokens
      completionTokens := completionTokens
      doneReason := choice.elim [] (extractJsonStringField · "finish_reason")
    }

-- `OpenAICompatProvider::parse_response`.
def PostOutcome.parse (outcome : PostOutcome) : Option ProviderResponse :=
  parseOpenaiChatResponse outcome.statusCode outcome.body outcome.transportOk

end Droidcli.Ai
