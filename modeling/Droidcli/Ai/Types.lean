import Droidcli.Lib.Bytes

namespace Droidcli.Ai

open Bytes

inductive ChatRole
  | system
  | user
  | assistant
  | tool
  deriving DecidableEq

namespace ChatRole

def toText : ChatRole → Bytes
  | system    => "system"
  | user      => "user"
  | assistant => "assistant"
  | tool      => "tool"

def ofText (role : Bytes) : ChatRole :=
  if      role = str "system"    then system
  else if role = str "assistant" then assistant
  else if role = str "tool"      then tool
  else                                user

theorem ofText_toText (role : ChatRole) : ofText role.toText = role := by
  cases role <;> decide

theorem nul_not_mem_toText (role : ChatRole) : nul ∉ role.toText := by
  cases role <;> decide

end ChatRole

structure ChatMessage where
  role : ChatRole
  content : Bytes
  deriving DecidableEq

structure ToolDefinition where
  name : Bytes
  description : Bytes
  parametersJsonSchema : Bytes

structure ToolCall where
  id : Bytes
  name : Bytes
  argumentsJson : Bytes
  deriving DecidableEq

-- The temperature stays at its sentinel, as every caller leaves it.
structure OpenAICompatConfig where
  baseUrl : Bytes
  model : Bytes
  enabled : Bool
  stream : Bool
  numCtx : Int
  deriving DecidableEq

structure ProviderRequest where
  url : Bytes
  body : Bytes
  headers : List Bytes
  deriving DecidableEq

-- The fields that `parse_openai_chat_response` fills in and `OpenAICompatProvider` passes on.
structure ProviderResponse where
  transportOk : Bool
  httpSuccess : Bool
  assistantMessage : Bytes
  thinkingText : Bytes
  toolCalls : List ToolCall
  errorMessage : Bytes
  promptTokens : Int
  completionTokens : Int
  doneReason : Bytes
  deriving DecidableEq

-- What the transport callback hands back: `post_json` may fail outright.
structure PostOutcome where
  transportOk : Bool
  statusCode : Int
  body : Bytes
  deriving DecidableEq

end Droidcli.Ai
