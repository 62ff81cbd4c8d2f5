import Droidcli.Ai.OpenAICompatClient
import Droidcli.Net.Theorems.RoundTrip
import Mathlib.Data.List.Forall2

namespace Droidcli.Ai

open Bytes Net Json

section Values

-- What the parameters of a tool mean: no schema at all is an empty one.
def Schema (tool : ToolDefinition) (schema : Value) : Prop :=
  if tool.parametersJsonSchema = [] then schema = .object []
  else IsText strict tool.parametersJsonSchema schema

def messageValue (message : ChatMessage) : Value :=
  .object [("role", .string message.role.toText), ("content", .string message.content)]

def toolValue (tool : ToolDefinition) (schema : Value) : Value :=
  .object [
    ("type", .string "function"),
    ("function", .object [
      ("name", .string tool.name),
      ("description", .string tool.description),
      ("parameters", schema)
    ])
  ]

def toolsMember (tools : List ToolDefinition) (schemas : List Value) : List (Bytes × Value) :=
  if tools = [] then [] else [("tools", .array (List.zipWith toolValue tools schemas))]

-- The request as the provider should see it.
def requestValue (config : OpenAICompatConfig) (messages : List ChatMessage)
    (tools : List ToolDefinition) (schemas : List Value) : Value :=
  .object (
    ("model", .string config.model) ::
    ("messages", .array (messages.map messageValue)) ::
    ("stream", .bool config.stream) ::
    ("options", .object [("num_ctx", .number (decimalInt config.numCtx))]) ::
    toolsMember tools schemas
  )

-- The strings of a request that are not the host's own.
def requestStrings (config : OpenAICompatConfig) (messages : List ChatMessage)
    (tools : List ToolDefinition) : List Bytes :=
  config.model :: messages.map (·.content) ++ tools.flatMap fun tool => [tool.name, tool.description]

end Values

section Body

variable {config : OpenAICompatConfig} {messages : List ChatMessage} {tools : List ToolDefinition}
  {schemas : List Value} {request : ProviderRequest}

theorem config_of_ok (h : buildOpenaiChatRequest config messages tools = .ok request) :
    config.model ≠ [] ∧ config.baseUrl ≠ [] ∧
      request.url = trimTrailingSlash config.baseUrl ++ str "/v1/chat/completions" := by
  rw [buildOpenaiChatRequest] at h
  split_ifs at h with _ hm _ hu
  all_goals cases h
  all_goals
    have hb : config.baseUrl ≠ [] := fun hb => hu (if_pos hb)
    exact ⟨hm, hb, if_neg hb⟩

theorem body_of_ok (h : buildOpenaiChatRequest config messages tools = .ok request) :
    request.body = jsonObject ([
        jsonStringField "model" config.model,
        needle "messages" ++ serializeChatMessages messages,
        jsonBoolField "stream" config.stream,
        needle "options" ++ jsonObject [jsonIntField "num_ctx" config.numCtx]
      ] ++ if tools = [] then [] else [needle "tools" ++ serializeTools tools]) := by
  rw [buildOpenaiChatRequest] at h
  split_ifs at h
  all_goals cases h
  all_goals simp [*]

-- The model is the first member of the request.
theorem model_of_ok (h : buildOpenaiChatRequest config messages tools = .ok request) :
    extractJsonStringField request.body "model" = config.model := by
  rw [body_of_ok h]
  exact extractJsonStringField_first

theorem allowed_toText (role : ChatRole) : ∀ c ∈ role.toText, Allowed c := by
  cases role <;> decide

theorem isText_message {message : ChatMessage} (h : ∀ c ∈ message.content, Allowed c) :
    IsText strict (jsonObject [
      jsonStringField "role" message.role.toText,
      jsonStringField "content" message.content
    ]) (messageValue message) := by
  have hr : Word (str "role") := by decide
  have hc : Word (str "content") := by decide
  exact isText_jsonObject <| .cons (member_stringField hr.body (allowed_toText message.role)) <|
    .cons (member_stringField hc.body h) .nil

theorem isText_tool {tool : ToolDefinition} {schema : Value} (hs : Schema tool schema)
    (hn : ∀ c ∈ tool.name, Allowed c) (hd : ∀ c ∈ tool.description, Allowed c) :
    IsText strict (serializeTool tool) (toolValue tool schema) := by
  have hp : IsText strict (if tool.parametersJsonSchema = [] then jsonObject []
      else tool.parametersJsonSchema) schema := by
    rw [Schema] at hs
    split_ifs at hs ⊢
    case pos => exact hs ▸ isText_jsonObject .nil
    case neg => exact hs
  have htype : Word (str "type") := by decide
  have hfunction : Word (str "function") := by decide
  have hname : Word (str "name") := by decide
  have hdescription : Word (str "description") := by decide
  have hparameters : Word (str "parameters") := by decide
  have hf : ∀ c ∈ str "function", Allowed c := by decide
  have hi := isText_jsonObject <| .cons (member_stringField hname.body hn) <|
    .cons (member_stringField hdescription.body hd) <| .cons (.mk hparameters.body hp) .nil
  exact isText_jsonObject <| .cons (member_stringField htype.body hf) <|
    .cons (.mk hfunction.body hi) .nil

theorem isText_tools (hs : List.Forall₂ Schema tools schemas)
    (h : ∀ tool ∈ tools, ∀ s ∈ [tool.name, tool.description], ∀ c ∈ s, Allowed c) :
    IsText strict (serializeTools tools) (.array (List.zipWith toolValue tools schemas)) := by
  apply isText_jsonArray
  induction hs
  case nil => exact .nil
  case cons tool schema tools schemas hv _ hi =>
    have ht := h tool (by simp)
    have hi := hi fun tool hm => h tool (List.mem_cons_of_mem _ hm)
    exact .cons (isText_tool hv (ht _ (by simp)) (ht _ (by simp))) hi

theorem isText_messages (h : ∀ message ∈ messages, ∀ c ∈ message.content, Allowed c) :
    IsText strict (serializeChatMessages messages) (.array (messages.map messageValue)) := by
  apply isText_jsonArray
  rw [List.forall₂_map_left_iff, List.forall₂_map_right_iff, List.forall₂_same]
  exact fun message hm => isText_message (h message hm)

theorem isText_body (hs : List.Forall₂ Schema tools schemas)
    (h : ∀ s ∈ requestStrings config messages tools, ∀ c ∈ s, Allowed c)
    (hr : buildOpenaiChatRequest config messages tools = .ok request) :
    IsText strict request.body (requestValue config messages tools schemas) := by
  simp only [requestStrings, List.cons_append, List.forall_mem_cons, List.forall_mem_append] at h
  obtain ⟨hm, hc, ht⟩ := h
  have hmodel : Word (str "model") := by decide
  have hmessages : Word (str "messages") := by decide
  have hstream : Word (str "stream") := by decide
  have hoptions : Word (str "options") := by decide
  have hnum : Word (str "num_ctx") := by decide
  have htools : Word (str "tools") := by decide
  have hms := isText_messages fun message hm => hc _ (List.mem_map_of_mem hm)
  have hts := isText_tools hs fun tool hm s hs => ht s (List.mem_flatMap.mpr ⟨tool, hm, hs⟩)
  have hoption := isText_jsonObject <| .cons (member_intField hnum.body config.numCtx) .nil
  rw [body_of_ok hr]
  apply isText_jsonObject
  apply List.Forall₂.cons (member_stringField hmodel.body hm)
  apply List.Forall₂.cons (.mk hmessages.body hms)
  apply List.Forall₂.cons (member_boolField hstream.body config.stream)
  apply List.Forall₂.cons (.mk hoptions.body hoption)
  rw [toolsMember]
  split_ifs
  case pos => exact .nil
  case neg => exact .cons (.mk htools.body hts) .nil

theorem allowed_of_body (hr : buildOpenaiChatRequest config messages tools = .ok request)
    (h : ∀ c ∈ request.body, Allowed c) :
    ∀ s ∈ requestStrings config messages tools, ∀ c ∈ s, Allowed c := by
  rw [body_of_ok hr] at h
  simp only [requestStrings, List.cons_append, List.forall_mem_cons, List.forall_mem_append]
  have hmembers (text : Bytes) (ht : text ∈ _) : ∀ c ∈ text, Allowed c :=
    fun c hc => h c (mem_jsonObject ht hc)
  refine ⟨?model, ?messages, ?tools⟩
  case model => exact allowed_of_stringField "model" (hmembers _ (by simp))
  case messages =>
    have hms := hmembers (needle "messages" ++ serializeChatMessages messages) (by simp)
    intro s hs
    obtain ⟨message, hm, he⟩ := List.mem_map.mp hs
    rw [← he]
    apply allowed_of_stringField "content"
    exact fun c hc => hms c <| List.mem_append_right _ <|
      mem_jsonArray (List.mem_map_of_mem hm) (mem_jsonObject (by simp) hc)
  case tools =>
    intro s hs
    obtain ⟨tool, hm, hs⟩ := List.mem_flatMap.mp hs
    have hne : tools ≠ [] := List.ne_nil_of_mem hm
    have hts := hmembers (needle "tools" ++ serializeTools tools) (by simp [hne])
    have ht : ∀ c ∈ serializeTool tool, Allowed c := fun c hc =>
      hts c <| List.mem_append_right _ <| mem_jsonArray (List.mem_map_of_mem hm) hc
    have hf {text : Bytes} (hm : text ∈ _) : ∀ c ∈ text, Allowed c := fun c hc =>
      ht c <| mem_jsonObject (List.mem_cons_of_mem _ (List.mem_singleton_self _)) <|
        List.mem_append_right _ (mem_jsonObject hm hc)
    simp only [List.mem_cons, List.not_mem_nil, or_false] at hs
    rcases hs with rfl | rfl
    case inl => exact allowed_of_stringField "name" (hf (by simp))
    case inr => exact allowed_of_stringField "description" (hf (by simp))

-- A request is what it should be exactly when its strings have no control characters but those
-- with an escape.
theorem request_decodes_iff (hs : List.Forall₂ Schema tools schemas)
    (hr : buildOpenaiChatRequest config messages tools = .ok request) :
    (∀ v, IsText strict request.body v ↔ v = requestValue config messages tools schemas) ↔
      ∀ s ∈ requestStrings config messages tools, ∀ c ∈ s, Allowed c :=
  ⟨fun h => allowed_of_body hr (h _ |>.mpr rfl).allowed, fun h => (isText_body hs h hr).iff_eq⟩

end Body

-- A message whose content sets a colour, as the output of a command may do.
def escapeSequence : ChatMessage :=
  ⟨.tool, 0x1b :: str "[31m"⟩

def localProvider : OpenAICompatConfig :=
  ⟨"http://127.0.0.1:11434", "llama3.2", true, false, 32768⟩

theorem request_not_isText : ∃ request,
    buildOpenaiChatRequest localProvider [escapeSequence] [] = .ok request ∧
      ∀ v, ¬IsText strict request.body v := by
  refine ⟨_, rfl, fun v h => ?_⟩
  exact absurd (h.allowed 0x1b (by decide +kernel)) (by decide)

def greeting : ChatMessage :=
  ⟨.user, "hi\n"⟩

theorem request_decodes_greeting : ∃ request,
    buildOpenaiChatRequest localProvider [greeting] [] = .ok request ∧
      ∀ v, IsText strict request.body v ↔ v = requestValue localProvider [greeting] [] [] :=
  ⟨_, rfl, (request_decodes_iff .nil rfl).mpr (by decide)⟩

end Droidcli.Ai
