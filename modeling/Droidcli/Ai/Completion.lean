import Droidcli.Ai.OpenAICompatClient
import Droidcli.Net.Theorems.RoundTrip
import Mathlib.Data.List.Forall2

-- The chat completions that a provider answers with, as JSON texts: what is said, and how it is
-- spelled. Strings may use any escapes, and the members of an object stand in any order.
namespace Droidcli.Ai

open Bytes Net Json

structure Spelling where
  raw : Bytes
  text : Bytes
  body : Body strict raw text

def Spelling.json (s : Spelling) : Bytes :=
  quote :: s.raw ++ [quote]

-- A member of an object.
structure Entry where
  text : Bytes
  member : Bytes × Value
  isMember : Member strict text member

-- The same members in some order.
abbrev Arranged (entries : List Entry) :=
  { members : List Entry // members.Perm entries }

def objectText (members : List Entry) : Bytes :=
  jsonObject (members.map Entry.text)

def objectValue (members : List Entry) : Value :=
  .object (members.map Entry.member)

theorem isText_object (members : List Entry) :
    IsText strict (objectText members) (objectValue members) := by
  apply isText_jsonObject
  rw [List.forall₂_map_left_iff, List.forall₂_map_right_iff, List.forall₂_same]
  exact fun e _ => e.isMember

theorem isText_objects (objects : List (List Entry)) :
    IsText strict (jsonArray (objects.map objectText)) (.array (objects.map objectValue)) := by
  apply isText_jsonArray
  rw [List.forall₂_map_left_iff, List.forall₂_map_right_iff, List.forall₂_same]
  exact fun members _ => isText_object members

namespace Entry

variable (key : Bytes)

def string (s : Spelling) (hk : Word key := by decide) : Entry :=
  ⟨needle key ++ s.json, (key, .string s.text), .mk hk.body (IsValue.string s.body).text⟩

def int (n : Int) (hk : Word key := by decide) : Entry :=
  ⟨jsonIntField key n, (key, .number (decimalInt n)), member_intField hk.body n⟩

def object (members : List Entry) (hk : Word key := by decide) : Entry :=
  ⟨needle key ++ objectText members, (key, objectValue members),
    .mk hk.body (isText_object members)⟩

def array (objects : List (List Entry)) (hk : Word key := by decide) : Entry :=
  ⟨needle key ++ jsonArray (objects.map objectText), (key, .array (objects.map objectValue)),
    .mk hk.body (isText_objects objects)⟩

end Entry

-- The keys by which a completion is read, and those by which its tool calls are.
def completionKeys : List Bytes := [
  "choices", "content", "finish_reason", "reasoning_content", "reasoning", "tool_calls",
  "prompt_tokens", "completion_tokens", "name"
]

def callKeys : List Bytes :=
  completionKeys ++ [str "id", str "function", str "arguments"]

-- Any further member. It has none of the given keys, nor has an object within it.
structure Extra (keys : List Bytes) extends Entry where
  passes : ∀ key ∈ keys, Passes key [] text

structure ToolCallObject where
  id : Spelling
  name : Spelling
  arguments : Spelling
  extras : List (Extra callKeys)
  functionMembers : Arranged [.string "name" name, .string "arguments" arguments]
  members : Arranged <|
    .string "id" id :: .object "function" functionMembers.val :: extras.map Extra.toEntry

def ToolCallObject.call (object : ToolCallObject) : ToolCall :=
  ⟨object.id.text, object.name.text, object.arguments.text⟩

def ToolCallObject.text (object : ToolCallObject) : Bytes :=
  objectText object.members.val

-- The text of a call but for its last brace.
def ToolCallObject.opened (object : ToolCallObject) : Bytes :=
  lbrace :: joinWith [comma] (object.members.val.map Entry.text)

theorem ToolCallObject.text_eq (object : ToolCallObject) :
    object.text = object.opened ++ [rbrace] :=
  rfl

def toolCallsEntry (calls : List ToolCallObject) : Entry :=
  .array "tool_calls" (calls.map (·.members.val))

-- Token counts are `int64_t`s.
structure Usage where
  promptTokens : Int
  completionTokens : Int
  inRange : (Field.int promptTokens).InRange ∧ (Field.int completionTokens).InRange
  extras : List (Extra completionKeys)
  members : Arranged <|
    .int "prompt_tokens" promptTokens :: .int "completion_tokens" completionTokens ::
      extras.map Extra.toEntry

def Usage.entry (usage : Usage) : Entry :=
  .object "usage" usage.members.val

-- Reasoning comes under one of two keys.
inductive ReasoningKey
  | reasoningContent
  | reasoning

def ReasoningKey.key : ReasoningKey → Bytes
  | reasoningContent => "reasoning_content"
  | reasoning        => "reasoning"

theorem ReasoningKey.word (key : ReasoningKey) : Word key.key := by
  cases key <;> decide

def ReasoningKey.entry (key : ReasoningKey) (s : Spelling) : Entry :=
  .string key.key s key.word

structure Completion where
  content : Spelling
  reasoning : Option (ReasoningKey × Spelling)
  toolCalls : Option (List ToolCallObject)
  finishReason : Spelling
  usage : Option Usage
  messageExtras : List (Extra completionKeys)
  messageMembers : Arranged <|
    .string "content" content :: (reasoning.toList.map (fun (key, s) => key.entry s) ++
      (toolCalls.toList.map toolCallsEntry ++ messageExtras.map Extra.toEntry))
  choiceExtras : List (Extra completionKeys)
  choiceMembers : Arranged <|
    .object "message" messageMembers.val :: .string "finish_reason" finishReason ::
      choiceExtras.map Extra.toEntry
  extras : List (Extra completionKeys)
  members : Arranged <|
    .array "choices" [choiceMembers.val] ::
      (usage.toList.map Usage.entry ++ extras.map Extra.toEntry)

namespace Completion

variable (c : Completion)

def body : Bytes :=
  objectText c.members.val

def choice : Bytes :=
  objectText c.choiceMembers.val

def reasoningText : Bytes :=
  c.reasoning.elim [] (·.2.text)

def callObjects : List ToolCallObject :=
  c.toolCalls.getD []

theorem isText_body : IsText strict c.body (objectValue c.members.val) :=
  isText_object c.members.val

def plainSpelling (s : Bytes) (h : ∀ c ∈ s, strict c ∨ c ∈ [lf, cr, tab] := by decide) :
    Spelling :=
  ⟨escapeJsonString s, s, body_escapeJsonString h⟩

-- {"choices":[{"message":{"content":...},"finish_reason":"stop"}]}
def plainAnswer (content : Spelling) : Completion where
  content := content
  reasoning := none
  toolCalls := none
  finishReason := plainSpelling "stop"
  usage := none
  messageExtras := []
  messageMembers := ⟨_, .refl _⟩
  choiceExtras := []
  choiceMembers := ⟨_, .refl _⟩
  extras := []
  members := ⟨_, .refl _⟩

end Completion
end Droidcli.Ai
