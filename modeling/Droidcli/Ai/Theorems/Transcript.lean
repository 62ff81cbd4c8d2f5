import Droidcli.Ai.LanguageRuntime
import Mathlib.Data.List.Chain

namespace Droidcli.Ai

open Bytes

-- The calls that change a runtime.
inductive RuntimeCall
  | setOllamaConfig (config : OpenAICompatConfig)
  | setRuntimeEnabled (enabled : Bool)
  | setSystemPrompt (prompt : Bytes)
  | submitUserMessage (message : Bytes)
  | applyChatResponse (response : ProviderResponse)
  | completeTurn (transport : LanguageTransportCallbacks)
  | clearTranscript

def LanguageRuntime.call (runtime : LanguageRuntime) : RuntimeCall → LanguageRuntime
  | .setOllamaConfig config     => runtime.setOllamaConfig config
  | .setRuntimeEnabled enabled  => runtime.setRuntimeEnabled enabled
  | .setSystemPrompt prompt     => runtime.setSystemPrompt prompt
  | .submitUserMessage message  => (runtime.submitUserMessage message).2
  | .applyChatResponse response => (runtime.applyChatResponse response).2
  | .completeTurn transport     => (runtime.completeTurn transport).runtime
  | .clearTranscript            => runtime.clearTranscript

-- What a transcript records: questions that are answered one after the other, under a prompt, and
-- at most one question that still waits.
structure Conversation where
  prompt : Option Bytes
  exchanges : List (Bytes × Bytes)
  pending : Option Bytes

namespace Conversation

variable {conversation : Conversation}

def exchange : Bytes × Bytes → List ChatMessage
  | (question, answer) => [⟨.user, question⟩, ⟨.assistant, answer⟩]

def system (conversation : Conversation) : List ChatMessage :=
  conversation.prompt.toList.map (⟨.system, ·⟩)

def turns (conversation : Conversation) : List ChatMessage :=
  conversation.exchanges.flatMap exchange ++ conversation.pending.toList.map (⟨.user, ·⟩)

def messages (conversation : Conversation) : List ChatMessage :=
  conversation.system ++ conversation.turns

theorem mem_turns {message : ChatMessage} (h : message ∈ conversation.turns) :
    message.role = .user ∨ message.role = .assistant := by
  cases List.mem_append.mp h
  case inl h =>
    have ⟨_, _, hm⟩ := List.mem_flatMap.mp h
    cases List.mem_pair.mp hm
    case inl hm => exact .inl (hm ▸ rfl)
    case inr hm => exact .inr (hm ▸ rfl)
  case inr h =>
    have ⟨_, _, hm⟩ := List.mem_map.mp h
    exact .inl (hm ▸ rfl)

theorem mem_system {message : ChatMessage} (h : message ∈ conversation.system) :
    message.role = .system := by
  have ⟨_, _, hm⟩ := List.mem_map.mp h
  exact hm ▸ rfl

-- Without a prompt, no message of the system stands in front.
theorem messages_ne_system {exchanges : List (Bytes × Bytes)} {pending : Option Bytes}
    {content : Bytes} {rest : List ChatMessage} :
    (⟨none, exchanges, pending⟩ : Conversation).messages ≠ ⟨.system, content⟩ :: rest := by
  intro h
  have hm := @mem_turns ⟨none, exchanges, pending⟩ ⟨.system, content⟩
  simp_all [messages, system]

-- A question stands in front, and no two messages of one role follow each other.
theorem turns_alternate : (∀ message ∈ conversation.turns.head?, message.role = .user) ∧
    conversation.turns.IsChain (·.role ≠ ·.role) := by
  have ⟨_, exchanges, pending⟩ := conversation
  simp only [turns]
  induction exchanges
  case nil => cases pending <;> simp
  case cons e es hi =>
    have ⟨hu, hc⟩ := hi
    have ha : ∀ message ∈ (es.flatMap exchange ++ pending.toList.map (ChatMessage.mk .user)).head?,
        ChatRole.assistant ≠ message.role := by
      intro message hm
      rw [hu message hm]
      decide
    constructor
    case left  => simp [exchange]
    case right => exact List.isChain_cons.mpr ⟨by simp, List.isChain_cons.mpr ⟨ha, hc⟩⟩

theorem last_messages :
    (∃ message, conversation.messages.getLast? = some message ∧ message.role = .user) ↔
      conversation.pending.isSome := by
  have ⟨prompt, exchanges, pending⟩ := conversation
  cases pending
  case some => simp [messages, turns]
  case none =>
    cases List.eq_nil_or_concat exchanges
    case inl he => cases prompt <;> simp [he, messages, turns, system]
    case inr he =>
      have ⟨_, _, he⟩ := he
      simp [he, messages, turns, exchange]

end Conversation

-- The content of the last message of a role, empty when there is none.
def lastOf (role : ChatRole) (transcript : List ChatMessage) : Bytes :=
  ((transcript.filter (·.role = role)).getLast?.map (·.content)).getD []

section LastOf

variable {role : ChatRole} {transcript : List ChatMessage} {prompt : Bytes}

@[simp]
theorem lastOf_nil : lastOf role [] = [] :=
  rfl

theorem lastOf_concat {message : ChatMessage} :
    lastOf role (transcript ++ [message]) =
      if message.role = role then message.content else lastOf role transcript := by
  by_cases h : message.role = role <;> simp [lastOf, h]

theorem lastOf_system (h : role ≠ .system) :
    lastOf role (⟨.system, prompt⟩ :: transcript) = lastOf role transcript := by
  simp [lastOf, h.symm]

end LastOf

namespace LanguageRuntime

variable {runtime : LanguageRuntime} {conversation : Conversation}

-- The runtime keeps the conversation, and a copy of the last message of each side.
structure Keeps (runtime : LanguageRuntime) (conversation : Conversation) : Prop where
  transcript    : runtime.transcript = conversation.messages
  awaits        : runtime.awaitingResponse = conversation.pending.isSome
  lastUser      : runtime.lastUserMessage = lastOf .user runtime.transcript
  lastAssistant : runtime.lastAssistantMessage = lastOf .assistant runtime.transcript

theorem initial_keeps : initial.Keeps ⟨none, [], none⟩ :=
  ⟨rfl, rfl, rfl, rfl⟩

theorem Keeps.withStatus (h : runtime.Keeps conversation) (statusText : Bytes) :
    { runtime with statusText := statusText }.Keeps conversation :=
  ⟨h.transcript, h.awaits, h.lastUser, h.lastAssistant⟩

section Prompt

variable {prompt : Bytes}

theorem upsertSystemMessage_messages :
    upsertSystemMessage prompt conversation.messages =
      { conversation with prompt := some prompt }.messages := by
  have ⟨old, exchanges, pending⟩ := conversation
  cases old
  case some => rfl
  case none =>
    rw [upsertSystemMessage]
    case x_1 => exact fun _ _ => Conversation.messages_ne_system
    rfl

theorem eraseSystemMessage_messages :
    eraseSystemMessage conversation.messages = { conversation with prompt := none }.messages := by
  have ⟨old, exchanges, pending⟩ := conversation
  cases old
  case some => rfl
  case none =>
    rw [eraseSystemMessage]
    exact fun _ _ => Conversation.messages_ne_system

theorem lastOf_upsert {role : ChatRole} {transcript : List ChatMessage} (h : role ≠ .system) :
    lastOf role (upsertSystemMessage prompt transcript) = lastOf role transcript := by
  fun_cases upsertSystemMessage
  case case1 => rw [lastOf_system h, lastOf_system h]
  case case2 => exact lastOf_system h

theorem lastOf_erase {role : ChatRole} {transcript : List ChatMessage} (h : role ≠ .system) :
    lastOf role (eraseSystemMessage transcript) = lastOf role transcript := by
  fun_cases eraseSystemMessage
  case case1 => exact (lastOf_system h).symm
  case case2 => rfl

theorem Keeps.setSystemPrompt (h : runtime.Keeps conversation) :
    ∃ conversation', (runtime.setSystemPrompt prompt).Keeps conversation' := by
  by_cases hp : prompt = []
  case pos =>
    refine ⟨{ conversation with prompt := none }, ?_, h.awaits, ?_, ?_⟩
    case refine_1 => simp [LanguageRuntime.setSystemPrompt, hp, h.transcript,
      eraseSystemMessage_messages]
    case refine_2 => simp [LanguageRuntime.setSystemPrompt, hp, lastOf_erase, h.lastUser]
    case refine_3 => simp [LanguageRuntime.setSystemPrompt, hp, lastOf_erase, h.lastAssistant]
  case neg =>
    refine ⟨{ conversation with prompt := some prompt }, ?_, h.awaits, ?_, ?_⟩
    case refine_1 => simp [LanguageRuntime.setSystemPrompt, hp, h.transcript,
      upsertSystemMessage_messages]
    case refine_2 => simp [LanguageRuntime.setSystemPrompt, hp, lastOf_upsert, h.lastUser]
    case refine_3 => simp [LanguageRuntime.setSystemPrompt, hp, lastOf_upsert, h.lastAssistant]

end Prompt

theorem Keeps.submitUserMessage {message : Bytes} (h : runtime.Keeps conversation) :
    ∃ conversation', (runtime.submitUserMessage message).2.Keeps conversation' := by
  fun_cases LanguageRuntime.submitUserMessage
  case case5 _ _ _ hw =>
    have hp : conversation.pending = none := by simpa [h.awaits] using hw
    refine ⟨{ conversation with pending := some message }, ?_, rfl, ?_, ?_⟩
    case refine_1 => simp [h.transcript, Conversation.messages, Conversation.turns,
      Conversation.system, hp]
    case refine_2 => simp [lastOf_concat]
    case refine_3 => simp [lastOf_concat, h.lastAssistant]
  all_goals exact ⟨conversation, h.withStatus _⟩

theorem Keeps.applyChatResponse {response : ProviderResponse} (h : runtime.Keeps conversation) :
    ∃ conversation', (runtime.applyChatResponse response).2.Keeps conversation' := by
  fun_cases LanguageRuntime.applyChatResponse
  case case4 hw _ _ =>
    have ⟨question, hp⟩ : ∃ question, conversation.pending = some question := by
      apply Option.ne_none_iff_exists'.mp
      simpa [h.awaits] using hw
    refine ⟨{ conversation with
      exchanges := conversation.exchanges ++ [(question, response.assistantMessage)]
      pending := none }, ?_, rfl, ?_, ?_⟩
    case refine_1 => simp [h.transcript, Conversation.messages, Conversation.turns,
      Conversation.system, Conversation.exchange, hp]
    case refine_2 => simp [lastOf_concat, h.lastUser]
    case refine_3 => simp [lastOf_concat]
  all_goals exact ⟨conversation, h.withStatus _⟩

theorem Keeps.completeTurn {transport : LanguageTransportCallbacks}
    (h : runtime.Keeps conversation) :
    ∃ conversation', (runtime.completeTurn transport).runtime.Keeps conversation' := by
  fun_cases LanguageRuntime.completeTurn
  case case3 => exact ⟨conversation, h⟩
  case case4 response _ _ _ hr =>
    have hk := @h.applyChatResponse _ _ response
    rw [hr] at hk
    exact hk
  all_goals exact ⟨conversation, h.withStatus _⟩

-- Each call keeps a conversation, whether it is carried out or refused.
theorem Keeps.call (h : runtime.Keeps conversation) (call : RuntimeCall) :
    ∃ conversation', (runtime.call call).Keeps conversation' := by
  cases call
  case setOllamaConfig   => exact ⟨conversation, h.1, h.2, h.3, h.4⟩
  case setRuntimeEnabled => exact ⟨conversation, h.1, h.2, h.3, h.4⟩
  case setSystemPrompt   => exact h.setSystemPrompt
  case submitUserMessage => exact h.submitUserMessage
  case applyChatResponse => exact h.applyChatResponse
  case completeTurn      => exact h.completeTurn
  case clearTranscript   => exact ⟨⟨none, [], none⟩, rfl, rfl, rfl, rfl⟩

theorem Keeps.calls (h : runtime.Keeps conversation) (calls : List RuntimeCall) :
    ∃ conversation', (calls.foldl LanguageRuntime.call runtime).Keeps conversation' := by
  induction calls generalizing runtime conversation
  case nil => exact ⟨conversation, h⟩
  case cons call calls hi =>
    have ⟨_, h⟩ := h.call call
    exact hi h

structure WellShaped (runtime : LanguageRuntime) : Prop where
  transcript : ∃ system turns : List ChatMessage, runtime.transcript = system ++ turns ∧
    system.length ≤ 1 ∧ (∀ message ∈ system, message.role = .system) ∧
    (∀ message ∈ turns, message.role = .user ∨ message.role = .assistant) ∧
    (∀ message ∈ turns.head?, message.role = .user) ∧ turns.IsChain (·.role ≠ ·.role)
  awaits : runtime.awaitingResponse = true ↔
    ∃ message, runtime.transcript.getLast? = some message ∧ message.role = .user
  lastUser : runtime.lastUserMessage = lastOf .user runtime.transcript
  lastAssistant : runtime.lastAssistantMessage = lastOf .assistant runtime.transcript

theorem Keeps.wellShaped (h : runtime.Keeps conversation) : runtime.WellShaped where
  transcript :=
    have hl : conversation.system.length ≤ 1 := by
      cases hp : conversation.prompt <;> simp [Conversation.system, hp]
    have ⟨hu, hc⟩ := @Conversation.turns_alternate conversation
    ⟨conversation.system, conversation.turns, h.transcript, hl,
      fun _ => Conversation.mem_system, fun _ => Conversation.mem_turns, hu, hc⟩
  awaits := by rw [h.transcript, Conversation.last_messages, h.awaits]
  lastUser := h.lastUser
  lastAssistant := h.lastAssistant

theorem wellShaped_of_calls (calls : List RuntimeCall) :
    (calls.foldl call initial).WellShaped :=
  have ⟨_, h⟩ := initial_keeps.calls calls
  h.wellShaped

end LanguageRuntime
end Droidcli.Ai
