import Droidcli.Net.Handlers
import Mathlib.Tactic.SplitIfs

namespace Droidcli.Net

open Bytes Ai

-- A request to `/ai/chat`, with the transport that carries its call to the provider.
structure ChatCall where
  request : HttpRequest
  transport : LanguageTransportCallbacks

namespace ChatCall

def prompt (call : ChatCall) : Bytes :=
  extractPromptField call.request.body

def handle (call : ChatCall) (runtime : LanguageRuntime) : AiChatHandleResult :=
  handleAiChat call.request ⟨some runtime, some call.transport⟩

def after (runtime : LanguageRuntime) (call : ChatCall) : LanguageRuntime :=
  (call.handle runtime).languageAi.getD runtime

-- The transcript that is sent to the provider.
def pendingTranscript (call : ChatCall) (runtime : LanguageRuntime) : List ChatMessage :=
  (prepareRuntime call.request.body runtime).transcript ++ [⟨.user, call.prompt⟩]

end ChatCall

-- The provider answers with a text.
def Answered (outcome : PostOutcome) : Prop :=
  ∃ response, outcome.parse = some response ∧ response.transportOk ∧ response.httpSuccess ∧
    response.assistantMessage ≠ []

-- If the prompt of a call is submitted, it can be sent and is answered.
def Settles (runtime : LanguageRuntime) (call : ChatCall) : Prop :=
  call.prompt ≠ [] → runtime.runtimeEnabled → runtime.ollamaConfig.enabled →
    ∃ request postJson,
      buildOpenaiChatRequest runtime.ollamaConfig (call.pendingTranscript runtime) [] = .ok request ∧
        call.transport.postJson = some postJson ∧ Answered (postJson request)

-- A runtime with which a prompt can be sent at all.
structure Usable (runtime : LanguageRuntime) : Prop where
  runtimeEnabled : runtime.runtimeEnabled
  configEnabled  : runtime.ollamaConfig.enabled
  model          : runtime.ollamaConfig.model ≠ []
  baseUrl        : runtime.ollamaConfig.baseUrl ≠ []

-- The runtime waits for nothing, and the next prompt is sent to the provider.
structure Available (runtime : LanguageRuntime) : Prop where
  idle  : runtime.awaitingResponse = false
  sends : Usable runtime → ∀ call : ChatCall,
    call.prompt ≠ [] → call.transport.postJson.isSome → (call.handle runtime).sent.isSome

section Turn

variable {runtime : LanguageRuntime} {call : ChatCall} {body prompt : Bytes}

theorem prepareRuntime_idle (h : runtime.awaitingResponse = false) :
    (prepareRuntime body runtime).awaitingResponse = false := by
  unfold prepareRuntime
  dsimp only
  split_ifs <;> simp [LanguageRuntime.setSystemPrompt, LanguageRuntime.clearTranscript, h]

theorem prepareRuntime_config :
    (prepareRuntime body runtime).ollamaConfig = runtime.ollamaConfig ∧
      (prepareRuntime body runtime).runtimeEnabled = runtime.runtimeEnabled := by
  unfold prepareRuntime
  dsimp only
  split_ifs <;> exact ⟨rfl, rfl⟩

-- The runtime once a prompt is queued.
def queued (runtime : LanguageRuntime) (prompt : Bytes) : LanguageRuntime :=
  { runtime with
    transcript := runtime.transcript ++ [⟨.user, prompt⟩]
    lastUserMessage := prompt
    awaitingResponse := true
    statusText := "User message queued for Ollama." }

theorem submitUserMessage_idle (h : runtime.awaitingResponse = false) (hp : prompt ≠ []) :
    runtime.submitUserMessage prompt = (true, queued runtime prompt) ∧
        runtime.runtimeEnabled ∧ runtime.ollamaConfig.enabled ∨
      (runtime.submitUserMessage prompt).1 = false ∧
        (runtime.submitUserMessage prompt).2.awaitingResponse = false ∧
        ¬(runtime.runtimeEnabled ∧ runtime.ollamaConfig.enabled) := by
  unfold LanguageRuntime.submitUserMessage queued
  split_ifs <;> simp_all

theorem buildPendingChatRequest_queued (he : runtime.runtimeEnabled) :
    (queued runtime prompt).buildPendingChatRequest =
      buildOpenaiChatRequest runtime.ollamaConfig (runtime.transcript ++ [⟨.user, prompt⟩]) [] := by
  simp [LanguageRuntime.buildPendingChatRequest, queued, he]

-- Only an answer with a text ends the wait for it.
theorem applyChatResponse_queued {response : ProviderResponse} :
    ((queued runtime prompt).applyChatResponse response).2.awaitingResponse = false ↔
      response.transportOk ∧ response.httpSuccess ∧ response.assistantMessage ≠ [] := by
  unfold LanguageRuntime.applyChatResponse
  cases response.transportOk <;> cases response.httpSuccess <;> by_cases ha :
    response.assistantMessage = [] <;> simp [queued, ha]

theorem completeTurn_queued {transport : LanguageTransportCallbacks} (he : runtime.runtimeEnabled) :
    ((queued runtime prompt).completeTurn transport).runtime.awaitingResponse = false ↔
      ∃ request postJson,
        buildOpenaiChatRequest runtime.ollamaConfig (runtime.transcript ++ [⟨.user, prompt⟩]) [] =
            .ok request ∧
          transport.postJson = some postJson ∧ Answered (postJson request) := by
  unfold LanguageRuntime.completeTurn
  rw [buildPendingChatRequest_queued he]
  cases buildOpenaiChatRequest runtime.ollamaConfig (runtime.transcript ++ [⟨.user, prompt⟩]) []
  case error => simp [queued]
  case ok request =>
    cases transport.postJson
    case none => simp [queued]
    case some postJson =>
      cases hr : (postJson request).parse
      case none          => simp [queued, Answered, hr]
      case some response => simp [applyChatResponse_queued, Answered, hr]

theorem handle_of_no_prompt (hp : call.prompt = []) :
    (call.handle runtime).languageAi = some runtime := by
  simp only [ChatCall.prompt] at hp
  simp [ChatCall.handle, handleAiChat, hp]

theorem handle_of_rejected (hp : call.prompt ≠ [])
    (hs : ((prepareRuntime call.request.body runtime).submitUserMessage call.prompt).1 = false) :
    (call.handle runtime).languageAi =
      some ((prepareRuntime call.request.body runtime).submitUserMessage call.prompt).2 := by
  simp only [ChatCall.prompt] at hp hs
  simp [ChatCall.handle, ChatCall.prompt, handleAiChat, hp, hs]

theorem handle_of_submitted {rt : LanguageRuntime} (hp : call.prompt ≠ [])
    (hs : (prepareRuntime call.request.body runtime).submitUserMessage call.prompt = (true, rt)) :
    (call.handle runtime).languageAi = some (rt.completeTurn call.transport).runtime ∧
      (call.handle runtime).sent = (rt.completeTurn call.transport).sent := by
  simp only [ChatCall.prompt] at hp hs
  simp only [ChatCall.handle, handleAiChat, hp, hs]
  cases (rt.completeTurn call.transport).completed
  case none => simp
  case some completed => cases completed <;> simp

-- A prompt is queued by a runtime that is enabled and does not wait.
theorem submitUserMessage_iff :
    (runtime.submitUserMessage prompt).1 ↔ runtime.runtimeEnabled ∧ runtime.ollamaConfig.enabled ∧
      prompt ≠ [] ∧ runtime.awaitingResponse = false := by
  unfold LanguageRuntime.submitUserMessage
  split_ifs <;> simp_all

theorem submitUserMessage_config :
    (runtime.submitUserMessage prompt).2.ollamaConfig = runtime.ollamaConfig ∧
      (runtime.submitUserMessage prompt).2.runtimeEnabled = runtime.runtimeEnabled := by
  unfold LanguageRuntime.submitUserMessage
  split_ifs <;> exact ⟨rfl, rfl⟩

theorem applyChatResponse_config {response : ProviderResponse} :
    (runtime.applyChatResponse response).2.ollamaConfig = runtime.ollamaConfig ∧
      (runtime.applyChatResponse response).2.runtimeEnabled = runtime.runtimeEnabled := by
  unfold LanguageRuntime.applyChatResponse
  split_ifs <;> exact ⟨rfl, rfl⟩

theorem completeTurn_config {transport : LanguageTransportCallbacks} :
    (runtime.completeTurn transport).runtime.ollamaConfig = runtime.ollamaConfig ∧
      (runtime.completeTurn transport).runtime.runtimeEnabled = runtime.runtimeEnabled := by
  unfold LanguageRuntime.completeTurn
  split
  case h_1 => exact ⟨rfl, rfl⟩
  case h_2 => exact ⟨rfl, rfl⟩
  case h_3 =>
    split
    case h_1 => exact ⟨rfl, rfl⟩
    case h_2 => exact applyChatResponse_config

-- No call changes what the runtime is configured with.
theorem after_config :
    (call.after runtime).ollamaConfig = runtime.ollamaConfig ∧
      (call.after runtime).runtimeEnabled = runtime.runtimeEnabled := by
  have ⟨hc, he⟩ := (@prepareRuntime_config runtime call.request.body)
  have ⟨hcs, hes⟩ := (@submitUserMessage_config (prepareRuntime call.request.body runtime) call.prompt)
  by_cases hp : call.prompt = []
  case pos => rw [ChatCall.after, handle_of_no_prompt hp]; exact ⟨rfl, rfl⟩
  case neg =>
    cases hs : (prepareRuntime call.request.body runtime).submitUserMessage call.prompt
    case mk submitted rt =>
      rw [hs] at hcs hes
      cases submitted
      case false =>
        have hf := congrArg Prod.fst hs
        rw [ChatCall.after, handle_of_rejected hp hf, hs]
        exact ⟨hcs.trans hc, hes.trans he⟩
      case true =>
        have ⟨hct, het⟩ := (@completeTurn_config rt call.transport)
        rw [ChatCall.after, (handle_of_submitted hp hs).left]
        exact ⟨hct.trans (hcs.trans hc), het.trans (hes.trans he)⟩

-- What is sent to the provider is built from the configuration of the runtime.
theorem sent_of_handle {sent : ProviderRequest} (h : (call.handle runtime).sent = some sent) :
    call.prompt ≠ [] ∧ (prepareRuntime call.request.body runtime).awaitingResponse = false ∧
      buildOpenaiChatRequest runtime.ollamaConfig (call.pendingTranscript runtime) [] = .ok sent := by
  have ⟨hc, _⟩ := (@prepareRuntime_config runtime call.request.body)
  by_cases hp : call.prompt = []
  case pos =>
    have hp' : extractPromptField call.request.body = [] := hp
    simp [ChatCall.handle, handleAiChat, hp'] at h
  case neg =>
    by_cases hs : ((prepareRuntime call.request.body runtime).submitUserMessage call.prompt).1
    case neg =>
      rw [Bool.not_eq_true] at hs
      simp only [ChatCall.prompt] at hp hs
      simp [ChatCall.handle, handleAiChat, hp, hs] at h
    case pos =>
      have ⟨_, _, _, hi⟩ := submitUserMessage_iff.mp hs
      cases submitUserMessage_idle hi hp
      case inr hn => exact absurd (hs.symm.trans hn.left) (by decide)
      case inl hq =>
        have ⟨hq, he, _⟩ := hq
        rw [(handle_of_submitted hp hq).right, LanguageRuntime.completeTurn,
          buildPendingChatRequest_queued he, hc] at h
        refine ⟨hp, hi, ?_⟩
        rw [ChatCall.pendingTranscript]
        cases hb : buildOpenaiChatRequest runtime.ollamaConfig
          ((prepareRuntime call.request.body runtime).transcript ++ [⟨.user, call.prompt⟩]) []
        case error => simp [hb] at h
        case ok request =>
          cases hj : call.transport.postJson
          case none => simp [hb, hj] at h
          case some postJson =>
            simp only [hb, hj] at h
            split at h <;> exact congrArg _ (Option.some.inj h)

-- A call leaves an idle runtime idle exactly when it settles.
theorem after_idle_iff (h : runtime.awaitingResponse = false) :
    (ChatCall.after runtime call).awaitingResponse = false ↔ Settles runtime call := by
  by_cases hp : call.prompt = []
  case pos => simp [ChatCall.after, handle_of_no_prompt hp, h, Settles, hp]
  case neg =>
    have ⟨hc, he⟩ := (@prepareRuntime_config runtime call.request.body)
    cases submitUserMessage_idle ((@prepareRuntime_idle _ call.request.body) h) hp
    case inl hs =>
      have ⟨hs, hre, hce⟩ := hs
      have ht := handle_of_submitted hp hs |>.left
      rw [ChatCall.after, ht, Option.getD_some, completeTurn_queued hre, hc]
      rw [he] at hre
      rw [hc] at hce
      simp [Settles, hp, hre, hce, ChatCall.pendingTranscript]
    case inr hs =>
      have ⟨hs, hi, hn⟩ := hs
      rw [hc, he] at hn
      rw [ChatCall.after, handle_of_rejected hp hs, Option.getD_some]
      exact ⟨fun _ _ hre hce => absurd ⟨hre, hce⟩ hn, fun _ => hi⟩

theorem exists_request {config : OpenAICompatConfig} {messages : List ChatMessage}
    (he : config.enabled) (hm : config.model ≠ []) (ht : messages ≠ []) (hu : config.baseUrl ≠ []) :
    ∃ request, buildOpenaiChatRequest config messages [] = .ok request := by
  have hurl : buildOpenaiChatUrl config ≠ [] := by
    rw [buildOpenaiChatUrl, if_neg hu]
    exact List.append_ne_nil_of_right_ne_nil _ (by decide)
  rw [buildOpenaiChatRequest, if_neg (by simp [he]), if_neg hm, if_neg ht, if_neg hurl]
  exact ⟨_, rfl⟩

theorem sends_of_idle (hu : Usable runtime) (hp : call.prompt ≠ [])
    (h : (prepareRuntime call.request.body runtime).awaitingResponse = false)
    (ht : call.transport.postJson.isSome) : (call.handle runtime).sent.isSome := by
  have ⟨hc, he⟩ := (@prepareRuntime_config runtime call.request.body)
  cases submitUserMessage_idle h hp
  case inr hs => exact absurd ⟨he ▸ hu.runtimeEnabled, hc ▸ hu.configEnabled⟩ hs.right.right
  case inl hs =>
    have ⟨hs, hre, hce⟩ := hs
    have ⟨postJson, ht⟩ := Option.isSome_iff_exists.mp ht
    have hne : (prepareRuntime call.request.body runtime).transcript ++
      [⟨.user, call.prompt⟩] ≠ [] := by simp
    have ⟨request, hr⟩ := exists_request hce (hc ▸ hu.model) hne (hc ▸ hu.baseUrl)
    rw [(handle_of_submitted hp hs).right, LanguageRuntime.completeTurn,
      buildPendingChatRequest_queued hre, hr, ht]
    dsimp only
    split <;> rfl

theorem available_of_idle (h : runtime.awaitingResponse = false) : Available runtime where
  idle := h
  sends hu _ hp ht := sends_of_idle hu hp (prepareRuntime_idle h) ht

end Turn

section Runs

variable {runtime : LanguageRuntime} {calls : List ChatCall}

def afterAll (runtime : LanguageRuntime) (calls : List ChatCall) : LanguageRuntime :=
  calls.foldl ChatCall.after runtime

-- The runtime is available after each of the calls.
def NeverWedges (runtime : LanguageRuntime) (calls : List ChatCall) : Prop :=
  ∀ before behind, calls = before ++ behind → Available (afterAll runtime before)

-- Each call settles, with the runtime as it finds it.
def SettlesAll : LanguageRuntime → List ChatCall → Prop
  | _, []                  => True
  | runtime, call :: calls => Settles runtime call ∧ SettlesAll (call.after runtime) calls

theorem neverWedges_iff (h : runtime.awaitingResponse = false) :
    NeverWedges runtime calls ↔ SettlesAll runtime calls := by
  induction calls generalizing runtime
  case nil =>
    simp only [SettlesAll, iff_true]
    intro before behind he
    have ⟨hb, _⟩ := List.append_eq_nil_iff.mp he.symm
    exact hb ▸ available_of_idle h
  case cons call calls hi =>
    have hstep : NeverWedges runtime (call :: calls) ↔
        (call.after runtime).awaitingResponse = false ∧ NeverWedges (call.after runtime) calls := by
      constructor
      case mp =>
        intro hn
        exact ⟨(hn [call] calls rfl).idle, fun before behind he => hn (call :: before) behind (by
          rw [he, List.cons_append])⟩
      case mpr =>
        intro ⟨_, hn⟩ before behind he
        cases before
        case nil => exact available_of_idle h
        case cons call' before =>
          have ⟨hc, he⟩ := List.cons.inj he
          exact hc ▸ hn before behind he
    rw [hstep, SettlesAll, after_idle_iff h]
    exact and_congr_right fun hs => hi ((after_idle_iff h).mpr hs)

end Runs

section Examples

def chatRequest (prompt : Bytes) : HttpRequest :=
  ⟨.post, "/ai/chat", [], jsonObject [jsonStringField "prompt" prompt], []⟩

def idleRuntime : LanguageRuntime :=
  ⟨⟨"http://127.0.0.1:11434", "llama3.2", true, false, 32768⟩, [], [], [], [], true, false⟩

def answering (body : Bytes) : LanguageTransportCallbacks :=
  ⟨some fun _ => ⟨true, 200, body⟩⟩

def unreachable : LanguageTransportCallbacks :=
  ⟨some fun _ => ⟨false, 0, []⟩⟩

def textReply : Bytes :=
  jsonObject [needle "choices" ++ jsonArray [jsonObject [jsonStringField "content" "Hi."]]]

theorem neverWedges_answered :
    NeverWedges idleRuntime [⟨chatRequest "hello", answering textReply⟩] := by
  refine (neverWedges_iff rfl).mpr ⟨fun _ _ _ => ?_, trivial⟩
  exact ⟨_, _, rfl, rfl, _, rfl, by decide +kernel, by decide +kernel, by decide +kernel⟩

-- After one call that does not get through, the next one is turned down.
theorem not_neverWedges :
    ¬NeverWedges idleRuntime [⟨chatRequest "hello", unreachable⟩] ∧
      ((ChatCall.mk (chatRequest "again") (answering textReply)).handle
        (afterAll idleRuntime [⟨chatRequest "hello", unreachable⟩])).sent = none := by
  constructor
  case left =>
    intro h
    exact absurd (h [⟨chatRequest "hello", unreachable⟩] [] rfl).idle (by decide +kernel)
  case right => decide +kernel

end Examples

end Droidcli.Net
