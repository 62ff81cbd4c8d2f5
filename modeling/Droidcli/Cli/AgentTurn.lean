import Droidcli.Classify
import Droidcli.Cli.AgentState
import Droidcli.Lib.Interaction

namespace Droidcli.Cli

open Bytes Net Ai Classify Interaction

-- The calls that one request makes to the provider. The label says which decision a call serves;
-- within one decision the attempts are numbered.
inductive CallPurpose
  | classify
  | retry
  | phrase
  deriving DecidableEq

structure ProviderCall where
  purpose : CallPurpose
  attempt : Nat
  messages : List ChatMessage
  request : ProviderRequest
  deriving DecidableEq

-- The atomic steps of the agent's methods: each one is a section under the host's lock, or a call
-- that takes the lock itself, or reads state without it.
inductive AgentOp
  | openSession (clear : Bool) (requestedSessionId : Bytes)
  | abandonPending (sessionId : Bytes)
  | takePending (requestedSessionId : Bytes)
  | pause (pending : PendingAgentToolCall)
  | record (sessionId : Bytes) (role : ChatRole) (content : Bytes)
  | log (entry : AppLogEntry)
  | aiEnabled
  | seedPrompt
  | transcript
  | makeModelProvider
  | post (call : ProviderCall)
  | elapsedMs
  | executeTool (toolName argumentsJson : Bytes)
  | precheck (call : ToolCall)
  | deleteSession (requestedSessionId : Bytes)
  deriving DecidableEq

structure DeletedSession where
  ok : Bool
  sessionId : Bytes
  newSessionId : Option Bytes
  deriving DecidableEq

@[reducible]
def AgentRes : AgentOp → Type
  | .openSession _ _      => Bytes
  | .abandonPending _     => Bool
  | .takePending _        => Option PendingAgentToolCall
  | .pause _              => PendingView
  | .record _ _ _         => Unit
  | .log _                => Unit
  | .aiEnabled            => Bool
  | .seedPrompt           => Option Bytes
  | .transcript           => List ChatMessage
  | .makeModelProvider    => OpenAICompatConfig
  | .post _               => PostOutcome
  | .elapsedMs            => Int
  | .executeTool _ _      => Option Bytes -- `none` when an exception escapes from the tool
  | .precheck _           => Except Bytes Bytes
  | .deleteSession _      => DeletedSession

instance decidableEqExcept {ε α : Type} [DecidableEq ε] [DecidableEq α] : DecidableEq (Except ε α)
  | .error a, .error b  => decidable_of_iff (a = b) (by simp)
  | .ok a, .ok b        => decidable_of_iff (a = b) (by simp)
  | .error _, .ok _     => isFalse (by simp)
  | .ok _, .error _     => isFalse (by simp)

instance : (o : AgentOp) → DecidableEq (AgentRes o)
  | .openSession _ _   => inferInstanceAs (DecidableEq Bytes)
  | .abandonPending _  => inferInstanceAs (DecidableEq Bool)
  | .takePending _     => inferInstanceAs (DecidableEq (Option PendingAgentToolCall))
  | .pause _           => inferInstanceAs (DecidableEq PendingView)
  | .record _ _ _      => inferInstanceAs (DecidableEq Unit)
  | .log _             => inferInstanceAs (DecidableEq Unit)
  | .aiEnabled         => inferInstanceAs (DecidableEq Bool)
  | .seedPrompt        => inferInstanceAs (DecidableEq (Option Bytes))
  | .transcript        => inferInstanceAs (DecidableEq (List ChatMessage))
  | .makeModelProvider => inferInstanceAs (DecidableEq OpenAICompatConfig)
  | .post _            => inferInstanceAs (DecidableEq PostOutcome)
  | .elapsedMs         => inferInstanceAs (DecidableEq Int)
  | .executeTool _ _   => inferInstanceAs (DecidableEq (Option Bytes))
  | .precheck _        => inferInstanceAs (DecidableEq (Except Bytes Bytes))
  | .deleteSession _   => inferInstanceAs (DecidableEq DeletedSession)

abbrev AgentM := Prog AgentRes

abbrev perform (o : AgentOp) : AgentM (AgentRes o) :=
  Prog.perform o

inductive AgentResponse
  | failure (error : Bytes) (sessionId : Option Bytes)
  | final (thinking assistant sessionId : Bytes) (actions : List PendingToolActionRecord)
  | pending (thinking sessionId : Bytes) (view : PendingView)
  | deleted (deleted : DeletedSession)

section Json

def actionJson (action : PendingToolActionRecord) : Bytes :=
  jsonObject [
    jsonStringField "tool" action.tool,
    jsonStringField "arguments_json" action.argumentsJson,
    jsonStringField "result_json" action.resultJson
  ]

def actionsField (actions : List PendingToolActionRecord) : Bytes :=
  needle "actions" ++ jsonArray (actions.map actionJson)

def thinkingField (thinking : Bytes) : List Bytes :=
  if thinking = [] then [] else [jsonStringField "thinking" thinking]

def AgentResponse.json : AgentResponse → Bytes
  | failure error sessionId =>
    jsonObject <| [jsonBoolField "ok" false, jsonStringField "error" error] ++
      sessionId.toList.map (jsonStringField "session_id")
  | final thinking assistant sessionId actions =>
    jsonObject <| jsonBoolField "ok" true :: thinkingField thinking ++ [
      jsonStringField "assistant" assistant,
      jsonStringField "session_id" sessionId,
      actionsField actions
    ]
  | pending thinking sessionId view =>
    jsonObject <| jsonBoolField "ok" true :: thinkingField thinking ++ [
      jsonStringField "session_id" sessionId,
      needle "pending_tool_call" ++ jsonObject [
        jsonStringField "tool" view.tool,
        jsonStringField "arguments_json" view.argumentsJson,
        jsonBoolField "looks_destructive" view.looksDestructive
      ],
      actionsField view.actions
    ]
  | deleted result =>
    jsonObject <| [jsonBoolField "ok" result.ok, jsonStringField "session_id" result.sessionId] ++
      result.newSessionId.toList.map (jsonStringField "new_session_id")

end Json

section Phrase

def genericResultSentence (resultJson : Bytes) : Bytes :=
  let error := extractJsonStringField resultJson "error"
  if okField resultJson then "Done."
  else if error = [] then "That didn't work."
  else str "That didn't work: " ++ error

def phrasingMessage (toolName resultJson : Bytes) : ChatMessage where
  role := .user
  content :=
    str "The \"" ++ toolName ++ "\" action just ran with this exact result (ground truth, " ++
      "already happened): " ++ resultJson ++ ". In one or two short sentences, tell the user " ++
      "what happened. State only what this JSON says - do not claim anything else, do not " ++
      "describe additional actions, do not apologize at length."

-- `none` when the exception of `std::stoll` escapes, here and in every program below.
def phraseViaLlm (provider : OpenAICompatConfig) (toolName resultJson : Bytes) :
    AgentM (Option Bytes) :=
  let messages := [phrasingMessage toolName resultJson]
  match buildOpenaiChatRequest provider messages [] with
  | .error _    => return some (genericResultSentence resultJson)
  | .ok request => do
    let outcome ← perform (.post ⟨.phrase, 0, messages, request⟩)
    return outcome.parse.map fun response =>
      if ¬response.transportOk ∨ ¬response.httpSuccess ∨ response.assistantMessage = [] then
        genericResultSentence resultJson
      else response.assistantMessage

def phraseResult (provider : OpenAICompatConfig) (toolName argumentsJson resultJson : Bytes) :
    AgentM (Option Bytes) :=
  match tryTemplateReply toolName argumentsJson resultJson with
  | none           => return none
  | some templated =>
    if templated ≠ [] then return some templated else phraseViaLlm provider toolName resultJson

end Phrase

section Classify

def kMaxEmptyRetries : Nat := 2

def logChat (direction summary : Bytes) (success : Bool) : AgentM Unit :=
  perform (.log ⟨"chat", direction, summary, success⟩)

-- The attempts of one classification, of which `left` may still follow: the last response and the
-- number of attempts used.
def attemptClassify (purpose : CallPurpose) (messages : List ChatMessage)
    (request : ProviderRequest) : Nat → Nat → AgentM (Option (ProviderResponse × Nat))
  | left, attempt => do
    let outcome ← perform (.post ⟨purpose, attempt, messages, request⟩)
    match outcome.parse with
    | none          => return none
    | some response =>
      if ¬response.transportOk ∨ ¬response.httpSuccess then return some (response, attempt + 1)
      else if response.assistantMessage ≠ [] ∨ response.toolCalls ≠ [] then
        return some (response, attempt + 1)
      else
        match left with
        | 0 =>
          logChat "out" (str "classify: model returned neither text nor a tool call after " ++
            decimal (kMaxEmptyRetries + 1) ++ " attempts, raw response: " ++
            outcome.body.take 500) false
          return some (response, attempt + 1)
        | left + 1 =>
          logChat "out" (str "classify: model returned neither text nor a tool call, retrying (" ++
            decimal (attempt + 1) ++ slash :: decimal kMaxEmptyRetries ++ ")") false
          attemptClassify purpose messages request left (attempt + 1)

-- The decision that a response amounts to.
def decisionOf (response : ProviderResponse) : AgentM TurnDecision :=
  if ¬response.transportOk ∨ ¬response.httpSuccess then
    return {
      kind := .transportFailed <|
        if response.errorMessage = [] then "provider request failed" else response.errorMessage
      thinkingText := response.thinkingText
    }
  else
    match response.toolCalls with
    | call :: rest => do
      if rest ≠ [] then
        logChat "out" (str "classify: model returned " ++ decimal (rest.length + 1) ++
          " tool calls - taking the first (" ++ call.name ++
          ") and discarding the rest, no multi-call chaining") true
      return ⟨.llmTool call.name call.argumentsJson, response.thinkingText⟩
    | [] =>
      return {
        kind := .plainReply <|
          if response.assistantMessage = [] then
            "(no reply text - the model returned an empty response, try rephrasing)"
          else response.assistantMessage
        thinkingText := response.thinkingText
      }

-- `classify_via_llm` behind its attempts.
def judgeResponse (response : ProviderResponse) (attemptsUsed : Nat) : AgentM TurnDecision := do
  let wallClockMs ← perform .elapsedMs
  perform (.log ⟨"ollama", "out", str "classify (" ++ decimal attemptsUsed ++ " attempt(s), " ++
    decimalInt wallClockMs ++ "ms)", response.transportOk && response.httpSuccess⟩)
  if response.thinkingText ≠ [] then
    perform (.log ⟨"thinking", "out", response.thinkingText, true⟩)
  decisionOf response

-- `classify_via_llm` on its copy of the transcript.
def classifyCopy (purpose : CallPurpose) (tools : List ToolDefinition)
    (provider : OpenAICompatConfig) (transcriptCopy : List ChatMessage) :
    AgentM (Option TurnDecision) :=
  match buildOpenaiChatRequest provider transcriptCopy tools with
  | .error errorMessage => do
    logChat "out" (str "classify request build failed: " ++ errorMessage) false
    return some ⟨.transportFailed errorMessage, []⟩
  | .ok request => do
    match ← attemptClassify purpose transcriptCopy request kMaxEmptyRetries 0 with
    | none                          => return none
    | some (response, attemptsUsed) => return some (← judgeResponse response attemptsUsed)

def classifyViaLlm (purpose : CallPurpose) (tools : List ToolDefinition)
    (provider : OpenAICompatConfig) : AgentM (Option TurnDecision) := do
  let transcriptCopy ← perform .transcript
  classifyCopy purpose tools provider transcriptCopy

end Classify

section Turn

inductive Execution
  | executed (actions : List PendingToolActionRecord) (toolResult : Bytes)
  | paused (response : AgentResponse)

def toolSummary (call : ToolCall) (toolResult : Bytes) : Bytes :=
  call.name ++ "(" ++ call.argumentsJson ++ ") -> " ++ toolResult

def executeDecisionOrPause (sessionId toolName argumentsJson : Bytes)
    (actions : List PendingToolActionRecord) (thinkingText : Bytes) :
    AgentM (Option Execution) := do
  let call : ToolCall := ⟨"classified-0", toolName, argumentsJson⟩
  if toolCallRequiresApproval call.name then
    match ← perform (.precheck call) with
    | .error failureJson =>
      logChat "out" (str "tool " ++ toolSummary call failureJson) false
      perform (.record sessionId .tool failureJson)
      return some (.executed (actions ++ [⟨call.name, call.argumentsJson, failureJson⟩]) failureJson)
    | .ok argumentsJson =>
      let call := { call with argumentsJson := argumentsJson }
      let view ← perform (.pause ⟨sessionId, call, actions⟩)
      return some (.paused (.pending thinkingText sessionId view))
  else
    match ← perform (.executeTool call.name call.argumentsJson) with
    | none            => return none
    | some toolResult =>
      logChat "out" (str "tool " ++ toolSummary call toolResult) true
      perform (.record sessionId .tool toolResult)
      return some (.executed (actions ++ [⟨call.name, call.argumentsJson, toolResult⟩]) toolResult)

def retryAdvice : Bytes :=
  str ". This is your one automatic retry - if you can fix the input, call the right tool now with " ++
    "a corrected argument; otherwise just explain what went wrong.)"

def retryNote (toolName resultJson : Bytes) : Bytes :=
  let failureReason := extractJsonStringField resultJson "error"
  str "(" ++ toolName ++ " failed: " ++
    (if failureReason = [] then str "unknown error" else failureReason) ++ retryAdvice

-- The end of `finish_turn_after_execution`: one phrased reply, recorded and returned.
def reply (provider : OpenAICompatConfig) (sessionId toolName argumentsJson resultJson : Bytes)
    (actions : List PendingToolActionRecord) (thinkingText : Bytes) :
    AgentM (Option AgentResponse) := do
  match ← phraseResult provider toolName argumentsJson resultJson with
  | none               => return none
  | some assistantText =>
    perform (.record sessionId .assistant assistantText)
    logChat "out" (str "assistant: " ++ assistantText) true
    return some (.final thinkingText assistantText sessionId actions)

-- `finish_turn_after_execution` behind its second classification. Without a tool call of its own
-- the retry is passed over, and the first failure is phrased.
def followRetry (provider : OpenAICompatConfig) (sessionId toolName argumentsJson resultJson : Bytes)
    (actions : List PendingToolActionRecord) (thinkingText : Bytes) :
    Option TurnDecision → AgentM (Option AgentResponse)
  | none => return none
  | some ⟨.llmTool retryName retryArguments, retryThinking⟩ => do
    match ← executeDecisionOrPause sessionId retryName retryArguments actions retryThinking with
    | none                                => return none
    | some (.paused response)             => return some response
    | some (.executed actions toolResult) =>
      reply provider sessionId retryName retryArguments toolResult actions thinkingText
  | some _ => reply provider sessionId toolName argumentsJson resultJson actions thinkingText

def finishTurnAfterExecution (tools : List ToolDefinition) (provider : OpenAICompatConfig)
    (sessionId toolName argumentsJson resultJson : Bytes)
    (actions : List PendingToolActionRecord) (allowRetry : Bool) (thinkingText : Bytes) :
    AgentM (Option AgentResponse) := do
  if allowRetry ∧ ¬okField resultJson ∧ isRetriableTool toolName then
    perform (.record sessionId .system (retryNote toolName resultJson))
    let retryDecision ← classifyViaLlm .retry tools provider
    followRetry provider sessionId toolName argumentsJson resultJson actions thinkingText
      retryDecision
  else
    reply provider sessionId toolName argumentsJson resultJson actions thinkingText

def abandonedNote : Bytes :=
  str "(A previously pending tool call in this session was abandoned - the user sent a new " ++
    "message instead of approving or declining it. If it's still relevant, call the tool again.)"

-- `agent_turn` behind its first classification.
def followDecision (tools : List ToolDefinition) (provider : OpenAICompatConfig)
    (sessionId : Bytes) : Option TurnDecision → AgentM (Option AgentResponse)
  | none => return none
  | some ⟨.transportFailed errorMessage, _⟩ => return some (.failure errorMessage (some sessionId))
  | some ⟨.plainReply text, thinkingText⟩ => do
    perform (.record sessionId .assistant text)
    logChat "out" (str "assistant: " ++ text) true
    return some (.final thinkingText text sessionId [])
  | some ⟨.llmTool toolName argumentsJson, thinkingText⟩ => do
    match ← executeDecisionOrPause sessionId toolName argumentsJson [] thinkingText with
    | none                                => return none
    | some (.paused response)             => return some response
    | some (.executed actions toolResult) =>
      finishTurnAfterExecution tools provider sessionId toolName argumentsJson toolResult actions
        true thinkingText

def decideTurn (tools : List ToolDefinition) (provider : OpenAICompatConfig) (sessionId : Bytes) :
    AgentM (Option AgentResponse) := do
  let decision ← classifyViaLlm .classify tools provider
  followDecision tools provider sessionId decision

-- A call of the session that still waits for a decision is dropped when a message arrives.
def abandonPendingCall (sessionId : Bytes) : AgentM Unit := do
  let abandonedPendingCall ← perform (.abandonPending sessionId)
  if abandonedPendingCall then
    perform (.record sessionId .system abandonedNote)
    logChat "out" (str "pending tool call abandoned (new message arrived before it was " ++
      "approved/declined)") false

def seedSystemPrompt (sessionId : Bytes) : AgentM Unit := do
  match ← perform .seedPrompt with
  | some systemPromptText => perform (.record sessionId .system systemPromptText)
  | none                  => pure ()

-- `agent_turn` behind the opening of its session.
def turnIn (tools : List ToolDefinition) (userMessage sessionId : Bytes) :
    AgentM (Option AgentResponse) := do
  if userMessage = [] then return some (.failure "missing message" none)
  abandonPendingCall sessionId
  logChat "in" (str "user: " ++ userMessage) true
  let aiEnabled ← perform .aiEnabled
  if ¬aiEnabled then
    logChat "out" "rejected: AI is disabled (--no-ai)" false
    return some (.failure "AI is disabled (--no-ai)" none)
  seedSystemPrompt sessionId
  perform (.record sessionId .user userMessage)
  let provider ← perform .makeModelProvider
  decideTurn tools provider sessionId

def agentTurn (tools : List ToolDefinition) (body : Bytes) : AgentM (Option AgentResponse) := do
  let clear := (extractJsonBoolField body "clear").getD false
  let sessionId ← perform (.openSession clear (extractJsonStringField body "session_id"))
  turnIn tools (extractJsonStringField body "message") sessionId

def declinedJson (reason : Bytes) : Bytes :=
  failureJson (if reason = [] then str "user declined this action" else str "user declined: " ++ reason)

-- `agent_tool_decision` from the result of its call on.
def recordDecision (tools : List ToolDefinition) (pending : PendingAgentToolCall) (approved : Bool) :
    Option Bytes → AgentM (Option AgentResponse)
  | none            => return none
  | some toolResult => do
    let call := pending.decidedCall
    logChat "out" ((if approved then str "tool " else "tool declined ") ++
      toolSummary call toolResult) approved
    perform (.record pending.sessionId .tool toolResult)
    let actions := pending.actions ++ [⟨call.name, call.argumentsJson, toolResult⟩]
    let provider ← perform .makeModelProvider
    finishTurnAfterExecution tools provider pending.sessionId call.name call.argumentsJson toolResult
      actions approved []

-- `agent_tool_decision` behind the pending slot.
def resolvePending (tools : List ToolDefinition) (pending : PendingAgentToolCall) (approved : Bool)
    (reason : Bytes) : AgentM (Option AgentResponse) :=
  if approved then do
    let call := pending.decidedCall
    let result ← perform (.executeTool call.name call.argumentsJson)
    recordDecision tools pending approved result
  else
    recordDecision tools pending approved (some (declinedJson reason))

def agentToolDecision (tools : List ToolDefinition) (body : Bytes) :
    AgentM (Option AgentResponse) := do
  let approved := (extractJsonBoolField body "approved").getD false
  let reason := extractJsonStringField body "reason"
  match ← perform (.takePending (extractJsonStringField body "session_id")) with
  | none         => return some (.failure "no tool call is awaiting a decision" none)
  | some pending => resolvePending tools pending approved reason

def deleteAgentSessionJson (body : Bytes) : AgentM (Option AgentResponse) := do
  let deleted ← perform (.deleteSession (extractJsonStringField body "session_id"))
  perform (.log ⟨"chat", "out", str "deleted session " ++ deleted.sessionId, deleted.ok⟩)
  return some (.deleted deleted)

end Turn

-- The requests that reach the agent.
inductive AgentRequest
  | turn (body : Bytes)
  | toolDecision (body : Bytes)
  | deleteSession (body : Bytes)

def AgentRequest.serve (tools : List ToolDefinition) :
    AgentRequest → AgentM (Option AgentResponse)
  | turn body          => agentTurn tools body
  | toolDecision body  => agentToolDecision tools body
  | deleteSession body => deleteAgentSessionJson body

end Droidcli.Cli
