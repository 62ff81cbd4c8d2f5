import Droidcli.Cli.AgentTurn

namespace Droidcli.Cli

open Bytes Net Ai Interaction

-- The host as the agent's methods find it, and the machine under it.
structure AgentWorld (W : Type) where
  agent : AgentState
  host : HostState
  appLog : List AppLogEntry
  machine : W

-- What the provider answers to the calls of one request.
abbrev Provider := CallPurpose → Nat → PostOutcome

def chatCompletion (message : List Bytes) : PostOutcome :=
  ⟨true, 200, jsonObject [needle "choices" ++
    jsonArray [jsonObject [needle "message" ++ jsonObject message]]]⟩

-- A provider that answers every call with the same text.
def Provider.saying (text : Bytes) : Provider := fun _ _ =>
  chatCompletion [jsonStringField "content" text]

-- A provider that answers every call by proposing the same tool call.
def Provider.proposing (name argumentsJson : Bytes) : Provider := fun _ _ =>
  chatCompletion [
    jsonStringField "content" [],
    needle "tool_calls" ++ jsonArray [jsonObject [
      jsonStringField "id" "call",
      needle "function" ++ jsonObject [
        jsonStringField "name" name,
        jsonStringField "arguments" argumentsJson
      ]
    ]]
  ]

namespace AgentWorld

variable {W : Type} (os : Os W) (s : AgentWorld W)

def passTime : AgentWorld W :=
  { s with machine := os.passTime s.machine }

def generateSessionId : Bytes :=
  cstr (os.sessionTimestamp s.machine) ++ "-" ++ hexadecimal (os.stackAddress s.machine % 2 ^ 16)

-- The current session becomes a new one without messages.
def startSession : AgentWorld W :=
  { s with agent := { s.agent with
      currentSessionId := s.generateSessionId os
      agentTranscript := [] } }

def messagesOf (store : MemoryStore) (sessionId : Bytes) : List ChatMessage :=
  (store.loadSession sessionId).map fun record => ⟨.ofText record.role, record.content⟩

def switchSession (sessionId : Bytes) : AgentWorld W :=
  { s with agent := { s.agent with
      currentSessionId := sessionId
      agentTranscript := messagesOf s.agent.memoryStore sessionId } }

def openSession (clear : Bool) (requestedSessionId : Bytes) : AgentWorld W :=
  if clear then s.startSession os
  else if requestedSessionId ≠ [] ∧ requestedSessionId ≠ s.agent.currentSessionId then
    s.switchSession requestedSessionId
  else s

def setPending (pending : Option PendingAgentToolCall) : AgentWorld W :=
  { s with agent := { s.agent with pendingToolCall := pending } }

def isPendingIn (sessionId : Bytes) : Bool :=
  s.agent.pendingToolCall.any (·.sessionId = sessionId)

-- The pending call, if there is one and the request does not ask for another session's.
def acceptedPending (requestedSessionId : Bytes) : Option PendingAgentToolCall :=
  s.agent.pendingToolCall.filter fun pending =>
    requestedSessionId = [] ∨ requestedSessionId = pending.sessionId

def recordAgentMessage (sessionId : Bytes) (role : ChatRole) (content : Bytes) : AgentWorld W :=
  let agentTranscript := s.agent.agentTranscript ++ [⟨role, content⟩]
  let hopIndex := (agentTranscript.length : Int).bmod (2 ^ 32) - 1
  { s with agent := { s.agent with
      agentTranscript := agentTranscript
      memoryStore := s.agent.memoryStore.append sessionId hopIndex role.toText content } }

def appendLog (entries : List AppLogEntry) : AgentWorld W :=
  { s with appLog := entries.foldl appendAppLog s.appLog }

def seedPrompt : Option Bytes :=
  if s.agent.agentTranscript = [] ∧ s.host.config.systemPrompt ≠ [] then
    some <| s.host.config.systemPrompt ++ " Right now this index has " ++
      decimal s.host.installedApps.length ++ " installed applications in it." ++
      " As of the start of this session, the date and time was " ++
      os.makeFullLogTimestamp s.machine ++ " - call get_system_info if you " ++
      "need the actual current date/time later in a long session, " ++
      "since this won't update on its own."
  else none

def makeModelProvider : OpenAICompatConfig :=
  ⟨s.host.config.ollamaUrl, s.host.config.ollamaModel, true, false, s.host.config.ollamaNumCtx⟩

def executeTool (toolName argumentsJson : Bytes) : Option Bytes × AgentWorld W :=
  let host := { s.host with memoryStoreOpen := s.agent.memoryStore.isOpen }
  let (ran, host) := executeAgentTool os host s.appLog toolName argumentsJson s.machine
  (ran.value, { s with host := host, machine := ran.world }.appendLog ran.logged)

def deleteSession (requestedSessionId : Bytes) : DeletedSession × AgentWorld W :=
  let target :=
    if requestedSessionId = [] then s.agent.currentSessionId else requestedSessionId
  let (ok, memoryStore) := s.agent.memoryStore.deleteSession target
  let s' := { s with agent := { s.agent with memoryStore := memoryStore } }
  if target = s.agent.currentSessionId then
    (⟨ok, target, some (s'.generateSessionId os)⟩, s'.startSession os)
  else (⟨ok, target, none⟩, s')

end AgentWorld

-- One step of a request whose calls to the provider are answered by `provider`. The machine's
-- clock moves on where the host waits for something else than itself.
def agentHandler {W : Type} (os : Os W) (provider : Provider) : Handler AgentRes (AgentWorld W)
  | .openSession clear requestedSessionId, s =>
    let s' := s.openSession os clear requestedSessionId
    (s'.agent.currentSessionId, s'.passTime os)
  | .abandonPending sessionId, s =>
    if s.isPendingIn sessionId then (true, s.setPending none) else (false, s)
  | .takePending requestedSessionId, s =>
    match s.acceptedPending requestedSessionId with
    | none         => (none, s)
    | some pending => (some pending, s.setPending none)
  | .pause pending, s =>
    (viewPendingToolCall os s.host s.machine pending, s.setPending (some pending))
  | .record sessionId role content, s =>
    ((), (s.recordAgentMessage sessionId role content).passTime os)
  | .log entry, s                      => ((), s.appendLog [entry])
  | .aiEnabled, s                      => (s.host.config.enableAi, s)
  | .seedPrompt, s                     => (s.seedPrompt os, s)
  | .transcript, s                     => (s.agent.agentTranscript, s)
  | .makeModelProvider, s              => (s.makeModelProvider, s)
  | .post call, s                      => (provider call.purpose call.attempt, s.passTime os)
  | .elapsedMs, s                      => (os.elapsedMs s.machine, s)
  | .executeTool name argumentsJson, s => s.executeTool os name argumentsJson
  | .precheck call, s                  =>
    (precheckAndResolveGatedCall os s.host s.machine call, s)
  | .deleteSession requestedSessionId, s =>
    let (deleted, s') := s.deleteSession os requestedSessionId
    (deleted, s'.passTime os)

section Requests

variable {W : Type} (os : Os W) (tools : List ToolDefinition)

-- One request from its start to its end, with nothing in between.
def AgentRequest.handle (provider : Provider) (request : AgentRequest) (s : AgentWorld W) :
    Prog.Outcome AgentRes (Option AgentResponse) (AgentWorld W) :=
  (request.serve tools).run (agentHandler os provider) s

-- Requests one after the other, each with the provider that answers it.
def handleAll : List (AgentRequest × Provider) → AgentWorld W → AgentWorld W
  | [], s                             => s
  | (request, provider) :: requests, s =>
    handleAll requests (request.handle os tools provider s).state

-- Every step of these requests satisfies `C`.
def MeetsAll (C : AgentOp → AgentWorld W → Prop) :
    List (AgentRequest × Provider) → AgentWorld W → Prop
  | [], _                             => True
  | (request, provider) :: requests, s =>
    (request.serve tools).Meets (agentHandler os provider) C s ∧
      MeetsAll C requests (request.handle os tools provider s).state

-- Requests whose steps interleave. The request numbered `i` is answered by `provider i`.
abbrev AgentPool (W : Type) := Pool AgentRes (Option AgentResponse) (AgentWorld W) Nat

def AgentPool.start (s : AgentWorld W) (requests : Nat → AgentRequest) : AgentPool W :=
  ⟨s, fun i => (requests i).serve tools⟩

abbrev AgentPool.Run (provider : Nat → Provider) (c : AgentPool W)
    (t : List (Nat × Event AgentRes)) (d : AgentPool W) : Prop :=
  Pool.Run (fun i => agentHandler os (provider i)) c t d

end Requests

-- A host without a pending call or any message, in a session with the given id.
def AgentWorld.initial (sessionId : Bytes) (isOpen : Bool) (host : HostState) {W : Type} (w : W) :
    AgentWorld W :=
  ⟨⟨sessionId, [], ⟨isOpen, []⟩, none⟩, host, [], w⟩

def AgentWorld.fresh : AgentWorld Unit :=
  .initial "s" true HostState.initial ()

end Droidcli.Cli
