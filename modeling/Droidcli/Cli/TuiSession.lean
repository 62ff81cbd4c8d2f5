import Droidcli.Cli.AgentHandler
import Droidcli.Cli.Droidcli
import Droidcli.Cli.HostViews
import Droidcli.Cli.Tui
import Droidcli.Lib.Trace

namespace Droidcli.Cli.Tui

open Bytes Net Interaction

def trim (value : Bytes) : Bytes :=
  ((value.dropWhile isSpace).reverse.dropWhile isSpace).reverse

structure PendingToolApproval where
  sessionId : Bytes
  tool : Bytes
  argumentsJson : Bytes
  deriving DecidableEq

-- What the chat worker hands over to the UI thread. Each access is a section under its mutex.
structure ChatWork where
  pendingEntries : List ChatEntry
  clearInFlight : Bool
  sessionId : Bytes
  pendingToolCall : Option PendingToolCall
  deriving DecidableEq

-- The locals of `run_tui` that have to do with the chat and its session. An inactive approval is
-- `none`, and so is the session of a confirm popup that is not shown.
structure TuiState where
  sessionMenuEntries : List Bytes
  sessionMenuSelected : Int
  sessionDropdownUserPicked : Bool
  chatEntries : List ChatEntry
  agentTurnInFlight : Bool
  pendingToolApproval : Option PendingToolApproval
  currentSessionId : Bytes
  pendingNewSession : Bool
  deleteConfirmSessionId : Option Bytes
  chatWork : ChatWork
  deriving DecidableEq

-- What an Enter sets the chat worker to.
inductive ChatJob
  | turn (message : Bytes) (startNewSession : Bool)
  | toolDecision (approved : Bool) (reason sessionId : Bytes)
  deriving DecidableEq

namespace ChatWork

def ingest (chatWork : ChatWork) (response : ParsedTurn) : ChatWork :=
  { chatWork with
    sessionId := if response.sessionId = [] then chatWork.sessionId else response.sessionId
    pendingToolCall := response.pendingToolCall.or chatWork.pendingToolCall }

def finish (chatWork : ChatWork) (results : List ChatEntry) : ChatWork :=
  { chatWork with
    pendingEntries := chatWork.pendingEntries ++ results
    clearInFlight := true }

end ChatWork

namespace TuiState

variable (tui : TuiState)

-- The state in front of the event loop. The last session is resumed if it has messages.
def start (versionString lastSessionId : Bytes) (resumed prompt : List ChatEntry) : TuiState where
  sessionMenuEntries := []
  sessionMenuSelected := 0
  sessionDropdownUserPicked := false
  chatEntries :=
    .now .info (str "Welcome to droidcli " ++ versionString ++
      ". Type a message below and press Enter to chat.") ::
      (if lastSessionId = [] then [] else resumed) ++ prompt
  agentTurnInFlight := false
  pendingToolApproval := none
  currentSessionId := if resumed = [] then [] else lastSessionId
  pendingNewSession := false
  deleteConfirmSessionId := none
  chatWork := ⟨[], false, [], none⟩

def pushChatEntry (role : ChatEntryRole) (text : Bytes) : TuiState :=
  { tui with chatEntries := tui.chatEntries ++ [.now role text] }

def syncSessionMenuFromHost : TuiState :=
  match tui.sessionMenuEntries.findIdx? (· = tui.currentSessionId) with
  | none       => tui
  | some index => { tui with sessionMenuSelected := index }

def refreshSessionMenuNow (sessionIds : List Bytes) : TuiState :=
  { tui with sessionMenuEntries := sessionIds }.syncSessionMenuFromHost

-- The radiobox moves, by a click or a key of the user or by itself.
def moveSelection (selected : Int) (userPicked : Bool) : TuiState :=
  { tui with
    sessionMenuSelected := selected
    sessionDropdownUserPicked := tui.sessionDropdownUserPicked || userPicked }

-- The session that the next frame switches to.
def pickedSession : Option Bytes :=
  if tui.sessionDropdownUserPicked ∧ 0 ≤ tui.sessionMenuSelected then
    tui.sessionMenuEntries[tui.sessionMenuSelected.toNat]?.filter (· ≠ tui.currentSessionId)
  else none

-- `history` is what the host has of a session.
def applySessionMenuSelection (history : Bytes → List ChatEntry) : TuiState :=
  let tui' := { tui with sessionDropdownUserPicked := false }
  match tui.pickedSession with
  | none        => tui'
  | some picked =>
    let resumed := history picked
    let shown := { tui' with chatEntries := resumed }
    let shown :=
      if resumed = [] then
        shown.pushChatEntry .info (str "Session '" ++ picked ++ "' has no messages yet.")
      else shown
    { shown with currentSessionId := picked }

section Drain

def takeEntries : TuiState :=
  { tui with
    chatEntries := tui.chatEntries ++ tui.chatWork.pendingEntries
    chatWork := { tui.chatWork with pendingEntries := [] } }

-- The session that the next tick makes the current one.
def handedOver : Option Bytes :=
  if tui.chatWork.sessionId ≠ [] ∧ tui.chatWork.sessionId ≠ tui.currentSessionId then
    some tui.chatWork.sessionId
  else none

-- The slot is emptied on this branch only.
def adoptSession (sessionIds : List Bytes) : TuiState :=
  match tui.handedOver with
  | none           => tui
  | some sessionId =>
    { tui with
      currentSessionId := sessionId
      chatWork := { tui.chatWork with sessionId := [] } }.refreshSessionMenuNow sessionIds

def takeToolCall : TuiState :=
  match tui.chatWork.pendingToolCall with
  | none      => tui
  | some call =>
    { tui with
      pendingToolApproval := some ⟨tui.currentSessionId, call.tool, call.argumentsJson⟩
      chatWork := { tui.chatWork with pendingToolCall := none } }

def clearFlight : TuiState :=
  if tui.chatWork.clearInFlight then
    { tui with
      agentTurnInFlight := false
      chatWork := { tui.chatWork with clearInFlight := false } }
  else tui

-- `Event::Custom`, with the sessions that the poller last read and those that the host has now.
def drain (polled sessionIds : List Bytes) : TuiState :=
  let tui := { tui with sessionMenuEntries := polled }.syncSessionMenuFromHost
  ((tui.takeEntries.adoptSession sessionIds).takeToolCall).clearFlight

end Drain

-- `Event::Return` in the chat input, and the job it starts.
def pressEnter (input : Bytes) (blankAllowed : Bool) : TuiState × Option ChatJob :=
  if tui.agentTurnInFlight then (tui, none)
  else
    match tui.pendingToolApproval with
    | some approval =>
      let reply := trim input
      let lowerReply := lowered reply
      let approved := lowerReply ∈ [str "yes", "y"]
      let bareDecline := lowerReply ∈ [str "no", "n", "cancel"]
      let reason := if approved ∨ bareDecline then [] else reply
      let said := if reply = [] then tui else tui.pushChatEntry .user reply
      let told := said.pushChatEntry .info (if approved then "Approved. Running..." else "Declined.")
      ({ told with agentTurnInFlight := true, pendingToolApproval := none },
        some (.toolDecision approved reason approval.sessionId))
    | none =>
      if input = [] ∧ ¬blankAllowed then (tui, none)
      else
        let said := if input = [] then tui else tui.pushChatEntry .user input
        ({ said with agentTurnInFlight := true, pendingNewSession := false },
          some (.turn input tui.pendingNewSession))

-- `Event::n`
def newSession : TuiState :=
  { tui with
    pendingNewSession := true
    currentSessionId := []
    chatEntries := []
    sessionMenuSelected := -1
  }.pushChatEntry .info "Starting a new session on your next message."

-- `Event::e`
def pressErase : TuiState :=
  if tui.currentSessionId = [] then tui.pushChatEntry .info "No active session to erase yet."
  else { tui with deleteConfirmSessionId := some tui.currentSessionId }

-- The popup with the host's answer to the deletion.
def eraseConfirmed (erasedSession result : Bytes) (sessionIds : List Bytes) : TuiState :=
  let tui := { tui with deleteConfirmSessionId := none }
  if extractJsonBoolField result "ok" = some true then
    let erased :=
      if erasedSession = tui.currentSessionId then
        { tui with
          currentSessionId := extractJsonStringField result "new_session_id"
          chatEntries := [] }
      else tui
    (erased.refreshSessionMenuNow sessionIds).pushChatEntry .info <|
      str "Erased session '" ++ erasedSession ++ "'."
  else
    tui.pushChatEntry .error (str "Could not erase session '" ++ erasedSession ++ "'.")

end TuiState

section Bodies

-- The session is the one that is current when the worker comes to write the request.
def turnBody (message : Bytes) (startNewSession : Bool) (currentSessionId : Bytes) : Bytes :=
  jsonObject <| jsonStringField "message" message ::
    if startNewSession then [jsonBoolField "clear" true]
    else if currentSessionId = [] then []
    else [jsonStringField "session_id" currentSessionId]

def decisionBody (approved : Bool) (reason sessionId : Bytes) : Bytes :=
  jsonObject <| jsonBoolField "approved" approved ::
    ((if reason = [] then [] else [jsonStringField "reason" reason]) ++
      if sessionId = [] then [] else [jsonStringField "session_id" sessionId])

def eraseBody (sessionId : Bytes) : Bytes :=
  jsonObject [jsonStringField "session_id" sessionId]

end Bodies

-- The chat worker: it begins with a job, makes its call of the host, puts what the answer says of
-- its session into the hand-off slot, and at last hands over the lines.
inductive Worker
  | idle
  | spawned (job : ChatJob)
  | calling (call : AgentM (Option AgentResponse))
  | answered (results : List ChatEntry)

-- The TUI and the host it is the only client of.
structure System (W : Type) where
  tui : TuiState
  worker : Worker
  host : AgentWorld W

-- What is seen of a step: the jobs, a job that ends without a call of the host, the sessions that
-- messages reach and answers name, and what makes a session the current one.
inductive TuiEvent
  | sent (startNewSession : Bool)
  | decided (sessionId : Bytes)
  | dropped
  | reached (clear : Bool) (sessionId : Bytes)
  | answered (sessionId : Bytes)
  | adopted (sessionId : Bytes)
  | picked (sessionId : Bytes)
  | cleared
  | erased (wasShown : Bool) (newSessionId : Option Bytes)
  | silent
  deriving DecidableEq

def ChatJob.event : ChatJob → TuiEvent
  | turn _ startNewSession     => .sent startNewSession
  | toolDecision _ _ sessionId => .decided sessionId

def hostEvent : Event AgentRes → TuiEvent
  | ⟨.openSession clear _, sessionId⟩ => .reached clear sessionId
  | _                                 => .silent

def ChatJob.call (tools : List Ai.ToolDefinition) (currentSessionId : Bytes) :
    ChatJob → AgentM (Option AgentResponse)
  | turn message startNewSession           =>
    agentTurn tools (turnBody message startNewSession currentSessionId)
  | toolDecision approved reason sessionId =>
    agentToolDecision tools (decisionBody approved reason sessionId)

namespace System

variable {W : Type}

-- The host's history of a session, as the chat panel shows it. The store's model has no times.
def IsHistory (host : AgentWorld W) (sessionId : Bytes) (entries : List ChatEntry) : Prop :=
  ∃ records : List TimedRecord,
    records.map (·.toMemoryRecord) = host.agent.memoryStore.loadSession sessionId ∧
      entries = parseAgentHistoryForResume
        (buildAgentHistoryJson host.agent.currentSessionId (fun _ => records) sessionId)

-- The popup's call of the host. It does not get to the provider.
def eraseSession (os : Os W) (tools : List Ai.ToolDefinition) (host : AgentWorld W)
    (sessionId : Bytes) : Prog.Outcome AgentRes (Option AgentResponse) (AgentWorld W) :=
  (AgentRequest.deleteSession (eraseBody sessionId)).handle os tools (.saying []) host

-- The events of the user, the frames and ticks of the UI thread, the steps of the worker, each of
-- its operations on the host by itself, and whatever else goes on in the host. While the popup is
-- shown, the main component gets no event.
inductive Step (os : Os W) (tools : List Ai.ToolDefinition) (s : System W) :
    TuiEvent → System W → Prop
  | move (selected : Int) (userPicked : Bool) :
    (userPicked → s.tui.deleteConfirmSessionId = none) →
    Step os tools s .silent { s with tui := s.tui.moveSelection selected userPicked }
  | frame {history : Bytes → List ChatEntry} :
    (∀ picked, s.tui.pickedSession = some picked → IsHistory s.host picked (history picked)) →
    Step os tools s (s.tui.pickedSession.elim .silent .picked)
      { s with tui := s.tui.applySessionMenuSelection history }
  | tick (polled sessionIds : List Bytes) :
    s.tui.deleteConfirmSessionId = none →
    Step os tools s (s.tui.handedOver.elim .silent .adopted)
      { s with tui := s.tui.drain polled sessionIds }
  | enter {input : Bytes} {blankAllowed : Bool} {tui : TuiState} {job : ChatJob} :
    s.tui.deleteConfirmSessionId = none →
    s.tui.pressEnter input blankAllowed = (tui, some job) →
    s.worker = .idle →
    Step os tools s job.event { s with tui := tui, worker := .spawned job }
  | newSession :
    s.tui.deleteConfirmSessionId = none →
    Step os tools s .cleared { s with tui := s.tui.newSession }
  | erase :
    s.tui.deleteConfirmSessionId = none →
    Step os tools s .silent { s with tui := s.tui.pressErase }
  | cancel :
    Step os tools s .silent { s with tui := { s.tui with deleteConfirmSessionId := none } }
  | confirm {sessionId : Bytes} {deleted : DeletedSession} (sessionIds : List Bytes) :
    s.tui.deleteConfirmSessionId = some sessionId →
    (eraseSession os tools s.host sessionId).value = some (.deleted deleted) →
    Step os tools s (.erased (deleted.ok ∧ sessionId = s.tui.currentSessionId) deleted.newSessionId)
      { s with
        tui := s.tui.eraseConfirmed sessionId (AgentResponse.deleted deleted).json sessionIds
        host := (eraseSession os tools s.host sessionId).state }
  | drop {message : Bytes} {startNewSession : Bool} (results : List ChatEntry) :
    s.worker = .spawned (.turn message startNewSession) →
    Step os tools s .dropped { s with worker := .answered results }
  | call {job : ChatJob} :
    s.worker = .spawned job →
    Step os tools s .silent { s with worker := .calling (job.call tools s.tui.currentSessionId) }
  | work {o : AgentOp} {k : AgentRes o → AgentM (Option AgentResponse)} (provider : Provider) :
    s.worker = .calling (.op o k) →
    Step os tools s (hostEvent ⟨o, (agentHandler os provider o s.host).1⟩)
      { s with
        worker := .calling (k (agentHandler os provider o s.host).1)
        host := (agentHandler os provider o s.host).2 }
  | ingest {response : AgentResponse} {parsed : ParsedTurn} :
    s.worker = .calling (.ret (some response)) →
    parsed = parseAgentTurnResponse response.json →
    Step os tools s (.answered parsed.sessionId)
      { s with
        tui := { s.tui with chatWork := s.tui.chatWork.ingest parsed }
        worker := .answered parsed.entries }
  | throw (what : Bytes) :
    s.worker = .calling (.ret none) →
    Step os tools s .silent
      { s with worker := .answered [.now .error (str "internal error: " ++ what)] }
  | finish {results : List ChatEntry} :
    s.worker = .answered results →
    Step os tools s .silent
      { s with
        tui := { s.tui with chatWork := s.tui.chatWork.finish results }
        worker := .idle }
  | elsewhere {host : AgentWorld W} :
    host.agent = s.host.agent →
    Step os tools s .silent { s with host := host }

abbrev Run (os : Os W) (tools : List Ai.ToolDefinition) :
    System W → List TuiEvent → System W → Prop :=
  Trace.Run (Step os tools)

-- The beginning: the host is in a session of its own without messages.
structure IsStart (s : System W) : Prop where
  idle : s.worker = .idle
  own  : s.host.agent.currentSessionId ≠ [] ∧ s.host.agent.agentTranscript = []
  tui  : ∃ versionString lastSessionId resumed prompt,
    IsHistory s.host lastSessionId resumed ∧
      s.tui = TuiState.start versionString lastSessionId resumed prompt

end System
end Droidcli.Cli.Tui
