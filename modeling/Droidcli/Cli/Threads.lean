import Droidcli.Cli.Locking
import Droidcli.Lib.LockOrder

namespace Droidcli.Cli

open Bytes LockOrder Interaction

-- The mutexes of the TUI, `polled.mutex` and `chat_work.mutex`, and the one of the host. The one of
-- `ProcessManager` is left out: nothing is locked or joined while it is held.
inductive Mutex
  | polled
  | chatWork
  | host
  deriving DecidableEq

-- The threads of the program. Every Enter that starts a chat worker starts a new one, and the first
-- one is the thread object that has not been assigned yet.
inductive ThreadId
  | main
  | server
  | poller
  | spinnerTicker
  | chatWorker (n : Nat)
  deriving DecidableEq

-- What the TUI branches on, as far as a branch matters to a mutex or a thread.
inductive TuiCondition
  | sessionHandedOver
  | modelPicked
  | sessionPicked
  | sessionEmpty
  | turnInFlight
  | approvalPending
  | hasReply
  | emptyInput
  | blankAllowed
  | connectorSelected
  | hasCurrentSession
  | sessionErased
  | hasLastSession
  | hasSetupPrompt
  | needsInstall
  | installAsked
  | needsStart
  | startAsked
  | needsModel
  | modelResolved
  | pullAsked
  | namesSession
  deriving DecidableEq

inductive ThreadAsk
  | whether (c : TuiCondition)
  | host (q : HostAsk)
  deriving DecidableEq

@[reducible]
def ThreadAns : ThreadAsk → Type
  | .whether _ => Bool
  | .host q    => HostAns q

abbrev TuiM := ThreadM Mutex ThreadId ThreadAns

def holds (c : TuiCondition) : TuiM Bool :=
  ask (ThreadAsk.whether c)

-- A call of the host, whose lock is one of the mutexes here.
def hostOp : (o : Locking.LockOp HostAsk) → TuiM (Locking.LockRes HostAns o)
  | .acquire => acquire .host
  | .release => release .host
  | .ask q   => ask (ThreadAsk.host q)

def onHost {α : Type} (p : HostM α) : TuiM α :=
  p.interpret hostOp

namespace Tui

def pushChatEntry : TuiM Unit :=
  onHost DroidHost.logChatEntry

-- `core::spawn` reports the start of a thread in front of it, and its end in the thread.
def spawnReported (j : ThreadId) : TuiM Unit := do
  onHost DroidHost.logThreadEvent
  spawn j

def reported (p : TuiM Unit) : TuiM Unit := do
  p
  onHost DroidHost.logThreadEvent

section Events

def refreshSessionMenu : TuiM Unit :=
  onHost DroidHost.buildAgentSessionsJson

-- `Event::Custom`. The hand-off slot is held to the end of the handler.
def onCustom : TuiM Unit := do
  locked .polled (return ())
  onHost DroidHost.activeModelName
  locked .chatWork do
    if ← holds .sessionHandedOver then refreshSessionMenu

def onFrame : TuiM Unit := do
  if ← holds .modelPicked then
    onHost DroidHost.updateOllamaConfig
    pushChatEntry
  if ← holds .sessionPicked then
    onHost DroidHost.buildAgentHistoryJson
    if ← holds .sessionEmpty then pushChatEntry

def startChatWorker (worker : Nat) : TuiM Nat := do
  join (.chatWorker worker)
  spawnReported (.chatWorker (worker + 1))
  return worker + 1

-- `Event::Return`. The value is the chat worker's number from then on.
def onReturn (worker : Nat) : TuiM Nat := do
  if ← holds .turnInFlight then return worker
  else if ← holds .approvalPending then
    if ← holds .hasReply then pushChatEntry
    pushChatEntry
    startChatWorker worker
  else if ← holds .emptyInput then
    onHost DroidHost.ollamaSetupStatusJson
    if ← holds .blankAllowed then startChatWorker worker
    else return worker
  else startChatWorker worker

def onConnectorKey (method : HostM Unit) : TuiM Unit := do
  if ← holds .connectorSelected then onHost method

def onErase : TuiM Unit := do
  if ← holds .hasCurrentSession then return ()
  else pushChatEntry

-- The popup's call, of a method that is one of the agent's.
def onEraseConfirmed (tools : List Ai.ToolDefinition) (body : Bytes) : TuiM Unit := do
  onHost (DroidHost.serveAgent tools (.deleteSession body))
  if ← holds .sessionErased then refreshSessionMenu
  pushChatEntry

end Events

inductive UiEvent
  | custom
  | frame
  | enter
  | launch
  | stop
  | copy
  | newSession
  | erase
  | eraseConfirmed (body : Bytes)

def onEvent (tools : List Ai.ToolDefinition) (worker : Nat) : UiEvent → TuiM Nat
  | .custom              => do onCustom; return worker
  | .frame               => do onFrame; return worker
  | .enter               => onReturn worker
  | .launch              => do onConnectorKey DroidHost.launchConnector; return worker
  | .stop                => do onConnectorKey DroidHost.stopConnector; return worker
  | .copy                => do pushChatEntry; return worker
  | .newSession          => do pushChatEntry; return worker
  | .erase               => do onErase; return worker
  | .eraseConfirmed body => do onEraseConfirmed tools body; return worker

def loop (tools : List Ai.ToolDefinition) : Nat → List UiEvent → TuiM Nat
  | worker, []              => return worker
  | worker, event :: events => do
    let worker ← onEvent tools worker event
    loop tools worker events

def runTui (tools : List Ai.ToolDefinition) (events : List UiEvent) : TuiM Unit := do
  pushChatEntry
  if ← holds .hasLastSession then onHost DroidHost.buildAgentHistoryJson
  onHost DroidHost.ollamaSetupStatusJson
  if ← holds .hasSetupPrompt then pushChatEntry
  spawnReported .spinnerTicker
  spawnReported .poller
  let worker ← loop tools 0 events
  join .poller
  join .spinnerTicker
  join (.chatWorker worker)

section Poller

-- A round of the poller, for that many connectors.
def pollRound (connectors : Nat) : TuiM Unit := do
  onHost DroidHost.listConnectorsJson
  (List.replicate connectors DroidHost.connectorStatusJson).forM onHost
  onHost DroidHost.listTasksJson
  onHost DroidHost.buildAppLogJson
  onHost DroidHost.listKnownLocationsJson
  onHost DroidHost.buildOllamaStatusJson
  onHost DroidHost.buildAgentSessionsJson
  locked .polled (return ())

end Poller

section ChatWorker

inductive WorkerJob
  | turn (body : Bytes)
  | toolDecision (body : Bytes)

def ingestAgentResponse : TuiM Unit := do
  if ← holds .namesSession then locked .chatWork (return ())

def runChatTurn (tools : List Ai.ToolDefinition) (body : Bytes) : TuiM Unit := do
  onHost DroidHost.ollamaSetupStatusJson
  if ← holds .needsInstall then
    if ← holds .installAsked then onHost DroidHost.installOllama
  else if ← holds .needsStart then
    if ← holds .startAsked then onHost DroidHost.startOllama
  else if ← holds .needsModel then
    if ← holds .modelResolved then onHost DroidHost.updateOllamaConfig
    else if ← holds .pullAsked then onHost DroidHost.pullOllamaModel
  else
    onHost (DroidHost.serveAgent tools (.turn body))
    ingestAgentResponse

def runToolDecision (tools : List Ai.ToolDefinition) (body : Bytes) : TuiM Unit := do
  onHost (DroidHost.serveAgent tools (.toolDecision body))
  ingestAgentResponse

-- Either way, the lines are handed over at the end.
def WorkerJob.run (tools : List Ai.ToolDefinition) : WorkerJob → TuiM Unit
  | turn body         => do runChatTurn tools body; locked .chatWork (return ())
  | toolDecision body => do runToolDecision tools body; locked .chatWork (return ())

end ChatWorker
end Tui

-- What the program is going to do: the connectors that it loads, the events of the terminal, the
-- rounds of the poller and of the server, each with the call of the host that a request comes to,
-- and the jobs of the chat workers.
structure Session where
  connectors : Nat
  events : List Tui.UiEvent
  polls : List Nat
  requests : List (Option HostCall)
  jobs : Nat → Tui.WorkerJob

def serverRound (tools : List Ai.ToolDefinition) (request : Option HostCall) : TuiM Unit := do
  match request with
  | some call => onHost (call.locking tools)
  | none      => pure ()
  onHost DroidHost.tick

-- `main`, as far as it runs the TUI.
def mainThread (tools : List Ai.ToolDefinition) (session : Session) : TuiM Unit := do
  onHost DroidHost.configure
  onHost DroidHost.initializeHost
  (List.replicate session.connectors DroidHost.registerConnector).forM onHost
  spawn .server
  Tui.runTui tools session.events
  join .server
  onHost DroidHost.listConnectorsJson

def Session.threads (tools : List Ai.ToolDefinition) (session : Session) : ThreadId → TuiM Unit
  | .main          => mainThread tools session
  | .server        => session.requests.forM (serverRound tools)
  | .poller        => Tui.reported (session.polls.forM Tui.pollRound)
  | .spinnerTicker => Tui.reported (return ())
  | .chatWorker n  => Tui.reported ((session.jobs n).run tools)

def Session.crew (tools : List Ai.ToolDefinition) (session : Session) :
    Crew Mutex ThreadId ThreadAns where
  owner _ := none
  started i := i = .main
  threads := session.threads tools

end Droidcli.Cli
