import Droidcli.Cli.AgentTurn
import Droidcli.Cli.HostTools
import Droidcli.Cli.HttpMount
import Droidcli.Lib.Locking

namespace Droidcli.Cli

open Bytes Locking Interaction

-- What the methods of `DroidHost` branch on, as far as a branch matters to the lock.
inductive Condition
  | memoryStoreOpens
  | enableAi
  | hasNotifyMessage
  | watchdogDue
  | reachabilityChanged
  | wingetAvailable
  | ollamaLaunched
  | hasModel
  | modelPulled
  | connectorParsed
  | connectorFound
  | isLaunchedProcess
  | isHttpPeer
  | connectorEnabled
  | taskParsed
  | taskClaimed
  | commandIsRun
  | commandIsLaunch
  | commandIsStop
  | hasConnectorId
  | missingField
  | placeholderPath
  | inventedDesktopPath
  | mismatchedBinaryContent
  | pathMissing
  | givenPath
  | inAppPathsRegistry
  | inInstalledApps
  deriving DecidableEq

inductive HostAsk
  | whether (c : Condition)
  | agent (o : AgentOp)
  deriving DecidableEq

@[reducible]
def HostAns : HostAsk → Type
  | .whether _ => Bool
  | .agent o   => AgentRes o

-- A method of the host, reduced to what it does around `mutex_`. Its surroundings decide every
-- branch, and answer every question, in any way.
abbrev HostM := LockM HostAns

def whether (c : Condition) : HostM Bool :=
  ask (HostAsk.whether c)

def consult (o : AgentOp) : HostM (AgentRes o) :=
  ask (HostAsk.agent o)

namespace DroidHost

section Log

def appendAppLog : HostM Unit :=
  locked (return ())

-- A method that answers at once where one of its guards holds, and logs what it did otherwise.
def loggedUnless : List Condition → HostM Unit
  | []              => appendAppLog
  | guard :: guards => do
    if ← whether guard then return ()
    loggedUnless guards

def logChatEntry : HostM Unit :=
  appendAppLog

def logThreadEvent : HostM Unit :=
  appendAppLog

end Log

section Lifecycle

def configure : HostM Unit :=
  locked (return ())

-- `DroidHost::initialize`.
def initializeHost : HostM Unit := do
  locked do
    let opened ← whether .memoryStoreOpens
    if ¬opened then appendAppLog
  appendAppLog

def session : HostM Unit :=
  return ()

def makeHandlerContext : HostM Unit :=
  return ()

def onNotify : HostM Unit :=
  return ()

-- The handlers of the route table see a copy of the session and the language runtime only.
def dispatchRoute : HostM Unit :=
  locked do
    makeHandlerContext
    let hasNotifyMessage ← whether .hasNotifyMessage
    if hasNotifyMessage then onNotify

def buildNotifyLogJson : HostM Unit :=
  locked (return ())

def buildStatusJson : HostM Unit :=
  locked (return ())

def buildConfigJson : HostM Unit :=
  locked (return ())

def activeModelName : HostM Unit :=
  locked (return ())

def persistCurrentSettingsLocked : HostM Unit :=
  return ()

def updateConfig : HostM Unit :=
  locked persistCurrentSettingsLocked

def buildAppLogJson : HostM Unit :=
  locked (return ())

def buildNetworkStatusJson : HostM Unit :=
  locked (return ())

def tickWatchdog : HostM Unit := do
  if ← whether .enableAi then
    if ← whether .watchdogDue then
      locked (return ())
      let changed ← locked (whether .reachabilityChanged)
      if changed then appendAppLog

end Lifecycle

section Ollama

def buildOllamaStatusJson : HostM Unit :=
  locked (return ())

def updateOllamaConfig : HostM Unit :=
  locked do
    if ← whether .hasModel then persistCurrentSettingsLocked

def ollamaSetupStatusJson : HostM Unit :=
  locked (return ())

def installOllama : HostM Unit := do
  if ← whether .wingetAvailable then appendAppLog

def startOllama : HostM Unit := do
  let launched ← whether .ollamaLaunched
  if ¬launched then appendAppLog
  else
    locked (return ())
    appendAppLog

def pullOllamaModel : HostM Unit := do
  if ← whether .hasModel then
    appendAppLog
    if ← whether .modelPulled then updateOllamaConfig

end Ollama

section Connectors

def registerConnector : HostM Unit := do
  if ← whether .connectorParsed then locked (return ())

def unregisterConnector : HostM Unit :=
  locked (return ())

def listConnectorsJson : HostM Unit :=
  locked (return ())

def connectorStatusJson : HostM Unit := do
  let _ ← locked (whether .connectorFound)

def launchConnector : HostM Unit := do
  if ← locked (whether .connectorFound) then
    if ← whether .isLaunchedProcess then appendAppLog

def stopConnector : HostM Unit :=
  appendAppLog

def callConnector : HostM Unit := do
  if ← locked (whether .connectorFound) then
    if ← whether .isHttpPeer then
      if ← whether .connectorEnabled then appendAppLog

def buildProcessStatusJson : HostM Unit :=
  return ()

end Connectors

section Commands

def runCommand : HostM Unit :=
  loggedUnless [.missingField, .placeholderPath]

def runFfmpegJson : HostM Unit :=
  loggedUnless [.missingField, .placeholderPath]

end Commands

section Applications

def resolveOpenApplicationTarget : HostM Unit := do
  if ← whether .givenPath then return ()
  if ← whether .inAppPathsRegistry then return ()
  locked (return ())
  if ← whether .inInstalledApps then return ()
  locked (return ())

def openApplication : HostM Unit := do
  if ← whether .missingField then return ()
  resolveOpenApplicationTarget
  appendAppLog

def findApplicationsJson : HostM Unit :=
  locked (return ())

def listOpenWindowsJson : HostM Unit :=
  return ()

def precheckAndResolveGatedCall (toolName : Bytes) : HostM Unit := do
  if toolName = str "open_application" then
    if ← whether .missingField then return ()
    resolveOpenApplicationTarget

end Applications

section Files

def readFile : HostM Unit :=
  loggedUnless [.placeholderPath, .inventedDesktopPath]

def writeFile : HostM Unit :=
  loggedUnless [.placeholderPath, .inventedDesktopPath, .mismatchedBinaryContent]

def listDir : HostM Unit :=
  appendAppLog

def statPath : HostM Unit :=
  return ()

def getCwdJson : HostM Unit :=
  return ()

def whichExecutableJson : HostM Unit :=
  return ()

def copyFileJson : HostM Unit :=
  loggedUnless [.placeholderPath, .inventedDesktopPath]

def movePathJson : HostM Unit :=
  loggedUnless [.placeholderPath, .inventedDesktopPath]

def deleteFileJson : HostM Unit :=
  loggedUnless [.placeholderPath, .inventedDesktopPath]

def createDirectoryJson : HostM Unit :=
  loggedUnless [.placeholderPath, .inventedDesktopPath]

def readClipboardJson : HostM Unit :=
  return ()

def writeClipboardJson : HostM Unit :=
  appendAppLog

def buildSystemInfoJson : HostM Unit :=
  return ()

def buildHardwareInfoJson : HostM Unit :=
  return ()

end Files

section Memory

def recordCommandFixJson : HostM Unit :=
  loggedUnless [.missingField]

def searchCommandFixesJson : HostM Unit :=
  return ()

def rememberLocationJson : HostM Unit :=
  loggedUnless [.missingField, .placeholderPath, .pathMissing]

def listKnownLocationsJson : HostM Unit :=
  return ()

def buildAgentHistoryJson : HostM Unit :=
  locked (return ())

def buildAgentSessionsJson : HostM Unit :=
  locked (return ())

end Memory

section Tasks

def enqueueTask : HostM Unit := do
  if ← whether .taskParsed then locked (return ())

def listTasksJson : HostM Unit :=
  locked (return ())

def taskStatusJson : HostM Unit :=
  locked (return ())

def cancelTaskJson : HostM Unit :=
  locked (return ())

def dispatchTask : HostM Unit := do
  if ← whether .commandIsRun then runCommand
  else if ← whether .commandIsLaunch then launchConnector
  else if ← whether .commandIsStop then stopConnector
  else if ← whether .hasConnectorId then callConnector

def tickTasks : HostM Unit := do
  if ← locked (whether .taskClaimed) then
    dispatchTask
    locked (return ())
    appendAppLog

def tick : HostM Unit := do
  tickWatchdog
  tickTasks

def buildSelfStatusJson : HostM Unit :=
  locked (return ())

end Tasks

section Agent

def buildAgentToolsJson : HostM Unit :=
  return ()

def listWindowsLocations : HostM Unit :=
  locked (return ())

-- The methods that `execute_agent_tool` tells apart by name. Any other name is answered at once.
def toolMethods : List (String × HostM Unit) := [
  ("list_connectors", listConnectorsJson),
  ("connector_status", connectorStatusJson),
  ("launch_connector", launchConnector),
  ("stop_connector", stopConnector),
  ("call_connector", callConnector),
  ("enqueue_task", enqueueTask),
  ("list_tasks", listTasksJson),
  ("cancel_task", cancelTaskJson),
  ("run_command", runCommand),
  ("find_application", findApplicationsJson),
  ("list_open_windows", listOpenWindowsJson),
  ("list_windows_locations", listWindowsLocations),
  ("open_application", openApplication),
  ("read_file", readFile),
  ("write_file", writeFile),
  ("list_dir", listDir),
  ("stat_path", statPath),
  ("get_cwd", getCwdJson),
  ("which", whichExecutableJson),
  ("copy_file", copyFileJson),
  ("move_path", movePathJson),
  ("delete_file", deleteFileJson),
  ("create_directory", createDirectoryJson),
  ("read_clipboard", readClipboardJson),
  ("write_clipboard", writeClipboardJson),
  ("get_system_info", buildSystemInfoJson),
  ("run_ffmpeg", runFfmpegJson),
  ("get_hardware_info", buildHardwareInfoJson),
  ("self_status", buildSelfStatusJson),
  ("search_command_fixes", searchCommandFixesJson),
  ("remember_location", rememberLocationJson),
  ("get_known_locations", listKnownLocationsJson),
  ("record_command_fix", recordCommandFixJson)
]

def executeAgentTool (toolName : Bytes) : HostM Unit :=
  match toolMethods.find? (str ·.1 = toolName) with
  | some (_, method) => method
  | none             => return ()

-- What each atomic step of the agent's methods does around the lock. The telemetry line behind
-- the attempts of a classification names the model, and so reads it.
def agentOp : (o : AgentOp) → HostM (AgentRes o)
  | .openSession clear sessionId => locked (consult (.openSession clear sessionId))
  | .abandonPending sessionId    => locked (consult (.abandonPending sessionId))
  | .takePending sessionId       => locked (consult (.takePending sessionId))
  | .pause pending               => locked (consult (.pause pending))
  | .record sessionId role text  => locked (consult (.record sessionId role text))
  | .log entry                   => locked (consult (.log entry))
  | .aiEnabled                   => consult .aiEnabled
  | .seedPrompt                  => locked (consult .seedPrompt)
  | .transcript                  => locked (consult .transcript)
  | .makeModelProvider           => locked (consult .makeModelProvider)
  | .post call                   => consult (.post call)
  | .elapsedMs                   => do
    let wallClockMs ← consult .elapsedMs
    activeModelName
    return wallClockMs
  | .executeTool toolName argumentsJson => do
    executeAgentTool toolName
    consult (.executeTool toolName argumentsJson)
  | .precheck call => do
    precheckAndResolveGatedCall call.name
    consult (.precheck call)
  | .deleteSession sessionId => locked (consult (.deleteSession sessionId))

-- The agent's methods take the lock where their steps do.
def serveAgent (tools : List Ai.ToolDefinition) (request : AgentRequest) : HostM Unit := do
  let _ ← (request.serve tools).interpret agentOp

end Agent
end DroidHost

-- What a method that the gateway calls does around the lock.
def HostCall.locking (tools : List Ai.ToolDefinition) : HostCall → HostM Unit
  | buildStatusJson             => DroidHost.buildStatusJson
  | buildNetworkStatusJson      => DroidHost.buildNetworkStatusJson
  | buildConfigJson             => DroidHost.buildConfigJson
  | updateConfig _              => DroidHost.updateConfig
  | buildNotifyLogJson          => DroidHost.buildNotifyLogJson
  | buildAppLogJson             => DroidHost.buildAppLogJson
  | buildOllamaStatusJson       => DroidHost.buildOllamaStatusJson
  | updateOllamaConfig _        => DroidHost.updateOllamaConfig
  | ollamaSetupStatusJson       => DroidHost.ollamaSetupStatusJson
  | installOllama               => DroidHost.installOllama
  | startOllama                 => DroidHost.startOllama
  | pullOllamaModel _           => DroidHost.pullOllamaModel
  | buildProcessStatusJson      => DroidHost.buildProcessStatusJson
  | runCommand _                => DroidHost.runCommand
  | runFfmpegJson _             => DroidHost.runFfmpegJson
  | openApplication _           => DroidHost.openApplication
  | findApplicationsJson _      => DroidHost.findApplicationsJson
  | listOpenWindowsJson         => DroidHost.listOpenWindowsJson
  | readFile _                  => DroidHost.readFile
  | writeFile _                 => DroidHost.writeFile
  | listDir _                   => DroidHost.listDir
  | statPath _                  => DroidHost.statPath
  | getCwdJson                  => DroidHost.getCwdJson
  | whichExecutableJson _       => DroidHost.whichExecutableJson
  | copyFileJson _              => DroidHost.copyFileJson
  | movePathJson _              => DroidHost.movePathJson
  | deleteFileJson _            => DroidHost.deleteFileJson
  | createDirectoryJson _       => DroidHost.createDirectoryJson
  | readClipboardJson           => DroidHost.readClipboardJson
  | writeClipboardJson _        => DroidHost.writeClipboardJson
  | buildSystemInfoJson         => DroidHost.buildSystemInfoJson
  | buildHardwareInfoJson       => DroidHost.buildHardwareInfoJson
  | buildAgentToolsJson         => DroidHost.buildAgentToolsJson
  | buildSelfStatusJson         => DroidHost.buildSelfStatusJson
  | agentTurn body              => DroidHost.serveAgent tools (.turn body)
  | agentToolDecision body      => DroidHost.serveAgent tools (.toolDecision body)
  | recordCommandFixJson _      => DroidHost.recordCommandFixJson
  | searchCommandFixesJson _    => DroidHost.searchCommandFixesJson
  | rememberLocationJson _      => DroidHost.rememberLocationJson
  | listKnownLocationsJson      => DroidHost.listKnownLocationsJson
  | buildAgentHistoryJson _     => DroidHost.buildAgentHistoryJson
  | buildAgentSessionsJson      => DroidHost.buildAgentSessionsJson
  | deleteAgentSessionJson body => DroidHost.serveAgent tools (.deleteSession body)
  | listConnectorsJson          => DroidHost.listConnectorsJson
  | registerConnector _         => DroidHost.registerConnector
  | connectorStatusJson _       => DroidHost.connectorStatusJson
  | launchConnector _           => DroidHost.launchConnector
  | stopConnector _             => DroidHost.stopConnector
  | callConnector _ _ _ _       => DroidHost.callConnector
  | listTasksJson               => DroidHost.listTasksJson
  | enqueueTask _               => DroidHost.enqueueTask
  | taskStatusJson _            => DroidHost.taskStatusJson
  | cancelTaskJson _            => DroidHost.cancelTaskJson

-- The public methods of `DroidHost`: those that the gateway calls, and the others.
inductive HostMethod
  | call (c : HostCall)
  | configure
  | initializeHost
  | tick
  | tickTasks
  | session
  | makeHandlerContext
  | dispatchRoute
  | activeModelName
  | onNotify
  | unregisterConnector
  | logChatEntry
  | logThreadEvent

def HostMethod.locking (tools : List Ai.ToolDefinition) : HostMethod → HostM Unit
  | call c              => c.locking tools
  | configure           => DroidHost.configure
  | initializeHost      => DroidHost.initializeHost
  | tick                => DroidHost.tick
  | tickTasks           => DroidHost.tickTasks
  | session             => DroidHost.session
  | makeHandlerContext  => DroidHost.makeHandlerContext
  | dispatchRoute       => DroidHost.dispatchRoute
  | activeModelName     => DroidHost.activeModelName
  | onNotify            => DroidHost.onNotify
  | unregisterConnector => DroidHost.unregisterConnector
  | logChatEntry        => DroidHost.logChatEntry
  | logThreadEvent      => DroidHost.logThreadEvent

-- The threads of the daemon in front of `mutex_`, each with the methods that it is going to call.
def hostThreads {ι : Type} (tools : List Ai.ToolDefinition) (calls : ι → List HostMethod) :
    Crew HostAns ι where
  owner := none
  threads i := (calls i).forM (HostMethod.locking tools)

-- The answer of a memory store that could not be opened.
def memoryStoreFails : Event (LockRes HostAns) :=
  ⟨.ask (.whether .memoryStoreOpens), false⟩

end Droidcli.Cli
