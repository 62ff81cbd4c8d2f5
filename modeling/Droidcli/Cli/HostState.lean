import Droidcli.App.Tasks
import Droidcli.Net.Connector

namespace Droidcli.Cli

open Bytes Net App

structure HostConfig where
  enableAi : Bool
  ollamaUrl : Bytes
  ollamaModel : Bytes
  ollamaNumCtx : Int
  systemPrompt : Bytes

structure InstalledApp where
  name : Bytes
  path : Bytes

structure WindowsLocationEntry where
  aliasName : Bytes
  displayName : Bytes
  pathOrName : Bytes
  args : Bytes

structure AppLogEntry where
  channel : Bytes
  direction : Bytes
  summary : Bytes
  success : Bool
  deriving DecidableEq

-- The part of `DroidHost` that its tools work on. The agent's own part is `AgentState`.
structure HostState where
  config : HostConfig
  desktopPath : Bytes
  installedApps : List InstalledApp
  windowsLocations : List WindowsLocationEntry
  connectors : List Connector
  tasks : TaskQueue
  ollamaReachable : Bool
  ollamaLastCheckMs : Int
  ollamaLastCheckError : Bytes
  memoryStoreOpen : Bool

def kMaxAppLogEntries : Nat := 256

def appendAppLog (appLog : List AppLogEntry) (entry : AppLogEntry) : List AppLogEntry :=
  let appLog := appLog ++ [entry]
  if kMaxAppLogEntries < appLog.length then appLog.tail else appLog

structure CommandRunResult where
  launched : Bool
  exitCode : Int
  stdoutText : Bytes
  stderrText : Bytes
  errorMessage : Bytes

structure LaunchAppResult where
  launched : Bool
  pid : Int
  resolvedPath : Bytes
  errorMessage : Bytes

structure ProcessInfo where
  key : Bytes
  pid : Int
  running : Bool
  statusText : Bytes

-- What the host asks of the machine it runs on. `W` is the world outside of the host, and nothing
-- is known about it: every answer may be any value of its type, and may change the world.
structure Os (W : Type) where
  makeFullLogTimestamp : W → Bytes
  sessionTimestamp : W → Bytes
  stackAddress : W → Nat
  currentTimestampMs : W → Int
  elapsedMs : W → Int
  passTime : W → W
  runCommandOnce : Bytes → Bytes → Int → W → CommandRunResult × W
  runFfmpeg : Bytes → Bytes → Int → W → CommandRunResult × W
  launchApplication : Bytes → Bytes → Bytes → W → LaunchAppResult × W
  launch : Connector → W → (Bool × Bytes) × W
  stop : Bytes → W → (Bool × Bytes) × W
  snapshot : W → List ProcessInfo
  syncHttpGet : Bytes → W → Option (Int × Bytes) × W
  syncHttpPostJson : Bytes → Bytes → W → Option (Int × Bytes) × W
  resolveAppPathsRegistry : Bytes → W → Bytes
  resolveSystemExecutable : Bytes → W → Bytes
  whichExecutable : Bytes → W → Option Bytes
  isRegularFile : Bytes → W → Bool
  absolutePath : Bytes → W → Option Bytes
  -- The tools that only talk to the machine: files, clipboard, windows, hardware, and the tables
  -- of the memory store that hold no messages. They answer with a result and log entries.
  osTool : Bytes → Bytes → W → (Bytes × List AppLogEntry) × W

-- A machine with nothing on it, where whatever is asked for succeeds at once.
def Os.idle : Os Unit where
  makeFullLogTimestamp _ := "1970-01-01 00:00:00"
  sessionTimestamp _ := "19700101T000000"
  stackAddress _ := 0
  currentTimestampMs _ := 0
  elapsedMs _ := 0
  passTime _ := ()
  runCommandOnce _ _ _ _ := (⟨true, 0, [], [], []⟩, ())
  runFfmpeg _ _ _ _ := (⟨true, 0, [], [], []⟩, ())
  launchApplication _ _ _ _ := (⟨true, 1, [], []⟩, ())
  launch _ _ := ((true, []), ())
  stop _ _ := ((true, []), ())
  snapshot _ := []
  syncHttpGet _ _ := (some (200, []), ())
  syncHttpPostJson _ _ _ := (some (200, []), ())
  resolveAppPathsRegistry _ _ := []
  resolveSystemExecutable _ _ := []
  whichExecutable _ _ := none
  isRegularFile _ _ := false
  absolutePath _ _ := none
  osTool _ _ _ := ((jsonObject [jsonBoolField "ok" true], []), ())

-- A machine on which every command comes back with an error code.
def Os.failing : Os Unit :=
  { Os.idle with runCommandOnce := fun _ _ _ _ => (⟨true, 1, [], [], []⟩, ()) }

-- A host as it starts, without a desktop or anything registered.
def HostState.initial : HostState where
  config := ⟨true, "http://127.0.0.1:11434", "llama3.2", 32768, []⟩
  desktopPath := []
  installedApps := []
  windowsLocations := []
  connectors := []
  tasks := ⟨[], 0⟩
  ollamaReachable := false
  ollamaLastCheckMs := 0
  ollamaLastCheckError := []
  memoryStoreOpen := true

end Droidcli.Cli
