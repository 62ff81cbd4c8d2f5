import Droidcli.Cli.HostTools

namespace Droidcli.Cli

open Bytes Net

-- What the host keeps of its checks of the provider.
structure Watchdog where
  lastCheckUtc : Int
  reachable : Bool
  lastCheckMs : Int
  lastCheckError : Bytes

-- What a tick reads: the settings, the two clocks, and what the request for the tags comes to.
structure WatchdogTick where
  enableAi : Bool
  ollamaUrl : Bytes
  nowUtc : Int
  transportOk : Bool
  statusCode : Int
  checkedAtMs : Int

def WatchdogTick.reachable (tick : WatchdogTick) : Bool :=
  tick.transportOk && 200 ≤ tick.statusCode && tick.statusCode < 300

def kWatchdogIntervalSeconds : Int := 15

-- The verdict, and the time of the last emission. A clock that does not run leaves that alone.
def shouldEmitPeriodicLog (nowUtc lastEmitUtc minIntervalSeconds : Int) : Bool × Int :=
  if nowUtc ≤ 0 then (true, lastEmitUtc)
  else if lastEmitUtc = 0 ∨ minIntervalSeconds ≤ nowUtc - lastEmitUtc then (true, nowUtc)
  else (false, lastEmitUtc)

namespace Watchdog

variable (watchdog : Watchdog)

def initial : Watchdog :=
  ⟨0, true, 0, []⟩

def summary (reachable : Bool) (ollamaUrl : Bytes) : Bytes :=
  if reachable then str "Ollama is reachable again at " ++ ollamaUrl
  else
    str "Ollama became unreachable at " ++ ollamaUrl ++
      str " - agent_turn will keep responding with ok:false rather than hanging or crashing"

-- `tick_watchdog`, and the entry that it appends to the app log.
def tickWatchdog (tick : WatchdogTick) : Watchdog × Option AppLogEntry :=
  if !tick.enableAi then (watchdog, none)
  else
    let (emit, lastCheck) :=
      shouldEmitPeriodicLog tick.nowUtc watchdog.lastCheckUtc kWatchdogIntervalSeconds
    if !emit then (watchdog, none)
    else
      let reachable := tick.reachable
      ({
        lastCheckUtc := lastCheck
        reachable := reachable
        lastCheckMs := tick.checkedAtMs
        lastCheckError :=
          if reachable then [] else str "status_code=" ++ decimalInt tick.statusCode
      }, if reachable ≠ watchdog.reachable then
          some ⟨"watchdog", "ollama", summary reachable tick.ollamaUrl, reachable⟩
        else none)

-- Tick after tick, with the entries of all of them.
def ticks : Watchdog → List WatchdogTick → Watchdog × List AppLogEntry
  | watchdog, [] => (watchdog, [])
  | watchdog, tick :: rest =>
    let (watchdog, entry) := watchdog.tickWatchdog tick
    let (watchdog, logged) := watchdog.ticks rest
    (watchdog, entry.toList ++ logged)

end Watchdog

-- The watchdog's part of the host.
def HostState.watched (host : HostState) (watchdog : Watchdog) : HostState :=
  { host with
    ollamaReachable := watchdog.reachable
    ollamaLastCheckMs := watchdog.lastCheckMs
    ollamaLastCheckError := watchdog.lastCheckError }

end Droidcli.Cli
