import Droidcli.Ai.OpenAICompatClient
import Droidcli.Cli.SettingsStore
import Droidcli.Net.Connector

namespace Droidcli.Cli

open Bytes

-- What follows the first occurrence of a flag that is not the last argument.
def flagValue (flag : Bytes) : List Bytes → Option Bytes
  | arg :: value :: args => if arg = flag then some value else flagValue flag (value :: args)
  | _                    => none

def isSpace (c : UInt8) : Bool :=
  c = space || (tab ≤ c && c ≤ cr)

def int32Min : Int := -2 ^ 31
def int32Max : Int := 2 ^ 31 - 1

-- `std::atoi` on a whole argument. The language leaves open what it makes of a number that is no
-- `int`.
def atoiArgument (overflow : Bytes → Int32) (s : Bytes) : Int32 :=
  let text := s.dropWhile isSpace
  let negative := text.head? = some minus
  let digits := if negative ∨ text.head? = some 0x2b then text.tail else text
  let magnitude := Net.digitsValue (digits.takeWhile isDigit)
  let n : Int := if negative then -magnitude else magnitude
  if int32Min ≤ n ∧ n ≤ int32Max then Int32.ofInt n else overflow s

-- What a start of the program depends on beyond its arguments. The variable is
-- `DROIDCLI_API_TOKEN`, and the entropy that of `generate_random_token`.
structure Surroundings where
  dpapi : Option Dpapi
  overflow : Bytes → Int32
  files : Bytes → Option Bytes
  written : WriteResult
  envValue : Option Bytes
  entropy : Vector UInt8 32

-- The first argument is the name of the program, where nothing looks for flags.
def parsePort (overflow : Bytes → Int32) (argv : List Bytes) (defaultPort : Int32) : Int32 :=
  match flagValue "--port" argv.tail with
  | some value => max 1 (atoiArgument overflow value)
  | none       => defaultPort

def parseStringArg (argv : List Bytes) (flag defaultValue : Bytes) : Bytes :=
  (flagValue flag argv.tail).getD defaultValue

def hasFlag (argv : List Bytes) (flag : Bytes) : Bool :=
  flag ∈ argv.tail

def resolveSettingString (argv : List Bytes) (flag settingsValue defaultValue : Bytes) : Bytes :=
  match flagValue flag argv.tail with
  | some value => value
  | none       => if settingsValue ≠ [] then settingsValue else defaultValue

def resolveSettingInt (overflow : Bytes → Int32) (argv : List Bytes) (flag : Bytes)
    (settingsValue defaultValue : Int32) : Int32 :=
  match flagValue flag argv.tail with
  | some value => atoiArgument overflow value
  | none       => if settingsValue > 0 then settingsValue else defaultValue

def generateRandomToken (entropy : Vector UInt8 32) : Bytes :=
  hexEncode entropy.toList

def resolveApiToken (argv : List Bytes) (around : Surroundings) (settingsToken : Bytes) : Bytes :=
  let flagValue := parseStringArg argv "--token" []
  if flagValue ≠ [] then flagValue
  else if around.envValue.getD [] ≠ [] then around.envValue.getD []
  else if settingsToken ≠ [] then settingsToken
  else generateRandomToken around.entropy

def settingsPath (argv : List Bytes) : Bytes :=
  parseStringArg argv "--settings" "db/droidcli_settings.json"

-- The settings that `main` resolves and saves. There are none when it stops before, to show its
-- usage or its version or at an exception.
def resolvedSettings (argv : List Bytes) (around : Surroundings) : Option HostSettings :=
  if hasFlag argv "--help" || hasFlag argv "-h" then none
  else if hasFlag argv "--version" || hasFlag argv "-v" then none
  else do
    let file := around.files (settingsPath argv)
    let (_, settings) ← loadSettings around.dpapi file .initial
    return {
      port := parsePort around.overflow argv settings.port
      enableAi := !hasFlag argv "--no-ai"
      enableHardwareScan := hasFlag argv "--enable-hardware-scan" || settings.enableHardwareScan
      ollamaUrl :=
        resolveSettingString argv "--ollama-url" settings.ollamaUrl "http://127.0.0.1:11434"
      ollamaModel := resolveSettingString argv "--ollama-model" settings.ollamaModel "llama3.2"
      ollamaNumCtx :=
        resolveSettingInt around.overflow argv "--ollama-num-ctx" settings.ollamaNumCtx 32768
      apiToken := resolveApiToken argv around settings.apiToken
    }

-- The files as they are once the settings are saved. What `save_settings` returns is not looked at.
def savedFiles (argv : List Bytes) (around : Surroundings) (settings : HostSettings) :
    Bytes → Option Bytes :=
  let path := settingsPath argv
  let (_, file) := saveSettings around.dpapi settings around.written (around.files path)
  Function.update around.files path file

-- The command line of an installed service.
def serviceArgs (executable path : Bytes) : List Bytes :=
  [executable, "--service", "--headless", "--settings", path]

section State

open Net

-- The same loop as that of `extract_json_object_array_at`.
def extractConnectorObjects (json : Bytes) : List Bytes :=
  match Ai.afterArrayKey json "connectors" with
  | some text => Ai.extractJsonObjectArray text
  | none      => []

-- The host parses each entry once more before it registers it.
def loadConnector (connectors : List Connector) (objectJson : Bytes) : List Connector :=
  match parseConnectorFromJson objectJson with
  | .ok connector => registerConnector connectors connector
  | .error _      => connectors

def loadConnectorsFromConfig (content : Bytes) (connectors : List Connector) : List Connector :=
  (extractConnectorObjects content).foldl loadConnector connectors

-- There may be no state yet.
def loadStateIfPresent (state : Option Bytes) (connectors : List Connector) : List Connector :=
  match state with
  | some content => loadConnectorsFromConfig content connectors
  | none         => connectors

-- What the state file holds afterwards.
def saveState (connectors : List Connector) : Bytes :=
  buildConnectorsJson connectors

end State
end Droidcli.Cli
