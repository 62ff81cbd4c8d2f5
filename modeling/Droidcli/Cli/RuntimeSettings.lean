import Droidcli.Cli.SettingsStore

namespace Droidcli.Cli

open Bytes

-- The part of `HostConfig` that is written to the settings, and where to.
structure SavedConfig where
  enableAi : Bool
  enableHardwareScan : Bool
  ollamaUrl : Bytes
  ollamaModel : Bytes
  ollamaNumCtx : Int32
  settingsPath : Bytes

-- What a change of the configuration leaves in the settings file, if the load opens it or not, and
-- the save writes it in that way. When the exception of `std::stoll` escapes from the load, nothing
-- is saved.
def persistCurrentSettingsLocked (dpapi : Option Dpapi) (config : SavedConfig) (opened : Bool)
    (written : WriteResult) (file : Option Bytes) : Option Bytes :=
  if config.settingsPath = [] then file
  else
    match loadSettings dpapi (if opened then file else none) .initial with
    | none               => file
    | some (_, settings) =>
      let (_, file) := saveSettings dpapi { settings with
        enableAi := config.enableAi
        enableHardwareScan := config.enableHardwareScan
        ollamaUrl := config.ollamaUrl
        ollamaModel := config.ollamaModel
        ollamaNumCtx := config.ollamaNumCtx } written file
      file

-- The port and the token of a file for the one who loads it, unless the load throws.
def secrets (dpapi : Option Dpapi) (file : Option Bytes) : Option (Int32 × Bytes) :=
  (loadSettings dpapi file .initial).map fun (_, settings) => (settings.port, settings.apiToken)

def token (dpapi : Option Dpapi) (file : Option Bytes) : Bytes :=
  decryptSecretField dpapi (file.getD []) "api_token"

end Droidcli.Cli
