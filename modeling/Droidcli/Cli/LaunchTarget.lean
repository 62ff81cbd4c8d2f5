import Droidcli.Cli.HostState
import Droidcli.Reliability.Guards

namespace Droidcli.Cli

open Bytes Reliability

def looksLikePath (value : Bytes) : Bool :=
  value.any isSeparator

def normalizeForMatch (value : Bytes) : Bytes :=
  lowered (value.filter isAlnum)

-- Equal, or one contained in the other.
def plausibleMatch (name query : Bytes) : Bool :=
  contains query name || contains name query

def findInstalledAppMatch (apps : List InstalledApp) (query : Bytes) : Bytes :=
  let normalizedQuery := normalizeForMatch query
  if normalizedQuery = [] then []
  else
    let exact := apps.find? fun app => normalizeForMatch app.name = normalizedQuery
    let near := apps.find? fun app => plausibleMatch (normalizeForMatch app.name) normalizedQuery
    (exact <|> near).elim [] (·.path)

def splitWordsForMatch (value : Bytes) : List Bytes :=
  (value.splitOnP (!isAlnum ·)).filterMap fun word => if word = [] then none else some (lowered word)

def wordsAllPresent (queryWords aliasWords : List Bytes) : Bool :=
  2 ≤ queryWords.length && queryWords.all (· ∈ aliasWords)

def findKnownWindowsTarget (query : Bytes) (targets : List WindowsLocationEntry) :
    Option WindowsLocationEntry :=
  let normalizedQuery := normalizeForMatch query
  if normalizedQuery = [] then none
  else
    let near :=
      targets.find? fun entry => plausibleMatch (normalizeForMatch entry.aliasName) normalizedQuery
    near <|> targets.find? fun entry =>
      wordsAllPresent (splitWordsForMatch query) (splitWordsForMatch entry.aliasName)

structure ResolvedLaunchTarget where
  target : Bytes
  effectiveArgs : Bytes
  source : Bytes
  displayName : Bytes

-- The target, or the `error_message` of a name that resolves to nothing.
def resolveOpenApplicationTarget {W : Type} (os : Os W) (host : HostState) (w : W)
    (pathOrName args : Bytes) : Except Bytes ResolvedLaunchTarget :=
  let resolved (target source : Bytes) := Except.ok ⟨target, args, source, []⟩
  if looksLikePath pathOrName then
    if os.isRegularFile pathOrName w then
      resolved ((os.absolutePath pathOrName w).getD []) "given_path"
    else
      .error <| str "'" ++ pathOrName ++ "' does not exist. Ask the user for the exact executable " ++
        "name or full path rather than guessing."
  else if os.resolveAppPathsRegistry pathOrName w ≠ [] then
    resolved (os.resolveAppPathsRegistry pathOrName w) "app_paths_registry"
  else if findInstalledAppMatch host.installedApps pathOrName ≠ [] then
    resolved (findInstalledAppMatch host.installedApps pathOrName) "installed_apps_index"
  else
    match findKnownWindowsTarget pathOrName host.windowsLocations with
    | some entry =>
      let systemPath := os.resolveSystemExecutable entry.pathOrName w
      if systemPath = [] then
        .error <| str "'" ++ entry.displayName ++ "' (matched from '" ++ pathOrName ++
          "') could not be found in the Windows system directory - this may indicate a damaged " ++
          "Windows installation. Ask the user for the exact executable name or full path instead."
      else
        .ok {
          target := systemPath
          effectiveArgs := if args = [] then entry.args else args
          source := "windows_known_location"
          displayName := entry.displayName
        }
    | none =>
      match os.whichExecutable pathOrName w with
      | some path => resolved path "path_search"
      | none      =>
        .error <| str "'" ++ pathOrName ++ "' could not be resolved to a real, existing " ++
          "executable via the Windows App Paths registry, the installed-apps index, droidcli's " ++
          "built-in knowledge of Windows locations (call list_windows_locations to see what it " ++
          "knows), or a PATH search. Ask the user for the exact executable name or full path " ++
          "rather than guessing."

section Lookups

inductive RegistryRoot
  | currentUser
  | localMachine

-- What the lookups ask of the machine: the registry, with an empty text for a missing value, the
-- two directories of Windows, the variable `PATH`, and the file system with its handling of paths.
structure Lookups where
  readRegistryString : RegistryRoot → Bytes → Bytes
  systemDirectory : Bytes
  windowsDirectory : Bytes
  pathVariable : Bytes
  hasParentPath : Bytes → Bool
  join : Bytes → Bytes → Bytes
  isRegularFile : Bytes → Bool
  absolutePath : Bytes → Option Bytes

namespace Lookups

variable (machine : Lookups)

def resolveAppPathsRegistry (name : Bytes) : Bytes :=
  let keyName := if str ".exe" <:+ name then name else name ++ ".exe"
  let subkey := "SOFTWARE\\Microsoft\\Windows\\CurrentVersion\\App Paths\\" ++ keyName
  let values := [.currentUser, .localMachine].map (machine.readRegistryString · subkey)
  (values.find? (· ≠ [])).getD []

-- The candidate, if it is an existing regular file.
def verified (candidate : Bytes) : Option Bytes :=
  if machine.isRegularFile candidate then some candidate else none

def resolveSystemExecutable (name : Bytes) : Bytes :=
  let directories := [machine.systemDirectory, machine.windowsDirectory].filter (· ≠ [])
  (directories.findSome? fun directory => machine.verified (machine.join directory name)).getD []

def splitPathEnv (value : Bytes) : List Bytes :=
  (value.splitOn 0x3b).filter (· ≠ [])

def whichExecutable (name : Bytes) : Option Bytes :=
  if name = [] then none
  else if machine.hasParentPath name then
    (machine.verified name).map fun given => (machine.absolutePath given).getD []
  else
    (splitPathEnv machine.pathVariable).findSome? fun directory =>
      [[], str ".exe", str ".bat", str ".cmd"].findSome? fun extension =>
        machine.verified (machine.join directory (name ++ extension))

end Lookups

-- A machine on which executables are looked up as on Windows.
def Os.withLookups {W : Type} (os : Os W) (machine : W → Lookups) : Os W :=
  { os with
    resolveAppPathsRegistry := fun name w => (machine w).resolveAppPathsRegistry name
    resolveSystemExecutable := fun name w => (machine w).resolveSystemExecutable name
    whichExecutable := fun name w => (machine w).whichExecutable name
    isRegularFile := fun path w => (machine w).isRegularFile path
    absolutePath := fun path w => (machine w).absolutePath path }

def kBuiltins : List InstalledApp := [
  ⟨"Notepad", "notepad.exe"⟩,
  ⟨"Calculator", "calc.exe"⟩,
  ⟨"Paint", "mspaint.exe"⟩,
  ⟨"WordPad", "write.exe"⟩,
  ⟨"Command Prompt", "cmd.exe"⟩,
  ⟨"PowerShell", "powershell.exe"⟩,
  ⟨"File Explorer", "explorer.exe"⟩,
  ⟨"Task Manager", "taskmgr.exe"⟩,
  ⟨"Control Panel", "control.exe"⟩,
  ⟨"Snipping Tool", "snippingtool.exe"⟩,
  ⟨"Magnifier", "magnify.exe"⟩,
  ⟨"Registry Editor", "regedit.exe"⟩,
  ⟨"Character Map", "charmap.exe"⟩,
  ⟨"Remote Desktop Connection", "mstsc.exe"⟩,
  ⟨"Disk Cleanup", "cleanmgr.exe"⟩
]

def addBuiltinAccessories (apps : List InstalledApp) : List InstalledApp :=
  apps ++ kBuiltins

end Lookups
end Droidcli.Cli
