import Droidcli.Cli.LaunchTarget
import Droidcli.Cli.SystemInfo
import Droidcli.Lib.Words

namespace Droidcli.Cli

open Bytes

namespace Platform

def isDriveLetter (c : UInt8) : Bool :=
  0x61 ≤ toLower c ∧ toLower c ≤ 0x7a

-- `std::filesystem::path::root_name`, of a path that does not lie on the network.
def rootName : Platform → Bytes → Bytes
  | windows, c :: d :: _ => if isDriveLetter c ∧ d = colon then [c, d] else []
  | _, _                 => []

def kPathListSeparator : Platform → UInt8
  | windows => 0x3b
  | posix   => colon

def extensions : Platform → List Bytes
  | windows => [[], ".exe", ".bat", ".cmd"]
  | posix   => [[]]

variable (platform : Platform) (machine : Lookups)

def splitPathEnv (value : Bytes) : List Bytes :=
  (value.splitOn platform.kPathListSeparator).filter (· ≠ [])

-- There are no App Paths and no system directory but on Windows.
def resolveAppPathsRegistry (name : Bytes) : Bytes :=
  match platform with
  | windows => machine.resolveAppPathsRegistry name
  | posix   => []

def resolveSystemExecutable (name : Bytes) : Bytes :=
  match platform with
  | windows => machine.resolveSystemExecutable name
  | posix   => []

def whichExecutable (name : Bytes) : Option Bytes :=
  if name = [] then none
  else if machine.hasParentPath name then
    (machine.verified name).map fun given => (machine.absolutePath given).getD []
  else
    (platform.splitPathEnv machine.pathVariable).findSome? fun directory =>
      platform.extensions.findSome? fun extension =>
        machine.verified (machine.join directory (name ++ extension))

end Platform

section LaunchApplication

namespace Platform

-- What `launch_application` does not refuse, and the line it makes of it.
def accepts : Platform → Bytes → Bool
  | windows, pathOrName => pathOrName ≠ [] ∧ looksLikePath pathOrName
  | posix, pathOrName   => pathOrName ≠ []

def commandLine : Platform → Bytes → Bytes → Bytes
  | windows, pathOrName, args =>
    quote :: pathOrName ++ [quote] ++ if args = [] then [] else space :: args
  | posix, pathOrName, args   => pathOrName ++ if args = [] then [] else space :: args

-- The words that the platform finds in a line, and in the arguments behind a program. Shells differ
-- in what they take for words of their own, besides those of the standard.
def words (reserves : Bytes → Bool) : Platform → Bytes → List Words.Token
  | windows, line => (Words.processWords (cstr line)).map Words.literal
  | posix, line   => Words.commandWords reserves (cstr line)

def argumentWords : Platform → Bytes → List Words.Token
  | windows, args => (Words.argumentWords (cstr args)).map Words.literal
  | posix, args   => Words.shellWords (cstr args)

end Platform
end LaunchApplication

-- A machine on which executables are looked up as on that platform.
def Os.onPlatform {W : Type} (os : Os W) (platform : Platform) (machine : W → Lookups) : Os W :=
  { os with
    resolveAppPathsRegistry := fun name w => platform.resolveAppPathsRegistry (machine w) name
    resolveSystemExecutable := fun name w => platform.resolveSystemExecutable (machine w) name
    whichExecutable := fun name w => platform.whichExecutable (machine w) name
    isRegularFile := fun path w => (machine w).isRegularFile path
    absolutePath := fun path w => (machine w).absolutePath path }

theorem Os.onPlatform_windows {W : Type} (os : Os W) (machine : W → Lookups) :
    os.onPlatform .windows machine = os.withLookups machine :=
  rfl

end Droidcli.Cli
