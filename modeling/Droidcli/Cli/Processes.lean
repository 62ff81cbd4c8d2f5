import Droidcli.Cli.FilesystemTools

namespace Droidcli.Cli

open Bytes

-- What comes of the two forks of `launch_application`: the id of the process, if the child in
-- between can fork, and whether it arrives here; and whether the process gets into its directory
-- and the program comes to run in it.
inductive Detached
  | noPipe
  | noFork
  | forked (pid : Option Nat) (reported entered started : Bool)

-- A process of Windows, with the path of its image if that can be told.
structure CreatedProcess where
  pid : Nat
  imagePath : Option Bytes

-- A process that is forked for a shell, and one that is created for it and then resumed.
inductive ForkedShell
  | noFork
  | forked (entered executed : Bool)

inductive ResumedShell
  | noJob
  | notCreated (lastError : Nat)
  | created (resumed : Bool)

-- What `ProcessManager::stop` finds, and whether its signal reaches anyone.
inductive Stopping
  | noEntry
  | notRunning
  | signalled (reached : Bool)

-- How a command has ended, and whether its exit code is told to the parent, whose own variable for
-- it otherwise keeps the zero that it has begun with.
inductive CommandEnd
  | refused (error : Bytes)
  | timedOut (exitCode : Int)
  | exited (exitCode : Int) (told : Bool)

-- The system under `command_runner.cpp`, `process_manager.cpp` and `ffmpeg_tool.cpp`.
structure Processes (W : Type) where
  detach : Bytes → Bytes → W → Detached × W
  createProcess : Bytes → Bytes → W → Except Nat CreatedProcess × W
  forkShell : Bytes → Bytes → W → ForkedShell × W
  createShell : Bytes → Bytes → W → ResumedShell × W
  stop : Bytes → W → Stopping × W
  execute : Bytes → Bytes → Int → W → (CommandEnd × Bytes × Bytes) × W
  ffmpegRoot : W → Bytes

namespace Processes

variable {W : Type} (processes : Processes W) (files : Filesystem W) (platform : Platform)

section Applications

def notLaunched (error : Bytes) : LaunchAppResult :=
  ⟨false, 0, [], error⟩

-- The process id that the parent reads from the pipe, which is zero as long as it has read none.
def reportedPid (pid : Option Nat) (reported : Bool) : Nat :=
  if reported then pid.getD 0 else 0

def launchDetached (pathOrName args workDir : Bytes) (w : W) : LaunchAppResult × W :=
  match processes.detach (Platform.posix.commandLine pathOrName args) workDir w with
  | (.noPipe, w)                  => (notLaunched "pipe() failed", w)
  | (.noFork, w)                  => (notLaunched "fork() failed", w)
  | (.forked pid reported _ _, w) =>
    let pid := reportedPid pid reported
    if 0 < pid then (⟨true, pid, [], []⟩, w)
    else (notLaunched (str "failed to launch " ++ pathOrName), w)

def launchCreated (pathOrName args workDir : Bytes) (w : W) : LaunchAppResult × W :=
  if !looksLikePath pathOrName then
    (notLaunched <| str "'" ++ pathOrName ++ "' is not a resolved path - launch_application " ++
      "requires a caller to resolve a bare name first (see the Windows execution ruleset in " ++
      "ARCHITECTURE.md); it does not do so itself.", w)
  else
    match processes.createProcess (Platform.windows.commandLine pathOrName args) workDir w with
    | (.error lastError, w) =>
      (notLaunched <| str "CreateProcess failed (" ++ decimal lastError ++ ") trying to launch " ++
        "the already-resolved path \"" ++ pathOrName ++ "\" - it may have been deleted or become " ++
        "inaccessible between resolution and launch.", w)
    | (.ok process, w)      => (⟨true, process.pid, process.imagePath.getD [], []⟩, w)

def launchApplication (pathOrName args workDir : Bytes) (w : W) : LaunchAppResult × W :=
  if pathOrName = [] then (notLaunched "path_or_name is empty", w)
  else
    match platform with
    | .posix   => processes.launchDetached pathOrName args workDir w
    | .windows => processes.launchCreated pathOrName args workDir w

end Applications

section Connectors

-- `cmd` does not look for a bare name in the working directory, so that it is told to.
def effectiveCommand (workDir command : Bytes) (w : W) : Bytes :=
  let firstToken := command.takeWhile (· ≠ space)
  if workDir ≠ [] ∧ !looksLikePath firstToken ∧ files.sees (files.join workDir firstToken) w then
    str ".\\" ++ command
  else command

def launch (connector : Net.Connector) (w : W) : (Bool × Bytes) × W :=
  match platform with
  | .posix   =>
    match processes.forkShell connector.launchCmd connector.workDir w with
    | (.noFork, w)     => ((false, "fork failed"), w)
    | (.forked _ _, w) => ((true, []), w)
  | .windows =>
    let command := effectiveCommand files connector.workDir connector.launchCmd w
    match processes.createShell (str "cmd.exe /c " ++ command) connector.workDir w with
    | (.noJob, w)                => ((false, "CreateJobObject failed"), w)
    | (.notCreated lastError, w) =>
      ((false, str "CreateProcess failed (" ++ decimal lastError ++ ")"), w)
    | (.created _, w)            => ((true, []), w)

def stopConnector (key : Bytes) (w : W) : (Bool × Bytes) × W :=
  match processes.stop key w with
  | (.noEntry, w)     => ((false, "no process for key"), w)
  | (.notRunning, w)  => ((false, "process not running"), w)
  | (.signalled _, w) => ((true, []), w)

end Connectors

section Commands

def endResult (timeoutMs : Int) (stdoutText stderrText : Bytes) : CommandEnd → CommandRunResult
  | .refused error        => ⟨false, 0, [], [], error⟩
  | .timedOut exitCode    =>
    ⟨true, exitCode, stdoutText, stderrText,
      str "command timed out after " ++ decimalInt timeoutMs ++ "ms"⟩
  | .exited exitCode told =>
    ⟨true, if told then exitCode else 0, stdoutText, stderrText, []⟩

-- What is done between the fork and the return of the result on POSIX is `CommandRun`.
def runCommandOnce (viaShell : Bool) (command workDir : Bytes) (timeoutMs : Int) (w : W) :
    CommandRunResult × W :=
  if command = [] then (⟨false, 0, [], [], "command is empty"⟩, w)
  else
    let line := if platform = .windows ∧ viaShell then str "cmd.exe /c " ++ command else command
    let ((commandEnd, stdoutText, stderrText), w) := processes.execute line workDir timeoutMs w
    (endResult timeoutMs stdoutText stderrText commandEnd, w)

def kFfmpegBinaryName : Platform → Bytes
  | .windows => "ffmpeg.exe"
  | .posix   => "ffmpeg"

def resolveFfmpeg (w : W) : Except Bytes Bytes :=
  let onPath := files.whichExecutable platform "ffmpeg" w
  let root := processes.ffmpegRoot w
  let candidate := files.join (files.join root "bin") (kFfmpegBinaryName platform)
  if onPath.ok then .ok onPath.resolvedPath
  else if root ≠ [] ∧ files.sees candidate w ∧ files.seesFile candidate w then
    .ok ((files.absolutePath candidate w).getD [])
  else
    .error <| str "ffmpeg not found on PATH or under $DROIDCLI_FFMPEG_ROOT/bin - install it " ++
      "(e.g. `winget install ffmpeg` on Windows) or set DROIDCLI_FFMPEG_ROOT to a " ++
      "prefix with a bin/" ++ kFfmpegBinaryName platform ++ " in it."

def runFfmpeg (args workDir : Bytes) (timeoutMs : Int) (w : W) : CommandRunResult × W :=
  match processes.resolveFfmpeg files platform w with
  | .error error => (⟨false, 0, [], [], error⟩, w)
  | .ok path     =>
    processes.runCommandOnce platform false (str "\"" ++ path ++ "\" " ++ args) workDir timeoutMs w

end Commands
end Processes

end Droidcli.Cli
