import Droidcli.Cli.Ground

namespace Droidcli.Cli

open Bytes

section Ends

def EntryReport.told (entry : EntryReport) : Bool :=
  match entry.isDirectory with
  | none       => false
  | some true  => true
  | some false => entry.fileSize.isSome

-- The program has come to run in its directory.
def Detached.runs (workDir : Bytes) : Detached → Bool
  | .forked pid _ entered started => pid.isSome && (workDir = [] || entered) && started
  | _                             => false

def Detached.isReported : Detached → Bool
  | .forked pid reported _ _ => 0 < Processes.reportedPid pid reported
  | _                        => false

def ForkedShell.runs (workDir : Bytes) : ForkedShell → Bool
  | .forked entered executed => (workDir = [] || entered) && executed
  | .noFork                  => false

def ResumedShell.runs : ResumedShell → Bool
  | .created resumed => resumed
  | _                => false

def CommandEnd.succeeds : CommandEnd → Bool
  | .exited exitCode _ => exitCode = 0
  | _                  => false

-- The exit code of a command that has ended by itself is told, unless it is the one that is taken
-- for granted.
def CommandEnd.IsTold : CommandEnd → Prop
  | .exited exitCode told => told ∨ exitCode = 0
  | _                     => True

end Ends

variable {W : Type} {w : W}

namespace Filesystem

-- What has to come of each of the file tools for it to have done what it is for, and what keeps its
-- own report from telling so.

variable (files : Filesystem W) (platform : Platform) {path source destination : Bytes}

section Reading

-- As many bytes of a file as are wanted.
def wanted (path : Bytes) (maxBytes : Int) (w : W) : Bytes :=
  if 0 < maxBytes then (files.holds path w).take maxBytes.toNat else files.holds path w

def readable (path : Bytes) (w : W) : Bool :=
  path ≠ [] && files.sees path w && (files.isDirectory path w = some false) && files.opens path w

def readsUpTo (path : Bytes) (maxBytes : Int) (w : W) (size : Nat) : Bool :=
  files.hasRoom (asked maxBytes size) w &&
    (files.content path (asked maxBytes size) w = files.wanted path maxBytes w)

def reads (path : Bytes) (maxBytes : Int) (w : W) : Bool :=
  files.readable path w && (files.fileSize path w).any (files.readsUpTo path maxBytes w)

variable {files} in
theorem readFile_iff {maxBytes : Int} :
    (∃ result, files.readFile path maxBytes w = some result ∧
        result.ok = files.reads path maxBytes w) ↔
      (files.readable path w → ∀ size, files.fileSize path w = some size →
        files.readsUpTo path maxBytes w size) := by
  simp only [readFile, reads, readable]
  by_cases hp : path = []
  case pos => simp [hp]
  case neg =>
    by_cases hs : files.sees path w = true
    case neg => simp [hp, hs]
    case pos =>
      by_cases hd : files.isDirectory path w = some false
      case neg => simp [hp, hs, hd]
      case pos =>
        by_cases ho : files.opens path w = true
        case neg => simp [hp, hs, hd, ho]
        case pos =>
          cases hz : files.fileSize path w
          case none => simp [hp, hs, hd, ho]
          case some size =>
            by_cases hr : files.hasRoom (asked maxBytes size) w = true
            case neg => simp [hp, hs, hd, ho, hr, readsUpTo]
            case pos => simp [hp, hs, hd, ho, hr, readsUpTo]

end Reading

section Writing

def writes (path content : Bytes) (appendMode : Bool) (w : W) : Bool :=
  path ≠ [] &&
    match files.prepared path w with
    | (.error _, _) => false
    | (.ok _, w)    => (files.writeStream path content appendMode w).1 = .kept

-- What is left in the buffer of the stream is written in the end.
def Flushes (path content : Bytes) (appendMode : Bool) (w : W) : Prop :=
  path ≠ [] → ∀ made w', files.prepared path w = (.ok made, w') →
    (files.writeStream path content appendMode w').1 ≠ .lost

variable {files} in
theorem writeFile_iff {content : Bytes} {appendMode : Bool} :
    (files.writeFile path content appendMode w).1.ok = files.writes path content appendMode w ↔
      files.Flushes path content appendMode w := by
  simp only [writeFile, writes, Flushes]
  by_cases hp : path = []
  case pos => simp [hp]
  case neg =>
    rcases hm : files.prepared path w with ⟨made, w'⟩
    cases made
    case error => simp [hp]
    case ok    =>
      rcases hw : files.writeStream path content appendMode w' with ⟨written, w''⟩
      cases written <;> simp [hp, hw]

def transfers (run : Bytes → Bytes → W → Except Bytes Unit × W) (source destination : Bytes)
    (w : W) : Bool :=
  match files.prepared destination w with
  | (.error _, _) => false
  | (.ok _, w)    => (run source destination w).1.isOk

def copies (source destination : Bytes) (w : W) : Bool :=
  source ≠ [] && destination ≠ [] && !files.seesDirectory source w &&
    files.transfers files.copyFile source destination w

def moves (source destination : Bytes) (w : W) : Bool :=
  source ≠ [] && destination ≠ [] && files.sees source w &&
    files.transfers files.rename source destination w

variable {files}

theorem transferred_ok {label : Bytes} {run : Bytes → Bytes → W → Except Bytes Unit × W} :
    (files.transferred label run source destination w).1.ok =
      files.transfers run source destination w := by
  simp only [transferred, transfers]
  rcases files.prepared destination w with ⟨made, w'⟩
  cases made
  case error => rfl
  case ok    =>
    dsimp only
    rcases run source destination w' with ⟨done, w''⟩
    cases done <;> rfl

theorem copyFileTo_ok : (files.copyFileTo source destination w).1.ok =
    files.copies source destination w := by
  simp only [copyFileTo, copies]
  split_ifs with hn hd
  case pos => rcases hn with hn | hn <;> simp [hn]
  case pos => simp [hd]
  case neg =>
    rw [not_or] at hn
    simp [hn, hd, transferred_ok]

theorem movePath_ok : (files.movePath source destination w).1.ok =
    files.moves source destination w := by
  simp only [movePath, moves]
  split_ifs with hn hs
  case pos => rcases hn with hn | hn <;> simp [hn]
  case pos => simp_all
  case neg =>
    rw [not_or] at hn
    simp_all [transferred_ok]

variable (files)

def deletes (path : Bytes) (w : W) : Bool :=
  path ≠ [] && files.sees path w && !files.seesDirectory path w &&
    match (files.remove path w).1 with
    | .ok removed => removed
    | .error _    => false

-- A directory that is there already is one that has been created.
def creates (path : Bytes) (w : W) : Bool :=
  path ≠ [] &&
    if files.sees path w then files.seesDirectory path w
    else (files.createDirectories path w).1.isOk

-- A directory that comes to be there is told to be a new one. It is not if somebody else has created
-- it in the meantime.
def Creates (path : Bytes) (w : W) : Prop :=
  path ≠ [] → ¬files.sees path w → (files.createDirectories path w).1 ≠ .ok false

variable {files}

theorem deleteFile_ok : (files.deleteFile path w).1.ok = files.deletes path w := by
  simp only [deleteFile, deletes]
  split_ifs with hp hs hd
  case pos => simp [hp]
  case pos => simp_all
  case pos => simp [hd]
  case neg =>
    rcases hr : files.remove path w with ⟨removed, w'⟩
    rcases removed with _ | _ | _ <;> simp_all

theorem createDirectory_iff :
    (files.createDirectory path w).1.ok = files.creates path w ↔ files.Creates path w := by
  simp only [createDirectory, creates, Creates]
  by_cases hp : path = []
  case pos => simp [hp]
  case neg =>
    by_cases hs : files.sees path w = true
    case pos => cases hd : files.seesDirectory path w <;> simp [hp, hs]
    case neg =>
      rcases hc : files.createDirectories path w with ⟨created, w'⟩
      rcases created with _ | _ | _ <;> simp [hp, hs, Except.isOk, Except.toBool]

end Writing

section Looking

-- Whether a listing has to tell what each of the entries is, is left open.
def iterates (detailed : Bool) : Iteration → Bool
  | .listed entries => !detailed || entries.all EntryReport.told
  | _               => false

def target (path : Bytes) (w : W) : Option Bytes :=
  if path = [] then files.currentPath w else some path

def lists (detailed : Bool) (path : Bytes) (w : W) : Bool :=
  (files.target path w).any fun target =>
    files.sees target w && files.seesDirectory target w &&
      iterates detailed (files.iterate target w)

-- There is a directory to look into, and its entries are read to the last.
def Lists (detailed : Bool) (path : Bytes) (w : W) : Prop :=
  ∃ target, files.target path w = some target ∧
    (files.sees target w → files.seesDirectory target w →
      files.iterate target w ≠ .thrown ∧ ∀ entries, files.iterate target w = .listed entries →
        detailed → ∀ entry ∈ entries, EntryReport.told entry)

variable {files} in
theorem listDir_iff {detailed : Bool} :
    (∃ result, files.listDir path w = some result ∧ result.ok = files.lists detailed path w) ↔
      files.Lists detailed path w := by
  have ht : (if path = [] then files.currentPath w else some path) = files.target path w := rfl
  simp only [listDir, lists, Lists, ht]
  cases files.target path w
  case none        => simp
  case some target =>
    by_cases hs : files.sees target w = true
    case neg => simp [hs]
    case pos =>
      by_cases hd : files.seesDirectory target w = true
      case neg => simp [hs, hd]
      case pos =>
        cases hi : files.iterate target w
        case unopened => simp [hs, hd, hi, listed, iterates]
        case thrown   => simp [hs, hd, hi, listed]
        case listed entries => cases detailed <;> simp [hs, hd, hi, listed, iterates]

-- All that is said of a path has been told.
def told (path : Bytes) (w : W) : Bool :=
  match files.fileExists path w with
  | none       => false
  | some false => true
  | some true  =>
    (files.isDirectory path w).isSome &&
      match files.isRegularFile path w with
      | none       => false
      | some false => true
      | some true  => (files.fileSize path w).isSome

def stats (path : Bytes) (w : W) : Bool :=
  path ≠ [] && files.told path w

variable {files} in
theorem statPath_iff :
    (files.statPath path w).ok = files.stats path w ↔ (path ≠ [] → files.told path w) := by
  simp only [statPath, stats]
  by_cases hp : path = []
  case pos => simp [hp]
  case neg => split_ifs <;> simp [hp]

def finds (name : Bytes) (w : W) : Bool :=
  (platform.whichExecutable (files.lookups w) name).any (· ≠ [])

variable {files platform} in
theorem whichExecutable_iff {name : Bytes} :
    (files.whichExecutable platform name w).ok = files.finds platform name w ↔
      platform.whichExecutable (files.lookups w) name ≠ some [] := by
  simp only [whichExecutable, finds]
  cases platform.whichExecutable (files.lookups w) name
  case none      => simp
  case some path => by_cases hp : path = [] <;> simp [hp]

end Looking
end Filesystem
namespace Processes

variable (processes : Processes W) (files : Filesystem W) (platform : Platform)

section Applications

def detached (pathOrName args workDir : Bytes) (w : W) : Detached :=
  (processes.detach (Platform.posix.commandLine pathOrName args) workDir w).1

def runs (pathOrName args workDir : Bytes) (w : W) : Bool :=
  pathOrName ≠ [] &&
    match platform with
    | .posix   => (processes.detached pathOrName args workDir w).runs workDir
    | .windows =>
      let line := Platform.windows.commandLine pathOrName args
      looksLikePath pathOrName && (processes.createProcess line workDir w).1.isOk

-- The process whose id arrives is one in which the program runs, and a program that runs has its id
-- arrive.
def Arrives (pathOrName args workDir : Bytes) (w : W) : Prop :=
  pathOrName ≠ [] → platform = .posix →
    (processes.detached pathOrName args workDir w).isReported =
      (processes.detached pathOrName args workDir w).runs workDir

variable {processes platform} in
theorem launchApplication_iff {pathOrName args workDir : Bytes} :
    (processes.launchApplication platform pathOrName args workDir w).1.launched =
        processes.runs platform pathOrName args workDir w ↔
      processes.Arrives platform pathOrName args workDir w := by
  simp only [launchApplication, runs, Arrives]
  by_cases hp : pathOrName = []
  case pos => simp [hp, notLaunched]
  case neg =>
    cases platform
    case windows =>
      simp only [launchCreated]
      by_cases hl : looksLikePath pathOrName = true
      case neg => simp [hp, hl, notLaunched]
      case pos =>
        rcases hc : processes.createProcess (Platform.windows.commandLine pathOrName args) workDir w
          with ⟨created, w'⟩
        cases created <;> simp [hp, hl, notLaunched, Except.isOk, Except.toBool]
    case posix =>
      simp only [launchDetached, detached]
      rcases processes.detach (Platform.posix.commandLine pathOrName args) workDir w
        with ⟨child, w'⟩
      cases child
      case noPipe => simp [hp, notLaunched, Detached.runs, Detached.isReported]
      case noFork => simp [hp, notLaunched, Detached.runs, Detached.isReported]
      case forked pid reported entered started =>
        by_cases hr : 0 < reportedPid pid reported
        case pos => simp [hp, hr, Detached.isReported]
        case neg => simp [hp, hr, notLaunched, Detached.isReported]

end Applications

section Connectors

def forkedShell (connector : Net.Connector) (w : W) : ForkedShell :=
  (processes.forkShell connector.launchCmd connector.workDir w).1

def createdShell (connector : Net.Connector) (w : W) : ResumedShell :=
  let command := effectiveCommand files connector.workDir connector.launchCmd w
  (processes.createShell (str "cmd.exe /c " ++ command) connector.workDir w).1

-- The shell has come to run in the directory of the connector.
def runsShell (connector : Net.Connector) (w : W) : Bool :=
  match platform with
  | .posix   => (processes.forkedShell connector w).runs connector.workDir
  | .windows => (processes.createdShell files connector w).runs

-- A process that is there for the shell also gets to run it.
structure StartsShell (connector : Net.Connector) (w : W) : Prop where
  forked : platform = .posix → processes.forkedShell connector w ≠ .noFork →
    (processes.forkedShell connector w).runs connector.workDir
  created : platform = .windows → processes.createdShell files connector w ≠ .created false

variable {processes files platform}

theorem launch_iff {connector : Net.Connector} :
    (processes.launch files platform connector w).1.1 =
        processes.runsShell files platform connector w ↔
      processes.StartsShell files platform connector w := by
  cases platform
  case posix =>
    have hs : processes.StartsShell files .posix connector w ↔
        (processes.forkedShell connector w ≠ .noFork →
          (processes.forkedShell connector w).runs connector.workDir) :=
      ⟨fun h => h.forked rfl, fun h => ⟨fun _ => h, by simp⟩⟩
    rw [hs]
    simp only [launch, runsShell, forkedShell]
    rcases processes.forkShell connector.launchCmd connector.workDir w with ⟨shell, w'⟩
    cases shell <;> simp [ForkedShell.runs]
  case windows =>
    have hs : processes.StartsShell files .windows connector w ↔
        processes.createdShell files connector w ≠ .created false :=
      ⟨fun h => h.created rfl, fun h => ⟨by simp, fun _ => h⟩⟩
    rw [hs]
    simp only [launch, runsShell, createdShell]
    rcases processes.createShell _ connector.workDir w with ⟨shell, w'⟩
    cases shell <;> simp [ResumedShell.runs]

variable (processes)

def stops (key : Bytes) (w : W) : Bool :=
  match (processes.stop key w).1 with
  | .signalled reached => reached
  | _                  => false

variable {processes}

theorem stopConnector_iff {key : Bytes} :
    (processes.stopConnector key w).1.1 = processes.stops key w ↔
      (processes.stop key w).1 ≠ .signalled false := by
  simp only [stopConnector, stops]
  rcases processes.stop key w with ⟨stopping, w'⟩
  cases stopping <;> simp

end Connectors

section Commands

def commandEnd (viaShell : Bool) (command workDir : Bytes) (timeoutMs : Int) (w : W) : CommandEnd :=
  if command = [] then .refused "command is empty"
  else
    let line := if platform = .windows ∧ viaShell then str "cmd.exe /c " ++ command else command
    (processes.execute line workDir timeoutMs w).1.1

def ffmpegEnd (args workDir : Bytes) (timeoutMs : Int) (w : W) : CommandEnd :=
  match processes.resolveFfmpeg files platform w with
  | .error error => .refused error
  | .ok path     =>
    processes.commandEnd platform false (str "\"" ++ path ++ "\" " ++ args) workDir timeoutMs w

theorem commandSucceeded_endResult {timeoutMs : Int} {stdoutText stderrText : Bytes}
    {commandEnd : CommandEnd} :
    commandSucceeded (endResult timeoutMs stdoutText stderrText commandEnd) =
        commandEnd.succeeds ↔ commandEnd.IsTold := by
  cases commandEnd
  case refused  => simp [endResult, commandSucceeded, CommandEnd.succeeds, CommandEnd.IsTold]
  case timedOut =>
    have hs : str "command timed out after " ≠ [] := by decide
    simp [endResult, commandSucceeded, CommandEnd.succeeds, CommandEnd.IsTold, hs]
  case exited status told =>
    cases told <;> simp [endResult, commandSucceeded, CommandEnd.succeeds, CommandEnd.IsTold]

variable {processes files platform} {command args workDir : Bytes} {timeoutMs : Int}

theorem runCommandOnce_iff {viaShell : Bool} :
    commandSucceeded (processes.runCommandOnce platform viaShell command workDir timeoutMs w).1 =
        (processes.commandEnd platform viaShell command workDir timeoutMs w).succeeds ↔
      (processes.commandEnd platform viaShell command workDir timeoutMs w).IsTold := by
  simp only [runCommandOnce, commandEnd]
  split
  case isTrue  => simp [commandSucceeded, CommandEnd.succeeds, CommandEnd.IsTold]
  case isFalse => exact commandSucceeded_endResult

theorem runFfmpeg_iff :
    commandSucceeded (processes.runFfmpeg files platform args workDir timeoutMs w).1 =
        (processes.ffmpegEnd files platform args workDir timeoutMs w).succeeds ↔
      (processes.ffmpegEnd files platform args workDir timeoutMs w).IsTold := by
  simp only [runFfmpeg, ffmpegEnd]
  cases processes.resolveFfmpeg files platform w
  case error => simp [commandSucceeded, CommandEnd.succeeds, CommandEnd.IsTold]
  case ok    => exact runCommandOnce_iff

end Commands
end Processes

namespace Clipboard

variable (clipboard : Clipboard W) (platform : Platform)

-- The clipboard has come to hold the text.
def places (text : Bytes) (w : W) : Bool :=
  platform = .windows &&
    match (clipboard.place (cstr text) w).1 with
    | .ok held => held = text
    | .error _ => false

def fetches (w : W) : Bool :=
  platform = .windows &&
    match clipboard.fetch w with
    | .ok (length, converted) => 1 < length && converted.isSome
    | .error _                => false

variable {clipboard platform}

theorem writeText_iff {text : Bytes} :
    (clipboard.writeText platform text w).1.ok = clipboard.places platform text w ↔
      (platform = .windows → ∀ held, (clipboard.place (cstr text) w).1 = .ok held →
        held = text) := by
  cases platform
  case posix   => simp [writeText, places]
  case windows =>
    simp only [writeText, places]
    rcases clipboard.place (cstr text) w with ⟨placed, w'⟩
    cases placed <;> simp

theorem readText_iff :
    (clipboard.readText platform w).ok = clipboard.fetches platform w ↔
      (platform = .windows → ∀ length, clipboard.fetch w = .ok (length, none) → length ≤ 1) := by
  cases platform
  case posix   => simp [readText, fetches]
  case windows =>
    simp only [readText, fetches]
    cases clipboard.fetch w
    case error => simp
    case ok fetched =>
      obtain ⟨length, converted⟩ := fetched
      by_cases hl : length ≤ 1
      case pos =>
        have : ¬1 < length := Nat.not_lt.mpr hl
        simp [hl, this]
      case neg =>
        have : 1 < length := Nat.not_le.mp hl
        cases converted <;> simp [hl, this]

end Clipboard
namespace MemoryTables

variable (tables : MemoryTables W)

-- A text that is stored is one that is stored whole.
def areWhole (texts : List Bytes) : Bool :=
  texts.all (nul ∉ ·)

def lessonIsWhole (lesson : CommandLesson) : Bool :=
  areWhole [lesson.tool, lesson.broken, lesson.failureReason, lesson.working, lesson.lesson]

def records (lesson : CommandLesson) (w : W) : Bool :=
  tables.isOpen w && (tables.insertLesson lesson.bound w).1 && lessonIsWhole lesson

def Records (lesson : CommandLesson) (w : W) : Prop :=
  tables.isOpen w → (tables.insertLesson lesson.bound w).1 → lessonIsWhole lesson

def remembers (name resolvedPath : Bytes) (w : W) : Bool :=
  tables.isOpen w && (tables.upsertLocation (cstr name) (cstr resolvedPath) w).1 &&
    areWhole [name, resolvedPath]

def Remembers (name resolvedPath : Bytes) (w : W) : Prop :=
  tables.isOpen w → (tables.upsertLocation (cstr name) (cstr resolvedPath) w).1 →
    areWhole [name, resolvedPath]

variable {tables}

theorem recordLesson_iff {lesson : CommandLesson} :
    (tables.recordLesson lesson w).1 = tables.records lesson w ↔ tables.Records lesson w := by
  simp only [recordLesson, records, Records]
  by_cases ho : tables.isOpen w = true
  case neg => simp [ho]
  case pos => cases hi : (tables.insertLesson lesson.bound w).1 <;> simp [ho, hi]

theorem rememberLocation_iff {name resolvedPath : Bytes} :
    (tables.rememberLocation name resolvedPath w).1 = tables.remembers name resolvedPath w ↔
      tables.Remembers name resolvedPath w := by
  simp only [rememberLocation, remembers, Remembers]
  by_cases ho : tables.isOpen w = true
  case neg => simp [ho]
  case pos =>
    cases hi : (tables.upsertLocation (cstr name) (cstr resolvedPath) w).1 <;> simp [ho, hi]

end MemoryTables
end Droidcli.Cli
