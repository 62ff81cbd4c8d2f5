import Droidcli.Cli.CommandLessons
import Droidcli.Cli.Processes

namespace Droidcli.Cli

open Bytes

section Clipboard

-- What Windows makes of a text that is put on its clipboard, and of one that is taken from it. If
-- the second conversion fails, the buffer for the text is left as it is.
structure Clipboard (W : Type) where
  place : Bytes → W → Except Bytes Bytes × W
  fetch : W → Except Bytes (Nat × Option Bytes)

namespace Clipboard

variable {W : Type} (clipboard : Clipboard W) (platform : Platform)

def notImplemented : Bytes :=
  "clipboard access is not implemented on this platform"

def writeText (text : Bytes) (w : W) : FileOpResult × W :=
  match platform with
  | .posix   => (⟨false, notImplemented⟩, w)
  | .windows =>
    match clipboard.place (cstr text) w with
    | (.error error, w) => (⟨false, error⟩, w)
    | (.ok _, w)        => (⟨true, []⟩, w)

def readText (w : W) : ClipboardReadResult :=
  match platform with
  | .posix   => ⟨false, [], notImplemented⟩
  | .windows =>
    match clipboard.fetch w with
    | .error error          => ⟨false, [], error⟩
    | .ok (length, converted) =>
      if length ≤ 1 then ⟨false, [], "clipboard text was empty"⟩
      else ⟨true, converted.getD (List.replicate (length - 1) nul), []⟩

end Clipboard

end Clipboard

section Memory

-- What SQLite answers to the two statements that store something for the tools: whether they have
-- been prepared, bound and run to their end.
structure MemoryTables (W : Type) where
  isOpen : W → Bool
  insertLesson : CommandLesson → W → Bool × W
  upsertLocation : Bytes → Bytes → W → Bool × W

namespace MemoryTables

variable {W : Type} (tables : MemoryTables W)

def recordLesson (lesson : CommandLesson) (w : W) : Bool × W :=
  if tables.isOpen w then tables.insertLesson lesson.bound w else (false, w)

def rememberLocation (name resolvedPath : Bytes) (w : W) : Bool × W :=
  if tables.isOpen w then tables.upsertLocation (cstr name) (cstr resolvedPath) w else (false, w)

end MemoryTables
end Memory

-- What the host stands on: the system under its tools, as the platform has it.
structure Ground (W : Type) where
  platform : Platform
  files : Filesystem W
  processes : Processes W
  clipboard : Clipboard W
  tables : MemoryTables W

namespace Ground

variable {W : Type} (ground : Ground W)

def os (os : Os W) : Os W :=
  { os with
    runCommandOnce := ground.processes.runCommandOnce ground.platform true
    runFfmpeg := ground.processes.runFfmpeg ground.files ground.platform
    launchApplication := ground.processes.launchApplication ground.platform
    launch := ground.processes.launch ground.files ground.platform
    stop := ground.processes.stopConnector }

def machine (m : Machine W) : Machine W :=
  { m.onFiles ground.platform ground.files with
    readTextFromClipboard := ground.clipboard.readText ground.platform
    writeTextToClipboard := ground.clipboard.writeText ground.platform
    recordLesson := ground.tables.recordLesson
    rememberLocation := ground.tables.rememberLocation }

end Ground
end Droidcli.Cli
