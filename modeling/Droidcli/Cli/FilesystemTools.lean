import Droidcli.Cli.CommandRunner
import Droidcli.Cli.OsTools

namespace Droidcli.Cli

open Bytes

-- What comes of a stream that a content is written to. What its buffer still holds is written when
-- the file is closed, and nobody is told if that fails.
inductive StreamWrite
  | unopened
  | failed
  | lost
  | kept
  deriving DecidableEq

-- An entry of a directory. As elsewhere, `none` is an error code.
structure EntryReport where
  name : Bytes
  isDirectory : Option Bool
  fileSize : Option Nat

-- The size of a file that cannot be told is -1, as the error value is cast.
def toldSize (size : Option Nat) : Int :=
  size.elim (-1) Nat.cast

def EntryReport.info (entry : EntryReport) : DirEntryInfo :=
  let isDir := entry.isDirectory = some true
  ⟨entry.name, isDir, if isDir then 0 else toldSize entry.fileSize⟩

inductive Iteration
  | unopened (message : Bytes)
  | thrown
  | listed (entries : List EntryReport)

-- What the file tools ask of the library and the system under it. Nothing is known about the
-- answers, which need not even agree. `holds` is not asked by anyone: the bytes that a file has.
structure Filesystem (W : Type) where
  fileExists : Bytes → W → Option Bool
  isDirectory : Bytes → W → Option Bool
  isRegularFile : Bytes → W → Option Bool
  fileSize : Bytes → W → Option Nat
  currentPath : W → Option Bytes
  absolutePath : Bytes → W → Option Bytes
  hasParentPath : Bytes → Bool
  parentPath : Bytes → Bytes
  join : Bytes → Bytes → Bytes
  pathVariable : W → Bytes
  opens : Bytes → W → Bool
  hasRoom : Nat → W → Bool
  readStream : Bytes → Nat → W → Bytes
  holds : Bytes → W → Bytes
  writeStream : Bytes → Bytes → Bool → W → StreamWrite × W
  iterate : Bytes → W → Iteration
  createDirectories : Bytes → W → Except Bytes Bool × W
  copyFile : Bytes → Bytes → W → Except Bytes Unit × W
  rename : Bytes → Bytes → W → Except Bytes Unit × W
  remove : Bytes → W → Except Bytes Bool × W

namespace Filesystem

variable {W : Type} (files : Filesystem W) (platform : Platform)

-- The queries, where an error counts as a "no".
def sees (path : Bytes) (w : W) : Bool :=
  files.fileExists path w = some true

def seesDirectory (path : Bytes) (w : W) : Bool :=
  files.isDirectory path w = some true

def seesFile (path : Bytes) (w : W) : Bool :=
  files.isRegularFile path w = some true

section Reading

def asked (maxBytes : Int) (size : Nat) : Nat :=
  if 0 < maxBytes ∧ maxBytes < size then maxBytes.toNat else size

-- The buffer that has been read into: what has not come is still zero.
def content (path : Bytes) (n : Nat) (w : W) : Bytes :=
  let read := (files.readStream path n w).take n
  read ++ List.replicate (n - read.length) nul

-- `none` when there is no room for the buffer.
def readFile (path : Bytes) (maxBytes : Int) (w : W) : Option FileReadResult :=
  let failed (error : Bytes) := some ⟨false, [], 0, false, error⟩
  if path = [] then failed "path is empty"
  else if !files.sees path w then failed (str "path does not exist: " ++ path)
  else if files.isDirectory path w ≠ some false then
    failed (str "path is a directory, not a file: " ++ path)
  else if !files.opens path w then failed (str "could not open file: " ++ path)
  else
    match files.fileSize path w with
    | none      => failed (str "could not determine file size: " ++ path)
    | some size =>
      let toRead := asked maxBytes size
      if !files.hasRoom toRead w then none
      else some ⟨true, files.content path toRead w, size, 0 < maxBytes ∧ maxBytes < size, []⟩

end Reading

section Writing

-- The directories above a path are created on the way.
def prepared (path : Bytes) (w : W) : Except Bytes Bool × W :=
  let parent := files.parentPath path
  if parent ≠ [] ∧ !files.sees parent w then files.createDirectories parent w else (.ok true, w)

def writeFile (path content : Bytes) (appendMode : Bool) (w : W) : FileWriteResult × W :=
  let failed (error : Bytes) : FileWriteResult := ⟨false, 0, error⟩
  if path = [] then (failed "path is empty", w)
  else
    match files.prepared path w with
    | (.error message, w) => (failed (str "could not create parent directories: " ++ message), w)
    | (.ok _, w)          =>
      match files.writeStream path content appendMode w with
      | (.unopened, w) => (failed (str "could not open file for writing: " ++ path), w)
      | (.failed, w)   => (failed (str "write failed: " ++ path), w)
      | (_, w)         => (⟨true, content.length, []⟩, w)

-- `copy_file` and `move_path`, behind what they refuse.
def transferred (label : Bytes) (run : Bytes → Bytes → W → Except Bytes Unit × W)
    (source destination : Bytes) (w : W) : FileOpResult × W :=
  match files.prepared destination w with
  | (.error message, w) =>
    (⟨false, str "could not create destination parent directories: " ++ message⟩, w)
  | (.ok _, w)          =>
    match run source destination w with
    | (.error message, w) => (⟨false, label ++ message⟩, w)
    | (.ok _, w)          => (⟨true, []⟩, w)

def copyFileTo (source destination : Bytes) (w : W) : FileOpResult × W :=
  if source = [] ∨ destination = [] then
    (⟨false, "source_path and destination_path are both required"⟩, w)
  else if files.seesDirectory source w then
    (⟨false, "source is a directory - copy_file only copies a single file"⟩, w)
  else files.transferred "copy failed: " files.copyFile source destination w

def movePath (source destination : Bytes) (w : W) : FileOpResult × W :=
  if source = [] ∨ destination = [] then
    (⟨false, "source_path and destination_path are both required"⟩, w)
  else if !files.sees source w then (⟨false, str "source does not exist: " ++ source⟩, w)
  else files.transferred "move failed: " files.rename source destination w

def unknownError : Bytes :=
  "unknown error"

def deleteFile (path : Bytes) (w : W) : FileOpResult × W :=
  if path = [] then (⟨false, "path is empty"⟩, w)
  else if !files.sees path w then (⟨false, str "path does not exist: " ++ path⟩, w)
  else if files.seesDirectory path w then
    (⟨false, str "path is a directory - delete_file only deletes a single file, not a directory " ++
      "tree"⟩, w)
  else
    match files.remove path w with
    | (.ok true, w)       => (⟨true, []⟩, w)
    | (.ok false, w)      => (⟨false, str "delete failed: " ++ unknownError⟩, w)
    | (.error message, w) => (⟨false, str "delete failed: " ++ message⟩, w)

def createDirectory (path : Bytes) (w : W) : FileOpResult × W :=
  if path = [] then (⟨false, "path is empty"⟩, w)
  else if files.sees path w then
    if files.seesDirectory path w then (⟨true, []⟩, w)
    else (⟨false, str "path already exists as a file, not a directory: " ++ path⟩, w)
  else
    match files.createDirectories path w with
    | (.ok true, w)       => (⟨true, []⟩, w)
    | (.ok false, w)      => (⟨false, str "create_directory failed: " ++ unknownError⟩, w)
    | (.error message, w) => (⟨false, str "create_directory failed: " ++ message⟩, w)

end Writing

section Looking

def listed : Iteration → Option ListDirResult
  | .unopened message => some ⟨false, [], str "error while listing directory: " ++ message⟩
  | .thrown           => none
  | .listed entries   => some ⟨true, entries.map EntryReport.info, []⟩

-- `none` when an exception escapes: there is no current path, or it comes from the iteration.
def listDir (path : Bytes) (w : W) : Option ListDirResult :=
  match if path = [] then files.currentPath w else some path with
  | none        => none
  | some target =>
    if !files.sees target w then some ⟨false, [], str "path does not exist: " ++ path⟩
    else if !files.seesDirectory target w then
      some ⟨false, [], str "path is not a directory: " ++ path⟩
    else listed (files.iterate target w)

-- The errors of the queries are not looked at.
def statPath (path : Bytes) (w : W) : StatResult :=
  if path = [] then ⟨false, false, false, false, 0, "path is empty"⟩
  else if !files.sees path w then ⟨true, false, false, false, 0, []⟩
  else
    let isFile := files.seesFile path w
    ⟨true, true, files.seesDirectory path w, isFile,
      if isFile then toldSize (files.fileSize path w) else 0, []⟩

def lookups (w : W) : Lookups where
  readRegistryString _ _ := []
  systemDirectory := []
  windowsDirectory := []
  pathVariable := files.pathVariable w
  hasParentPath := files.hasParentPath
  join := files.join
  isRegularFile path := files.sees path w && files.seesFile path w
  absolutePath path := files.absolutePath path w

def whichExecutable (name : Bytes) (w : W) : WhichResult :=
  match platform.whichExecutable (files.lookups w) name with
  | some path => ⟨true, path, []⟩
  | none      =>
    let error :=
      if name = [] then str "name is empty"
      else if files.hasParentPath name then str "not found: " ++ name
      else str "not found on PATH: " ++ name
    ⟨false, [], error⟩

end Looking
end Filesystem

-- A machine with the files of that system.
def Machine.onFiles {W : Type} (m : Machine W) (platform : Platform) (files : Filesystem W) :
    Machine W :=
  { m with
    readFile := files.readFile
    writeFile := files.writeFile
    listDir := files.listDir
    statPath := files.statPath
    currentPath := files.currentPath
    whichExecutable := files.whichExecutable platform
    copyFile := files.copyFileTo
    movePath := files.movePath
    deleteFile := files.deleteFile
    createDirectory := files.createDirectory }

end Droidcli.Cli
