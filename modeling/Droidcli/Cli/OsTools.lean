import Droidcli.Cli.HostTools

namespace Droidcli.Cli

open Bytes Net Reliability

section Results

structure FileReadResult where
  ok : Bool
  content : Bytes
  sizeBytes : Int
  truncated : Bool
  errorMessage : Bytes

structure FileWriteResult where
  ok : Bool
  bytesWritten : Int
  errorMessage : Bytes

structure DirEntryInfo where
  name : Bytes
  isDir : Bool
  sizeBytes : Int

structure ListDirResult where
  ok : Bool
  entries : List DirEntryInfo
  errorMessage : Bytes

structure StatResult where
  ok : Bool
  pathExists : Bool
  isDir : Bool
  isFile : Bool
  sizeBytes : Int
  errorMessage : Bytes

structure WhichResult where
  ok : Bool
  resolvedPath : Bytes
  errorMessage : Bytes

structure FileOpResult where
  ok : Bool
  errorMessage : Bytes

structure ClipboardReadResult where
  ok : Bool
  text : Bytes
  errorMessage : Bytes

structure OpenWindowInfo where
  title : Bytes
  processName : Bytes
  pid : Int

structure CommandLesson where
  tool : Bytes
  broken : Bytes
  failureReason : Bytes
  working : Bytes
  lesson : Bytes
  createdAt : Bytes

structure KnownLocation where
  name : Bytes
  resolvedPath : Bytes
  updatedAt : Bytes

-- What a query collected, and whether it ran to its end. The source hands on the entries only.
structure Listed (α : Type) where
  entries : List α
  complete : Bool

structure SystemInfo where
  osName : Bytes
  osVersion : Bytes
  architecture : Bytes
  hostname : Bytes
  username : Bytes
  cwd : Bytes
  homePath : Bytes
  documentsPath : Bytes
  downloadsPath : Bytes
  programFilesPath : Bytes

structure DiskVolume where
  drive : Bytes
  totalBytes : Int
  freeBytes : Int

structure HardwareInfo where
  cpuName : Bytes
  cpuCoreCount : Int
  totalRamBytes : Int
  gpus : List Bytes
  disks : List DiskVolume

end Results

-- What the tools behind `Os.osTool` ask of the machine and of the memory store. As with `Os`,
-- nothing is known about the answers.
structure Machine (W : Type) where
  systemInfo : SystemInfo
  hardwareInfo : Option HardwareInfo -- `none` unless the scan is enabled
  makeFullLogTimestamp : W → Bytes
  readFile : Bytes → Int → W → Option FileReadResult -- `none` when there is no room for it
  writeFile : Bytes → Bytes → Bool → W → FileWriteResult × W
  listDir : Bytes → W → Option ListDirResult -- `none` when the iteration throws
  statPath : Bytes → W → StatResult
  currentPath : W → Option Bytes
  whichExecutable : Bytes → W → WhichResult
  copyFile : Bytes → Bytes → W → FileOpResult × W
  movePath : Bytes → Bytes → W → FileOpResult × W
  deleteFile : Bytes → W → FileOpResult × W
  createDirectory : Bytes → W → FileOpResult × W
  readTextFromClipboard : W → ClipboardReadResult
  writeTextToClipboard : Bytes → W → FileOpResult × W
  listOpenWindows : W → Listed OpenWindowInfo
  recordLesson : CommandLesson → W → Bool × W
  searchLessons : Bytes → W → Listed CommandLesson
  rememberLocation : Bytes → Bytes → W → Bool × W
  listLocations : W → Listed KnownLocation

-- A machine with nothing on it, where whatever is asked for succeeds at once.
def Machine.idle : Machine Unit where
  systemInfo := ⟨[], [], [], [], [], [], [], [], [], []⟩
  hardwareInfo := none
  makeFullLogTimestamp _ := "1970-01-01 00:00:00"
  readFile _ _ _ := some ⟨true, [], 0, false, []⟩
  writeFile _ content _ _ := (⟨true, content.length, []⟩, ())
  listDir _ _ := some ⟨true, [], []⟩
  statPath _ _ := ⟨true, true, false, true, 0, []⟩
  currentPath _ := some "/"
  whichExecutable name _ := ⟨true, name, []⟩
  copyFile _ _ _ := (⟨true, []⟩, ())
  movePath _ _ _ := (⟨true, []⟩, ())
  deleteFile _ _ := (⟨true, []⟩, ())
  createDirectory _ _ := (⟨true, []⟩, ())
  readTextFromClipboard _ := ⟨true, [], []⟩
  writeTextToClipboard _ _ := (⟨true, []⟩, ())
  listOpenWindows _ := ⟨[], true⟩
  recordLesson _ _ := (true, ())
  searchLessons _ _ := ⟨[], true⟩
  rememberLocation _ _ _ := (true, ())
  listLocations _ := ⟨[], true⟩

variable {W : Type}

section Paths

def resolvePath (host : HostState) (path : Bytes) : Bytes :=
  defaultBareFilenameToDesktop (substituteBareDesktopToken path host.desktopPath) host.desktopPath

def inventedDesktopError (host : HostState) (subject : Bytes) : Bytes :=
  subject ++ " its own \"desktop\" location instead of using the real one - the actual Desktop " ++
    str "is " ++ host.desktopPath ++ ", use that exact path"

def resolvedPathField (path resolvedPath : Bytes) : List Bytes :=
  if resolvedPath ≠ path then [jsonStringField "resolved_path" resolvedPath] else []

-- The advice that the file tools give on a placeholder path, up to the place to look in.
def placeholderPathError (directory wanted : Bytes) : Bytes :=
  str "this looks like a placeholder path (e.g. \"/path/to/...\"), not a real one - " ++
    "call list_dir or stat_path on the actual " ++ directory ++ " first to find the real " ++
    wanted ++ ", then retry with that exact path"

end Paths

section Files

def unreadJson (error : Bytes) : Bytes :=
  jsonObject [
    jsonBoolField "ok" false,
    jsonStringField "content" [],
    jsonIntField "size_bytes" 0,
    jsonBoolField "truncated" false,
    jsonStringField "error" error
  ]

-- `none` when an exception escapes, here and in `listDir`.
def readFile (m : Machine W) (host : HostState) (body : Bytes) (w : W) : Ran W (Option Bytes) :=
  let path := extractJsonStringField body "path"
  let maxBytes := (extractJsonInt32Field body "max_bytes").getD 65536
  let resolvedPath := resolvePath host path
  if looksLikePlaceholderPath path then
    ⟨some <| unreadJson <| str "this looks like a placeholder path (e.g. \"/Users/username/...\"), not " ++
      "a real one - call list_dir on the actual directory (or get_system_info for the real " ++
      "username/Desktop path) first, then retry with that exact path", [], w⟩
  else if looksLikeInventedDesktopPath resolvedPath host.desktopPath then
    ⟨some (unreadJson (inventedDesktopError host "this path invents")), [], w⟩
  else
    match m.readFile resolvedPath maxBytes w with
    | none        => ⟨none, [], w⟩
    | some result =>
      ⟨some <| jsonObject <| [
          jsonBoolField "ok" result.ok,
          jsonStringField "content" result.content,
          jsonIntField "size_bytes" result.sizeBytes,
          jsonBoolField "truncated" result.truncated,
          jsonStringField "error" result.errorMessage
        ] ++ resolvedPathField path resolvedPath,
        [⟨"fs", "in", str "read " ++ resolvedPath, result.ok⟩], w⟩

def writeFile (m : Machine W) (host : HostState) (body : Bytes) (w : W) : Ran W Bytes :=
  let path := extractJsonStringField body "path"
  let content := extractJsonStringField body "content"
  let appendMode := (extractJsonBoolField body "append").getD false
  let resolvedPath := resolvePath host path
  if looksLikePlaceholderPath path then
    ⟨failureJson (placeholderPathError "directory" "location"), [], w⟩
  else if looksLikeInventedDesktopPath resolvedPath host.desktopPath then
    ⟨failureJson (inventedDesktopError host "this path invents"), [], w⟩
  else if looksLikeMismatchedBinaryContent resolvedPath content then
    ⟨failureJson <| str "the path looks like a real image/media file, but the content does not " ++
      "start with that format's actual file signature - write_file writes exact text, it cannot " ++
      "generate real binary image/media data. Use run_ffmpeg to actually create an image or " ++
      "media file, then write_file for text files only", [], w⟩
  else
    let (result, w) := m.writeFile resolvedPath content appendMode w
    let verification := m.statPath resolvedPath w
    let verb := if appendMode then str "append " else "write "
    ⟨jsonObject <| [
        jsonBoolField "ok" result.ok,
        jsonIntField "bytes_written" result.bytesWritten,
        jsonStringField "error" result.errorMessage
      ] ++ resolvedPathField path resolvedPath
      ++ (if result.ok then [
          jsonBoolField "verified_exists"
            (verification.ok && verification.pathExists && verification.isFile),
          jsonIntField "verified_size_bytes" verification.sizeBytes
        ] else []),
      [⟨"fs", "out", verb ++ resolvedPath, result.ok⟩], w⟩

def dirEntryJson (entry : DirEntryInfo) : Bytes :=
  jsonObject [
    jsonStringField "name" entry.name,
    jsonBoolField "is_dir" entry.isDir,
    jsonIntField "size_bytes" entry.sizeBytes
  ]

def listDir (m : Machine W) (body : Bytes) (w : W) : Ran W (Option Bytes) :=
  let path := extractJsonStringField body "path"
  match m.listDir path w with
  | none        => ⟨none, [], w⟩
  | some result =>
    ⟨some <| jsonObject [
        jsonBoolField "ok" result.ok,
        needle "entries" ++ jsonArray (result.entries.map dirEntryJson),
        jsonStringField "error" result.errorMessage
      ],
      [⟨"fs", "in", str "list " ++ (if path = [] then str "." else path), result.ok⟩], w⟩

def statPath (m : Machine W) (body : Bytes) (w : W) : Bytes :=
  let result := m.statPath (extractJsonStringField body "path") w
  jsonObject [
    jsonBoolField "ok" result.ok,
    jsonBoolField "exists" result.pathExists,
    jsonBoolField "is_dir" result.isDir,
    jsonBoolField "is_file" result.isFile,
    jsonIntField "size_bytes" result.sizeBytes,
    jsonStringField "error" result.errorMessage
  ]

def getCwdJson (m : Machine W) (w : W) : Bytes :=
  jsonObject [jsonBoolField "ok" true, jsonStringField "cwd" ((m.currentPath w).getD [])]

def whichExecutableJson (m : Machine W) (body : Bytes) (w : W) : Bytes :=
  let result := m.whichExecutable (extractJsonStringField body "name") w
  jsonObject [
    jsonBoolField "ok" result.ok,
    jsonStringField "path" result.resolvedPath,
    jsonStringField "error" result.errorMessage
  ]

-- `copy_file_json` and `move_path_json` are one procedure up to what they do and check behind it.
structure Transfer (W : Type) where
  verb : Bytes
  run : Bytes → Bytes → W → FileOpResult × W
  verified : Bytes → Bytes → W → List Bytes

def copyTransfer (m : Machine W) : Transfer W where
  verb := "copy "
  run := m.copyFile
  verified _ destination w :=
    let verification := m.statPath destination w
    [jsonBoolField "verified_exists"
        (verification.ok && verification.pathExists && verification.isFile),
      jsonIntField "verified_size_bytes" verification.sizeBytes]

def moveTransfer (m : Machine W) : Transfer W where
  verb := "move "
  run := m.movePath
  verified source destination w :=
    let destinationCheck := m.statPath destination w
    let sourceCheck := m.statPath source w
    [jsonBoolField "verified_exists" (destinationCheck.ok && destinationCheck.pathExists),
      jsonBoolField "verified_source_removed" (sourceCheck.ok && !sourceCheck.pathExists)]

def Transfer.json (t : Transfer W) (host : HostState) (body : Bytes) (w : W) : Ran W Bytes :=
  let source := extractJsonStringField body "source_path"
  let destination := extractJsonStringField body "destination_path"
  let resolvedSource := resolvePath host source
  let resolvedDestination := resolvePath host destination
  if looksLikePlaceholderPath source || looksLikePlaceholderPath destination then
    ⟨failureJson (placeholderPathError "directory" "file"), [], w⟩
  else if looksLikeInventedDesktopPath resolvedSource host.desktopPath
      || looksLikeInventedDesktopPath resolvedDestination host.desktopPath then
    ⟨failureJson (inventedDesktopError host "one of these paths invents"), [], w⟩
  else
    let (result, w) := t.run resolvedSource resolvedDestination w
    ⟨jsonObject <| [jsonBoolField "ok" result.ok, jsonStringField "error" result.errorMessage]
      ++ (if resolvedSource ≠ source ∨ resolvedDestination ≠ destination then [
          jsonStringField "resolved_source_path" resolvedSource,
          jsonStringField "resolved_destination_path" resolvedDestination
        ] else [])
      ++ (if result.ok then t.verified resolvedSource resolvedDestination w else []),
      [⟨"fs", "out", t.verb ++ resolvedSource ++ " -> " ++ resolvedDestination, result.ok⟩], w⟩

def copyFileJson (m : Machine W) (host : HostState) (body : Bytes) (w : W) : Ran W Bytes :=
  (copyTransfer m).json host body w

def movePathJson (m : Machine W) (host : HostState) (body : Bytes) (w : W) : Ran W Bytes :=
  (moveTransfer m).json host body w

-- `delete_file_json` and `create_directory_json`, in the same way.
structure PathChange (W : Type) where
  verb : Bytes
  directory : Bytes
  wanted : Bytes
  run : Bytes → W → FileOpResult × W
  verified : Bytes → W → Bytes

def deletion (m : Machine W) : PathChange W where
  verb := "delete "
  directory := "directory"
  wanted := "file"
  run := m.deleteFile
  verified path w :=
    let verification := m.statPath path w
    jsonBoolField "verified_deleted" (verification.ok && !verification.pathExists)

def creation (m : Machine W) : PathChange W where
  verb := "mkdir "
  directory := "parent directory"
  wanted := "location"
  run := m.createDirectory
  verified path w :=
    let verification := m.statPath path w
    jsonBoolField "verified_is_directory"
      (verification.ok && verification.pathExists && verification.isDir)

def PathChange.json (c : PathChange W) (host : HostState) (body : Bytes) (w : W) : Ran W Bytes :=
  let path := extractJsonStringField body "path"
  let resolvedPath := resolvePath host path
  if looksLikePlaceholderPath path then
    ⟨failureJson (placeholderPathError c.directory c.wanted), [], w⟩
  else if looksLikeInventedDesktopPath resolvedPath host.desktopPath then
    ⟨failureJson (inventedDesktopError host "this path invents"), [], w⟩
  else
    let (result, w) := c.run resolvedPath w
    ⟨jsonObject <| [jsonBoolField "ok" result.ok, jsonStringField "error" result.errorMessage]
      ++ resolvedPathField path resolvedPath
      ++ (if result.ok then [c.verified resolvedPath w] else []),
      [⟨"fs", "out", c.verb ++ resolvedPath, result.ok⟩], w⟩

def deleteFileJson (m : Machine W) (host : HostState) (body : Bytes) (w : W) : Ran W Bytes :=
  (deletion m).json host body w

def createDirectoryJson (m : Machine W) (host : HostState) (body : Bytes) (w : W) : Ran W Bytes :=
  (creation m).json host body w

end Files

section Machine

def listOpenWindowsJson (m : Machine W) (w : W) : Bytes :=
  jsonObject [jsonBoolField "ok" true,
    needle "windows" ++ jsonArray ((m.listOpenWindows w).entries.map fun window => jsonObject [
      jsonStringField "title" window.title,
      jsonStringField "process_name" window.processName,
      jsonIntField "pid" window.pid
    ])]

def readClipboardJson (m : Machine W) (w : W) : Bytes :=
  let result := m.readTextFromClipboard w
  jsonObject [
    jsonBoolField "ok" result.ok,
    jsonStringField "text" result.text,
    jsonStringField "error" result.errorMessage
  ]

def writeClipboardJson (m : Machine W) (body : Bytes) (w : W) : Ran W Bytes :=
  let text := extractJsonStringField body "text"
  let (result, w) := m.writeTextToClipboard text w
  let verification := m.readTextFromClipboard w
  ⟨jsonObject [
      jsonBoolField "ok" result.ok,
      jsonStringField "error" result.errorMessage,
      jsonBoolField "verified_matches" (result.ok && verification.ok && verification.text = text)
    ],
    [⟨"clipboard", "out", str "wrote " ++ decimal text.length ++ " chars to clipboard", result.ok⟩],
    w⟩

def buildSystemInfoJson (m : Machine W) (host : HostState) (w : W) : Bytes :=
  jsonObject [
    jsonBoolField "ok" true,
    jsonStringField "os_name" m.systemInfo.osName,
    jsonStringField "os_version" m.systemInfo.osVersion,
    jsonStringField "architecture" m.systemInfo.architecture,
    jsonStringField "hostname" m.systemInfo.hostname,
    jsonStringField "username" m.systemInfo.username,
    jsonStringField "cwd" m.systemInfo.cwd,
    jsonStringField "desktop_path" host.desktopPath,
    jsonStringField "current_datetime" (m.makeFullLogTimestamp w)
  ]

def buildHardwareInfoJson (m : Machine W) : Bytes :=
  match m.hardwareInfo with
  | none =>
    jsonObject [jsonBoolField "ok" true, jsonBoolField "enabled" false, jsonStringField "error" <|
      str "hardware scanning is disabled - restart droidcli with --enable-hardware-scan to turn " ++
        "it on"]
  | some hardware =>
    jsonObject [
      jsonBoolField "ok" true,
      jsonBoolField "enabled" true,
      jsonStringField "cpu_name" hardware.cpuName,
      jsonIntField "cpu_core_count" hardware.cpuCoreCount,
      jsonIntField "total_ram_bytes" hardware.totalRamBytes,
      needle "gpus" ++ jsonArray (hardware.gpus.map fun name =>
        jsonObject [jsonStringField "name" name]),
      needle "disks" ++ jsonArray (hardware.disks.map fun disk => jsonObject [
        jsonStringField "drive" disk.drive,
        jsonIntField "total_bytes" disk.totalBytes,
        jsonIntField "free_bytes" disk.freeBytes
      ])
    ]

end Machine

section Memory

def recordCommandFixJson (m : Machine W) (body : Bytes) (w : W) : Ran W Bytes :=
  let tool := extractJsonStringField body "tool"
  let broken := extractJsonStringField body "broken"
  let failureReason := extractJsonStringField body "failure_reason"
  let working := extractJsonStringField body "working"
  let lesson := extractJsonStringField body "lesson"
  if tool = [] ∨ broken = [] ∨ working = [] ∨ lesson = [] then
    ⟨failureJson "tool, broken, working, and lesson are all required", [], w⟩
  else
    let createdAt := m.makeFullLogTimestamp w
    let (ok, w) := m.recordLesson ⟨tool, broken, failureReason, working, lesson, createdAt⟩ w
    ⟨jsonObject [jsonBoolField "ok" ok],
      [⟨"lessons", "in", str "recorded fix for " ++ tool ++ ": " ++ lesson, ok⟩], w⟩

def searchCommandFixesJson (m : Machine W) (body : Bytes) (w : W) : Bytes :=
  let lessons := m.searchLessons (extractJsonStringField body "query") w
  jsonObject [jsonBoolField "ok" true,
    needle "lessons" ++ jsonArray (lessons.entries.map fun entry => jsonObject [
      jsonStringField "tool" entry.tool,
      jsonStringField "broken" entry.broken,
      jsonStringField "failure_reason" entry.failureReason,
      jsonStringField "working" entry.working,
      jsonStringField "lesson" entry.lesson,
      jsonStringField "created_at" entry.createdAt
    ])]

def rememberLocationJson (m : Machine W) (host : HostState) (body : Bytes) (w : W) : Ran W Bytes :=
  let name := extractJsonStringField body "name"
  let path := extractJsonStringField body "path"
  let resolvedPath := substituteBareDesktopToken path host.desktopPath
  let verification := m.statPath resolvedPath w
  if name = [] ∨ path = [] then ⟨failureJson "name and path are both required", [], w⟩
  else if looksLikePlaceholderPath path then
    ⟨failureJson <| str "this looks like a placeholder path, not a real one - resolve it with " ++
      "list_dir/stat_path first, then remember the real path", [], w⟩
  else if !verification.ok || !verification.pathExists then
    ⟨failureJson <| str "path does not exist - cannot remember a location that isn't real: " ++
      resolvedPath, [], w⟩
  else
    let (ok, w) := m.rememberLocation name resolvedPath w
    ⟨jsonObject <| [jsonBoolField "ok" ok, jsonStringField "resolved_path" resolvedPath]
      ++ (if resolvedPath ≠ path then [jsonStringField "original_path" path] else []),
      [⟨"locations", "in", str "remembered '" ++ name ++ "' -> " ++ resolvedPath, ok⟩], w⟩

def systemLocations (info : SystemInfo) : List (Bytes × Bytes) :=
  [(str "Home", info.homePath), (str "Documents", info.documentsPath),
    (str "Downloads", info.downloadsPath),
    (str "Program Files (apps)", info.programFilesPath)].filter (·.2 ≠ [])

def listKnownLocationsJson (m : Machine W) (host : HostState) (w : W) : Bytes :=
  jsonObject [
    jsonBoolField "ok" true,
    jsonStringField "cwd" m.systemInfo.cwd,
    jsonStringField "desktop_path" host.desktopPath,
    needle "system_locations" ++ jsonArray ((systemLocations m.systemInfo).map fun (name, path) =>
      jsonObject [jsonStringField "name" name, jsonStringField "path" path]),
    needle "known_locations" ++ jsonArray ((m.listLocations w).entries.map fun location =>
      jsonObject [
        jsonStringField "name" location.name,
        jsonStringField "resolved_path" location.resolvedPath,
        jsonStringField "updated_at" location.updatedAt
      ])
  ]

end Memory

section Execute

def Ran.some (r : Ran W Bytes) : Ran W (Option Bytes) :=
  ⟨Option.some r.value, r.logged, r.world⟩

-- `execute_agent_tool` on the tools of `osTools`.
def runOsTool (m : Machine W) (host : HostState) (toolName argumentsJson : Bytes) (w : W) :
    Ran W (Option Bytes) :=
  let answer (result : Bytes) : Ran W (Option Bytes) := ⟨some result, [], w⟩
  if toolName = str "list_open_windows" then answer (listOpenWindowsJson m w)
  else if toolName = str "read_file" then readFile m host argumentsJson w
  else if toolName = str "write_file" then (writeFile m host argumentsJson w).some
  else if toolName = str "list_dir" then listDir m argumentsJson w
  else if toolName = str "stat_path" then answer (statPath m argumentsJson w)
  else if toolName = str "get_cwd" then answer (getCwdJson m w)
  else if toolName = str "which" then answer (whichExecutableJson m argumentsJson w)
  else if toolName = str "copy_file" then (copyFileJson m host argumentsJson w).some
  else if toolName = str "move_path" then (movePathJson m host argumentsJson w).some
  else if toolName = str "delete_file" then (deleteFileJson m host argumentsJson w).some
  else if toolName = str "create_directory" then (createDirectoryJson m host argumentsJson w).some
  else if toolName = str "read_clipboard" then answer (readClipboardJson m w)
  else if toolName = str "write_clipboard" then (writeClipboardJson m argumentsJson w).some
  else if toolName = str "get_system_info" then answer (buildSystemInfoJson m host w)
  else if toolName = str "get_hardware_info" then answer (buildHardwareInfoJson m)
  else if toolName = str "search_command_fixes" then
    answer (searchCommandFixesJson m argumentsJson w)
  else if toolName = str "remember_location" then (rememberLocationJson m host argumentsJson w).some
  else if toolName = str "get_known_locations" then answer (listKnownLocationsJson m host w)
  else (recordCommandFixJson m argumentsJson w).some

-- The machine as the host's other parts see it, which leave an exception out.
def Os.on (os : Os W) (m : Machine W) (host : HostState) : Os W :=
  { os with
    osTool := fun toolName argumentsJson w =>
      let ran := runOsTool m host toolName argumentsJson w
      ((ran.value.getD [], ran.logged), ran.world) }

-- `execute_agent_tool` with every one of its tools.
def executeTool (os : Os W) (m : Machine W) (host : HostState) (appLog : List AppLogEntry)
    (toolName argumentsJson : Bytes) (w : W) : Ran W (Option Bytes) × HostState :=
  if toolName ∈ osTools then (runOsTool m host toolName argumentsJson w, host)
  else executeAgentTool os host appLog toolName argumentsJson w

-- Where nothing is thrown, this is what the agent executes on that machine.
theorem executeAgentTool_on {os : Os W} {m : Machine W} {host : HostState}
    {appLog : List AppLogEntry} {toolName argumentsJson : Bytes} {w : W}
    (h : (runOsTool m host toolName argumentsJson w).value ≠ none) :
    executeAgentTool (os.on m host) host appLog toolName argumentsJson w =
      executeTool os m host appLog toolName argumentsJson w := by
  have ⟨text, ht⟩ := Option.ne_none_iff_exists'.mp h
  by_cases ho : toolName ∈ osTools
  case neg =>
    simp only [executeTool, executeAgentTool, ho, if_false]
    rfl
  case pos =>
    have hr : ((os.on m host).osTool toolName argumentsJson w).1.1 = text := by simp [Os.on, ht]
    have hx : executeTool os m host appLog toolName argumentsJson w =
        (⟨some text, (runOsTool m host toolName argumentsJson w).logged,
          (runOsTool m host toolName argumentsJson w).world⟩, host) := by
      simp [executeTool, ho, ← ht]
    rw [hx]
    simp only [osTools, List.mem_cons, List.not_mem_nil, or_false] at ho
    rcases ho with rfl | rfl | rfl | rfl | rfl | rfl | rfl | rfl | rfl | rfl | rfl | rfl | rfl |
      rfl | rfl | rfl | rfl | rfl | rfl
    all_goals simp [executeAgentTool, osTools, str_inj, Os.on, ht]

end Execute
end Droidcli.Cli
