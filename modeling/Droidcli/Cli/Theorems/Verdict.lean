import Droidcli.Cli.Theorems.Outcomes
import Droidcli.Cli.Theorems.Reports

namespace Droidcli.Cli

open Bytes Net App Reliability

variable {W : Type}

section Success

-- What it means for a tool's operation to succeed. A tool that turns its arguments down performs
-- none, and a report from the host's own memory cannot fail. Which answers of a peer count as a
-- success, and whether a listing of a directory has to be detailed, is left open.

variable (accepted : Int → Bytes → Bool) (detailed : Bool) (ground : Ground W)
variable (os : Os W) (m : Machine W) (host : HostState)

namespace Ground

def commandEnd (argumentsJson : Bytes) (w : W) : CommandEnd :=
  let runner := commandRunner os
  if isRequested runner argumentsJson then
    ground.processes.commandEnd ground.platform true (requestedCommand runner host argumentsJson)
      (requestedWorkDir host argumentsJson) (requestedTimeoutMs runner argumentsJson) w
  else .refused []

def ffmpegEnd (argumentsJson : Bytes) (w : W) : CommandEnd :=
  let runner := ffmpegRunner os
  if isRequested runner argumentsJson then
    ground.processes.ffmpegEnd ground.files ground.platform
      (requestedCommand runner host argumentsJson) (requestedWorkDir host argumentsJson)
      (requestedTimeoutMs runner argumentsJson) w
  else .refused []

def launches (connectorId : Bytes) (w : W) : Bool :=
  (launchable host connectorId).any fun connector =>
    ground.processes.runsShell ground.files ground.platform connector w

def opens (argumentsJson : Bytes) (w : W) : Bool :=
  (openTarget (ground.os os) host argumentsJson w).any fun target =>
    ground.processes.runs ground.platform target.target target.effectiveArgs
      (extractJsonStringField argumentsJson "work_dir") w

def reads (argumentsJson : Bytes) (w : W) : Bool :=
  usablePath host (extractJsonStringField argumentsJson "path") &&
    ground.files.reads (requestedPath host argumentsJson) (requestedBytes argumentsJson) w

def writes (argumentsJson : Bytes) (w : W) : Bool :=
  writable host argumentsJson &&
    ground.files.writes (requestedPath host argumentsJson)
      (extractJsonStringField argumentsJson "content") (isAppend argumentsJson) w

-- `run` is what the files have to make of the source and the destination.
def transfers (run : Bytes → Bytes → W → Bool) (argumentsJson : Bytes) (w : W) : Bool :=
  transferable host argumentsJson &&
    run (resolvePath host (extractJsonStringField argumentsJson "source_path"))
      (resolvePath host (extractJsonStringField argumentsJson "destination_path")) w

def changes (run : Bytes → W → Bool) (argumentsJson : Bytes) (w : W) : Bool :=
  usablePath host (extractJsonStringField argumentsJson "path") &&
    run (requestedPath host argumentsJson) w

def records (argumentsJson : Bytes) (w : W) : Bool :=
  isComplete argumentsJson && ground.tables.records (requestedLesson m argumentsJson w) w

def remembers (argumentsJson : Bytes) (w : W) : Bool :=
  isLocation (ground.machine m) host argumentsJson w &&
    ground.tables.remembers (extractJsonStringField argumentsJson "name")
      (requestedLocation host argumentsJson) w

end Ground

def toolSucceeds (toolName argumentsJson : Bytes) (w : W) : Bool :=
  let field (name : Bytes) := extractJsonStringField argumentsJson name
  let now := os.currentTimestampMs w
  let files := ground.files
  if toolName = str "list_connectors" then true
  else if toolName = str "connector_status" then
    (findConnector host.connectors (field "id")).isSome
  else if toolName = str "launch_connector" then ground.launches host (field "id") w
  else if toolName = str "stop_connector" then ground.processes.stops (field "id") w
  else if toolName = str "call_connector" then
    let method := if field "method" = [] then str "POST" else field "method"
    callSucceeds accepted os host (field "id") (field "path") method (field "payload_json") w
  else if toolName = str "enqueue_task" then
    (parseTaskRequestFromJson argumentsJson now).any (·.isOk)
  else if toolName = str "list_tasks" then true
  else if toolName = str "cancel_task" then cancelSucceeds host (field "task_id") now
  else if toolName = str "run_command" then (ground.commandEnd os host argumentsJson w).succeeds
  else if toolName = str "find_application" then true
  else if toolName = str "list_windows_locations" then true
  else if toolName = str "open_application" then ground.opens os host argumentsJson w
  else if toolName = str "run_ffmpeg" then (ground.ffmpegEnd os host argumentsJson w).succeeds
  else if toolName = str "self_status" then true
  else if toolName = str "list_open_windows" then (m.listOpenWindows w).complete
  else if toolName = str "read_file" then ground.reads host argumentsJson w
  else if toolName = str "write_file" then ground.writes host argumentsJson w
  else if toolName = str "list_dir" then files.lists detailed (field "path") w
  else if toolName = str "stat_path" then files.stats (field "path") w
  else if toolName = str "get_cwd" then (files.currentPath w).isSome
  else if toolName = str "which" then files.finds ground.platform (field "name") w
  else if toolName = str "copy_file" then Ground.transfers host files.copies argumentsJson w
  else if toolName = str "move_path" then Ground.transfers host files.moves argumentsJson w
  else if toolName = str "delete_file" then Ground.changes host files.deletes argumentsJson w
  else if toolName = str "create_directory" then Ground.changes host files.creates argumentsJson w
  else if toolName = str "read_clipboard" then ground.clipboard.fetches ground.platform w
  else if toolName = str "write_clipboard" then
    ground.clipboard.places ground.platform (field "text") w
  else if toolName = str "get_system_info" then true
  else if toolName = str "get_hardware_info" then true
  else if toolName = str "search_command_fixes" then (m.searchLessons (field "query") w).complete
  else if toolName = str "remember_location" then
    ground.remembers m host argumentsJson w
  else if toolName = str "get_known_locations" then (m.listLocations w).complete
  else if toolName = str "record_command_fix" then ground.records m argumentsJson w
  else false

end Success

section Claim

variable (accepted : Int → Bytes → Bool) (detailed : Bool) (ground : Ground W)
variable (os : Os W) (m : Machine W) (host : HostState) (appLog : List AppLogEntry)

-- The tool answers, and what it answers says whether its operation succeeded.
def CarriesVerdict (toolName argumentsJson : Bytes) (w : W) : Prop :=
  ∃ text, (executeTool (ground.os os) (ground.machine m) host appLog toolName argumentsJson
      w).1.value = some text ∧
    verdict text = some (toolSucceeds accepted detailed ground os m host toolName argumentsJson w)

-- What keeps a result's verdict. For most of the tools, it is that the system under them does not
-- fail where nobody looks.
@[mk_iff]
structure VerdictKept (toolName argumentsJson : Bytes) (w : W) : Prop where
  launched : toolName = str "launch_connector" →
    ∃ c, launchable host (extractJsonStringField argumentsJson "id") = some c ∧
      ground.processes.StartsShell ground.files ground.platform c w
  stopped : toolName = str "stop_connector" →
    (ground.processes.stop (extractJsonStringField argumentsJson "id") w).1 ≠ .signalled false
  relayed : toolName = str "call_connector" → ∀ c status answer,
    findConnector host.connectors (extractJsonStringField argumentsJson "id") = some c →
    c.kind = str "http_peer" → c.enabled →
    peerReply os c (extractJsonStringField argumentsJson "path")
      (if extractJsonStringField argumentsJson "method" = [] then str "POST"
        else extractJsonStringField argumentsJson "method")
      (extractJsonStringField argumentsJson "payload_json") w = some (status, answer) →
    verdict answer = some (accepted status answer)
  parsed : toolName = str "enqueue_task" →
    parseTaskRequestFromJson argumentsJson (os.currentTimestampMs w) ≠ none
  ran : toolName = str "run_command" → (ground.commandEnd os host argumentsJson w).IsTold
  encoded : toolName = str "run_ffmpeg" → (ground.ffmpegEnd os host argumentsJson w).IsTold
  opened : toolName = str "open_application" →
    extractJsonStringField argumentsJson "path_or_name" ≠ [] ∧
      ∀ target, openTarget (ground.os os) host argumentsJson w = some target →
        ground.processes.Arrives ground.platform target.target target.effectiveArgs
          (extractJsonStringField argumentsJson "work_dir") w
  read : toolName = str "read_file" →
    usablePath host (extractJsonStringField argumentsJson "path") →
    ground.files.readable (requestedPath host argumentsJson) w →
    ∀ size, ground.files.fileSize (requestedPath host argumentsJson) w = some size →
      ground.files.readsUpTo (requestedPath host argumentsJson) (requestedBytes argumentsJson) w size
  written : toolName = str "write_file" → writable host argumentsJson →
    ground.files.Flushes (requestedPath host argumentsJson)
      (extractJsonStringField argumentsJson "content") (isAppend argumentsJson) w
  listed : toolName = str "list_dir" →
    ground.files.Lists detailed (extractJsonStringField argumentsJson "path") w
  told : toolName = str "stat_path" → extractJsonStringField argumentsJson "path" ≠ [] →
    ground.files.told (extractJsonStringField argumentsJson "path") w
  located : toolName = str "get_cwd" → (ground.files.currentPath w).isSome
  found : toolName = str "which" →
    ground.platform.whichExecutable (ground.files.lookups w)
      (extractJsonStringField argumentsJson "name") ≠ some []
  created : toolName = str "create_directory" →
    usablePath host (extractJsonStringField argumentsJson "path") →
    ground.files.Creates (requestedPath host argumentsJson) w
  fetched : toolName = str "read_clipboard" → ground.platform = .windows →
    ∀ length, ground.clipboard.fetch w = .ok (length, none) → length ≤ 1
  placed : toolName = str "write_clipboard" → ground.platform = .windows → ∀ held,
    (ground.clipboard.place (cstr (extractJsonStringField argumentsJson "text")) w).1 = .ok held →
      held = extractJsonStringField argumentsJson "text"
  remembered : toolName = str "remember_location" →
    isLocation (ground.machine m) host argumentsJson w →
    ground.tables.Remembers (extractJsonStringField argumentsJson "name")
      (requestedLocation host argumentsJson) w
  recorded : toolName = str "record_command_fix" → isComplete argumentsJson →
    ground.tables.Records (requestedLesson m argumentsJson w) w
  enumerated : toolName = str "list_open_windows" → (m.listOpenWindows w).complete
  searched : toolName = str "search_command_fixes" →
    (m.searchLessons (extractJsonStringField argumentsJson "query") w).complete
  recalled : toolName = str "get_known_locations" → (m.listLocations w).complete

-- The tools that the conditions are about.
def doubtfulTools : List Bytes := [
  "launch_connector", "stop_connector", "call_connector", "enqueue_task", "run_command",
  "run_ffmpeg", "open_application", "read_file", "write_file", "list_dir", "stat_path", "get_cwd",
  "which", "create_directory", "read_clipboard", "write_clipboard", "remember_location",
  "record_command_fix", "list_open_windows", "search_command_fixes", "get_known_locations"
]

variable {accepted detailed ground os m host appLog} {toolName argumentsJson : Bytes} {w : W}

theorem verdictKept_of_not_mem (h : toolName ∉ doubtfulTools) :
    VerdictKept accepted detailed ground os m host toolName argumentsJson w := by
  simp only [doubtfulTools, List.mem_cons, List.not_mem_nil, or_false, not_or] at h
  constructor <;> intro ht <;> simp_all

section Answers

variable {text : Bytes} {asked reported succeeded : Bool}

theorem kept_iff (hv : verdict text = some succeeded) (h : toolName ∉ doubtfulTools) :
    (∃ t, some text = some t ∧ verdict t = some succeeded) ↔
      VerdictKept accepted detailed ground os m host toolName argumentsJson w :=
  iff_of_true ⟨text, rfl, hv⟩ (verdictKept_of_not_mem h)

theorem answered_iff :
    (∃ t, some text = some t ∧ verdict t = some succeeded) ↔ verdict text = some succeeded := by
  simp

-- A tool tells what it makes of its operation.
theorem reported_iff (hv : verdict text = some reported) :
    (∃ t, some text = some t ∧ verdict t = some succeeded) ↔ reported = succeeded := by
  simp [hv]

theorem asked_iff (hv : verdict text = some (asked && reported)) :
    (∃ t, some text = some t ∧ verdict t = some (asked && succeeded)) ↔
      (asked → reported = succeeded) := by
  rw [reported_iff hv]
  cases asked <;> simp

end Answers

theorem commandReports_command :
    commandReports (commandRunner (ground.os os)) host argumentsJson w =
        (ground.commandEnd os host argumentsJson w).succeeds ↔
      (ground.commandEnd os host argumentsJson w).IsTold := by
  have hr : isRequested (commandRunner (ground.os os)) argumentsJson =
      isRequested (commandRunner os) argumentsJson := rfl
  simp only [commandReports, Ground.commandEnd, hr]
  cases isRequested (commandRunner os) argumentsJson
  case false => simp [CommandEnd.succeeds, CommandEnd.IsTold]
  case true  => exact Processes.runCommandOnce_iff

theorem commandReports_ffmpeg :
    commandReports (ffmpegRunner (ground.os os)) host argumentsJson w =
        (ground.ffmpegEnd os host argumentsJson w).succeeds ↔
      (ground.ffmpegEnd os host argumentsJson w).IsTold := by
  have hr : isRequested (ffmpegRunner (ground.os os)) argumentsJson =
      isRequested (ffmpegRunner os) argumentsJson := rfl
  simp only [commandReports, Ground.ffmpegEnd, hr]
  cases isRequested (ffmpegRunner os) argumentsJson
  case false => simp [CommandEnd.succeeds, CommandEnd.IsTold]
  case true  => exact Processes.runFfmpeg_iff

theorem carriesVerdict_osTool (h : toolName ∈ osTools) :
    CarriesVerdict accepted detailed ground os m host appLog toolName argumentsJson w ↔
      VerdictKept accepted detailed ground os m host toolName argumentsJson w := by
  have hx : (executeTool (ground.os os) (ground.machine m) host appLog toolName argumentsJson w).1 =
      runOsTool (ground.machine m) host toolName argumentsJson w := by
    simp [executeTool, h]
  unfold CarriesVerdict
  rw [hx]
  simp only [osTools, List.mem_cons, List.not_mem_nil, or_false] at h
  rcases h with rfl | rfl | rfl | rfl | rfl | rfl | rfl | rfl | rfl | rfl | rfl | rfl | rfl | rfl |
    rfl | rfl | rfl | rfl | rfl
  all_goals simp only [runOsTool, toolSucceeds, str_inj, String.reduceEq, if_true, if_false]
  -- list_open_windows
  · refine (reported_iff verdict_jsonObject).trans ?_
    simp [verdictKept_iff, str_inj]
  -- read_file
  · refine verdict_readFile.trans ((forall_congr' fun _ => Filesystem.readFile_iff).trans ?_)
    simp [verdictKept_iff, str_inj]
  -- write_file
  · have hw := @Filesystem.writeFile_iff W w ground.files (requestedPath host argumentsJson)
      (extractJsonStringField argumentsJson "content") (isAppend argumentsJson)
    refine (asked_iff verdict_writeFile).trans ((forall_congr' fun _ => hw).trans ?_)
    simp [verdictKept_iff, str_inj]
  -- list_dir
  · refine verdict_listDir.trans (Filesystem.listDir_iff.trans ?_)
    simp [verdictKept_iff, str_inj]
  -- stat_path
  · refine (reported_iff verdict_jsonObject).trans (Filesystem.statPath_iff.trans ?_)
    simp [verdictKept_iff, str_inj]
  -- get_cwd
  · refine (reported_iff verdict_jsonObject).trans ?_
    simp [verdictKept_iff, str_inj]
  -- which
  · refine (reported_iff verdict_jsonObject).trans (Filesystem.whichExecutable_iff.trans ?_)
    simp [verdictKept_iff, str_inj]
  -- copy_file
  · refine kept_iff (verdict_transfer.trans ?_) (by decide)
    exact congrArg (fun ok => some (transferable host argumentsJson && ok)) Filesystem.copyFileTo_ok
  -- move_path
  · refine kept_iff (verdict_transfer.trans ?_) (by decide)
    exact congrArg (fun ok => some (transferable host argumentsJson && ok)) Filesystem.movePath_ok
  -- delete_file
  · refine kept_iff (verdict_change.trans ?_) (by decide)
    exact congrArg (fun ok => some (usablePath host _ && ok)) Filesystem.deleteFile_ok
  -- create_directory
  · have hc := @Filesystem.createDirectory_iff W w ground.files (requestedPath host argumentsJson)
    refine (asked_iff verdict_change).trans ((forall_congr' fun _ => hc).trans ?_)
    simp [verdictKept_iff, str_inj]
  -- read_clipboard
  · refine (reported_iff verdict_jsonObject).trans (Clipboard.readText_iff.trans ?_)
    simp [verdictKept_iff, str_inj]
  -- write_clipboard
  · refine (reported_iff verdict_jsonObject).trans (Clipboard.writeText_iff.trans ?_)
    simp [verdictKept_iff, str_inj]
  · exact kept_iff verdict_jsonObject (by decide)
  · exact kept_iff verdict_buildHardwareInfoJson (by decide)
  -- search_command_fixes
  · refine (reported_iff verdict_jsonObject).trans ?_
    simp [verdictKept_iff, str_inj]
  -- remember_location
  · refine (asked_iff verdict_rememberLocationJson).trans
      ((forall_congr' fun _ => MemoryTables.rememberLocation_iff).trans ?_)
    simp [verdictKept_iff, str_inj]
  -- get_known_locations
  · refine (reported_iff verdict_jsonObject).trans ?_
    simp [verdictKept_iff, str_inj]
  -- record_command_fix
  · have hl : requestedLesson (ground.machine m) argumentsJson w =
        requestedLesson m argumentsJson w := rfl
    refine (asked_iff verdict_recordCommandFixJson).trans
      ((forall_congr' fun _ => MemoryTables.recordLesson_iff).trans ?_)
    simp [verdictKept_iff, str_inj, hl]

-- The tools that work on the host's own state, or on a connector, a command or an application.
def hostTools : List Bytes := [
  "list_connectors", "connector_status", "launch_connector", "stop_connector", "call_connector",
  "enqueue_task", "list_tasks", "cancel_task", "run_command", "find_application",
  "list_windows_locations", "open_application", "run_ffmpeg", "self_status"
]

theorem carriesVerdict_hostTool (h : toolName ∈ hostTools) :
    CarriesVerdict accepted detailed ground os m host appLog toolName argumentsJson w ↔
      VerdictKept accepted detailed ground os m host toolName argumentsJson w := by
  simp only [hostTools, List.mem_cons, List.not_mem_nil, or_false] at h
  rcases h with rfl | rfl | rfl | rfl | rfl | rfl | rfl | rfl | rfl | rfl | rfl | rfl | rfl | rfl
  all_goals simp only [CarriesVerdict, executeTool, osTools, List.mem_cons, List.not_mem_nil,
    executeAgentTool, toolSucceeds, str_inj, String.reduceEq, or_false, if_true, if_false]
  · exact kept_iff verdict_buildConnectorsJson (by decide)
  · exact kept_iff verdict_connectorStatusJson (by decide)
  -- launch_connector
  · refine answered_iff.trans (verdict_launchConnector.trans ?_)
    refine (exists_congr fun c => and_congr_right fun _ => Processes.launch_iff).trans ?_
    simp [verdictKept_iff, str_inj]
  -- stop_connector
  · refine (reported_iff verdict_stopConnector).trans (Processes.stopConnector_iff.trans ?_)
    simp [verdictKept_iff, str_inj]
  -- call_connector
  · have hp : @peerReply W (ground.os os) = peerReply os := rfl
    refine answered_iff.trans (verdict_callConnector.trans ?_)
    simp [verdictKept_iff, str_inj, hp]
  -- enqueue_task
  · have hn : (ground.os os).currentTimestampMs = os.currentTimestampMs := rfl
    refine verdict_enqueueTask.trans ?_
    simp [verdictKept_iff, str_inj, hn]
  · exact kept_iff verdict_buildTasksJson (by decide)
  · exact kept_iff verdict_cancelTaskJson (by decide)
  -- run_command
  · refine (reported_iff verdict_runJson).trans (commandReports_command.trans ?_)
    simp [verdictKept_iff, str_inj]
  · exact kept_iff verdict_jsonObject (by decide)
  · exact kept_iff verdict_jsonObject (by decide)
  -- open_application
  · refine answered_iff.trans (verdict_openApplication.trans ?_)
    refine (and_congr_right fun _ => forall_congr' fun target => forall_congr' fun _ =>
      Processes.launchApplication_iff).trans ?_
    simp [verdictKept_iff, str_inj]
  -- run_ffmpeg
  · refine (reported_iff verdict_runJson).trans (commandReports_ffmpeg.trans ?_)
    simp [verdictKept_iff, str_inj]
  · exact kept_iff verdict_jsonObject (by decide)

theorem carriesVerdict_unknown (ho : toolName ∉ osTools) (hh : toolName ∉ hostTools) :
    CarriesVerdict accepted detailed ground os m host appLog toolName argumentsJson w ↔
      VerdictKept accepted detailed ground os m host toolName argumentsJson w := by
  simp only [hostTools, osTools, List.mem_cons, List.not_mem_nil, or_false, not_or] at ho hh
  simp only [CarriesVerdict, executeTool, osTools, List.mem_cons, List.not_mem_nil,
    executeAgentTool, toolSucceeds, ho, hh, or_false, if_false]
  exact kept_iff verdict_failureJson (by simp [doubtfulTools, ho, hh])

theorem carriesVerdict_iff :
    CarriesVerdict accepted detailed ground os m host appLog toolName argumentsJson w ↔
      VerdictKept accepted detailed ground os m host toolName argumentsJson w := by
  by_cases ho : toolName ∈ osTools
  case pos => exact carriesVerdict_osTool ho
  case neg =>
    by_cases hh : toolName ∈ hostTools
    case pos => exact carriesVerdict_hostTool hh
    case neg => exact carriesVerdict_unknown ho hh

end Claim

section Idle

-- A system on which nothing is there, and all that is asked for succeeds.
def Filesystem.idle : Filesystem Unit where
  fileExists _ _ := some false
  isDirectory _ _ := some false
  isRegularFile _ _ := some false
  fileSize _ _ := none
  currentPath _ := some "/"
  absolutePath path _ := some path
  hasParentPath := looksLikePath
  parentPath _ := []
  join directory name := directory ++ slash :: name
  pathVariable _ := []
  opens _ _ := false
  hasRoom _ _ := true
  readStream _ _ _ := []
  holds _ _ := []
  writeStream _ _ _ _ := (.kept, ())
  iterate _ _ := .listed []
  createDirectories _ _ := (.ok true, ())
  copyFile _ _ _ := (.ok (), ())
  rename _ _ _ := (.ok (), ())
  remove _ _ := (.ok true, ())

def Processes.idle : Processes Unit where
  detach _ _ _ := (.forked (some 1) true true true, ())
  createProcess _ _ _ := (.ok ⟨1, none⟩, ())
  forkShell _ _ _ := (.forked true true, ())
  createShell _ _ _ := (.created true, ())
  stop _ _ := (.signalled true, ())
  execute _ _ _ _ := ((.exited 0 true, [], []), ())
  ffmpegRoot _ := []

def Clipboard.idle : Clipboard Unit where
  place text _ := (.ok text, ())
  fetch _ := .ok (1, some [])

def MemoryTables.idle : MemoryTables Unit where
  isOpen _ := true
  insertLesson _ _ := (true, ())
  upsertLocation _ _ _ := (true, ())

def Ground.idle : Ground Unit :=
  ⟨.posix, .idle, .idle, .idle, .idle⟩

-- A call of `open_application` without a name is turned down without a verdict.
theorem not_carriesVerdict :
    ¬∀ (W : Type) (ground : Ground W) (os : Os W) (m : Machine W) (host : HostState)
      (appLog : List AppLogEntry) (toolName argumentsJson : Bytes) (w : W),
      CarriesVerdict (fun status _ => 200 ≤ status ∧ status < 300) false ground os m host appLog
        toolName argumentsJson w := by
  intro h
  have hc := h Unit .idle .idle .idle .initial [] "open_application" (jsonObject []) ()
  exact ((carriesVerdict_hostTool (by decide)).mp hc).opened rfl |>.left (by decide +kernel)

end Idle
end Droidcli.Cli
