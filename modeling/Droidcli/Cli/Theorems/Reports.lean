import Droidcli.Cli.OsTools
import Droidcli.Net.Theorems.Json

namespace Droidcli.Cli

open Bytes Net App Reliability

variable {W : Type}

section Reports

-- What a tool makes of its operation. One that turns its arguments down performs none.

section Arguments

variable (runner : Runner W) (host : HostState) (argumentsJson : Bytes)

def requested : Bytes :=
  extractJsonStringField argumentsJson runner.field

def isRequested : Bool :=
  requested runner argumentsJson ≠ [] && !looksLikePlaceholderPath (requested runner argumentsJson)

def requestedCommand : Bytes :=
  substituteBareDesktopToken (requested runner argumentsJson) host.desktopPath

def requestedWorkDir : Bytes :=
  resolveWorkDirOrDesktop host (extractJsonStringField argumentsJson "work_dir")

def requestedTimeoutMs : Int :=
  (extractJsonInt32Field argumentsJson "timeout_ms").getD runner.defaultTimeoutMs

end Arguments

def commandReports (runner : Runner W) (host : HostState) (argumentsJson : Bytes) (w : W) : Bool :=
  isRequested runner argumentsJson &&
    commandSucceeded (runner.run (requestedCommand runner host argumentsJson)
      (requestedWorkDir host argumentsJson) (requestedTimeoutMs runner argumentsJson) w).1

-- A connector that can be launched.
def launchable (host : HostState) (connectorId : Bytes) : Option Connector :=
  (findConnector host.connectors connectorId).filter (·.kind = str "launched_process")

-- What a peer answers to a call: its status and its body, or nothing when it was not reached.
def peerReply (os : Os W) (connector : Connector) (path method body : Bytes) (w : W) :
    Option (Int × Bytes) :=
  let url := joinUrl connector.baseUrl path
  (if method = str "GET" then os.syncHttpGet url w else os.syncHttpPostJson url body w).1

-- Which answers of a peer count as a success is left open.
def callSucceeds (accepted : Int → Bytes → Bool) (os : Os W) (host : HostState)
    (connectorId path method body : Bytes) (w : W) : Bool :=
  match findConnector host.connectors connectorId with
  | none           => false
  | some connector =>
    connector.kind = str "http_peer" && connector.enabled &&
      (peerReply os connector path method body w).any fun (status, answer) => accepted status answer

-- What `open_application` resolves its arguments to.
def openTarget (os : Os W) (host : HostState) (argumentsJson : Bytes) (w : W) :
    Option ResolvedLaunchTarget :=
  let pathOrName := extractJsonStringField argumentsJson "path_or_name"
  if pathOrName = [] then none
  else
    (resolveOpenApplicationTarget os host w pathOrName
      (extractJsonStringField argumentsJson "args")).toOption

def cancelSucceeds (host : HostState) (taskId : Bytes) (now : Int) : Bool :=
  host.tasks.find taskId ≠ none && (host.tasks.cancel taskId now).1

def usablePath (host : HostState) (path : Bytes) : Bool :=
  !looksLikePlaceholderPath path &&
    !looksLikeInventedDesktopPath (resolvePath host path) host.desktopPath

def requestedPath (host : HostState) (argumentsJson : Bytes) : Bytes :=
  resolvePath host (extractJsonStringField argumentsJson "path")

def requestedBytes (argumentsJson : Bytes) : Int :=
  (extractJsonInt32Field argumentsJson "max_bytes").getD 65536

def isAppend (argumentsJson : Bytes) : Bool :=
  (extractJsonBoolField argumentsJson "append").getD false

-- A content that is none of a media file is written to the path of one only as such.
def writable (host : HostState) (argumentsJson : Bytes) : Bool :=
  usablePath host (extractJsonStringField argumentsJson "path") &&
    !looksLikeMismatchedBinaryContent (requestedPath host argumentsJson)
      (extractJsonStringField argumentsJson "content")

def writeReports (m : Machine W) (host : HostState) (argumentsJson : Bytes) (w : W) : Bool :=
  writable host argumentsJson &&
    (m.writeFile (requestedPath host argumentsJson) (extractJsonStringField argumentsJson "content")
      (isAppend argumentsJson) w).1.ok

-- The source and the destination are usable paths.
def transferable (host : HostState) (argumentsJson : Bytes) : Bool :=
  usablePath host (extractJsonStringField argumentsJson "source_path") &&
    usablePath host (extractJsonStringField argumentsJson "destination_path")

def transferReports (t : Transfer W) (host : HostState) (argumentsJson : Bytes) (w : W) : Bool :=
  transferable host argumentsJson &&
    (t.run (resolvePath host (extractJsonStringField argumentsJson "source_path"))
      (resolvePath host (extractJsonStringField argumentsJson "destination_path")) w).1.ok

def changeReports (c : PathChange W) (host : HostState) (argumentsJson : Bytes) (w : W) : Bool :=
  usablePath host (extractJsonStringField argumentsJson "path") &&
    (c.run (requestedPath host argumentsJson) w).1.ok

def isComplete (argumentsJson : Bytes) : Bool :=
  [str "tool", "broken", "working", "lesson"].all (extractJsonStringField argumentsJson · ≠ [])

def requestedLesson (m : Machine W) (argumentsJson : Bytes) (w : W) : CommandLesson where
  tool := extractJsonStringField argumentsJson "tool"
  broken := extractJsonStringField argumentsJson "broken"
  failureReason := extractJsonStringField argumentsJson "failure_reason"
  working := extractJsonStringField argumentsJson "working"
  lesson := extractJsonStringField argumentsJson "lesson"
  createdAt := m.makeFullLogTimestamp w

def recordReports (m : Machine W) (argumentsJson : Bytes) (w : W) : Bool :=
  isComplete argumentsJson && (m.recordLesson (requestedLesson m argumentsJson w) w).1

def requestedLocation (host : HostState) (argumentsJson : Bytes) : Bytes :=
  substituteBareDesktopToken (extractJsonStringField argumentsJson "path") host.desktopPath

-- A location has a name, and is there.
def isLocation (m : Machine W) (host : HostState) (argumentsJson : Bytes) (w : W) : Bool :=
  let path := extractJsonStringField argumentsJson "path"
  let verification := m.statPath (requestedLocation host argumentsJson) w
  extractJsonStringField argumentsJson "name" ≠ [] && path ≠ [] &&
    !looksLikePlaceholderPath path && (verification.ok && verification.pathExists)

def rememberReports (m : Machine W) (host : HostState) (argumentsJson : Bytes) (w : W) : Bool :=
  isLocation m host argumentsJson w &&
    (m.rememberLocation (extractJsonStringField argumentsJson "name")
      (requestedLocation host argumentsJson) w).1

end Reports

section Read

-- The verdict that a result carries, as its readers take it.
def verdict (resultJson : Bytes) : Option Bool :=
  extractJsonBoolField resultJson "ok"

@[simp]
theorem verdict_jsonObject {b : Bool} {behind : List Bytes} :
    verdict (jsonObject (jsonBoolField "ok" b :: behind)) = some b :=
  extractJsonBoolField_first

-- The listings whose opening brace is missing.
theorem verdict_unopened {b : Bool} {rest : Bytes} :
    verdict (jsonBoolField "ok" b ++ rest) = some b := by
  refine (@extractJsonBoolField_of_after _ _ rest) ?_
  rw [jsonBoolField, List.append_assoc]
  exact after_append_self (by simp [Net.needle])

theorem verdict_buildConnectorsJson {connectors : List Connector} :
    verdict (buildConnectorsJson connectors) = some true := by
  simp only [buildConnectorsJson, List.append_assoc]
  exact verdict_unopened

theorem verdict_buildTasksJson {tasks : List Task} : verdict (buildTasksJson tasks) = some true := by
  simp only [buildTasksJson, List.append_assoc]
  exact verdict_unopened

theorem verdict_failureJson {error : Bytes} : verdict (failureJson error) = some false :=
  verdict_jsonObject

theorem verdict_outcomeJson {ok : Bool} {error : Bytes} : verdict (outcomeJson ok error) = some ok :=
  verdict_jsonObject

theorem verdict_notLaunchedJson {error : Bytes} : verdict (notLaunchedJson error) = some false :=
  verdict_jsonObject

theorem verdict_unreadJson {error : Bytes} : verdict (unreadJson error) = some false :=
  verdict_jsonObject

theorem verdict_refusalJson_unknown : verdict (refusalJson "unknown connector") = none := by
  decide +kernel

-- What a call without an answer is given.
theorem verdict_emptyObject : verdict (jsonObject []) = none := by
  decide +kernel

theorem verdict_nil : verdict [] = none :=
  rfl

theorem verdict_refusalJson_kind :
    verdict (refusalJson "connector is not a launched_process") = none := by
  decide +kernel

end Read

section Handlers

variable {os : Os W} {m : Machine W} {host : HostState} {argumentsJson : Bytes} {w : W}

theorem verdict_runJson {runner : Runner W} :
    verdict (runner.runJson host argumentsJson w).value =
      some (commandReports runner host argumentsJson w) := by
  simp only [Runner.runJson, commandReports, isRequested, requested, requestedCommand,
    requestedWorkDir, requestedTimeoutMs]
  split
  case isTrue h => simp [verdict_notLaunchedJson, h]
  case isFalse h =>
    split
    case isTrue h' => simp [verdict_notLaunchedJson, h']
    case isFalse h' => simp [commandResultJson, commandSucceeded, h, h']

theorem verdict_stopConnector {id : Bytes} :
    verdict (stopConnector os id w).value = some (os.stop id w).1.1 :=
  verdict_outcomeJson

theorem verdict_connectorStatusJson {id : Bytes} :
    verdict (connectorStatusJson os host id w).value =
      some (findConnector host.connectors id).isSome := by
  simp only [connectorStatusJson]
  split
  case h_1 h => simp [verdict_failureJson, h]
  case h_2 h => split <;> simp [h]

-- The two refusals of `launch_connector` carry no verdict.
theorem verdict_launchConnector {id : Bytes} {succeeded : Connector → Bool} :
    verdict (launchConnector os host id w).value = some ((launchable host id).any succeeded) ↔
      ∃ c, launchable host id = some c ∧ (os.launch c w).1.1 = succeeded c := by
  simp only [launchConnector, launchable]
  cases findConnector host.connectors id
  case none   => simp [verdict_refusalJson_unknown]
  case some c =>
    by_cases hk : c.kind = str "launched_process"
    case pos => simp [verdict_outcomeJson, hk]
    case neg => simp [verdict_refusalJson_kind, hk]

theorem verdict_callConnector {accepted : Int → Bytes → Bool} {id path method body : Bytes} :
    verdict (callConnector os host id path method body w).value =
        some (callSucceeds accepted os host id path method body w) ↔
      ∀ c status answer, findConnector host.connectors id = some c → c.kind = str "http_peer" →
        c.enabled → peerReply os c path method body w = some (status, answer) →
        verdict answer = some (accepted status answer) := by
  unfold callConnector callSucceeds
  cases hf : findConnector host.connectors id
  case none => simp [verdict_failureJson]
  case some c =>
    by_cases hk : c.kind = str "http_peer"
    case neg =>
      refine iff_of_true (by simp [verdict_failureJson, hk]) fun d _ _ hd hk' => ?_
      exact absurd (Option.some.inj hd ▸ hk') hk
    case pos =>
      cases he : c.enabled
      case false =>
        refine iff_of_true (by simp [verdict_failureJson, hk, he]) fun d _ _ hd _ he' => ?_
        obtain rfl := Option.some.inj hd
        exact absurd he' (by simp [he])
      case true =>
        have hs : (∀ d status answer, some c = some d → d.kind = str "http_peer" →
            d.enabled → peerReply os d path method body w = some (status, answer) →
            verdict answer = some (accepted status answer)) ↔
            ∀ status answer, peerReply os c path method body w = some (status, answer) →
            verdict answer = some (accepted status answer) :=
          ⟨fun h status answer => h c status answer rfl hk he,
            fun h d status answer hd _ _ => Option.some.inj hd ▸ h status answer⟩
        rw [hs]
        simp only [hk, he, peerReply]
        generalize (if method = str "GET" then os.syncHttpGet (joinUrl c.baseUrl path) w
          else os.syncHttpPostJson (joinUrl c.baseUrl path) body w) = out
        obtain ⟨reply, w'⟩ := out
        cases reply
        case none => simp [verdict_failureJson]
        case some reply =>
          obtain ⟨status, answer⟩ := reply
          by_cases ha : answer = []
          case pos => simp [ha, verdict_emptyObject, verdict_nil]
          case neg => simp [ha]

theorem verdict_openApplication {succeeded : ResolvedLaunchTarget → Bool} :
    verdict (openApplication os host argumentsJson w).value =
        some ((openTarget os host argumentsJson w).any succeeded) ↔
      extractJsonStringField argumentsJson "path_or_name" ≠ [] ∧
        ∀ target, openTarget os host argumentsJson w = some target →
          (os.launchApplication target.target target.effectiveArgs
            (extractJsonStringField argumentsJson "work_dir") w).1.launched = succeeded target := by
  have hn : verdict (jsonObject [jsonBoolField "launched" false, jsonIntField "pid" 0,
      jsonStringField "error" "missing path_or_name"]) = none := by
    decide +kernel
  simp only [openApplication, openTarget]
  by_cases hp : extractJsonStringField argumentsJson "path_or_name" = []
  case pos => simp [hp, hn]
  case neg =>
    simp only [hp, if_false]
    cases resolveOpenApplicationTarget os host w
      (extractJsonStringField argumentsJson "path_or_name")
      (extractJsonStringField argumentsJson "args") <;> simp [hp, Except.toOption]

theorem verdict_enqueueTask {parsed now : Int} :
    (∃ text, (enqueueTask host argumentsJson parsed now).1 = some text ∧
        verdict text = some ((parseTaskRequestFromJson argumentsJson parsed).any (·.isOk))) ↔
      parseTaskRequestFromJson argumentsJson parsed ≠ none := by
  simp only [enqueueTask]
  split
  case h_1 h => simp [h]
  case h_2 h => simp [h, verdict_failureJson, Except.isOk, Except.toBool]
  case h_3 h => simp [h, Except.isOk, Except.toBool]

theorem verdict_cancelTaskJson {taskId : Bytes} {now : Int} :
    verdict (cancelTaskJson host taskId now).1 = some (cancelSucceeds host taskId now) := by
  simp only [cancelTaskJson, cancelSucceeds]
  split
  case isTrue h => simp [verdict_failureJson, h]
  case isFalse h =>
    cases (host.tasks.cancel taskId now).1 <;> simp [verdict_failureJson, h]

-- An exception leaves no result at all.
theorem verdict_readFile {succeeded : Bool} :
    (∃ text, (readFile m host argumentsJson w).value = some text ∧ verdict text =
        some (usablePath host (extractJsonStringField argumentsJson "path") && succeeded)) ↔
      (usablePath host (extractJsonStringField argumentsJson "path") →
        ∃ result, m.readFile (requestedPath host argumentsJson) (requestedBytes argumentsJson) w =
          some result ∧ result.ok = succeeded) := by
  simp only [readFile, usablePath, requestedPath, requestedBytes]
  split
  case isTrue h => simp [verdict_unreadJson, h]
  case isFalse h =>
    split
    case isTrue h'  => simp [verdict_unreadJson, h']
    case isFalse h' =>
      cases m.readFile _ _ w <;> simp [h, h']

theorem verdict_writeFile :
    verdict (writeFile m host argumentsJson w).value =
      some (writeReports m host argumentsJson w) := by
  simp only [writeFile, writeReports, writable, usablePath, requestedPath, isAppend]
  split
  case isTrue h => simp [verdict_failureJson, h]
  case isFalse h =>
    split
    case isTrue h' => simp [verdict_failureJson, h']
    case isFalse h' =>
      split
      case isTrue hb  => simp [verdict_failureJson, hb]
      case isFalse hb => simp [h, h', hb]

theorem verdict_transfer {t : Transfer W} :
    verdict (t.json host argumentsJson w).value =
      some (transferReports t host argumentsJson w) := by
  simp only [Transfer.json, transferReports, transferable, usablePath]
  split
  case isTrue h =>
    rcases Bool.or_eq_true_iff.mp h with h | h <;> simp [verdict_failureJson, h]
  case isFalse h =>
    split
    case isTrue h' =>
      rcases Bool.or_eq_true_iff.mp h' with h' | h' <;> simp [verdict_failureJson, h']
    case isFalse h' =>
      simp only [Bool.or_eq_true, not_or, Bool.not_eq_true] at h h'
      simp [h, h']

theorem verdict_change {c : PathChange W} :
    verdict (c.json host argumentsJson w).value = some (changeReports c host argumentsJson w) := by
  simp only [PathChange.json, changeReports, usablePath, requestedPath]
  split
  case isTrue h => simp [verdict_failureJson, h]
  case isFalse h =>
    split
    case isTrue h' => simp [verdict_failureJson, h']
    case isFalse h' => simp [h, h']

theorem verdict_listDir {succeeded : Bool} :
    (∃ text, (listDir m argumentsJson w).value = some text ∧ verdict text = some succeeded) ↔
      ∃ result, m.listDir (extractJsonStringField argumentsJson "path") w = some result ∧
        result.ok = succeeded := by
  simp only [listDir]
  cases m.listDir (extractJsonStringField argumentsJson "path") w <;> simp

theorem verdict_buildHardwareInfoJson : verdict (buildHardwareInfoJson m) = some true := by
  unfold buildHardwareInfoJson
  split <;> exact verdict_jsonObject

theorem verdict_recordCommandFixJson :
    verdict (recordCommandFixJson m argumentsJson w).value =
      some (recordReports m argumentsJson w) := by
  simp only [recordCommandFixJson, recordReports, isComplete, requestedLesson]
  split
  case isTrue h =>
    rcases h with h | h | h | h <;> simp [verdict_failureJson, h]
  case isFalse h =>
    simp only [not_or] at h
    simp [h]

theorem verdict_rememberLocationJson :
    verdict (rememberLocationJson m host argumentsJson w).value =
      some (rememberReports m host argumentsJson w) := by
  simp only [rememberLocationJson, rememberReports, isLocation, requestedLocation]
  split
  case isTrue h =>
    rcases h with h | h <;> simp [verdict_failureJson, h]
  case isFalse h =>
    simp only [not_or] at h
    split
    case isTrue hp => simp [verdict_failureJson, hp]
    case isFalse hp =>
      split
      case isTrue hv =>
        rcases Bool.or_eq_true_iff.mp hv with hv | hv <;> simp_all [verdict_failureJson]
      case isFalse hv =>
        simp only [Bool.or_eq_true, not_or, Bool.not_eq_true, Bool.not_eq_false'] at hv
        simp_all

end Handlers

end Droidcli.Cli
