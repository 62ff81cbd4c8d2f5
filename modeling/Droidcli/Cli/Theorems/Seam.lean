import Droidcli.App.Theorems.Jobs
import Droidcli.Cli.HostViews
import Droidcli.Cli.Theorems.TaskRows

namespace Droidcli.Cli.Tui

open Bytes Net Json App Ai

section Queue

variable {queue : TaskQueue} {t : List QueueEvent} {counter : Nat}

theorem listed_of_run (r : TaskQueue.Run ⟨[], counter⟩ t queue)
    (hi : ∀ task ∈ queue.tasks, task.InRange) : ∀ task ∈ queue.tasks, Listed task := by
  exact fun task ht => ⟨(filed_of_run r task ht).left, (filed_of_run r task ht).right, hi task ht⟩

end Queue

section Arrays

variable {α : Type} {F : Format α} {es : List α} {before : List (Bytes × Field)} {key : Bytes}

-- An object with an array at its end.
def withArray (before : List (Bytes × Field)) (key : Bytes) (texts : List Bytes) : Bytes :=
  jsonObject ((before.map fun (k, f) => f.member k) ++ [needle key ++ jsonArray texts])

theorem withArray_eq {texts : List Bytes} : withArray before key texts =
    openedObject before ++ (needle key ++ (jsonArray texts ++ [rbrace])) := by
  rw [withArray, jsonObject_split]
  simp [openedObject]

theorem objects_withArray (hk : Word key) (hb : ∀ f ∈ before, Word f.1 ∧ key ≠ f.1) :
    extractJsonObjectArray (withArray before key (es.map F.text)) key =
      Ai.extractJsonObjectArray (F.behind es) := by
  rw [extractJsonObjectArray, withArray_eq]
  apply Format.objects_of_array
  rw [needle_eq_pattern]
  apply inert_members
  intro text ht
  obtain ⟨⟨k, f⟩, hm, ht⟩ := List.mem_map.mp ht
  obtain ⟨hw, hne⟩ := hb _ hm
  exact ht ▸ f.passes hk hw hne

-- A key that nothing there has.
theorem absent_withArray {k : Bytes} (hk : Word key) (hb : ∀ f ∈ before, Word f.1 ∧ key ≠ f.1)
    (hp : Word k) (hne : key ≠ k) (hf : key ∉ F.keys) :
    ¬needle key <:+: withArray before k (es.map F.text) := by
  have htexts : ∀ text ∈ es.map F.text, Passes key [] text := by
    intro text ht rest _
    obtain ⟨e, _, ht⟩ := List.mem_map.mp ht
    rw [← ht, Format.text, flatObject]
    apply inert_jsonObject
    intro text ht
    obtain ⟨f, hm, ht⟩ := List.mem_map.mp ht
    have hn : key ≠ f.1 := fun he => hf (F.keys_eq e ▸ he ▸ List.mem_map_of_mem hm)
    exact ht ▸ f.2.passes hk (F.word f hm) hn
  have harray : Passes key [] (needle k ++ jsonArray (es.map F.text)) :=
    passes_of_value hk hp.plain (fun he => absurd he hne) fun _ _ => inert_jsonArray htexts
  rw [← contains_iff, withArray, needle_eq_pattern]
  apply not_contains_jsonObject
  intro text ht
  rcases List.mem_append.mp ht with ht | ht
  case inl =>
    obtain ⟨f, hm, ht⟩ := List.mem_map.mp ht
    obtain ⟨hw, hn⟩ := hb f hm
    exact ht ▸ f.2.passes hk hw hn
  case inr => exact List.mem_singleton.mp ht ▸ harray

end Arrays

section Log

variable {entry : TimedLogEntry} {o : Bytes}

def logFields (entry : TimedLogEntry) : List (Bytes × Field) := [
  ("timestamp", .string entry.timestamp),
  ("channel", .string entry.channel),
  ("direction", .string entry.direction),
  ("summary", .string entry.summary),
  ("success", .bool entry.success)
]

def logFormat : Format TimedLogEntry where
  keys := ["timestamp", "channel", "direction", "summary", "success"]
  fields := logFields
  keys_eq _ := rfl
  nonempty := by decide
  words := by decide
  nodup := by decide

def logRow (entry : TimedLogEntry) : LogRow :=
  ⟨entry.timestamp, entry.channel, entry.direction, entry.summary, entry.success⟩

def logText (entry : TimedLogEntry) : Bytes :=
  entry.timestamp ++ entry.channel ++ entry.direction ++ entry.summary

-- The success of an entry is assumed.
def logNeeded (entry : TimedLogEntry) : Bytes :=
  if entry.success then (logText entry).dropLast else logText entry

theorem logRow_iff : parseLogLine o = logRow entry ↔ logFormat.FullyReads o entry := by
  simp [Format.FullyReads, logFormat, logFields, Field.Reads, parseLogLine, logRow]

theorem buildAppLogJson_eq (appLog : List TimedLogEntry) :
    buildAppLogJson appLog = withArray [] "entries" (appLog.map logFormat.text) := by
  have ht : appLog.map logEntryJson = appLog.map logFormat.text :=
    List.map_congr_left fun _ _ => rfl
  rw [buildAppLogJson, ht]
  rfl

theorem parseLogLines_iff (appLog : List TimedLogEntry) :
    parseLogLines (buildAppLogJson appLog) = appLog.map logRow ↔
      Format.Legible logText logNeeded appLog := by
  have ho := @objects_withArray _ logFormat appLog [] "entries" (by decide) (by simp)
  have hheld : logFormat.held = logText := by
    funext entry
    simp [Format.held, strings, logFormat, logFields, Field.text, logText]
  have hneeded : logFormat.needed (·.success) = logNeeded := by
    funext entry
    rw [Format.needed, hheld, logNeeded]
  have hp (entry : TimedLogEntry) (l : Format.Located logFormat entry rbrace) :=
    @Format.plain_of_flag _ logFormat entry ((logFields entry).take 4) _ _ rfl (by simp [logFields]) l
  have hy := Format.yielded_iff hp appLog
  rw [hneeded, hheld] at hy
  rw [parseLogLines, buildAppLogJson_eq, ho, Format.yields_map fun _ _ => logRow_iff]
  exact hy

end Log

section History

variable {record : TimedRecord} {o : Bytes}

def recordFields (record : TimedRecord) : List (Bytes × Field) := [
  ("hop_index", .int record.hopIndex),
  ("role", .string record.role),
  ("content", .string record.content),
  ("created_at", .string record.createdAt)
]

def recordFormat : Format TimedRecord where
  keys := ["hop_index", "role", "content", "created_at"]
  fields := recordFields
  keys_eq _ := rfl
  nonempty := by decide
  words := by decide
  nodup := by decide

def recordMessage (record : TimedRecord) : HistoryMessage :=
  ⟨record.role, record.content, record.createdAt⟩

def recordText (record : TimedRecord) : Bytes :=
  record.role ++ record.content ++ record.createdAt

theorem recordMessage_iff :
    parseMessage o = recordMessage record ↔ recordFormat.FullyReads o record := by
  simp [Format.FullyReads, recordFormat, recordFields, Field.Reads, parseMessage, recordMessage]

variable {currentSessionId : Bytes} {loadSession : Bytes → List TimedRecord} {sessionId : Bytes}

-- The rows that a history is made of.
def historyRecords (currentSessionId : Bytes) (loadSession : Bytes → List TimedRecord)
    (sessionId : Bytes) : List TimedRecord :=
  loadSession (if sessionId = [] then currentSessionId else sessionId)

theorem buildAgentHistoryJson_eq :
    ∃ id, buildAgentHistoryJson currentSessionId loadSession sessionId =
      withArray [("session_id", .string id)] "messages"
        ((historyRecords currentSessionId loadSession sessionId).map recordFormat.text) := by
  have ht (records : List TimedRecord) : records.map recordJson = records.map recordFormat.text :=
    List.map_congr_left fun _ _ => rfl
  rw [buildAgentHistoryJson, ht]
  exact ⟨_, rfl⟩

theorem parseMessages_iff : parseMessages
      (buildAgentHistoryJson currentSessionId loadSession sessionId) =
        (historyRecords currentSessionId loadSession sessionId).map recordMessage ↔
    Format.Legible recordText (fun record => (recordText record).dropLast)
      (historyRecords currentSessionId loadSession sessionId) := by
  have ⟨id, he⟩ := @buildAgentHistoryJson_eq currentSessionId loadSession sessionId
  generalize historyRecords currentSessionId loadSession sessionId = records at he
  have ho := @objects_withArray _ recordFormat records [("session_id", .string id)] "messages"
    (by decide) (by simp; decide)
  have hheld : recordFormat.held = recordText := by
    funext record
    simp [Format.held, strings, recordFormat, recordFields, Field.text, recordText]
  have hneeded : recordFormat.needed (fun _ => true) = fun record => (recordText record).dropLast := by
    funext record
    rw [Format.needed, hheld, if_pos rfl]
  have hp (record : TimedRecord) (l : Format.Located recordFormat record rbrace) :=
    Format.plain_of_noFlags (by simp [recordFormat, recordFields]) l
  have hy := Format.yielded_iff hp records
  rw [hneeded, hheld] at hy
  rw [parseMessages, he, ho, Format.yields_map fun _ _ => recordMessage_iff]
  exact hy

end History

section Turn

variable {action : PendingToolActionRecord} {o : Bytes}

def actionFields (action : PendingToolActionRecord) : List (Bytes × Field) := [
  ("tool", .string action.tool),
  ("arguments_json", .string action.argumentsJson),
  ("result_json", .string action.resultJson)
]

def actionFormat : Format PendingToolActionRecord where
  keys := ["tool", "arguments_json", "result_json"]
  fields := actionFields
  keys_eq _ := rfl
  nonempty := by decide
  words := by decide
  nodup := by decide

def actionText (action : PendingToolActionRecord) : Bytes :=
  action.tool ++ action.argumentsJson ++ action.resultJson

theorem parseAction_iff : parseAction o = action ↔ actionFormat.FullyReads o action := by
  cases action
  simp [Format.FullyReads, actionFormat, actionFields, Field.Reads, parseAction]

variable {thinking assistant sessionId : Bytes} {actions : List PendingToolActionRecord}

def thinkingMember (thinking : Bytes) : List (Bytes × Field) :=
  if thinking = [] then [] else [("thinking", .string thinking)]

-- The members of a response in front of its actions.
def turnFields (thinking assistant sessionId : Bytes) : List (Bytes × Field) :=
  ("ok", .bool true) :: (thinkingMember thinking ++
    ([("assistant", .string assistant), ("session_id", .string sessionId)] : List (Bytes × Field)))

def turnKeys : List Bytes :=
  ["ok", "thinking", "assistant", "session_id"]

theorem turnFields_named : Net.Named (turnFields thinking assistant sessionId) ∧
    ((turnFields thinking assistant sessionId).map Prod.fst).Sublist turnKeys := by
  have hs : ((turnFields thinking assistant sessionId).map Prod.fst).Sublist turnKeys := by
    have h : ((thinkingMember thinking).map Prod.fst).Sublist [str "thinking"] := by
      rw [thinkingMember]
      split
      case isTrue  => exact List.nil_sublist _
      case isFalse => exact List.Sublist.refl _
    rw [turnFields, List.map_cons, List.map_append]
    exact (h.append (List.Sublist.refl _)).cons_cons _
  refine ⟨?_, hs⟩
  have hw : ∀ key ∈ turnKeys, Word key := by decide
  have hd : turnKeys.Nodup := by decide
  exact {
    words := fun f hf => hw f.1 (hs.subset (List.mem_map_of_mem hf))
    distinct := hd.sublist hs
    inRange := by
      have : ∀ f ∈ thinkingMember thinking, f.2.InRange := by
        rw [thinkingMember]
        split <;> simp [Field.InRange]
      simpa [turnFields, Field.InRange, List.forall_mem_append, or_imp, forall_and] using this
  }

theorem final_eq : (AgentResponse.final thinking assistant sessionId actions).json =
    withArray (turnFields thinking assistant sessionId) "actions"
      (actions.map actionFormat.text) := by
  have ht : actions.map actionJson = actions.map actionFormat.text :=
    List.map_congr_left fun _ _ => rfl
  rw [AgentResponse.json, actionsField, ht, withArray, turnFields, thinkingField, thinkingMember]
  split <;> rfl

-- What the response says besides its actions is always recovered.
structure Says (json thinking assistant sessionId : Bytes) : Prop where
  ok        : extractJsonBoolField json "ok" = some true
  thinking  : extractJsonStringField json "thinking" = thinking
  assistant : extractJsonStringField json "assistant" = assistant
  sessionId : extractJsonStringField json "session_id" = sessionId
  pending   : breakOn (needle "pending_tool_call") json = none

theorem final_assistant :
    Says (AgentResponse.final thinking assistant sessionId actions).json thinking assistant
      sessionId := by
  have ⟨hn, hs⟩ := @turnFields_named thinking assistant sessionId
  have hr := @openedObject_readFrom _ (needle "actions" ++
    (jsonArray (actions.map actionFormat.text) ++ [rbrace])) hn
  have ha (key : Bytes) (hk : Word key)
      (hf : ∀ f ∈ turnFields thinking assistant sessionId, key ≠ f.1)
      (hne : key ≠ "actions") (hkeys : key ∉ actionFormat.keys) :=
    @absent_withArray _ actionFormat actions _ key "actions" hk
      (fun f hm => ⟨hn.words f hm, hf f hm⟩) (by decide) hne hkeys
  rw [final_eq]
  constructor
  case thinking =>
    by_cases ht : thinking = []
    case pos =>
      subst ht
      apply stringField_absent (ha "thinking" (by decide) ?_ (by decide) (by decide))
      have hne : str "thinking" ≠ "ok" ∧ str "thinking" ≠ "assistant" ∧
          str "thinking" ≠ "session_id" := by decide
      simpa [turnFields, thinkingMember] using hne
    case neg =>
      rw [withArray_eq]
      exact hr ("thinking", .string thinking) (by simp [turnFields, thinkingMember, ht])
  case pending =>
    have hn : str "pending_tool_call" ∉ turnKeys := by decide
    have := ha "pending_tool_call" (by decide)
      (fun f hm he => hn (he ▸ hs.subset (List.mem_map_of_mem hm))) (by decide) (by decide)
    rwa [← breakOn_isSome_iff, Option.not_isSome_iff_eq_none] at this
  all_goals rw [withArray_eq]
  case ok        => exact hr ("ok", .bool true) (by simp [turnFields])
  case assistant => exact hr ("assistant", .string assistant) (by simp [turnFields])
  case sessionId => exact hr ("session_id", .string sessionId) (by simp [turnFields])

-- What a final response is shown as.
def shownTurn (thinking assistant sessionId : Bytes) (actions : List PendingToolActionRecord) :
    ParsedTurn :=
  ⟨thinkingEntries thinking ++ actions.map actionEntry ++ [assistantEntry assistant], sessionId, none⟩

theorem parseAgentTurnResponse_final :
    let json := (AgentResponse.final thinking assistant sessionId actions).json
    parseAgentTurnResponse json = shownTurn thinking assistant sessionId (parseActions json) := by
  have h := @final_assistant thinking assistant sessionId actions
  simp only [parseAgentTurnResponse, h.ok, h.thinking, h.assistant, h.sessionId, h.pending]
  rfl

theorem parseActions_iff :
    parseActions (AgentResponse.final thinking assistant sessionId actions).json = actions ↔
      Format.Legible actionText (fun action => (actionText action).dropLast) actions := by
  have ⟨hn, hs⟩ := @turnFields_named thinking assistant sessionId
  have hk : str "actions" ∉ turnKeys := by decide
  have ho := @objects_withArray _ actionFormat actions (turnFields thinking assistant sessionId)
    "actions" (by decide) fun f hm =>
      ⟨hn.words f hm, fun he => hk (he ▸ hs.subset (List.mem_map_of_mem hm))⟩
  have hheld : actionFormat.held = actionText := by
    funext action
    simp [Format.held, strings, actionFormat, actionFields, Field.text, actionText]
  have hneeded : actionFormat.needed (fun _ => true) = fun action => (actionText action).dropLast := by
    funext action
    rw [Format.needed, hheld, if_pos rfl]
  have hp (action : PendingToolActionRecord) (l : Format.Located actionFormat action rbrace) :=
    Format.plain_of_noFlags (by simp [actionFormat, actionFields]) l
  have hy := Format.yielded_iff hp actions
  rw [hneeded, hheld] at hy
  have hmap (os : List Bytes) : os.map parseAction = actions.map id ↔
      Yields actionFormat.FullyReads (fun _ => False) os actions :=
    Format.yields_map fun _ _ => parseAction_iff
  simp only [List.map_id] at hmap
  rw [parseActions, final_eq, ho, hmap]
  exact hy

end Turn

section Seam

open Format (Legible)

-- Everything that the host puts into a report comes out of it again.
structure Lossless (appLog : List TimedLogEntry) (tasks : List Task) (currentSessionId : Bytes)
    (loadSession : Bytes → List TimedRecord) (historyId thinking assistant sessionId : Bytes)
    (actions : List PendingToolActionRecord) : Prop where
  log     : parseLogLines (buildAppLogJson appLog) = appLog.map logRow
  tasks   : parseTasks (buildTasksJson tasks) = some (tasks.map taskRow)
  history :
    let records := historyRecords currentSessionId loadSession historyId
    let json := buildAgentHistoryJson currentSessionId loadSession historyId
    parseMessages json = records.map recordMessage ∧
      parseAgentHistoryForResume json = resumedEntries (records.map recordMessage)
  turn    :
    let json := (AgentResponse.final thinking assistant sessionId actions).json
    parseActions json = actions ∧
      parseAgentTurnResponse json = shownTurn thinking assistant sessionId actions

-- The splitter gets through a report if it is not misled by the braces in its strings.
structure Splits (appLog : List TimedLogEntry) (tasks : List Task) (records : List TimedRecord)
    (actions : List PendingToolActionRecord) : Prop where
  log     : Legible logText logNeeded appLog
  tasks   : Aligned 0 tasks
  history : Legible recordText (fun record => (recordText record).dropLast) records
  turn    : Legible actionText (fun action => (actionText action).dropLast) actions

variable {appLog : List TimedLogEntry} {queue : TaskQueue} {t : List QueueEvent} {counter : Nat}
  {loadSession : Bytes → List TimedRecord} {actions : List PendingToolActionRecord}
  {currentSessionId historyId thinking assistant sessionId : Bytes}

theorem lossless_iff (r : TaskQueue.Run ⟨[], counter⟩ t queue)
    (hi : ∀ task ∈ queue.tasks, task.InRange) :
    Lossless appLog queue.tasks currentSessionId loadSession historyId thinking assistant sessionId
        actions ↔
      Splits appLog queue.tasks (historyRecords currentSessionId loadSession historyId) actions := by
  have htasks := parseTasks_iff (listed_of_run r hi)
  constructor
  case mp =>
    intro h
    exact ⟨(parseLogLines_iff appLog).mp h.log, htasks.mp h.tasks,
      parseMessages_iff.mp h.history.left, parseActions_iff.mp h.turn.left⟩
  case mpr =>
    intro h
    have hm := parseMessages_iff.mpr h.history
    have ha := (@parseActions_iff thinking assistant sessionId actions).mpr h.turn
    exact {
      log := (parseLogLines_iff appLog).mpr h.log
      tasks := htasks.mpr h.tasks
      history := ⟨hm, by rw [parseAgentHistoryForResume, hm]⟩
      turn := ⟨ha, by rw [parseAgentTurnResponse_final, ha]⟩
    }

def bracedEntry (summary : Bytes) : TimedLogEntry where
  timestamp := "12:00:00"
  channel := "agent"
  direction := "in"
  summary := summary
  success := true

theorem lossless_iff_braced :
    Lossless [bracedEntry "if (x) \x7b\x7d", bracedEntry "\x7b\"ok\":true"] afterEnqueue.tasks "s1"
      (fun _ => [⟨⟨"s1", 1, "user", "hi"⟩, "12:00"⟩]) [] [] "done" "s1"
      [⟨"read_file", "\x7b\x7d", "ok"⟩] := by
  have hp : parseTaskRequestFromJson
      (jsonObject [jsonStringField "command" "run", jsonIntField "recurrence_ms" 60000])
      5 = some (.ok recurringTask) := by decide +kernel
  have r : TaskQueue.Run ⟨[], 0⟩ [] ⟨[], 0⟩ := .nil
  have r : TaskQueue.Run _ _ afterEnqueue := r.snoc (.enqueue 5 5 (str "task") hp rfl)
  have hi : ∀ task ∈ afterEnqueue.tasks, task.InRange := by
    have he : afterEnqueue.tasks = [{ recurringTask with
      id := str "task", status := .pending, createdAtMs := 5, updatedAtMs := 5 }] := by
      decide +kernel
    simp [he, recurringTask, Task.InRange, taskFields, Field.InRange, int64Min, int64Max]
  have ha : Aligned 0 afterEnqueue.tasks := by
    exact ⟨1, by decide +kernel, .inl rfl⟩
  exact (lossless_iff r hi).mpr {
    log := ⟨by decide +kernel, by decide +kernel⟩
    tasks := ha
    history := ⟨by decide +kernel, by decide +kernel⟩
    turn := ⟨by decide +kernel, by decide +kernel⟩
  }

-- The first entry does not end before the second one does.
theorem not_lossless :
    ¬∀ (appLog : List TimedLogEntry) (t : List QueueEvent) (counter : Nat) (queue : TaskQueue)
      (currentSessionId : Bytes) (loadSession : Bytes → List TimedRecord)
      (historyId thinking assistant sessionId : Bytes) (actions : List PendingToolActionRecord),
      TaskQueue.Run ⟨[], counter⟩ t queue →
      (∀ task ∈ queue.tasks, task.InRange) →
      (∀ entry ∈ appLog, nul ∉ logText entry) →
      (∀ task ∈ queue.tasks, nul ∉ front task ++ trail task) →
      (∀ record ∈ historyRecords currentSessionId loadSession historyId, nul ∉ recordText record) →
      (∀ action ∈ actions, nul ∉ actionText action) →
      nul ∉ thinking ++ assistant ++ sessionId →
      Lossless appLog queue.tasks currentSessionId loadSession historyId thinking assistant
        sessionId actions := by
  intro h
  let appLog := [bracedEntry "if (x) \x7b", bracedEntry "ok"]
  have hn : parseLogLines (buildAppLogJson appLog) ≠ appLog.map logRow := by
    decide +kernel
  have hl := h appLog [] 0 _ [] (fun _ => []) [] [] [] [] [] .nil (by simp) (by decide +kernel) (by simp)
    (by simp [historyRecords]) (by simp) (by simp)
  exact hn hl.log

end Seam

end Droidcli.Cli.Tui
