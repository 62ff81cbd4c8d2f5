import Droidcli.Cli.TickTasks
import Droidcli.Net.Theorems.Json

namespace Droidcli.Cli

open Bytes Net App Json Reliability

-- The text is an object whose member `ok` has the value `b`. Bytes that the host leaves unescaped
-- within strings, such as those of captured output, are allowed to stand there.
def TopLevelOk (text : Bytes) (b : Bool) : Prop :=
  ∃ v, IsText lenient text v ∧ v.field "ok" = some (.bool b)

section Texts

variable {texts : List Bytes} {b : Bool}

-- The rest of an object is well-formed when each of its members is.
theorem topLevelOk_of_members (h : ∀ text ∈ texts, ∃ m, Member lenient text m) :
    TopLevelOk (jsonObject (jsonBoolField "ok" b :: texts)) b := by
  have ⟨ms, hm⟩ : ∃ ms, List.Forall₂ (Member lenient) texts ms := by
    induction texts
    case nil => exact ⟨[], .nil⟩
    case cons text texts hi =>
      have ⟨ms, hs⟩ := hi fun text ht => h text (List.mem_cons_of_mem _ ht)
      have ⟨m, ht⟩ := h text (by simp)
      exact ⟨m :: ms, .cons ht hs⟩
  have hk : Plain (str "ok") := by decide
  exact ⟨_, isText_jsonObject (.cons (member_boolField hk.body b) hm), by simp [Value.field]⟩

theorem not_topLevelOk_of_false (h : ∃ s, jsonObject texts =
    lbrace :: quote :: (str "ok" ++ quote :: colon :: 0x66 :: s)) :
    ¬TopLevelOk (jsonObject texts) true := by
  intro ⟨v, hv, ho⟩
  have ⟨s, hs⟩ := h
  have := IsText.field_false (by decide) (hs ▸ hv)
  simp [this] at ho

theorem jsonObject_ok_false : ∃ s, jsonObject (jsonBoolField "ok" false :: texts) =
    lbrace :: quote :: (str "ok" ++ quote :: colon :: 0x66 :: s) := by
  have he : jsonBoolField "ok" false =
      quote :: (str "ok" ++ quote :: colon :: 0x66 :: [0x61, 0x6c, 0x73, 0x65]) := by decide
  cases texts
  case nil => exact ⟨[0x61, 0x6c, 0x73, 0x65, rbrace], by simp [jsonObject, joinWith, he]⟩
  case cons text texts =>
    refine ⟨[0x61, 0x6c, 0x73, 0x65] ++ comma :: joinWith [comma] (text :: texts) ++ [rbrace], ?_⟩
    simp [jsonObject, joinWith, List.intercalate, he]

-- The member `ok` of an object that the host writes reads as the host means it.
theorem topLevelOk_iff (h : ∀ text ∈ texts, ∃ m, Member lenient text m) :
    TopLevelOk (jsonObject (jsonBoolField "ok" b :: texts)) true ↔ b = true := by
  cases b
  case true  => exact ⟨fun _ => rfl, fun _ => topLevelOk_of_members h⟩
  case false => exact ⟨fun ht => absurd ht (not_topLevelOk_of_false jsonObject_ok_false), nofun⟩

end Texts

section Results

variable {W : Type} {os : Os W} {host : HostState} {w : W}

theorem outcomeJson_ok_iff {ok : Bool} {error : Bytes} :
    TopLevelOk (outcomeJson ok error) true ↔ ok = true := by
  apply topLevelOk_iff
  intro text h
  have := List.mem_singleton.mp h
  have hk : Plain (str "error") := by decide
  exact ⟨_, this ▸ member_stringField hk.body fun _ _ => .inl trivial⟩

theorem successPattern_eq : str "\"success\":true" = pattern "success" "true" := by
  decide

-- A result of a connector action: the outcome, or a refusal that has no member `ok`.
theorem outcomeJson_no_success {ok : Bool} {error : Bytes} :
    ¬contains (str "\"success\":true") (outcomeJson ok error) := by
  rw [successPattern_eq]
  apply not_contains_jsonObject
  intro text h
  simp only [List.mem_cons, List.not_mem_nil, or_false] at h
  rcases h with rfl | rfl
  · exact passes_boolField (by decide) (by decide) ok (fun he => absurd he (by decide))
  · exact passes_stringField (by decide) (by decide) (by decide) error

theorem not_true_prefix {rest : Bytes} : ¬str "true" <+: str "false" ++ rest := by
  have ht : str "true" = 0x74 :: [0x72, 0x75, 0x65] := by decide
  have hf : str "false" = 0x66 :: [0x61, 0x6c, 0x73, 0x65] := by decide
  simp [ht, hf]

theorem refusalJson_no_success {error : Bytes} :
    ¬contains (str "\"success\":true") (refusalJson error) := by
  rw [successPattern_eq]
  apply not_contains_jsonObject
  intro text h
  simp only [List.mem_cons, List.not_mem_nil, or_false] at h
  rcases h with rfl | rfl
  · exact passes_boolField (by decide) (by decide) false (fun _ _ => not_true_prefix)
  · exact passes_stringField (by decide) (by decide) (by decide) error

theorem refusalJson_not_ok {error : Bytes} : ¬TopLevelOk (refusalJson error) true := by
  intro ⟨v, hv, ho⟩
  let parts := [(str "success", str "false"), (str "error", jsonString error)]
  have hp : ∀ p ∈ parts, Plain p.1 ∧ Delimited lenient p.2 := by
    intro p hm
    simp only [parts, List.mem_cons, List.not_mem_nil, or_false] at hm
    rcases hm with rfl | rfl
    · exact ⟨by decide, delimited_false⟩
    · have hk : Plain (str "error") := by decide
      exact ⟨hk, delimited_string (body_lenient error).quoted⟩
  have hk : str "ok" ∉ parts.map Prod.fst := by
    simp only [parts, List.map_cons, List.map_nil]
    decide
  have he : refusalJson error =
      lbrace :: joinWith [comma] (parts.map fun p => pattern p.1 p.2) ++ [rbrace] := by
    simp [parts, refusalJson, jsonObject, jsonBoolField, jsonStringField, Net.needle, pattern]
  have := IsText.field_none (by simp [parts]) hp hk (he ▸ hv)
  simp [this] at ho

-- The result of a command that ran or was refused.
def CommandText (ok launched : Bool) (text : Bytes) : Prop :=
  ∃ exitCode fields,
    text = jsonObject (jsonBoolField "ok" ok :: jsonBoolField "launched" launched ::
      jsonIntField "exit_code" exitCode :: fields) ∧
    ∀ field ∈ fields, ∃ key value,
      Plain key ∧ key ≠ str "launched" ∧ field = jsonStringField key value

namespace CommandText

variable {ok launched : Bool} {text : Bytes}

theorem ok_iff (h : CommandText ok launched text) : TopLevelOk text true ↔ ok = true := by
  have ⟨exitCode, fields, ht, hf⟩ := h
  rw [ht]
  apply topLevelOk_iff
  intro text h
  simp only [List.mem_cons] at h
  rcases h with rfl | rfl | h
  · have hk : Plain (str "launched") := by decide
    exact ⟨_, member_boolField hk.body launched⟩
  · have hk : Plain (str "exit_code") := by decide
    exact ⟨_, member_intField hk.body exitCode⟩
  · have ⟨_, value, hk, _, he⟩ := hf text h
    exact ⟨_, he ▸ member_stringField hk.body fun _ _ => .inl trivial⟩

theorem launched_iff (h : CommandText ok launched text) :
    contains (str "\"launched\":true") text ↔ launched = true := by
  obtain ⟨exitCode, fields, ht, hf⟩ := h
  have hp : str "\"launched\":true" = pattern "launched" "true" := by decide
  cases launched
  case true =>
    simp only [iff_true, contains_iff, ht]
    have he : jsonBoolField "launched" true = str "\"launched\":true" := by decide
    refine ⟨lbrace :: jsonBoolField "ok" ok ++ [comma],
      comma :: joinWith [comma] (jsonIntField "exit_code" exitCode :: fields) ++ [rbrace], ?_⟩
    simp [jsonObject, joinWith, List.intercalate, he]
  case false =>
    simp only [iff_false, ht, hp, reduceCtorEq]
    apply not_contains_jsonObject
    intro text h
    simp only [List.mem_cons] at h
    rcases h with rfl | rfl | rfl | h
    · exact passes_boolField (by decide) (by decide) ok (fun he => absurd he (by decide))
    · exact passes_boolField (by decide) (by decide) false (fun _ _ => not_true_prefix)
    · exact passes_intField (by decide) (by decide) (by decide) exitCode
    · obtain ⟨_, value, hk, hne, he⟩ := hf text h
      exact he ▸ passes_stringField (by decide) hk hne.symm value

end CommandText

theorem notLaunchedJson_text {error : Bytes} : CommandText false false (notLaunchedJson error) := by
  refine ⟨0, _, rfl, fun field h => ?_⟩
  simp only [List.mem_cons, List.not_mem_nil, or_false] at h
  rcases h with rfl | rfl | rfl
  all_goals exact ⟨_, _, by decide, by decide, rfl⟩

theorem mem_ite_nil {p : Prop} [Decidable p] {a b : Bytes} :
    (a ∈ if p then [b] else []) ↔ p ∧ a = b := by
  split <;> simp_all

theorem mem_nil_ite {p : Prop} [Decidable p] {a b : Bytes} :
    (a ∈ if p then [] else [b]) ↔ ¬p ∧ a = b := by
  split <;> simp_all

theorem commandResultJson_text {runner : Runner W} {result : CommandRunResult}
    {requested command workDir effectiveWorkDir : Bytes} (hp : Plain runner.resolvedField)
    (hne : runner.resolvedField ≠ str "launched") :
    CommandText (commandSucceeded result) result.launched
      (commandResultJson runner result requested command workDir effectiveWorkDir) := by
  refine ⟨result.exitCode, _, by simp only [commandResultJson, List.cons_append]; rfl, ?_⟩
  intro field h
  simp only [List.nil_append, List.mem_cons, List.mem_append, mem_ite_nil, mem_nil_ite] at h
  rcases h with rfl | rfl | rfl | (⟨_, rfl⟩ | ⟨_, rfl⟩) | ⟨_, rfl⟩
  · exact ⟨_, _, by decide, by decide, rfl⟩
  · exact ⟨_, _, by decide, by decide, rfl⟩
  · exact ⟨_, _, by decide, by decide, rfl⟩
  · exact ⟨_, _, hp, hne, rfl⟩
  · exact ⟨_, _, by decide, by decide, rfl⟩
  · exact ⟨_, _, by decide, by decide, rfl⟩

-- What the machine made of a command, if the host let it get that far.
def Runner.attempt (runner : Runner W) (host : HostState) (body : Bytes) (w : W) :
    Option CommandRunResult :=
  let requested := extractJsonStringField body runner.field
  let workDir := extractJsonStringField body "work_dir"
  let timeoutMs := (extractJsonInt32Field body "timeout_ms").getD runner.defaultTimeoutMs
  if requested = [] ∨ looksLikePlaceholderPath requested then none
  else
    some (runner.run (substituteBareDesktopToken requested host.desktopPath)
      (resolveWorkDirOrDesktop host workDir) timeoutMs w).1

theorem runJson_text {runner : Runner W} {body : Bytes} (hp : Plain runner.resolvedField)
    (hne : runner.resolvedField ≠ str "launched") :
    CommandText ((runner.attempt host body w).any commandSucceeded)
      ((runner.attempt host body w).any (·.launched)) (runner.runJson host body w).value := by
  rw [Runner.attempt, Runner.runJson]
  by_cases hr : extractJsonStringField body runner.field = []
  case pos => simpa [hr] using notLaunchedJson_text
  case neg =>
    cases hl : looksLikePlaceholderPath (extractJsonStringField body runner.field)
    case true  => simpa [hr, hl] using notLaunchedJson_text
    case false => simpa [hr, hl] using commandResultJson_text hp hne

-- Where a task is sent to a connector, the reply that comes back.
def connectorReply (os : Os W) (host : HostState) (connectorId path method body : Bytes) (w : W) :
    Option Bytes :=
  match findConnector host.connectors connectorId with
  | none => none
  | some connector =>
    if connector.kind ≠ str "http_peer" ∨ connector.enabled = false then none
    else
      let url := joinUrl connector.baseUrl path
      let reply :=
        (if method = str "GET" then os.syncHttpGet url w else os.syncHttpPostJson url body w).1
      reply.map fun (_, responseBody) =>
        if responseBody = [] then jsonObject [] else responseBody

theorem callConnector_reply (os : Os W) (host : HostState)
    (connectorId path method body : Bytes) (w : W) :
    ∃ error, (callConnector os host connectorId path method body w).value =
      (connectorReply os host connectorId path method body w).getD (failureJson error) := by
  rw [callConnector, connectorReply]
  cases findConnector host.connectors connectorId
  case none => exact ⟨_, rfl⟩
  case some connector =>
    by_cases hk : connector.kind = str "http_peer"
    case neg => exact ⟨_, by simp [hk]; rfl⟩
    case pos =>
      cases he : connector.enabled
      case false => exact ⟨_, by simp [hk, he]; rfl⟩
      case true =>
        refine ⟨"connector unreachable", ?_⟩
        simp only [hk, he, ne_eq, not_true_eq_false, ↓reduceIte, reduceCtorEq, or_self]
        generalize (if method = str "GET" then _ else _ : Option (Int × Bytes) × W) = reply
        have ⟨reply, _⟩ := reply
        cases reply <;> rfl

theorem failureJson_not_ok {error : Bytes} : contains (str "\"ok\":false") (failureJson error) := by
  have he : jsonBoolField "ok" false = str "\"ok\":false" := by decide
  refine contains_iff.mpr ⟨[lbrace], comma :: jsonStringField "error" error ++ [rbrace], ?_⟩
  simp [failureJson, jsonObject, joinWith, List.intercalate, he]

end Results

section Outcome

variable {W : Type} (os : Os W) (host : HostState) (task : Task) (w : W)

-- Did the action of a task report success?
def ActionSucceeded : Prop :=
  if task.command = str "run" then
    TopLevelOk (runCommand os host task.payloadJson w).value true
  else if task.command = str "launch" ∧ task.connectorId ≠ [] then
    TopLevelOk (launchConnector os host task.connectorId w).value true
  else if task.command = str "stop" ∧ task.connectorId ≠ [] then
    TopLevelOk (stopConnector os task.connectorId w).value true
  else if task.connectorId ≠ [] then
    ∃ reply, connectorReply os host task.connectorId task.command "POST" task.payloadJson w =
      some reply ∧ ¬TopLevelOk reply false
  else False

-- A command that was launched has succeeded; a process was neither launched nor stopped; a reply
-- contains the text `"ok":false` just in case its own `ok` is false.
def OutcomeCondition : Prop :=
  if task.command = str "run" then
    ∀ result, (commandRunner os).attempt host task.payloadJson w = some result →
      result.launched → commandSucceeded result
  else if task.command = str "launch" ∧ task.connectorId ≠ [] then
    ∀ connector, findConnector host.connectors task.connectorId = some connector →
      connector.kind = str "launched_process" → ¬(os.launch connector w).1.1
  else if task.command = str "stop" ∧ task.connectorId ≠ [] then
    ¬(os.stop task.connectorId w).1.1
  else
    task.connectorId ≠ [] →
    ∀ reply, connectorReply os host task.connectorId task.command "POST" task.payloadJson w =
      some reply → (contains (str "\"ok\":false") reply ↔ TopLevelOk reply false)

variable {os host task w}

theorem dispatchTask_run (os : Os W) (host : HostState) (w : W) (h : task.command = str "run") :
    ((dispatchTask os host task w).value.isComplete ↔
      ((commandRunner os).attempt host task.payloadJson w).any (·.launched)) ∧
    (TopLevelOk (runCommand os host task.payloadJson w).value true ↔
      ((commandRunner os).attempt host task.payloadJson w).any commandSucceeded) := by
  have hp : Plain (str "resolved_command") := by decide
  have hne : str "resolved_command" ≠ str "launched" := by decide
  have ht : CommandText (((commandRunner os).attempt host task.payloadJson w).any commandSucceeded)
      (((commandRunner os).attempt host task.payloadJson w).any (·.launched))
      (runCommand os host task.payloadJson w).value := runJson_text hp hne
  rw [← ht.launched_iff]
  refine ⟨?_, ht.ok_iff⟩
  rw [dispatchTask, if_pos h]
  dsimp only
  split <;> simp_all [TaskOutcome.isComplete]

-- A launch is never recorded as complete, whatever becomes of it.
theorem launchConnector_not_success :
    ¬contains (str "\"success\":true") (launchConnector os host task.connectorId w).value := by
  rw [launchConnector]
  split
  case h_1 => exact refusalJson_no_success
  case h_2 =>
    split
    case isTrue  => exact refusalJson_no_success
    case isFalse => exact outcomeJson_no_success

theorem launchConnector_ok_iff :
    TopLevelOk (launchConnector os host task.connectorId w).value true ↔
      ∃ connector, findConnector host.connectors task.connectorId = some connector ∧
        connector.kind = str "launched_process" ∧ (os.launch connector w).1.1 := by
  rw [launchConnector]
  split
  case h_1 hf => simp [hf, refusalJson_not_ok]
  case h_2 connector hf =>
    by_cases hk : connector.kind = str "launched_process"
    case neg => simp [hf, hk, refusalJson_not_ok]
    case pos => simp [hf, hk, outcomeJson_ok_iff]

theorem dispatchTask_call_iff (h₁ : task.command ≠ str "run")
    (h₂ : ¬(task.command = str "launch" ∧ task.connectorId ≠ []))
    (h₃ : ¬(task.command = str "stop" ∧ task.connectorId ≠ [])) (h₄ : task.connectorId ≠ []) :
    (dispatchTask os host task w).value.isComplete ↔
      ∃ reply, connectorReply os host task.connectorId task.command "POST" task.payloadJson w =
        some reply ∧ ¬contains (str "\"ok\":false") reply := by
  have ⟨error, hr⟩ :=
    callConnector_reply os host task.connectorId task.command "POST" task.payloadJson w
  rw [dispatchTask, if_neg h₁, if_neg h₂, if_neg h₃, if_pos h₄]
  simp only [hr]
  cases connectorReply os host task.connectorId task.command "POST" task.payloadJson w
  case none => simp [failureJson_not_ok, TaskOutcome.isComplete]
  case some reply =>
    simp only [Option.getD_some, Option.some.injEq, exists_eq_left']
    split <;> simp_all [TaskOutcome.isComplete]

variable (os host task w)

theorem dispatchTask_faithful_iff :
    ((dispatchTask os host task w).value.isComplete ↔
      ActionSucceeded os host task w) ↔ OutcomeCondition os host task w := by
  rw [ActionSucceeded, OutcomeCondition]
  by_cases h₁ : task.command = str "run"
  case pos =>
    have ⟨hc, ho⟩ := dispatchTask_run os host w h₁
    rw [if_pos h₁, if_pos h₁, hc, ho]
    cases (commandRunner os).attempt host task.payloadJson w
    case none        => simp
    case some result => cases hl : result.launched <;> simp [commandSucceeded, hl]
  case neg =>
    rw [if_neg h₁, if_neg h₁]
    by_cases h₂ : task.command = str "launch" ∧ task.connectorId ≠ []
    case pos =>
      rw [if_pos h₂, if_pos h₂, launchConnector_ok_iff]
      have hc : ¬(dispatchTask os host task w).value.isComplete := by
        rw [dispatchTask, if_neg h₁, if_pos h₂]
        simp [launchConnector_not_success, TaskOutcome.isComplete]
      simp [hc]
    case neg =>
      rw [if_neg h₂, if_neg h₂]
      by_cases h₃ : task.command = str "stop" ∧ task.connectorId ≠ []
      case pos =>
        have hc : ¬(dispatchTask os host task w).value.isComplete := by
          rw [dispatchTask, if_neg h₁, if_neg h₂, if_pos h₃]
          simp [stopConnector, outcomeJson_no_success, TaskOutcome.isComplete]
        rw [if_pos h₃, if_pos h₃]
        simp [hc, stopConnector, outcomeJson_ok_iff]
      case neg =>
        rw [if_neg h₃, if_neg h₃]
        by_cases h₄ : task.connectorId ≠ []
        case neg =>
          rw [if_neg h₄, dispatchTask, if_neg h₁, if_neg h₂, if_neg h₃, if_neg h₄]
          simp [h₄, TaskOutcome.isComplete]
        case pos =>
          rw [if_pos h₄, dispatchTask_call_iff h₁ h₂ h₃ h₄]
          cases connectorReply os host task.connectorId task.command "POST" task.payloadJson w
          case none       => simp
          case some reply =>
            simp only [Option.some.injEq, exists_eq_left', h₄, ne_eq, not_false_eq_true,
              forall_const, forall_eq']
            exact not_iff_not

-- A tick without interruptions is a claim and a finish of the task system.
theorem tickTasks_steps {os : Os W} {host : HostState} {w : W} {inFlight : List Task} :
    TaskSystem.Steps ⟨host.tasks, inFlight⟩ ⟨(tickTasks os host w).2.tasks, inFlight⟩ := by
  rw [tickTasks]
  split
  case h_1 => exact .refl
  case h_2 task tasks hc =>
    let claimed : TaskSystem := ⟨(host.tasks.claimNext (os.currentTimestampMs w)).2,
      task :: inFlight⟩
    have hclaim : TaskSystem.Step ⟨host.tasks, inFlight⟩ claimed := .claim _ (by simp [hc])
    have hfinish : TaskSystem.Step claimed _ := .finish
      (dispatchTask os { host with tasks := tasks } task w).value
      (os.currentTimestampMs (dispatchTask os { host with tasks := tasks } task w).world)
      (List.mem_cons_self ..)
    have := Relation.ReflTransGen.single hclaim |>.tail hfinish
    simpa [claimed, hc] using this

-- What `tick_tasks` records for the task it claims is the task's own outcome under exactly this
-- condition on the machine's answers.
theorem tickTasks_faithful_iff {os : Os W} {host : HostState} {w : W} {task : Task}
    {outcome : TaskOutcome} (h : (tickTasks os host w).1.value = some (task, outcome)) :
    (outcome.isComplete ↔ ActionSucceeded os host task w) ↔ OutcomeCondition os host task w := by
  rw [tickTasks] at h
  split at h
  case h_1 => contradiction
  case h_2 tasks _ =>
    have ⟨ht, ho⟩ := Prod.mk.inj (Option.some.inj h)
    exact ho ▸ ht ▸ dispatchTask_faithful_iff os { host with tasks := tasks } _ w

-- A host with a connector, and a task that launches it.
def launchTask : Task where
  id := "task-0-1"
  connectorId := "web"
  command := "launch"
  payloadJson := []
  status := .pending
  createdAtMs := 0
  updatedAtMs := 0
  scheduledForMs := 0
  recurrenceMs := 0
  runCount := 0
  errorMessage := []
  resultJson := []

def launchHost : HostState :=
  { HostState.initial with
    connectors := [⟨"web", "launched_process", [], "serve", [], [], true⟩]
    tasks := ⟨[launchTask], 1⟩ }

theorem tickTasks_faithful_launch :
    ∃ task outcome, (tickTasks Os.idle launchHost ()).1.value = some (task, outcome) ∧
      ((outcome.isComplete ↔ ActionSucceeded Os.idle launchHost task ()) ↔
        OutcomeCondition Os.idle launchHost task ()) :=
  ⟨_, _, rfl, tickTasks_faithful_iff rfl⟩

theorem tickTasks_not_faithful :
    ∃ task outcome, (tickTasks Os.idle launchHost ()).1.value = some (task, outcome) ∧
      ¬(outcome.isComplete ↔ ActionSucceeded Os.idle launchHost task ()) := by
  refine ⟨{ launchTask with status := .running, runCount := 1 }, _, rfl, fun h => ?_⟩
  have hs : ActionSucceeded Os.idle launchHost
      { launchTask with status := .running, runCount := 1 } () := by
    rw [ActionSucceeded, if_neg (by decide), if_pos (by decide), launchConnector_ok_iff]
    exact ⟨_, rfl, rfl, rfl⟩
  exact absurd (h.mpr hs) (by decide)

end Outcome
end Droidcli.Cli
