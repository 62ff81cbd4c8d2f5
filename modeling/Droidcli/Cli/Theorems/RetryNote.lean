import Droidcli.Ai.Theorems.Members
import Droidcli.Cli.Theorems.AgentTurn
import Droidcli.Cli.Theorems.TickTasks

namespace Droidcli.Cli

open Bytes Net Json Ai Classify Reliability Interaction Prog

-- The two tools that run a command line.
inductive Shell
  | command
  | ffmpeg

namespace Shell

def toolName : Shell → Bytes
  | command => "run_command"
  | ffmpeg  => "run_ffmpeg"

def runner {W : Type} (os : Os W) : Shell → Runner W
  | command => commandRunner os
  | ffmpeg  => ffmpegRunner os

end Shell

section Results

variable {W : Type} {os : Os W} {host : HostState} {body : Bytes} {w : W} {shell : Shell}
  {result : CommandRunResult} {requested command workDir effectiveWorkDir error : Bytes}
  {runner : Runner W}

def failureReason (runner : Runner W) (result : CommandRunResult) : Bytes :=
  runner.failureLabel ++ " failed (exit_code=" ++ decimalInt result.exitCode ++ "): " ++
    summarizeCommandFailure result

def outputKeys : List Bytes :=
  ["ok", "launched", "exit_code", "stdout", "stderr"]

-- The members of a result up to its error, and those between its error and the reason of a failure.
def outputFields (result : CommandRunResult) : List (Bytes × Field) := [
  ("ok", .bool (commandSucceeded result)),
  ("launched", .bool result.launched),
  ("exit_code", .int result.exitCode),
  ("stdout", .string result.stdoutText),
  ("stderr", .string result.stderrText)
]

def resolvedFields (runner : Runner W) (requested command workDir effectiveWorkDir : Bytes) :
    List (Bytes × Field) :=
  (if command ≠ requested then [(runner.resolvedField, Field.string command)] else []) ++
    (if workDir ≠ effectiveWorkDir then
      [(str "resolved_work_dir", Field.string effectiveWorkDir)] else [])

theorem commandResultJson_error :
    extractJsonStringField (commandResultJson runner result requested command workDir
      effectiveWorkDir) "error" = result.errorMessage := by
  have ho : ∀ f ∈ outputFields result, Word f.1 ∧ str "error" ≠ f.1 :=
    others_of_keys outputKeys rfl (by decide)
  obtain ⟨texts, he⟩ : ∃ texts, commandResultJson runner result requested command workDir
      effectiveWorkDir = jsonObject (((outputFields result).map fun f => f.2.member f.1) ++
        (Field.string result.errorMessage).member "error" :: texts) := by
    apply Exists.intro
    simp only [commandResultJson, List.append_assoc, List.cons_append]
    rfl
  rw [he]
  exact @jsonObject_readFrom _ _ (.string result.errorMessage) texts (by decide) ho trivial

theorem commandResultJson_failureReason (hs : commandSucceeded result = false)
    (hr : Word runner.resolvedField ∧ str "failure_reason" ≠ runner.resolvedField) :
    extractJsonStringField (commandResultJson runner result requested command workDir
      effectiveWorkDir) "failure_reason" = failureReason runner result := by
  have ho : ∀ f ∈ outputFields result, Word f.1 ∧ str "failure_reason" ≠ f.1 :=
    others_of_keys outputKeys rfl (by decide)
  have he : ∀ f ∈ [(str "error", Field.string result.errorMessage)],
      Word f.1 ∧ str "failure_reason" ≠ f.1 :=
    others_of_keys ["error"] rfl (by decide)
  have hf : ∀ f ∈ resolvedFields runner requested command workDir effectiveWorkDir,
      Word f.1 ∧ str "failure_reason" ≠ f.1 := by
    rw [resolvedFields, List.forall_mem_append]
    constructor
    case left =>
      split_ifs
      case pos => exact others_of_keys [runner.resolvedField] rfl (by simpa using hr)
      case neg => nofun
    case right =>
      split_ifs
      case pos => exact others_of_keys ["resolved_work_dir"] rfl (by decide)
      case neg => nofun
  have hb := List.forall_mem_append.mpr ⟨ho, List.forall_mem_append.mpr ⟨he, hf⟩⟩
  have hj := @jsonObject_readFrom _ _ (.string (failureReason runner result)) [] (by decide) hb trivial
  refine Eq.trans (congrArg (extractJsonStringField · _) ?_) hj
  simp only [commandResultJson, hs, resolvedFields]
  split_ifs <;> simp_all [outputFields, failureReason, Field.member]

theorem notLaunchedJson_error :
    extractJsonStringField (notLaunchedJson error) "error" = error := by
  have ho : ∀ f ∈ outputFields ⟨false, 0, [], [], []⟩, Word f.1 ∧ str "error" ≠ f.1 :=
    others_of_keys outputKeys rfl (by decide)
  exact @jsonObject_readFrom _ _ (.string error) [] (by decide) ho trivial

theorem placeholderError_ne_nil {advice : Bytes} : placeholderError host advice ≠ [] := by
  intro h
  simp only [placeholderError, List.append_eq_nil_iff] at h
  exact absurd h.left.left.left (by decide)

-- A result either turns the command down, and says why, or reports what the machine made of it.
theorem runJson_cases :
    (runner.attempt host body w = none ∧ ∃ error, error ≠ [] ∧
      (runner.runJson host body w).value = notLaunchedJson error) ∨
    ∃ result, runner.attempt host body w = some result ∧
      ∃ requested command workDir effectiveWorkDir, (runner.runJson host body w).value =
        commandResultJson runner result requested command workDir effectiveWorkDir := by
  rw [Runner.attempt, Runner.runJson]
  by_cases hr : extractJsonStringField body runner.field = []
  case pos =>
    have hn : str "missing " ++ runner.field ≠ [] := List.append_ne_nil_of_left_ne_nil (by decide) _
    exact .inl ⟨by simp [hr], _, hn, by simp [hr]⟩
  case neg =>
    cases hl : looksLikePlaceholderPath (extractJsonStringField body runner.field)
    case true  =>
      exact .inl ⟨by simp, placeholderError host ", use that exact path instead",
        placeholderError_ne_nil, by simp [hr]⟩
    case false => exact .inr ⟨_, by simp [hr]; rfl, _, _, _, _, by simp [hr]; rfl⟩

end Results

section Note

variable {W : Type} {os : Os W} {host : HostState} {body : Bytes} {w : W} {shell : Shell}
  {toolName resultJson sessionId argumentsJson thinkingText : Bytes} {provider : OpenAICompatConfig}
  {tools : List ToolDefinition} {actions : List PendingToolActionRecord}

-- What a result says went wrong.
def reportedReason (resultJson : Bytes) : Bytes :=
  let error := extractJsonStringField resultJson "error"
  if error = [] then extractJsonStringField resultJson "failure_reason" else error

theorem reportedReason_infix (h : extractJsonStringField resultJson "error" ≠ []) :
    reportedReason resultJson <:+: retryNote toolName resultJson := by
  simp only [reportedReason, retryNote, h, if_false]
  exact List.infix_append ..

-- Without an error the note is the same whatever went wrong, and mentions no exit code.
theorem failureReason_not_infix {runner : Runner W} {result : CommandRunResult}
    (h : extractJsonStringField resultJson "error" = []) :
    ¬failureReason runner result <:+: retryNote shell.toolName resultJson := by
  intro hi
  have hc : str " failed (exit_code=" <:+: retryNote shell.toolName resultJson := by
    refine List.IsInfix.trans ?_ hi
    simp only [failureReason, List.append_assoc]
    exact List.infix_append' ..
  revert hc
  simp only [retryNote, h, if_true]
  cases shell <;> decide +kernel

theorem Shell.word_resolvedField : Word (shell.runner os).resolvedField ∧
    str "failure_reason" ≠ (shell.runner os).resolvedField := by
  cases shell
  case command =>
    have hw : Word (str "resolved_command") ∧ str "failure_reason" ≠ "resolved_command" := by decide
    exact hw
  case ffmpeg =>
    have hw : Word (str "resolved_args") ∧ str "failure_reason" ≠ "resolved_args" := by decide
    exact hw

-- The automatic retry begins with a note, and the note gives the reason that the result reports
-- exactly if the command was turned down or the machine reports an error. A command that ran to its
-- end and failed leaves the error empty.
theorem retryNote_reports_iff
    (hf : okField ((shell.runner os).runJson host body w).value = false) :
    let resultJson := ((shell.runner os).runJson host body w).value
    let note := retryNote shell.toolName resultJson
    (∃ rest, finishTurnAfterExecution tools provider sessionId shell.toolName body resultJson actions
        true thinkingText = (perform (.record sessionId .system note) >>= fun _ => rest)) ∧
      (reportedReason resultJson <:+: note ↔
        ∀ result ∈ (shell.runner os).attempt host body w, result.errorMessage ≠ []) := by
  intro resultJson note
  constructor
  case left =>
    have hr : isRetriableTool shell.toolName := by cases shell <;> decide
    exact ⟨_, if_pos ⟨rfl, by simpa using hf, hr⟩⟩
  case right =>
    cases @runJson_cases _ host body w (shell.runner os)
    case inl h =>
      have ⟨ha, error, hne, hv⟩ := h
      have he : extractJsonStringField resultJson "error" ≠ [] := by
        simpa only [resultJson, hv, notLaunchedJson_error] using hne
      simp [ha, note, reportedReason_infix he]
    case inr h =>
      have ⟨result, ha, requested, command, workDir, effectiveWorkDir, hv⟩ := h
      have he : extractJsonStringField resultJson "error" = result.errorMessage := by
        simp only [resultJson, hv, commandResultJson_error]
      have hs : commandSucceeded result = false := by
        simpa [hv, okField, commandResultJson] using hf
      simp only [ha, Option.mem_def, Option.some.injEq, forall_eq']
      constructor
      case mpr => exact fun hne => reportedReason_infix (he ▸ hne)
      case mp =>
        intro hi hm
        have hr : reportedReason resultJson = failureReason (shell.runner os) result := by
          simp only [reportedReason, he.trans hm, if_true]
          simp only [resultJson, hv, commandResultJson_failureReason hs Shell.word_resolvedField]
        exact failureReason_not_infix (he.trans hm) (hr ▸ hi)

def listingArguments : Bytes :=
  jsonObject [jsonStringField "command" "dir"]

theorem retryNote_reports_iff_listing :
    let resultJson := (runCommand Os.failing HostState.initial listingArguments ()).value
    let note := retryNote "run_command" resultJson
    (∃ rest, finishTurnAfterExecution [] ⟨[], [], true, false, 0⟩ "s" "run_command" listingArguments
        resultJson [] true [] = (perform (.record "s" .system note) >>= fun _ => rest)) ∧
      (reportedReason resultJson <:+: note ↔ ∀ result ∈
        (commandRunner Os.failing).attempt HostState.initial listingArguments (),
          result.errorMessage ≠ []) :=
  @retryNote_reports_iff _ Os.failing HostState.initial listingArguments () .command "s" []
    ⟨[], [], true, false, 0⟩ [] [] (by decide +kernel)

-- A command that comes back with an error code only.
theorem not_retryNote_reports :
    let resultJson := (runCommand Os.failing HostState.initial listingArguments ()).value
    okField resultJson = false ∧ reportedReason resultJson = "Command failed (exit_code=1): " ∧
      ¬reportedReason resultJson <:+: retryNote "run_command" resultJson := by
  decide +kernel

end Note
end Droidcli.Cli
