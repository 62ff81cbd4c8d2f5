import Droidcli.Net.Json

namespace Droidcli.Classify

open Bytes Net

inductive TurnDecisionKind
  | llmTool (toolName argumentsJson : Bytes)
  | plainReply (plainReplyText : Bytes)
  | transportFailed (errorMessage : Bytes)
  deriving DecidableEq

structure TurnDecision where
  kind : TurnDecisionKind
  thinkingText : Bytes

-- `response_templates.cpp`

def okField (json : Bytes) : Bool :=
  (extractJsonBoolField json "ok").getD false

def requestedPathOrName (argumentsJson : Bytes) : Bytes :=
  let value := extractJsonStringField argumentsJson "path_or_name"
  if value = [] then extractJsonStringField argumentsJson "path" else value

def resolvedPathOrRequested (argumentsJson resultJson : Bytes) : Bytes :=
  let resolved := extractJsonStringField resultJson "resolved_path"
  if resolved = [] then requestedPathOrName argumentsJson else resolved

def replyForOpenApplication (argumentsJson resultJson : Bytes) : Bytes :=
  if okField resultJson then
    let displayName := extractJsonStringField resultJson "resolved_display_name"
    if displayName ≠ [] then str "Opened " ++ displayName ++ "."
    else str "Opened " ++ resolvedPathOrRequested argumentsJson resultJson ++ "."
  else
    str "Couldn't open it: " ++ extractJsonStringField resultJson "error"

def replyForFileMutation (verbDone verbFailed argumentsJson resultJson : Bytes) : Bytes :=
  if okField resultJson then
    verbDone ++ " " ++ resolvedPathOrRequested argumentsJson resultJson ++ "."
  else
    verbFailed ++ ": " ++ extractJsonStringField resultJson "error"

def replyForWriteClipboard (resultJson : Bytes) : Bytes :=
  if okField resultJson then "Copied to the clipboard."
  else str "Couldn't write to the clipboard: " ++ extractJsonStringField resultJson "error"

-- `none` when the exception of `std::stoll` escapes, here and in `tryTemplateReply`.
def replyForShellCommand (toolName resultJson : Bytes) : Option Bytes := do
  let exitCode ← (extractJsonIntField resultJson "exit_code").getD 0
  let error := extractJsonStringField resultJson "error"
  return if okField resultJson then
      (if toolName = str "run_ffmpeg" then str "ffmpeg finished" else "The command finished") ++
        " successfully."
    else if error ≠ [] then str "That failed: " ++ error
    else str "That failed (exit code " ++ decimalInt exitCode ++ ")."

def tryTemplateReply (toolName argumentsJson resultJson : Bytes) : Option Bytes :=
  if toolName = str "open_application" then
    some (replyForOpenApplication argumentsJson resultJson)
  else if toolName = str "write_file" then
    some (replyForFileMutation "Wrote" "Couldn't write the file" argumentsJson resultJson)
  else if toolName = str "copy_file" then
    some (replyForFileMutation "Copied to" "Couldn't copy the file" argumentsJson resultJson)
  else if toolName = str "move_path" then
    some (replyForFileMutation "Moved to" "Couldn't move it" argumentsJson resultJson)
  else if toolName = str "delete_file" then
    some (replyForFileMutation "Deleted" "Couldn't delete it" argumentsJson resultJson)
  else if toolName = str "create_directory" then
    some (replyForFileMutation "Created" "Couldn't create the directory" argumentsJson resultJson)
  else if toolName = str "write_clipboard" then
    some (replyForWriteClipboard resultJson)
  else if toolName = str "run_command" ∨ toolName = str "run_ffmpeg" then
    replyForShellCommand toolName resultJson
  else
    some []

end Droidcli.Classify
