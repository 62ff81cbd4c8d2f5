import Droidcli.Ai.Theorems.Members
import Droidcli.Classify
import Droidcli.Cli.Theorems.Resolution
import Droidcli.Cli.Theorems.Reports

namespace Droidcli.Cli

open Bytes Net Json Classify Reliability

-- The tools whose results carry what a check behind the operation has found.
inductive Mutation
  | writeFile
  | copyFile
  | movePath
  | deleteFile
  | createDirectory
  | writeClipboard

namespace Mutation

variable {W : Type}

def toolName : Mutation → Bytes
  | writeFile       => "write_file"
  | copyFile        => "copy_file"
  | movePath        => "move_path"
  | deleteFile      => "delete_file"
  | createDirectory => "create_directory"
  | writeClipboard  => "write_clipboard"

def run (m : Machine W) (host : HostState) (body : Bytes) (w : W) : Mutation → Ran W Bytes
  | writeFile       => Cli.writeFile m host body w
  | copyFile        => copyFileJson m host body w
  | movePath        => movePathJson m host body w
  | deleteFile      => deleteFileJson m host body w
  | createDirectory => createDirectoryJson m host body w
  | writeClipboard  => writeClipboardJson m body w

-- The verification fields of a result.
def checks : Mutation → List Bytes
  | writeFile       => ["verified_exists"]
  | copyFile        => ["verified_exists"]
  | movePath        => ["verified_exists", "verified_source_removed"]
  | deleteFile      => ["verified_deleted"]
  | createDirectory => ["verified_is_directory"]
  | writeClipboard  => ["verified_matches"]

-- The machine on which every path is there, or none is.
def seeing (m : Machine W) (there : Bool) : Machine W :=
  { m with statPath := fun path w => { m.statPath path w with
      ok := true, pathExists := there, isFile := there, isDir := there } }

-- A path moved to itself would have to be there and gone at once, so what a move finds is set
-- apart from the machine.
def confirmedMove (m : Machine W) : Transfer W :=
  { moveTransfer m with verified := fun _ _ _ =>
      [jsonBoolField "verified_exists" true, jsonBoolField "verified_source_removed" true] }

def holding (m : Machine W) (text : Bytes) : Machine W :=
  { m with readTextFromClipboard := fun _ => ⟨true, text, []⟩ }

-- The same call where every check finds what the operation is for.
def confirmed (m : Machine W) (host : HostState) (body : Bytes) (w : W) : Mutation → Ran W Bytes
  | writeFile       => Cli.writeFile (seeing m true) host body w
  | copyFile        => copyFileJson (seeing m true) host body w
  | movePath        => (confirmedMove m).json host body w
  | deleteFile      => deleteFileJson (seeing m false) host body w
  | createDirectory => createDirectoryJson (seeing m true) host body w
  | writeClipboard  => writeClipboardJson (holding m (extractJsonStringField body "text")) body w

end Mutation

section Read

variable {paths checks : List (Bytes × Field)} {key value path resolved : Bytes}
  {source resolvedSource destination resolvedDestination : Bytes}

-- The members of a result: how the operation went, where its paths have been taken to, and what was
-- checked behind it.
def outcomeKeys : List Bytes :=
  ["ok", "bytes_written", "error"]

def pathKeys : List Bytes :=
  ["resolved_path", "resolved_source_path", "resolved_destination_path"]

def checkKeys : List Bytes := [
  "verified_exists",
  "verified_size_bytes",
  "verified_source_removed",
  "verified_deleted",
  "verified_is_directory",
  "verified_matches"
]

def Keyed (keys : List Bytes) (fields : List (Bytes × Field)) : Prop :=
  ∀ f ∈ fields, f.1 ∈ keys

def Tells (value : Bytes) (paths checks : List (Bytes × Field)) : Prop :=
  ∃ outcome, Keyed outcomeKeys outcome ∧ Keyed pathKeys paths ∧ Keyed checkKeys checks ∧
    value = flatObject (outcome ++ paths ++ checks)

theorem Keyed.lookup {keys : List Bytes} {fields : List (Bytes × Field)} (h : Keyed keys fields)
    (hk : key ∉ keys) : fields.lookup key = none := by
  refine List.lookup_eq_none_iff.mpr fun f hf => ?_
  simpa using fun he : key = f.1 => hk (he ▸ h f hf)

theorem Tells.words (h : Tells value paths checks) : ∃ outcome, Keyed outcomeKeys outcome ∧
    value = flatObject (outcome ++ paths ++ checks) ∧
      ∀ f ∈ outcome ++ paths ++ checks, Word f.1 := by
  have ⟨outcome, ho, hp, hc, hv⟩ := h
  have hw : ∀ k ∈ outcomeKeys ++ pathKeys ++ checkKeys, Word k := by decide
  refine ⟨outcome, ho, hv, fun f hf => hw _ ?_⟩
  simp only [List.mem_append] at hf ⊢
  exact hf.imp (.imp (ho f) (hp f)) (hc f)

theorem Tells.string (h : Tells value paths checks) (hk : key ∈ pathKeys) :
    extractJsonStringField value key = ((paths.lookup key).map Field.text).getD [] := by
  have hd : ∀ k ∈ pathKeys, Word k ∧ k ∉ outcomeKeys ∧ k ∉ checkKeys := by decide
  have ⟨hw, hn, hn'⟩ := hd key hk
  have ⟨outcome, ho, hv, hf⟩ := h.words
  have ⟨_, _, _, hc, _⟩ := h
  rw [hv, extractJsonStringField_flatObject hw hf, List.lookup_append, List.lookup_append,
    ho.lookup hn, hc.lookup hn', Option.none_or, Option.or_none]

theorem Tells.bool (h : Tells value paths checks) (hk : key ∈ checkKeys) :
    extractJsonBoolField value key = (checks.lookup key).bind Field.flag := by
  have hd : ∀ k ∈ checkKeys, Word k ∧ k ∉ outcomeKeys ∧ k ∉ pathKeys := by decide
  have ⟨hw, hn, hn'⟩ := hd key hk
  have ⟨outcome, ho, hv, hf⟩ := h.words
  have ⟨_, _, hp, _⟩ := h
  rw [hv, extractJsonBoolField_flatObject hw hf, List.lookup_append, List.lookup_append,
    ho.lookup hn, hp.lookup hn', Option.none_or, Option.none_or]

-- Where a path has been taken to, if that is another one.
def resolvedPathMember (path resolvedPath : Bytes) : List (Bytes × Field) :=
  if resolvedPath ≠ path then [("resolved_path", .string resolvedPath)] else []

def transferMembers (source resolvedSource destination resolvedDestination : Bytes) :
    List (Bytes × Field) :=
  if resolvedSource ≠ source ∨ resolvedDestination ≠ destination then [
    ("resolved_source_path", .string resolvedSource),
    ("resolved_destination_path", .string resolvedDestination)
  ] else []

theorem keyed_resolvedPathMember : Keyed pathKeys (resolvedPathMember path resolved) := by
  rw [resolvedPathMember]
  split_ifs <;> simp [Keyed, pathKeys]

theorem keyed_transferMembers : Keyed pathKeys
    (transferMembers source resolvedSource destination resolvedDestination) := by
  rw [transferMembers]
  split_ifs <;> simp [Keyed, pathKeys]

theorem resolvedPathField_eq : resolvedPathField path resolved =
    (resolvedPathMember path resolved).map fun (k, f) => f.member k := by
  rw [resolvedPathField, resolvedPathMember]
  split_ifs <;> rfl

theorem transferMembers_texts : (transferMembers source resolvedSource destination
    resolvedDestination).map (fun (k, f) => f.member k) =
      if resolvedSource ≠ source ∨ resolvedDestination ≠ destination then [
        jsonStringField "resolved_source_path" resolvedSource,
        jsonStringField "resolved_destination_path" resolvedDestination
      ] else [] := by
  rw [transferMembers]
  split_ifs <;> rfl

end Read

section Results

variable {W : Type} {m : Machine W} {host : HostState} {body : Bytes} {w : W}

def existsFields (verification : StatResult) : List (Bytes × Field) := [
  ("verified_exists", .bool (verification.ok && verification.pathExists && verification.isFile)),
  ("verified_size_bytes", .int verification.sizeBytes)
]

theorem writeFile_tells (h : writeReports m host body w) :
    let path := extractJsonStringField body "path"
    ∃ w', Tells (writeFile m host body w).value (resolvedPathMember path (resolvePath host path))
      (existsFields (m.statPath (resolvePath host path) w')) := by
  simp only [writeReports, writable, requestedPath, isAppend, usablePath, Bool.and_eq_true, Bool.not_eq_true'] at h
  generalize hr : m.writeFile _ _ _ w = r at h
  obtain ⟨result, w'⟩ := r
  obtain ⟨⟨⟨hp, hi⟩, hb⟩, ho⟩ := h
  have ho : result.ok = true := ho
  refine ⟨w', [("ok", .bool true), ("bytes_written", .int result.bytesWritten),
    ("error", .string result.errorMessage)], ?_, keyed_resolvedPathMember, ?_, ?_⟩
  case refine_1 => simp [Keyed, outcomeKeys]
  case refine_2 => simp [Keyed, existsFields, checkKeys]
  case refine_3 =>
    simp [writeFile, hp, hi, hb, hr, ho, flatObject, resolvedPathField_eq]
    rfl

theorem transfer_tells {t : Transfer W} (h : transferReports t host body w) :
    let source := extractJsonStringField body "source_path"
    let destination := extractJsonStringField body "destination_path"
    let resolvedSource := resolvePath host source
    let resolvedDestination := resolvePath host destination
    ∃ w', ∀ checks : List (Bytes × Field), Keyed checkKeys checks →
      t.verified resolvedSource resolvedDestination w' = (checks.map fun (k, f) => f.member k) →
      Tells (t.json host body w).value
        (transferMembers source resolvedSource destination resolvedDestination) checks := by
  simp only [transferReports, transferable, usablePath, Bool.and_eq_true, Bool.not_eq_true'] at h
  generalize hr : t.run _ _ w = r at h
  obtain ⟨result, w'⟩ := r
  obtain ⟨⟨⟨hp, hi⟩, hp', hi'⟩, ho⟩ := h
  have ho : result.ok = true := ho
  refine ⟨w', fun checks hd hc => ⟨[("ok", .bool true), ("error", .string result.errorMessage)],
    ?_, keyed_transferMembers, hd, ?_⟩⟩
  case refine_1 => simp [Keyed, outcomeKeys]
  case refine_2 =>
    simp [Transfer.json, hp, hi, hp', hi', hr, ho, hc, flatObject, transferMembers_texts]
    rfl

theorem change_tells {c : PathChange W} (h : changeReports c host body w) :
    let path := extractJsonStringField body "path"
    ∃ w', ∀ check : Bytes × Field, check.1 ∈ checkKeys →
      c.verified (resolvePath host path) w' = check.2.member check.1 →
      Tells (c.json host body w).value (resolvedPathMember path (resolvePath host path)) [check] := by
  simp only [changeReports, requestedPath, usablePath, Bool.and_eq_true, Bool.not_eq_true'] at h
  generalize hr : c.run _ w = r at h
  obtain ⟨result, w'⟩ := r
  obtain ⟨⟨hp, hi⟩, ho⟩ := h
  have ho : result.ok = true := ho
  refine ⟨w', fun check hd hc => ⟨[("ok", .bool true), ("error", .string result.errorMessage)],
    ?_, keyed_resolvedPathMember, by simpa [Keyed] using hd, ?_⟩⟩
  case refine_1 => simp [Keyed, outcomeKeys]
  case refine_2 =>
    simp [PathChange.json, hp, hi, hr, ho, hc, flatObject, resolvedPathField_eq]
    rfl

theorem writeClipboard_tells
    (h : (m.writeTextToClipboard (extractJsonStringField body "text") w).1.ok) :
    ∃ w', ∀ found : ClipboardReadResult, m.readTextFromClipboard w' = found →
      Tells (writeClipboardJson m body w).value [] [("verified_matches",
        .bool (found.ok && found.text = extractJsonStringField body "text"))] := by
  generalize hr : m.writeTextToClipboard _ w = r at h
  obtain ⟨result, w'⟩ := r
  have ho : result.ok = true := h
  refine ⟨w', fun found hv => ⟨[("ok", .bool true), ("error", .string result.errorMessage)],
    ?_, nofun, ?_, ?_⟩⟩
  case refine_1 => simp [Keyed, outcomeKeys]
  case refine_2 => simp [Keyed, checkKeys]
  case refine_3 =>
    simp [writeClipboardJson, hr, ho, hv, flatObject]
    rfl

end Results

section Sentences

variable {W : Type} {m : Machine W} {host : HostState} {body argumentsJson resultJson : Bytes} {w : W}

theorem okField_of_verdict {b : Bool} (h : verdict resultJson = some b) : okField resultJson = b := by
  simp only [verdict] at h
  simp [okField, h]

-- The path that the reply to a successful call names.
def shownPath (host : HostState) (body : Bytes) : Bytes :=
  let path := extractJsonStringField body "path"
  if resolvePath host path = path ∨ resolvePath host path = [] then requestedPathOrName body
  else resolvePath host path

namespace Mutation

def succeeds (m : Machine W) (host : HostState) (body : Bytes) (w : W) : Mutation → Bool
  | writeFile       => writeReports m host body w
  | copyFile        => transferReports (copyTransfer m) host body w
  | movePath        => transferReports (moveTransfer m) host body w
  | deleteFile      => changeReports (deletion m) host body w
  | createDirectory => changeReports (creation m) host body w
  | writeClipboard  => (m.writeTextToClipboard (extractJsonStringField body "text") w).1.ok

-- What succeeds is the operation, whatever the checks behind it find.
theorem transferReports_congr {t t' : Transfer W} (h : t.run = t'.run) :
    transferReports t host body w = transferReports t' host body w := by
  simp [transferReports, h]

theorem changeReports_congr {c c' : PathChange W} (h : c.run = c'.run) :
    changeReports c host body w = changeReports c' host body w := by
  simp [changeReports, h]

theorem okField_transfer (t t' : Transfer W) (h : t.run = t'.run) :
    okField (t.json host body w).value = transferReports t' host body w :=
  (okField_of_verdict verdict_transfer).trans (transferReports_congr h)

theorem okField_change (c c' : PathChange W) (h : c.run = c'.run) :
    okField (c.json host body w).value = changeReports c' host body w :=
  (okField_of_verdict verdict_change).trans (changeReports_congr h)

theorem okField_run {tool : Mutation} :
    okField (tool.run m host body w).value = tool.succeeds m host body w := by
  cases tool
  case writeFile       => exact okField_of_verdict verdict_writeFile
  case copyFile        => exact okField_transfer (copyTransfer m) _ rfl
  case movePath        => exact okField_transfer (moveTransfer m) _ rfl
  case deleteFile      => exact okField_change (deletion m) _ rfl
  case createDirectory => exact okField_change (creation m) _ rfl
  case writeClipboard  => exact okField_of_verdict verdict_jsonObject

theorem okField_confirmed {tool : Mutation} :
    okField (tool.confirmed m host body w).value = tool.succeeds m host body w := by
  cases tool
  case writeFile       => exact (okField_of_verdict verdict_writeFile).trans rfl
  case copyFile        => exact okField_transfer (copyTransfer (seeing m true)) (copyTransfer m) rfl
  case movePath        => exact okField_transfer (confirmedMove m) (moveTransfer m) rfl
  case deleteFile      => exact okField_change (deletion (seeing m false)) (deletion m) rfl
  case createDirectory => exact okField_change (creation (seeing m true)) (creation m) rfl
  case writeClipboard  => exact okField_of_verdict verdict_jsonObject

-- What is said of a call that succeeded. No check has a part in it.
def sentence (host : HostState) (body : Bytes) : Mutation → Bytes
  | writeFile       => str "Wrote" ++ " " ++ shownPath host body ++ "."
  | copyFile        => str "Copied to" ++ " " ++ requestedPathOrName body ++ "."
  | movePath        => str "Moved to" ++ " " ++ requestedPathOrName body ++ "."
  | deleteFile      => str "Deleted" ++ " " ++ shownPath host body ++ "."
  | createDirectory => str "Created" ++ " " ++ shownPath host body ++ "."
  | writeClipboard  => "Copied to the clipboard."

end Mutation

theorem replyForFileMutation_ok {verbDone verbFailed : Bytes} (h : okField resultJson) :
    replyForFileMutation verbDone verbFailed argumentsJson resultJson =
      verbDone ++ " " ++ resolvedPathOrRequested argumentsJson resultJson ++ "." := by
  simp [replyForFileMutation, h]

theorem Tells.shownPath {path : Bytes} {checks : List (Bytes × Field)}
    (hp : path = extractJsonStringField body "path")
    (h : Tells resultJson (resolvedPathMember path (resolvePath host path)) checks) :
    resolvedPathOrRequested body resultJson = shownPath host body := by
  subst hp
  have hr : extractJsonStringField resultJson "resolved_path" = _ := h.string (by decide)
  by_cases he : resolvePath host (extractJsonStringField body "path") =
      extractJsonStringField body "path"
  case pos => simp [resolvedPathOrRequested, hr, Cli.shownPath, resolvedPathMember, he]
  case neg => simp [resolvedPathOrRequested, hr, Cli.shownPath, resolvedPathMember, he, Field.text]

theorem Tells.transferPath {source resolvedSource destination resolvedDestination : Bytes}
    {checks : List (Bytes × Field)} (h : Tells resultJson
      (transferMembers source resolvedSource destination resolvedDestination) checks) :
    resolvedPathOrRequested body resultJson = requestedPathOrName body := by
  have hr : extractJsonStringField resultJson "resolved_path" = _ := h.string (by decide)
  have hn : (transferMembers source resolvedSource destination resolvedDestination).lookup
      (str "resolved_path") = none := by
    rw [transferMembers]
    split_ifs <;> rfl
  simp [resolvedPathOrRequested, hr, hn]

namespace Mutation

-- The members of a result that say where its paths have been taken to.
def paths (host : HostState) (body : Bytes) (tool : Mutation) : List (Bytes × Field) :=
  let path := extractJsonStringField body "path"
  let source := extractJsonStringField body "source_path"
  let destination := extractJsonStringField body "destination_path"
  match tool with
  | writeFile | deleteFile | createDirectory => resolvedPathMember path (resolvePath host path)
  | copyFile | movePath =>
    transferMembers source (resolvePath host source) destination (resolvePath host destination)
  | writeClipboard => []

theorem run_tells {tool : Mutation} (h : tool.succeeds m host body w) :
    ∃ checks, Tells (tool.run m host body w).value (tool.paths host body) checks := by
  cases tool
  case writeFile =>
    have ⟨_, ht⟩ := writeFile_tells h
    exact ⟨_, ht⟩
  case copyFile =>
    have ⟨_, ht⟩ := transfer_tells h
    exact ⟨existsFields _, ht _ (by simp [Keyed, existsFields, checkKeys]) rfl⟩
  case movePath =>
    have ⟨_, ht⟩ := transfer_tells h
    exact ⟨_, ht [("verified_exists", .bool _), ("verified_source_removed", .bool _)]
      (by simp [Keyed, checkKeys]) rfl⟩
  case deleteFile =>
    have ⟨_, ht⟩ := change_tells h
    exact ⟨_, ht ("verified_deleted", .bool _) (by simp [checkKeys]) rfl⟩
  case createDirectory =>
    have ⟨_, ht⟩ := change_tells h
    exact ⟨_, ht ("verified_is_directory", .bool _) (by simp [checkKeys]) rfl⟩
  case writeClipboard =>
    have ⟨_, ht⟩ := writeClipboard_tells h
    exact ⟨_, ht _ rfl⟩

theorem confirmed_tells {tool : Mutation} (h : tool.succeeds m host body w) : ∃ checks,
    (∀ key ∈ tool.checks, checks.lookup key = some (.bool true)) ∧
      Tells (tool.confirmed m host body w).value (tool.paths host body) checks := by
  cases tool
  case writeFile =>
    have hs : writeReports (seeing m true) host body w := h
    have ⟨_, ht⟩ := writeFile_tells hs
    exact ⟨_, List.forall_mem_singleton.mpr rfl, ht⟩
  case copyFile =>
    have hs : transferReports (copyTransfer (seeing m true)) host body w :=
      (transferReports_congr rfl).trans h
    have ⟨w', ht⟩ := transfer_tells hs
    exact ⟨existsFields ((seeing m true).statPath _ w'), List.forall_mem_singleton.mpr rfl,
      ht _ (by simp [Keyed, existsFields, checkKeys]) rfl⟩
  case movePath =>
    have hs : transferReports (confirmedMove m) host body w := (transferReports_congr rfl).trans h
    have ⟨_, ht⟩ := transfer_tells hs
    exact ⟨_, List.forall_mem_cons.mpr ⟨rfl, List.forall_mem_singleton.mpr rfl⟩,
      ht [("verified_exists", .bool true), ("verified_source_removed", .bool true)]
        (by simp [Keyed, checkKeys]) rfl⟩
  case deleteFile =>
    have hs : changeReports (deletion (seeing m false)) host body w :=
      (changeReports_congr rfl).trans h
    have ⟨_, ht⟩ := change_tells hs
    exact ⟨_, List.forall_mem_singleton.mpr rfl,
      ht ("verified_deleted", .bool true) (by simp [checkKeys]) rfl⟩
  case createDirectory =>
    have hs : changeReports (creation (seeing m true)) host body w :=
      (changeReports_congr rfl).trans h
    have ⟨_, ht⟩ := change_tells hs
    exact ⟨_, List.forall_mem_singleton.mpr rfl,
      ht ("verified_is_directory", .bool true) (by simp [checkKeys]) rfl⟩
  case writeClipboard =>
    have hs : ((holding m (extractJsonStringField body "text")).writeTextToClipboard
        (extractJsonStringField body "text") w).1.ok := h
    have ⟨_, ht⟩ := writeClipboard_tells hs
    exact ⟨_, List.forall_mem_singleton.mpr (by simp [List.lookup, holding]), ht _ rfl⟩

-- A success is told by the path alone.
theorem tryTemplateReply_tells {tool : Mutation} {checks : List (Bytes × Field)}
    (ho : okField resultJson) (ht : Tells resultJson (tool.paths host body) checks) :
    tryTemplateReply tool.toolName body resultJson = some (tool.sentence host body) := by
  cases tool
  case writeFile =>
    exact congrArg some ((replyForFileMutation_ok ho).trans (by rw [ht.shownPath rfl]; rfl))
  case copyFile =>
    exact congrArg some ((replyForFileMutation_ok ho).trans (by rw [ht.transferPath]; rfl))
  case movePath =>
    exact congrArg some ((replyForFileMutation_ok ho).trans (by rw [ht.transferPath]; rfl))
  case deleteFile =>
    exact congrArg some ((replyForFileMutation_ok ho).trans (by rw [ht.shownPath rfl]; rfl))
  case createDirectory =>
    exact congrArg some ((replyForFileMutation_ok ho).trans (by rw [ht.shownPath rfl]; rfl))
  case writeClipboard =>
    exact congrArg some (if_pos ho)

-- The sentence on a success is the one that is said where every check has found what it looked for.
theorem sentence_ignores_checks {tool : Mutation} (h : okField (tool.run m host body w).value) :
    let sentence := tryTemplateReply tool.toolName body (tool.run m host body w).value
    let resultJson := (tool.confirmed m host body w).value
    okField resultJson ∧ (∀ key ∈ tool.checks, extractJsonBoolField resultJson key = some true) ∧
      sentence = tryTemplateReply tool.toolName body resultJson := by
  intro sentence resultJson
  have hs : tool.succeeds m host body w := okField_run.symm.trans h
  have ho : okField resultJson := okField_confirmed.trans hs
  have ⟨_, ht⟩ := run_tells hs
  have ⟨_, hc, ht'⟩ := confirmed_tells hs
  refine ⟨ho, fun key hk => ?_, ?_⟩
  case refine_1 =>
    have hd : ∀ key ∈ tool.checks, key ∈ checkKeys := by cases tool <;> decide
    rw [ht'.bool (hd key hk), hc key hk]
    rfl
  case refine_2 => exact (tryTemplateReply_tells h ht).trans (tryTemplateReply_tells ho ht').symm

end Mutation

def moving : Bytes :=
  jsonObject [jsonStringField "source_path" "old/a.txt", jsonStringField "destination_path" "new/a.txt"]

theorem sentence_ignores_checks_moving :
    let tool := Mutation.movePath
    let ran := tool.run .idle .initial moving ()
    let resultJson := (tool.confirmed .idle .initial moving ()).value
    okField ran.value ∧ okField resultJson ∧
      (∀ key ∈ tool.checks, extractJsonBoolField resultJson key = some true) ∧
      tryTemplateReply tool.toolName moving ran.value =
        tryTemplateReply tool.toolName moving resultJson :=
  have h : okField (Mutation.movePath.run .idle .initial moving ()).value := by decide +kernel
  ⟨h, Mutation.sentence_ignores_checks h⟩

-- A file that has been copied to its destination and is still where it was has been moved, the
-- sentence says.
theorem not_sentence_heeds_checks :
    ¬∀ (tool : Mutation) (m : Machine Unit) (host : HostState) (body : Bytes),
      let resultJson := (tool.run m host body ()).value
      okField resultJson → (∃ key ∈ tool.checks, extractJsonBoolField resultJson key = some false) →
      tryTemplateReply tool.toolName body resultJson ≠
        tryTemplateReply tool.toolName body (tool.confirmed m host body ()).value := by
  intro h
  refine h .movePath .idle .initial moving ?_ ?_ ?_
  case refine_1 => decide +kernel
  case refine_2 => exact ⟨"verified_source_removed", by decide, by decide +kernel⟩
  case refine_3 => decide +kernel

section Destination

-- The destination that a result gives, else the one that was asked for.
def destinationOf (body resultJson : Bytes) : Bytes :=
  let resolved := extractJsonStringField resultJson "resolved_destination_path"
  if resolved = [] then extractJsonStringField body "destination_path" else resolved

theorem Tells.destination {source resolvedSource destination : Bytes}
    {checks : List (Bytes × Field)} (hd : destination = extractJsonStringField body "destination_path")
    (h : Tells resultJson (transferMembers source resolvedSource destination
      (resolvePath host destination)) checks) :
    destinationOf body resultJson = resolvePath host destination := by
  have hr : extractJsonStringField resultJson "resolved_destination_path" = _ :=
    h.string (by decide)
  have hl : (str "resolved_destination_path" == str "resolved_source_path") = false := by decide
  by_cases hn : resolvedSource ≠ source ∨ resolvePath host destination ≠ destination
  case pos =>
    simp only [transferMembers, hn, if_true, List.lookup, hl, beq_self_eq_true, Option.map_some,
      Option.getD_some, Field.text] at hr
    by_cases he : resolvePath host destination = []
    case pos => simp [destinationOf, hr, ← hd, resolvePath_eq_nil he]
    case neg => simp [destinationOf, hr, he]
  case neg =>
    have he : resolvePath host destination = destination := by simpa using (not_or.mp hn).right
    simp only [transferMembers, hn, if_false, List.lookup] at hr
    simp [destinationOf, hr, he, ← hd]

inductive Transferring
  | copyFile
  | movePath

namespace Transferring

def mutation : Transferring → Mutation
  | copyFile => .copyFile
  | movePath => .movePath

def verb : Transferring → Bytes
  | copyFile => "Copied to"
  | movePath => "Moved to"

-- A success is told by a name that the arguments of these tools do not have. It names the destination
-- exactly if it is to be found in the words put around that name.
theorem sentence_names_destination_iff {tool : Transferring}
    (h : okField (tool.mutation.run m host body w).value) :
    let resultJson := (tool.mutation.run m host body w).value
    let words := tool.verb ++ " " ++ requestedPathOrName body ++ "."
    ∃ sentence, tryTemplateReply tool.mutation.toolName body resultJson = some sentence ∧
      (destinationOf body resultJson <:+: sentence ↔
        resolvePath host (extractJsonStringField body "destination_path") <:+: words) := by
  intro resultJson words
  have hs : tool.mutation.succeeds m host body w := Mutation.okField_run.symm.trans h
  have ⟨_, ht⟩ := Mutation.run_tells hs
  refine ⟨tool.mutation.sentence host body, Mutation.tryTemplateReply_tells h ht, ?_⟩
  cases tool
  case copyFile => rw [Tells.destination rfl ht]; rfl
  case movePath => rw [Tells.destination rfl ht]; rfl

theorem sentence_names_destination_iff_moving :
    let resultJson := (Mutation.movePath.run .idle .initial moving ()).value
    let words := str "Moved to" ++ " " ++ requestedPathOrName moving ++ "."
    okField resultJson ∧
      ∃ sentence, tryTemplateReply "move_path" moving resultJson = some sentence ∧
        (destinationOf moving resultJson <:+: sentence ↔
          resolvePath .initial (extractJsonStringField moving "destination_path") <:+: words) :=
  have h : okField (Transferring.movePath.mutation.run .idle .initial moving ()).value := by
    decide +kernel
  ⟨h, sentence_names_destination_iff h⟩

-- What is said of any call with the two paths and nothing else.
theorem not_sentence_names_destination :
    let resultJson := (Mutation.movePath.run .idle .initial moving ()).value
    okField resultJson ∧ tryTemplateReply "move_path" moving resultJson = some "Moved to ." ∧
      ¬destinationOf moving resultJson <:+: str "Moved to ." := by
  decide +kernel

end Transferring

end Destination

end Sentences
end Droidcli.Cli
