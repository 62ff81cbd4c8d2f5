import Droidcli.Ai.Theorems.Members
import Droidcli.Cli.AgentState
import Droidcli.Cli.Theorems.Resolution
import Droidcli.Cli.Theorems.Reports
import Droidcli.Lib.Json.Flat
import Droidcli.Net.Theorems.Extraction

namespace Droidcli.Cli

open Bytes Net Json Reliability

-- The file tools, with their paths shown in full while a call awaits approval.
inductive FileTool
  | writeFile
  | deleteFile
  | createDirectory
  | copyFile
  | movePath

namespace FileTool

variable {W : Type}

def toolName : FileTool → Bytes
  | writeFile       => "write_file"
  | deleteFile      => "delete_file"
  | createDirectory => "create_directory"
  | copyFile        => "copy_file"
  | movePath        => "move_path"

def pathKeys : FileTool → List Bytes
  | writeFile | deleteFile | createDirectory => ["path"]
  | copyFile | movePath                      => ["source_path", "destination_path"]

-- The path that a tool makes of one of its arguments.
def resolved (host : HostState) (argumentsJson key : Bytes) : Bytes :=
  resolvePath host (extractJsonStringField argumentsJson key)

-- The operation on the machine, at the paths that it is given.
def operate (m : Machine W) (argumentsJson : Bytes) (path : Bytes → Bytes) (w : W) : FileTool → W
  | writeFile =>
    (m.writeFile (path "path") (extractJsonStringField argumentsJson "content")
      ((extractJsonBoolField argumentsJson "append").getD false) w).2
  | deleteFile      => (m.deleteFile (path "path") w).2
  | createDirectory => (m.createDirectory (path "path") w).2
  | copyFile        => (m.copyFile (path "source_path") (path "destination_path") w).2
  | movePath        => (m.movePath (path "source_path") (path "destination_path") w).2

-- Whether the guards let a call through: those on the paths, and that of `write_file` on the content.
def accepts (host : HostState) (argumentsJson : Bytes) (tool : FileTool) : Bool :=
  tool.pathKeys.all (fun key => usablePath host (extractJsonStringField argumentsJson key)) &&
    match tool with
    | writeFile => !looksLikeMismatchedBinaryContent (resolved host argumentsJson "path")
        (extractJsonStringField argumentsJson "content")
    | _         => true

-- An argument as an approver is to see it: a path that no guard rejects in the absolute form of
-- what the tool makes of it, everything else as it was given.
def shownMember (os : Os W) (host : HostState) (w : W) (argumentsJson : Bytes) (tool : FileTool)
    (m : Bytes × Value) : Bytes × Value :=
  if m.1 ∈ tool.pathKeys ∧ usablePath host (extractJsonStringField argumentsJson m.1) then
    (m.1, .string ((os.absolutePath (resolved host argumentsJson m.1) w).getD []))
  else m

variable {os : Os W} {machine : Machine W} {host : HostState} {appLog : List AppLogEntry}
  {argumentsJson : Bytes} {w : W} {tool : FileTool}

theorem writeFile_world : (Cli.writeFile machine host argumentsJson w).world =
    if writeFile.accepts host argumentsJson then
      writeFile.operate machine argumentsJson (resolved host argumentsJson) w
    else w := by
  simp only [Cli.writeFile, accepts, pathKeys, usablePath, resolved, operate]
  split
  case isTrue h => simp [h]
  case isFalse h =>
    split
    case isTrue h' => simp [h']
    case isFalse h' =>
      split
      case isTrue hb  => simp [hb]
      case isFalse hb => simp [h, h', hb]

theorem change_world {c : PathChange W} : (c.json host argumentsJson w).world =
    if usablePath host (extractJsonStringField argumentsJson "path") then
      (c.run (resolved host argumentsJson "path") w).2
    else w := by
  simp only [PathChange.json, usablePath, resolved]
  split
  case isTrue h => simp [h]
  case isFalse h =>
    split
    case isTrue h'  => simp [h']
    case isFalse h' => simp [h, h']

theorem transfer_world {t : Transfer W} : (t.json host argumentsJson w).world =
    if usablePath host (extractJsonStringField argumentsJson "source_path") &&
        usablePath host (extractJsonStringField argumentsJson "destination_path") then
      (t.run (resolved host argumentsJson "source_path")
        (resolved host argumentsJson "destination_path") w).2
    else w := by
  simp only [Transfer.json, usablePath, resolved]
  split
  case isTrue h => rcases Bool.or_eq_true_iff.mp h with h | h <;> simp [h]
  case isFalse h =>
    split
    case isTrue h' => rcases Bool.or_eq_true_iff.mp h' with h' | h' <;> simp [h']
    case isFalse h' =>
      simp only [Bool.or_eq_true, not_or, Bool.not_eq_true] at h h'
      simp [h, h']

-- What a call does is its operation at the resolved paths, or nothing.
theorem executeTool_world :
    (executeTool os machine host appLog tool.toolName argumentsJson w).1.world =
      if tool.accepts host argumentsJson then
        tool.operate machine argumentsJson (resolved host argumentsJson) w
      else w := by
  have ho : tool.toolName ∈ osTools := by cases tool <;> decide
  simp only [executeTool, ho, if_true]
  cases tool
  case writeFile =>
    refine Eq.trans ?_ writeFile_world
    simp [runOsTool, toolName, str_inj, Ran.some]
  case deleteFile =>
    have hr : (runOsTool machine host deleteFile.toolName argumentsJson w).world =
        ((deletion machine).json host argumentsJson w).world := by
      simp [runOsTool, toolName, str_inj, Ran.some, deleteFileJson]
    rw [hr, change_world]
    simp [accepts, pathKeys, operate, deletion]
  case createDirectory =>
    have hr : (runOsTool machine host createDirectory.toolName argumentsJson w).world =
        ((creation machine).json host argumentsJson w).world := by
      simp [runOsTool, toolName, str_inj, Ran.some, createDirectoryJson]
    rw [hr, change_world]
    simp [accepts, pathKeys, operate, creation]
  case copyFile =>
    have hr : (runOsTool machine host copyFile.toolName argumentsJson w).world =
        ((copyTransfer machine).json host argumentsJson w).world := by
      simp [runOsTool, toolName, str_inj, Ran.some, copyFileJson]
    rw [hr, transfer_world]
    simp [accepts, pathKeys, operate, copyTransfer]
  case movePath =>
    have hr : (runOsTool machine host movePath.toolName argumentsJson w).world =
        ((moveTransfer machine).json host argumentsJson w).world := by
      simp [runOsTool, toolName, str_inj, Ran.some, movePathJson]
    rw [hr, transfer_world]
    simp [accepts, pathKeys, operate, moveTransfer]

theorem displayArguments_eq :
    displayArgumentsWithFullPaths os host w tool.toolName argumentsJson =
      tool.pathKeys.foldl (resolveField os host w) argumentsJson := by
  cases tool <;> simp [displayArgumentsWithFullPaths, toolName, pathKeys, str_inj]

end FileTool

section Member

variable {key r t w w' new : Bytes} {m : Written} {before behind : List Written}

-- A member whose value the readers take for a string, and what they make of it.
structure Reads (m : Written) (r t : Bytes) : Prop where
  blank  : Blank m.lead
  quoted : Quoted r
  value  : m.value = quote :: r ++ [quote]
  spells : Spells r t

theorem skipJsonString_quoted {rest : Bytes} (hr : Quoted r) :
    skipJsonString (r ++ quote :: rest) = rest := by
  induction hr
  case nil =>
    have hq : quote ≠ backslash := by decide
    cases rest <;> simp [skipJsonString, hq]
  case plain c r hq hb _ ih =>
    cases hr : r ++ quote :: rest
    case nil => simp at hr
    case cons e text => rw [List.cons_append, hr, skipJsonString, if_neg hb, if_neg hq, ← hr, ih]
  case escaped ih => rw [List.cons_append, List.cons_append, skipJsonString, if_pos rfl, ih]

theorem blank_isBlank {c : UInt8} {lead : Bytes} (h : Blank lead) (rest : Bytes)
    (hc : isBlank c = false) : (lead ++ c :: rest).dropWhile isBlank = c :: rest ∧
      (lead ++ c :: rest).takeWhile isBlank = lead := by
  rw [List.dropWhile_append_of_pos h, List.takeWhile_append_of_pos h]
  simp [hc]

-- A member is read as a string, or not at all.
theorem reads_or (m : Written) : (∃ r t, Reads m r t) ∨
    ∀ rest, ∃ c text, (m.lead ++ (m.value ++ rest)).dropWhile isBlank = c :: text ∧ c ≠ quote := by
  by_cases hb : Blank m.lead
  case neg =>
    refine .inr fun rest => ?_
    have ⟨c, text, hd, hc⟩ := dropWhile_of_not_blank (s := m.value ++ rest) m.lead_gap hb
    refine ⟨c, text, hd, ?_⟩
    cases hc <;> subst c <;> decide
  case pos =>
    cases m.valued.flat_cases m.flat
    case inl h =>
      have ⟨b, _, hq, _⟩ := h
      have ⟨c, e, he, hc⟩ := m.valued.starts
      have hblank : isBlank c = false := by
        simpa using fun hb => hc.not_gap (isBlank_gap hb)
      refine .inr fun rest => ⟨c, e ++ rest, ?_, fun hcq => hq (by simp [he, hcq])⟩
      rw [he]
      exact (blank_isBlank hb (e ++ rest) hblank).left
    case inr h =>
      have ⟨r, t, _, hbody, hv⟩ := h
      exact .inl ⟨r, _, hb, hbody.quoted, hv, @Spells.read r [] hbody.quoted⟩

theorem Reads.split (h : Reads m r t) (rest : Bytes) :
    (m.lead ++ (m.value ++ rest)).dropWhile isBlank = quote :: (r ++ quote :: rest) ∧
      (m.lead ++ (m.value ++ rest)).takeWhile isBlank = m.lead := by
  have hq : isBlank quote = false := by decide
  simpa [h.value] using blank_isBlank h.blank (r ++ quote :: rest) hq

theorem after_objectText (hk : Word key) (hw : Gap w) (hb : ∀ b ∈ before, ¬b.Holds key)
    (hm : m.Holds key) : ∃ pre rest,
      breakOn (needle key) (objectText w (before ++ m :: behind) w') =
        some (pre, m.lead ++ (m.value ++ rest)) ∧
      ∀ m' : Written, m'.head = m.head → m'.trail = m.trail →
        objectText w (before ++ m' :: behind) w' =
          pre ++ (needle key ++ (m'.lead ++ (m'.value ++ rest))) := by
  have ⟨pre, hi, ht⟩ := @search_objectText key w w' m before behind hk hw hb hm
  refine ⟨pre, m.trail ++ (behind.flatMap ([comma] ++ ·.text) ++ (rbrace :: w')), ?_, ?_⟩
  case refine_1 =>
    rw [ht m rfl, needle_eq_pattern, breakOn_inert (inert_needle hi)]
    simp [pattern, breakOn]
  case refine_2 => exact fun m' hh htr => by rw [ht m' hh, htr, needle_eq_pattern]

-- What is read of an object is what the first member says that holds the name.
theorem extract_of_reads (hk : Word key) (hw : Gap w) (hb : ∀ b ∈ before, ¬b.Holds key)
    (hm : m.Holds key) (h : Reads m r t) :
    extractJsonStringField (objectText w (before ++ m :: behind) w') key = t := by
  have ⟨pre, rest, hbr, _⟩ := @after_objectText key w w' m before behind hk hw hb hm
  have ha : afterField (objectText w (before ++ m :: behind) w') key 0 =
      some (quote :: (r ++ quote :: rest)) := by
    rw [afterField, List.drop_zero, after, hbr]
    exact congrArg some (h.split rest).left
  have hs := (@Spells.read r rest h.quoted).unique h.spells
  simpa [extractJsonStringField, extractJsonStringFieldFrom, ha] using hs

theorem extract_of_not_reads (hk : Word key) (hw : Gap w) (hb : ∀ b ∈ before, ¬b.Holds key)
    (hm : m.Holds key)
    (h : ∀ rest, ∃ c text,
      (m.lead ++ (m.value ++ rest)).dropWhile isBlank = c :: text ∧ c ≠ quote) :
    extractJsonStringField (objectText w (before ++ m :: behind) w') key = [] := by
  have ⟨pre, rest, hbr, _⟩ := @after_objectText key w w' m before behind hk hw hb hm
  have ⟨c, text, hd, hc⟩ := h rest
  have ha : afterField (objectText w (before ++ m :: behind) w') key 0 = some (c :: text) := by
    rw [afterField, List.drop_zero, after, hbr]
    exact congrArg some hd
  simp [extractJsonStringField, extractJsonStringFieldFrom, ha, hc]

theorem extract_of_none (hk : Word key) (hw : Gap w) (hw' : Gap w')
    (hb : ∀ b ∈ before, ¬b.Holds key) (hm : ¬m.Holds key) :
    extractJsonStringField (objectText w (before ++ [m]) w') key = [] := by
  have hi := inert_objectText hk hw hw' hb hm
  rw [← List.append_nil (objectText w (before ++ [m]) w'), ← needle_eq_pattern] at hi
  exact stringField_absent (not_infix_of_inert hi (by simp [needle]))

-- The member that is read is the one that is replaced.
theorem replace_of_reads (hk : Word key) (hw : Gap w) (hb : ∀ b ∈ before, ¬b.Holds key)
    (hm : m.Holds key) (h : Reads m r t) :
    replaceJsonStringFieldValue (objectText w (before ++ m :: behind) w') key new =
      objectText w (before ++ m.withString (body_lenient new) :: behind) w' := by
  have ⟨pre, rest, hbr, ht⟩ := @after_objectText key w w' m before behind hk hw hb hm
  have ⟨hd, htake⟩ := h.split rest
  rw [ht (m.withString (body_lenient new)) rfl rfl, replaceJsonStringFieldValue, hbr]
  simp only [hd, htake, if_true, skipJsonString_quoted h.quoted]
  simp [Written.withString, jsonString]

-- Where a search for the name stops, if it stops in any member.
theorem first_holder (key : Bytes) (written : List Written) :
    (∀ m ∈ written, ¬m.Holds key) ∨ ∃ before m behind, written = before ++ m :: behind ∧
      (∀ b ∈ before, ¬b.Holds key) ∧ m.Holds key := by
  cases hf : written.find? fun m => decide (m.Holds key)
  case none => exact .inl fun m hm => by simpa using List.find?_eq_none.mp hf m hm
  case some m =>
    have ⟨hm, before, behind, hs, hb⟩ := List.find?_eq_some_iff_append.mp hf
    exact .inr ⟨before, m, behind, hs, fun b h => by simpa using hb b h, by simpa using hm⟩

theorem extract_of_no_holder (hk : Word key) (hw : Gap w) (hw' : Gap w') {written : List Written}
    (hn : written ≠ []) (h : ∀ m ∈ written, ¬m.Holds key) :
    extractJsonStringField (objectText w written w') key = [] := by
  have hs := List.dropLast_concat_getLast hn
  rw [← hs]
  refine extract_of_none hk hw hw' (fun b hb => h b (List.mem_of_mem_dropLast hb)) ?_
  exact h _ (List.getLast_mem hn)

end Member

section Resolving

variable {W : Type} {os : Os W} {host : HostState} {s : W} {key key' path path' w w' : Bytes}
  {m : Written} {written : List Written}

-- `std::filesystem::absolute` has an answer for every path but the empty one, as long as there is a
-- working directory.
def Absolute (os : Os W) (s : W) : Prop :=
  ∀ path ≠ [], ∃ full ≠ [], os.absolutePath path s = some full

-- A field is shown as it is given, or its value gives way to the absolute form of its path.
theorem resolveField_cases (hk : Word key) (hw : Gap w) (hw' : Gap w') (hn : written ≠ [])
    (habs : Absolute os s) (hp : extractJsonStringField (objectText w written w') key = path) :
    (resolveField os host s (objectText w written w') key = objectText w written w' ∧
        (path = [] ∨ usablePath host path = false)) ∨
      ∃ before m behind r full, written = before ++ m :: behind ∧ (∀ b ∈ before, ¬b.Holds key) ∧
        m.Holds key ∧ Reads m r path ∧ path ≠ [] ∧ usablePath host path ∧ full ≠ [] ∧
        os.absolutePath (resolvePath host path) s = some full ∧
        resolveField os host s (objectText w written w') key =
          objectText w (before ++ m.withString (body_lenient full) :: behind) w' := by
  by_cases hne : path = []
  case pos => exact .inl ⟨if_pos (.inl (hp.trans hne)), .inl hne⟩
  case neg =>
    cases hu : usablePath host path
    case false =>
      refine .inl ⟨?_, .inr rfl⟩
      simp only [usablePath, resolvePath, Bool.and_eq_false_iff, Bool.not_eq_false'] at hu
      simp only [resolveField, hp]
      cases hu
      case inl h => exact if_pos (.inr h)
      case inr h => simp [h]
    case true =>
      have hr : resolvePath host path ≠ [] := mt resolvePath_eq_nil hne
      obtain ⟨full, hfull, ha⟩ := habs _ hr
      cases first_holder key written
      case inl h => exact absurd (hp.symm.trans (extract_of_no_holder hk hw hw' hn h)) hne
      case inr h =>
        obtain ⟨before, m, behind, hs, hb, hm⟩ := h
        subst hs
        cases reads_or m
        case inr h => exact absurd (hp.symm.trans (extract_of_not_reads hk hw hb hm h)) hne
        case inl h =>
          obtain ⟨r, t, h⟩ := h
          obtain rfl : t = path := (extract_of_reads hk hw hb hm h).symm.trans hp
          refine .inr ⟨before, m, behind, r, full, rfl, hb, hm, h, hne, rfl, hfull, ha, ?_⟩
          rw [← @replace_of_reads key r t w w' full m before behind hk hw hb hm h]
          simp only [usablePath, resolvePath, Bool.and_eq_true, Bool.not_eq_true'] at hu
          rw [resolvePath] at ha
          simp [resolveField, hp, hne, hu, ha, hfull]

-- A member in which a field is found that no member before it holds.
structure FoundBehind (key : Bytes) (before : List Written) (m : Written) : Prop where
  inert : ∀ b ∈ before, ¬b.Holds key
  holds : m.Holds key
  blank : Blank m.lead

theorem FoundBehind.of_frame {m' : Written} {before before' : List Written}
    (h : FoundBehind key before' m') (hb : before'.map Written.frame = before.map Written.frame)
    (hm : m'.frame = m.frame) : FoundBehind key before m where
  inert := by
    have hinert : ∀ b ∈ before'.map Written.frame, ¬b.Holds key := List.forall_mem_map.mpr h.inert
    rw [hb, List.forall_mem_map] at hinert
    exact hinert
  holds := (Written.holds_of_frame hm).mp h.holds
  blank := by
    have hlead : m'.lead = m.lead := (Written.mk.inj hm).2.2.2.1
    exact hlead ▸ h.blank

-- A field that is found where a reader of the JSON text finds it: its name is written as it is and
-- right before the colon, its value on the same line, and no other member is found before it or
-- goes by that name.
def InPlace (key : Bytes) (written : List Written) : Prop :=
  ∃ before m behind, written = before ++ m :: behind ∧ FoundBehind key before m ∧ m.name = key ∧
    ∀ b ∈ before ++ behind, b.name ≠ key

-- A field and what is read of it.
structure Addressed (key path w w' : Bytes) (written : List Written) : Prop where
  word  : Word key
  read  : extractJsonStringField (objectText w written w') key = path
  place : InPlace key written ∨ looksLikePlaceholderPath path
  given : ∀ m ∈ written, m.name = key → ∃ given ≠ [], m.meant = .string given

theorem reads_of_string {given : Bytes} (hb : Blank m.lead)
    (hv : m.meant = .string given) (hne : given ≠ []) : ∃ r t, Reads m r t ∧ t ≠ [] := by
  cases m.valued.flat_cases m.flat
  case inl h =>
    have ⟨_, hv', _⟩ := h
    exact absurd (hv'.symm.trans hv) nofun
  case inr h =>
    have ⟨r, t, hv', hbody, he⟩ := h
    obtain rfl : t = given := Value.string.inj (hv'.symm.trans hv)
    have hs := @Spells.read r [] hbody.quoted
    refine ⟨r, _, ⟨hb, hbody.quoted, he, hs⟩, fun hn => ?_⟩
    exact hne ((body_nil_iff hbody).mp (Spells.eq_nil (hn ▸ hs)))

-- The member as the prompt shows it.
def showField (os : Os W) (host : HostState) (s : W) (key path : Bytes) (m : Written) : Written :=
  if m.name = key ∧ usablePath host path then
    m.withString (body_lenient ((os.absolutePath (resolvePath host path) s).getD []))
  else m

theorem showField_of_name (h : m.name ≠ key) : showField os host s key path m = m :=
  if_neg fun hn => h hn.left

theorem showField_of_refused (h : usablePath host path = false) :
    showField os host s key path m = m :=
  if_neg fun hn => by simp [h] at hn

theorem map_showField_id (h : ∀ m ∈ written, showField os host s key path m = m) :
    written.map (showField os host s key path) = written :=
  (List.map_congr_left h).trans written.map_id

theorem Addressed.ne_nil (h : Addressed key path w w' written) (hw : Gap w)
    (hp : InPlace key written) : path ≠ [] := by
  have ⟨before, m, behind, hs, ⟨hb, hm, hblank⟩, hname, _⟩ := hp
  have ⟨given, hg, hv⟩ := h.given m (by simp [hs]) hname
  have ⟨r, t, hr, ht⟩ := reads_of_string hblank hv hg
  have hread := hs ▸ h.read
  exact (extract_of_reads h.word hw hb hm hr).symm.trans hread ▸ ht

theorem usablePath_placeholder (h : looksLikePlaceholderPath path) :
    usablePath host path = false := by
  simp [usablePath, h]

-- The one place where the search stops is the one that is replaced.
theorem Addressed.resolveField_eq (h : Addressed key path w w' written) (hw : Gap w) (hw' : Gap w')
    (hn : written ≠ []) (habs : Absolute os s) :
    resolveField os host s (objectText w written w') key =
      objectText w (written.map (showField os host s key path)) w' := by
  cases @resolveField_cases W os host s key path w w' written h.word hw hw' hn habs h.read
  case inl hc =>
    have ⟨he, hpath⟩ := hc
    have hu : usablePath host path = false := by
      refine hpath.elim (fun hnil => ?_) id
      exact usablePath_placeholder <| h.place.resolve_left fun hp => h.ne_nil hw hp hnil
    rw [he, map_showField_id fun m _ => showField_of_refused hu]
  case inr hc =>
    have ⟨before, m, behind, r, full, hs, hb, hm, hr, hne, hu, _, ha, he⟩ := hc
    have ⟨before', m', behind', hs', ⟨hb', hm', _⟩, hname, hother⟩ :=
      h.place.resolve_right fun hp => by simp [usablePath_placeholder hp] at hu
    -- Both searches stop at the same member.
    have ⟨hbb, hmm⟩ := @split_unique Written (fun m => !decide (m.Holds key)) (m :: behind)
      (m' :: behind') before before' (by simpa using hb) (by simpa using hb') (by simpa using hm)
      (by simpa using hm') (hs.symm.trans hs')
    obtain ⟨rfl, rfl⟩ := List.cons.inj hmm
    subst hbb
    have hother (b : Written) (hb : b ∈ before ++ behind) : showField os host s key path b = b :=
      showField_of_name (hother b hb)
    rw [he, hs, List.map_append, List.map_cons,
      map_showField_id fun b hb => hother b (List.mem_append_left _ hb),
      map_showField_id fun b hb => hother b (List.mem_append_right _ hb)]
    simp [showField, hname, hu, ha]

theorem showField_name : (showField os host s key path m).name = m.name := by
  rw [showField]
  split <;> rfl

theorem showField_frame : (showField os host s key path m).frame = m.frame := by
  rw [showField]
  split <;> rfl

theorem showField_holds : (showField os host s key path m).Holds key' ↔ m.Holds key' :=
  Written.holds_of_frame showField_frame

-- Where one field is found, no other one is shown.
theorem showField_of_holds (hk : Word key) (hk' : Word key') (hne : key ≠ key')
    (hm : m.Holds key') : showField os host s key path m = m := by
  refine showField_of_name fun hname => ?_
  cases hm.name hk'
  case inl h => exact hne (hname.symm.trans h)
  case inr h => exact (hk.plain quote (hname ▸ h)).left rfl

theorem extract_map_showField (hk : Word key) (hk' : Word key') (hne : key ≠ key') (hw : Gap w)
    (hw' : Gap w') (hn : written ≠ []) :
    extractJsonStringField (objectText w (written.map (showField os host s key path)) w') key' =
      extractJsonStringField (objectText w written w') key' := by
  cases first_holder key' written
  case inl h =>
    have h' : ∀ m ∈ written.map (showField os host s key path), ¬m.Holds key' := by
      simpa [showField_holds] using h
    rw [extract_of_no_holder hk' hw hw' hn h, extract_of_no_holder hk' hw hw' (by simpa) h']
  case inr h =>
    have ⟨before, m, behind, hs, hb, hm⟩ := h
    have hb' : ∀ b ∈ before.map (showField os host s key path), ¬b.Holds key' := by
      simpa [showField_holds] using hb
    rw [hs, List.map_append, List.map_cons, showField_of_holds hk hk' hne hm]
    cases reads_or m
    case inl hr =>
      have ⟨r, t, hr⟩ := hr
      rw [extract_of_reads hk' hw hb' hm hr, extract_of_reads hk' hw hb hm hr]
    case inr hr => rw [extract_of_not_reads hk' hw hb' hm hr, extract_of_not_reads hk' hw hb hm hr]

theorem InPlace.map_showField (h : InPlace key' written) :
    InPlace key' (written.map (showField os host s key path)) := by
  have ⟨before, m, behind, hs, hfound, hname, hother⟩ := h
  refine ⟨before.map (showField os host s key path), showField os host s key path m,
    behind.map (showField os host s key path), by simp [hs], ?_, showField_name.trans hname, ?_⟩
  case refine_1 =>
    refine hfound.of_frame ?_ showField_frame.symm
    simp only [List.map_map]
    exact List.map_congr_left fun b _ => showField_frame.symm
  case refine_2 =>
    rw [← List.map_append]
    simpa only [List.forall_mem_map, showField_name] using hother

-- What is done to one field leaves the others as they were.
theorem Addressed.map_showField (h : Addressed key' path' w w' written) (hw : Gap w) (hw' : Gap w')
    (hn : written ≠ []) (hk : Word key) (hne : key ≠ key') :
    Addressed key' path' w w' (written.map (showField os host s key path)) where
  word  := h.word
  read  := (extract_map_showField hk h.word hne hw hw' hn).trans h.read
  place := h.place.imp_left InPlace.map_showField
  given := by
    rw [List.forall_mem_map]
    intro m hm hname
    rw [showField_name] at hname
    rw [showField_of_name (hname ▸ hne.symm)]
    exact h.given m hm hname

section Fields

variable {paths : Bytes → Bytes} {keys : List Bytes}

theorem foldl_resolveField (hk : keys.Nodup)
    (h : ∀ key ∈ keys, Addressed key (paths key) w w' written) (hw : Gap w) (hw' : Gap w')
    (hn : written ≠ []) (habs : Absolute os s) :
    keys.foldl (resolveField os host s) (objectText w written w') =
      objectText w (written.map fun m =>
        keys.foldl (fun m key => showField os host s key (paths key) m) m) w' := by
  induction keys generalizing written
  case nil => simp
  case cons key keys ih =>
    have ⟨hkey, hkeys⟩ := List.nodup_cons.mp hk
    have ⟨hfirst, hrest⟩ := List.forall_mem_cons.mp h
    have hrest (key' : Bytes) (hm : key' ∈ keys) : Addressed key' (paths key') w w'
        (written.map (showField os host s key (paths key))) :=
      (hrest key' hm).map_showField hw hw' hn hfirst.word (ne_of_mem_of_not_mem hm hkey).symm
    rw [List.foldl_cons, hfirst.resolveField_eq hw hw' hn habs, ih hkeys hrest (by simpa)]
    simp [Function.comp_def]

theorem foldl_showField_of_name (h : m.name ∉ keys) :
    keys.foldl (fun m key => showField os host s key (paths key) m) m = m := by
  induction keys
  case nil => rfl
  case cons key keys ih =>
    have ⟨hne, hm⟩ := List.ne_and_not_mem_of_not_mem_cons h
    rw [List.foldl_cons, showField_of_name hne, ih hm]

theorem foldl_showField_member (hk : keys.Nodup) :
    (keys.foldl (fun m key => showField os host s key (paths key) m) m).member =
      if m.name ∈ keys ∧ usablePath host (paths m.name) then
        (m.name, .string ((os.absolutePath (resolvePath host (paths m.name)) s).getD []))
      else m.member := by
  induction keys
  case nil => simp
  case cons key keys ih =>
    have ⟨hkey, hkeys⟩ := List.nodup_cons.mp hk
    rw [List.foldl_cons]
    by_cases hname : m.name = key
    case neg => simp [showField_of_name hname, hname, ih hkeys]
    case pos =>
      rw [foldl_showField_of_name (by rwa [showField_name, hname])]
      simp only [showField, hname, true_and, List.mem_cons, true_or]
      split_ifs <;> simp [Written.member, Written.withString, hname]

end Fields

end Resolving

section Position

variable {W : Type} {os : Os W} {host : HostState} {s : W} {key w w' : Bytes} {keys : List Bytes}
  {x : Written} {a c : List Written}

-- Where an element of a list stands, seen from another one.
theorem position_cases {α : Type} {a before behind c : List α} {m x : α}
    (h : a ++ x :: c = before ++ m :: behind) : (a = before ∧ x = m ∧ c = behind) ∨
      (∃ mid, c = mid ++ m :: behind ∧ before = a ++ x :: mid) ∨
        ∃ mid, a = before ++ m :: mid ∧ behind = mid ++ x :: c := by
  cases List.append_eq_append_iff.mp h
  case inl h =>
    have ⟨mid, hbefore, hmid⟩ := h
    cases mid
    case nil =>
      have ⟨hx, hc⟩ := List.cons.inj hmid
      exact .inl ⟨by simp [hbefore], hx, hc⟩
    case cons y mid =>
      have ⟨hx, hc⟩ := List.cons.inj hmid
      exact .inr (.inl ⟨mid, hc, by rw [hbefore, hx]⟩)
  case inr h =>
    have ⟨mid, ha, hmid⟩ := h
    cases mid
    case nil =>
      have ⟨hx, hc⟩ := List.cons.inj hmid
      exact .inl ⟨by simp [ha], hx.symm, hc.symm⟩
    case cons y mid =>
      have ⟨hm, hbehind⟩ := List.cons.inj hmid
      exact .inr (.inr ⟨mid, by rw [ha, hm], hbehind⟩)

-- What becomes of a member where a field is shown: it stays what it is, or it is the one found.
theorem resolveField_at (hk : Word key) (hw : Gap w) (hw' : Gap w') (habs : Absolute os s) :
    ∃ a' x' c', resolveField os host s (objectText w (a ++ x :: c) w') key =
        objectText w (a' ++ x' :: c') w' ∧
      a'.map Written.frame = a.map Written.frame ∧ x'.frame = x.frame ∧
      (x' = x ∨ FoundBehind key a x) := by
  cases @resolveField_cases W os host s key _ w w' (a ++ x :: c) hk hw hw' (by simp) habs rfl
  case inl h => exact ⟨a, x, c, h.left, rfl, rfl, .inl rfl⟩
  case inr h =>
    have ⟨before, m, behind, r, full, hs, hb, hm, hr, _, _, _, _, he⟩ := h
    let m' := m.withString (body_lenient full)
    rw [he]
    rcases position_cases hs with ⟨rfl, rfl, rfl⟩ | ⟨mid, -, rfl⟩ | ⟨mid, rfl, rfl⟩
    case inl => exact ⟨a, m', c, rfl, rfl, rfl, .inr ⟨hb, hm, hr.blank⟩⟩
    case inr.inl => exact ⟨a, x, mid ++ m' :: behind, by simp [m'], rfl, rfl, .inl rfl⟩
    case inr.inr =>
      have hf : m'.frame = m.frame := rfl
      exact ⟨before ++ m' :: mid, x, c, by simp [m'], by simp [hf], rfl, .inl rfl⟩

theorem foldl_resolveField_at (hk : ∀ key ∈ keys, Word key) (hw : Gap w) (hw' : Gap w')
    (habs : Absolute os s) :
    ∃ a' x' c', keys.foldl (resolveField os host s) (objectText w (a ++ x :: c) w') =
        objectText w (a' ++ x' :: c') w' ∧ a'.length = a.length ∧
      (x' = x ∨ ∃ key ∈ keys, FoundBehind key a x) := by
  induction keys generalizing a x c
  case nil => exact ⟨a, x, c, rfl, rfl, .inl rfl⟩
  case cons key keys ih =>
    have ⟨hkey, hkeys⟩ := List.forall_mem_cons.mp hk
    have ⟨a₁, x₁, c₁, he₁, ha₁, hx₁, hor₁⟩ :=
      @resolveField_at W os host s key w w' x a c hkey hw hw' habs
    have ⟨a₂, x₂, c₂, he₂, ha₂, hor₂⟩ := @ih x₁ a₁ c₁ hkeys
    have hlen : a₁.length = a.length := by simpa using congrArg List.length ha₁
    refine ⟨a₂, x₂, c₂, by rw [List.foldl_cons, he₁, he₂], ha₂.trans hlen, ?_⟩
    cases hor₂
    case inl h =>
      subst h
      exact hor₁.imp_right fun hf => ⟨key, List.mem_cons_self, hf⟩
    case inr h =>
      have ⟨key', hmem, hf⟩ := h
      exact .inr ⟨key', List.mem_cons_of_mem _ hmem, hf.of_frame ha₁ hx₁⟩

end Position

section Prompt

variable {raw : UInt8 → Prop} {tool : FileTool} {argumentsJson w w' : Bytes}
  {members : List (Bytes × Value)} {x : Written} {a c written : List Written}

-- The arguments of a call: an object of strings and truth values, none of its paths empty.
structure FileArguments (tool : FileTool) (raw : UInt8 → Prop) (argumentsJson : Bytes)
    (members : List (Bytes × Value)) : Prop where
  text  : IsText raw argumentsJson (.object members)
  flat  : ∀ m ∈ members, m.2.Flat
  given : ∀ key ∈ tool.pathKeys, ∃ m ∈ members, m.1 = key
  paths : ∀ m ∈ members, m.1 ∈ tool.pathKeys → ∃ path ≠ [], m.2 = .string path

-- The approver of a call sees what is done once it is approved, on every machine, with every
-- desktop and in every working directory.
def FileTool.ShowsWhatRuns (tool : FileTool) (argumentsJson : Bytes)
    (members : List (Bytes × Value)) : Prop :=
  ∀ {W : Type} (os : Os W) (machine : Machine W) (host : HostState) (appLog : List AppLogEntry)
    (w : W), Absolute os w →
    IsText lenient (displayArgumentsWithFullPaths os host w tool.toolName argumentsJson)
        (.object (members.map (tool.shownMember os host w argumentsJson))) ∧
      (executeTool os machine host appLog tool.toolName argumentsJson w).1.world =
        if tool.accepts host argumentsJson then
          tool.operate machine argumentsJson (FileTool.resolved host argumentsJson) w
        else w

-- Every path is written where the host finds it, or what the host finds is a placeholder.
def FileTool.Legible (tool : FileTool) (argumentsJson : Bytes) : Prop :=
  ∃ w written w', Gap w ∧ Gap w' ∧ argumentsJson = objectText w written w' ∧
    ∀ key ∈ tool.pathKeys, InPlace key written ∨
      looksLikePlaceholderPath (extractJsonStringField argumentsJson key)

theorem FileTool.pathKeys_word : ∀ key ∈ tool.pathKeys, Word key := by
  cases tool <;> decide

theorem FileTool.pathKeys_nodup : tool.pathKeys.Nodup := by
  cases tool <;> decide

theorem FileArguments.ne_nil (h : FileArguments tool raw argumentsJson members) : members ≠ [] := by
  have hk : tool.pathKeys ≠ [] := by cases tool <;> decide
  have ⟨m, hm, _⟩ := h.given _ (List.head_mem hk)
  exact List.ne_nil_of_mem hm

theorem FileArguments.exists_written (h : FileArguments tool raw argumentsJson members) :
    ∃ w written w', Gap w ∧ Gap w' ∧ written ≠ [] ∧ argumentsJson = objectText w written w' ∧
      members = written.map Written.member :=
  h.text.exists_written h.ne_nil h.flat

theorem FileArguments.lenient (h : FileArguments tool raw argumentsJson members) :
    IsText lenient argumentsJson (.object members) := by
  have ⟨w, written, w', hw, hw', _, he, hm⟩ := h.exists_written
  exact he ▸ hm ▸ isText_objectText hw hw'

theorem FileArguments.members_eq (h : FileArguments tool raw argumentsJson members)
    (hw : Gap w) (hw' : Gap w') (he : argumentsJson = objectText w written w') :
    members = written.map Written.member :=
  Value.object.inj <| h.lenient.unique (he ▸ isText_objectText hw hw')

theorem FileArguments.shows_of_legible (h : FileArguments tool raw argumentsJson members)
    (hl : tool.Legible argumentsJson) : tool.ShowsWhatRuns argumentsJson members := by
  intro W os machine host appLog s habs
  refine ⟨?_, FileTool.executeTool_world⟩
  have ⟨w, written, w', hw, hw', he, hp⟩ := hl
  have hm := h.members_eq hw hw' he
  have hn : written ≠ [] := fun hn => h.ne_nil (by simp [hm, hn])
  have haddr (key : Bytes) (hk : key ∈ tool.pathKeys) :
      Addressed key (extractJsonStringField argumentsJson key) w w' written := by
    refine ⟨FileTool.pathKeys_word key hk, by rw [he], hp key hk, fun m hmem hname => ?_⟩
    refine h.paths m.member (hm ▸ List.mem_map_of_mem hmem) ?_
    exact (show m.member.1 = key from hname) ▸ hk
  have hfold : tool.pathKeys.foldl (resolveField os host s) (objectText w written w') = _ :=
    foldl_resolveField FileTool.pathKeys_nodup haddr hw hw' hn habs
  rw [← he] at hfold
  rw [FileTool.displayArguments_eq, hfold, hm, List.map_map]
  have hshown : tool.shownMember os host s argumentsJson ∘ Written.member = Written.member ∘
      fun m => tool.pathKeys.foldl (fun m key => showField os host s key
        (extractJsonStringField argumentsJson key) m) m := by
    funext m
    rw [Function.comp_apply, Function.comp_apply, foldl_showField_member FileTool.pathKeys_nodup]
    rfl
  rw [hshown, ← List.map_map]
  exact isText_objectText hw hw'

-- A machine whose working directory is the given one, up to the separator behind it.
def workingIn (directory : Bytes) : Os Unit :=
  { Os.idle with
    absolutePath := fun path _ => if path = [] then none else some (directory ++ slash :: path) }

theorem absolute_workingIn (directory : Bytes) : Absolute (workingIn directory) () := by
  intro path hp
  exact ⟨directory ++ slash :: path, by simp, if_neg hp⟩

-- Without a desktop only a placeholder is rejected.
theorem usablePath_initial {path : Bytes} (h : looksLikePlaceholderPath path = false) :
    usablePath HostState.initial path := by
  simp [usablePath, h, looksLikeInventedDesktopPath, HostState.initial]

-- A path that is shown in full is the one that is found.
theorem FileArguments.found_of_shows (h : FileArguments tool raw argumentsJson members)
    (hs : tool.ShowsWhatRuns argumentsJson members) (hw : Gap w) (hw' : Gap w')
    (he : argumentsJson = objectText w (a ++ x :: c) w') (hx : x.name ∈ tool.pathKeys)
    (hp : looksLikePlaceholderPath (extractJsonStringField argumentsJson x.name) = false) :
    FoundBehind x.name a x := by
  subst he
  have hm := h.members_eq hw hw' rfl
  have ⟨given, hg, hv⟩ := h.paths x.member (by simp [hm]) hx
  have habs := absolute_workingIn given
  have ⟨a', x', c', hd, hlen, hor⟩ := @foldl_resolveField_at Unit (workingIn given)
    HostState.initial () w w' tool.pathKeys x a c FileTool.pathKeys_word hw hw' habs
  have ⟨htext, _⟩ := hs (workingIn given) Machine.idle HostState.initial [] () habs
  rw [FileTool.displayArguments_eq, hd] at htext
  have hlist := Value.object.inj <| htext.unique (isText_objectText hw hw')
  have hshown : tool.shownMember (workingIn given) HostState.initial ()
      (objectText w (a ++ x :: c) w') x.member = x'.member := by
    rw [hm, List.map_append, List.map_append, List.map_append] at hlist
    have ⟨_, htail⟩ := List.append_inj hlist (by simp [hlen])
    exact (List.cons.inj htail).left
  cases hor
  case inl hxx =>
    have hu : usablePath HostState.initial
        (extractJsonStringField (objectText w (a ++ x :: c) w') x.member.1) :=
      usablePath_initial hp
    rw [hxx, FileTool.shownMember, if_pos ⟨hx, hu⟩] at hshown
    have hmeant := hv.symm.trans (congrArg Prod.snd hshown).symm
    have hgiven := Value.string.inj hmeant
    simp only [workingIn] at hgiven
    split at hgiven
    case isTrue => exact absurd hgiven hg
    case isFalse => simpa using congrArg List.length hgiven
  case inr hfound =>
    have ⟨key, hk, hf⟩ := hfound
    cases hf.holds.name (FileTool.pathKeys_word key hk)
    case inl hname => exact hname ▸ hf
    case inr hq =>
      have hplain := (FileTool.pathKeys_word x.name hx).plain
      exact absurd rfl (hplain quote hq).left

theorem FileArguments.legible_of_shows (h : FileArguments tool raw argumentsJson members)
    (hs : tool.ShowsWhatRuns argumentsJson members) : tool.Legible argumentsJson := by
  have ⟨w, written, w', hw, hw', _, he, hm⟩ := h.exists_written
  refine ⟨w, written, w', hw, hw', he, fun key hk => ?_⟩
  cases hp : looksLikePlaceholderPath (extractJsonStringField argumentsJson key)
  case true  => exact .inr rfl
  case false =>
    have hfound {a c : List Written} {x : Written} (hsplit : written = a ++ x :: c)
        (hx : x.name = key) : FoundBehind key a x := by
      subst hx
      exact h.found_of_shows hs hw hw' (hsplit ▸ he) hk hp
    have ⟨member, hmem, hname⟩ := h.given key hk
    have ⟨x, hx, hxm⟩ := List.mem_map.mp (hm ▸ hmem)
    have hxname : x.name = key := (congrArg Prod.fst hxm).trans hname
    have ⟨a, c, hsplit⟩ := List.append_of_mem hx
    have hxf := hfound hsplit hxname
    refine .inl ⟨a, x, c, hsplit, hxf, hxname, fun b hb hbname => ?_⟩
    -- Of two members of that name the search would have to stop in both first.
    cases List.mem_append.mp hb
    case inl hb =>
      have ⟨a₁, a₂, ha⟩ := List.append_of_mem hb
      have hbf := @hfound a₁ (a₂ ++ x :: c) b (by simp [hsplit, ha]) hbname
      exact hxf.inert b hb hbf.holds
    case inr hb =>
      have ⟨c₁, c₂, hc⟩ := List.append_of_mem hb
      have hbf := @hfound (a ++ x :: c₁) c₂ b (by simp [hsplit, hc]) hbname
      exact hbf.inert x (by simp) hxf.holds

-- The prompt tells what will run just when the host finds the paths where they are.
theorem FileArguments.shows_what_runs_iff (h : FileArguments tool raw argumentsJson members) :
    tool.ShowsWhatRuns argumentsJson members ↔ tool.Legible argumentsJson :=
  ⟨h.legible_of_shows, h.shows_of_legible⟩

end Prompt

section Deleting

variable {back : Bytes}

-- The arguments of a deletion, with a blank or none before the colon.
def deleteArguments (back : Bytes) : Bytes :=
  lbrace :: (jsonString "path" ++ back ++ colon :: jsonString "a.txt") ++ [rbrace]

def writtenPath : Written where
  front := []
  key   := "path"
  back  := []
  lead  := []
  value := jsonString "a.txt"
  trail := []
  name  := "path"
  meant := .string "a.txt"
  front_gap := gap_nil
  spelled   := Plain.body (by decide)
  back_gap  := gap_nil
  lead_gap  := gap_nil
  valued    := .string (Plain.body (by decide))
  trail_gap := gap_nil
  flat      := trivial

theorem fileArguments_delete (hb : Gap back) :
    FileArguments .deleteFile strict (deleteArguments back) [("path", .string "a.txt")] where
  text := by
    have hkey : Body strict "path" "path" := Word.body (by decide)
    have hvalue : Body strict "a.txt" "a.txt" := plain_body (by decide) (by decide)
    have hm := IsMember.mk gap_nil hkey hb (IsValue.string hvalue).text
    have hpath : jsonString "path" = quote :: "path" ++ [quote] := by decide
    have hname : jsonString "a.txt" = quote :: "a.txt" ++ [quote] := by decide
    simpa [deleteArguments, hpath, hname] using (IsValue.object (.one hm)).text
  flat  := by simp [Value.Flat]
  given := by simp [FileTool.pathKeys]
  paths := by
    simp only [List.forall_mem_singleton]
    exact fun _ => ⟨_, by decide, rfl⟩

theorem legible_delete : FileTool.Legible .deleteFile (deleteArguments []) := by
  refine ⟨[], [writtenPath], [], gap_nil, gap_nil, by decide, fun key hk => ?_⟩
  obtain rfl : key = "path" := List.mem_singleton.mp hk
  have hfound : FoundBehind "path" [] writtenPath := ⟨nofun, by decide, nofun⟩
  exact .inl ⟨[], writtenPath, [], rfl, hfound, rfl, nofun⟩

theorem shows_what_runs_delete :
    FileTool.ShowsWhatRuns .deleteFile (deleteArguments []) [("path", .string "a.txt")] :=
  (fileArguments_delete gap_nil).shows_what_runs_iff.mpr legible_delete

-- With a blank before the colon the host reads no path, and the prompt is left as it is.
theorem not_shows_what_runs : ¬∀ (tool : FileTool) (argumentsJson : Bytes)
    (members : List (Bytes × Value)), FileArguments tool strict argumentsJson members →
      tool.ShowsWhatRuns argumentsJson members := by
  intro h
  have hblank : Gap [space] := by simp [Gap, isGap]
  have hf := fileArguments_delete hblank
  have habs := absolute_workingIn "/home"
  obtain ⟨htext, _⟩ := h _ _ _ hf (workingIn "/home") Machine.idle HostState.initial [] () habs
  have hd : displayArgumentsWithFullPaths (workingIn "/home") HostState.initial ()
      (FileTool.toolName .deleteFile) (deleteArguments [space]) = deleteArguments [space] := by
    decide +kernel
  rw [hd] at htext
  have hlist := Value.object.inj <| htext.unique hf.lenient
  have hu : usablePath HostState.initial (extractJsonStringField (deleteArguments [space]) "path") := by
    decide +kernel
  have hr : (workingIn "/home").absolutePath
      (FileTool.resolved HostState.initial (deleteArguments [space]) "path") () = none := by
    decide +kernel
  have hnil : str "a.txt" ≠ [] := by decide
  simp [FileTool.shownMember, FileTool.pathKeys, hu, hr, hnil.symm] at hlist

end Deleting
end Droidcli.Cli
