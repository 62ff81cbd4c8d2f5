import Droidcli.Ai.Theorems.Members
import Droidcli.Cli.StringArrays

namespace Droidcli.Cli.Tui

open Bytes Json Net

variable {key rest text : Bytes} {values : List Bytes} {fields : List (Bytes × Field)}
variable {rounds : Nat}

-- What the reader makes of an escaped character: not the character, but the letter that names it.
def unnamed (c : UInt8) : UInt8 :=
  if      c = lf  then 0x6e
  else if c = cr  then 0x72
  else if c = tab then 0x74
  else                 c

def unnamedText (s : Bytes) : Bytes :=
  s.map unnamed

section Reading

theorem readQuoted_escape (c : UInt8) (text : Bytes) :
    readQuoted (backslash :: c :: text) = (c :: (readQuoted text).1, (readQuoted text).2) := by
  have hq : backslash ≠ quote := by decide
  simp [readQuoted, hq]

theorem readQuoted_plain {c : UInt8} (hq : c ≠ quote) (hb : c ≠ backslash) (ht : text ≠ []) :
    readQuoted (c :: text) = (c :: (readQuoted text).1, (readQuoted text).2) := by
  cases text
  case nil            => contradiction
  case cons e text => simp [readQuoted, hq, hb]

theorem readQuoted_char (c : UInt8) (ht : text ≠ []) :
    readQuoted (escapeJsonChar c ++ text) =
      (unnamed c :: (readQuoted text).1, (readQuoted text).2) := by
  by_cases hs : c = backslash ∨ c = quote ∨ c = lf ∨ c = cr ∨ c = tab
  case neg =>
    simp only [not_or] at hs
    have ⟨hb, hq, hlf, hcr, htab⟩ := hs
    simpa [escapeJsonChar, unnamed, hb, hq, hlf, hcr, htab] using readQuoted_plain hq hb ht
  case pos =>
    obtain rfl | rfl | rfl | rfl | rfl := hs
    all_goals exact readQuoted_escape _ text

theorem readQuoted_escaped (s rest : Bytes) :
    readQuoted (escapeJsonString s ++ quote :: rest) = (unnamedText s, rest) := by
  induction s
  case nil => cases rest <;> rfl
  case cons c s hi =>
    have he : escapeJsonString (c :: s) = escapeJsonChar c ++ escapeJsonString s := rfl
    rw [he, List.append_assoc, readQuoted_char c (by simp), hi]
    rfl

-- A string of the array, with or without a comma before it.
theorem readStrings_string (s : Bytes) {gap : Bytes} (hg : ∀ c ∈ gap, Ai.isJsonGap c) :
    readStrings (rounds + 1) (gap ++ (jsonString s ++ rest)) =
      unnamedText s :: readStrings rounds rest := by
  have hd : (gap ++ (jsonString s ++ rest)).dropWhile Ai.isJsonGap =
      quote :: (escapeJsonString s ++ quote :: rest) := by
    rw [List.dropWhile_append_of_pos hg]
    have hq : ¬Ai.isJsonGap quote := by decide
    simp [jsonString, List.dropWhile_cons_of_neg hq]
  rw [readStrings, hd]
  simp only [if_true, readQuoted_escaped]

theorem readStrings_end : readStrings rounds (rbracket :: rest) = [] := by
  cases rounds <;> rfl

theorem readStrings_behind (h : values.length ≤ rounds) :
    readStrings rounds ((values.map jsonString).flatMap ([comma] ++ ·) ++ rbracket :: rest) =
      values.map unnamedText := by
  induction values generalizing rounds
  case nil => exact readStrings_end
  case cons s values hi =>
    cases rounds
    case zero => simp at h
    case succ rounds =>
      rw [List.map_cons, List.flatMap_cons, List.append_assoc, List.append_assoc,
        readStrings_string s (by decide), hi (by simpa using h), List.map_cons]

theorem readStrings_array (h : values.length ≤ rounds) :
    readStrings rounds (joinWith [comma] (values.map jsonString) ++ rbracket :: rest) =
      values.map unnamedText := by
  cases values
  case nil => exact readStrings_end
  case cons s values =>
    cases rounds
    case zero => simp at h
    case succ rounds =>
      rw [List.map_cons, joinWith_cons, List.append_assoc, ← List.nil_append (jsonString s ++ _),
        readStrings_string s (by simp), readStrings_behind (by simpa using h), List.map_cons]

theorem length_le_behind :
    values.length ≤ ((values.map jsonString).flatMap ([comma] ++ ·)).length := by
  induction values
  case nil => simp
  case cons s values hi =>
    simp only [List.map_cons, List.flatMap_cons, List.length_append, List.length_cons,
      List.length_nil]
    omega

theorem length_le_joined : values.length ≤ (joinWith [comma] (values.map jsonString)).length := by
  cases values
  case nil => simp
  case cons s values =>
    have := @length_le_behind values
    rw [List.map_cons, joinWith_cons, List.length_append, List.length_cons]
    simp only [jsonString, List.length_append, List.length_cons]
    omega

-- The strings of an array behind other members of its object.
theorem parseJsonStringArray_opened (hk : Word key)
    (hf : ∀ f ∈ fields, Word f.1 ∧ key ≠ f.1) :
    parseJsonStringArray (openedObject fields ++
      (needle key ++ (jsonArray (values.map jsonString) ++ rest))) key =
      values.map unnamedText := by
  have ha (json : Bytes) : Ai.afterArrayKey json key =
      (after (needle key) json).bind (after [lbracket]) := by
    rw [Ai.afterArrayKey, after, Option.bind_map]
    rfl
  have hs : jsonArray (values.map jsonString) ++ rest =
      [lbracket] ++ (joinWith [comma] (values.map jsonString) ++ rbracket :: rest) := by
    simp [jsonArray]
  rw [parseJsonStringArray, ha, after_openedObject hk hf, after_append_self (by simp [needle]),
    Option.bind_some, hs, after_append_self (by simp), Option.elim_some]
  apply readStrings_array
  have := @length_le_joined values
  simp only [List.length_append]
  omega

theorem unnamed_eq_iff {c : UInt8} : unnamed c = c ↔ c ≠ lf ∧ c ≠ cr ∧ c ≠ tab := by
  by_cases hs : c = lf ∨ c = cr ∨ c = tab
  case pos =>
    obtain rfl | rfl | rfl := hs
    all_goals decide
  case neg =>
    simp only [not_or] at hs
    have ⟨hlf, hcr, htab⟩ := hs
    simp [unnamed, hlf, hcr, htab]

end Reading

section Arrays

-- A string that the reader takes back as it was.
def IsLevel (s : Bytes) : Prop :=
  lf ∉ s ∧ cr ∉ s ∧ tab ∉ s

theorem unnamedText_eq_iff {s : Bytes} : unnamedText s = s ↔ IsLevel s := by
  simp only [unnamedText, IsLevel]
  induction s
  case nil => simp
  case cons c s hi =>
    rw [List.map_cons, List.cons.injEq, hi, unnamed_eq_iff]
    simp only [List.mem_cons, not_or, ne_eq, eq_comm (a := c)]
    tauto

theorem map_unnamedText_iff : values.map unnamedText = values ↔ ∀ s ∈ values, IsLevel s := by
  induction values
  case nil => simp
  case cons s values hi =>
    rw [List.map_cons, List.cons.injEq, hi, unnamedText_eq_iff, List.forall_mem_cons]

theorem parse_sessions (current : Bytes) (values : List Bytes) :
    parseJsonStringArray (buildAgentSessionsJson current values) "session_ids" =
      values.map unnamedText := by
  have hs : buildAgentSessionsJson current values =
      openedObject [("current_session_id", .string current)] ++
        (needle "session_ids" ++ (jsonArray (values.map jsonString) ++ [rbrace])) := by
    simp [buildAgentSessionsJson, jsonObject, joinWith, openedObject, Field.member]
  rw [hs]
  apply parseJsonStringArray_opened (by decide)
  exact others_of_keys ["current_session_id"] rfl (by decide)

theorem parse_models (status : OllamaStatus) :
    parseJsonStringArray (buildOllamaStatusJson status) "models" =
      status.models.map unnamedText := by
  let fields : List (Bytes × Field) := [
    ("ai_enabled", .bool status.aiEnabled),
    ("ollama_url", .string status.ollamaUrl),
    ("model", .string status.model),
    ("online", .bool status.online),
    ("status_code", .int status.statusCode)
  ]
  have hs : buildOllamaStatusJson status = openedObject fields ++
      (needle "models" ++ (jsonArray (status.models.map jsonString) ++ [rbrace])) := by
    simp [buildOllamaStatusJson, jsonObject, joinWith, openedObject, Field.member, fields]
  rw [hs]
  apply parseJsonStringArray_opened (by decide)
  exact others_of_keys ["ai_enabled", "ollama_url", "model", "online", "status_code"] rfl
    (by decide)

-- The interface gets the list that the host has encoded exactly when the strings have none of the
-- characters that are escaped by a letter.
theorem parseJsonStringArray_iff (current : Bytes) (status : OllamaStatus) (values : List Bytes) :
    (parseJsonStringArray (buildAgentSessionsJson current values) "session_ids" = values ↔
      ∀ s ∈ values, IsLevel s) ∧
    (parseJsonStringArray (buildOllamaStatusJson { status with models := values }) "models" =
      values ↔ ∀ s ∈ values, IsLevel s) := by
  constructor
  case left  => rw [parse_sessions, map_unnamedText_iff]
  case right => rw [parse_models, map_unnamedText_iff]

-- A session that is named in two lines is listed under another name.
theorem not_parseJsonStringArray :
    ¬∀ (current : Bytes) (values : List Bytes),
      parseJsonStringArray (buildAgentSessionsJson current values) "session_ids" = values := by
  intro h
  have := h "default" ["red\ngreen"]
  revert this
  decide +kernel

end Arrays

end Droidcli.Cli.Tui
