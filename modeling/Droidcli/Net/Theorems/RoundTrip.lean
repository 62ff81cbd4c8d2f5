import Droidcli.App.Tasks
import Droidcli.Net.Theorems.Decoding

namespace Droidcli.Net

open Bytes Json

-- The members that the encoders write.
inductive Field
  | string (value : Bytes)
  | bool (value : Bool)
  | int (value : Int)

namespace Field

def member (key : Bytes) : Field → Bytes
  | string value => jsonStringField key value
  | bool value   => jsonBoolField key value
  | int value    => jsonIntField key value

def valueText : Field → Bytes
  | string value => jsonString value
  | bool value   => if value then str "true" else str "false"
  | int value    => decimalInt value

def ReadFrom (json key : Bytes) : Field → Prop
  | string value => extractJsonStringField json key = value
  | bool value   => extractJsonBoolField json key = some value
  | int value    => extractJsonIntField json key = .value value

-- Integers are `int64_t`s.
def InRange : Field → Prop
  | int value => int64Min ≤ value ∧ value ≤ int64Max
  | _         => True

end Field

def flatObject (fields : List (Bytes × Field)) : Bytes :=
  jsonObject <| fields.map fun (key, field) => field.member key

def IntField.value? : IntField → Option Int
  | .value n => some n
  | _        => none

section Values

variable {json key rest : Bytes} {field : Field}

theorem Field.member_eq (key : Bytes) (field : Field) :
    field.member key = needle key ++ field.valueText := by
  cases field <;> rfl

theorem Field.passes {k : Bytes} (hk : Word k) (hp : Word key) (hne : k ≠ key) (field : Field) :
    Passes k [] (field.member key) := by
  cases field
  case string value => exact passes_stringField hk hp.plain hne value
  case bool value   => exact passes_boolField hk hp.plain value fun he => absurd he hne
  case int value    => exact passes_intField hk hp.plain hne value

theorem string_readFrom {s : Bytes} (h : afterField json key 0 = some (jsonString s ++ rest)) :
    extractJsonStringField json key = s := by
  have hs : jsonString s ++ rest = quote :: (escapeJsonString s ++ quote :: rest) := by
    simp [jsonString]
  simp [extractJsonStringField, extractJsonStringFieldFrom, h, hs, readJsonString_escapeJsonString]

theorem extractJsonStringField_first {s : Bytes} {behind : List Bytes} :
    extractJsonStringField (jsonObject (jsonStringField key s :: behind)) key = s := by
  have ha := (@after_jsonObject key (jsonString s) [] behind) (by simp)
  simp only [List.nil_append] at ha
  have hd : (jsonString s ++ (behind.flatMap ([comma] ++ ·) ++ [rbrace])).dropWhile isBlank =
      jsonString s ++ (behind.flatMap ([comma] ++ ·) ++ [rbrace]) := by
    have hq : isBlank quote = false := by decide
    simp [jsonString, hq]
  exact string_readFrom (congrArg (Option.map _) ha |>.trans (congrArg some hd))

theorem bool_readFrom {b : Bool}
    (h : afterField json key 0 = some ((if b then str "true" else str "false") ++ rest)) :
    extractJsonBoolField json key = some b := by
  have hn : ¬str "true" <+: str "false" ++ rest := by
    intro ⟨t, ht⟩
    have : (0x74 : UInt8) = 0x66 := (List.cons.inj ht).left
    exact absurd this (by decide)
  cases b <;> simp [extractJsonBoolField, h]
  exact hn

theorem takeWhile_decimal (n : Nat) (hr : Follows rest) :
    (decimal n ++ rest).takeWhile isDigit = decimal n := by
  obtain ⟨c, hc, hr⟩ := hr
  obtain ⟨rest', hr⟩ := List.head?_eq_some_iff.mp hr
  have hd : isDigit c = false := by
    simp only [List.mem_cons, List.not_mem_nil, or_false] at hc
    rcases hc with rfl | rfl <;> rfl
  rw [List.takeWhile_append_of_pos fun _ => isDigit_of_mem_decimal, hr]
  simp [hd]

theorem head_decimal_ne_minus (n : Nat) : (decimal n ++ rest).head? ≠ some minus := by
  have ⟨c, ds, hd⟩ := List.exists_cons_of_ne_nil (decimal_ne_nil (n := n))
  have hc : isDigit c := isDigit_of_mem_decimal (n := n) (hd ▸ List.mem_cons_self ..)
  intro h
  have : c = minus := by simpa [hd] using h
  exact absurd (this ▸ hc) (by decide)

theorem int_readFrom {n : Int} (hn : int64Min ≤ n ∧ n ≤ int64Max) (hr : Follows rest)
    (h : afterField json key 0 = some (decimalInt n ++ rest)) :
    extractJsonIntField json key = .value n := by
  rw [extractJsonIntField, h]
  cases n
  case ofNat n =>
    have hm : (decimal n ++ rest).head? ≠ some minus := head_decimal_ne_minus n
    have hv : (digitsValue (decimal n) : Int) = Int.ofNat n := by
      rw [digitsValue_decimal, Int.ofNat_eq_natCast]
    simp only [decimalInt, hm, takeWhile_decimal n hr, decimal_ne_nil, hv, stoll, hn, if_false,
      and_self, if_true]
  case negSucc n =>
    have hv : -(digitsValue (decimal (n + 1)) : Int) = Int.negSucc n := by
      rw [digitsValue_decimal, Int.negSucc_eq]
      rfl
    simp [decimalInt, takeWhile_decimal (n + 1) hr, decimal_ne_nil, hv, stoll, hn]

-- No value begins with a blank.
theorem dropWhile_valueText (field : Field) (rest : Bytes) :
    (field.valueText ++ rest).dropWhile isBlank = field.valueText ++ rest := by
  have hd (n : Nat) : (decimal n ++ rest).dropWhile isBlank = decimal n ++ rest := by
    have ⟨c, ds, hc⟩ := List.exists_cons_of_ne_nil (decimal_ne_nil (n := n))
    have hd : isDigit c := isDigit_of_mem_decimal (n := n) (hc ▸ List.mem_cons_self ..)
    have hb : isBlank c = false := by
      simp only [isBlank, Bool.or_eq_false_iff, decide_eq_false_iff_not]
      constructor <;> intro he <;> exact absurd (he ▸ hd) (by decide)
    simp [hc, hb]
  cases field
  case string value => simp [Field.valueText, jsonString, isBlank]; decide
  case bool value   => cases value <;> rfl
  case int value    =>
    cases value
    case ofNat n   => exact hd n
    case negSucc n => rfl

theorem Field.readFrom (hi : field.InRange) (hr : Follows rest)
    (h : after (needle key) json = some (field.valueText ++ rest)) : field.ReadFrom json key := by
  have hf : afterField json key 0 = some (field.valueText ++ rest) := by
    rw [afterField, List.drop_zero, h, Option.map_some, dropWhile_valueText]
  cases field
  case string => exact string_readFrom hf
  case bool   => exact bool_readFrom hf
  case int    => exact int_readFrom hi hr hf

end Values

section Objects

-- A member is read out of an object if the search for it passes those before it.
theorem member_readFrom {key : Bytes} {field : Field} {before behind : List Bytes}
    (hp : ∀ text ∈ before, Passes key [] text) (hi : field.InRange) :
    field.ReadFrom (jsonObject (before ++ field.member key :: behind)) key := by
  apply Field.readFrom hi (follows_members behind)
  rw [field.member_eq, after_jsonObject hp]

-- What the encoders write under distinct keys, the readers read: no search for a key ends before
-- the member of that key, whatever the values are.
theorem flatObject_readFrom {fields : List (Bytes × Field)} (hk : ∀ f ∈ fields, Word f.1)
    (hd : (fields.map Prod.fst).Nodup) (hi : ∀ f ∈ fields, f.2.InRange) :
    ∀ f ∈ fields, f.2.ReadFrom (flatObject fields) f.1 := by
  intro (key, field) hf
  have ⟨before, behind, he⟩ := List.append_of_mem hf
  have hp : ∀ text ∈ before.map fun (k, f) => f.member k, Passes key [] text := by
    intro text ht
    have ⟨(k, f), hm, ht⟩ := List.mem_map.mp ht
    have hne : key ≠ k := by
      intro heq
      simp only [he, List.map_append, List.map_cons, List.nodup_append] at hd
      exact hd.2.2 k (List.mem_map_of_mem hm) k (by simp [heq]) rfl
    exact ht ▸ f.passes (hk _ hf) (hk (k, f) (by simp [he, hm])) hne
  apply Field.readFrom (hi _ hf) (follows_members _)
  rw [flatObject, he, List.map_append, List.map_cons]
  exact field.member_eq key ▸ after_jsonObject hp

end Objects

end Droidcli.Net

namespace Droidcli.App

open Bytes Json Net

def taskFields (task : Task) : List (Bytes × Field) := [
  ("id", .string task.id),
  ("connector_id", .string task.connectorId),
  ("command", .string task.command),
  ("payload_json", .string task.payloadJson),
  ("status", .string task.status.text),
  ("created_at_ms", .int task.createdAtMs),
  ("updated_at_ms", .int task.updatedAtMs),
  ("scheduled_for_ms", .int task.scheduledForMs),
  ("recurrence_ms", .int task.recurrenceMs),
  ("run_count", .int task.runCount),
  ("error_message", .string task.errorMessage),
  ("result_json", .string task.resultJson)
]

def taskKeys : List Bytes := [
  "id", "connector_id", "command", "payload_json", "status", "created_at_ms", "updated_at_ms",
  "scheduled_for_ms", "recurrence_ms", "run_count", "error_message", "result_json"
]

theorem map_fst_taskFields (task : Task) : (taskFields task).map Prod.fst = taskKeys :=
  rfl

theorem buildTaskJson_eq (task : Task) : buildTaskJson task = flatObject (taskFields task) :=
  rfl

def TaskStatus.ofText (text : Bytes) : Option TaskStatus :=
  [unset, pending, running, done, failed, cancelled].find? (·.text = text)

-- A task, read field by field.
def readTask (json : Bytes) : Option Task := do
  return {
    id := extractJsonStringField json "id"
    connectorId := extractJsonStringField json "connector_id"
    command := extractJsonStringField json "command"
    payloadJson := extractJsonStringField json "payload_json"
    status := ← TaskStatus.ofText (extractJsonStringField json "status")
    createdAtMs := ← (extractJsonIntField json "created_at_ms").value?
    updatedAtMs := ← (extractJsonIntField json "updated_at_ms").value?
    scheduledForMs := ← (extractJsonIntField json "scheduled_for_ms").value?
    recurrenceMs := ← (extractJsonIntField json "recurrence_ms").value?
    runCount := ← (extractJsonIntField json "run_count").value?
    errorMessage := extractJsonStringField json "error_message"
    resultJson := extractJsonStringField json "result_json"
  }

def Task.InRange (task : Task) : Prop :=
  ∀ f ∈ taskFields task, f.2.InRange

theorem ofText_text (status : TaskStatus) : TaskStatus.ofText status.text = some status := by
  cases status <;> decide

theorem readTask_buildTaskJson {task : Task} (h : task.InRange) :
    readTask (buildTaskJson task) = some task := by
  have hk : ∀ f ∈ taskFields task, Word f.1 := by
    have hw : ∀ key ∈ taskKeys, Word key := by decide
    exact fun f hf => hw f.1 (map_fst_taskFields task ▸ List.mem_map_of_mem hf)
  have hd : ((taskFields task).map Prod.fst).Nodup := by
    rw [map_fst_taskFields]
    decide
  have hr := flatObject_readFrom hk hd h
  rw [← buildTaskJson_eq] at hr
  simp only [taskFields, List.forall_mem_cons, Field.ReadFrom] at hr
  obtain ⟨hid, hconnector, hcommand, hpayload, hstatus, hcreated, hupdated, hscheduled, hrecurrence,
    hruns, herror, hresult, _⟩ := hr
  simp only [readTask, hid, hconnector, hcommand, hpayload, hstatus, hcreated, hupdated, hscheduled,
    hrecurrence, hruns, herror, hresult, ofText_text, IntField.value?]
  rfl

theorem encoded_readBack :
    (∀ fields : List (Bytes × Field), (∀ f ∈ fields, Word f.1) → (fields.map Prod.fst).Nodup →
      (∀ f ∈ fields, f.2.InRange) → ∀ f ∈ fields, f.2.ReadFrom (flatObject fields) f.1) ∧
    ∀ task : Task, task.InRange → readTask (buildTaskJson task) = some task :=
  ⟨fun _ => flatObject_readFrom, fun _ => readTask_buildTaskJson⟩

-- Values that look like members, and a task whose payload and result are themselves objects.
def trickyFields : List (Bytes × Field) := [
  ("a_1", .string (jsonStringField "b" "x")),
  ("b", .string (str "\\" ++ [lbrace, lf, nul])),
  ("ok", .bool false),
  ("n", .int int64Min)
]

def nestedTask : Task where
  id := "task-1"
  connectorId := []
  command := [quote, backslash]
  payloadJson := jsonObject [jsonStringField "id" "other"]
  status := .done
  createdAtMs := 1
  updatedAtMs := 2
  scheduledForMs := 0
  recurrenceMs := -1
  runCount := 1
  errorMessage := []
  resultJson := jsonObject [jsonBoolField "ok" true, jsonStringField "status" "failed"]

theorem encoded_readBack_tricky :
    (∀ f ∈ trickyFields, f.2.ReadFrom (flatObject trickyFields) f.1) ∧
      readTask (buildTaskJson nestedTask) = some nestedTask := by
  constructor
  case left =>
    apply encoded_readBack.left trickyFields (by decide) (by decide)
    simp [trickyFields, Field.InRange, int64Min, int64Max]
  case right =>
    apply encoded_readBack.right nestedTask
    simp [Task.InRange, taskFields, nestedTask, Field.InRange, int64Min, int64Max]

end Droidcli.App
