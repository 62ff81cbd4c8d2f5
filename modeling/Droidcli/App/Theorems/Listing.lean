import Droidcli.Net.Connector
import Droidcli.Net.Theorems.RoundTrip
import Mathlib.Data.List.Forall2

namespace Droidcli.Net

open Bytes Json

namespace Field

def value : Field → Value
  | string value => .string value
  | bool value   => .bool value
  | int value    => .number (decimalInt value)

def Printable : Field → Prop
  | string value => ∀ c ∈ value, Allowed c
  | _            => True

theorem isMember {key : Bytes} {field : Field} (hk : Word key) (h : field.Printable) :
    Member strict (field.member key) (key, field.value) := by
  cases field
  case string => exact member_stringField hk.body h
  case bool b => exact member_boolField hk.body b
  case int n  => exact member_intField hk.body n

end Field

-- The text is one object, and under the key it holds exactly these values.
def Lists (key : Bytes) (vs : List Value) (text : Bytes) : Prop :=
  ∃ v, IsText strict text v ∧ v.field key = some (.array vs)

section Lists

variable {key : Bytes} {vs : List Value} {texts : List Bytes}

-- Without its opening brace a list begins with the name of its first member.
theorem not_lists_unopened {rest : Bytes} : ¬Lists key vs (jsonBoolField "ok" true ++ rest) := by
  intro ⟨v, h, hf⟩
  have hq : jsonBoolField "ok" true ++ rest = quote :: (str "ok\":true" ++ rest) := rfl
  have ⟨_, _, hv, _⟩ := (hq ▸ h).of_head (by decide)
  have ⟨_, _, _, _, hs⟩ := hv.of_quote
  rw [hs] at hf
  contradiction

theorem lists_opened (hk : Word key) (hne : key ≠ str "ok")
    (h : List.Forall₂ (IsText strict) texts vs) :
    Lists key vs (lbrace :: (jsonBoolField "ok" true ++ comma :: needle key ++ jsonArray texts ++
      [rbrace])) := by
  have ho : Word (str "ok") := by decide
  have ht := isText_jsonObject <| .cons (member_boolField ho.body true) <|
    .cons (.mk hk.body (isText_jsonArray h)) .nil
  have he : (key == str "ok") = false := by simpa using hne
  exact ⟨_, by simpa [jsonObject, joinWith, List.intercalate] using ht, by
    simp [Value.field, List.lookup, he]⟩

end Lists

def connectorValue (connector : Connector) : Value :=
  .object [
    ("id", .string connector.id),
    ("kind", .string connector.kind),
    ("base_url", .string connector.baseUrl),
    ("launch_cmd", .string connector.launchCmd),
    ("work_dir", .string connector.workDir),
    ("enabled", .bool connector.enabled),
    ("capabilities", .array (connector.capabilities.map .string))
  ]

def connectorStrings (connector : Connector) : List Bytes :=
  [connector.id, connector.kind, connector.baseUrl, connector.launchCmd, connector.workDir] ++
    connector.capabilities

theorem isText_connector {connector : Connector}
    (h : ∀ s ∈ connectorStrings connector, ∀ c ∈ s, Allowed c) :
    IsText strict (buildConnectorJson connector) (connectorValue connector) := by
  simp only [connectorStrings, List.forall_mem_append, List.forall_mem_cons] at h
  obtain ⟨⟨hid, hkind, hurl, hcmd, hdir, _⟩, hcaps⟩ := h
  have hcs : IsText strict (jsonArray (connector.capabilities.map jsonString))
      (.array (connector.capabilities.map .string)) := by
    apply isText_jsonArray
    rw [List.forall₂_map_left_iff, List.forall₂_map_right_iff, List.forall₂_same]
    exact fun s hs => isText_jsonString (hcaps s hs)
  have h₁ : Word (str "id") := by decide
  have h₂ : Word (str "kind") := by decide
  have h₃ : Word (str "base_url") := by decide
  have h₄ : Word (str "launch_cmd") := by decide
  have h₅ : Word (str "work_dir") := by decide
  have h₆ : Word (str "enabled") := by decide
  have h₇ : Word (str "capabilities") := by decide
  apply isText_jsonObject
  apply List.Forall₂.cons (member_stringField h₁.body hid)
  apply List.Forall₂.cons (member_stringField h₂.body hkind)
  apply List.Forall₂.cons (member_stringField h₃.body hurl)
  apply List.Forall₂.cons (member_stringField h₄.body hcmd)
  apply List.Forall₂.cons (member_stringField h₅.body hdir)
  apply List.Forall₂.cons (member_boolField h₆.body connector.enabled)
  exact .cons (.mk h₇.body hcs) .nil

theorem lists_connectors {connectors : List Connector}
    (h : ∀ connector ∈ connectors, ∀ s ∈ connectorStrings connector, ∀ c ∈ s, Allowed c) :
    Lists "connectors" (connectors.map connectorValue)
      (lbrace :: buildConnectorsJson connectors) := by
  apply lists_opened (by decide) (by decide)
  rw [List.forall₂_map_left_iff, List.forall₂_map_right_iff, List.forall₂_same]
  exact fun connector hm => isText_connector (h connector hm)

end Droidcli.Net

namespace Droidcli.App

open Bytes Json Net

def taskValue (task : Task) : Value :=
  .object <| (taskFields task).map fun (key, field) => (key, field.value)

theorem isText_task {task : Task} (h : ∀ f ∈ taskFields task, f.2.Printable) :
    IsText strict (buildTaskJson task) (taskValue task) := by
  have hw : ∀ key ∈ taskKeys, Word key := by decide
  rw [buildTaskJson_eq]
  apply isText_jsonObject
  rw [List.forall₂_map_left_iff, List.forall₂_map_right_iff, List.forall₂_same]
  intro f hf
  exact f.2.isMember (hw f.1 (map_fst_taskFields task ▸ List.mem_map_of_mem hf)) (h f hf)

theorem lists_tasks {tasks : List Task}
    (h : ∀ task ∈ tasks, ∀ f ∈ taskFields task, f.2.Printable) :
    Lists "tasks" (tasks.map taskValue) (lbrace :: buildTasksJson tasks) := by
  apply lists_opened (by decide) (by decide)
  rw [List.forall₂_map_left_iff, List.forall₂_map_right_iff, List.forall₂_same]
  exact fun task hm => isText_task (h task hm)

-- All that keeps a list from being an object is its opening brace, which is never there.
theorem listing_malformed (tasks : List Task) (connectors : List Connector) :
    ¬Lists "tasks" (tasks.map taskValue) (buildTasksJson tasks) ∧
      ¬Lists "connectors" (connectors.map connectorValue) (buildConnectorsJson connectors) := by
  constructor
  case left =>
    have he : buildTasksJson tasks = jsonBoolField "ok" true ++ (comma :: needle "tasks" ++
        jsonArray (tasks.map buildTaskJson) ++ [rbrace]) := by
      simp [buildTasksJson]
    exact he ▸ not_lists_unopened
  case right =>
    have he : buildConnectorsJson connectors = jsonBoolField "ok" true ++
        (comma :: needle "connectors" ++ jsonArray (connectors.map buildConnectorJson) ++
          [rbrace]) := by
      simp [buildConnectorsJson]
    exact he ▸ not_lists_unopened

theorem listing_malformed_nil :
    ¬Lists "tasks" ([].map taskValue) (buildTasksJson []) ∧
      ¬Lists "connectors" ([].map connectorValue) (buildConnectorsJson []) :=
  ⟨not_lists_unopened, not_lists_unopened⟩

end Droidcli.App
