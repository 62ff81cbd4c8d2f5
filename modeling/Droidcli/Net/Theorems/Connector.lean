import Droidcli.Net.Connector
import Droidcli.Net.Theorems.RoundTrip

namespace Droidcli.Net

open Bytes Json

section Opened

variable {fields : List (Bytes × Field)} {key k v rest : Bytes}

-- An object from its brace on, as far as the comma behind the last of some members.
def openedObject (fields : List (Bytes × Field)) : Bytes :=
  lbrace :: (fields.map fun (key, field) => field.member key).flatMap (· ++ [comma])

structure Named (fields : List (Bytes × Field)) : Prop where
  words    : ∀ f ∈ fields, Word f.1
  distinct : (fields.map Prod.fst).Nodup
  inRange  : ∀ f ∈ fields, f.2.InRange

-- A search for a key that is not among the members goes on behind them.
theorem after_openedObject (hk : Word key) (hf : ∀ f ∈ fields, Word f.1 ∧ key ≠ f.1) :
    after (needle key) (openedObject fields ++ rest) = after (needle key) rest := by
  apply after_inert
  rw [needle_eq_pattern]
  apply inert_members
  intro text ht
  have ⟨(k, f), hm, ht⟩ := List.mem_map.mp ht
  have ⟨hw, hne⟩ := hf _ hm
  exact ht ▸ f.passes hk hw hne

-- The members are read whatever stands behind them.
theorem openedObject_readFrom (hn : Named fields) :
    ∀ f ∈ fields, f.2.ReadFrom (openedObject fields ++ rest) f.1 := by
  intro (key, field) hf
  have ⟨before, behind, he⟩ := List.append_of_mem hf
  have hne : ∀ f ∈ before, Word f.1 ∧ key ≠ f.1 := by
    intro f hm
    refine ⟨hn.words f (by simp [he, hm]), fun heq => ?_⟩
    have hd := hn.distinct
    simp only [he, List.map_append, List.map_cons, List.nodup_append] at hd
    exact hd.2.2 f.1 (List.mem_map_of_mem hm) key (by simp) heq.symm
  have hs : openedObject fields ++ rest = openedObject before ++ (needle key ++ (field.valueText ++
      comma :: ((behind.map fun (key, field) => field.member key).flatMap (· ++ [comma]) ++ rest)))
      := by
    simp [openedObject, he, Field.member_eq]
  have hc (s : Bytes) : ∃ c ∈ ([comma, rbrace] : Bytes), (comma :: s).head? = some c :=
    ⟨comma, by simp, rfl⟩
  apply Field.readFrom (hn.inRange _ hf) (hc _)
  rw [hs, after_openedObject (hn.words _ hf) hne, after_append_self (by simp [needle])]

-- A string that is not closed.
def brokenOff (fields : List (Bytes × Field)) (key value : Bytes) : Bytes :=
  openedObject fields ++ (needle key ++ quote :: escapeJsonString value)

theorem readJsonString_unclosed (s : Bytes) : readJsonString (escapeJsonString s) = s := by
  induction s
  case nil => rfl
  case cons c s hi =>
    have he : escapeJsonString (c :: s) = escapeJsonChar c ++ escapeJsonString s := rfl
    rw [he, escapeJsonChar]
    split_ifs with hb hq hl hr ht
    case neg => exact (readJsonString_cons hb hq).trans (congrArg (c :: ·) hi)
    case pos => exact readJsonString_escaped.trans (congrArg₂ List.cons hb.symm hi)
    case pos => exact readJsonString_escaped.trans (congrArg₂ List.cons hq.symm hi)
    case pos => exact readJsonString_escaped.trans (congrArg₂ List.cons hl.symm hi)
    case pos => exact readJsonString_escaped.trans (congrArg₂ List.cons hr.symm hi)
    case pos => exact readJsonString_escaped.trans (congrArg₂ List.cons ht.symm hi)

theorem brokenOff_last (hk : Word key) (hf : ∀ f ∈ fields, Word f.1 ∧ key ≠ f.1) :
    extractJsonStringField (brokenOff fields key v) key = v := by
  have ha : afterField (brokenOff fields key v) key 0 = some (quote :: escapeJsonString v) := by
    rw [afterField, List.drop_zero, brokenOff, after_openedObject hk hf,
      after_append_self (by simp [needle])]
    rfl
  simp [extractJsonStringField, extractJsonStringFieldFrom, ha, readJsonString_unclosed]

theorem afterField_brokenOff (hk : Word key) (hw : Word k) (hne : key ≠ k)
    (hf : ∀ f ∈ fields, Word f.1 ∧ key ≠ f.1) :
    afterField (brokenOff fields k v) key 0 = none := by
  have hp : Inert (pattern key []) ((needle k ++ quote :: escapeJsonString v) ++ [quote]) [] := by
    have := (@passes_stringField _ _ []) hk hw.plain hne v [] (by simp [Closing])
    simpa [jsonStringField, jsonString] using this
  have hn : ¬needle key <:+: needle k ++ quote :: escapeJsonString v := by
    rw [needle_eq_pattern key]
    exact not_infix_of_inert hp (by simp [pattern])
  rw [afterField, List.drop_zero, brokenOff, after_openedObject hk hf, after_eq_none_iff.mpr hn]
  rfl

end Opened

section Parse

variable {c : Connector} {v rest : Bytes}

-- The members of a connector that are read back one by one.
def connectorFields (connector : Connector) : List (Bytes × Field) := [
  ("id", .string connector.id),
  ("kind", .string connector.kind),
  ("base_url", .string connector.baseUrl),
  ("launch_cmd", .string connector.launchCmd),
  ("work_dir", .string connector.workDir),
  ("enabled", .bool connector.enabled)
]

theorem named_connectorFields (c : Connector) : Named (connectorFields c) where
  words := by
    have hw : ∀ key ∈ ([str "id", str "kind", str "base_url", str "launch_cmd", str "work_dir",
        str "enabled"] : List Bytes), Word key := by decide
    simpa [connectorFields] using hw
  distinct := by
    have hd : ([str "id", str "kind", str "base_url", str "launch_cmd", str "work_dir",
      str "enabled"] : List Bytes).Nodup := by decide
    exact hd
  inRange := by simp [connectorFields, Field.InRange]

def capabilitiesText (connector : Connector) : Bytes :=
  joinWith [comma] (connector.capabilities.map jsonString)

-- Of a connector up to the bracket of its capabilities.
def connectorHead (connector : Connector) : Bytes :=
  openedObject (connectorFields connector) ++ (needle "capabilities" ++ [lbracket])

theorem buildConnectorJson_eq (c : Connector) :
    buildConnectorJson c = connectorHead c ++ (capabilitiesText c ++ [rbracket, rbrace]) := by
  simp [buildConnectorJson, connectorHead, openedObject, connectorFields, capabilitiesText,
    jsonObject, jsonArray, joinWith_cons, Field.member]

def ValidKind (kind : Bytes) : Prop :=
  kind = str "http_peer" ∨ kind = str "launched_process"

instance (kind : Bytes) : Decidable (ValidKind kind) :=
  inferInstanceAs (Decidable (_ ∨ _))

theorem ValidKind.ne_nil {kind : Bytes} (h : ValidKind kind) : kind ≠ [] := by
  rcases h with rfl | rfl <;> decide

theorem parse_of_fields {json : Bytes} (hid : c.id ≠ []) (hk : ValidKind c.kind)
    (h₁ : extractJsonStringField json "id" = c.id)
    (h₂ : extractJsonStringField json "kind" = c.kind) :
    parseConnectorFromJson json = .ok {
      id := c.id
      kind := c.kind
      baseUrl := extractJsonStringField json "base_url"
      launchCmd := extractJsonStringField json "launch_cmd"
      workDir := extractJsonStringField json "work_dir"
      capabilities :=
        if extractJsonStringField json "capabilities" ≠ [] then
          [extractJsonStringField json "capabilities"]
        else []
      enabled := (extractJsonBoolField json "enabled").getD true } := by
  have hkind : ¬(c.kind ≠ str "http_peer" ∧ c.kind ≠ str "launched_process") :=
    fun hn => hk.elim hn.left hn.right
  rw [parseConnectorFromJson, h₁, h₂, if_neg (by simp [hid, hk.ne_nil]), if_neg hkind]

-- The capabilities are a list, which the reader of strings takes for nothing.
theorem parse_connectorHead (hid : c.id ≠ []) (hk : ValidKind c.kind) (rest : Bytes) :
    parseConnectorFromJson (connectorHead c ++ rest) = .ok { c with capabilities := [] } := by
  have hr := @openedObject_readFrom _ (needle "capabilities" ++ [lbracket] ++ rest)
    (named_connectorFields c)
  have hassoc : connectorHead c ++ rest =
      openedObject (connectorFields c) ++ (needle "capabilities" ++ [lbracket] ++ rest) := by
    simp [connectorHead]
  have hcap : extractJsonStringField (connectorHead c ++ rest) "capabilities" = [] := by
    have hf : ∀ f ∈ connectorFields c, Word f.1 ∧ str "capabilities" ≠ f.1 := by
      have hne : ∀ key ∈ ([str "id", str "kind", str "base_url", str "launch_cmd", str "work_dir",
          str "enabled"] : List Bytes), Word key ∧ str "capabilities" ≠ key := by decide
      simpa [connectorFields] using hne
    have ha : afterField (connectorHead c ++ rest) "capabilities" 0 = some (lbracket :: rest) := by
      rw [afterField, List.drop_zero, hassoc, after_openedObject (by decide) hf, List.append_assoc,
        after_append_self (by simp [needle])]
      rfl
    rw [extractJsonStringField, extractJsonStringFieldFrom, ha]
    rfl
  rw [← hassoc] at hr
  simp only [connectorFields, List.forall_mem_cons, Field.ReadFrom] at hr
  obtain ⟨h₁, h₂, h₃, h₄, h₅, h₆, _⟩ := hr
  rw [parse_of_fields hid hk h₁ h₂, h₃, h₄, h₅, h₆, hcap]
  simp

-- Where the text of a connector is cut off within one of its last three strings, and what is
-- parsed then: the strings behind it are empty, and the connector is enabled.
inductive Cut (c : Connector) (v : Bytes) : List (Bytes × Field) → Bytes → Connector → Prop
  | baseUrl : Cut c v [("id", .string c.id), ("kind", .string c.kind)] "base_url"
    { c with baseUrl := v, launchCmd := [], workDir := [], capabilities := [], enabled := true }
  | launchCmd : Cut c v
    [("id", .string c.id), ("kind", .string c.kind), ("base_url", .string c.baseUrl)] "launch_cmd"
    { c with launchCmd := v, workDir := [], capabilities := [], enabled := true }
  | workDir : Cut c v
    [("id", .string c.id), ("kind", .string c.kind), ("base_url", .string c.baseUrl),
      ("launch_cmd", .string c.launchCmd)] "work_dir"
    { c with workDir := v, capabilities := [], enabled := true }

theorem extract_brokenOff {fields : List (Bytes × Field)} {key k : Bytes} (hk : Word key)
    (hw : Word k) (hne : key ≠ k) (hf : ∀ f ∈ fields, Word f.1 ∧ key ≠ f.1) :
    extractJsonStringField (brokenOff fields k v) key = [] ∧
      extractJsonBoolField (brokenOff fields k v) key = none := by
  have ha := afterField_brokenOff (v := v) hk hw hne hf
  constructor
  case left  => rw [extractJsonStringField, extractJsonStringFieldFrom, ha]
  case right => rw [extractJsonBoolField, ha]

-- All that is read of an object that breaks off in a string.
structure ReadBrokenOff (fields : List (Bytes × Field)) (k v : Bytes) (keys : List Bytes) :
    Prop where
  members : ∀ f ∈ fields, f.2.ReadFrom (brokenOff fields k v) f.1
  last    : extractJsonStringField (brokenOff fields k v) k = v
  others  : ∀ key, Word key ∧ key ∉ keys →
    extractJsonStringField (brokenOff fields k v) key = [] ∧
      extractJsonBoolField (brokenOff fields k v) key = none

theorem readBrokenOff {fields : List (Bytes × Field)} {k : Bytes} (keys : List Bytes)
    (he : k :: fields.map Prod.fst = keys) (hw : ∀ key ∈ keys, Word key) (hd : keys.Nodup)
    (hi : ∀ f ∈ fields, f.2.InRange) : ReadBrokenOff fields k v keys := by
  subst he
  have ⟨hk, hd⟩ := List.nodup_cons.mp hd
  have hmem {f : Bytes × Field} (hf : f ∈ fields) : f.1 ∈ fields.map Prod.fst :=
    List.mem_map_of_mem hf
  have hword {f : Bytes × Field} (hf : f ∈ fields) : Word f.1 :=
    hw _ (List.mem_cons_of_mem _ (hmem hf))
  exact {
    members := openedObject_readFrom ⟨fun f hf => hword hf, hd, hi⟩
    last := brokenOff_last (hw k (by simp)) fun f hf => ⟨hword hf, fun he => hk (he ▸ hmem hf)⟩
    others := fun key ⟨hkey, hn⟩ => by
      have ⟨hne, hn⟩ := not_or.mp fun h => hn (List.mem_cons.mpr h)
      exact extract_brokenOff hkey (hw k (by simp)) hne
        fun f hf => ⟨hword hf, fun he => hn (he ▸ hmem hf)⟩
  }

theorem Cut.parse {fields : List (Bytes × Field)} {key : Bytes} {c' : Connector}
    (h : Cut c v fields key c') (hid : c.id ≠ []) (hk : ValidKind c.kind) :
    parseConnectorFromJson (brokenOff fields key v) = .ok c' := by
  cases h
  case baseUrl =>
    have hr := @readBrokenOff v [("id", .string c.id), ("kind", .string c.kind)] "base_url"
      ["base_url", "id", "kind"] rfl (by decide) (by decide) (by simp [Field.InRange])
    have hm := hr.members
    simp only [List.forall_mem_cons, Field.ReadFrom] at hm
    have ho := hr.others
    rw [parse_of_fields hid hk hm.1 hm.2.1, hr.last, (ho "launch_cmd" (by decide)).left,
      (ho "work_dir" (by decide)).left, (ho "capabilities" (by decide)).left,
      (ho "enabled" (by decide)).right]
    rfl
  case launchCmd =>
    have hr := @readBrokenOff v
      [("id", .string c.id), ("kind", .string c.kind), ("base_url", .string c.baseUrl)] "launch_cmd"
      ["launch_cmd", "id", "kind", "base_url"] rfl (by decide) (by decide) (by simp [Field.InRange])
    have hm := hr.members
    simp only [List.forall_mem_cons, Field.ReadFrom] at hm
    have ho := hr.others
    rw [parse_of_fields hid hk hm.1 hm.2.1, hr.last, hm.2.2.1,
      (ho "work_dir" (by decide)).left, (ho "capabilities" (by decide)).left,
      (ho "enabled" (by decide)).right]
    rfl
  case workDir =>
    have hr := @readBrokenOff v
      [("id", .string c.id), ("kind", .string c.kind), ("base_url", .string c.baseUrl),
        ("launch_cmd", .string c.launchCmd)] "work_dir"
      ["work_dir", "id", "kind", "base_url", "launch_cmd"] rfl (by decide) (by decide)
      (by simp [Field.InRange])
    have hm := hr.members
    simp only [List.forall_mem_cons, Field.ReadFrom] at hm
    have ho := hr.others
    rw [parse_of_fields hid hk hm.1 hm.2.1, hr.last, hm.2.2.1, hm.2.2.2.1,
      (ho "capabilities" (by decide)).left, (ho "enabled" (by decide)).right]
    rfl

theorem parse_brokenOff_id : ∃ error,
    parseConnectorFromJson (brokenOff [] "id" v) = .error error := by
  have hkind := @extract_brokenOff v [] "kind" "id" (by decide) (by decide) (by decide) (by simp)
  exact ⟨_, by rw [parseConnectorFromJson, hkind.left, if_pos (.inr rfl)]⟩

end Parse
end Droidcli.Net
