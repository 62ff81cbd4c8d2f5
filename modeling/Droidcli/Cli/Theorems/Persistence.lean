import Droidcli.Ai.Theorems.Objects
import Droidcli.Cli.Droidcli
import Droidcli.Net.Theorems.Connector

namespace Droidcli.Cli

open Bytes Json Net Ai

section Registry

variable {registry connectors : List Connector} {c : Connector}

theorem length_putConnector : (putConnector c registry).length ≤ registry.length + 1 := by
  induction registry
  case nil => simp [putConnector]
  case cons existing others hi =>
    rw [putConnector]
    split_ifs
    case pos => simp
    case neg => simpa using hi

theorem putConnector_eq_append (h : registry.length + 1 ≤ (putConnector c registry).length) :
    putConnector c registry = registry ++ [c] := by
  induction registry
  case nil => rfl
  case cons existing others hi =>
    rw [putConnector] at h ⊢
    split_ifs at h ⊢
    case pos => exact absurd h (by simp)
    case neg => simp [hi (by simpa using h)]

theorem putConnector_new (h : c.id ∉ registry.map Connector.id) :
    putConnector c registry = registry ++ [c] := by
  induction registry
  case nil => rfl
  case cons existing others hi =>
    simp only [List.map_cons, List.mem_cons, not_or] at h
    rw [putConnector, if_neg (Ne.symm h.left), hi h.right, List.cons_append]

theorem length_registerConnector : (registerConnector registry c).length ≤ registry.length + 1 := by
  rw [registerConnector]
  split_ifs
  case pos => exact Nat.le_succ _
  case neg => exact length_putConnector

theorem length_registered :
    (connectors.foldl registerConnector registry).length ≤ registry.length + connectors.length := by
  induction connectors generalizing registry
  case nil => exact Nat.le_refl _
  case cons c connectors hi =>
    have := @length_registerConnector registry c
    have := @hi (registerConnector registry c)
    simp only [List.foldl_cons, List.length_cons]
    omega

-- A registry that has grown with each connector has taken each of them as it is.
theorem registered_eq_append (h : registry.length + connectors.length ≤
    (connectors.foldl registerConnector registry).length) :
    connectors.foldl registerConnector registry = registry ++ connectors := by
  induction connectors generalizing registry
  case nil => simp
  case cons c connectors hi =>
    simp only [List.foldl_cons, List.length_cons] at h ⊢
    have hs := (@length_registered (registerConnector registry c) connectors)
    have hc : registerConnector registry c = registry ++ [c] := by
      have hl : registry.length + 1 ≤ (registerConnector registry c).length := by omega
      rw [registerConnector] at hl ⊢
      split_ifs at hl ⊢
      case pos => omega
      case neg => exact putConnector_eq_append hl
    have hi := @hi (registerConnector registry c) (by rw [hc] at h ⊢; simp at h ⊢; omega)
    rw [hi, hc]
    simp

-- The connectors of a host: they have distinct identifiers and valid kinds.
structure Registered (connectors : List Connector) : Prop where
  kinds    : ∀ c ∈ connectors, ValidKind c.kind
  ids      : ∀ c ∈ connectors, c.id ≠ []
  distinct : (connectors.map Connector.id).Nodup

theorem Registered.tail (h : Registered (c :: connectors)) : Registered connectors where
  kinds c hc := h.kinds c (List.mem_cons_of_mem _ hc)
  ids c hc   := h.ids c (List.mem_cons_of_mem _ hc)
  distinct   := (List.nodup_cons.mp h.distinct).right

theorem registered_new (h : Registered connectors)
    (hn : ∀ c ∈ connectors, c.id ∉ registry.map Connector.id) :
    connectors.foldl registerConnector registry = registry ++ connectors := by
  induction connectors generalizing registry
  case nil => simp
  case cons c connectors hi =>
    have hc : registerConnector registry c = registry ++ [c] := by
      have hk := (h.kinds c (by simp)).ne_nil
      rw [registerConnector, if_neg (by simp [hk, h.ids c (by simp)])]
      exact putConnector_new (hn c (by simp))
    have hn' : ∀ c' ∈ connectors, c'.id ∉ (registry ++ [c]).map Connector.id := by
      intro c' hc'
      have hd := (List.nodup_cons.mp h.distinct).left
      have hne : c'.id ≠ c.id := fun he => hd (he ▸ List.mem_map_of_mem hc')
      simpa [hne] using hn c' (List.mem_cons_of_mem _ hc')
    rw [List.foldl_cons, hc, hi h.tail hn', List.append_assoc]
    rfl

end Registry

section Loading

variable {connectors : List Connector} {text object rest : Bytes}

-- The connectors that are parsed from the objects of an array.
def parsedConnectors (text : Bytes) : List Connector :=
  (extractJsonObjectArray text).filterMap fun object =>
    (parseConnectorFromJson object).toOption

theorem foldl_loadConnector {objects : List Bytes} {registry : List Connector} :
    objects.foldl loadConnector registry =
      (objects.filterMap fun object => (parseConnectorFromJson object).toOption).foldl
        registerConnector registry := by
  induction objects generalizing registry
  case nil => rfl
  case cons object objects hi =>
    rw [List.foldl_cons, hi, List.filterMap_cons, loadConnector]
    cases parseConnectorFromJson object <;> rfl

-- Each connector that is parsed brings a key of its own.
theorem one_le_occurrences {c : Connector} (h : parseConnectorFromJson object = .ok c) :
    1 ≤ occurrences (needle "id") object := by
  apply occurrences_pos (by simp [needle])
  by_contra hn
  have ha : afterField object "id" 0 = none := by
    rw [afterField, List.drop_zero, after_eq_none_iff.mpr hn]
    rfl
  have hid : extractJsonStringField object "id" = [] := by
    rw [extractJsonStringField, extractJsonStringFieldFrom, ha]
  rw [parseConnectorFromJson, hid, if_pos (.inl rfl)] at h
  contradiction

theorem length_parsed_le {rounds : Nat} : ((extractObjects rounds text).filterMap fun object =>
    (parseConnectorFromJson object).toOption).length ≤ occurrences (needle "id") text := by
  induction rounds generalizing text
  case zero => simp [extractObjects]
  case succ rounds hi =>
    rw [extractObjects_cons]
    have hs := List.takeWhile_append_dropWhile (p := isJsonGap) (l := text)
    cases hd : text.dropWhile isJsonGap
    case nil      => simp
    case cons c t =>
      dsimp only
      split_ifs with hc
      case neg => simp
      case pos =>
        have hw : (lbrace :: (walkObject 1 t).1) ++ (walkObject 1 t).2 = c :: t := by
          rw [List.cons_append, walkObject_append, hc]
        have hsum := (@occurrences_append_le (needle "id")) (lbrace :: (walkObject 1 t).1)
          (walkObject 1 t).2
        have hgap := (@occurrences_append_le (needle "id")) (text.takeWhile isJsonGap) (c :: t)
        rw [hw] at hsum
        rw [← hd, hs, hd] at hgap
        have hi := @hi (walkObject 1 t).2
        rw [List.filterMap_cons]
        split
        case h_1 => omega
        case h_2 hp =>
          obtain ⟨c', hr⟩ : ∃ c', parseConnectorFromJson (lbrace :: (walkObject 1 t).1) = .ok c' := by
            cases hr : parseConnectorFromJson (lbrace :: (walkObject 1 t).1)
            case error => simp [hr, Except.toOption] at hp
            case ok c' => exact ⟨c', rfl⟩
          have := one_le_occurrences hr
          simp only [List.length_cons]
          omega

theorem length_parsedConnectors_le :
    (parsedConnectors text).length ≤ occurrences (needle "id") text :=
  length_parsed_le

end Loading

section Entries

variable {c : Connector} {connectors : List Connector} {rest : Bytes}

-- The saved state from behind the bracket of its array.
def entries (connectors : List Connector) : Bytes :=
  joinWith [comma] (connectors.map buildConnectorJson) ++ [rbracket, rbrace]

-- What follows an entry, when these are still to come.
def behindEntry : List Connector → Bytes
  | []              => [rbracket, rbrace]
  | c :: connectors => comma :: entries (c :: connectors)

theorem entries_cons : entries (c :: connectors) = buildConnectorJson c ++ behindEntry connectors := by
  cases connectors
  case nil       => simp [entries, behindEntry, joinWith_cons]
  case cons c' _ => simp [entries, behindEntry, joinWith_cons]

theorem parsed_behindEntry :
    parsedConnectors (behindEntry connectors) = parsedConnectors (entries connectors) := by
  cases connectors
  case nil    => rfl
  case cons _ => rw [behindEntry, parsedConnectors, extractJsonObjectArray_comma]; rfl

theorem extractConnectorObjects_saveState :
    extractConnectorObjects (saveState connectors) = extractJsonObjectArray (entries connectors) := by
  have hs : saveState connectors = jsonBoolField "ok" true ++ ([comma] ++ (needle "connectors" ++
      ([lbracket] ++ entries connectors))) := by
    simp [saveState, buildConnectorsJson, entries, jsonArray]
  have hf : Closing ([comma] ++ (needle "connectors" ++ ([lbracket] ++ entries connectors))) := by
    simp [Closing]; decide
  have hp : Inert (needle "connectors") (jsonBoolField "ok" true)
      ([comma] ++ (needle "connectors" ++ ([lbracket] ++ entries connectors))) := by
    rw [needle_eq_pattern]
    exact passes_boolField (by decide) (by decide) true
      (fun he => absurd he (by decide)) _ (needle_eq_pattern _ ▸ hf)
  have hc : Inert (needle "connectors") [comma]
      (needle "connectors" ++ ([lbracket] ++ entries connectors)) :=
    inert_of_not_mem (by decide)
  have ha : after (needle "connectors") (saveState connectors) =
      some ([lbracket] ++ entries connectors) := by
    rw [hs, after_inert hp, after_inert hc, after_append_self (by simp [needle])]
  have hk : afterArrayKey (saveState connectors) "connectors" = some (entries connectors) := by
    have hb : afterArrayKey (saveState connectors) "connectors" =
        (after (needle "connectors") (saveState connectors)).bind (after [lbracket]) := by
      rw [afterArrayKey, after, Option.bind_map]
      rfl
    rw [hb, ha, Option.bind_some, after_append_self (by simp)]
  rw [extractConnectorObjects, hk]

-- The members behind the identifier.
def laterMembers (c : Connector) : List Bytes := [
  jsonStringField "kind" c.kind,
  jsonStringField "base_url" c.baseUrl,
  jsonStringField "launch_cmd" c.launchCmd,
  jsonStringField "work_dir" c.workDir,
  jsonBoolField "enabled" c.enabled,
  needle "capabilities" ++ jsonArray (c.capabilities.map jsonString)
]

-- What follows the key of the identifier.
def behindId (c : Connector) (connectors : List Connector) : Bytes :=
  jsonString c.id ++ ((laterMembers c).flatMap ([comma] ++ ·) ++ [rbrace]) ++ behindEntry connectors

theorem entries_cons_id :
    entries (c :: connectors) = [lbrace] ++ (needle "id" ++ behindId c connectors) := by
  simp [entries_cons, buildConnectorJson, jsonObject, joinWith_cons, behindId, laterMembers,
    jsonStringField]

theorem occurrences_needle {key : Bytes} (hk : Word key) :
    occurrences (needle key) (needle key ++ rest) = occurrences (needle key) rest + 1 := by
  have hq : ¬needle key <+: quote :: (colon :: rest) := by
    rw [needle_eq_pattern]
    exact fun hp => hk.not_prefix (c := colon) (by decide) (List.cons_prefix_cons.mp hp).right
  have hi : Inert (needle key) (key ++ [quote, colon]) rest := by
    have hkey : Inert (needle key) key ([quote, colon] ++ rest) :=
      inert_of_not_mem fun hm => (hk.plain quote hm).left rfl
    exact inert_append hkey (inert_cons hq (inert_of_not_mem (by decide)))
  have hn : needle key ++ rest = quote :: ((key ++ [quote, colon]) ++ rest) := by simp [needle]
  rw [hn, occurrences, occurrences_inert hi, if_pos ⟨rest, by simp [needle]⟩, Nat.add_comm]

theorem occurrences_behindId :
    occurrences (needle "id") (behindId c connectors) =
      occurrences (needle "id") (behindEntry connectors) := by
  have hk : Word (str "id") := by decide
  have hp : ∀ text ∈ laterMembers c, Passes "id" [] text := by
    simp only [laterMembers, List.forall_mem_cons, List.not_mem_nil, false_imp_iff, implies_true,
      and_true]
    exact ⟨passes_stringField hk (by decide) (by decide) _,
      passes_stringField hk (by decide) (by decide) _,
      passes_stringField hk (by decide) (by decide) _,
      passes_stringField hk (by decide) (by decide) _,
      passes_boolField hk (by decide) _ fun he => absurd he (by decide),
      passes_of_value hk (by decide) (fun he => absurd he (by decide))
        fun _ _ => inert_strings hk _⟩
  have hr : Closing ((laterMembers c).flatMap ([comma] ++ ·) ++ [rbrace] ++ behindEntry connectors) := by
    simp [Closing, laterMembers]
    decide
  have hs : Inert (pattern "id" []) (jsonString c.id) _ :=
    inert_value hk (body_lenient c.id).quoted hr
  rw [behindId, needle_eq_pattern]
  exact occurrences_inert (inert_append hs (inert_behind hp))

-- Every connector has one key for its identifier.
theorem occurrences_behindEntry :
    occurrences (needle "id") (behindEntry connectors) = connectors.length := by
  induction connectors
  case nil => decide
  case cons c connectors hi =>
    have hc : Inert (needle "id") ([comma] ++ [lbrace]) (needle "id" ++ behindId c connectors) :=
      inert_of_not_mem (by decide)
    have he : behindEntry (c :: connectors) =
        ([comma] ++ [lbrace]) ++ (needle "id" ++ behindId c connectors) := by
      simp [behindEntry, entries_cons_id]
    rw [he, occurrences_inert hc, occurrences_needle (by decide), occurrences_behindId, hi,
      List.length_cons]

theorem occurrences_entries :
    occurrences (needle "id") (entries connectors) = connectors.length := by
  rw [← (@occurrences_behindEntry connectors)]
  cases connectors
  case nil            => rfl
  case cons c' others => exact (occurrences_inert (s := [comma]) (inert_of_not_mem (by decide))).symm

end Entries

section Walk

variable {c : Connector} {connectors : List Connector} {depth : Nat} {rest v₁ v₂ : Bytes}
  {fields : List (Bytes × Field)} {key : Bytes}

-- The strings of a connector that may hold braces.
def freeText (c : Connector) : Bytes :=
  c.id ++ c.baseUrl ++ c.launchCmd ++ c.workDir

def fieldText : Field → Bytes
  | .string value => value
  | _             => []

theorem noBraces_word (h : Word key) : NoBraces key :=
  ⟨fun hm => absurd (h.right lbrace hm) (by decide), fun hm => absurd (h.right rbrace hm) (by decide)⟩

theorem noBraces_needle (h : Word key) : NoBraces (needle key) := by
  have := noBraces_append (noBraces_word h) (t := [quote, colon]) (by decide)
  exact noBraces_append (s := [quote]) (by decide) this

theorem openBraces_string (h : Word key) (value : Bytes) :
    openBraces depth (needle key ++ quote :: escapeJsonString value) = openBraces depth value := by
  have hn : NoBraces (needle key ++ [quote]) := noBraces_append (noBraces_needle h) (by decide)
  have hs : needle key ++ quote :: escapeJsonString value =
      (needle key ++ [quote]) ++ escapeJsonString value := by simp
  rw [hs, openBraces_noBraces_append hn, openBraces_escape]

theorem openBraces_member (h : Word key) {field : Field} (hn : ∀ n, field ≠ .int n) :
    openBraces depth (field.member key ++ [comma]) = openBraces depth (fieldText field) := by
  cases field
  case string value =>
    have hs : Field.member key (.string value) ++ [comma] =
        (needle key ++ quote :: escapeJsonString value) ++ [quote, comma] := by
      simp [Field.member, jsonStringField, jsonString]
    rw [hs, openBraces_append_noBraces (by decide), openBraces_string h]
    rfl
  case bool value =>
    have hv : NoBraces (if value then str "true" else str "false") := by cases value <;> decide
    have hm : NoBraces (Field.member key (.bool value) ++ [comma]) :=
      noBraces_append (noBraces_append (noBraces_needle h) hv) (by decide)
    exact openBraces_noBraces hm
  case int n => exact absurd rfl (hn n)

theorem openBraces_openedObject (hk : ∀ f ∈ fields, Word f.1 ∧ ∀ n, f.2 ≠ .int n) :
    openBraces 0 (openedObject fields) = openBraces 1 (fields.flatMap fun f => fieldText f.2) := by
  have ho : openBraces 0 (openedObject fields) =
      openBraces 1 (fields.flatMap fun f => f.2.member f.1 ++ [comma]) := by
    rw [openedObject, List.flatMap_map]
    rfl
  rw [ho]
  exact openBraces_flatMap_congr fun f hf _ => openBraces_member (hk f hf).left (hk f hf).right

theorem noBraces_kind (h : ValidKind c.kind) : NoBraces c.kind := by
  rcases h with h | h <;> rw [h] <;> decide

theorem connectorFields_word :
    ∀ f ∈ connectorFields c, Word f.1 ∧ ∀ n, f.2 ≠ .int n := by
  intro f hf
  refine ⟨(named_connectorFields c).words f hf, fun n he => ?_⟩
  simp only [connectorFields, List.mem_cons, List.not_mem_nil, or_false] at hf
  rcases hf with rfl | rfl | rfl | rfl | rfl | rfl <;> simp at he

theorem openBraces_connectorHead (h : ValidKind c.kind) :
    openBraces 0 (connectorHead c) = openBraces 1 (freeText c) := by
  have hf : (connectorFields c).flatMap (fun f => fieldText f.2) =
      c.id ++ (c.kind ++ (c.baseUrl ++ c.launchCmd ++ c.workDir)) := by
    simp [connectorFields, fieldText]
  have hg : freeText c = c.id ++ (c.baseUrl ++ c.launchCmd ++ c.workDir) := by
    simp [freeText]
  rw [connectorHead, openBraces_append_noBraces (by decide),
    openBraces_openedObject connectorFields_word, hf, hg, openBraces_append, openBraces_append]
  simp only [openBraces_noBraces_append (noBraces_kind h)]

-- Within a string the object ends with the brace that closes the last one.
theorem walkObject_brokenOff (hk : ∀ f ∈ fields, Word f.1 ∧ ∀ n, f.2 ≠ .int n) (hw : Word key)
    (hb : openBraces 1 ((fields.flatMap fun f => fieldText f.2) ++ v₁) = some 1) :
    walkObject 0 (openedObject fields ++ (needle key ++ jsonString (v₁ ++ rbrace :: v₂) ++ rest)) =
      (brokenOff fields key (v₁ ++ [rbrace]), escapeJsonString v₂ ++ quote :: rest) := by
  have he (v : Bytes) : escapeJsonString (v₁ ++ rbrace :: v) =
      escapeJsonString v₁ ++ rbrace :: escapeJsonString v := by
    have hr : escapeJsonString (rbrace :: v) = rbrace :: escapeJsonString v := rfl
    rw [escapeJsonString, List.flatMap_append]
    exact congrArg (escapeJsonString v₁ ++ ·) hr
  have hs : openedObject fields ++ (needle key ++ jsonString (v₁ ++ rbrace :: v₂) ++ rest) =
      (openedObject fields ++ (needle key ++ quote :: escapeJsonString v₁)) ++
        rbrace :: (escapeJsonString v₂ ++ quote :: rest) := by
    simp [jsonString, he]
  have ho : openBraces 0 (openedObject fields ++ (needle key ++ quote :: escapeJsonString v₁)) =
      some 1 := by
    rw [openBraces_append, openBraces_openedObject hk]
    simp only [openBraces_string hw]
    rw [← openBraces_append, hb]
  rw [hs, walkObject_closing ho, brokenOff, he []]
  simp [escapeJsonString]

end Walk

-- The three strings behind the kind, each with the members and the free text around it.
inductive Place (c : Connector) :
    Bytes → List (Bytes × Field) → Bytes → Bytes → Bytes → Prop
  | baseUrl : Place c c.baseUrl [("id", .string c.id), ("kind", .string c.kind)] "base_url"
    c.id (c.launchCmd ++ c.workDir)
  | launchCmd : Place c c.launchCmd
    [("id", .string c.id), ("kind", .string c.kind), ("base_url", .string c.baseUrl)] "launch_cmd"
    (c.id ++ c.baseUrl) c.workDir
  | workDir : Place c c.workDir
    [("id", .string c.id), ("kind", .string c.kind), ("base_url", .string c.baseUrl),
      ("launch_cmd", .string c.launchCmd)] "work_dir"
    (c.id ++ c.baseUrl ++ c.launchCmd) []

namespace Place

variable {c : Connector} {value key before behind : Bytes} {fields : List (Bytes × Field)}

theorem freeText (h : Place c value fields key before behind) :
    freeText c = before ++ value ++ behind := by
  cases h <;> simp [Cli.freeText]

theorem located (h : Place c value fields key before behind) :
    ∃ s, before = c.id ++ s ∧ c.baseUrl ++ c.launchCmd ++ c.workDir = s ++ value ++ behind := by
  cases h
  case baseUrl   => exact ⟨[], by simp, by simp⟩
  case launchCmd => exact ⟨c.baseUrl, by simp, by simp⟩
  case workDir   => exact ⟨c.baseUrl ++ c.launchCmd, by simp, by simp⟩

theorem text (h : Place c value fields key before behind) : ∃ rest,
    buildConnectorJson c = openedObject fields ++ (needle key ++ jsonString value ++ rest) := by
  have hb := buildConnectorJson_eq c
  simp only [connectorHead, connectorFields, openedObject, List.map_cons, List.flatMap_cons,
    Field.member, jsonStringField] at hb
  cases h <;> exact ⟨_, by rw [hb]; simp [openedObject, Field.member, jsonStringField]; rfl⟩

theorem words (h : Place c value fields key before behind) :
    Word key ∧ ∀ f ∈ fields, Word f.1 ∧ ∀ n, f.2 ≠ .int n := by
  have hc := connectorFields_word (c := c)
  simp only [connectorFields, List.forall_mem_cons] at hc
  cases h
  case baseUrl   => exact ⟨by decide, by simp [hc]⟩
  case launchCmd => exact ⟨by decide, by simp [hc]⟩
  case workDir   => exact ⟨by decide, by simp [hc]⟩

theorem openBraces (h : Place c value fields key before behind) (hk : ValidKind c.kind) (v : Bytes) :
    openBraces 1 ((fields.flatMap fun f => fieldText f.2) ++ v) = openBraces 1 (before ++ v) := by
  have hs (s : Bytes) : Ai.openBraces 1 (c.id ++ (c.kind ++ s)) = Ai.openBraces 1 (c.id ++ s) := by
    rw [openBraces_append, openBraces_append]
    simp only [openBraces_noBraces_append (noBraces_kind hk)]
  cases h
  case baseUrl   => simpa [fieldText] using hs v
  case launchCmd => simpa [fieldText] using hs (c.baseUrl ++ v)
  case workDir   => simpa [fieldText] using hs (c.baseUrl ++ (c.launchCmd ++ v))

theorem cut (h : Place c value fields key before behind) (v : Bytes) : ∃ c', Cut c v fields key c' ∧
    (c' = c ↔ v = value ∧ behind = [] ∧ c.capabilities = [] ∧ c.enabled) := by
  cases h
  case baseUrl   => exact ⟨_, .baseUrl, by cases c; simp [and_assoc, eq_comm]⟩
  case launchCmd => exact ⟨_, .launchCmd, by cases c; simp [eq_comm]⟩
  case workDir   => exact ⟨_, .workDir, by cases c; simp [eq_comm]⟩

end Place

section RoundTrip

variable {c : Connector} {connectors : List Connector} {depth : Nat}

-- Where the walk ends that starts with a connector, when it ends within its free text.
theorem closing_cases (h : openBraces 1 (freeText c) = none) :
    (∃ v₁ v₂, c.id = v₁ ++ rbrace :: v₂ ∧ openBraces 1 v₁ = some 1) ∨
      ∃ value fields key before behind v₁ v₂, Place c value fields key before behind ∧
        value = v₁ ++ rbrace :: v₂ ∧ openBraces 1 (before ++ v₁) = some 1 := by
  cases hid : openBraces 1 c.id
  case none => exact .inl (exists_closing hid)
  case some d₁ =>
    right
    cases hbase : openBraces 1 (c.id ++ c.baseUrl)
    case none =>
      have hb : openBraces d₁ c.baseUrl = none := by simpa [openBraces_append, hid] using hbase
      have ⟨v₁, v₂, he, hv⟩ := exists_closing hb
      exact ⟨_, _, _, _, _, v₁, v₂, .baseUrl, he, by rw [openBraces_append, hid]; exact hv⟩
    case some d₂ =>
      cases hlaunch : openBraces 1 (c.id ++ c.baseUrl ++ c.launchCmd)
      case none =>
        have hb : openBraces d₂ c.launchCmd = none := by
          rw [openBraces_append, hbase] at hlaunch
          exact hlaunch
        have ⟨v₁, v₂, he, hv⟩ := exists_closing hb
        exact ⟨_, _, _, _, _, v₁, v₂, .launchCmd, he, by rw [openBraces_append, hbase]; exact hv⟩
      case some d₃ =>
        have hb : openBraces d₃ c.workDir = none := by
          rw [freeText, openBraces_append, hlaunch] at h
          exact h
        have ⟨v₁, v₂, he, hv⟩ := exists_closing hb
        exact ⟨_, _, _, _, _, v₁, v₂, .workDir, he, by rw [openBraces_append, hlaunch]; exact hv⟩

-- The last brace of a connector is closed by the last byte of its strings.
def ClosesLast (c : Connector) : Prop :=
  c.enabled ∧ ∃ s, c.baseUrl ++ c.launchCmd ++ c.workDir = s ++ [rbrace] ∧
    openBraces 1 (c.id ++ s) = some 1

-- The connectors that outlive a restart. None has capabilities, and the braces within the strings
-- of each but the last are balanced. Of the last, some may remain open.
inductive Kept : List Connector → Prop
  | nil : Kept []
  | last {c : Connector} : c.capabilities = [] →
    (openBraces 1 (freeText c)).isSome ∨ ClosesLast c → Kept [c]
  | cons {c c' : Connector} {connectors : List Connector} : c.capabilities = [] →
    openBraces 1 (freeText c) = some 1 → Kept (c' :: connectors) → Kept (c :: c' :: connectors)

theorem parsed_entries_cons {c' : Connector}
    (hp : parseConnectorFromJson (walkObject 0 (entries (c :: connectors))).1 = .ok c') :
    parsedConnectors (entries (c :: connectors)) =
      c' :: parsedConnectors (walkObject 0 (entries (c :: connectors))).2 := by
  have hh : (entries (c :: connectors)).head? = some lbrace := by
    rw [entries_cons_id]
    rfl
  rw [parsedConnectors, extractJsonObjectArray_object hh, List.filterMap_cons, hp]
  rfl

theorem parsed_entries_error {error : Bytes}
    (hp : parseConnectorFromJson (walkObject 0 (entries (c :: connectors))).1 = .error error) :
    parsedConnectors (entries (c :: connectors)) =
      parsedConnectors (walkObject 0 (entries (c :: connectors))).2 := by
  have hh : (entries (c :: connectors)).head? = some lbrace := by
    rw [entries_cons_id]
    rfl
  rw [parsedConnectors, extractJsonObjectArray_object hh, List.filterMap_cons, hp]
  rfl

-- Behind an object that starts with a connector, only the others have their keys.
theorem length_parsed_rest {object rest : Bytes}
    (hw : walkObject 0 (entries (c :: connectors)) =
      ([lbrace] ++ (needle "id" ++ object), rest)) :
    (parsedConnectors rest).length ≤ connectors.length := by
  have ha := walkObject_append 0 (entries (c :: connectors))
  rw [hw, entries_cons_id, List.append_assoc, List.append_assoc] at ha
  have hb : object ++ rest = behindId c connectors :=
    List.append_cancel_left (List.append_cancel_left ha)
  calc (parsedConnectors rest).length
    _ ≤ occurrences (needle "id") rest := length_parsedConnectors_le
    _ ≤ occurrences (needle "id") object + occurrences (needle "id") rest := Nat.le_add_left ..
    _ ≤ occurrences (needle "id") (behindId c connectors) := hb ▸ occurrences_append_le object rest
    _ = connectors.length := by rw [occurrences_behindId, occurrences_behindEntry]

theorem walkObject_open (hk : ValidKind c.kind) (hb : openBraces 1 (freeText c) = some depth) :
    walkObject 0 (entries (c :: connectors)) =
      (connectorHead c ++
          (walkObject depth (capabilitiesText c ++ [rbracket, rbrace] ++ behindEntry connectors)).1,
        (walkObject depth (capabilitiesText c ++ [rbracket, rbrace] ++ behindEntry connectors)).2) := by
  have ho : openBraces 0 (connectorHead c) = some depth := (openBraces_connectorHead hk).trans hb
  rw [entries_cons, buildConnectorJson_eq, List.append_assoc, walkObject_through ho]

-- With more braces open than its own, the object of a connector goes on to the end or beyond the
-- key of the next.
theorem parsed_swallowed (hd : 2 ≤ depth) (he : parsedConnectors
    (walkObject depth ([rbracket, rbrace] ++ behindEntry connectors)).2 = connectors) :
    connectors = [] := by
  cases connectors
  case nil => rfl
  case cons c connectors =>
    have hb : openBraces depth ([rbracket, rbrace] ++ ([comma] ++ ([lbrace] ++ needle "id"))) =
        some depth := by
      have ⟨d, hd⟩ := Nat.exists_eq_add_of_le' hd
      have hn : NoBraces (needle "id") := noBraces_needle (by decide)
      rw [← List.append_assoc, ← List.append_assoc, openBraces_append_noBraces hn, hd]
      simp only [List.cons_append, List.nil_append]
      rw [openBraces_plain (by decide) (by decide), openBraces_rbrace,
        openBraces_plain (by decide) (by decide), openBraces_lbrace]
      rfl
    have hs : [rbracket, rbrace] ++ behindEntry (c :: connectors) =
        ([rbracket, rbrace] ++ ([comma] ++ ([lbrace] ++ needle "id"))) ++ behindId c connectors := by
      simp [behindEntry, entries_cons_id]
    rw [hs, walkObject_through hb] at he
    have hl := (@length_parsedConnectors_le ((walkObject depth (behindId c connectors)).2))
    have ha := (@occurrences_append_le (needle "id"))
      (walkObject depth (behindId c connectors)).1 (walkObject depth (behindId c connectors)).2
    rw [walkObject_append, occurrences_behindId, occurrences_behindEntry] at ha
    rw [he, List.length_cons] at hl
    omega

theorem parsed_last (hd : 1 ≤ depth) :
    parsedConnectors (walkObject depth ([rbracket, rbrace] ++ behindEntry [])).2 = [] := by
  match depth with
  | 1     => rfl
  | 2     => rfl
  | d + 3 => simp [behindEntry, walkObject]; rfl

-- A connector whose braces stay balanced or open.
theorem parsed_open (hid : c.id ≠ []) (hk : ValidKind c.kind)
    (hb : openBraces 1 (freeText c) = some depth) :
    parsedConnectors (entries (c :: connectors)) = { c with capabilities := [] } ::
      parsedConnectors (walkObject depth
        (capabilitiesText c ++ [rbracket, rbrace] ++ behindEntry connectors)).2 := by
  have hw := (@walkObject_open _ connectors) hk hb
  have hp := parse_connectorHead hid hk
    (walkObject depth (capabilitiesText c ++ [rbracket, rbrace] ++ behindEntry connectors)).1
  rw [parsed_entries_cons (by rw [hw]; exact hp), hw]

theorem kept_open_iff (hid : c.id ≠ []) (hk : ValidKind c.kind)
    (hb : openBraces 1 (freeText c) = some depth)
    (hi : parsedConnectors (entries connectors) = connectors ↔ Kept connectors) :
    parsedConnectors (entries (c :: connectors)) = c :: connectors ↔ Kept (c :: connectors) := by
  have hpos := openBraces_pos hb (Nat.le_refl _)
  have hct (h : c.capabilities = []) : capabilitiesText c = [] := by
    rw [capabilitiesText, h]
    rfl
  rw [parsed_open hid hk hb]
  constructor
  case mp =>
    intro he
    obtain ⟨hc, hr⟩ := List.cons.inj he
    have hcap : c.capabilities = [] := (congrArg Connector.capabilities hc).symm
    rw [hct hcap, List.nil_append] at hr
    cases connectors
    case nil => exact .last hcap (.inl (by simp [hb]))
    case cons c' others =>
      have hone : depth = 1 := by
        by_contra hne
        exact absurd (parsed_swallowed (by omega) hr) (by simp)
      subst hone
      have hr : parsedConnectors (behindEntry (c' :: others)) = c' :: others := hr
      exact .cons hcap hb (hi.mp (parsed_behindEntry ▸ hr))
  case mpr =>
    intro hkept
    have hsame (h : c.capabilities = []) : { c with capabilities := [] } = c := by
      rw [← h]
    cases hkept
    case last hcap _ =>
      rw [hct hcap, hsame hcap, List.nil_append, parsed_last hpos]
    case cons c' others hkept hcap hb' =>
      have hone : depth = 1 := Option.some.inj (hb.symm.trans hb')
      subst hone
      rw [hct hcap, hsame hcap, List.nil_append]
      congr 1
      exact parsed_behindEntry.trans (hi.mpr hkept)

-- A connector whose braces are closed within its strings is the last, if it is kept at all.
theorem kept_closed_iff (hb : openBraces 1 (freeText c) = none) :
    Kept (c :: connectors) ↔ connectors = [] ∧ c.capabilities = [] ∧ ClosesLast c := by
  constructor
  case mp =>
    intro hk
    cases hk
    case last hcap hl   => exact ⟨rfl, hcap, hl.resolve_left (by simp [hb])⟩
    case cons hb'       => simp [hb] at hb'
  case mpr =>
    intro ⟨hn, hcap, hl⟩
    exact hn ▸ .last hcap (.inr hl)

theorem not_kept_id {v₁ v₂ : Bytes} (he : c.id = v₁ ++ rbrace :: v₂)
    (hv : openBraces 1 v₁ = some 1) :
    parsedConnectors (entries (c :: connectors)) ≠ c :: connectors ∧ ¬ClosesLast c := by
  constructor
  case left =>
    have ht : entries (c :: connectors) = openedObject [] ++ (needle "id" ++
        jsonString (v₁ ++ rbrace :: v₂) ++ (((laterMembers c).flatMap ([comma] ++ ·) ++ [rbrace]) ++
          behindEntry connectors)) := by
      simp [entries_cons_id, behindId, openedObject, he]
    have hw := (@walkObject_brokenOff
      (((laterMembers c).flatMap ([comma] ++ ·) ++ [rbrace]) ++ behindEntry connectors) v₁ v₂ [] "id")
      (by simp) (by decide) (by simpa using hv)
    rw [← ht] at hw
    obtain ⟨error, hp⟩ := parse_brokenOff_id (v := v₁ ++ [rbrace])
    have hl := length_parsed_rest hw
    intro hparsed
    rw [parsed_entries_error (by rw [hw]; exact hp), hw] at hparsed
    rw [hparsed, List.length_cons] at hl
    omega
  case right =>
    rintro ⟨_, s, hs, ho⟩
    have hf : v₁ ++ rbrace :: (v₂ ++ (c.baseUrl ++ c.launchCmd ++ c.workDir)) =
        (c.id ++ s) ++ rbrace :: [] := by
      have hg : (c.id ++ s) ++ rbrace :: [] = c.id ++ (s ++ [rbrace]) := by simp
      rw [hg, ← hs, he]
      simp
    obtain ⟨_, hn⟩ := closing_unique hv ho hf
    obtain ⟨_, hn⟩ := List.append_eq_nil_iff.mp hn
    simp [hs] at hn

theorem kept_place_iff {value key before behind v₁ v₂ : Bytes} {fields : List (Bytes × Field)}
    (hid : c.id ≠ []) (hk : ValidKind c.kind) (hp : Place c value fields key before behind)
    (he : value = v₁ ++ rbrace :: v₂) (hv : openBraces 1 (before ++ v₁) = some 1) :
    parsedConnectors (entries (c :: connectors)) = c :: connectors ↔
      connectors = [] ∧ c.capabilities = [] ∧ ClosesLast c := by
  have ⟨rest, ht⟩ := hp.text
  have ⟨hw, hf⟩ := hp.words
  have ⟨s, hbefore, hs⟩ := hp.located
  have ⟨c', hcut, hc'⟩ := hp.cut (v₁ ++ [rbrace])
  have hopen := (hp.openBraces hk v₁).trans hv
  have ht : entries (c :: connectors) = openedObject fields ++ (needle key ++
      jsonString (v₁ ++ rbrace :: v₂) ++ (rest ++ behindEntry connectors)) := by
    rw [entries_cons, ht, he]
    simp
  have hwalk := (@walkObject_brokenOff (rest ++ behindEntry connectors) _ v₂) hf hw hopen
  rw [← ht] at hwalk
  have hcloses : ClosesLast c ↔ c.enabled ∧ v₂ = [] ∧ behind = [] := by
    constructor
    case mp =>
      intro ⟨hen, s', hs', ho⟩
      have hfree : (before ++ v₁) ++ rbrace :: (v₂ ++ behind) = (c.id ++ s') ++ rbrace :: [] := by
        have hf := hp.freeText
        have hg : freeText c = c.id ++ (s' ++ [rbrace]) := by
          rw [← hs']
          simp [freeText]
        rw [hg, he] at hf
        simpa using hf.symm
      have ⟨_, hn⟩ := closing_unique hv ho hfree
      exact ⟨hen, List.append_eq_nil_iff.mp hn⟩
    case mpr =>
      intro ⟨hen, hv₂, hb⟩
      refine ⟨hen, s ++ v₁, by rw [hs, he, hv₂, hb]; simp, ?_⟩
      rw [← List.append_assoc, ← hbefore]
      exact hv
  have hend : v₂ = [] → parsedConnectors
      (escapeJsonString v₂ ++ quote :: (rest ++ behindEntry connectors)) = [] := by
    intro hn
    rw [parsedConnectors, hn]
    exact congrArg (List.filterMap _) (extractJsonObjectArray_end (by decide) (by decide))
  have hvalue : v₁ ++ [rbrace] = value ↔ v₂ = [] := by
    rw [he]
    simp [eq_comm]
  rw [parsed_entries_cons (by rw [hwalk]; exact hcut.parse hid hk), hwalk, hcloses,
    List.cons.injEq, hc', hvalue]
  constructor
  case mp =>
    intro ⟨⟨hv₂, hb, hcap, hen⟩, hr⟩
    exact ⟨hr.symm.trans (hend hv₂), hcap, hen, hv₂, hb⟩
  case mpr =>
    intro ⟨hn, hcap, hen, hv₂, hb⟩
    exact ⟨⟨hv₂, hb, hcap, hen⟩, (hend hv₂).trans hn.symm⟩

theorem parsed_entries_iff (h : Registered connectors) :
    parsedConnectors (entries connectors) = connectors ↔ Kept connectors := by
  induction connectors
  case nil => exact ⟨fun _ => .nil, fun _ => rfl⟩
  case cons c connectors hi =>
    have hk := h.kinds c (by simp)
    have hid := h.ids c (by simp)
    cases hb : openBraces 1 (freeText c)
    case some depth => exact kept_open_iff hid hk hb (hi h.tail)
    case none =>
      rw [kept_closed_iff hb]
      cases closing_cases hb
      case inl hc =>
        have ⟨v₁, v₂, he, hv⟩ := hc
        have ⟨hp, hl⟩ := (@not_kept_id _ connectors) he hv
        exact ⟨fun he => absurd he hp, fun hn => absurd hn.2.2 hl⟩
      case inr hc =>
        have ⟨_, _, _, _, _, _, _, hp, he, hv⟩ := hc
        exact kept_place_iff hid hk hp he hv

-- What is saved is restored exactly when it is kept.
theorem restored_iff (h : Registered connectors) :
    loadStateIfPresent (some (saveState connectors)) [] = connectors ↔ Kept connectors := by
  have hl : loadStateIfPresent (some (saveState connectors)) [] =
      (parsedConnectors (entries connectors)).foldl registerConnector [] := by
    rw [loadStateIfPresent, loadConnectorsFromConfig, extractConnectorObjects_saveState,
      foldl_loadConnector]
    rfl
  rw [hl, ← parsed_entries_iff h]
  constructor
  case mp =>
    intro he
    have hn := (@length_parsedConnectors_le (entries connectors))
    rw [occurrences_entries] at hn
    rw [registered_eq_append (by rw [he]; simpa using hn)] at he
    exact he
  case mpr =>
    intro he
    rw [he, registered_new h (by simp)]
    rfl

end RoundTrip

section Examples

def mediaPlayer : Connector where
  id := "media-player"
  kind := "launched_process"
  baseUrl := []
  launchCmd := str "play --tag " ++ [lbrace, rbrace]
  workDir := "C:/media"
  capabilities := []
  enabled := false

def summarizer (capabilities : List Bytes) : Connector where
  id := "summarizer"
  kind := "http_peer"
  baseUrl := "http://127.0.0.1:8008"
  launchCmd := []
  workDir := []
  capabilities := capabilities
  enabled := true

theorem registered_examples (capabilities : List Bytes) :
    Registered [mediaPlayer, summarizer capabilities] where
  kinds := by
    simp only [List.forall_mem_cons]
    exact ⟨.inr rfl, .inl rfl, by simp⟩
  ids := by
    simp only [List.forall_mem_cons]
    exact ⟨by decide, (by decide : str "summarizer" ≠ []), by simp⟩
  distinct := by
    have : [str "media-player", str "summarizer"].Nodup := by decide
    exact this

theorem restored_iff_balanced :
    loadStateIfPresent (some (saveState [mediaPlayer, summarizer []])) [] =
      [mediaPlayer, summarizer []] :=
  (restored_iff (registered_examples [])).mpr <|
    .cons rfl (by decide) (.last rfl (.inl (by decide)))

theorem not_restored_capability :
    ¬∀ connectors, Registered connectors →
      loadStateIfPresent (some (saveState connectors)) [] = connectors := by
  intro h
  have := h _ (registered_examples ["summarize"])
  exact absurd this (by decide +kernel)

end Examples
end Droidcli.Cli
