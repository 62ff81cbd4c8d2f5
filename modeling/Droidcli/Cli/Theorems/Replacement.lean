import Droidcli.Cli.Theorems.FilePaths

-- A field of an object replaced in place, as the host shows resolved paths and hands them on.
namespace Droidcli.Net

open Bytes Json

variable {fields : List (Bytes × Field)} {json key rest : Bytes}

def Field.number : Field → IntField
  | .int value => stoll value
  | _          => .absent

theorem intField_of_digits {n : ℕ} (hr : Follows rest)
    (h : afterField json key 0 = some (decimalInt (Int.ofNat n) ++ rest)) :
    extractJsonIntField json key = stoll (Int.ofNat n) := by
  have hm : (decimal n ++ rest).head? ≠ some minus := head_decimal_ne_minus n
  rw [extractJsonIntField, h]
  simp only [decimalInt, hm, takeWhile_decimal n hr, decimal_ne_nil, digitsValue_decimal, if_false,
    Int.ofNat_eq_natCast]

theorem intField_of_negative {n : ℕ} (hr : Follows rest)
    (h : afterField json key 0 = some (decimalInt (Int.negSucc n) ++ rest)) :
    extractJsonIntField json key = stoll (Int.negSucc n) := by
  have hv : -(digitsValue (decimal (n + 1)) : Int) = Int.negSucc n := by
    rw [digitsValue_decimal, Int.negSucc_eq]
    rfl
  rw [extractJsonIntField, h]
  simp [decimalInt, takeWhile_decimal (n + 1) hr, decimal_ne_nil, hv]

theorem intField_of_head {c : UInt8} (h : afterField json key 0 = some (c :: rest))
    (hc : isDigit c = false ∧ c ≠ minus) : extractJsonIntField json key = .absent := by
  simp [extractJsonIntField, h, hc]

theorem extractJsonIntField_flatObject (hk : Word key) (hw : ∀ f ∈ fields, Word f.1) :
    extractJsonIntField (flatObject fields) key =
      ((fields.lookup key).map Field.number).getD .absent := by
  cases hl : fields.lookup key
  case none =>
    have hne : ∀ f ∈ fields, key ≠ f.1 := by simpa using List.lookup_eq_none_iff.mp hl
    exact intField_absent (flatObject_absent hk fun f hf => ⟨hw f hf, hne f hf⟩)
  case some field =>
    have ⟨rest, hr, ha⟩ := afterField_flatObject hk hw hl
    cases field
    case string value => exact intField_of_head ha (by decide)
    case bool value   => cases value <;> exact intField_of_head ha (by decide)
    case int value    =>
      rw [Option.map_some, Option.getD_some, Field.number]
      cases value
      case ofNat n   => exact intField_of_digits hr ha
      case negSucc n => exact intField_of_negative hr ha

end Droidcli.Net

namespace Droidcli.Cli

open Bytes Net Json

variable {fields before behind : List (Bytes × Field)} {json json' key s v : Bytes}

-- The readers find the same under the key.
structure SameField (json json' key : Bytes) : Prop where
  string : extractJsonStringField json' key = extractJsonStringField json key
  bool   : extractJsonBoolField json' key = extractJsonBoolField json key
  int    : extractJsonIntField json' key = extractJsonIntField json key

-- The text has the value under the key, and is the same under every other.
structure FieldReplaced (json key v json' : Bytes) : Prop where
  read   : extractJsonStringField json' key = v
  others : ∀ k, Word k → k ≠ key → SameField json json' k

theorem sameField_of_lookup {fields' : List (Bytes × Field)} (hk : Word key)
    (hw : ∀ f ∈ fields, Word f.1) (hw' : ∀ f ∈ fields', Word f.1)
    (h : fields'.lookup key = fields.lookup key) :
    SameField (flatObject fields) (flatObject fields') key where
  string := by
    rw [extractJsonStringField_flatObject hk hw, extractJsonStringField_flatObject hk hw', h]
  bool := by rw [extractJsonBoolField_flatObject hk hw, extractJsonBoolField_flatObject hk hw', h]
  int := by rw [extractJsonIntField_flatObject hk hw, extractJsonIntField_flatObject hk hw', h]

theorem breakOn_flatObject (field : Field) (hk : Word key)
    (hb : ∀ f ∈ before, Word f.1 ∧ key ≠ f.1) :
    ∃ pre rest, breakOn (needle key) (flatObject (before ++ (key, field) :: behind)) =
        some (pre, field.valueText ++ rest) ∧
      ∀ field' : Field, flatObject (before ++ (key, field') :: behind) =
        pre ++ needle key ++ (field'.valueText ++ rest) := by
  have hp : ∀ text ∈ before.map fun f => f.2.member f.1, Passes key [] text := by
    intro text ht
    obtain ⟨f, hm, ht⟩ := List.mem_map.mp ht
    obtain ⟨hw, hne⟩ := hb _ hm
    exact ht ▸ f.2.passes hk hw hne
  have hi := @inert_members key [] (needle key) _ hp
  rw [← needle_eq_pattern] at hi
  have ht (field' : Field) : flatObject (before ++ (key, field') :: behind) =
      (lbrace :: (before.map fun f => f.2.member f.1).flatMap (· ++ [comma])) ++
        (needle key ++ (field'.valueText ++
          ((behind.map fun f => f.2.member f.1).flatMap ([comma] ++ ·) ++ [rbrace]))) := by
    rw [flatObject, List.map_append, List.map_cons, jsonObject_split]
    simp only [Field.member_eq key, List.append_assoc]
  refine ⟨_, _, ?_, fun field' => (ht field').trans (List.append_assoc ..).symm⟩
  have hself : ∀ rest, breakOn (needle key) (needle key ++ rest) = some ([], rest) := by
    intro rest
    simp [needle, breakOn]
  rw [ht field, breakOn_inert (inert_needle hi), hself]
  simp

-- The splice ends where the reader's string does, whatever has been escaped in it.
theorem replaceJsonStringFieldValue_string (hk : Word key)
    (hb : ∀ f ∈ before, Word f.1 ∧ key ≠ f.1) :
    replaceJsonStringFieldValue (flatObject (before ++ (key, .string s) :: behind)) key v =
      flatObject (before ++ (key, .string v) :: behind) := by
  have ⟨pre, rest, hbr, ht⟩ := @breakOn_flatObject before behind key (.string s) hk hb
  have hv : (Field.string s).valueText ++ rest = quote :: (escapeJsonString s ++ quote :: rest) := by
    simp [Field.valueText, jsonString]
  have hq : isBlank quote = false := by decide
  rw [ht (.string v), replaceJsonStringFieldValue, hbr, hv]
  simp only [List.dropWhile_cons, List.takeWhile_cons, hq, Bool.false_eq_true, if_false, if_true,
    skipJsonString_quoted (body_lenient s).quoted, List.append_nil]
  simp [Field.valueText]

theorem replaceJsonStringFieldValue_absent (h : ¬needle key <:+: json) :
    replaceJsonStringFieldValue json key v = json := by
  have hn : breakOn (needle key) json = none := by
    rw [← Option.not_isSome_iff_eq_none, breakOn_isSome_iff]
    exact h
  rw [replaceJsonStringFieldValue, hn]

theorem valueText_head {field : Field} (h : ∀ s, field ≠ .string s) :
    ∃ c text, field.valueText = c :: text ∧ c ≠ quote := by
  cases field
  case string s   => exact absurd rfl (h s)
  case bool value => cases value <;> exact ⟨_, _, rfl, by decide⟩
  case int value  =>
    have ⟨c, text, ht, hc, _⟩ := decimalInt_head value
    exact ⟨c, text, ht, hc⟩

theorem replaceJsonStringFieldValue_other {field : Field} (hk : Word key)
    (hb : ∀ f ∈ before, Word f.1 ∧ key ≠ f.1) (h : ∀ s, field ≠ .string s) :
    replaceJsonStringFieldValue (flatObject (before ++ (key, field) :: behind)) key v =
      flatObject (before ++ (key, field) :: behind) := by
  have ⟨pre, rest, hbr, _⟩ := @breakOn_flatObject before behind key field hk hb
  have ⟨c, text, hv, hc⟩ := valueText_head h
  have hd : (field.valueText ++ rest).dropWhile isBlank = c :: (text ++ rest) := by
    rw [dropWhile_valueText, hv, List.cons_append]
  rw [replaceJsonStringFieldValue, hbr]
  simp [hd, hc]

theorem lookup_replaced {k : Bytes} {field field' : Field} (h : k ≠ key) :
    (before ++ (key, field') :: behind).lookup k = (before ++ (key, field) :: behind).lookup k := by
  have hf : (k == key) = false := by simpa using h
  simp [List.lookup_append, List.lookup_cons, hf]

-- The replacement of a string sets that field and no other, and there is no replacement of
-- anything else.
theorem replaceJsonStringFieldValue_lens (hw : ∀ f ∈ fields, Word f.1)
    (hd : (fields.map Prod.fst).Nodup) (hk : Word key) :
    (∀ s v, (key, .string s) ∈ fields →
      FieldReplaced (flatObject fields) key v (replaceJsonStringFieldValue (flatObject fields) key v)) ∧
    ((∀ s, (key, .string s) ∉ fields) →
      ∀ v, replaceJsonStringFieldValue (flatObject fields) key v = flatObject fields) := by
  have hothers : ∀ field before behind, fields = before ++ (key, field) :: behind →
      ∀ f ∈ before, Word f.1 ∧ key ≠ f.1 := by
    intro field before behind he f hf
    refine ⟨hw f (by simp [he, hf]), fun hkey => ?_⟩
    simp only [he, List.map_append, List.map_cons, List.nodup_append] at hd
    exact hd.2.2 f.1 (List.mem_map_of_mem hf) key (by simp) hkey.symm
  constructor
  case left =>
    intro s v hm
    obtain ⟨before, behind, he⟩ := List.append_of_mem hm
    have hb := hothers _ _ _ he
    have hw' : ∀ f ∈ before ++ (key, .string v) :: behind, Word f.1 := by
      intro f hf
      simp only [List.mem_append, List.mem_cons] at hf
      rcases hf with hf | rfl | hf
      · exact hw f (by simp [he, hf])
      · exact hk
      · exact hw f (by simp [he, hf])
    have hl : (before ++ (key, .string v) :: behind).lookup key = some (.string v) := by
      have hn : before.lookup key = none :=
        List.lookup_eq_none_iff.mpr fun f hf => by simpa using (hb f hf).right
      simp [List.lookup_append, hn]
    rw [he] at hw ⊢
    rw [replaceJsonStringFieldValue_string hk hb]
    constructor
    case read   => simp [extractJsonStringField_flatObject hk hw', hl, Field.text]
    case others => exact fun k hk' hne => sameField_of_lookup hk' hw hw' (lookup_replaced hne)
  case right =>
    intro hn v
    cases hl : fields.lookup key
    case none =>
      have hne : ∀ f ∈ fields, key ≠ f.1 := by simpa using List.lookup_eq_none_iff.mp hl
      exact replaceJsonStringFieldValue_absent (flatObject_absent hk fun f hf => ⟨hw f hf, hne f hf⟩)
    case some field =>
      obtain ⟨before, behind, he, _⟩ := List.lookup_eq_some_iff.mp hl
      rw [he]
      refine replaceJsonStringFieldValue_other hk (hothers _ _ _ he) fun s hs => hn s ?_
      simp [he, hs]

-- A path with an escaped quote and a trailing backslash is replaced by one with both, too.
def movedFields : List (Bytes × Field) :=
  [("path", .string (str "a\\\"b\\\\")), ("append", .bool true), ("content", .string (str "\"path\":"))]

theorem replaceJsonStringFieldValue_lens_moved :
    FieldReplaced (flatObject movedFields) "path" "c\\\"d\\\\"
      (replaceJsonStringFieldValue (flatObject movedFields) "path" "c\\\"d\\\\") ∧
    replaceJsonStringFieldValue (flatObject movedFields) "append" "c" = flatObject movedFields := by
  have hw : ∀ f ∈ movedFields, Word f.1 := by decide
  have hd : (movedFields.map Prod.fst).Nodup := by decide
  constructor
  case left =>
    have h := @replaceJsonStringFieldValue_lens movedFields "path" hw hd (by decide)
    exact h.left (str "a\\\"b\\\\") _ List.mem_cons_self
  case right =>
    have h := @replaceJsonStringFieldValue_lens movedFields "append" hw hd (by decide)
    exact h.right (by simp [movedFields, str_inj]) "c"

end Droidcli.Cli
