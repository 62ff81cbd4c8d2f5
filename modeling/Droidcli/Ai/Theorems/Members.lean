import Droidcli.Ai.Theorems.Decoding
import Droidcli.Net.Theorems.Connector

namespace Droidcli.Net

open Bytes Json Ai

-- The string that a member holds.
def Field.text : Field → Bytes
  | .string value => value
  | _             => []

def Field.flag : Field → Option Bool
  | .bool value => some value
  | _           => none

def strings (fields : List (Bytes × Field)) : Bytes :=
  fields.flatMap (·.2.text)

-- The members of an object, each behind a comma.
def members (fields : List (Bytes × Field)) : Bytes :=
  fields.flatMap fun (key, field) => comma :: field.member key

-- What a reader with its default makes of a member. Numbers it does not read.
def Field.Reads (json key : Bytes) : Field → Prop
  | .string value => extractJsonStringField json key = value
  | .bool value   => (extractJsonBoolField json key).getD true = value
  | .int _        => True

section Absent

variable {json key : Bytes}

theorem afterField_absent (h : ¬needle key <:+: json) : afterField json key 0 = none := by
  rw [afterField, List.drop_zero, after_eq_none_iff.mpr h]
  rfl

theorem stringField_absent (h : ¬needle key <:+: json) : extractJsonStringField json key = [] := by
  simp [extractJsonStringField, extractJsonStringFieldFrom, afterField_absent h]

theorem boolField_absent (h : ¬needle key <:+: json) : extractJsonBoolField json key = none := by
  simp [extractJsonBoolField, afterField_absent h]

theorem intField_absent (h : ¬needle key <:+: json) : extractJsonIntField json key = .absent := by
  simp [extractJsonIntField, afterField_absent h]

theorem afterField_inert {p : Bytes} (h : Inert (needle key) p json) :
    afterField (p ++ json) key 0 = afterField json key 0 := by
  rw [afterField, afterField, List.drop_zero, List.drop_zero, after_inert h]

-- What is read behind a text in which the key does not occur.
theorem Field.ReadFrom.behind {p : Bytes} {field : Field} (h : field.ReadFrom json key)
    (hp : Inert (needle key) p json) : field.ReadFrom (p ++ json) key := by
  cases field
  case string =>
    rwa [Field.ReadFrom, extractJsonStringField, extractJsonStringFieldFrom, afterField_inert hp]
  case bool => rwa [Field.ReadFrom, extractJsonBoolField, afterField_inert hp]
  case int  => rwa [Field.ReadFrom, extractJsonIntField, afterField_inert hp]

theorem Field.ReadFrom.reads {field : Field} (h : field.ReadFrom json key) :
    field.Reads json key := by
  cases field
  case string => exact h
  case bool   => simpa [Field.Reads] using congrArg (Option.getD · true) h
  case int    => trivial

end Absent

theorem concat_split {c d : UInt8} {s x y : Bytes} (hc : c ≠ d) (h : s ++ [d] = x ++ c :: y) :
    ∃ y', s = x ++ c :: y' ∧ y = y' ++ [d] := by
  obtain ⟨z, hz, hy⟩ | ⟨z, hz, hy⟩ := List.append_eq_append_iff.mp h
  case inl =>
    have hm : c ∈ [d] := by rw [hy]; simp
    exact absurd (List.mem_singleton.mp hm) hc
  case inr =>
    cases z
    case nil      => exact absurd (List.cons.inj hy).left hc
    case cons e z =>
      have ⟨he, hy⟩ := List.cons.inj hy
      exact ⟨z, he ▸ hz, hy⟩

section Braces

variable {fields : List (Bytes × Field)} {key x y : Bytes} {field : Field} {c : UInt8} {depth : Nat}

def IsBrace (c : UInt8) : Prop :=
  c = lbrace ∨ c = rbrace

theorem IsBrace.not_word (hc : IsBrace c) : ¬isWordChar c := by
  rcases hc with rfl | rfl <;> decide

theorem IsBrace.not_mem_needle (hc : IsBrace c) (hk : Word key) : c ∉ needle key := by
  have hq : c ≠ quote := by rcases hc with rfl | rfl <;> decide
  have hn : c ≠ colon := by rcases hc with rfl | rfl <;> decide
  simpa [needle, hq, hn] using fun hm => hc.not_word (hk.right c hm)

theorem IsBrace.not_digit (hc : IsBrace c) : ¬isDigit c := by
  rcases hc with rfl | rfl <;> decide

theorem IsBrace.not_mem_decimalInt (hc : IsBrace c) (n : Int) : c ∉ decimalInt n := by
  have hd (n : Nat) : c ∉ decimal n := fun h => hc.not_digit (isDigit_of_mem_decimal h)
  have hm : c ≠ minus := by rcases hc with rfl | rfl <;> decide
  cases n
  case ofNat n   => exact hd n
  case negSucc n => simpa [decimalInt, hm] using hd (n + 1)

theorem IsBrace.not_mem_bool (hc : IsBrace c) (b : Bool) :
    c ∉ if b then str "true" else str "false" := by
  rcases hc with rfl | rfl <;> cases b <;> decide

theorem noBraces_of_not_mem {s : Bytes} (h : ∀ c, IsBrace c → c ∉ s) : NoBraces s :=
  ⟨h _ (.inl rfl), h _ (.inr rfl)⟩

theorem openBraces_member (hk : Word key) (field : Field) :
    openBraces depth (field.member key) = openBraces depth field.text := by
  have hn : NoBraces (needle key) := noBraces_of_not_mem fun c hc => hc.not_mem_needle hk
  rw [field.member_eq, openBraces_noBraces_append hn]
  cases field
  case string s =>
    have hq : NoBraces [quote] := by decide
    rw [Field.valueText, jsonString, openBraces_append_noBraces hq,
      openBraces_plain (by decide) (by decide), openBraces_escape, Field.text]
  case bool b => exact openBraces_noBraces (noBraces_of_not_mem fun c hc => hc.not_mem_bool b)
  case int n  => exact openBraces_noBraces (noBraces_of_not_mem fun c hc => hc.not_mem_decimalInt n)

-- The braces of an object are those of its strings.
theorem openBraces_members (hk : ∀ f ∈ fields, Word f.1) :
    openBraces depth (members fields) = openBraces depth (strings fields) := by
  refine openBraces_flatMap_congr fun f hf depth => ?_
  rw [openBraces_plain (by decide) (by decide), openBraces_member (hk f hf)]

theorem not_mem_escapeJsonChar {d : UInt8} (hc : IsBrace c) (hne : c ≠ d) :
    c ∉ escapeJsonChar d := by
  rw [escapeJsonChar]
  split_ifs
  case neg => simpa using hne
  all_goals rcases hc with rfl | rfl <;> decide

theorem escapeJsonChar_brace (hc : IsBrace c) : escapeJsonChar c = [c] := by
  rcases hc with rfl | rfl <;> rfl

-- A brace of the text of a string is one of the string.
theorem escape_split {s : Bytes} (hc : IsBrace c) (h : escapeJsonString s = x ++ c :: y) :
    ∃ s₁ s₂, s = s₁ ++ c :: s₂ ∧ x = escapeJsonString s₁ ∧ y = escapeJsonString s₂ := by
  induction s generalizing x
  case nil => simp [escapeJsonString] at h
  case cons d s hi =>
    have he : escapeJsonString (d :: s) = escapeJsonChar d ++ escapeJsonString s := rfl
    rw [he] at h
    by_cases hd : c = d
    case neg =>
      have ⟨x', hx, hs⟩ := split_of_not_mem (not_mem_escapeJsonChar hc hd) h
      have ⟨s₁, s₂, hs, hx', hy⟩ := hi hs
      exact ⟨d :: s₁, s₂, by rw [hs]; rfl, by rw [hx, hx']; rfl, hy⟩
    case pos =>
      subst hd
      rw [escapeJsonChar_brace hc] at h
      cases x
      case nil => exact ⟨[], s, rfl, rfl, (List.cons.inj h).right.symm⟩
      case cons e x =>
        have ⟨he, hs⟩ := List.cons.inj h
        have ⟨s₁, s₂, hs, hx', hy⟩ := hi hs
        refine ⟨c :: s₁, s₂, by rw [hs]; rfl, ?_, hy⟩
        rw [← he, hx', escapeJsonString, escapeJsonString, List.flatMap_cons,
          escapeJsonChar_brace hc]
        rfl

theorem member_split (hk : Word key) (hc : IsBrace c) (h : field.member key = x ++ c :: y) :
    ∃ s₁ s₂, field = .string (s₁ ++ c :: s₂) ∧
      x = needle key ++ quote :: escapeJsonString s₁ ∧ y = escapeJsonString s₂ ++ [quote] := by
  rw [field.member_eq] at h
  have ⟨x', hx, hv⟩ := split_of_not_mem (hc.not_mem_needle hk) h
  have hm : c ∈ field.valueText := by simp [hv]
  cases field
  case bool b => exact absurd hm (hc.not_mem_bool b)
  case int n  => exact absurd hm (hc.not_mem_decimalInt n)
  case string s =>
    have hq : c ≠ quote := by rcases hc with rfl | rfl <;> decide
    have ht : [quote] ++ (escapeJsonString s ++ [quote]) = x' ++ c :: y := hv
    have ⟨x'', hx', ht⟩ := split_of_not_mem (by simpa using hq) ht
    obtain ⟨z, hz, hy⟩ | ⟨z, hz, hy⟩ := List.append_eq_append_iff.mp ht
    case inl =>
      cases z
      case nil      => exact absurd (List.cons.inj hy).left.symm hq
      case cons _ z => simp at hy
    case inr =>
      cases z
      case nil      => exact absurd (List.cons.inj hy).left hq
      case cons d z =>
        have ⟨hd, hy⟩ := List.cons.inj hy
        have ⟨s₁, s₂, hs, hx'', hz⟩ := escape_split hc (hd ▸ hz)
        exact ⟨s₁, s₂, by rw [hs], by rw [hx, hx', hx'']; rfl, by rw [hy, hz]; rfl⟩

-- A brace among the members stands in one of their strings.
theorem members_split (hk : ∀ f ∈ fields, Word f.1) (hc : IsBrace c)
    (h : members fields = x ++ c :: y) :
    ∃ before k s₁ s₂ behind, fields = before ++ (k, .string (s₁ ++ c :: s₂)) :: behind ∧
      x = members before ++ (comma :: needle k ++ quote :: escapeJsonString s₁) ∧
      y = escapeJsonString s₂ ++ quote :: members behind := by
  induction fields generalizing x
  case nil => simp [members] at h
  case cons f fields hi =>
    have hi {x} := @hi x fun f hf => hk f (List.mem_cons_of_mem _ hf)
    have he : members (f :: fields) = (comma :: f.2.member f.1) ++ members fields := rfl
    rw [he] at h
    have hcomma : c ≠ comma := by rcases hc with rfl | rfl <;> decide
    have hlater {x'} (hx : x = (comma :: f.2.member f.1) ++ x') (h : members fields = x' ++ c :: y) :
        ∃ before k s₁ s₂ behind, f :: fields = before ++ (k, .string (s₁ ++ c :: s₂)) :: behind ∧
          x = members before ++ (comma :: needle k ++ quote :: escapeJsonString s₁) ∧
          y = escapeJsonString s₂ ++ quote :: members behind := by
      have ⟨before, k, s₁, s₂, behind, hf, hx', hy⟩ := hi h
      exact ⟨f :: before, k, s₁, s₂, behind, by rw [hf]; rfl, by rw [hx, hx']; simp [members], hy⟩
    obtain ⟨z, hz, hy⟩ | ⟨z, hz, hy⟩ := List.append_eq_append_iff.mp h
    case inl => exact hlater hz hy
    case inr =>
      cases z
      case nil => exact @hlater [] (by simpa using hz.symm) (by simpa using hy.symm)
      case cons d z =>
        have ⟨hd, hy⟩ := List.cons.inj hy
        have ht : [comma] ++ f.2.member f.1 = x ++ c :: z := by simpa [hd] using hz
        have ⟨x', hx, hm⟩ := split_of_not_mem (by simpa using hcomma) ht
        have ⟨s₁, s₂, hf, hx', hz⟩ := member_split (hk f (by simp)) hc hm
        refine ⟨[], f.1, s₁, s₂, fields, by rw [← hf]; rfl, by rw [hx, hx']; rfl, ?_⟩
        rw [hy, hz]
        exact List.append_assoc ..

end Braces

section Members

variable {fields before behind : List (Bytes × Field)} {key k s x rest : Bytes} {field : Field}

theorem members_comma : members fields ++ [comma] = comma :: (openedObject fields).tail := by
  induction fields
  case nil => rfl
  case cons f fields hi =>
    have hm : members (f :: fields) = (comma :: f.2.member f.1) ++ members fields := rfl
    have ho : (openedObject (f :: fields)).tail =
        f.2.member f.1 ++ comma :: (openedObject fields).tail := by simp [openedObject]
    rw [hm, List.append_assoc, hi, ho]
    rfl

theorem openedObject_of_members (h : comma :: x = members before ++ comma :: s) :
    lbrace :: x = openedObject before ++ s := by
  have hc : members before ++ comma :: s = (members before ++ [comma]) ++ s := by simp
  rw [hc, members_comma] at h
  have hx := (List.cons.inj h).right
  simp [hx, openedObject]

theorem brokenOff_brace (h : lbrace :: x =
      openedObject before ++ (needle k ++ quote :: escapeJsonString s)) :
    lbrace :: (x ++ [rbrace]) = brokenOff before k (s ++ [rbrace]) := by
  have he : escapeJsonString (s ++ [rbrace]) = escapeJsonString s ++ [rbrace] := by
    rw [escapeJsonString, List.flatMap_append]
    rfl
  rw [brokenOff, he, ← List.cons_append, h]
  simp

-- A member is read behind others with other keys, whatever stands behind it.
theorem readFrom_member (hk : Word key) (hb : ∀ f ∈ before, Word f.1 ∧ key ≠ f.1)
    (hi : field.InRange) (hr : Follows rest) :
    field.ReadFrom (openedObject before ++ (field.member key ++ rest)) key := by
  apply Field.readFrom hi hr
  rw [after_openedObject hk hb, field.member_eq, List.append_assoc,
    after_append_self (by simp [needle])]

-- Of members it is enough to know the keys.
theorem others_of_keys (keys : List Bytes) (he : fields.map Prod.fst = keys)
    (hk : ∀ k ∈ keys, Word k ∧ key ≠ k) : ∀ f ∈ fields, Word f.1 ∧ key ≠ f.1 :=
  fun _ hf => hk _ (he ▸ List.mem_map_of_mem hf)

-- A member is read out of an object if none before it has its key.
theorem jsonObject_readFrom {texts : List Bytes} (hk : Word key)
    (hb : ∀ f ∈ before, Word f.1 ∧ key ≠ f.1) (hi : field.InRange) :
    field.ReadFrom (jsonObject ((before.map fun (k, f) => f.member k) ++
      field.member key :: texts)) key := by
  rw [jsonObject_split]
  exact readFrom_member hk hb hi (follows_members _)

theorem flatObject_absent (hk : Word key) (hb : ∀ f ∈ before, Word f.1 ∧ key ≠ f.1) :
    ¬needle key <:+: flatObject before := by
  rw [← contains_iff, needle_eq_pattern]
  apply not_contains_jsonObject
  intro text ht
  have ⟨f, hm, ht⟩ := List.mem_map.mp ht
  have ⟨hw, hne⟩ := hb f hm
  exact ht ▸ f.2.passes hk hw hne

theorem flatObject_read (hk : Word key) (hb : ∀ f ∈ before, Word f.1 ∧ key ≠ f.1)
    (hi : field.InRange) : field.ReadFrom (flatObject (before ++ [(key, field)])) key := by
  have hm : (before ++ [(key, field)]).map (fun (k, f) => f.member k) =
      (before.map fun (k, f) => f.member k) ++ [field.member key] := by
    simp
  rw [flatObject, hm]
  exact jsonObject_readFrom hk hb hi

-- The value text of the first member with a key.
theorem after_flatObject (hk : Word key) (hw : ∀ f ∈ fields, Word f.1)
    (hl : fields.lookup key = some field) :
    ∃ rest, Follows rest ∧ after (needle key) (flatObject fields) = some (field.valueText ++ rest) := by
  have ⟨before, behind, he, hb⟩ := List.lookup_eq_some_iff.mp hl
  have hp : ∀ text ∈ before.map fun (k, f) => f.member k, Passes key [] text := by
    intro text ht
    have ⟨(k, f), hm, ht⟩ := List.mem_map.mp ht
    have hne : key ≠ k := by simpa using hb _ hm
    exact ht ▸ f.passes hk (hw (k, f) (by simp [he, hm])) hne
  refine ⟨_, follows_members (behind.map fun (k, f) => f.member k), ?_⟩
  simp only [flatObject, he, List.map_append, List.map_cons, field.member_eq key]
  exact after_jsonObject hp

theorem afterField_flatObject (hk : Word key) (hw : ∀ f ∈ fields, Word f.1)
    (hl : fields.lookup key = some field) : ∃ rest, Follows rest ∧
      afterField (flatObject fields) key 0 = some (field.valueText ++ rest) := by
  have ⟨rest, hr, ha⟩ := after_flatObject hk hw hl
  refine ⟨rest, hr, ?_⟩
  rw [afterField, List.drop_zero, ha, Option.map_some, dropWhile_valueText]

theorem stringField_of_head {c : UInt8} (h : afterField x key 0 = some (c :: rest))
    (hc : c ≠ quote) : extractJsonStringField x key = [] := by
  simp [extractJsonStringField, extractJsonStringFieldFrom, h, hc]

theorem boolField_of_head {c : UInt8} (h : afterField x key 0 = some (c :: rest))
    (hc : c ≠ 0x74 ∧ c ≠ 0x66) : extractJsonBoolField x key = none := by
  have ht : ¬str "true" <+: c :: rest := fun ⟨_, h⟩ => hc.left (List.cons.inj h).left.symm
  have hf : ¬str "false" <+: c :: rest := fun ⟨_, h⟩ => hc.right (List.cons.inj h).left.symm
  simp [extractJsonBoolField, h, ht, hf]

theorem decimalInt_head (n : Int) :
    ∃ c text, decimalInt n = c :: text ∧ c ≠ quote ∧ c ≠ 0x74 ∧ c ≠ 0x66 := by
  have ⟨c, hc, hd⟩ := (isNumber_decimalInt n).head
  have ⟨text, ht⟩ := List.head?_eq_some_iff.mp hc
  refine ⟨c, text, ht, ?_⟩
  obtain rfl | hd := hd
  · decide
  · refine ⟨?_, ?_, ?_⟩ <;> rintro rfl <;> exact absurd hd (by decide)

-- What the readers make of an object is what its list of members says.
theorem extractJsonStringField_flatObject (hk : Word key) (hw : ∀ f ∈ fields, Word f.1) :
    extractJsonStringField (flatObject fields) key =
      ((fields.lookup key).map Field.text).getD [] := by
  cases hl : fields.lookup key
  case none =>
    have hne : ∀ f ∈ fields, key ≠ f.1 := by simpa using List.lookup_eq_none_iff.mp hl
    exact stringField_absent (flatObject_absent hk fun f hf => ⟨hw f hf, hne f hf⟩)
  case some field =>
    have ⟨rest, _, ha⟩ := afterField_flatObject hk hw hl
    cases field
    case string value => exact string_readFrom ha
    case bool value   => cases value <;> exact stringField_of_head ha (by decide)
    case int value    =>
      have ⟨_, _, ht, hc, _⟩ := decimalInt_head value
      rw [Field.valueText, ht] at ha
      exact stringField_of_head ha hc

theorem extractJsonBoolField_flatObject (hk : Word key) (hw : ∀ f ∈ fields, Word f.1) :
    extractJsonBoolField (flatObject fields) key = (fields.lookup key).bind Field.flag := by
  cases hl : fields.lookup key
  case none =>
    have hne : ∀ f ∈ fields, key ≠ f.1 := by simpa using List.lookup_eq_none_iff.mp hl
    exact boolField_absent (flatObject_absent hk fun f hf => ⟨hw f hf, hne f hf⟩)
  case some field =>
    have ⟨rest, _, ha⟩ := afterField_flatObject hk hw hl
    cases field
    case bool value => exact bool_readFrom ha
    case string value => exact boolField_of_head ha (by decide)
    case int value    =>
      have ⟨_, _, ht, _, hc⟩ := decimalInt_head value
      rw [Field.valueText, ht] at ha
      exact boolField_of_head ha hc

-- In what is left of a string that has been cut there is no key, and in the members behind it
-- there are only theirs.
theorem inert_remainder (hk : Word key) (hb : ∀ f ∈ behind, Word f.1 ∧ key ≠ f.1) :
    Inert (needle key) (escapeJsonString s ++ quote :: (members behind ++ [rbrace])) rest := by
  have hm : members behind =
      (behind.map fun (k, f) => f.member k).flatMap ([comma] ++ ·) := by
    simp [members, List.flatMap_map]
  have hp : ∀ text ∈ behind.map fun (k, f) => f.member k, Passes key [] text := by
    intro text ht
    have ⟨(k, f), hf, ht⟩ := List.mem_map.mp ht
    have ⟨hw, hne⟩ := hb _ hf
    exact ht ▸ f.passes hk hw hne
  have hclosing : Closing (members behind ++ [rbrace] ++ rest) := by
    rw [hm]
    exact Follows.closing (Follows.append (follows_members _))
  have hv : Inert (pattern key []) (quote :: escapeJsonString s ++ [quote])
      (members behind ++ [rbrace] ++ rest) :=
    inert_value hk (body_lenient s).quoted hclosing
  have hs : Inert (needle key) (escapeJsonString s ++ [quote]) (members behind ++ [rbrace] ++ rest) :=
    fun t hn ht => needle_eq_pattern key ▸ hv t hn (ht.trans (List.suffix_cons ..))
  have ht : Inert (needle key) (members behind ++ [rbrace]) rest :=
    needle_eq_pattern key ▸ hm ▸ inert_behind hp
  simpa using inert_append hs ht

end Members
end Droidcli.Net
