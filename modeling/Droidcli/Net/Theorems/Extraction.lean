import Droidcli.Lib.Json.Search
import Droidcli.Net.Theorems.Decoding

namespace Droidcli.Net

open Bytes Json

-- What the members of an object say to the readers of strings and of booleans.
def stringOf : Option Value → Bytes
  | some (.string t) => t
  | _                => []

def boolOf : Option Value → Option Bool
  | some (.bool b) => some b
  | _              => none

-- Both readers decode the member of the key, and nothing when there is no such member.
structure Decodes (json key : Bytes) (members : List (Bytes × Value)) : Prop where
  string : extractJsonStringField json key = stringOf (members.lookup key)
  bool   : extractJsonBoolField json key = boolOf (members.lookup key)

-- A member that says nothing to either reader.
def Mute (v : Option Value) : Prop :=
  stringOf v = [] ∧ boolOf v = none

-- The readers only step over spaces and tabs.
def Blank (w : Bytes) : Prop :=
  ∀ c ∈ w, isBlank c

-- What the readers take a string for.
inductive Spells : Bytes → Bytes → Prop
  | nil : Spells [] []
  | plain {c : UInt8} {r t : Bytes} :
    c ≠ quote → c ≠ backslash → Spells r t → Spells (c :: r) (c :: t)
  | escaped {e : UInt8} {r t : Bytes} :
    Spells r t → Spells (backslash :: e :: r) (unescapeJsonChar e :: t)

-- The first place where the key stands with its colon right behind it: the gap and the value that
-- follow it there.
inductive Found (key : Bytes) : Bytes → Bytes → Bytes → Value → Prop
  | mk {front w e back : Bytes} {v : Value} :
    Inert (needle key) front (needle key ++ (w ++ (e ++ back))) → Gap w → IsValue strict e v →
    Ends back → Found key (front ++ (needle key ++ (w ++ (e ++ back)))) w e v

-- How the value that is found can be right for the member that is wanted.
inductive Agrees (wanted : Option Value) (w e : Bytes) (v : Value) : Prop
  -- It is the value of that member, and legible.
  | same : wanted = some v → Blank w →
    (∀ r t, v = .string t → e = quote :: r ++ [quote] → Familiar r) → Agrees wanted w e v
  -- There is nothing to be read, and nothing is.
  | mute : Mute wanted → ¬Blank w ∨ Mute (some v) → Agrees wanted w e v
  -- It is taken for the value of that member by a reader that does not know its escapes.
  | mistaken {r t : Bytes} : wanted = some (.string t) → Blank w → e = quote :: r ++ [quote] →
    ¬Familiar r → Spells r t → Agrees wanted w e v

inductive Readable (json key : Bytes) (wanted : Option Value) : Prop
  | nowhere : ¬needle key <:+: json → Mute wanted → Readable json key wanted
  | found {w e : Bytes} {v : Value} :
    Found key json w e v → Agrees wanted w e v → Readable json key wanted

section Strings

variable {raw : UInt8 → Prop} {r t t' rest : Bytes}

theorem Spells.read (hr : Quoted r) : Spells r (readJsonString (r ++ quote :: rest)) := by
  induction hr
  case nil =>
    rw [List.nil_append, readJsonString_quote]
    exact .nil
  case plain hq hb _ hi =>
    rw [List.cons_append, readJsonString_cons hb hq]
    exact .plain hq hb hi
  case escaped hi =>
    rw [List.cons_append, List.cons_append, readJsonString_escaped]
    exact .escaped hi

theorem Spells.unique (h : Spells r t) (h' : Spells r t') : t = t' := by
  induction h generalizing t'
  case nil => cases h'; rfl
  case plain hb _ hi =>
    cases h'
    case plain h'   => rw [hi h']
    case escaped h' => contradiction
  case escaped hi =>
    cases h'
    case plain h      => contradiction
    case escaped h'   => rw [hi h']

theorem Spells.eq_nil (h : Spells r []) : r = [] := by
  cases h
  rfl

theorem familiar_iff_spells (h : Body raw r t) : Familiar r ↔ Spells r t := by
  have hr : Spells r (readJsonString (r ++ quote :: [])) := Spells.read h.quoted
  rw [← (@readJsonString_eq_iff _ []) h]
  exact ⟨fun he => he ▸ hr, fun hs => hr.unique hs⟩

end Strings

section Found

variable {json key w e back : Bytes} {v : Value} {wanted : Option Value}

theorem isBlank_gap {c : UInt8} (h : isBlank c) : isGap c := by
  simp only [isBlank, Bool.or_eq_true, decide_eq_true_eq] at h
  rcases h with rfl | rfl <;> rfl

theorem dropWhile_value (h : IsValue strict e v) (hw : Blank w) :
    (w ++ (e ++ back)).dropWhile isBlank = e ++ back := by
  have ⟨c, e', he, hc⟩ := h.starts
  have hb : isBlank c = false := by
    rw [← Bool.not_eq_true]
    exact fun hb => hc.not_gap (isBlank_gap hb)
  rw [List.dropWhile_append_of_pos hw, he]
  simp [hb]

-- At the end of a line they stop.
theorem dropWhile_of_not_blank {s : Bytes} (hg : Gap w) (hw : ¬Blank w) :
    ∃ c text, (w ++ s).dropWhile isBlank = c :: text ∧ (c = lf ∨ c = cr) := by
  induction w
  case nil => exact absurd (by simp [Blank]) hw
  case cons c w hi =>
    by_cases hb : isBlank c
    case pos =>
      have hw' : ¬Blank w := fun hn => hw (by simpa [Blank, hb] using hn)
      have ⟨d, text, hd, h⟩ := hi (fun c hc => hg c (List.mem_cons_of_mem _ hc)) hw'
      exact ⟨d, text, by simpa [hb] using hd, h⟩
    case neg =>
      have hc := hg c (by simp)
      refine ⟨c, w ++ s, by simp [hb], ?_⟩
      simp only [isGap, isBlank, Bool.or_eq_true, decide_eq_true_eq] at hc hb
      tauto

theorem true_prefix_iff (h : IsValue strict e v) :
    str "true" <+: e ++ back ↔ v = .bool true := by
  have ht : str "true" = 0x74 :: [0x72, 0x75, 0x65] := by decide
  constructor
  case mp =>
    intro ⟨u, hu⟩
    have ⟨e', he, _⟩ := h.uncons (ht ▸ hu)
    exact (IsValue.of_t (he ▸ h)).left
  case mpr =>
    intro hv
    subst hv
    cases h
    exact List.prefix_append ..

theorem false_prefix_iff (h : IsValue strict e v) :
    str "false" <+: e ++ back ↔ v = .bool false := by
  have hf : str "false" = 0x66 :: [0x61, 0x6c, 0x73, 0x65] := by decide
  constructor
  case mp =>
    intro ⟨u, hu⟩
    have ⟨e', he, _⟩ := h.uncons (hf ▸ hu)
    exact (IsValue.of_f (he ▸ h)).left
  case mpr =>
    intro hv
    subst hv
    cases h
    exact List.prefix_append ..

theorem boolOf_value (h : IsValue strict e v) :
    (if str "true" <+: e ++ back then some true
      else if str "false" <+: e ++ back then some false else none) = boolOf (some v) := by
  have ht := (@true_prefix_iff _ back) h
  have hf := (@false_prefix_iff _ back) h
  cases v
  case bool b => cases b <;> simp [ht, hf, boolOf]
  all_goals simp [ht, hf, boolOf]

theorem Found.inv (h : Found key json w e v) : Gap w ∧ IsValue strict e v ∧
    ∃ back, afterField json key 0 = some ((w ++ (e ++ back)).dropWhile isBlank) :=
  match h with
  | @Found.mk _ _ _ _ back _ hi hg hv _ => ⟨hg, hv, back, by
    rw [afterField, List.drop_zero, after_inert hi, after_append_self (by simp [needle])]
    rfl⟩

theorem Found.apart (h : Found key json w e v) (hw : ¬Blank w) :
    extractJsonStringField json key = [] ∧ extractJsonBoolField json key = none := by
  have ⟨hg, _, back, ha⟩ := h.inv
  have ⟨c, text, hd, hc⟩ := dropWhile_of_not_blank (s := e ++ back) hg hw
  rw [hd] at ha
  have hq : c ≠ quote := by rcases hc with rfl | rfl <;> decide
  have ht : ¬str "true" <+: c :: text := by
    intro ⟨u, hu⟩
    have : (0x74 : UInt8) = c := (List.cons.inj hu).left
    rcases hc with rfl | rfl <;> exact absurd this (by decide)
  have hf : ¬str "false" <+: c :: text := by
    intro ⟨u, hu⟩
    have : (0x66 : UInt8) = c := (List.cons.inj hu).left
    rcases hc with rfl | rfl <;> exact absurd this (by decide)
  constructor
  case left  => simp [extractJsonStringField, extractJsonStringFieldFrom, ha, hq]
  case right => simp [extractJsonBoolField, ha, ht, hf]

theorem Found.bool (h : Found key json w e v) (hw : Blank w) :
    extractJsonBoolField json key = boolOf (some v) := by
  have ⟨_, hv, back, ha⟩ := h.inv
  rw [dropWhile_value hv hw] at ha
  rw [extractJsonBoolField, ha]
  exact boolOf_value hv

theorem Found.string {r : Bytes} (h : Found key json w (quote :: r ++ [quote]) v) (hw : Blank w) :
    Spells r (extractJsonStringField json key) := by
  have ⟨_, hv, back, ha⟩ := h.inv
  rw [dropWhile_value hv hw] at ha
  have ⟨r', _, hb, hr, _⟩ := hv.of_quote
  have hr : r = r' := by simpa using hr
  have := (@Spells.read _ back) (hr ▸ hb.quoted)
  simpa [extractJsonStringField, extractJsonStringFieldFrom, ha] using this

theorem Found.other (h : Found key json w e v) (hw : Blank w) (hv : ∀ t, v ≠ .string t) :
    extractJsonStringField json key = [] := by
  have ⟨_, he, back, ha⟩ := h.inv
  rw [dropWhile_value he hw] at ha
  have ⟨c, e', hc, _⟩ := he.starts
  have hq : c ≠ quote := by
    intro hq
    have ⟨_, t, _, _, ht⟩ := IsValue.of_quote (hq ▸ hc ▸ he)
    exact hv t ht
  simp [extractJsonStringField, extractJsonStringFieldFrom, ha, hc, hq]

end Found

section Decoding

variable {json key w e : Bytes} {v : Value} {members : List (Bytes × Value)} {wanted : Option Value}

theorem eq_bool_of_boolOf {v : Option Value} {b : Bool} (h : boolOf v = some b) :
    v = some (.bool b) :=
  match v, h with
  | some (.bool _), h => by rw [Option.some.inj h]

theorem stringOf_other (h : ∀ t, v ≠ .string t) : stringOf (some v) = [] := by
  cases v
  case string t => exact absurd rfl (h t)
  all_goals rfl

theorem agrees_other_iff (hv : IsValue strict e v) (hw : Blank w) (h : ∀ t, v ≠ .string t) :
    [] = stringOf wanted ∧ boolOf (some v) = boolOf wanted ↔ Agrees wanted w e v := by
  constructor
  case mp =>
    intro ⟨hs, hb⟩
    cases hbool : boolOf (some v)
    case none   => exact .mute ⟨hs.symm, hb.symm.trans hbool⟩ (.inr ⟨stringOf_other h, hbool⟩)
    case some b =>
      have hv := eq_bool_of_boolOf hbool
      have hwanted := eq_bool_of_boolOf (hb.symm.trans hbool)
      exact .same (hwanted.trans hv.symm) hw fun r t ht => absurd ht (h t)
  case mpr =>
    intro ha
    cases ha
    case same hs _ _              => rw [hs, stringOf_other h]; exact ⟨rfl, rfl⟩
    case mute hm hv               =>
      have ⟨_, hb⟩ := hv.resolve_left (not_not_intro hw)
      exact ⟨hm.left.symm, hb.trans hm.right.symm⟩
    case mistaken _ _ he _ _      =>
      have ⟨_, t, _, _, ht⟩ := IsValue.of_quote (he ▸ hv)
      exact absurd ht (h t)

theorem body_nil_iff {raw : UInt8 → Prop} {r t : Bytes} (h : Body raw r t) : r = [] ↔ t = [] := by
  have hu (n : Nat) : utf8 n ≠ [] := by
    rw [utf8]
    split_ifs <;> simp
  cases h <;> simp [hu]

theorem agrees_string_iff {r t s : Bytes} (hb : Body strict r t) (hs : Spells r s)
    (hw : Blank w) :
    s = stringOf wanted ∧ none = boolOf wanted ↔
      Agrees wanted w (quote :: r ++ [quote]) (.string t) := by
  have hnil (h : t = []) : s = [] := by
    have hr := (body_nil_iff hb).mpr h
    exact (hr ▸ hs).unique .nil
  constructor
  case mp =>
    intro ⟨hs', hb'⟩
    by_cases hm : stringOf wanted = []
    case pos =>
      have ht : t = [] := (body_nil_iff hb).mp (Spells.eq_nil (hs'.trans hm ▸ hs))
      exact .mute ⟨hm, hb'.symm⟩ (.inr ⟨ht, rfl⟩)
    case neg =>
      have ⟨u, hu⟩ : ∃ u, wanted = some (.string u) :=
        match wanted, hm with
        | some (.string u), _ => ⟨u, rfl⟩
      have hsu : s = u := by simpa [hu, stringOf] using hs'
      by_cases hf : Familiar r
      case pos =>
        have hst := hs.unique ((familiar_iff_spells hb).mp hf)
        refine .same (by rw [hu, ← hsu, hst]) hw fun r' _ _ hr => ?_
        have hr : r = r' := by simpa using hr
        exact hr ▸ hf
      case neg => exact .mistaken hu hw rfl hf (hsu ▸ hs)
  case mpr =>
    intro ha
    cases ha
    case same hu _ hf =>
      have hst := hs.unique ((familiar_iff_spells hb).mp (hf r t rfl rfl))
      simp [hu, stringOf, boolOf, hst]
    case mute hm hv =>
      have ⟨ht, _⟩ := hv.resolve_left (not_not_intro hw)
      exact ⟨(hnil ht).trans hm.left.symm, hm.right.symm⟩
    case mistaken r' u hu _ hr _ hs' =>
      have hr : r = r' := by simpa using hr
      simp [hu, stringOf, boolOf, hs.unique (hr ▸ hs')]

theorem isValue_string {t : Bytes} (h : IsValue strict e (.string t)) :
    ∃ r, Body strict r t ∧ e = quote :: r ++ [quote] := by
  cases h
  case string r hr => exact ⟨r, hr, rfl⟩

-- What both readers say at the place that is found is right exactly when it agrees.
theorem Found.agrees_iff (h : Found key json w e v) :
    extractJsonStringField json key = stringOf wanted ∧
      extractJsonBoolField json key = boolOf wanted ↔ Agrees wanted w e v := by
  have ⟨_, hv, _⟩ := h.inv
  by_cases hw : Blank w
  case neg =>
    have ⟨hs, hb⟩ := h.apart hw
    rw [hs, hb]
    constructor
    case mp  => exact fun ⟨hs, hb⟩ => .mute ⟨hs.symm, hb.symm⟩ (.inl hw)
    case mpr =>
      intro ha
      cases ha
      case same _ hb _           => exact absurd hb hw
      case mute hm _             => exact ⟨hm.left.symm, hm.right.symm⟩
      case mistaken _ hb _ _ _   => exact absurd hb hw
  case pos =>
    rw [h.bool hw]
    by_cases hstring : ∃ t, v = .string t
    case neg =>
      have hstring : ∀ t, v ≠ .string t := fun t ht => hstring ⟨t, ht⟩
      rw [h.other hw hstring]
      exact agrees_other_iff hv hw hstring
    case pos =>
      have ⟨t, ht⟩ := hstring
      have ⟨r, hb, he⟩ := isValue_string (ht ▸ hv)
      subst ht he
      exact agrees_string_iff hb (h.string hw) hw

theorem decodes_nowhere (h : ¬needle key <:+: json) :
    Decodes json key members ↔ Mute (members.lookup key) := by
  have ha : afterField json key 0 = none := by
    rw [afterField, List.drop_zero, after_eq_none_iff.mpr h]
    rfl
  have hs : extractJsonStringField json key = [] := by
    simp [extractJsonStringField, extractJsonStringFieldFrom, ha]
  have hb : extractJsonBoolField json key = none := by
    simp [extractJsonBoolField, ha]
  constructor
  case mp  => exact fun hd => ⟨hd.string ▸ hs, hd.bool ▸ hb⟩
  case mpr => exact fun hm => ⟨hs.trans hm.left.symm, hb.trans hm.right.symm⟩

theorem Readable.decodes (h : Readable json key (members.lookup key)) :
    Decodes json key members := by
  cases h
  case nowhere hn hm => exact (decodes_nowhere hn).mpr hm
  case found hf ha   =>
    have ⟨hs, hb⟩ := hf.agrees_iff.mpr ha
    exact ⟨hs, hb⟩

-- Of a name that occurs in a text, the first occurrence is in front of a value.
theorem exists_found (hk : Word key) (h : IsText strict json v) (hn : needle key <:+: json) :
    ∃ w e v, Found key json w e v := by
  obtain ⟨⟨front, t⟩, hb⟩ := Option.isSome_iff_exists.mp (breakOn_isSome_iff.mpr hn)
  have ha : after (pattern key []) json = some t := by
    rw [after, ← needle_eq_pattern, hb]
    rfl
  obtain ⟨e, v, back, ht, hv, hs⟩ := h.valued hk ha
  cases hv
  case mk w e w' hw hw' hv =>
    have hjson := breakOn_eq_some hb
    have hi : Inert (needle key) front (needle key ++ t) := inert_of_breakOn hb
    have ht : t = w ++ (e ++ (w' ++ back)) := by simpa using ht
    rw [hjson, ht, List.append_assoc]
    exact ⟨w, e, v, .mk (ht ▸ hi) hw hv (hw'.ends hs)⟩

theorem decodes_iff (h : IsText strict json (.object members)) :
    (Readable json key (members.lookup key) → Decodes json key members) ∧
      (Word key → Decodes json key members → Readable json key (members.lookup key)) := by
  constructor
  case left  => exact Readable.decodes
  case right =>
    intro hk hd
    by_cases hn : needle key <:+: json
    case neg => exact .nowhere hn ((decodes_nowhere hn).mp hd)
    case pos =>
      have ⟨w, e, v, hf⟩ := exists_found hk h hn
      exact .found hf (hf.agrees_iff.mp ⟨hd.string, hd.bool⟩)

end Decoding

section Examples

def readArguments : Bytes :=
  jsonObject [jsonStringField "path" "notes.txt", jsonBoolField "recursive" true]

theorem isText_readArguments : IsText strict readArguments
    (.object [("path", .string "notes.txt"), ("recursive", .bool true)]) := by
  apply isText_jsonObject
  refine .cons (member_stringField ?_ (by decide)) (.cons (member_boolField ?_ true) .nil)
  case refine_1 => exact Word.body (by decide)
  case refine_2 => exact Word.body (by decide)

theorem decodes_iff_readArguments :
    Decodes readArguments "path" [("path", .string "notes.txt"), ("recursive", .bool true)] := by
  have hb : Body strict (escapeJsonString "notes.txt") "notes.txt" :=
    body_escapeJsonString (by decide)
  apply (decodes_iff isText_readArguments).left
  apply Readable.found (w := []) (e := jsonString "notes.txt") (v := .string "notes.txt")
  case a =>
    exact (@Found.mk _ [lbrace] _ _ (comma :: jsonBoolField "recursive" true ++ [rbrace]))
      (inert_of_not_mem (by decide)) gap_nil (.string hb) (by simp [Ends])
  case a =>
    refine .same rfl (by simp [Blank]) fun r t _ hr => ?_
    have hr : r = escapeJsonString "notes.txt" := by simpa [jsonString] using hr.symm
    exact hr ▸ familiar_escapeJsonString _

-- A command that spells its last letter by its code unit.
def accentedArguments : Bytes :=
  jsonObject [needle "command" ++ (quote :: str "caf\\u00e9" ++ [quote])]

theorem isText_accentedArguments : IsText strict accentedArguments
    (.object [("command", .string (str "caf" ++ [0xc3, 0xa9]))]) := by
  have hb : Body strict (str "caf\\u00e9") (str "caf" ++ [0xc3, 0xa9]) := by
    refine .plain (by decide) (by decide) (by decide) ?_
    refine .plain (by decide) (by decide) (by decide) ?_
    refine .plain (by decide) (by decide) (by decide) ?_
    exact .unicode (n := 0xe9) (by decide) (by decide) (by decide) .nil
  apply isText_jsonObject
  exact .cons (.mk (Word.body (by decide)) (IsValue.string hb).text) .nil

theorem not_decodes_accentedArguments :
    ¬∀ json members key, IsText strict json (.object members) → Decodes json key members := by
  intro h
  have := (h accentedArguments _ "command" isText_accentedArguments).string
  exact absurd this (by decide +kernel)

end Examples
end Droidcli.Net
