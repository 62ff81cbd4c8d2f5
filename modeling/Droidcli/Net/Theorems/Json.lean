import Droidcli.Lib.Json.Strict
import Droidcli.Net.Json

namespace Droidcli.Net

open Bytes Json

theorem needle_eq_pattern (key : Bytes) : Net.needle key = pattern key [] := by
  simp [Net.needle, pattern]

section Texts

variable {raw : UInt8 → Prop} {key : Bytes}

-- What the host writes for a string denotes that string, as long as every byte has an escape or
-- may stand for itself.
theorem body_escapeJsonString {s : Bytes} (h : ∀ c ∈ s, raw c ∨ c ∈ [lf, cr, tab]) :
    Body raw (escapeJsonString s) s := by
  induction s
  case nil => exact .nil
  case cons c s hi =>
    have he : escapeJsonString (c :: s) = escapeJsonChar c ++ escapeJsonString s := rfl
    have hi := hi fun c hc => h c (List.mem_cons_of_mem _ hc)
    rw [he, escapeJsonChar]
    split_ifs with hb hq hl hr ht
    case pos => exact .short (by simp [shortEscape, hb]) hi
    case pos => exact .short (by simp [shortEscape, hq]) hi
    case pos => exact hl ▸ .short rfl hi
    case pos => exact hr ▸ .short rfl hi
    case pos => exact ht ▸ .short rfl hi
    case neg =>
      have hraw : raw c := h c (by simp) |>.resolve_right (by simp [hl, hr, ht])
      exact .plain hraw hq hb hi

theorem body_lenient (s : Bytes) : Body lenient (escapeJsonString s) s :=
  body_escapeJsonString fun _ _ => .inl trivial

theorem isText_jsonString {s : Bytes} (h : ∀ c ∈ s, raw c ∨ c ∈ [lf, cr, tab]) :
    IsText raw (jsonString s) (.string s) :=
  IsValue.string (body_escapeJsonString h) |>.text

theorem isText_bool (b : Bool) : IsText raw (if b then str "true" else str "false") (.bool b) := by
  cases b
  case true  => exact IsValue.isTrue.text
  case false => exact IsValue.isFalse.text

theorem isNumber_decimalInt (n : Int) : IsNumber (decimalInt n) := by
  have hd (n : Nat) : IsDigits (decimal n) := ⟨decimal_ne_nil, fun c => isDigit_of_mem_decimal⟩
  have hz (n : Nat) (h : (decimal n).head? = some 0x30) : decimal n = [0x30] := by
    rw [eq_zero_of_head_decimal h]
    decide
  cases n
  case ofNat n =>
    have := IsNumber.mk (.inl rfl) (hd n) (hz n) (.inl rfl) (.inl rfl)
    simpa [decimalInt] using this
  case negSucc n =>
    have := IsNumber.mk (.inr rfl) (hd (n + 1)) (hz (n + 1)) (.inl rfl) (.inl rfl)
    simpa [decimalInt] using this

theorem isText_decimalInt (n : Int) : IsText raw (decimalInt n) (.number (decimalInt n)) :=
  IsValue.number (isNumber_decimalInt n) |>.text

-- A member of an object that the host writes: a plain key, and a text that denotes some value.
inductive Member (raw : UInt8 → Prop) : Bytes → Bytes × Value → Prop
  | mk {key e : Bytes} {v : Value} :
    Body raw key key → IsText raw e v → Member raw (Net.needle key ++ e) (key, v)

theorem Member.isMember {text : Bytes} {m : Bytes × Value} (h : Member raw text m) :
    IsMember raw text m := by
  cases h
  case mk hk h => simpa [Net.needle] using IsMember.plain hk h

theorem member_stringField (hk : Body raw key key) {s : Bytes}
    (h : ∀ c ∈ s, raw c ∨ c ∈ [lf, cr, tab]) : Member raw (jsonStringField key s) (key, .string s) :=
  .mk hk (isText_jsonString h)

theorem member_boolField (hk : Body raw key key) (b : Bool) :
    Member raw (jsonBoolField key b) (key, .bool b) :=
  .mk hk (isText_bool b)

theorem member_intField (hk : Body raw key key) (n : Int) :
    Member raw (jsonIntField key n) (key, .number (decimalInt n)) :=
  .mk hk (isText_decimalInt n)

-- An object that the host writes is one, with its members in order.
theorem isText_jsonObject {texts : List Bytes} {ms : List (Bytes × Value)}
    (h : List.Forall₂ (Member raw) texts ms) : IsText raw (jsonObject texts) (.object ms) := by
  have hm {text : Bytes} {texts : List Bytes} {m : Bytes × Value} {ms : List (Bytes × Value)}
      (h : Member raw text m) (hs : List.Forall₂ (Member raw) texts ms) :
      IsMembers raw (joinWith [comma] (text :: texts)) (m :: ms) := by
    induction hs generalizing text m
    case nil => simpa [joinWith] using IsMembers.one h.isMember
    case cons text' m' texts' ms' h' _ hi =>
      have := IsMembers.cons h.isMember (hi h')
      simpa [joinWith, List.intercalate] using this
  cases h
  case nil       => exact (IsValue.emptyObject gap_nil).text
  case cons h hs => exact (IsValue.object (hm h hs)).text

-- And so is an array.
theorem isText_jsonArray {texts : List Bytes} {vs : List Value}
    (h : List.Forall₂ (IsText raw) texts vs) : IsText raw (jsonArray texts) (.array vs) := by
  have hm {text : Bytes} {texts : List Bytes} {v : Value} {vs : List Value}
      (h : IsText raw text v) (hs : List.Forall₂ (IsText raw) texts vs) :
      IsElements raw (joinWith [comma] (text :: texts)) (v :: vs) := by
    induction hs generalizing text v
    case nil => simpa [joinWith] using IsElements.one h
    case cons text' v' texts' vs' h' _ hi =>
      have := IsElements.cons h (hi h')
      simpa [joinWith, List.intercalate] using this
  cases h
  case nil       => exact (IsValue.emptyArray gap_nil).text
  case cons h hs => exact (IsValue.array (hm h hs)).text

theorem mem_jsonObject {texts : List Bytes} {text : Bytes} {c : UInt8} (ht : text ∈ texts)
    (hc : c ∈ text) : c ∈ jsonObject texts := by
  have ⟨before, behind, he⟩ := List.append_of_mem ht
  simp [jsonObject, he, joinWith_split, hc]

theorem mem_jsonArray {texts : List Bytes} {text : Bytes} {c : UInt8} (ht : text ∈ texts)
    (hc : c ∈ text) : c ∈ jsonArray texts := by
  have ⟨before, behind, he⟩ := List.append_of_mem ht
  simp [jsonArray, he, joinWith_split, hc]

-- Control characters other than these three reach the text as they are.
theorem allowed_of_escaped {s : Bytes} (h : ∀ c ∈ escapeJsonString s, Allowed c) :
    ∀ c ∈ s, Allowed c := by
  intro c hc
  have hm : ∀ d ∈ escapeJsonChar c, Allowed d :=
    fun d hd => h d (List.mem_flatMap.mpr ⟨c, hc, hd⟩)
  rw [escapeJsonChar] at hm
  split_ifs at hm with hb hq hl hr ht
  case pos => exact hb ▸ by decide
  case pos => exact hq ▸ by decide
  case pos => exact hl ▸ by decide
  case pos => exact hr ▸ by decide
  case pos => exact ht ▸ by decide
  case neg => exact hm c (by simp)

theorem allowed_of_stringField (key : Bytes) {s : Bytes} (h : ∀ c ∈ jsonStringField key s, Allowed c) :
    ∀ c ∈ s, Allowed c :=
  allowed_of_escaped fun c hc => h c (by simp [jsonStringField, jsonString, hc])

end Texts

section Scan

variable {key k lit rest : Bytes}

-- A member of an object that the host writes, through which a search for `key` with a value that
-- begins with `lit` passes.
def Passes (key lit text : Bytes) : Prop :=
  ∀ rest, Closing rest → Inert (pattern key lit) text rest

theorem passes_of_value {v : Bytes} (hk : Word key) (hp : Plain k)
    (hne : key = k → ∀ rest, ¬ lit <+: v ++ rest)
    (hv : ∀ rest, Closing rest → Inert (pattern key lit) v rest) :
    Passes key lit (Net.needle k ++ v) := by
  intro rest hr
  have hcolon : Inert (pattern key lit) [colon] (v ++ rest) := inert_unquoted (by decide)
  have hname : Inert (pattern key lit) (quote :: k ++ [quote]) (colon :: (v ++ rest)) := by
    by_cases he : key = k
    case pos => exact he ▸ inert_own_key hk (hne he rest)
    case neg => exact inert_key hk hp he
  have : Inert (pattern key lit) ((quote :: k ++ [quote]) ++ ([colon] ++ v)) rest :=
    inert_append hname (inert_append hcolon (hv rest hr))
  simpa [Net.needle] using this

theorem passes_stringField (hk : Word key) (hp : Plain k) (hne : key ≠ k) (s : Bytes) :
    Passes key lit (jsonStringField k s) := by
  apply passes_of_value hk hp (fun he => absurd he hne)
  exact fun rest hr => inert_value hk (body_lenient s).quoted hr

theorem quote_not_mem_bool (b : Bool) : quote ∉ (if b then str "true" else str "false") := by
  cases b <;> decide

theorem passes_boolField (hk : Word key) (hp : Plain k) (b : Bool)
    (hne : key = k → ∀ rest, ¬ lit <+: (if b then str "true" else str "false") ++ rest) :
    Passes key lit (jsonBoolField k b) :=
  passes_of_value hk hp hne fun _ _ => inert_unquoted (quote_not_mem_bool b)

theorem passes_intField (hk : Word key) (hp : Plain k) (hne : key ≠ k) (n : Int) :
    Passes key lit (jsonIntField k n) := by
  apply passes_of_value hk hp (fun he => absurd he hne)
  intro rest _
  apply inert_unquoted
  have hd (n : Nat) : quote ∉ decimal n :=
    fun h => absurd (isDigit_of_mem_decimal h) (by decide)
  cases n
  case ofNat n   => exact hd n
  case negSucc n =>
    intro h
    cases List.mem_cons.mp h
    case inl h => exact absurd h (by decide)
    case inr h => exact hd (n + 1) h

theorem inert_members {before : List Bytes} (h : ∀ text ∈ before, Passes key lit text) :
    Inert (pattern key lit) (lbrace :: before.flatMap (· ++ [comma])) rest := by
  have hb : Inert (pattern key lit) [lbrace] (before.flatMap (· ++ [comma]) ++ rest) :=
    inert_unquoted (by decide)
  suffices Inert (pattern key lit) (before.flatMap (· ++ [comma])) rest from inert_append hb this
  clear hb
  induction before
  case nil => exact inert_nil
  case cons text before hi =>
    have hi := hi fun text hm => h text (List.mem_cons_of_mem _ hm)
    have hc : Inert (pattern key lit) [comma] (before.flatMap (· ++ [comma]) ++ rest) :=
      inert_unquoted (by decide)
    have ht := h text (by simp) (comma :: (before.flatMap (· ++ [comma]) ++ rest))
      (Follows.closing ⟨comma, by simp, rfl⟩)
    simpa using inert_append ht (inert_append hc hi)

theorem inert_behind {behind : List Bytes} (h : ∀ text ∈ behind, Passes key lit text) :
    Inert (pattern key lit) (behind.flatMap ([comma] ++ ·) ++ [rbrace]) rest := by
  induction behind
  case nil => exact inert_unquoted (by decide)
  case cons text behind hi =>
    have hi := hi fun text hm => h text (List.mem_cons_of_mem _ hm)
    have hf : Follows (behind.flatMap ([comma] ++ ·) ++ [rbrace] ++ rest) := by
      cases behind <;> simp [Follows]
    have ht := inert_append (h text (by simp) _ hf.closing) hi
    have hc : Inert (pattern key lit) [comma]
        ((text ++ (behind.flatMap ([comma] ++ ·) ++ [rbrace])) ++ rest) :=
      inert_unquoted (by decide)
    simpa using inert_append hc ht

theorem inert_jsonObject {texts : List Bytes} (h : ∀ text ∈ texts, Passes key lit text) :
    Inert (pattern key lit) (jsonObject texts) rest := by
  cases texts
  case nil => exact inert_unquoted (by decide)
  case cons text behind =>
    have hb := (@inert_behind _ _ rest) fun text hm => h text (List.mem_cons_of_mem _ hm)
    have hf : Follows (behind.flatMap ([comma] ++ ·) ++ [rbrace] ++ rest) := by
      cases behind <;> simp [Follows]
    have ht := inert_append (h text (by simp) _ hf.closing) hb
    have ho {s : Bytes} : Inert (pattern key lit) [lbrace] s := inert_unquoted (by decide)
    simpa [jsonObject, joinWith_cons] using inert_append ho ht

theorem inert_jsonArray {texts : List Bytes} (h : ∀ text ∈ texts, Passes key lit text) :
    Inert (pattern key lit) (jsonArray texts) rest := by
  have hclosing (texts : List Bytes) :
      Closing (texts.flatMap ([comma] ++ ·) ++ [rbracket] ++ rest) := by
    cases texts <;> simp [Closing] <;> decide
  have hbehind (texts : List Bytes) (h : ∀ text ∈ texts, Passes key lit text) :
      Inert (pattern key lit) (texts.flatMap ([comma] ++ ·) ++ [rbracket]) rest := by
    induction texts
    case nil => exact inert_unquoted (by decide)
    case cons text texts hi =>
      have hi := hi fun text hm => h text (List.mem_cons_of_mem _ hm)
      have hc : Inert (pattern key lit) [comma]
          ((text ++ (texts.flatMap ([comma] ++ ·) ++ [rbracket])) ++ rest) :=
        inert_unquoted (by decide)
      simpa using inert_append hc (inert_append (h text (by simp) _ (hclosing texts)) hi)
  have ho {s : Bytes} : Inert (pattern key lit) [lbracket] s := inert_unquoted (by decide)
  cases texts
  case nil => exact inert_unquoted (by decide)
  case cons text texts =>
    have hb := hbehind texts fun text hm => h text (List.mem_cons_of_mem _ hm)
    have := inert_append ho (inert_append (h text (by simp) _ (hclosing texts)) hb)
    simpa [jsonArray, joinWith_cons] using this

theorem inert_strings (hk : Word key) (strings : List Bytes) :
    Inert (pattern key lit) (jsonArray (strings.map jsonString)) rest := by
  refine inert_jsonArray fun text hm => ?_
  have ⟨s, _, hs⟩ := List.mem_map.mp hm
  exact fun _ hr => hs ▸ inert_value hk (body_lenient s).quoted hr

theorem passes_strings (hk : Word key) (hp : Plain k) (hne : key ≠ k) (strings : List Bytes) :
    Passes key lit (Net.needle k ++ jsonArray (strings.map jsonString)) :=
  passes_of_value hk hp (fun he => absurd he hne) fun _ _ => inert_strings hk strings

theorem jsonObject_split (before : List Bytes) (text : Bytes) (behind : List Bytes) :
    jsonObject (before ++ text :: behind) =
      lbrace :: before.flatMap (· ++ [comma]) ++
        (text ++ (behind.flatMap ([comma] ++ ·) ++ [rbrace])) := by
  simp [jsonObject, joinWith_split]

theorem follows_members (behind : List Bytes) :
    Follows (behind.flatMap ([comma] ++ ·) ++ [rbrace]) := by
  cases behind <;> simp [Follows]

-- A search for a key ends at the member of that key, if it passes all those before.
theorem after_jsonObject {v : Bytes} {before behind : List Bytes}
    (h : ∀ text ∈ before, Passes key [] text) :
    after (Net.needle key) (jsonObject (before ++ (Net.needle key ++ v) :: behind)) =
      some (v ++ (behind.flatMap ([comma] ++ ·) ++ [rbrace])) := by
  rw [jsonObject_split, after_inert (needle_eq_pattern key ▸ inert_members h), List.append_assoc]
  exact after_append_self (by simp [Net.needle])

theorem extractJsonBoolField_of_after {text rest : Bytes} {b : Bool}
    (h : after (Net.needle key) text = some ((if b then str "true" else str "false") ++ rest)) :
    extractJsonBoolField text key = some b := by
  have ht : str "true" = [0x74, 0x72, 0x75, 0x65] := rfl
  have hf : str "false" = [0x66, 0x61, 0x6c, 0x73, 0x65] := rfl
  have hb : isBlank 0x74 = false ∧ isBlank 0x66 = false := by decide
  simp only [extractJsonBoolField, afterField, List.drop_zero, h, Option.map_some, ht, hf]
  cases b <;> simp [hb]

@[simp]
theorem extractJsonBoolField_first {b : Bool} {behind : List Bytes} :
    extractJsonBoolField (jsonObject (jsonBoolField key b :: behind)) key = some b :=
  extractJsonBoolField_of_after ((@after_jsonObject _ _ []) (by simp))

-- A search that passes all members of an object finds nothing in it.
theorem not_contains_jsonObject {texts : List Bytes} (h : ∀ text ∈ texts, Passes key lit text) :
    ¬contains (pattern key lit) (jsonObject texts) := by
  have := contains_inert ((@inert_jsonObject _ _ []) h)
  rw [List.append_nil] at this
  rw [this]
  simp [contains, breakOn, pattern]

end Scan
end Droidcli.Net
