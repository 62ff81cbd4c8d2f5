import Droidcli.Ai.Completion
import Droidcli.Ai.Theorems.Objects
import Droidcli.Net.Theorems.Extraction

namespace Droidcli.Ai

open Bytes Net Json

section Search

variable {key k v front back text rest : Bytes}

-- The key occurs in front of `v`, and nowhere before.
def At (key v text : Bytes) : Prop :=
  ∃ front back, text = front ++ (needle key ++ (v ++ back)) ∧
    Inert (needle key) front (needle key) ∧ Follows back

theorem Follows.append (h : Follows back) : Follows (back ++ rest) := by
  have ⟨c, hc, hs⟩ := h
  exact ⟨c, hc, by simp [hs]⟩

theorem needle_ne_nil : needle key ≠ [] := by
  simp [needle]

theorem breakOn_front (h : Inert (needle key) front (needle key)) :
    breakOn (needle key) (front ++ (needle key ++ rest)) = some (front, rest) := by
  have hs : breakOn (needle key) (needle key ++ rest) = some ([], rest) := by
    simp [needle, breakOn]
  simp [breakOn_inert (inert_needle h), hs]

theorem after_front (h : Inert (needle key) front (needle key)) :
    after (needle key) (front ++ (needle key ++ rest)) = some rest := by
  rw [after, breakOn_front h, Option.map_some]

theorem At.append (h : At key v text) : At key v (text ++ rest) := by
  obtain ⟨front, back, rfl, hi, hf⟩ := h
  exact ⟨front, back ++ rest, by simp, hi, Follows.append hf⟩

theorem At.prepend (h : At key v text) (hi : ∀ rest, Inert (needle key) front rest) :
    At key v (front ++ text) := by
  obtain ⟨front', back, rfl, hi', hf⟩ := h
  exact ⟨front ++ front', back, by simp, inert_append (hi _) hi', hf⟩

theorem inert_entries {before : List Entry} (hb : ∀ e ∈ before, Passes key [] e.text) :
    Inert (needle key) (lbrace :: (before.map Entry.text).flatMap (· ++ [comma])) rest := by
  rw [needle_eq_pattern]
  apply inert_members
  intro text hm
  have ⟨e, he, ht⟩ := List.mem_map.mp hm
  exact ht ▸ hb e he

theorem objectText_split (before : List Entry) (e : Entry) (behind : List Entry) :
    objectText (before ++ e :: behind) =
      (lbrace :: (before.map Entry.text).flatMap (· ++ [comma])) ++
        (e.text ++ ((behind.map Entry.text).flatMap ([comma] ++ ·) ++ [rbrace])) := by
  rw [objectText, List.map_append, List.map_cons, jsonObject_split]

theorem Arranged.split {entries others : List Entry} {e : Entry} (m : Arranged entries)
    (he : entries.Perm (e :: others)) :
    ∃ before behind, m.val = before ++ e :: behind ∧ (before ++ behind).Perm others := by
  have hp := m.property.trans he
  have ⟨before, behind, hs⟩ := List.append_of_mem (hp.mem_iff.mpr (List.mem_cons_self ..))
  exact ⟨before, behind, hs, (List.perm_middle.symm.trans (hs ▸ hp)).cons_inv⟩

variable {entries others : List Entry} {e : Entry}

-- A key is found at its own member of an object,
theorem Arranged.at_member (m : Arranged entries) (he : entries.Perm (e :: others))
    (ht : e.text = needle key ++ v) (ho : ∀ e ∈ others, Passes key [] e.text) :
    At key v (objectText m.val) := by
  have ⟨before, behind, hs, hp⟩ := m.split he
  have hb : ∀ e ∈ before, Passes key [] e.text := fun e hm => ho e (hp.mem_iff.mp (by simp [hm]))
  rw [hs, objectText_split, ht]
  refine At.prepend ?_ fun _ => inert_entries hb
  exact ⟨[], _, List.append_assoc .., inert_nil, follows_members _⟩

-- or within the value of another.
theorem Arranged.at_nested (m : Arranged entries) (he : entries.Perm (e :: others)) (hk : Word key)
    (hk' : Word k) (hne : key ≠ k) (ht : e.text = needle k ++ text) (h : At key v text)
    (ho : ∀ e ∈ others, Passes key [] e.text) : At key v (objectText m.val) := by
  have ⟨before, behind, hs, hp⟩ := m.split he
  have hb : ∀ e ∈ before, Passes key [] e.text := fun e hm => ho e (hp.mem_iff.mp (by simp [hm]))
  have hn (rest : Bytes) : Inert (needle key) (needle k) rest := by
    have hkey : Inert (needle key) (quote :: k ++ [quote]) (colon :: rest) :=
      needle_eq_pattern key ▸ inert_key hk hk'.plain hne
    have hcolon : Inert (needle key) [colon] rest :=
      needle_eq_pattern key ▸ inert_unquoted (by decide)
    simpa [needle] using inert_append hkey hcolon
  rw [hs, objectText_split, ht]
  refine At.prepend ?_ fun _ => inert_entries hb
  rw [List.append_assoc]
  exact h.append.prepend hn

end Search

-- What a reader makes of a string that the walk may have cut off.
section Strings

variable {raw : UInt8 → Prop} {c : UInt8} {p r t b y rest : Bytes}

theorem split_of_not_mem (hp : c ∉ p) (h : p ++ r = b ++ c :: y) :
    ∃ b', b = p ++ b' ∧ r = b' ++ c :: y := by
  obtain ⟨b', rfl, hr⟩ | ⟨p', rfl, hy⟩ := List.append_eq_append_iff.mp h
  case inl => exact ⟨b', rfl, hr⟩
  case inr =>
    cases p'
    case nil       => exact ⟨[], by simp, by simpa using hy.symm⟩
    case cons d p' => exact absurd (List.cons.inj hy).left (by simp_all)

theorem hex4_not_rbrace {a b c d : UInt8} {n : Nat} (h : hex4 a b c d = some n) :
    rbrace ∉ [a, b, c, d] := by
  have hn : hexDigit rbrace = none := by decide
  have hd {c : UInt8} {m : Nat} (h : hexDigit c = some m) : c ≠ rbrace := by
    rintro rfl
    simp [hn] at h
  simp only [hex4, Option.pure_def, Option.bind_eq_bind, Option.bind_eq_some_iff] at h
  obtain ⟨_, ha, _, hb, _, hc, _, hd', _⟩ := h
  simp [(hd ha).symm, (hd hb).symm, (hd hc).symm, (hd hd').symm]

theorem shortEscape_rbrace : shortEscape rbrace = none := by
  decide

theorem count_append_of_not_mem (hp : c ∉ p) : (p ++ r).count c = r.count c := by
  rw [List.count_append, List.count_eq_zero.mpr hp, Nat.zero_add]

-- A brace is never a part of an escape.
theorem Body.split_rbrace (h : Body raw r t) (he : r = b ++ rbrace :: y) :
    ∃ t₁ t₂, Body raw b t₁ ∧ Body raw y t₂ ∧ t = t₁ ++ rbrace :: t₂ := by
  induction h generalizing b
  case nil => simp at he
  case plain c r t hc hq hb h hi =>
    cases b
    case nil =>
      have ⟨hc, hr⟩ := List.cons.inj he
      exact ⟨[], t, .nil, hr ▸ h, by rw [hc]; rfl⟩
    case cons d b =>
      have ⟨hd, hr⟩ := List.cons.inj he
      have ⟨t₁, t₂, h₁, h₂, ht⟩ := hi hr
      exact ⟨c :: t₁, t₂, hd ▸ .plain hc hq hb h₁, h₂, by rw [ht]; rfl⟩
  case short e d r t hs _ hi =>
    have hp : rbrace ∉ [backslash, e] := by
      have : rbrace ≠ e := by
        rintro rfl
        simp [shortEscape_rbrace] at hs
      simpa using ⟨by decide, this⟩
    have ⟨b', hb, hr⟩ := split_of_not_mem hp he
    have ⟨t₁, t₂, h₁, h₂, ht⟩ := hi hr
    exact ⟨d :: t₁, t₂, hb ▸ .short hs h₁, h₂, by rw [ht]; rfl⟩
  case unicode x₁ x₂ x₃ x₄ n r t hx hh hl _ hi =>
    have hp : rbrace ∉ [backslash, 0x75] ++ [x₁, x₂, x₃, x₄] :=
      List.not_mem_append (by decide) (hex4_not_rbrace hx)
    have ⟨b', hb, hr⟩ := split_of_not_mem hp he
    have ⟨t₁, t₂, h₁, h₂, ht⟩ := hi hr
    exact ⟨utf8 n ++ t₁, t₂, hb ▸ .unicode hx hh hl h₁, h₂, by rw [ht]; simp⟩
  case pair x₁ x₂ x₃ x₄ y₁ y₂ y₃ y₄ m n r t hx hh hy hl _ hi =>
    have hp : rbrace ∉ [backslash, 0x75] ++ [x₁, x₂, x₃, x₄] ++
        ([backslash, 0x75] ++ [y₁, y₂, y₃, y₄]) :=
      List.not_mem_append (List.not_mem_append (by decide) (hex4_not_rbrace hx))
        (List.not_mem_append (by decide) (hex4_not_rbrace hy))
    have ⟨b', hb, hr⟩ := split_of_not_mem hp he
    have ⟨t₁, t₂, h₁, h₂, ht⟩ := hi hr
    have hb : Body raw b (utf8 (surrogatePair m n) ++ t₁) := by
      rw [hb]
      exact .pair hx hh hy hl h₁
    exact ⟨_, t₂, hb, h₂, by rw [ht]; simp⟩

-- No brace comes of reading an escape.
theorem Body.count_le (h : Body raw r t) :
    (readJsonString (r ++ quote :: rest)).count rbrace ≤ t.count rbrace := by
  induction h
  case nil => simp [readJsonString_quote]
  case plain hq hb _ hi =>
    rw [List.cons_append, readJsonString_cons hb hq, List.count_cons, List.count_cons]
    exact Nat.add_le_add_right hi _
  case short e d r t hs _ hi =>
    have he : unescapeJsonChar e ≠ rbrace := by
      rw [unescapeJsonChar]
      split_ifs
      case neg =>
        rintro rfl
        simp [shortEscape_rbrace] at hs
      all_goals decide
    rw [List.cons_append, List.cons_append, readJsonString_escaped, List.count_cons_of_ne he]
    exact hi.trans List.count_le_count_cons
  case unicode x₁ x₂ x₃ x₄ n r t hx _ _ _ hi =>
    have hp : rbrace ∉ [0x75] ++ [x₁, x₂, x₃, x₄] :=
      List.not_mem_append (by decide) (hex4_not_rbrace hx)
    simp only [List.cons_append, readJsonString_hex4 hx]
    refine (count_append_of_not_mem hp).le.trans (hi.trans ?_)
    rw [List.count_append]
    exact Nat.le_add_left ..
  case pair x₁ x₂ x₃ x₄ y₁ y₂ y₃ y₄ m n r t hx _ hy _ _ hi =>
    have hp : rbrace ∉ [0x75] ++ [x₁, x₂, x₃, x₄] ++ ([0x75] ++ [y₁, y₂, y₃, y₄]) :=
      List.not_mem_append (List.not_mem_append (by decide) (hex4_not_rbrace hx))
        (List.not_mem_append (by decide) (hex4_not_rbrace hy))
    simp only [List.cons_append, readJsonString_hex4 hx, readJsonString_hex4 hy]
    refine (count_append_of_not_mem hp).le.trans (hi.trans ?_)
    rw [List.count_append]
    exact Nat.le_add_left ..

theorem readJsonString_append (hq : Quoted b) :
    readJsonString (b ++ rest) = readJsonString (b ++ [quote]) ++ readJsonString rest := by
  induction hq
  case nil => rfl
  case plain hq hb _ hi =>
    rw [List.cons_append, readJsonString_cons hb hq, hi, List.cons_append,
      readJsonString_cons hb hq, List.cons_append]
  case escaped hi =>
    rw [List.cons_append, List.cons_append, readJsonString_escaped, hi, List.cons_append,
      List.cons_append, readJsonString_escaped, List.cons_append]

-- A string that is cut off at a brace is read correctly only if nothing is lost.
theorem readJsonString_cut_iff (h : Body raw (b ++ rbrace :: y) t) :
    readJsonString (b ++ [rbrace]) = t ↔ y = [] ∧ Familiar (b ++ rbrace :: y) := by
  have ⟨t₁, t₂, h₁, h₂, ht⟩ := Body.split_rbrace h rfl
  have hcut : readJsonString (b ++ [rbrace]) = readJsonString (b ++ [quote]) ++ [rbrace] :=
    readJsonString_append h₁.quoted
  have hfull (rest : Bytes) : readJsonString (b ++ rbrace :: quote :: rest) =
      readJsonString (b ++ [quote]) ++ [rbrace] := by
    rw [readJsonString_append h₁.quoted, readJsonString_cons (by decide) (by decide),
      readJsonString_quote]
  suffices hy : readJsonString (b ++ [rbrace]) = t → y = [] by
    constructor
    case mp =>
      intro hr
      have hy := hy hr
      subst hy
      refine ⟨rfl, ((@readJsonString_eq_iff _ []) h).mp ?_⟩
      rw [← hr, hcut, List.append_assoc]
      exact hfull []
    case mpr =>
      rintro ⟨rfl, hf⟩
      rw [hcut, ← hfull [], ← ((@readJsonString_eq_iff _ []) h).mpr hf, List.append_assoc]
      rfl
  intro hr
  have hcount : (readJsonString (b ++ [quote])).count rbrace ≤ t₁.count rbrace :=
    Body.count_le h₁
  have hc := congrArg (List.count rbrace) (hcut.symm.trans (hr.trans ht))
  simp only [List.count_append, List.count_cons_self, List.count_nil] at hc
  have hn : rbrace ∉ t₂ := List.count_eq_zero.mp (by omega)
  have hl := congrArg List.getLast? (hcut.symm.trans (hr.trans ht))
  cases ht₂ : t₂.getLast?
  case none => exact (body_nil_iff h₂).mpr (List.getLast?_eq_none_iff.mp ht₂)
  case some c =>
    have hm := List.mem_of_getLast? ht₂
    simp [List.getLast?_append, List.getLast?_cons, ht₂] at hl
    exact absurd (hl ▸ hm) hn

end Strings

-- A string of an object that the walk has cut out of its text.
section Walked

variable {depth depth' : Nat} {key front object rest r t : Bytes} {s : Spelling}

theorem Word.noBraces (hk : Word key) : NoBraces key := by
  constructor <;> intro hm <;> exact absurd (hk.right _ hm) (by decide)

theorem openBraces_needle (hk : Word key) :
    openBraces depth (needle key ++ t) = openBraces depth t := by
  have ⟨hl, hr⟩ := Word.noBraces hk
  exact openBraces_noBraces_append
    ⟨by simp [needle, hl]; decide, by simp [needle, hr]; decide⟩

theorem openBraces_quote : openBraces depth (quote :: t) = openBraces depth t :=
  openBraces_plain (by decide) (by decide)

theorem openBraces_append_left (h : openBraces depth (r ++ t) = some depth') :
    (openBraces depth r).isSome := by
  rw [openBraces_append] at h
  cases hr : openBraces depth r
  case none   => simp [hr] at h
  case some d => rfl

-- The walk is still inside the object at the last character of the string behind a key.
def reaches (object key : Bytes) (s : Spelling) : Bool :=
  (breakOn (needle key) object).any fun (front, _) =>
    (openBraces 0 (front ++ (needle key ++ quote :: s.raw.dropLast))).isSome

-- The string can be read out of the object as the walk leaves it.
def Shown (object key : Bytes) (s : Spelling) : Prop :=
  s.text = [] ∨ reaches object key s ∧ Familiar s.raw

theorem extract_front (hi : Inert (needle key) front (needle key)) :
    extractJsonStringField (front ++ (needle key ++ quote :: r)) key = readJsonString r := by
  have hb : isBlank quote = false := by decide
  simp [extractJsonStringField, extractJsonStringFieldFrom, afterField, after_front hi, hb]

theorem extract_absent (h : ¬needle key <:+: t) : extractJsonStringField t key = [] := by
  simp [extractJsonStringField, extractJsonStringFieldFrom, afterField, after_eq_none_iff.mpr h]

theorem raw_eq_nil_iff : s.raw = [] ↔ s.text = [] :=
  body_nil_iff s.body

-- The walk ends in front of the key, which is not in the object then.
theorem walked_before (hi : Inert (needle key) front (needle key))
    (h : openBraces depth front = none) :
    ¬needle key <:+: (walkObject depth (front ++ t)).1 := by
  have ⟨before, behind, he, hb⟩ := exists_closing h
  have hw : (walkObject depth (front ++ t)).1 = before ++ [rbrace] := by
    rw [he, List.append_assoc, List.cons_append, walkObject_closing hb]
  have he : front = (before ++ [rbrace]) ++ behind := by simp [he]
  rw [hw]
  exact not_infix_of_inert (he ▸ hi) needle_ne_nil

-- It ends behind the string: all of it is read.
theorem extract_behind (hk : Word key) (hi : Inert (needle key) front (needle key))
    (hf : openBraces 0 front = some depth) (hr : openBraces depth s.raw = some depth') :
    extractJsonStringField (walkObject 0 (front ++ (needle key ++ (s.json ++ rest)))).1 key =
      s.text ↔ Familiar s.raw := by
  have ho : openBraces 0 (front ++ (needle key ++ s.json)) = some depth' := by
    rw [openBraces_append, hf, Option.bind_some, openBraces_needle hk, Spelling.json,
      List.cons_append, openBraces_quote, openBraces_append_noBraces (by decide), hr]
  have hw := congrArg Prod.fst (walkObject_through (t := rest) ho)
  have hw : (walkObject 0 (front ++ (needle key ++ (s.json ++ rest)))).1 =
      front ++ (needle key ++ quote :: (s.raw ++ quote :: (walkObject depth' rest).1)) := by
    simpa [Spelling.json] using hw
  rw [hw, extract_front hi]
  exact readJsonString_eq_iff s.body

-- It ends within the string: that may only be its last character.
theorem extract_within (hk : Word key) (hi : Inert (needle key) front (needle key))
    (hf : openBraces 0 front = some depth) (hr : openBraces depth s.raw = none) :
    extractJsonStringField (walkObject 0 (front ++ (needle key ++ (s.json ++ rest)))).1 key =
      s.text ↔ (openBraces depth s.raw.dropLast).isSome ∧ Familiar s.raw := by
  have ⟨before, behind, he, hb⟩ := exists_closing hr
  have ho : openBraces 0 (front ++ (needle key ++ quote :: before)) = some 1 := by
    rw [openBraces_append, hf, Option.bind_some, openBraces_needle hk, openBraces_quote, hb]
  have hw := congrArg Prod.fst (walkObject_closing (t := behind ++ quote :: rest) ho)
  have hw : (walkObject 0 (front ++ (needle key ++ (s.json ++ rest)))).1 =
      front ++ (needle key ++ quote :: (before ++ [rbrace])) := by
    simpa [Spelling.json, he] using hw
  rw [hw, extract_front hi, readJsonString_cut_iff (he ▸ s.body), ← he]
  refine and_congr_left fun _ => ?_
  rw [he]
  constructor
  case mp =>
    rintro rfl
    rw [List.dropLast_concat, hb]
    rfl
  case mpr =>
    intro h
    by_contra hn
    rw [List.dropLast_append_cons, List.dropLast_cons_of_ne_nil hn, openBraces_closing hb] at h
    simp at h

-- A string is read correctly out of an object, as the walk leaves it, exactly when it is shown.
theorem extract_walked_iff (hk : Word key) (h : At key s.json object) :
    extractJsonStringField (walkObject 0 (object ++ rest)).1 key = s.text ↔
      Shown object key s := by
  obtain ⟨front, back, rfl, hi, _⟩ := h
  rw [Shown, reaches, breakOn_front hi]
  simp only [Option.any_some, List.append_assoc]
  cases hf : openBraces 0 front
  case none =>
    rw [extract_absent (walked_before hi hf), openBraces_append, hf]
    simp [eq_comm]
  case some depth =>
    rw [openBraces_append, hf, Option.bind_some, openBraces_needle hk, openBraces_quote]
    cases hr : openBraces depth s.raw
    case some depth' =>
      have hd : (openBraces depth s.raw.dropLast).isSome := by
        cases hn : s.raw.eq_nil_or_concat
        case inl h => simp [h, openBraces]
        case inr h =>
          obtain ⟨r, c, h⟩ := h
          rw [h] at hr ⊢
          simpa using openBraces_append_left (List.concat_eq_append ▸ hr)
      rw [extract_behind hk hi hf hr, hd]
      constructor
      case mp  => exact fun h => .inr ⟨rfl, h⟩
      case mpr =>
        rintro (h | ⟨_, h⟩)
        · exact raw_eq_nil_iff.mpr h ▸ .nil
        · exact h
    case none =>
      rw [extract_within hk hi hf hr]
      refine (or_iff_right fun h => ?_).symm
      rw [raw_eq_nil_iff.mpr h] at hr
      simp [openBraces] at hr

end Walked

-- Where the parts of a completion are found.
section Passing

variable {key k : Bytes}

theorem word_of_mem (hk : key ∈ callKeys) : Word key := by
  revert key
  decide

theorem callKeys_of_mem (hk : key ∈ completionKeys) : key ∈ callKeys :=
  List.mem_append_left _ hk

theorem ne_of_mem (hk : key ∈ completionKeys) : key ≠ str "message" ∧ key ≠ str "usage" := by
  revert key
  decide

theorem Entry.string_passes {s : Spelling} {hk : Word k} (hw : Word key) (hne : key ≠ k) :
    Passes key [] (Entry.string k s hk).text :=
  passes_of_value hw hk.plain (fun he => absurd he hne) fun _ hr => inert_value hw s.body.quoted hr

theorem Entry.int_passes {n : Int} {hk : Word k} (hw : Word key) (hne : key ≠ k) :
    Passes key [] (Entry.int k n hk).text :=
  passes_intField hw hk.plain hne n

theorem Entry.object_passes {members : List Entry} {hk : Word k} (hw : Word key) (hne : key ≠ k)
    (h : ∀ e ∈ members, Passes key [] e.text) : Passes key [] (Entry.object k members hk).text := by
  refine passes_of_value hw hk.plain (fun he => absurd he hne) fun _ _ => inert_jsonObject ?_
  simpa using h

theorem Entry.array_passes {objects : List (List Entry)} {hk : Word k} (hw : Word key)
    (hne : key ≠ k) (h : ∀ members ∈ objects, ∀ e ∈ members, Passes key [] e.text) :
    Passes key [] (Entry.array k objects hk).text := by
  refine passes_of_value hw hk.plain (fun he => absurd he hne) fun _ _ => inert_jsonArray ?_
  intro text hm
  have ⟨members, hm, ht⟩ := List.mem_map.mp hm
  refine fun _ _ => ht ▸ inert_jsonObject ?_
  simpa using h members hm

theorem Extra.passes_of_mem {keys : List Bytes} {extras : List (Extra keys)} (hk : key ∈ keys) :
    ∀ e ∈ extras.map Extra.toEntry, Passes key [] e.text := by
  intro e he
  have ⟨extra, _, he⟩ := List.mem_map.mp he
  exact he ▸ extra.passes key hk

-- The keys of a completion, except for that under which the names of its calls stand, are not
-- those of a call.
theorem ToolCallObject.passes {object : ToolCallObject} (hk : key ∈ completionKeys)
    (hn : key ≠ str "name") : ∀ e ∈ object.members.val, Passes key [] e.text := by
  have hw := word_of_mem (callKeys_of_mem hk)
  have ⟨hid, hf, ha⟩ :
      key ≠ str "id" ∧ key ≠ str "function" ∧ key ≠ str "arguments" := by
    revert key
    decide
  intro e he
  obtain rfl | rfl | he := by simpa using object.members.property.mem_iff.mp he
  · exact Entry.string_passes hw hid
  · refine Entry.object_passes hw hf fun e he => ?_
    obtain rfl | rfl := by simpa using object.functionMembers.property.mem_iff.mp he
    · exact Entry.string_passes hw hn
    · exact Entry.string_passes hw ha
  · exact Extra.passes_of_mem (callKeys_of_mem hk) e (by simpa using he)

end Passing

namespace Completion

variable {c : Completion} {key : Bytes}

section Parts

theorem reasoning_passes (hw : Word key) (hr : ∀ k s, c.reasoning = some (k, s) → key ≠ k.key) :
    ∀ e ∈ c.reasoning.toList.map (fun (k, s) => k.entry s), Passes key [] e.text := by
  intro e he
  obtain ⟨⟨k, s⟩, hm, rfl⟩ := List.mem_map.mp he
  exact Entry.string_passes hw (hr k s (Option.mem_toList.mp hm))

theorem toolCalls_passes (hk : key ∈ completionKeys) (hn : key ≠ str "name")
    (ht : c.toolCalls.isSome → key ≠ str "tool_calls") :
    ∀ e ∈ c.toolCalls.toList.map toolCallsEntry, Passes key [] e.text := by
  intro e he
  obtain ⟨calls, hm, rfl⟩ := List.mem_map.mp he
  have ht := ht (Option.isSome_iff_exists.mpr ⟨calls, Option.mem_toList.mp hm⟩)
  refine Entry.array_passes (word_of_mem (callKeys_of_mem hk)) ht fun members hm => ?_
  obtain ⟨object, _, rfl⟩ := List.mem_map.mp hm
  exact ToolCallObject.passes hk hn

theorem usage_passes (hk : key ∈ completionKeys)
    (hp : c.usage.isSome → key ≠ str "prompt_tokens" ∧ key ≠ str "completion_tokens") :
    ∀ e ∈ c.usage.toList.map Usage.entry, Passes key [] e.text := by
  intro e he
  have hw := word_of_mem (callKeys_of_mem hk)
  obtain ⟨usage, hm, rfl⟩ := List.mem_map.mp he
  have ⟨_, hu⟩ := ne_of_mem hk
  have ⟨hp, hc⟩ := hp (Option.isSome_iff_exists.mpr ⟨usage, Option.mem_toList.mp hm⟩)
  refine Entry.object_passes hw hu fun e he => ?_
  obtain rfl | rfl | he := by simpa using usage.members.property.mem_iff.mp he
  · exact Entry.int_passes hw hp
  · exact Entry.int_passes hw hc
  · exact Extra.passes_of_mem hk e (by simpa using he)

theorem message_passes (hk : key ∈ completionKeys) (hn : key ∉ [str "name", str "content"])
    (hr : ∀ k s, c.reasoning = some (k, s) → key ≠ k.key)
    (ht : c.toolCalls.isSome → key ≠ str "tool_calls") :
    ∀ e ∈ c.messageMembers.val, Passes key [] e.text := by
  simp only [List.mem_cons, List.not_mem_nil, or_false, not_or] at hn
  have ⟨hname, hcontent⟩ := hn
  have hw := word_of_mem (callKeys_of_mem hk)
  intro e he
  have he := c.messageMembers.property.mem_iff.mp he
  simp only [List.mem_append, List.mem_cons] at he
  obtain rfl | he | he | he := he
  · exact Entry.string_passes hw hcontent
  · exact reasoning_passes hw hr e he
  · exact toolCalls_passes hk hname ht e he
  · exact Extra.passes_of_mem hk e he

theorem choice_passes (hk : key ∈ completionKeys)
    (hn : key ∉ [str "name", str "content", str "finish_reason"])
    (hr : ∀ k s, c.reasoning = some (k, s) → key ≠ k.key)
    (ht : c.toolCalls.isSome → key ≠ str "tool_calls") :
    ∀ e ∈ c.choiceMembers.val, Passes key [] e.text := by
  simp only [List.mem_cons, List.not_mem_nil, or_false, not_or] at hn
  have ⟨hname, hcontent, hfinish⟩ := hn
  have hw := word_of_mem (callKeys_of_mem hk)
  have ⟨hm, _⟩ := ne_of_mem hk
  intro e he
  obtain rfl | rfl | he := by simpa using c.choiceMembers.property.mem_iff.mp he
  case inr.inl => exact Entry.string_passes hw hfinish
  case inr.inr => exact Extra.passes_of_mem hk e (by simpa using he)
  case inl => exact Entry.object_passes hw hm (message_passes hk (by simp [*]) hr ht)

end Parts

section Places

theorem at_message {v : Bytes} (hk : key ∈ completionKeys) (hn : key ≠ str "finish_reason")
    (h : At key v (objectText c.messageMembers.val)) : At key v c.choice := by
  have hw := word_of_mem (callKeys_of_mem hk)
  refine c.choiceMembers.at_nested (.refl _) hw (k := "message") (by decide) (ne_of_mem hk).1 rfl
    h fun e he => ?_
  obtain rfl | he := List.mem_cons.mp he
  · exact Entry.string_passes hw hn
  · exact Extra.passes_of_mem hk e he

theorem at_content : At "content" c.content.json c.choice := by
  refine at_message (by decide) (by decide) (c.messageMembers.at_member (.refl _) rfl fun e he => ?_)
  simp only [List.mem_append] at he
  obtain he | he | he := he
  · exact reasoning_passes (by decide) (fun k _ _ => by cases k <;> decide) e he
  · exact toolCalls_passes (by decide) (by decide) (fun _ => by decide) e he
  · exact Extra.passes_of_mem (by decide) e he

theorem at_reasoning {k : ReasoningKey} {s : Spelling} (h : c.reasoning = some (k, s)) :
    At k.key s.json c.choice := by
  have hk : k.key ∈ completionKeys := by cases k <;> decide
  have hn : k.key ∉ [str "finish_reason", str "content", str "tool_calls", str "name"] := by
    cases k <;> decide
  simp only [List.mem_cons, List.not_mem_nil, or_false, not_or] at hn
  have ⟨hfinish, hcontent, hcalls, hname⟩ := hn
  have hp : (Entry.string "content" c.content :: (c.reasoning.toList.map (fun (key, s) => key.entry s) ++
      (c.toolCalls.toList.map toolCallsEntry ++ c.messageExtras.map Extra.toEntry))).Perm
      (k.entry s :: Entry.string "content" c.content ::
        (c.toolCalls.toList.map toolCallsEntry ++ c.messageExtras.map Extra.toEntry)) := by
    rw [h]
    exact .swap ..
  refine at_message hk hfinish (c.messageMembers.at_member hp rfl fun e he => ?_)
  simp only [List.mem_cons, List.mem_append] at he
  obtain rfl | he | he := he
  · exact Entry.string_passes k.word hcontent
  · exact toolCalls_passes hk hname (fun _ => hcalls) e he
  · exact Extra.passes_of_mem hk e he

theorem at_finishReason : At "finish_reason" c.finishReason.json c.choice := by
  refine c.choiceMembers.at_member (.swap ..) rfl fun e he => ?_
  obtain rfl | he := List.mem_cons.mp he
  case inr => exact Extra.passes_of_mem (by decide) e he
  refine Entry.object_passes (by decide) (by decide) ?_
  exact message_passes (by decide) (by decide) (fun k _ _ => by cases k <;> decide)
    fun _ => by decide

theorem body_passes (hk : key ∈ completionKeys)
    (hn : key ∉ [str "choices", str "name", str "content", str "finish_reason"])
    (hr : ∀ k s, c.reasoning = some (k, s) → key ≠ k.key)
    (ht : c.toolCalls.isSome → key ≠ str "tool_calls")
    (hu : c.usage.isSome → key ≠ str "prompt_tokens" ∧ key ≠ str "completion_tokens") :
    ∀ e ∈ c.members.val, Passes key [] e.text := by
  have hc : key ≠ str "choices" := fun h => hn (by simp [h])
  have hn := fun h => hn (List.mem_cons_of_mem _ h)
  intro e he
  have he := c.members.property.mem_iff.mp he
  simp only [List.mem_append, List.mem_cons] at he
  obtain rfl | he | he := he
  · refine Entry.array_passes (word_of_mem (callKeys_of_mem hk)) hc fun members hm => ?_
    obtain rfl := List.mem_singleton.mp hm
    exact choice_passes hk hn hr ht
  · exact usage_passes hk hu e he
  · exact Extra.passes_of_mem hk e he

theorem absent (hp : ∀ e ∈ c.members.val, Passes key [] e.text) : ¬needle key <:+: c.body := by
  rw [needle_eq_pattern, ← contains_iff]
  exact not_contains_jsonObject (by simpa using hp)

-- The first choice as the walk leaves it.
theorem firstChoice_body (c : Completion) : ∃ tail,
    firstChoice c.body = some (walkObject 0 (c.choice ++ rbracket :: tail)).1 ∧
      c.choice ++ rbracket :: tail <:+: c.body ∧
      ∀ rest, Inert (needle "name") (rbracket :: tail) rest := by
  obtain ⟨before, behind, hs, hp⟩ := c.members.split (.refl _)
  have ho {key : Bytes} (hk : key ∈ completionKeys)
      (hu : key ≠ str "prompt_tokens" ∧ key ≠ str "completion_tokens") :
      ∀ e ∈ before ++ behind, Passes key [] e.text := by
    intro e he
    have he := hp.mem_iff.mp he
    simp only [List.mem_append] at he
    obtain he | he := he
    · exact usage_passes hk (fun _ => hu) e he
    · exact Extra.passes_of_mem hk e he
  let front := lbrace :: (before.map Entry.text).flatMap (· ++ [comma])
  let tail := (behind.map Entry.text).flatMap ([comma] ++ ·) ++ [rbrace]
  have hf : Inert (needle "choices") front (needle "choices") :=
    inert_entries fun e he => ho (by decide) (by decide) e (List.mem_append_left _ he)
  have hbody : c.body =
      front ++ (needle "choices" ++ lbracket :: (c.choice ++ rbracket :: tail)) := by
    rw [body, hs, objectText_split]
    simp [front, tail, Entry.array, jsonArray, joinWith, choice]
  have hafter : afterArrayKey c.body "choices" = some (c.choice ++ rbracket :: tail) := by
    rw [afterArrayKey, hbody, breakOn_front hf, Option.bind_some]
    exact after_append_self (by simp)
  have hhead : (c.choice ++ rbracket :: tail).head? = some lbrace := rfl
  refine ⟨tail, ?_, ⟨front ++ (needle "choices" ++ [lbracket]), [], by simp [hbody]⟩, ?_⟩
  case refine_1 =>
    rw [firstChoice, hafter, Option.bind_some, extractJsonObjectArray_object hhead,
      List.head?_cons]
  case refine_2 =>
    intro rest
    rw [needle_eq_pattern]
    have hc : Inert (pattern "name" []) [rbracket] (tail ++ rest) := inert_unquoted (by decide)
    refine inert_append hc (inert_behind fun text hm => ?_)
    obtain ⟨e, he, ht⟩ := List.mem_map.mp hm
    exact ht ▸ ho (by decide) (by decide) e (List.mem_append_right _ he)

end Places

section Texts

variable {tail : Bytes}

-- The texts of a completion that its reader sees in full, and spelled as it knows them.
structure TextsShown (c : Completion) : Prop where
  content : Shown c.choice "content" c.content
  finishReason : Shown c.choice "finish_reason" c.finishReason
  reasoning : ∀ k s, c.reasoning = some (k, s) → Shown c.choice k.key s

theorem walked_infix (h : c.choice ++ rbracket :: tail <:+: c.body) :
    (walkObject 0 (c.choice ++ rbracket :: tail)).1 <:+: c.body :=
  List.IsInfix.trans ⟨[], _, by rw [List.nil_append]; exact walkObject_append ..⟩ h

theorem extract_other_reasoning {k : ReasoningKey} (h : c.choice ++ rbracket :: tail <:+: c.body)
    (hk : ∀ k' s, c.reasoning = some (k', s) → k.key ≠ k'.key) :
    extractJsonStringField (walkObject 0 (c.choice ++ rbracket :: tail)).1 k.key = [] := by
  have hp : ∀ e ∈ c.members.val, Passes k.key [] e.text :=
    body_passes (by cases k <;> decide) (by cases k <;> decide) hk
      (fun _ => by cases k <;> decide) fun _ => by cases k <;> decide
  have hseen := walked_infix h
  exact extract_absent fun hn => absent hp (hn.trans hseen)

theorem extractReasoning_iff (h : c.choice ++ rbracket :: tail <:+: c.body) :
    extractReasoningField (walkObject 0 (c.choice ++ rbracket :: tail)).1 = c.reasoningText ↔
      ∀ k s, c.reasoning = some (k, s) → Shown c.choice k.key s := by
  have hc := @extract_other_reasoning c tail .reasoningContent h
  have hr := @extract_other_reasoning c tail .reasoning h
  simp only [ReasoningKey.key] at hc hr
  rw [extractReasoningField, reasoningText]
  cases hs : c.reasoning
  case none =>
    rw [hs] at hc hr
    simp [hc, hr]
  case some r =>
    obtain ⟨k, s⟩ := r
    have hw := (@extract_walked_iff _ _ (rbracket :: tail)) k.word (at_reasoning hs)
    have hall : (∀ k' s', some (k, s) = some (k', s') → Shown c.choice k'.key s') ↔
        Shown c.choice k.key s :=
      ⟨fun h => h k s rfl, by rintro h _ _ ⟨⟩; exact h⟩
    rw [hall, ← hw, Option.elim_some]
    cases k
    case reasoningContent =>
      have hr : extractJsonStringField (walkObject 0 (c.choice ++ rbracket :: tail)).1
          (str "reasoning") = [] := hr (by simp [hs]; decide)
      rw [hr]
      split_ifs with hn
      · rw [ReasoningKey.key, hn]
      · rfl
    case reasoning =>
      have hc : extractJsonStringField (walkObject 0 (c.choice ++ rbracket :: tail)).1
          (str "reasoning_content") = [] := hc (by simp [hs]; decide)
      rw [if_pos hc]
      rfl

end Texts

section Tokens

theorem int_of_at {n : Int} {t : Bytes} (hn : (Field.int n).InRange)
    (h : At key (decimalInt n) t) : extractJsonIntField t key = .value n := by
  obtain ⟨front, back, rfl, hi, hf⟩ := h
  refine int_readFrom hn hf ?_
  rw [afterField, List.drop_zero, after_front hi, Option.map_some]
  exact congrArg some (dropWhile_valueText (.int n) back)

theorem int_absent {t : Bytes} (h : ¬needle key <:+: t) : extractJsonIntField t key = .absent := by
  simp [extractJsonIntField, afterField, after_eq_none_iff.mpr h]

theorem at_usage {usage : Usage} {v : Bytes} (hk : key ∈ completionKeys)
    (hn : key ∉ [str "choices", str "name", str "content", str "finish_reason"])
    (hr : ∀ k s, c.reasoning = some (k, s) → key ≠ k.key) (ht : key ≠ str "tool_calls")
    (hu : c.usage = some usage)
    (h : At key v (objectText usage.members.val)) : At key v c.body := by
  have hc : key ≠ str "choices" := fun h => hn (by simp [h])
  have hn := fun h => hn (List.mem_cons_of_mem _ h)
  have hw := word_of_mem (callKeys_of_mem hk)
  have hp : (Entry.array "choices" [c.choiceMembers.val] ::
      (c.usage.toList.map Usage.entry ++ c.extras.map Extra.toEntry)).Perm
      (usage.entry :: Entry.array "choices" [c.choiceMembers.val] ::
        c.extras.map Extra.toEntry) := by
    rw [hu]
    exact .swap ..
  refine c.members.at_nested hp hw (k := "usage") (by decide) (ne_of_mem hk).2 rfl h fun e he => ?_
  obtain rfl | he := List.mem_cons.mp he
  case inr => exact Extra.passes_of_mem hk e he
  refine Entry.array_passes hw hc fun members hm => ?_
  obtain rfl := List.mem_singleton.mp hm
  exact choice_passes hk hn hr fun _ => ht

-- The token counts fit, so that reading them throws nothing.
theorem tokens_read (hk : key ∈ [str "prompt_tokens", str "completion_tokens"]) :
    ∃ n, (extractJsonIntField c.body key).getD 0 = some n := by
  have hm : key ∈ completionKeys := by
    revert key
    decide
  have hn : key ∉ [str "choices", str "name", str "content", str "finish_reason"] := by
    revert key
    decide
  have ht : key ≠ str "tool_calls" := by
    revert key
    decide
  have hr (k : ReasoningKey) : key ≠ k.key := by
    revert key
    cases k <;> decide
  cases hu : c.usage
  case none =>
    have hp : ∀ e ∈ c.members.val, Passes key [] e.text :=
      body_passes hm hn (fun k _ _ => hr k) (fun _ => ht) (by simp [hu])
    exact ⟨0, by rw [int_absent (absent hp)]; rfl⟩
  case some usage =>
    obtain rfl | rfl := by simpa using hk
    case inl =>
      have ha : At "prompt_tokens" (decimalInt usage.promptTokens) (objectText usage.members.val) := by
        refine usage.members.at_member (.refl _) rfl fun e he => ?_
        obtain rfl | he := List.mem_cons.mp he
        · exact Entry.int_passes (by decide) (by decide)
        · exact Extra.passes_of_mem hm e he
      have ha := at_usage hm hn (fun k _ _ => hr k) ht hu ha
      exact ⟨usage.promptTokens, by rw [int_of_at usage.inRange.1 ha]; rfl⟩
    case inr =>
      have ha : At "completion_tokens" (decimalInt usage.completionTokens)
          (objectText usage.members.val) := by
        refine usage.members.at_member (.swap ..) rfl fun e he => ?_
        obtain rfl | he := List.mem_cons.mp he
        · exact Entry.int_passes (by decide) (by decide)
        · exact Extra.passes_of_mem hm e he
      have ha := at_usage hm hn (fun k _ _ => hr k) ht hu ha
      exact ⟨usage.completionTokens, by rw [int_of_at usage.inRange.2 ha]; rfl⟩

end Tokens

end Completion
end Droidcli.Ai
