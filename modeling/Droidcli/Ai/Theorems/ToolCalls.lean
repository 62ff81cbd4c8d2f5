import Droidcli.Ai.Theorems.Decoding

namespace Droidcli.Ai

open Bytes Net Json

section Object

variable {key : Bytes} {s : Spelling} {r t rest : Bytes} {object : ToolCallObject}

theorem extract_at (h : At key s.json t) :
    ∃ rest, extractJsonStringField t key = readJsonString (s.raw ++ quote :: rest) := by
  obtain ⟨front, back, rfl, hi, _⟩ := h
  exact ⟨back, by rw [← extract_front hi]; simp [Spelling.json]⟩

theorem extractFrom_eq (t key : Bytes) (n : Nat) :
    extractJsonStringFieldFrom t key n = extractJsonStringField (t.drop n) key := by
  simp [extractJsonStringField, extractJsonStringFieldFrom, afterField]

theorem read_eq_nil_iff : readJsonString (s.raw ++ quote :: rest) = [] ↔ s.text = [] := by
  constructor
  case mp =>
    intro h
    have := (@Body.length_le _ rest) s.body
    rw [h] at this
    exact List.length_eq_zero_iff.mp (Nat.le_zero.mp this)
  case mpr =>
    intro h
    rw [raw_eq_nil_iff.mpr h, List.nil_append, readJsonString_quote]

theorem inert_other_needle {k : Bytes} (hk : Word key) (hk' : Word k) (hne : key ≠ k) :
    Inert (needle key) (needle k) rest := by
  have hkey : Inert (needle key) (quote :: k ++ [quote]) (colon :: rest) :=
    needle_eq_pattern key ▸ inert_key hk hk'.plain hne
  have hcolon : Inert (needle key) [colon] rest :=
    needle_eq_pattern key ▸ inert_unquoted (by decide)
  simpa [needle] using inert_append hkey hcolon

-- A tool call that is read out of its object, whatever follows the object's last brace.
structure ReadOf (object : ToolCallObject) (call : ToolCall) : Prop where
  named : call.name = [] ↔ object.name.text = []
  exact : call = object.call ↔
    Familiar object.id.raw ∧ Familiar object.name.raw ∧ Familiar object.arguments.raw

theorem at_id : At "id" object.id.json (objectText object.members.val) := by
  refine object.members.at_member (.refl _) rfl fun e he => ?_
  obtain rfl | he := List.mem_cons.mp he
  case inr => exact Extra.passes_of_mem (by decide) e he
  refine Entry.object_passes (by decide) (by decide) fun e he => ?_
  obtain rfl | rfl := by simpa using object.functionMembers.property.mem_iff.mp he
  · exact Entry.string_passes (by decide) (by decide)
  · exact Entry.string_passes (by decide) (by decide)

theorem at_function :
    At "function" (objectText object.functionMembers.val) (objectText object.members.val) := by
  refine object.members.at_member (.swap ..) rfl fun e he => ?_
  obtain rfl | he := List.mem_cons.mp he
  · exact Entry.string_passes (by decide) (by decide)
  · exact Extra.passes_of_mem (by decide) e he

theorem at_name : At "name" object.name.json (objectText object.functionMembers.val) := by
  refine object.functionMembers.at_member (.refl _) rfl fun e he => ?_
  obtain rfl := by simpa using he
  exact Entry.string_passes (by decide) (by decide)

theorem at_arguments :
    At "arguments" object.arguments.json (objectText object.functionMembers.val) := by
  refine object.functionMembers.at_member (.swap ..) rfl fun e he => ?_
  obtain rfl := by simpa using he
  exact Entry.string_passes (by decide) (by decide)

theorem readOf_parseToolCall (object : ToolCallObject) (rest : Bytes) :
    ReadOf object (parseToolCall (objectText object.members.val ++ rest)) := by
  have ⟨r₁, hid⟩ := extract_at ((@At.append _ _ _ rest) ((@at_id object)))
  obtain ⟨front, back, ht, hi, _⟩ := (@At.append _ _ _ rest) ((@at_function object))
  have hf {key : Bytes} {s : Spelling} (hk : Word key) (hne : key ≠ str "function")
      (h : At key s.json (objectText object.functionMembers.val)) :
      ∃ r, extractJsonStringFieldFrom (objectText object.members.val ++ rest) key front.length =
        readJsonString (s.raw ++ quote :: r) := by
    rw [extractFrom_eq, ht, List.drop_left]
    exact extract_at (h.append.prepend fun _ => inert_other_needle hk (by decide) hne)
  have ⟨r₂, hname⟩ := hf (by decide) (by decide) at_name
  have ⟨r₃, harguments⟩ := hf (by decide) (by decide) at_arguments
  have hb : breakOn (needle "function") (objectText object.members.val ++ rest) =
      some (front, objectText object.functionMembers.val ++ back) := by
    rw [ht, breakOn_front hi]
  have hp : parseToolCall (objectText object.members.val ++ rest) =
      ⟨readJsonString (object.id.raw ++ quote :: r₁),
        readJsonString (object.name.raw ++ quote :: r₂),
        readJsonString (object.arguments.raw ++ quote :: r₃)⟩ := by
    rw [parseToolCall, hb, hid, hname, harguments]
  rw [hp]
  refine ⟨read_eq_nil_iff, ?_⟩
  rw [← readJsonString_eq_iff object.id.body, ← readJsonString_eq_iff object.name.body,
    ← readJsonString_eq_iff object.arguments.body, ToolCallObject.call, ToolCall.mk.injEq]

end Object

section Array

variable {depth n : Nat} {s t text tail : Bytes} {object : ToolCallObject}

-- The walk over each call ends at its last brace. That over the last call may also go on.
def Splits : List ToolCallObject → Prop
  | []                => True
  | [object]          => (openBraces 0 object.opened).isSome
  | object :: objects => openBraces 0 object.opened = some 1 ∧ Splits objects

theorem extractObjects_infix (h : t ∈ extractObjects n text) : t <:+: text := by
  induction n generalizing text
  case zero => simp [extractObjects] at h
  case succ n hi =>
    rw [extractObjects_cons] at h
    cases hd : text.dropWhile isJsonGap
    case nil => simp [hd] at h
    case cons c rest =>
      have hs : c :: rest <:+: text := hd ▸ (List.dropWhile_suffix _).isInfix
      simp only [hd] at h
      split_ifs at h with hc
      case neg => simp at h
      case pos =>
        have hw := walkObject_append 1 rest
        obtain rfl | h := List.mem_cons.mp h
        case inl => exact List.IsInfix.trans ⟨[], (walkObject 1 rest).2, by simp [hw, hc]⟩ hs
        case inr =>
          have := hi h
          refine this.trans (List.IsInfix.trans ⟨c :: (walkObject 1 rest).1, [], ?_⟩ hs)
          simp [hw]

theorem extractJsonObjectArray_infix (h : t ∈ extractJsonObjectArray text) : t <:+: text :=
  extractObjects_infix h

theorem extractJsonObjectArray_rbracket : extractJsonObjectArray (rbracket :: t) = [] :=
  extractJsonObjectArray_end (by decide) (by decide)

-- The walk behind an object's last brace.
theorem walkObject_rbrace (depth : Nat) (s : Bytes) : ∃ more rest,
    walkObject depth (rbrace :: s) = (rbrace :: more, rest) ∧ rest <:+ s := by
  rw [walkObject]
  split
  case isTrue  => exact ⟨[], s, rfl, List.suffix_rfl⟩
  case isFalse => exact ⟨_, _, rfl, ⟨_, walkObject_append ..⟩⟩

theorem joinWith_objects (object next : ToolCallObject) (objects : List ToolCallObject) :
    joinWith [comma] ((object :: next :: objects).map ToolCallObject.text) =
      object.opened ++
        rbrace :: comma :: joinWith [comma] ((next :: objects).map ToolCallObject.text) := by
  simp [joinWith, List.intercalate, ToolCallObject.text_eq]

-- The calls are told apart, and what else may be taken for a call lies behind them.
theorem extractJsonObjectArray_splits {objects : List ToolCallObject} (h : Splits objects) :
    ∃ texts junk,
      extractJsonObjectArray
          (joinWith [comma] (objects.map ToolCallObject.text) ++ rbracket :: tail) =
        texts ++ junk ∧
      List.Forall₂ (fun object text => ∃ more, text = object.text ++ more) objects texts ∧
      ∀ text ∈ junk, text <:+: rbracket :: tail := by
  match objects, h with
  | [], _ => exact ⟨[], [], extractJsonObjectArray_rbracket, .nil, by simp⟩
  | [object], h =>
    obtain ⟨depth, hd⟩ := Option.isSome_iff_exists.mp h
    obtain ⟨more, rest, hw, hs⟩ := walkObject_rbrace depth (rbracket :: tail)
    have hw : walkObject 0 (object.opened ++ rbrace :: rbracket :: tail) =
        (object.opened ++ rbrace :: more, rest) := by
      rw [walkObject_through hd, hw]
    have ht : joinWith [comma] ([object].map ToolCallObject.text) ++ rbracket :: tail =
        object.opened ++ rbrace :: rbracket :: tail := by
      simp [joinWith, ToolCallObject.text_eq]
    refine ⟨[object.opened ++ rbrace :: more], extractJsonObjectArray rest, ?_, ?_, ?_⟩
    case refine_1 => rw [ht, extractJsonObjectArray_object rfl, hw, List.singleton_append]
    case refine_2 => exact .cons ⟨more, by simp [ToolCallObject.text_eq]⟩ .nil
    case refine_3 =>
      intro text hm
      have hi := extractJsonObjectArray_infix hm
      exact hi.trans hs.isInfix
  | object :: next :: objects, h =>
    obtain ⟨hd, h⟩ := h
    obtain ⟨texts, junk, he, hf, hj⟩ := extractJsonObjectArray_splits h
    have ht := joinWith_objects object next objects
    have hw := walkObject_closing (t := comma ::
      (joinWith [comma] ((next :: objects).map ToolCallObject.text) ++ rbracket :: tail)) hd
    refine ⟨object.text :: texts, junk, ?_, .cons ⟨[], by simp⟩ hf, hj⟩
    rw [ht, List.append_assoc, List.cons_append, List.cons_append,
      extractJsonObjectArray_object rfl, hw, extractJsonObjectArray_comma, he]
    rfl

end Array

section Depth

variable {depth depth' k : Nat} {s t : Bytes} {objects : List ToolCallObject}

-- A walk that does not end within a text passes it at any greater depth alike.
theorem openBraces_add (hd : 1 ≤ depth) (h : openBraces depth s = some depth') :
    openBraces (depth + k) s = some (depth' + k) := by
  induction s generalizing depth
  case nil => exact congrArg some (congrArg (· + k) (Option.some.inj h))
  case cons c s hi =>
    rw [openBraces] at h ⊢
    split_ifs at h with hn hl hr
    case pos =>
      rw [if_neg fun h => absurd (hl ▸ h.left) (by decide), if_pos hl, Nat.add_right_comm]
      exact hi (Nat.le_succ_of_le hd) h
    case pos =>
      have hne : depth ≠ 1 := fun he => hn ⟨hr, he⟩
      rw [if_neg fun h => hne (by omega), if_neg hl, if_pos hr, Nat.sub_add_comm hd]
      exact hi (by omega) h
    case neg =>
      rw [if_neg fun h => hr h.left, if_neg hl, if_neg hr]
      exact hi hd h

-- Text through which the walk passes at any depth.
def Passable (s : Bytes) : Prop :=
  ∀ depth, 1 ≤ depth → ∃ depth', 1 ≤ depth' ∧ openBraces depth s = some depth'

theorem Passable.append (hs : Passable s) (ht : Passable t) : Passable (s ++ t) := by
  intro depth hd
  have ⟨depth', hd', hs⟩ := hs depth hd
  have ⟨depth'', hd'', ht⟩ := ht depth' hd'
  exact ⟨depth'', hd'', by rw [openBraces_append, hs, Option.bind_some, ht]⟩

theorem passable_noBraces (h : NoBraces s) : Passable s :=
  fun depth hd => ⟨depth, hd, openBraces_noBraces h⟩

theorem passable_object {object : ToolCallObject} (h : (openBraces 0 object.opened).isSome) :
    Passable object.text := by
  intro depth hd
  have ⟨depth', h⟩ := Option.isSome_iff_exists.mp h
  rw [ToolCallObject.opened, openBraces_lbrace] at h
  have hd' := openBraces_pos h (Nat.le_refl _)
  have ho : openBraces depth object.opened = some (depth' + depth) := by
    rw [ToolCallObject.opened, openBraces_lbrace, Nat.add_comm depth]
    exact openBraces_add (Nat.le_refl _) h
  refine ⟨depth' + depth - 1, by omega, ?_⟩
  rw [ToolCallObject.text_eq, openBraces_append, ho, Option.bind_some, openBraces,
    if_neg (fun h => absurd h.right (by omega)), if_neg (by decide), if_pos rfl]
  rfl

theorem Splits.passable {objects : List ToolCallObject} (h : Splits objects) :
    Passable (joinWith [comma] (objects.map ToolCallObject.text)) := by
  match objects, h with
  | [], _ => exact passable_noBraces (by decide)
  | [object], h =>
    have := passable_object h
    simpa [joinWith] using this
  | object :: next :: objects, ⟨hd, h⟩ =>
    have ho := passable_object (Option.isSome_iff_exists.mpr ⟨1, hd⟩)
    have := ho.append ((passable_noBraces (s := [comma]) (by decide)).append h.passable)
    rw [joinWith_objects]
    simpa [ToolCallObject.text_eq] using this

end Depth

section Filter

variable {objects : List ToolCallObject} {calls : List ToolCall}

def ToolCallObject.Known (object : ToolCallObject) : Prop :=
  Familiar object.id.raw ∧ Familiar object.name.raw ∧ Familiar object.arguments.raw

-- The calls of a completion that have a name.
def namedCalls (objects : List ToolCallObject) : List ToolCall :=
  (objects.map ToolCallObject.call).filter (·.name ≠ [])

theorem filter_eq_iff (h : List.Forall₂ ReadOf objects calls) :
    calls.filter (·.name ≠ []) = namedCalls objects ↔
      ∀ object ∈ objects, object.name.text ≠ [] → object.Known := by
  induction h
  case nil => simp [namedCalls]
  case cons object call objects calls hr _ hi =>
    rw [List.forall_mem_cons, ← hi]
    by_cases hn : object.name.text = []
    case pos => simp [namedCalls, ToolCallObject.call, hr.named.mpr hn, hn]
    case neg =>
      have hn' : call.name ≠ [] := fun h => hn (hr.named.mp h)
      have hc : object.call.name ≠ [] := hn
      simp only [namedCalls, List.map_cons]
      rw [List.filter_cons_of_pos (by simpa using hn'), List.filter_cons_of_pos (by simpa using hc),
        List.cons.injEq, hr.exact]
      exact and_congr_left fun _ => ⟨fun h _ => h, fun h => h hn⟩

end Filter

namespace Completion

variable {c : Completion} {calls : List ToolCallObject} {tail : Bytes}

section Passing

variable {key : Bytes} (hk : key ∈ completionKeys)
include hk

-- No other member of the choice, and none of the message, has the key in it.
theorem choice_others_pass (hne : key ≠ str "finish_reason") :
    ∀ e ∈ Entry.string "finish_reason" c.finishReason :: c.choiceExtras.map Extra.toEntry,
      Passes key [] e.text := by
  intro e he
  obtain rfl | he := List.mem_cons.mp he
  · exact Entry.string_passes (word_of_mem (callKeys_of_mem hk)) hne
  · exact Extra.passes_of_mem hk e he

theorem message_others_pass (hne : key ≠ str "content") (hr : ∀ k : ReasoningKey, key ≠ k.key) :
    ∀ e ∈ Entry.string "content" c.content ::
      (c.reasoning.toList.map (fun r => r.1.entry r.2) ++ c.messageExtras.map Extra.toEntry),
      Passes key [] e.text := by
  intro e he
  have hw := word_of_mem (callKeys_of_mem hk)
  simp only [List.mem_cons, List.mem_append] at he
  obtain rfl | he | he := he
  · exact Entry.string_passes hw hne
  · exact reasoning_passes hw (fun k _ _ => hr k) e he
  · exact Extra.passes_of_mem hk e he

end Passing

-- The first bracket behind the tool calls' key, and what follows their array.
theorem toolCalls_split (h : c.toolCalls = some calls) : ∃ front back,
    c.choice = front ++ (needle "tool_calls" ++ (lbracket ::
      (joinWith [comma] (calls.map ToolCallObject.text) ++ rbracket :: back))) ∧
    Inert (needle "tool_calls") front (needle "tool_calls") ∧
    ∀ rest, Inert (needle "name") (rbracket :: back) rest := by
  have hp : (Entry.string "content" c.content ::
      (c.reasoning.toList.map (fun r => r.1.entry r.2) ++
        (c.toolCalls.toList.map toolCallsEntry ++ c.messageExtras.map Extra.toEntry))).Perm
      (toolCallsEntry calls :: Entry.string "content" c.content ::
        (c.reasoning.toList.map (fun r => r.1.entry r.2) ++ c.messageExtras.map Extra.toEntry)) := by
    rw [h]
    exact (List.perm_middle.cons _).trans (.swap ..)
  obtain ⟨before, behind, hs, hm⟩ := c.choiceMembers.split (.refl _)
  obtain ⟨before', behind', hs', hm'⟩ := c.messageMembers.split hp
  have ho {key : Bytes} (hk : key ∈ completionKeys) (hne : key ≠ str "finish_reason") :
      ∀ e ∈ before ++ behind, Passes key [] e.text :=
    fun e he => choice_others_pass hk hne e (hm.mem_iff.mp he)
  have ho' {key : Bytes} (hk : key ∈ completionKeys) (hne : key ≠ str "content")
      (hr : ∀ k : ReasoningKey, key ≠ k.key) : ∀ e ∈ before' ++ behind', Passes key [] e.text :=
    fun e he => message_others_pass hk hne hr e (hm'.mem_iff.mp he)
  let front := lbrace :: (before.map Entry.text).flatMap (· ++ [comma])
  let front' := lbrace :: (before'.map Entry.text).flatMap (· ++ [comma])
  let back := (behind.map Entry.text).flatMap ([comma] ++ ·) ++ [rbrace]
  let back' := (behind'.map Entry.text).flatMap ([comma] ++ ·) ++ [rbrace]
  refine ⟨front ++ (needle "message" ++ front'), back' ++ back, ?_, ?_, ?_⟩
  case refine_1 =>
    rw [choice, hs, objectText_split]
    have hobjects : calls.map (fun object => objectText object.members.val) =
        calls.map ToolCallObject.text := rfl
    simp [front, front', back, back', Entry.object, hs', objectText_split, toolCallsEntry,
      Entry.array, jsonArray, Function.comp_def, hobjects]
  case refine_2 =>
    have hf (rest : Bytes) : Inert (needle "tool_calls") front rest :=
      inert_entries fun e he => ho (by decide) (by decide) e (List.mem_append_left _ he)
    have hf' (rest : Bytes) : Inert (needle "tool_calls") front' rest :=
      inert_entries fun e he => ho' (by decide) (by decide) (fun k => by cases k <;> decide) e
        (List.mem_append_left _ he)
    have hn (rest : Bytes) : Inert (needle "tool_calls") (needle "message") rest :=
      inert_other_needle (by decide) (by decide) (by decide)
    exact inert_append (hf _) (inert_append (hn _) (hf' _))
  case refine_3 =>
    intro rest
    rw [needle_eq_pattern]
    have hr : Inert (pattern "name" []) [rbracket] (back' ++ back ++ rest) :=
      inert_unquoted (by decide)
    refine inert_append hr (inert_append (inert_behind ?_) (inert_behind ?_))
    case refine_1 =>
      intro text ht
      obtain ⟨e, he, ht⟩ := List.mem_map.mp ht
      exact ht ▸ ho' (by decide) (by decide) (fun k => by cases k <;> decide) e
        (List.mem_append_right _ he)
    case refine_2 =>
      intro text ht
      obtain ⟨e, he, ht⟩ := List.mem_map.mp ht
      exact ht ▸ ho (by decide) (by decide) e (List.mem_append_right _ he)

-- The walk over the choice does not end in front of the tool calls, and each of them is told apart.
def CallsSplit (c : Completion) : Prop :=
  c.callObjects = [] ∨
    (breakOn (needle "tool_calls") c.choice).any (fun (front, _) => (openBraces 0 front).isSome) ∧
      Splits c.callObjects

def CallsKnown (c : Completion) : Prop :=
  ∀ object ∈ c.callObjects, object.name.text ≠ [] → object.Known

theorem parseToolCalls_absent {t : Bytes} (h : ¬needle "tool_calls" <:+: t) :
    parseToolCalls t = [] := by
  have hb : breakOn (needle "tool_calls") t = none := by
    rw [← Option.not_isSome_iff_eq_none, breakOn_isSome_iff]
    exact h
  rw [parseToolCalls, afterArrayKey, hb]
  rfl

-- No name is found in the text behind the tool calls.
theorem parseToolCall_junk {t text : Bytes} (ht : ¬needle "name" <:+: t) (h : text <:+: t) :
    (parseToolCall text).name = [] := by
  have hn : ¬needle "name" <:+: text := fun hn => ht (hn.trans h)
  simp only [parseToolCall, extractFrom_eq]
  exact extract_absent fun hd => hn (hd.trans (List.drop_suffix ..).isInfix)

theorem filter_junk {t : Bytes} {junk : List Bytes} (ht : ¬needle "name" <:+: t)
    (h : ∀ text ∈ junk, text <:+: t) :
    (junk.map parseToolCall).filter (·.name ≠ []) = [] := by
  rw [List.filter_eq_nil_iff]
  intro call hc
  have ⟨text, hm, he⟩ := List.mem_map.mp hc
  simpa [← he] using parseToolCall_junk ht (h text hm)

theorem walkObject_rbracket (depth : Nat) (s : Bytes) : ∃ more,
    (walkObject depth (rbracket :: s)).1 = rbracket :: more ∧ more <+: s := by
  rw [walkObject, if_neg fun h => absurd h.left (by decide)]
  exact ⟨_, rfl, ⟨_, walkObject_append ..⟩⟩

theorem front_pos {front back : Bytes} {depth : Nat}
    (he : c.choice = front ++ (needle "tool_calls" ++ back))
    (h : openBraces 0 front = some depth) : 1 ≤ depth := by
  cases front
  case nil =>
    have : lbrace = quote := congrArg (List.head? ·) he |> Option.some.inj
    exact absurd this (by decide)
  case cons d front =>
    have : lbrace = d := congrArg (List.head? ·) he |> Option.some.inj
    rw [← this, openBraces_lbrace] at h
    exact openBraces_pos h (Nat.le_refl _)

theorem parseToolCalls_walked (hc : c.toolCalls = some calls) (hs : Splits calls)
    (ho : (breakOn (needle "tool_calls") c.choice).any fun p => (openBraces 0 p.1).isSome)
    (ht : ∀ rest, Inert (needle "name") (rbracket :: tail) rest) :
    parseToolCalls (walkObject 0 (c.choice ++ rbracket :: tail)).1 = namedCalls calls ↔
      ∀ object ∈ calls, object.name.text ≠ [] → object.Known := by
  obtain ⟨front, back, he, hi, hn⟩ := toolCalls_split hc
  rw [he, breakOn_front hi, Option.any_some] at ho
  obtain ⟨depth, hf⟩ := Option.isSome_iff_exists.mp ho
  have hd := front_pos he hf
  let joined := joinWith [comma] (calls.map ToolCallObject.text)
  obtain ⟨depth', _, hj⟩ := hs.passable depth hd
  have hopen : openBraces 0 (front ++ (needle "tool_calls" ++ lbracket :: joined)) = some depth' := by
    rw [openBraces_append, hf, Option.bind_some, openBraces_needle (by decide),
      openBraces_plain (by decide) (by decide), hj]
  obtain ⟨more, hw, hm⟩ := walkObject_rbracket depth' (back ++ rbracket :: tail)
  have hwalked : (walkObject 0 (c.choice ++ rbracket :: tail)).1 =
      front ++ (needle "tool_calls" ++ lbracket :: (joined ++ rbracket :: more)) := by
    have := congrArg Prod.fst (walkObject_through (t := rbracket :: (back ++ rbracket :: tail)) hopen)
    rw [hw] at this
    rw [he]
    simpa [joined] using this
  have hafter : afterArrayKey (walkObject 0 (c.choice ++ rbracket :: tail)).1 "tool_calls" =
      some (joined ++ rbracket :: more) := by
    rw [afterArrayKey, hwalked, breakOn_front hi, Option.bind_some]
    exact after_append_self (by simp)
  have hname : ¬needle "name" <:+: rbracket :: more := by
    have hi : Inert (needle "name") (rbracket :: back ++ rbracket :: tail) [] :=
      inert_append (hn _) (ht _)
    obtain ⟨rest, hr⟩ := hm
    rw [List.cons_append, ← hr, ← List.cons_append] at hi
    exact not_infix_of_inert hi needle_ne_nil
  obtain ⟨texts, junk, hx, hf, hjunk⟩ := (@extractJsonObjectArray_splits more) hs
  have hr : List.Forall₂ ReadOf calls (texts.map parseToolCall) := by
    rw [List.forall₂_map_right_iff]
    refine hf.imp fun object text h => ?_
    obtain ⟨more, rfl⟩ := h
    exact readOf_parseToolCall object more
  rw [parseToolCalls, hafter]
  simp only [joined, hx, List.map_append, List.filter_append]
  rw [filter_junk hname hjunk, List.append_nil]
  exact filter_eq_iff hr

theorem parseToolCalls_iff (hs : c.CallsSplit)
    (hb : c.choice ++ rbracket :: tail <:+: c.body)
    (ht : ∀ rest, Inert (needle "name") (rbracket :: tail) rest) :
    parseToolCalls (walkObject 0 (c.choice ++ rbracket :: tail)).1 = namedCalls c.callObjects ↔
      c.CallsKnown := by
  have hseen := walked_infix hb
  cases hc : c.toolCalls
  case none =>
    have hp : ∀ e ∈ c.members.val, Passes "tool_calls" [] e.text :=
      body_passes (by decide) (by decide) (fun k _ _ => by cases k <;> decide) (by simp [hc])
        fun _ => by decide
    have := parseToolCalls_absent fun hn => absent hp (hn.trans hseen)
    simp [this, CallsKnown, callObjects, hc, namedCalls]
  case some calls =>
    have hcalls : c.callObjects = calls := by simp [callObjects, hc]
    rw [CallsKnown, hcalls]
    obtain hnil | ⟨ho, hs⟩ := hs
    case inr => exact parseToolCalls_walked hc (hcalls ▸ hs) ho ht
    case inl =>
      have hnil : calls = [] := hcalls ▸ hnil
      subst hnil
      have ⟨front, back, he, hi, _⟩ := toolCalls_split hc
      cases hf : openBraces 0 front
      case some depth =>
        refine parseToolCalls_walked hc trivial ?_ ht
        rw [he, breakOn_front hi]
        simp [hf]
      case none =>
        rw [he, List.append_assoc, parseToolCalls_absent (walked_before hi hf)]
        simp [namedCalls]

-- The response is what was said.
def Decoded (c : Completion) : Prop :=
  ∃ response, parseOpenaiChatResponse 200 c.body true = some response ∧
    response.assistantMessage = c.content.text ∧ response.thinkingText = c.reasoningText ∧
    response.doneReason = c.finishReason.text ∧ response.toolCalls = namedCalls c.callObjects

theorem decoded_of_firstChoice {t : Bytes} (h : firstChoice c.body = some t) :
    c.Decoded ↔ extractJsonStringField t "content" = c.content.text ∧
      extractReasoningField t = c.reasoningText ∧
      extractJsonStringField t "finish_reason" = c.finishReason.text ∧
      parseToolCalls t = namedCalls c.callObjects := by
  have ⟨promptTokens, hp⟩ := (@tokens_read c "prompt_tokens") (by simp)
  have ⟨completionTokens, hc⟩ := (@tokens_read c "completion_tokens") (by simp)
  simp [Decoded, parseOpenaiChatResponse, h, hp, hc]

-- Read texts are shown. With the tool calls told apart, what is shown and known is read, and only
-- that.
theorem decoded_iff (c : Completion) : (c.Decoded → c.TextsShown) ∧
    (c.CallsSplit → (c.Decoded ↔ c.TextsShown ∧ c.CallsKnown)) := by
  have ⟨tail, hf, hb, ht⟩ := firstChoice_body c
  have hcontent := (@extract_walked_iff _ _ (rbracket :: tail)) (by decide) (at_content (c := c))
  have hfinish :=
    (@extract_walked_iff _ _ (rbracket :: tail)) (by decide) (at_finishReason (c := c))
  rw [decoded_of_firstChoice hf, hcontent, hfinish, extractReasoning_iff hb]
  constructor
  case left => exact fun ⟨hc, hr, hf, _⟩ => ⟨hc, hf, hr⟩
  case right =>
    intro hs
    rw [parseToolCalls_iff hs hb ht]
    constructor
    case mp  => exact fun ⟨hc, hr, hf, hk⟩ => ⟨⟨hc, hf, hr⟩, hk⟩
    case mpr => exact fun ⟨h, hk⟩ => ⟨h.content, h.reasoning, h.finishReason, hk⟩

section Accented

-- A word whose last letter is spelled by its code unit.
def accentedSpelling : Spelling where
  raw := str "caf\\u00e9"
  text := str "caf" ++ [0xc3, 0xa9]
  body := by
    refine .plain (by decide) (by decide) (by decide) ?_
    refine .plain (by decide) (by decide) (by decide) ?_
    refine .plain (by decide) (by decide) (by decide) ?_
    exact .unicode (n := 0xe9) (by decide) (by decide) (by decide) .nil

theorem not_decoded : ¬∀ c : Completion, c.Decoded := by
  intro h
  have ⟨response, hp, hc, _⟩ := h (plainAnswer accentedSpelling)
  have hr : (parseOpenaiChatResponse 200 (plainAnswer accentedSpelling).body true).map
      (·.assistantMessage) = some (str "cafu00e9") := by decide +kernel
  rw [hp, Option.map_some, hc] at hr
  exact absurd hr (by decide +kernel)

end Accented

end Completion
end Droidcli.Ai
