import Droidcli.Ai.Theorems.Members

namespace Droidcli.Ai

open Bytes Net Json

section Walk

variable {text t : Bytes} {o : Bytes} {os : List Bytes}

theorem walkObject_cases (t : Bytes) :
    (∃ a b, t = a ++ rbrace :: b ∧ openBraces 1 a = some 1 ∧ walkObject 1 t = (a ++ [rbrace], b)) ∨
      walkObject 1 t = (t, []) := by
  cases h : openBraces 1 t
  case none =>
    have ⟨a, b, ht, ha⟩ := exists_closing h
    exact .inl ⟨a, b, ht, ha, ht ▸ walkObject_closing ha⟩
  case some d => exact .inr (walkObject_end h)

theorem extractJsonObjectArray_cons (h : extractJsonObjectArray text = o :: os) :
    ∃ gap t, text = gap ++ lbrace :: t ∧ (∀ c ∈ gap, isJsonGap c) ∧
      o = lbrace :: (walkObject 1 t).1 ∧ os = extractJsonObjectArray (walkObject 1 t).2 := by
  rw [extractJsonObjectArray_eq] at h
  have ht := List.takeWhile_append_dropWhile (p := isJsonGap) (l := text)
  cases hd : text.dropWhile isJsonGap
  case nil => simp [hd] at h
  case cons c t =>
    simp only [hd] at h
    split at h
    case isFalse   => contradiction
    case isTrue hc =>
      have ⟨ho, hos⟩ := List.cons.inj h
      refine ⟨text.takeWhile isJsonGap, t, ?_, ?_, ho.symm, hos.symm⟩
      case refine_1 => rw [← hc, ← hd, ht]
      case refine_2 => exact fun c hc => List.mem_takeWhile_imp hc

theorem extractJsonObjectArray_gap {gap : Bytes} (hg : ∀ c ∈ gap, isJsonGap c) :
    extractJsonObjectArray (gap ++ t) = extractJsonObjectArray t := by
  rw [extractJsonObjectArray_eq, extractJsonObjectArray_eq t, List.dropWhile_append_of_pos hg]

theorem extractJsonObjectArray_lbrace : extractJsonObjectArray (lbrace :: t) =
    (lbrace :: (walkObject 1 t).1) :: extractJsonObjectArray (walkObject 1 t).2 := by
  rw [extractJsonObjectArray_object rfl, walkObject_lbrace]

end Walk

-- What kind of entries an array has: objects with the same members, in the same order.
structure Format (α : Type) where
  keys : List Bytes
  fields : α → List (Bytes × Field)
  keys_eq : ∀ e, (fields e).map Prod.fst = keys
  nonempty : keys ≠ []
  words : ∀ key ∈ keys, Word key
  nodup : keys.Nodup

theorem extractJsonObjectArray_nil : extractJsonObjectArray [] = [] :=
  rfl

-- How the objects of an array are read as its entries, when some of them are dropped.
inductive Yields {α : Type} (reads : Bytes → α → Prop) (drops : Bytes → Prop) :
    List Bytes → List α → Prop
  | nil : Yields reads drops [] []
  | drop {o : Bytes} {os : List Bytes} {es : List α} :
    drops o → Yields reads drops os es → Yields reads drops (o :: os) es
  | read {o : Bytes} {os : List Bytes} {e : α} {es : List α} :
    ¬drops o → reads o e → Yields reads drops os es → Yields reads drops (o :: os) (e :: es)

section Yields

variable {α : Type} {reads : Bytes → α → Prop} {drops : Bytes → Prop} {o : Bytes} {os : List Bytes}
  {e : α} {es : List α}

theorem yields_nil : Yields reads drops [] es ↔ es = [] := by
  constructor
  case mp  => exact fun h => by cases h; rfl
  case mpr => exact fun h => h ▸ .nil

theorem yields_drop (hd : drops o) :
    Yields reads drops (o :: os) es ↔ Yields reads drops os es := by
  constructor
  case mpr => exact fun h => .drop hd h
  case mp =>
    intro h
    cases h
    case drop h      => exact h
    case read hn _ _ => exact absurd hd hn

theorem yields_cons (hd : ¬drops o) :
    Yields reads drops (o :: os) (e :: es) ↔ reads o e ∧ Yields reads drops os es := by
  constructor
  case mpr => exact fun ⟨hr, h⟩ => .read hd hr h
  case mp =>
    intro h
    cases h
    case drop hd' _  => exact absurd hd' hd
    case read hr h   => exact ⟨hr, h⟩

end Yields

namespace Format

variable {α : Type} {F : Format α} {e : α} {es fs : List α} {a b o : Bytes} {os : List Bytes}

def text (F : Format α) (e : α) : Bytes :=
  flatObject (F.fields e)

-- The members behind the opening brace.
def body (F : Format α) (e : α) : Bytes :=
  (members (F.fields e)).tail

-- What stands behind an entry: the others, and the end of the array and of the object it is in.
def behind (F : Format α) (es : List α) : Bytes :=
  es.flatMap (comma :: F.text ·) ++ [rbracket, rbrace]

theorem word (F : Format α) : ∀ f ∈ F.fields e, Word f.1 := by
  intro f hf
  exact F.words f.1 (F.keys_eq e ▸ List.mem_map_of_mem hf)

theorem fields_ne_nil (F : Format α) : F.fields e ≠ [] := by
  intro h
  have hk := F.keys_eq e
  rw [h] at hk
  exact F.nonempty hk.symm

theorem members_eq : members (F.fields e) = comma :: F.body e := by
  have ⟨f, fields, hf⟩ := List.exists_cons_of_ne_nil (@F.fields_ne_nil _ e)
  simp [body, hf, members]

theorem text_eq : F.text e = lbrace :: (F.body e ++ [rbrace]) := by
  have ⟨f, fields, hf⟩ := List.exists_cons_of_ne_nil (@F.fields_ne_nil _ e)
  simp [text, body, hf, members, flatObject, jsonObject, joinWith_cons, List.flatMap_map]

theorem behind_cons :
    F.behind (e :: es) = comma :: lbrace :: (F.body e ++ rbrace :: F.behind es) := by
  simp [behind, text_eq]

theorem openBraces_body {depth : Nat} :
    openBraces depth (F.body e) = openBraces depth (strings (F.fields e)) := by
  rw [← openBraces_members F.word, members_eq, openBraces_plain (by decide) (by decide)]

theorem objects_nil : extractJsonObjectArray (F.behind []) = [] :=
  rfl

-- The text goes on within one of the entries, or right behind it.
inductive Late (F : Format α) (es : List α) : Bytes → Prop
  | mk {g : α} {fs : List α} {x u : Bytes} :
    g :: fs <:+ es → F.text g = x ++ u → x ≠ [] → Late F es (u ++ F.behind fs)

-- An object that begins within an entry and reaches no other.
def Within (F : Format α) (e : α) (o : Bytes) : Prop :=
  ∃ z y, F.text e = z ++ lbrace :: y ∧ z ≠ [] ∧ o <+: lbrace :: (y ++ [rbracket, rbrace])

theorem Late.mono (h : Late F fs a) (hs : fs <:+ es) : Late F es a :=
  match h with
  | .mk hg ht hx => .mk (hg.trans hs) ht hx

theorem behind_late (h : F.behind es = a ++ rbrace :: b) : b = [] ∨ Late F es b := by
  induction es generalizing a
  case nil =>
    have h : [rbracket, rbrace] = a ++ rbrace :: b := h
    match a with
    | []          => exact absurd (List.cons.inj h).left (by decide)
    | [_]         => exact .inl (List.cons.inj (List.cons.inj h).right).right.symm
    | _ :: _ :: _ => simp at h
  case cons e es hi =>
    have hsuffix : es <:+ e :: es := List.suffix_cons ..
    have he : F.behind (e :: es) = (comma :: F.text e) ++ F.behind es := by simp [behind]
    have hlater {a'} (h : F.behind es = a' ++ rbrace :: b) : b = [] ∨ Late F (e :: es) b :=
      (hi h).imp_right (·.mono hsuffix)
    rw [he] at h
    obtain ⟨z, hz, hb⟩ | ⟨z, hz, hb⟩ := List.append_eq_append_iff.mp h
    case inl => exact hlater hb
    case inr =>
      cases z
      case nil => exact @hlater [] (by simpa using hb.symm)
      case cons c z =>
        have ⟨hc, hb⟩ := List.cons.inj hb
        cases a
        case nil => exact absurd ((List.cons.inj hz).left.trans hc.symm) (by decide)
        case cons d a =>
          have ht : F.text e = (a ++ [rbrace]) ++ z := by simpa [← hc] using (List.cons.inj hz).right
          exact .inr (hb ▸ .mk List.suffix_rfl ht (by simp))

-- The next object begins within the entry, or it is the next one.
theorem Late.begins {u : Bytes} (h : extractJsonObjectArray (u ++ F.behind fs) = o :: os) :
    ∃ t, o = lbrace :: (walkObject 1 t).1 ∧ os = extractJsonObjectArray (walkObject 1 t).2 ∧
      ((∃ z y, u = z ++ lbrace :: y ∧ t = y ++ F.behind fs) ∨ F.behind fs = comma :: lbrace :: t) := by
  have ⟨gap, t, ht, hg, ho, hos⟩ := extractJsonObjectArray_cons h
  refine ⟨t, ho, hos, ?_⟩
  have hgap : ¬isJsonGap lbrace := by decide
  obtain ⟨z, hz, hb⟩ | ⟨z, hz, hb⟩ := List.append_eq_append_iff.mp ht
  case inl =>
    right
    cases fs
    case nil =>
      have hb : [rbracket, rbrace] = z ++ lbrace :: t := hb
      have hm : lbrace ∈ [rbracket, rbrace] := by rw [hb]; simp
      exact absurd hm (by decide)
    case cons e fs =>
      rw [behind_cons] at hb ⊢
      match z with
      | []          => exact absurd (List.cons.inj hb).left (by decide)
      | [c]         => rw [hb, ← (List.cons.inj hb).left]; rfl
      | c :: d :: z =>
        have hd := (List.cons.inj (List.cons.inj hb).right).left
        exact absurd (hg d (by simp [hz])) (hd ▸ hgap)
  case inr =>
    cases z
    case nil =>
      cases fs
      case nil       => exact absurd (List.cons.inj hb).left (by decide)
      case cons e fs => exact absurd (List.cons.inj (behind_cons ▸ hb)).left (by decide)
    case cons c z =>
      have ⟨hc, hb⟩ := List.cons.inj hb
      exact .inl ⟨gap, z, hc ▸ hz, hb⟩

theorem Late.exists_cons (h : Late F es a) : ∃ e fs, es = e :: fs :=
  match h with
  | .mk hg _ _ => List.exists_cons_of_ne_nil fun he => by simp [he] at hg

theorem late_of_split {y : Bytes} (h : y ++ F.behind fs = a ++ rbrace :: b) :
    (∃ u, y = a ++ rbrace :: u ∧ b = u ++ F.behind fs) ∨ b = [] ∨ Late F fs b := by
  obtain ⟨c, hc, hb⟩ | ⟨c, hc, hb⟩ := List.append_eq_append_iff.mp h
  case inl => exact .inr (behind_late hb)
  case inr =>
    cases c
    case nil => exact .inr (@behind_late _ _ _ [] _ (by simpa using hb.symm))
    case cons d c =>
      have ⟨hd, hb⟩ := List.cons.inj hb
      exact .inl ⟨c, hd ▸ hc, hb⟩

-- An object that is still open where the others begin ends in one of them, or never.
theorem late_of_open {y : Bytes} (h : openBraces 1 y ≠ none) :
    (walkObject 1 (y ++ F.behind es)).2 = [] ∨ Late F es (walkObject 1 (y ++ F.behind es)).2 := by
  rcases walkObject_cases (y ++ F.behind es) with ⟨a, b, hab, ha, hw⟩ | hw <;> rw [hw]
  case inr => exact .inl rfl
  case inl =>
    rcases late_of_split hab with ⟨u, hy, _⟩ | hb
    case inl => exact absurd (hy ▸ openBraces_closing ha) h
    case inr => exact hb

-- An object that begins late ends in the same entry or in a later one, or there are no more. Only
-- the last entry leaves it nothing to reach.
theorem Late.step (h : Late F (e :: es) a) (hos : extractJsonObjectArray a = o :: os) :
    (∃ b, os = extractJsonObjectArray b ∧ Late F es b) ∨
      (∃ b, os = extractJsonObjectArray b ∧ Late F (e :: es) b ∧ F.Within e o) ∨
      os = [] ∧ (es = [] → F.Within e o) := by
  cases h
  case mk g fs x u hg ht hx =>
    have hfs : fs <:+ es := by
      cases List.suffix_cons_iff.mp hg
      case inl he => exact (List.cons.inj he).right ▸ List.suffix_rfl
      case inr hs => exact (List.suffix_cons ..).trans hs
    have hend (hos : os = []) (hw : fs = [] → F.Within g o) :
        os = [] ∧ (es = [] → F.Within e o) := by
      refine ⟨hos, fun hes => ?_⟩
      subst hes
      have ⟨he, hfs⟩ : g = e ∧ fs = [] := by simpa using List.suffix_cons_iff.mp hg
      exact he ▸ hw hfs
    have ⟨t, ho, hos, hbegin⟩ := Late.begins hos
    rcases walkObject_cases t with ⟨a, b, hab, _, hw⟩ | hw <;> rw [hw] at ho hos <;>
      rcases hbegin with ⟨z, y, hu, hy⟩ | hb
    case inl.inl =>
      have hg' : F.text g = (x ++ z) ++ lbrace :: y := by simp [ht, hu]
      rcases late_of_split (hy ▸ hab) with ⟨u', hy', hb⟩ | hb | hb
      case inl =>
        have hl {es'} (h : g :: fs <:+ es') : Late F es' b := by
          have ht : F.text g = (x ++ z ++ lbrace :: (a ++ [rbrace])) ++ u' := by simp [hg', hy']
          exact hb ▸ .mk h ht (by simp)
        cases List.suffix_cons_iff.mp hg
        case inr hs => exact .inl ⟨b, hos, hl hs⟩
        case inl he =>
          have ho : o <+: lbrace :: (y ++ [rbracket, rbrace]) := by simp [ho, hy']
          exact .inr (.inl ⟨b, hos, hl hg, (List.cons.inj he).left ▸ ⟨_, y, hg', by simp [hx], ho⟩⟩)
      case inr.inl =>
        refine .inr (.inr (hend (by rw [hos, hb]; rfl) fun hfs => ⟨_, y, hg', by simp [hx], ?_⟩))
        have : y ++ [rbracket, rbrace] = a ++ rbrace :: b := by rw [← hab, hy, hfs]; rfl
        simp [ho, this]
      case inr.inr => exact .inl ⟨b, hos, hb.mono hfs⟩
    case inl.inr =>
      have hb' : F.behind fs = (comma :: lbrace :: a) ++ rbrace :: b := by simp [hb, hab]
      rcases behind_late hb' with hb' | hb'
      case inr => exact .inl ⟨b, hos, hb'.mono hfs⟩
      case inl =>
        refine .inr (.inr (hend (by rw [hos, hb']; rfl) fun hfs => ?_))
        exact absurd (List.cons.inj (hfs ▸ hb)).left (by decide)
    case inr.inl =>
      refine .inr (.inr (hend hos fun hfs => ⟨x ++ z, y, by simp [ht, hu], by simp [hx], ?_⟩))
      rw [ho, hy, hfs]
      exact List.prefix_rfl
    case inr.inr =>
      refine .inr (.inr (hend hos fun hfs => ?_))
      exact absurd (List.cons.inj (hfs ▸ hb)).left (by decide)

variable {reads : Bytes → α → Prop} {drops : Bytes → Prop}

-- Once an object ends late, the entries do not come out anymore: none begins at their braces that
-- could make up for it.
theorem Late.not_yields (hw : ∀ e o, F.Within e o → ¬drops o → ¬reads o e) (h : Late F es a) :
    ¬Yields reads drops (extractJsonObjectArray a) es := by
  intro hy
  generalize hos : extractJsonObjectArray a = os at hy
  induction hy generalizing a
  case nil =>
    have ⟨_, _, h⟩ := h.exists_cons
    contradiction
  case drop hd hy hi =>
    obtain ⟨e, fs, rfl⟩ := h.exists_cons
    rcases h.step hos with ⟨b, hos, hl⟩ | ⟨b, hos, hl, _⟩ | ⟨hos, _⟩
    case inl      => exact hi (hl.mono (List.suffix_cons ..)) hos.symm
    case inr.inl  => exact hi hl hos.symm
    case inr.inr  =>
      subst hos
      cases hy
  case read hd hr hy hi =>
    rcases h.step hos with ⟨b, hos, hl⟩ | ⟨b, _, _, hwithin⟩ | ⟨hos, hwithin⟩
    case inl      => exact hi hl hos.symm
    case inr.inl  => exact hw _ _ hwithin hd hr
    case inr.inr  =>
      subst hos
      cases hy
      exact hw _ _ (hwithin rfl) hd hr

-- Where nothing is dropped, the entries come of the objects one by one.
theorem yields_map {β : Type} {parse : Bytes → β} {row : α → β}
    (h : ∀ o e, parse o = row e ↔ reads o e) :
    os.map parse = es.map row ↔ Yields reads (fun _ => False) os es := by
  induction os generalizing es
  case nil => simp [yields_nil, eq_comm]
  case cons o os hi =>
    cases es
    case nil =>
      refine iff_of_false (by simp) fun hy => ?_
      cases hy
      contradiction
    case cons e es =>
      rw [yields_cons not_false, ← h, ← hi, List.map_cons, List.map_cons, List.cons.injEq]

-- The text of the array, where its key is found.
theorem objects_of_array {key front : Bytes} (h : Inert (needle key) front (needle key)) :
    (afterArrayKey (front ++ (needle key ++ (jsonArray (es.map F.text) ++ [rbrace]))) key).elim []
      extractJsonObjectArray = extractJsonObjectArray (F.behind es) := by
  have ha : afterArrayKey (front ++ (needle key ++ (jsonArray (es.map F.text) ++ [rbrace]))) key =
      some (joinWith [comma] (es.map F.text) ++ [rbracket, rbrace]) := by
    rw [afterArrayKey, breakOn_front h]
    simp [jsonArray, after, breakOn]
  rw [ha, Option.elim_some]
  cases es
  case nil => rfl
  case cons e es =>
    rw [behind_cons, extractJsonObjectArray_comma, List.map_cons, joinWith_cons, text_eq]
    simp [behind, List.flatMap_map]

section Located

-- A string of an entry, in which there is a brace.
structure Located (F : Format α) (e : α) (c : UInt8) where
  before : List (Bytes × Field)
  key : Bytes
  left : Bytes
  right : Bytes
  behind : List (Bytes × Field)
  fields_eq : F.fields e = before ++ (key, .string (left ++ c :: right)) :: behind

variable {c : UInt8}

theorem Located.other_keys (l : Located F e c) :
    (∀ f ∈ l.before, Word f.1 ∧ l.key ≠ f.1) ∧ (∀ f ∈ l.behind, Word f.1 ∧ l.key ≠ f.1) ∧
      ∀ f ∈ l.before, ∀ f' ∈ l.behind, f'.1 ≠ f.1 := by
  have hw (f : Bytes × Field) (hf : f ∈ F.fields e) := F.word f hf
  have hd := F.nodup
  rw [← F.keys_eq e] at hd
  rw [l.fields_eq] at hw hd
  simp only [List.map_append, List.map_cons, List.nodup_append, List.nodup_cons] at hd
  refine ⟨fun f hf => ⟨hw f (by simp [hf]), fun he => ?_⟩,
    fun f hf => ⟨hw f (by simp [hf]), fun he => ?_⟩, fun f hf f' hf' he => ?_⟩
  case refine_1 => exact hd.2.2 f.1 (List.mem_map_of_mem hf) l.key (by simp) he.symm
  case refine_2 => exact hd.2.1.1 (he ▸ List.mem_map_of_mem hf)
  case refine_3 =>
    exact hd.2.2 f.1 (List.mem_map_of_mem hf) f'.1 (List.mem_cons_of_mem _ (List.mem_map_of_mem hf'))
      he.symm

theorem Located.mem (l : Located F e c) :
    (l.key, .string (l.left ++ c :: l.right)) ∈ F.fields e := by
  simp [l.fields_eq]

theorem located_of_body (hc : IsBrace c) (h : F.body e = a ++ c :: b) :
    ∃ l : Located F e c,
      lbrace :: a = openedObject l.before ++ (needle l.key ++ quote :: escapeJsonString l.left) ∧
        openBraces 1 a = openBraces 1 (strings l.before ++ l.left) ∧
        b = escapeJsonString l.right ++ quote :: members l.behind := by
  have hm : members (F.fields e) = (comma :: a) ++ c :: b := by rw [members_eq, h]; rfl
  have ⟨before, k, s₁, s₂, behind, hf, ha, hb⟩ := members_split F.word hc hm
  refine ⟨⟨before, k, s₁, s₂, behind, hf⟩, openedObject_of_members ha, ?_, hb⟩
  have hn : NoBraces (comma :: needle k ++ [quote]) := by
    refine noBraces_of_not_mem fun d hd => ?_
    have hk := hd.not_mem_needle (F.word (e := e) (k, .string (s₁ ++ c :: s₂)) (by simp [hf]))
    rcases hd with rfl | rfl <;> simpa using ⟨by decide, hk, by decide⟩
  have hw : ∀ f ∈ before, Word f.1 := fun f hm => F.word (e := e) f (by simp [hf, hm])
  have ha' : comma :: a = members before ++ ((comma :: needle k ++ [quote]) ++ escapeJsonString s₁) := by
    simp [ha]
  rw [← openBraces_plain (c := comma) (by decide) (by decide), ha', openBraces_append,
    openBraces_append (s := strings before), openBraces_members hw]
  simp only [openBraces_noBraces_append hn, openBraces_escape]

-- An object that begins within an entry has none of the keys up to the one it begins in.
theorem Within.absent (h : F.Within e o) :
    ∃ l : Located F e lbrace, ∀ key, Word key → (∀ f ∈ l.behind, key ≠ f.1) → ¬needle key <:+: o := by
  have ⟨z, y, ht, hz, ho⟩ := h
  rw [text_eq] at ht
  cases z
  case nil => contradiction
  case cons d z =>
    have hb := (List.cons.inj ht).right
    have ⟨y', hb, hy⟩ := concat_split (by decide) hb
    have ⟨l, _, hy'⟩ := located_of_body (.inl rfl) hb
    refine ⟨l, fun key hk hn hi => ?_⟩
    have hr : Inert (needle key) [rbracket, rbrace] [] := inert_of_not_mem (by decide)
    have hl : Inert (needle key) [lbrace] (y ++ [rbracket, rbrace] ++ []) :=
      inert_of_not_mem (by decide)
    have hm : Inert (needle key) y ([rbracket, rbrace] ++ []) := by
      have := @inert_remainder l.behind key l.right ([rbracket, rbrace] ++ []) hk
        fun f hf => ⟨(l.other_keys.2.1 f hf).left, hn f hf⟩
      simpa [hy, hy'] using this
    have hi : needle key <:+: lbrace :: (y ++ [rbracket, rbrace]) := hi.trans ho.isInfix
    have := inert_append hl (inert_append hm hr)
    exact not_infix_of_inert (by simpa using this) (by simp [needle]) hi

end Located

section Legible

def FullyReads (F : Format α) (o : Bytes) (e : α) : Prop :=
  ∀ f ∈ F.fields e, f.2.Reads o f.1

-- The braces of each entry but the last match, and those of the last do not close it too early.
structure Legible (joined needed : α → Bytes) (es : List α) : Prop where
  others : ∀ e ∈ es.dropLast, openBraces 1 (joined e) = some 1
  last   : ∀ e ∈ es.getLast?, openBraces 1 (needed e) ≠ none

variable {held₁ held₂ : α → Bytes}

theorem Within.not_fullyReads (h : F.Within e o) : ¬F.FullyReads o e := by
  have ⟨l, ha⟩ := h.absent
  intro hr
  have hk := ha l.key (F.word _ l.mem) fun f hf => (l.other_keys.2.1 f hf).right
  have := (stringField_absent hk).symm.trans (hr _ l.mem)
  simp at this

theorem legible_nil : Legible held₁ held₂ [] :=
  ⟨by simp, by simp⟩

theorem legible_single : Legible held₁ held₂ [e] ↔ openBraces 1 (held₂ e) ≠ none :=
  ⟨fun h => h.last e (by simp), fun h => ⟨by simp, by simpa using h⟩⟩

theorem legible_cons (hes : es ≠ []) : Legible held₁ held₂ (e :: es) ↔
    openBraces 1 (held₁ e) = some 1 ∧ Legible held₁ held₂ es := by
  have hl : (e :: es).getLast? = es.getLast? := by
    have ⟨e', es', he⟩ := List.exists_cons_of_ne_nil hes
    simp [he, List.getLast?_cons_cons]
  constructor
  case mp =>
    intro ⟨ho, hlast⟩
    rw [List.dropLast_cons_of_ne_nil hes] at ho
    exact ⟨ho e (by simp), fun e' he => ho e' (List.mem_cons_of_mem _ he), hl ▸ hlast⟩
  case mpr =>
    intro ⟨he, ho, hlast⟩
    refine ⟨?_, hl ▸ hlast⟩
    rw [List.dropLast_cons_of_ne_nil hes]
    simpa using ⟨he, ho⟩

theorem reads_before {before behind : List (Bytes × Field)} {f : Bytes × Field} {rest : Bytes}
    (hf : F.fields e = before ++ f :: behind) (hr : Follows rest) :
    f.2.Reads (openedObject before ++ (f.2.member f.1 ++ rest)) f.1 := by
  have hd := F.nodup
  rw [← F.keys_eq e, hf, List.map_append, List.map_cons, List.nodup_append] at hd
  have hb : ∀ f' ∈ before, Word f'.1 ∧ f.1 ≠ f'.1 := fun f' hm =>
    ⟨F.word f' (hf ▸ List.mem_append_left _ hm),
      fun he => hd.2.2 f'.1 (List.mem_map_of_mem hm) f.1 (by simp) he.symm⟩
  have hk : Word f.1 := F.word (e := e) f (hf ▸ List.mem_append_right _ (List.mem_cons_self ..))
  cases f.2
  case int n    => trivial
  case string s => exact (@readFrom_member before f.1 rest (.string s) hk hb trivial hr).reads
  case bool b   => exact (@readFrom_member before f.1 rest (.bool b) hk hb trivial hr).reads

theorem reads_text (rest : Bytes) : F.FullyReads (F.text e ++ rest) e := by
  intro f hf
  obtain ⟨before, behind, he⟩ := List.append_of_mem hf
  have ht : F.text e ++ rest = openedObject before ++ (f.2.member f.1 ++
      ((behind.map fun f => f.2.member f.1).flatMap ([comma] ++ ·) ++ [rbrace] ++ rest)) := by
    rw [text, flatObject, he, List.map_append, List.map_cons, jsonObject_split]
    simp [openedObject]
  exact ht ▸ reads_before he (Follows.append (follows_members _))

-- The fields before the one that is cut are there as a whole.
theorem Located.reads_uncut (l : Located F e rbrace) {f} (hf : f ∈ l.before) :
    f.2.Reads (brokenOff l.before l.key (l.left ++ [rbrace])) f.1 := by
  obtain ⟨before, behind, he⟩ := List.append_of_mem hf
  have hf : F.fields e = before ++ f ::
      (behind ++ (l.key, .string (l.left ++ rbrace :: l.right)) :: l.behind) := by
    rw [l.fields_eq, he, List.append_assoc]
    rfl
  have := @reads_before _ _ _ _ _ _ (comma :: ((behind.map fun f => f.2.member f.1).flatMap
    (· ++ [comma]) ++ (needle l.key ++ quote :: escapeJsonString (l.left ++ [rbrace])))) hf
    ⟨comma, by simp, rfl⟩
  simpa [brokenOff, openedObject, he] using this

-- An entry that is cut off at a brace is read if nothing gets lost.
theorem reads_cut (l : Located F e rbrace) :
    F.FullyReads (brokenOff l.before l.key (l.left ++ [rbrace])) e ↔
      l.right = [] ∧ strings l.behind = [] ∧ ∀ k, (k, Field.bool false) ∉ l.behind := by
  obtain ⟨hbefore, hbehind, hother⟩ := l.other_keys
  have hlast := @brokenOff_last _ _ (l.left ++ [rbrace]) (F.word _ l.mem) hbefore
  have habsent {f} (hf : f ∈ l.behind) := @extract_brokenOff (l.left ++ [rbrace]) l.before f.1 l.key
    (hbehind f hf).left (F.word _ l.mem) (hbehind f hf).right.symm
    fun f' hf' => ⟨(hbefore f' hf').left, hother f' hf' f hf⟩
  have hs : strings l.behind = [] ↔ ∀ f ∈ l.behind, f.2.text = [] := by
    simp [strings]
  rw [FullyReads, l.fields_eq, hs]
  constructor
  case mp =>
    intro h
    have h' {f} (hf : f ∈ l.behind) := h f (by simp [hf])
    have hright : l.left ++ [rbrace] = l.left ++ rbrace :: l.right :=
      hlast.symm.trans (h (l.key, .string _) (by simp))
    refine ⟨by simpa using hright.symm, fun f hf => ?_, fun k hf => ?_⟩
    case refine_1 =>
      cases hfield : f.2
      case string s =>
        have := h' hf
        rw [hfield] at this
        exact this.symm.trans (habsent hf).left
      all_goals rfl
    case refine_2 =>
      have := h' hf
      simp [Field.Reads, (habsent hf).right] at this
  case mpr =>
    rintro ⟨hright, hempty, hbool⟩ f hf
    rcases List.mem_append.mp hf with hf | hf
    case inl => exact l.reads_uncut hf
    case inr =>
      rcases List.mem_cons.mp hf with rfl | hf
      case inl => exact hright ▸ hlast
      case inr =>
        have ha := habsent hf
        have he := hempty f hf
        cases hfield : f.2
        case string s => rw [hfield] at he; exact ha.left.trans he.symm
        case int      => trivial
        case bool b   =>
          cases b
          case true  => simp [Field.Reads, ha.right]
          case false =>
            have hf : (f.1, f.2) ∈ l.behind := hf
            exact absurd (hfield ▸ hf) (hbool f.1)

theorem openBraces_needed (l : Located F e rbrace)
    (hl : openBraces 1 (strings l.before ++ l.left) = some 1) (p : Bool) :
    openBraces 1 (if p then (strings (F.fields e)).dropLast else strings (F.fields e)) ≠ none ↔
      p ∧ l.right = [] ∧ strings l.behind = [] := by
  have hs : strings (F.fields e) =
      (strings l.before ++ l.left) ++ rbrace :: (l.right ++ strings l.behind) := by
    simp [l.fields_eq, strings, Field.text]
  have hclosed (rest : Bytes) :
      openBraces 1 ((strings l.before ++ l.left) ++ rbrace :: rest) = none :=
    openBraces_closing hl
  have hnil : l.right = [] ∧ strings l.behind = [] ↔ l.right ++ strings l.behind = [] :=
    List.append_eq_nil_iff.symm
  rw [hs, hnil]
  cases p
  case false => simp only [Bool.false_eq_true, if_false, hclosed, false_and, ne_eq, not_true]
  case true =>
    by_cases hn : l.right ++ strings l.behind = []
    case pos => simp [hn, hl]
    case neg =>
      have hd : ((strings l.before ++ l.left) ++ rbrace :: (l.right ++ strings l.behind)).dropLast =
          (strings l.before ++ l.left) ++ rbrace :: (l.right ++ strings l.behind).dropLast := by
        rw [List.dropLast_append_of_ne_nil (by simp), List.dropLast_cons_of_ne_nil hn]
      simp only [if_true, hd, hclosed, hn]
      simp

theorem reads_whole {depth : Nat} (h : openBraces 1 (F.body e) = some depth) (rest : Bytes) :
    F.FullyReads (lbrace :: (walkObject 1 (F.body e ++ rbrace :: rest)).1) e := by
  have ⟨r, hr⟩ : ∃ r, (walkObject depth (rbrace :: rest)).1 = rbrace :: r := by
    rw [walkObject]
    split
    case isTrue  => exact ⟨[], rfl⟩
    case isFalse => exact ⟨_, rfl⟩
  have ht : lbrace :: (walkObject 1 (F.body e ++ rbrace :: rest)).1 = F.text e ++ r := by
    rw [walkObject_through h, hr, text_eq]
    simp
  exact ht ▸ reads_text r

def held (F : Format α) (e : α) : Bytes :=
  strings (F.fields e)

-- Up to the last byte that must be within the object. Behind the strings of a plain entry stands
-- nothing but what a reader takes for granted.
def needed (F : Format α) (plain : α → Bool) (e : α) : Bytes :=
  if plain e then (F.held e).dropLast else F.held e

def Yielded (F : Format α) (es : List α) : Prop :=
  Yields F.FullyReads (fun _ => False) (extractJsonObjectArray (F.behind es)) es

theorem yielded_cons : Yielded F (e :: es) ↔
    F.FullyReads (lbrace :: (walkObject 1 (F.body e ++ rbrace :: F.behind es)).1) e ∧
      Yields F.FullyReads (fun _ => False)
        (extractJsonObjectArray (walkObject 1 (F.body e ++ rbrace :: F.behind es)).2) es := by
  rw [Yielded, behind_cons, extractJsonObjectArray_comma, extractJsonObjectArray_lbrace,
    yields_cons not_false]

-- An entry that is cut off is read if nothing is lost, and it is the last one then: what is left
-- of it begins with a quote.
theorem yielded_cut {plain : α → Bool} (h : openBraces 1 (F.held e) = none)
    (hp : ∀ l : Located F e rbrace, plain e ↔ ∀ k, (k, Field.bool false) ∉ l.behind) :
    Yielded F (e :: es) ↔ es = [] ∧ openBraces 1 (F.needed plain e) ≠ none := by
  have ⟨a, b, hbody, ha⟩ := exists_closing (openBraces_body.trans h)
  have ⟨l, ho, hl, hb⟩ := located_of_body (.inr rfl) hbody
  have hw : walkObject 1 (F.body e ++ rbrace :: F.behind es) =
      (a ++ [rbrace], b ++ rbrace :: F.behind es) := by
    rw [hbody, List.append_assoc, List.cons_append, walkObject_closing ha]
  have hneeded : openBraces 1 (F.needed plain e) ≠ none ↔ _ :=
    openBraces_needed l (hl ▸ ha) (plain e)
  rw [yielded_cons, hw, brokenOff_brace ho, reads_cut l, hneeded, hp l]
  have hquote (hr : l.right = []) :
      extractJsonObjectArray (b ++ rbrace :: F.behind es) = [] := by
    rw [hb, hr]
    exact extractJsonObjectArray_end (by decide) (by decide)
  constructor
  case mp  => exact fun ⟨⟨hr, hs, hf⟩, hy⟩ => ⟨yields_nil.mp (hquote hr ▸ hy), hf, hr, hs⟩
  case mpr => exact fun ⟨hes, hf, hr, hs⟩ => ⟨⟨hr, hs, hf⟩, hquote hr ▸ yields_nil.mpr hes⟩

-- An entry that is not cut off is read, but what is still open behind it swallows the next one.
theorem yielded_whole {depth : Nat} (h : openBraces 1 (F.held e) = some depth) :
    Yielded F (e :: es) ↔ es = [] ∨ depth = 1 ∧ Yielded F es := by
  have hb : openBraces 1 (F.body e) = some depth := openBraces_body.trans h
  have hpos := openBraces_pos hb (Nat.le_refl 1)
  rw [yielded_cons, and_iff_right (reads_whole hb (F.behind es))]
  by_cases hd : depth = 1
  case pos =>
    rw [walkObject_closing (hd ▸ hb), and_iff_right hd]
    refine ⟨.inr, fun hy => hy.elim (fun he => ?_) id⟩
    exact he ▸ yields_nil.mpr rfl
  case neg =>
    obtain ⟨d, hd⟩ : ∃ d, depth = d + 2 := ⟨depth - 2, by omega⟩
    have ho : openBraces 1 (F.body e ++ [rbrace]) ≠ none := by
      rw [openBraces_append, hb, hd, Option.bind_some, openBraces_rbrace]
      simp [openBraces]
    have hlate := (@late_of_open _ F es _) ho
    have happend : F.body e ++ [rbrace] ++ F.behind es = F.body e ++ rbrace :: F.behind es := by
      simp
    rw [happend] at hlate
    rcases hlate with hn | hl
    case inl => simp [hn, hd, extractJsonObjectArray_nil, yields_nil]
    case inr =>
      obtain ⟨_, _, he⟩ := hl.exists_cons
      have hy := (@Late.not_yields _ F es _ F.FullyReads fun _ => False)
        (fun _ _ hw _ => hw.not_fullyReads) hl
      exact iff_of_false hy (by simp [he, hd])

variable {plain : α → Bool}

-- The entries that are written are read exactly when they are legible.
theorem yielded_iff
    (hp : ∀ e (l : Located F e rbrace), plain e ↔ ∀ k, (k, Field.bool false) ∉ l.behind)
    (es : List α) : Yielded F es ↔ Legible F.held (F.needed plain) es := by
  induction es
  case nil => exact iff_of_true (yields_nil.mpr rfl) legible_nil
  case cons e es hi =>
    cases h : openBraces 1 (F.held e)
    case none =>
      rw [yielded_cut h (hp e)]
      by_cases hes : es = []
      case pos => rw [hes, legible_single, and_iff_right rfl]
      case neg => simp [legible_cons hes, hes, h]
    case some depth =>
      have hneeded : openBraces 1 (F.needed plain e) ≠ none := by
        rw [needed]
        split
        case isFalse => simp [h]
        case isTrue  =>
          have ⟨last, hl⟩ := List.dropLast_prefix (F.held e)
          exact Option.isSome_iff_ne_none.mp (openBraces_append_left (hl.symm ▸ h))
      rw [yielded_whole h]
      by_cases hes : es = []
      case pos => simp [hes, legible_single, hneeded]
      case neg => simp [legible_cons hes, hes, h, hi]

theorem plain_of_noFlags (h : ∀ f ∈ F.fields e, ∀ b, f.2 ≠ .bool b) (l : Located F e rbrace) :
    true ↔ ∀ k, (k, Field.bool false) ∉ l.behind :=
  iff_of_true rfl fun k hm => h (k, .bool false) (by simp [l.fields_eq, hm]) false rfl

-- A flag behind the strings of an entry.
theorem plain_of_flag {fields : List (Bytes × Field)} {key : Bytes} {flag : Bool}
    (hf : F.fields e = fields ++ [(key, .bool flag)]) (h : ∀ f ∈ fields, ∀ b, f.2 ≠ .bool b)
    (l : Located F e rbrace) : flag ↔ ∀ k, (k, Field.bool false) ∉ l.behind := by
  have hl := l.fields_eq
  rw [hf] at hl
  obtain hb | ⟨behind, f, hb⟩ := List.eq_nil_or_concat l.behind
  case inl =>
    rw [hb] at hl
    have := congrArg List.getLast? hl
    simp at this
  case inr =>
    rw [List.concat_eq_append] at hb
    rw [hb, ← List.cons_append, ← List.append_assoc] at hl
    have ⟨hfields, hflag⟩ := List.append_inj' hl rfl
    have hf := (List.cons.inj hflag).left
    rw [hb, ← hf]
    constructor
    case mp =>
      intro ht k hm
      rcases List.mem_append.mp hm with hm | hm
      case inl => exact h (k, .bool false) (by simp [hfields, hm]) false rfl
      case inr => simp [ht] at hm
    case mpr =>
      intro hn
      by_contra hfalse
      exact hn key (by simp [Bool.eq_false_iff.mpr hfalse])

end Legible

end Format
end Droidcli.Ai
