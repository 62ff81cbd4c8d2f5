import Droidcli.Ai.OpenAICompatClient
import Mathlib.Tactic.SplitIfs

namespace Droidcli.Ai

open Bytes Net

section Walk

variable {depth depth' : Nat} {s t text : Bytes} {c : UInt8}

-- How many braces are open behind a text, or `none` if the last one is closed within it.
def openBraces : Nat → Bytes → Option Nat
  | depth, []        => some depth
  | depth, c :: text =>
    if c = rbrace ∧ depth = 1 then none
    else openBraces (if c = lbrace then depth + 1 else if c = rbrace then depth - 1 else depth) text

theorem openBraces_plain (hl : c ≠ lbrace) (hr : c ≠ rbrace) :
    openBraces depth (c :: s) = openBraces depth s := by
  simp [openBraces, hl, hr]

theorem openBraces_lbrace : openBraces depth (lbrace :: s) = openBraces (depth + 1) s := by
  rw [openBraces, if_neg (fun h => absurd h.left (by decide)), if_pos rfl]

theorem openBraces_rbrace : openBraces (depth + 2) (rbrace :: s) = openBraces (depth + 1) s := by
  rw [openBraces, if_neg (by simp), if_neg (by decide), if_pos rfl]
  rfl

theorem openBraces_append :
    openBraces depth (s ++ t) = (openBraces depth s).bind (openBraces · t) := by
  induction s generalizing depth
  case nil => rfl
  case cons c s hi =>
    simp only [List.cons_append, openBraces]
    split_ifs <;> simp [hi]

theorem openBraces_flatMap_congr {α : Type} {xs : List α} {f g : α → Bytes}
    (h : ∀ x ∈ xs, ∀ depth, openBraces depth (f x) = openBraces depth (g x)) :
    openBraces depth (xs.flatMap f) = openBraces depth (xs.flatMap g) := by
  induction xs generalizing depth
  case nil => rfl
  case cons x xs hi =>
    have hi {d : Nat} := @hi d fun x hx => h x (List.mem_cons_of_mem _ hx)
    rw [List.flatMap_cons, List.flatMap_cons, openBraces_append, openBraces_append, h x (by simp)]
    simp only [hi]

def NoBraces (s : Bytes) : Prop :=
  lbrace ∉ s ∧ rbrace ∉ s

instance (s : Bytes) : Decidable (NoBraces s) :=
  inferInstanceAs (Decidable (_ ∧ _))

theorem openBraces_noBraces (h : NoBraces s) : openBraces depth s = some depth := by
  induction s
  case nil => rfl
  case cons c s hi =>
    have ⟨hl, hr⟩ := h
    simp only [List.mem_cons, not_or] at hl hr
    simp [openBraces, Ne.symm hl.left, Ne.symm hr.left, hi ⟨hl.right, hr.right⟩]

theorem noBraces_append (hs : NoBraces s) (ht : NoBraces t) : NoBraces (s ++ t) :=
  ⟨by simp [hs.left, ht.left], by simp [hs.right, ht.right]⟩

theorem openBraces_append_noBraces (ht : NoBraces t) :
    openBraces depth (s ++ t) = openBraces depth s := by
  rw [openBraces_append]
  cases openBraces depth s
  case none   => rfl
  case some d => exact openBraces_noBraces ht

theorem openBraces_noBraces_append (hs : NoBraces s) :
    openBraces depth (s ++ t) = openBraces depth t := by
  rw [openBraces_append, openBraces_noBraces hs, Option.bind_some]

theorem escapeJsonChar_braces (c : UInt8) :
    openBraces depth (escapeJsonChar c) = openBraces depth [c] := by
  rw [escapeJsonChar]
  split_ifs with hb hq hl hr ht
  case pos => rw [hb, openBraces_noBraces (by decide), openBraces_noBraces (by decide)]
  case pos => rw [hq, openBraces_noBraces (by decide), openBraces_noBraces (by decide)]
  case pos => rw [hl, openBraces_noBraces (by decide), openBraces_noBraces (by decide)]
  case pos => rw [hr, openBraces_noBraces (by decide), openBraces_noBraces (by decide)]
  case pos => rw [ht, openBraces_noBraces (by decide), openBraces_noBraces (by decide)]
  case neg => rfl

-- Escaping leaves the braces of a string as they are.
theorem openBraces_escape : openBraces depth (escapeJsonString s) = openBraces depth s := by
  induction s generalizing depth
  case nil => rfl
  case cons c s hi =>
    have he : escapeJsonString (c :: s) = escapeJsonChar c ++ escapeJsonString s := rfl
    have hc : c :: s = [c] ++ s := rfl
    rw [he, hc, openBraces_append, openBraces_append, escapeJsonChar_braces]
    simp only [hi]

theorem walkObject_through (h : openBraces depth s = some depth') :
    walkObject depth (s ++ t) = (s ++ (walkObject depth' t).1, (walkObject depth' t).2) := by
  induction s generalizing depth
  case nil =>
    cases h
    rfl
  case cons c s hi =>
    rw [openBraces] at h
    split at h
    case isTrue     => contradiction
    case isFalse hn =>
      rw [List.cons_append, walkObject, if_neg hn]
      simp [hi h]

theorem walkObject_end (h : openBraces depth s = some depth') : walkObject depth s = (s, []) := by
  have := walkObject_through (t := []) h
  simpa [walkObject] using this

-- The brace at which the last one is closed.
theorem exists_closing (h : openBraces depth s = none) :
    ∃ before behind, s = before ++ rbrace :: behind ∧ openBraces depth before = some 1 := by
  induction s generalizing depth
  case nil => contradiction
  case cons c s hi =>
    rw [openBraces] at h
    split at h
    case isTrue hc =>
      exact ⟨[], s, by rw [hc.left]; rfl, by rw [hc.right]; rfl⟩
    case isFalse hn =>
      have ⟨before, behind, he, hb⟩ := hi h
      refine ⟨c :: before, behind, by rw [he]; rfl, ?_⟩
      rw [openBraces, if_neg hn]
      exact hb

theorem walkObject_closing (h : openBraces depth s = some 1) :
    walkObject depth (s ++ rbrace :: t) = (s ++ [rbrace], t) := by
  rw [walkObject_through h]
  simp [walkObject]

theorem openBraces_closing (h : openBraces depth s = some 1) :
    openBraces depth (s ++ rbrace :: t) = none := by
  rw [openBraces_append, h]
  simp [openBraces]

-- There is only one such brace.
theorem closing_unique {s' t' : Bytes} (h : openBraces depth s = some 1)
    (h' : openBraces depth s' = some 1) (he : s ++ rbrace :: t = s' ++ rbrace :: t') :
    s = s' ∧ t = t' := by
  have hw := walkObject_closing (t := t) h
  rw [he, walkObject_closing h'] at hw
  have ⟨hs, ht⟩ := Prod.ext_iff.mp hw
  exact ⟨(List.append_cancel_right hs).symm, ht.symm⟩

theorem openBraces_pos (h : openBraces depth s = some depth') (hd : 1 ≤ depth) : 1 ≤ depth' := by
  induction s generalizing depth
  case nil => exact Option.some.inj h ▸ hd
  case cons c s hi =>
    rw [openBraces] at h
    split_ifs at h with hn hl hr
    case pos => exact hi h (Nat.le_succ_of_le hd)
    case pos => exact hi h (by have : depth ≠ 1 := fun he => hn ⟨hr, he⟩; omega)
    case neg => exact hi h hd

theorem walkObject_append (depth : Nat) (text : Bytes) :
    (walkObject depth text).1 ++ (walkObject depth text).2 = text := by
  induction text generalizing depth
  case nil => rfl
  case cons c text hi =>
    rw [walkObject]
    split
    case isTrue  => rfl
    case isFalse => simp [hi]

end Walk

section Array

variable {rounds n m : Nat} {text t : Bytes} {c : UInt8}

theorem walkObject_lbrace : walkObject 0 (lbrace :: t) =
    (lbrace :: (walkObject 1 t).1, (walkObject 1 t).2) := by
  rw [walkObject]
  rfl

theorem extractObjects_cons (n : Nat) (text : Bytes) : extractObjects (n + 1) text =
    match text.dropWhile isJsonGap with
    | c :: t =>
      if c = lbrace then (lbrace :: (walkObject 1 t).1) :: extractObjects n (walkObject 1 t).2 else []
    | []     => [] := by
  rw [extractObjects]
  cases text.dropWhile isJsonGap
  case nil      => rfl
  case cons c t =>
    by_cases hc : c = lbrace
    case pos => simp only [hc, if_true, walkObject_lbrace]
    case neg => simp only [hc, if_false]

-- Any number of rounds that covers the text is enough.
theorem extractObjects_rounds (hn : text.length ≤ n) (hm : text.length ≤ m) :
    extractObjects n text = extractObjects m text := by
  induction n generalizing m text
  case zero =>
    have ht : text = [] := List.length_eq_zero_iff.mp (Nat.le_zero.mp hn)
    cases m
    case zero   => rfl
    case succ m => rw [ht, extractObjects_cons]; rfl
  case succ n hi =>
    cases m
    case zero =>
      have ht : text = [] := List.length_eq_zero_iff.mp (Nat.le_zero.mp hm)
      rw [ht, extractObjects_cons]
      rfl
    case succ m =>
      rw [extractObjects_cons, extractObjects_cons]
      cases hd : text.dropWhile isJsonGap
      case nil      => rfl
      case cons c t =>
        have hw := walkObject_length 1 t
        have hs := (List.dropWhile_suffix (l := text) isJsonGap).length_le
        rw [hd, List.length_cons] at hs
        dsimp only
        rw [hi (m := m) (by omega) (by omega)]

theorem extractJsonObjectArray_eq (text : Bytes) : extractJsonObjectArray text =
    match text.dropWhile isJsonGap with
    | c :: t =>
      if c = lbrace then (lbrace :: (walkObject 1 t).1) :: extractJsonObjectArray (walkObject 1 t).2
      else []
    | []     => [] := by
  have hr : extractJsonObjectArray text = extractObjects (text.length + 1) text :=
    extractObjects_rounds (Nat.le_refl _) (Nat.le_succ _)
  rw [hr, extractObjects_cons]
  cases hd : text.dropWhile isJsonGap
  case nil      => rfl
  case cons c t =>
    have hw := walkObject_length 1 t
    have hs := (List.dropWhile_suffix (l := text) isJsonGap).length_le
    rw [hd, List.length_cons] at hs
    dsimp only
    rw [extractObjects_rounds (m := (walkObject 1 t).2.length) (by omega) (Nat.le_refl _)]
    rfl

-- The array ends where no object begins.
theorem extractJsonObjectArray_end (hg : ¬isJsonGap c) (hc : c ≠ lbrace) :
    extractJsonObjectArray (c :: t) = [] := by
  rw [extractJsonObjectArray_eq]
  simp [hg, hc]

theorem extractJsonObjectArray_object (h : text.head? = some lbrace) :
    extractJsonObjectArray text =
      (walkObject 0 text).1 :: extractJsonObjectArray (walkObject 0 text).2 := by
  have ⟨t, ht⟩ := List.head?_eq_some_iff.mp h
  rw [ht, extractJsonObjectArray_eq, walkObject_lbrace]
  rfl

theorem extractJsonObjectArray_comma :
    extractJsonObjectArray (comma :: t) = extractJsonObjectArray t := by
  rw [extractJsonObjectArray_eq, extractJsonObjectArray_eq t]
  rfl

end Array
end Droidcli.Ai
