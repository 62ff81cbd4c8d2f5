import Droidcli.Lib.Segments
import Droidcli.Reliability.Guards

namespace Droidcli.Reliability

open Bytes

-- The segments of a path between its separators.
def segments (path : Bytes) : List Bytes :=
  path.splitOnP isSeparator

-- A path that is the directory, or a separator behind it and more.
def Within (directory path : Bytes) : Prop :=
  path = directory ∨ ∃ c rest, isSeparator c ∧ path = directory ++ c :: rest

section Component

variable {left : Option UInt8} {c : UInt8} {path : Bytes} {skip : ℕ}

-- What the search loop looks for behind the bytes that it skips; `left` is the byte before `path`.
def Occurs (skip : ℕ) (left : Option UInt8) (path : Bytes) : Prop :=
  ∃ a b, path = a ++ str "desktop" ++ b ∧ skip ≤ a.length ∧
    (∀ c ∈ a.getLast?.or left, isSeparator c) ∧ (∀ c ∈ b.head?, isSeparator c)

theorem occurs_cons_iff : Occurs (skip + 1) left (c :: path) ↔ Occurs skip (some c) path := by
  constructor
  case mp =>
    intro ⟨a, b, hp, hs, ha, hb⟩
    cases a
    case nil => simp at hs
    case cons c' a =>
      have ⟨hc, hp⟩ := List.cons.inj hp
      refine ⟨a, b, hp, by simpa using hs, ?_, hb⟩
      subst hc
      cases hl : a.getLast? <;> simpa [List.getLast?_cons, hl] using ha
  case mpr =>
    intro ⟨a, b, hp, hs, ha, hb⟩
    refine ⟨c :: a, b, by simp [hp], by simpa using hs, ?_, hb⟩
    cases hl : a.getLast? <;> simpa [List.getLast?_cons, hl] using ha

-- An occurrence begins at the cursor or behind it.
theorem occurs_zero_iff : Occurs 0 left path ↔
    (∃ b, path = str "desktop" ++ b ∧ (∀ c ∈ left, isSeparator c) ∧ ∀ c ∈ b.head?, isSeparator c) ∨
      Occurs 1 left path := by
  constructor
  case mp =>
    intro ⟨a, b, hp, hs, ha, hb⟩
    cases a
    case nil      => exact .inl ⟨b, hp, by simpa using ha, hb⟩
    case cons x a => exact .inr ⟨x :: a, b, hp, by simp, ha, hb⟩
  case mpr =>
    intro h
    cases h
    case inl h =>
      have ⟨b, hp, hl, hb⟩ := h
      exact ⟨[], b, hp, le_rfl, by simpa using hl, hb⟩
    case inr h =>
      have ⟨a, b, hp, _, ha, hb⟩ := h
      exact ⟨a, b, hp, Nat.zero_le _, ha, hb⟩

-- No segment begins within the word.
theorem occurs_of_matches (hm : str "desktop" <+: path) (h : Occurs 1 left path) :
    Occurs 7 left path := by
  have ⟨a, b, hp, hs, ha, hb⟩ := h
  refine ⟨a, b, hp, ?_, ha, hb⟩
  by_contra hlt
  have hpre : a <+: str "desktop" := by
    have hap : a <+: path := ⟨str "desktop" ++ b, by simp [hp]⟩
    have hl : (str "desktop").length = 7 := rfl
    exact List.prefix_of_prefix_length_le hap hm (by omega)
  have hn : ∀ c ∈ str "desktop", isSeparator c = false := by decide
  cases hl : a.getLast?
  case none   => simp_all [List.getLast?_eq_none_iff]
  case some c =>
    have hc : isSeparator c := ha c (by simp [hl])
    exact absurd hc (by simp [hn c (hpre.subset (List.mem_of_getLast? hl))])

theorem not_occurs_nil : ¬Occurs skip left [] := by
  intro ⟨a, b, hp, _⟩
  have hl := congrArg List.length hp
  have hd : (str "desktop").length = 7 := rfl
  simp only [List.length_nil, List.length_append] at hl
  omega

theorem hasDesktopComponent_iff : hasDesktopComponent skip left path ↔ Occurs skip left path := by
  fun_induction hasDesktopComponent skip left path
  case case1 => simp [not_occurs_nil]
  case case2 ih => rw [ih, occurs_cons_iff]
  case case3 left c path hm right ih =>
    have ⟨b, hb⟩ := hm
    have hr : right = b.head? := by
      simp only [right, ← hb]
      rfl
    rw [occurs_zero_iff, Bool.or_eq_true, Bool.and_eq_true, ih, ← occurs_cons_iff, hr]
    refine or_congr ?_ ⟨?_, occurs_of_matches hm⟩
    case refine_1 =>
      constructor
      case mp  => exact fun h => ⟨b, hb.symm, by simpa [Option.all_eq_true] using h⟩
      case mpr =>
        intro ⟨b', hb', h⟩
        obtain rfl : b = b' := List.append_cancel_left (hb.trans hb')
        simpa [Option.all_eq_true] using h
    case refine_2 => exact fun ⟨a, b, hp, hs, h⟩ => ⟨a, b, hp, by omega, h⟩
  case case4 left c path hm ih =>
    rw [ih, ← @occurs_cons_iff left c path 0, occurs_zero_iff, or_iff_right]
    exact fun ⟨b, hb, _⟩ => hm ⟨b, hb.symm⟩

theorem hasDesktopComponent_segments :
    hasDesktopComponent 0 none path ↔ str "desktop" ∈ segments path := by
  have hd : ∀ c ∈ str "desktop", isSeparator c = false := by decide
  rw [hasDesktopComponent_iff, segments, List.mem_splitOnP_iff]
  constructor
  case mp =>
    intro ⟨a, b, hp, _, ha, hb⟩
    exact ⟨hd, a, b, hp, by simpa using ha, hb⟩
  case mpr =>
    intro ⟨_, a, b, hp, ha, hb⟩
    exact ⟨a, b, hp, Nat.zero_le _, by simpa using ha, hb⟩

end Component

section Invented

variable {path directory : Bytes}

def Invented (path directory : Bytes) : Prop :=
  str "desktop" ∈ segments (lowered path) ∧ ¬Within (lowered directory) (lowered path)

-- A path that merely begins with the letters of the directory: a folder beside it, say.
def Beside (path directory : Bytes) : Prop :=
  ∃ c rest, isSeparator c = false ∧ path = directory ++ c :: rest

theorem prefix_iff_within_or_beside :
    directory <+: path ↔ Within directory path ∨ Beside path directory := by
  constructor
  case mp =>
    intro ⟨rest, h⟩
    cases rest
    case nil => exact .inl (.inl (by simpa using h.symm))
    case cons c rest =>
      cases hc : isSeparator c
      case true  => exact .inl (.inr ⟨c, rest, hc, h.symm⟩)
      case false => exact .inr ⟨c, rest, hc, h.symm⟩
  case mpr =>
    intro h
    cases h
    case inl h =>
      cases h
      case inl h => exact h ▸ List.prefix_rfl
      case inr h =>
        have ⟨c, rest, _, h⟩ := h
        exact ⟨c :: rest, h.symm⟩
    case inr h =>
      have ⟨c, rest, _, h⟩ := h
      exact ⟨c :: rest, h.symm⟩

theorem Within.not_beside (h : Within directory path) : ¬Beside path directory := by
  intro ⟨c, rest, hc, hp⟩
  cases h
  case inl h => simpa using congrArg List.length (h.symm.trans hp)
  case inr h =>
    have ⟨c', rest', hc', hp'⟩ := h
    have he : c' = c := (List.cons.inj (List.append_cancel_left (hp'.symm.trans hp))).left
    exact absurd hc (by simp [← he, hc'])

theorem looksLikeInventedDesktopPath_iff (h : directory ≠ []) :
    looksLikeInventedDesktopPath path directory ↔
      str "desktop" ∈ segments (lowered path) ∧ ¬lowered directory <+: lowered path := by
  rw [looksLikeInventedDesktopPath, if_neg h, ← hasDesktopComponent_segments]
  split_ifs <;> simp_all

-- The check is exact but for the paths with a segment `desktop` that begin with the letters of the
-- Desktop's path and go on with another letter.
theorem looksLikeInventedDesktopPath_exact_iff (h : directory ≠ []) :
    (looksLikeInventedDesktopPath path directory ↔ Invented path directory) ↔
      ¬(str "desktop" ∈ segments (lowered path) ∧ Beside (lowered path) (lowered directory)) := by
  rw [looksLikeInventedDesktopPath_iff h, Invented, prefix_iff_within_or_beside, not_or]
  have hw := @Within.not_beside (lowered path) (lowered directory)
  tauto

theorem looksLikeInventedDesktopPath_exact_iff_root :
    (looksLikeInventedDesktopPath "C:\\desktop\\hello" "C:\\Users\\me\\Desktop" ↔
        Invented "C:\\desktop\\hello" "C:\\Users\\me\\Desktop") ↔
      ¬(str "desktop" ∈ segments (lowered "C:\\desktop\\hello") ∧
        Beside (lowered "C:\\desktop\\hello") (lowered "C:\\Users\\me\\Desktop")) :=
  looksLikeInventedDesktopPath_exact_iff (by decide)

-- A folder beside the Desktop, and a `desktop` in it.
theorem not_looksLikeInventedDesktopPath_exact :
    ¬∀ path directory : Bytes, directory ≠ [] → directory.getLast?.all (!isSeparator ·) →
      (looksLikeInventedDesktopPath path directory ↔ Invented path directory) := by
  intro h
  have hi : Invented "C:\\Desktop2\\desktop\\a.txt" "C:\\Desktop" :=
    ⟨by decide, fun hw => hw.not_beside ⟨0x32, "\\desktop\\a.txt", by decide, by decide⟩⟩
  exact absurd ((h _ _ (by decide) (by decide)).mpr hi) (by decide)

end Invented
end Droidcli.Reliability
