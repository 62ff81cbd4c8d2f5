import Mathlib

-- Paths as what they lead to: a path is split at its separators, any number of which stand for one.
namespace Paths

variable {α : Type} {sep : α → Bool} {a b directory name : List α} {s : α}

def components (sep : α → Bool) (path : List α) : List (List α) :=
  (path.splitOnP sep).filter (!·.isEmpty)

-- The separators that a path begins with tell its root.
structure Location (α : Type) where
  root : List α
  components : List (List α)

def location (sep : α → Bool) (path : List α) : Location α :=
  ⟨path.takeWhile sep, components sep path⟩

def Location.entry (directory : Location α) (name : List α) : Location α :=
  { directory with components := directory.components ++ [name] }

theorem components_append_cons (hs : sep s) :
    components sep (a ++ s :: b) = components sep a ++ components sep b := by
  rw [components, List.splitOnP_append_cons a b hs, List.filter_append]
  rfl

theorem components_of_plain (hn : name ≠ []) (hp : ∀ c ∈ name, sep c = false) :
    components sep name = [name] := by
  simp [components, List.splitOnP_eq_singleton hp, hn]

theorem components_behind (hn : name ≠ []) (hp : ∀ c ∈ name, sep c = false) (hs : sep s) :
    components sep (a ++ s :: name) = components sep a ++ [name] := by
  rw [components_append_cons hs, components_of_plain hn hp]

theorem takeWhile_behind (hs : sep s) :
    (a ++ s :: b).takeWhile sep = if ∀ c ∈ a, sep c then a ++ s :: b.takeWhile sep else a.takeWhile sep := by
  split_ifs with h
  case pos => simp [List.takeWhile_append_of_pos h, hs]
  case neg =>
    rw [List.takeWhile_append, if_neg]
    intro hl
    exact h (List.takeWhile_eq_self_iff.mp ((List.takeWhile_prefix sep).eq_of_length hl))

theorem takeWhile_of_plain (hn : name ≠ []) (hp : ∀ c ∈ name, sep c = false) :
    name.takeWhile sep = [] := by
  cases name
  case nil         => contradiction
  case cons c name => simp [hp c List.mem_cons_self]

-- A name behind a directory that ends with a separator.
theorem location_behind (hn : name ≠ []) (hp : ∀ c ∈ name, sep c = false) (hs : sep s) :
    location sep (a ++ s :: name) = (location sep (a ++ [s])).entry name := by
  have ha : components sep (a ++ [s]) = components sep a := by
    rw [components_append_cons hs]
    simp [components]
  simp only [location, Location.entry, components_behind hn hp hs, ha, takeWhile_behind hs,
    takeWhile_of_plain hn hp, List.takeWhile_nil]

-- A name behind a directory that ends without one, with a separator between them.
theorem location_joined (hd : ∃ c ∈ directory.getLast?, sep c = false) (hn : name ≠ [])
    (hp : ∀ c ∈ name, sep c = false) (hs : sep s) :
    location sep (directory ++ s :: name) = (location sep directory).entry name := by
  have ⟨c, hc, hl⟩ := hd
  have hany : ¬∀ c ∈ directory, sep c :=
    fun h => absurd (h c (List.mem_of_getLast? hc)) (by simp [hl])
  simp only [location, Location.entry, components_behind hn hp hs, takeWhile_behind hs, if_neg hany]

end Paths
