import Mathlib

-- A map as the list of its entries, in the order of their keys.
abbrev Table (κ α : Type) :=
  List (κ × α)

namespace Table

variable {κ α : Type} [DecidableEq κ] [LT κ] [DecidableLT κ]

def get? (key : κ) : Table κ α → Option α
  | []               => none
  | (k, a) :: table => if k = key then some a else get? key table

def set (key : κ) (a : α) : Table κ α → Table κ α
  | []              => [(key, a)]
  | (k, b) :: table =>
    if key = k then (key, a) :: table
    else if key < k then (key, a) :: (k, b) :: table
    else (k, b) :: set key a table

@[simp]
theorem get?_set {key other : κ} {a : α} {table : Table κ α} :
    get? other (set key a table) = if key = other then some a else get? other table := by
  induction table
  case nil => rfl
  case cons entry table hi =>
    obtain ⟨k, b⟩ := entry
    rw [set]
    split
    case isTrue hk =>
      subst hk
      simp only [get?]
      split <;> rfl
    case isFalse hk =>
      split
      case isTrue => rfl
      case isFalse =>
        rw [get?, get?, hi]
        by_cases ho : k = other
        case pos => simp [ho ▸ hk, ho]
        case neg => simp [ho]

end Table
