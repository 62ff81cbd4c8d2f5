import Mathlib

-- A list and a position within it, from which it is read.
structure Cursor (α : Type) where
  items : List α
  position : Nat
  within : position ≤ items.length

namespace Cursor

variable {α : Type} (c : Cursor α) {m n : Nat} {position : Int}

def start (items : List α) : Cursor α :=
  ⟨items, 0, items.length.zero_le⟩

-- The next `n` items, or those that are left.
def read (n : Nat) : List α :=
  (c.items.drop c.position).take n

-- A position outside of the list is moved to the nearer of its ends.
def seek (position : Int) : Cursor α :=
  ⟨c.items, min position.toNat c.items.length, Nat.min_le_right ..⟩

def skip (n : Nat) : Cursor α :=
  c.seek (c.position + n)

@[simp]
theorem seek_items : (c.seek position).items = c.items :=
  rfl

@[simp]
theorem skip_items : (c.skip n).items = c.items :=
  rfl

theorem seek_position : (c.seek position).position = min position.toNat c.items.length :=
  rfl

theorem skip_position : (c.skip n).position = min (c.position + n) c.items.length :=
  rfl

@[simp]
theorem read_length : (c.read n).length = min n (c.items.length - c.position) := by
  simp [read]

@[ext]
theorem ext {c c' : Cursor α} (hi : c.items = c'.items) (hp : c.position = c'.position) :
    c = c' := by
  cases c
  cases c'
  simp_all

theorem skip_of_read_nil (h : c.read n = []) : c.skip n = c := by
  have hl := c.read_length (n := n)
  have hw := c.within
  ext1
  case hi => rfl
  case hp =>
    rw [h, List.length_nil] at hl
    rw [skip_position]
    omega

-- Two reads, one behind the other, are one.
theorem read_append : c.read m ++ (c.skip m).read n = c.read (m + n) := by
  have hd : c.items.drop (c.skip m).position = (c.items.drop c.position).drop m := by
    rw [skip_position, List.drop_drop]
    cases Nat.le_total (c.position + m) c.items.length
    case inl h => rw [Nat.min_eq_left h]
    case inr h => rw [Nat.min_eq_right h, List.drop_length, List.drop_eq_nil_of_le h]
  rw [read, read, skip_items, hd, read, List.take_add]

theorem seek_of_nonpos (h : position ≤ 0) : c.seek position = c.seek 0 := by
  ext1
  case hi => rfl
  case hp => simp [seek, Int.toNat_of_nonpos h]

end Cursor
