import Mathlib

-- A pipe that nobody waits on. `held` is whether the process whose output it carries has its write
-- end, and `shared` whether any other process has. What has been written is kept only to compare
-- what is read with it.
structure Pipe (α : Type) where
  unread : List α
  written : List α
  held : Bool
  shared : Bool

namespace Pipe

variable {α : Type} {p p' : Pipe α}

def opened : Pipe α :=
  ⟨[], [], true, false⟩

-- What those who have the write end can do with it.
inductive Use (α : Type)
  | write (data : List α)
  | close
  | share
  | writeShared (data : List α)
  | release

def use (p : Pipe α) : Use α → Option (Pipe α)
  | .write data       =>
    if p.held then some { p with unread := p.unread ++ data, written := p.written ++ data }
    else none
  | .close            => if p.held then some { p with held := false } else none
  | .share            => if p.held ∨ p.shared then some { p with shared := true } else none
  | .writeShared data =>
    if p.shared then some { p with unread := p.unread ++ data, written := p.written ++ data }
    else none
  | .release          => if p.shared then some { p with shared := false } else none

def closed (p : Pipe α) : Pipe α :=
  { p with held := false }

inductive Received (α : Type)
  | data (data : List α)
  | wouldBlock
  | eof

-- `read` of at most `n` elements, on the end that does not block.
def read (n : Nat) (p : Pipe α) : Received α × Pipe α :=
  if p.unread = [] then (if p.held ∨ p.shared then .wouldBlock else .eof, p)
  else (.data (p.unread.take n), { p with unread := p.unread.drop n })

-- All that will ever be written has been read.
structure Ended (p : Pipe α) : Prop where
  unread : p.unread = []
  held   : p.held = false
  shared : p.shared = false

theorem Ended.use (h : p.Ended) (u : Use α) : p.use u = none := by
  cases u <;> simp [Pipe.use, h.held, h.shared]

theorem Ended.closed (h : p.Ended) : p.closed = p := by
  simp [Pipe.closed, ← h.held]

theorem use_appends {u : Use α} (h : p.use u = some p') :
    ∃ data, p'.unread = p.unread ++ data ∧ p'.written = p.written ++ data := by
  cases u
  case write data | writeShared data =>
    simp only [use, Option.ite_none_right_eq_some] at h
    exact ⟨data, by simp [← Option.some.inj h.right], by simp [← Option.some.inj h.right]⟩
  all_goals
    simp only [use, Option.ite_none_right_eq_some] at h
    exact ⟨[], by simp [← Option.some.inj h.right], by simp [← Option.some.inj h.right]⟩

-- What one `read` does, by what it returns.
theorem read_data {n : Nat} {data : List α} (h : p.read n = (.data data, p')) :
    data ++ p'.unread = p.unread ∧ p'.written = p.written ∧ ¬p.Ended := by
  rw [read] at h
  split at h
  case isTrue => split at h <;> simp at h
  case isFalse hu =>
    have ⟨hd, hp⟩ := Prod.mk.inj h
    obtain rfl := hp
    obtain rfl := Received.data.inj hd
    exact ⟨List.take_append_drop n p.unread, rfl, fun he => hu he.unread⟩

theorem read_eof {n : Nat} (h : p.read n = (.eof, p')) : p' = p ∧ p.Ended := by
  rw [read] at h
  split at h
  case isFalse => simp at h
  case isTrue hu =>
    have ⟨hr, hp⟩ := Prod.mk.inj h
    have hn : ¬(p.held ∨ p.shared) := by
      intro hs
      simp [hs] at hr
    exact ⟨hp.symm, hu, by simp_all, by simp_all⟩

end Pipe
