import Mathlib

namespace List

variable {α : Type} {p : α → Bool} {l a w acc : List α}

-- A segment has no separator in it and separators, or an end of the list, around it.
def IsSegment (p : α → Bool) (w l : List α) : Prop :=
  (∀ c ∈ w, p c = false) ∧
    ∃ a b, l = a ++ w ++ b ∧ (∀ c ∈ a.getLast?, p c) ∧ (∀ c ∈ b.head?, p c)

theorem isSegment_of_mem_splitOnPPrepend (hacc : ∀ c ∈ acc, p c = false)
    (h : w ∈ splitOnPPrepend p l acc) : IsSegment p w (acc.reverse ++ l) := by
  have hrev : ∀ c ∈ acc.reverse, p c = false := by simpa using hacc
  induction l generalizing acc
  case nil =>
    obtain rfl : w = acc.reverse := by simpa using h
    exact ⟨hrev, [], [], by simp, nofun, nofun⟩
  case cons x l ih =>
    cases hx : p x
    case true =>
      rw [splitOnPPrepend_cons_pos hx] at h
      cases mem_cons.mp h
      case inl h =>
        subst h
        exact ⟨hrev, [], x :: l, by simp, nofun, by simpa using hx⟩
      case inr h =>
        have ⟨hw, a, b, hl, ha, hb⟩ := @ih [] (forall_mem_nil _) h (forall_mem_nil _)
        refine ⟨hw, acc.reverse ++ x :: a, b, ?_, ?_, hb⟩
        case refine_1 => simpa using hl
        case refine_2 =>
          cases hl : a.getLast?
          case none   => simp [getLast?_cons, hl, hx]
          case some c => simpa [getLast?_cons, hl] using ha c hl
    case false =>
      rw [splitOnPPrepend_cons_neg hx] at h
      have hacc' : ∀ c ∈ x :: acc, p c = false := forall_mem_cons.mpr ⟨hx, hacc⟩
      simpa using ih hacc' h (by simpa [or_imp, forall_and, hx] using hacc)

theorem mem_splitOnP_append_self (hw : ∀ c ∈ w, p c = false) (ha : ∀ c ∈ a.getLast?, p c) :
    w ∈ splitOnP p (a ++ w) := by
  cases eq_nil_or_concat' a
  case inl h => simp [h, splitOnP_eq_singleton hw]
  case inr h =>
    have ⟨a', c, h⟩ := h
    have hc : p c := ha c (by simp [h])
    rw [h, append_assoc, singleton_append, splitOnP_append_cons a' w hc, splitOnP_eq_singleton hw]
    exact mem_append_right _ mem_cons_self

theorem mem_splitOnP_iff : w ∈ splitOnP p l ↔ IsSegment p w l := by
  constructor
  case mp  => exact fun h => @isSegment_of_mem_splitOnPPrepend _ p l w [] (forall_mem_nil _) h
  case mpr =>
    intro ⟨hw, a, b, hl, ha, hb⟩
    cases b
    case nil => exact hl ▸ (append_nil (a ++ w)).symm ▸ mem_splitOnP_append_self hw ha
    case cons c b =>
      rw [hl, splitOnP_append_cons _ b (hb c rfl)]
      exact mem_append_left _ (mem_splitOnP_append_self hw ha)

end List
