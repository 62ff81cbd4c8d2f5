import Mathlib

namespace Slot

-- What an event does to a slot that holds at most one value.
inductive Act (α : Type)
  | fill (a : α)
  | clear
  | keep

variable {α : Type}

def Act.apply : Act α → Option α → Option α
  | fill a, _ => some a
  | clear, _  => none
  | keep, s   => s

-- What an empty slot holds after the acts.
def content (t : List (Act α)) : Option α :=
  t.foldl (fun s act => act.apply s) none

-- The value that was put into the slot at `p` is still there after the acts.
structure Standing (t : List (Act α)) (p : Nat) (a : α) : Prop where
  filled : t[p]? = some (.fill a)
  kept   : ∀ q act, p < q → t[q]? = some act → act = .keep

variable {t : List (Act α)} {act : Act α} {a b : α} {p q m n : Nat}

@[simp]
theorem content_snoc : content (t ++ [act]) = act.apply (content t) := by
  simp [content]

theorem Standing.lt (h : Standing t p a) : p < t.length :=
  (List.getElem?_eq_some_iff.mp h.filled).1

theorem standing_snoc_iff :
    Standing (t ++ [act]) p a ↔ act = .fill a ∧ p = t.length ∨ act = .keep ∧ Standing t p a := by
  constructor
  case mp =>
    intro h
    have hlt := h.lt
    simp only [List.length_append, List.length_cons, List.length_nil] at hlt
    by_cases hp : p = t.length
    case pos => exact .inl ⟨by simpa [hp] using h.filled, hp⟩
    case neg =>
      refine .inr ⟨h.kept t.length act (by omega) (by simp), ?_, fun q act' hq hact => ?_⟩
      · rw [← List.getElem?_append_left (show p < t.length by omega)]
        exact h.filled
      · have hl := (List.getElem?_eq_some_iff.mp hact).1
        exact h.kept q act' hq (by rw [List.getElem?_append_left hl, hact])
  case mpr =>
    rintro (⟨rfl, rfl⟩ | ⟨rfl, h⟩)
    · refine ⟨by simp, fun q act hq hact => ?_⟩
      have := (List.getElem?_eq_some_iff.mp hact).1
      simp only [List.length_append, List.length_cons, List.length_nil] at this
      omega
    · refine ⟨by rw [List.getElem?_append_left h.lt, h.filled], fun q act hq hact => ?_⟩
      rw [List.getElem?_append] at hact
      split_ifs at hact
      · exact h.kept q act hq hact
      · have ⟨_, heq⟩ := List.getElem?_eq_some_iff.mp hact
        simpa using heq.symm

-- A slot holds the last value put into it, if nothing has taken it out since.
theorem content_eq_some_iff : content t = some a ↔ ∃ p, Standing t p a := by
  induction t using List.reverseRecOn
  case nil => simpa [content] using fun p (h : Standing [] p a) => absurd h.lt (by simp)
  case append_singleton t act hi =>
    simp only [content_snoc, standing_snoc_iff]
    cases act
    case fill b => simp [Act.apply]
    case clear  => simp [Act.apply]
    case keep   => simp [Act.apply, hi]

-- What is taken out at `m` and at `n` was put in at different places.
theorem Standing.origin_injective (hm : Standing (t.take m) p a) (hn : Standing (t.take n) p b)
    (hcm : t[m]? = some .clear) (hcn : t[n]? = some .clear) : m = n := by
  have key {m n : Nat} {a b : α} (hm : Standing (t.take m) p a) (hn : Standing (t.take n) p b)
      (hc : t[m]? = some .clear) : ¬m < n := by
    intro hlt
    have hp := hm.lt
    have := hn.kept m .clear (by grind) (by rw [List.getElem?_take_of_lt hlt, hc])
    cases this
  have := key hm hn hcm
  have := key hn hm hcn
  omega

end Slot
