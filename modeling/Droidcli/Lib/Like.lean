import Mathlib

-- The patterns of the operator `LIKE`, over any kind of characters.
namespace Like

variable {α : Type} [DecidableEq α]

inductive Item (α : Type)
  | many -- characters of any kind, or none
  | one
  | exactly (a : α)

open Item

def Item.Accepts (a : α) : Item α → Prop
  | many  => True
  | one       => True
  | exactly b => b = a

def like : List (Item α) → List α → Bool
  | [], text              => text.isEmpty
  | many :: p, text   => text.tails.any (like p ·)
  | one :: _, []          => false
  | one :: p, _ :: text   => like p text
  | exactly _ :: _, []    => false
  | exactly a :: p, b :: text => a = b && like p text

variable {p q : List (Item α)} {s text word : List α} {item : α → Item α}

theorem like_many : like (many :: p) text ↔ ∃ s u, text = s ++ u ∧ like p u := by
  simp only [like, List.any_eq_true, List.mem_tails]
  constructor
  case mp =>
    intro ⟨u, ⟨s, hs⟩, hu⟩
    exact ⟨s, u, hs.symm, hu⟩
  case mpr =>
    intro ⟨s, u, hs, hu⟩
    exact ⟨u, ⟨s, hs.symm⟩, hu⟩

-- A pattern in two parts takes the text in two parts.
theorem like_append : like (p ++ q) text ↔ ∃ s u, text = s ++ u ∧ like p s ∧ like q u := by
  induction p generalizing text
  case nil => simp [like]
  case cons i p hi =>
    cases i
    case many =>
      simp only [List.cons_append, like_many, hi]
      constructor
      case mp =>
        intro ⟨s, u, hs, s', u', hu, hp, hq⟩
        exact ⟨s ++ s', u', by simp [hs, hu], ⟨s, s', rfl, hp⟩, hq⟩
      case mpr =>
        intro ⟨s, u, hs, ⟨s', u', hs', hp⟩, hq⟩
        exact ⟨s', u' ++ u, by simp [hs, hs'], u', u, rfl, hp, hq⟩
    case one =>
      cases text
      case nil => simp [like]
      case cons b text =>
        simp only [List.cons_append, like, hi]
        constructor
        case mp =>
          intro ⟨s, u, hs, hp, hq⟩
          exact ⟨b :: s, u, by simp [hs], hp, hq⟩
        case mpr =>
          intro ⟨s, u, hs, hp, hq⟩
          cases s
          case nil => simp [like] at hp
          case cons c s =>
            have ⟨_, ht⟩ := List.cons.inj hs
            exact ⟨s, u, ht, hp, hq⟩
    case exactly a =>
      cases text
      case nil => simp [like]
      case cons b text =>
        simp only [List.cons_append, like, Bool.and_eq_true, decide_eq_true_eq, hi]
        constructor
        case mp =>
          intro ⟨hab, s, u, hs, hp, hq⟩
          exact ⟨b :: s, u, by simp [hs], by simp [like, hab, hp], hq⟩
        case mpr =>
          intro ⟨s, u, hs, hp, hq⟩
          cases s
          case nil => simp [like] at hp
          case cons c s =>
            have ⟨hc, ht⟩ := List.cons.inj hs
            have ⟨hac, hp⟩ : a = c ∧ like p s := by simpa [like] using hp
            exact ⟨hac.trans hc.symm, s, u, ht, hp, hq⟩

-- A pattern that may stand anywhere.
theorem like_around :
    like (many :: (p ++ [many])) text ↔ ∃ s u v, text = s ++ (u ++ v) ∧ like p u := by
  simp only [like_many, like_append]
  constructor
  case mp =>
    intro ⟨s, _, hs, u, v, hu, hp, _⟩
    exact ⟨s, u, v, by rw [hs, hu], hp⟩
  case mpr =>
    intro ⟨s, u, v, hs, hp⟩
    exact ⟨s, u ++ v, hs, u, v, rfl, hp, ⟨v, [], by simp, rfl⟩⟩

theorem like_exactly : like (word.map exactly) text ↔ text = word := by
  induction word generalizing text
  case nil => simp [like]
  case cons a word hi =>
    cases text
    case nil => simp [like]
    case cons b text =>
      rw [List.map_cons, like, Bool.and_eq_true, hi, decide_eq_true_eq, List.cons.injEq]
      simp [eq_comm]

-- A text that is taken for a pattern matches itself.
theorem like_self (h : ∀ a ∈ word, (item a).Accepts a) : like (word.map item) word := by
  induction word
  case nil => rfl
  case cons a word hi =>
    have ⟨ha, hw⟩ := List.forall_mem_cons.mp h
    have hi := hi hw
    rw [List.map_cons]
    cases hs : item a
    case many => exact like_many.mpr ⟨[a], word, rfl, hi⟩
    case one      => exact hi
    case exactly b =>
      have hb : b = a := by simpa [hs, Item.Accepts] using ha
      simp [like, hb, hi]

end Like
