import Mathlib

-- A map as two lists, its keys and beside them what they stand for.
namespace Columns

variable {κ α : Type} {key other k : κ} {keys : List κ} {values : List α} {a b : α} {index : Nat}

structure Paired (keys : List κ) (values : List α) : Prop where
  length_eq : keys.length = values.length
  nodup : keys.Nodup

namespace Paired

theorem nil : Paired ([] : List κ) ([] : List α) :=
  ⟨rfl, .nil⟩

theorem of_cons (p : Paired (k :: keys) (b :: values)) : k ∉ keys ∧ Paired keys values :=
  have ⟨hk, hn⟩ := List.nodup_cons.mp p.nodup
  ⟨hk, by simpa using p.length_eq, hn⟩

theorem set (p : Paired keys values) : Paired keys (values.set index a) :=
  ⟨by simpa using p.length_eq, p.nodup⟩

theorem append (p : Paired keys values) (h : key ∉ keys) :
    Paired (keys ++ [key]) (values ++ [a]) :=
  ⟨by simpa using p.length_eq, List.nodup_append_comm.mp (p.nodup.cons h)⟩

theorem eraseIdx (p : Paired keys values) : Paired (keys.eraseIdx index) (values.eraseIdx index) :=
  ⟨by simp [List.length_eraseIdx, p.length_eq], p.nodup.sublist (List.eraseIdx_sublist ..)⟩

end Paired

variable [BEq κ] [LawfulBEq κ]

def lookup (key : κ) (keys : List κ) (values : List α) : Option α :=
  (keys.idxOf? key).bind fun index => values[index]?

theorem idxOf?_cons_eq (h : (k :: keys).idxOf? key = some index) :
    k = key ∧ index = 0 ∨ k ≠ key ∧ ∃ i, keys.idxOf? key = some i ∧ index = i + 1 := by
  rw [List.idxOf?_cons] at h
  split at h
  case isTrue hk  => exact .inl ⟨by simpa using hk, (Option.some.inj h).symm⟩
  case isFalse hk =>
    have ⟨i, hi, h⟩ := Option.map_eq_some_iff.mp h
    exact .inr ⟨by simpa using hk, i, hi, h.symm⟩

omit [LawfulBEq κ] in
theorem lookup_cons : lookup key (k :: keys) (a :: values) =
    if k == key then some a else lookup key keys values := by
  rw [lookup, List.idxOf?_cons]
  split <;> simp_all [lookup, Option.bind_map]

theorem lookup_of_not_mem (values : List α) (h : key ∉ keys) : lookup key keys values = none := by
  rw [lookup, List.idxOf?_eq_none_iff.mpr h]
  rfl

namespace Paired

theorem lt (p : Paired keys values) (h : keys.idxOf? key = some index) :
    index < values.length :=
  have ⟨hi, _⟩ := List.idxOf?_eq_some_iff.mp h
  p.length_eq ▸ hi

-- What a search for a key comes to.
theorem found (p : Paired keys values) (key : κ) :
    keys.idxOf? key = none ∧ lookup key keys values = none ∨
      ∃ index a, keys.idxOf? key = some index ∧ values[index]? = some a ∧
        lookup key keys values = some a := by
  cases h : keys.idxOf? key
  case none => exact .inl ⟨rfl, lookup_of_not_mem values (List.idxOf?_eq_none_iff.mp h)⟩
  case some index =>
    have hv := List.getElem?_eq_getElem (p.lt h)
    exact .inr ⟨index, _, rfl, hv, by rw [lookup, h, Option.bind_some, hv]⟩

theorem lookup_set (p : Paired keys values) (h : keys.idxOf? key = some index) :
    lookup other keys (values.set index a) =
      if key == other then some a else lookup other keys values := by
  induction keys generalizing values index
  case nil => simp at h
  case cons k keys hi =>
    cases values
    case nil => simpa using p.length_eq
    case cons b values =>
      cases idxOf?_cons_eq h
      case inl h =>
        obtain ⟨rfl, rfl⟩ := h
        rw [List.set_cons_zero, lookup_cons, lookup_cons]
        split <;> rfl
      case inr h =>
        obtain ⟨hk, i, hki, rfl⟩ := h
        rw [List.set_cons_succ, lookup_cons, lookup_cons, hi p.of_cons.right hki]
        by_cases ho : key = other
        case pos => simp [← ho, hk]
        case neg => simp [ho]

theorem lookup_append (p : Paired keys values) (h : key ∉ keys) :
    lookup other (keys ++ [key]) (values ++ [a]) =
      if key == other then some a else lookup other keys values := by
  induction keys generalizing values
  case nil =>
    have hv : values = [] := List.length_eq_zero_iff.mp p.length_eq.symm
    rw [hv, List.nil_append, List.nil_append, lookup_cons]
  case cons k keys hi =>
    cases values
    case nil => simpa using p.length_eq
    case cons b values =>
      have ⟨hk, h⟩ := List.ne_and_not_mem_of_not_mem_cons h
      rw [List.cons_append, List.cons_append, lookup_cons, lookup_cons, hi p.of_cons.right h]
      by_cases ho : key = other
      case pos => simp [← ho, Ne.symm hk]
      case neg => simp [ho]

theorem lookup_eraseIdx (p : Paired keys values) (h : keys.idxOf? key = some index) :
    lookup other (keys.eraseIdx index) (values.eraseIdx index) =
      if key == other then none else lookup other keys values := by
  induction keys generalizing values index
  case nil => simp at h
  case cons k keys hi =>
    cases values
    case nil => simpa using p.length_eq
    case cons b values =>
      cases idxOf?_cons_eq h
      case inl h =>
        obtain ⟨rfl, rfl⟩ := h
        rw [List.eraseIdx_cons_zero, List.eraseIdx_cons_zero, lookup_cons]
        by_cases ho : k = other
        case pos => simp [← ho, lookup_of_not_mem values p.of_cons.left]
        case neg => simp [ho]
      case inr h =>
        obtain ⟨hk, i, hki, rfl⟩ := h
        rw [List.eraseIdx_cons_succ, List.eraseIdx_cons_succ, lookup_cons, lookup_cons,
          hi p.of_cons.right hki]
        by_cases ho : key = other
        case pos => simp [← ho, hk]
        case neg => simp [ho]

end Paired
end Columns
