import Mathlib

-- Texts of characters as the bytes of their encoding. No character's bytes stand inside of those of
-- other ones, so that it makes no difference where one starts to read.
namespace Utf8

open String

variable {c d : Char} {q t : List Char} {s u : List UInt8} {b : UInt8}

def encode (text : List Char) : List UInt8 :=
  text.flatMap utf8EncodeChar

@[simp]
theorem encode_nil : encode [] = [] :=
  rfl

@[simp]
theorem encode_cons : encode (c :: t) = utf8EncodeChar c ++ encode t :=
  rfl

@[simp]
theorem encode_append : encode (q ++ t) = encode q ++ encode t :=
  List.flatMap_append ..

theorem utf8EncodeChar_append_inj (h : utf8EncodeChar c ++ s = utf8EncodeChar d ++ u) :
    c = d ∧ s = u := by
  have hd (c : Char) (s : List UInt8) :
      (utf8EncodeChar c ++ s).toByteArray.utf8DecodeChar? 0 = some c := by
    rw [List.toByteArray_append]
    exact ByteArray.utf8DecodeChar?_utf8EncodeChar_append
  have hc := hd c s
  rw [h, hd d u] at hc
  obtain rfl := Option.some.inj hc
  exact ⟨rfl, List.append_cancel_left h⟩

def decode (s : List UInt8) : Option (List Char) :=
  s.toByteArray.utf8Decode?.map Array.toList

theorem decode_encode : decode (encode t) = some t := by
  have h : (encode t).toByteArray = t.utf8Encode := rfl
  rw [decode, h, List.utf8Decode?_utf8Encode]
  rfl

theorem encode_inj (h : encode q = encode t) : q = t := by
  have hd := congrArg decode h
  rw [decode_encode, decode_encode] at hd
  exact Option.some.inj hd

theorem prefix_of_encode (h : encode q <+: encode t) : q <+: t := by
  induction q generalizing t
  case nil => exact List.nil_prefix
  case cons c q hi =>
    have ⟨s, hs⟩ := h
    cases t
    case nil => simp at hs
    case cons d t =>
      rw [encode_cons, encode_cons, List.append_assoc] at hs
      have ⟨hc, hs⟩ := utf8EncodeChar_append_inj hs
      exact hc ▸ List.cons_prefix_cons.mpr ⟨rfl, hi ⟨s, hs⟩⟩

-- Of the bytes of a character, the first one is told from the others.
theorem isUTF8FirstByte_iff (h : utf8EncodeChar c = s ++ b :: u) :
    b.IsUTF8FirstByte ↔ s = [] := by
  have hl : s.length < (utf8EncodeChar c).length := by simp [h]
  have hb : (utf8EncodeChar c)[s.length] = b := by simp [h]
  rw [← hb, UInt8.isUTF8FirstByte_getElem_utf8EncodeChar, List.length_eq_zero_iff]

theorem infix_of_encode (h : encode q <:+: encode t) : q <:+: t := by
  cases q
  case nil => exact List.nil_infix
  case cons c q =>
    obtain ⟨s, u, hs⟩ := h
    rw [List.append_assoc] at hs
    induction t generalizing s
    case nil => simp at hs
    case cons d t hi =>
      have hs : s ++ (encode (c :: q) ++ u) = utf8EncodeChar d ++ encode t := hs
      rcases List.append_eq_append_iff.mp hs with ⟨rest, hd, hr⟩ | ⟨rest, hd, hr⟩
      case inl =>
        -- What begins with `c` cannot begin inside of `d`.
        obtain ⟨b, bytes, hb⟩ := List.exists_cons_of_ne_nil (@utf8EncodeChar_ne_nil c)
        have hf : b.IsUTF8FirstByte := (isUTF8FirstByte_iff (s := []) hb).mpr rfl
        cases rest
        case nil =>
          exact List.infix_cons (hi [] (by simpa using hr))
        case cons b' rest =>
          obtain rfl : b = b' := by
            have := congrArg List.head? hr
            simpa [hb] using this
          obtain rfl := (isUTF8FirstByte_iff hd).mp hf
          have hp : encode (c :: q) <+: encode (d :: t) := ⟨u, hs⟩
          exact (prefix_of_encode hp).isInfix
      case inr => exact List.infix_cons (hi rest hr.symm)

theorem encode_infix_iff : encode q <:+: encode t ↔ q <:+: t := by
  refine ⟨infix_of_encode, ?_⟩
  rintro ⟨s, u, rfl⟩
  exact ⟨encode s, encode u, by simp⟩

-- The bytes of a character beyond ASCII are beyond ASCII as well.
theorem le_of_mem_utf8EncodeChar (h : 0x80 ≤ c.toNat) (hm : b ∈ utf8EncodeChar c) : 0x80 ≤ b := by
  have hc : ¬c.val.toNat ≤ 0x7f := Nat.not_le.mpr h
  have hb {n m : Nat} (hl : 0x80 ≤ m) (hu : n + m < 256) : 0x80 ≤ UInt8.ofNat (n + m) := by
    rw [UInt8.le_iff_toNat_le, UInt8.toNat_ofNat', Nat.mod_eq_of_lt hu]
    exact Nat.le_add_left_of_le hl
  rw [utf8EncodeChar] at hm
  rw [if_neg hc] at hm
  split_ifs at hm
  all_goals
    simp only [List.mem_cons, List.not_mem_nil, or_false] at hm
    rcases hm with rfl | rfl | rfl | rfl <;> exact hb (by decide) (by omega)

end Utf8
