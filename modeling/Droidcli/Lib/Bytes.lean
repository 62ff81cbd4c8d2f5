import Mathlib

-- Byte strings: what a `std::string` holds. Every text of the development is one of these, string
-- literals included.
abbrev Bytes := List UInt8

namespace Bytes

def str (s : String) : Bytes :=
  s.toUTF8.data.toList

instance : Coe String Bytes where
  coe := str

-- What is said of the bytes of a text is decided on the text, not on all the bytes there are.
instance decidableForallMem {p : UInt8 → Prop} [DecidablePred p] (s : Bytes) :
    Decidable (∀ c ∈ s, p c) :=
  List.decidableBAll p s

instance decidableExistsMem {p : UInt8 → Prop} [DecidablePred p] (s : Bytes) :
    Decidable (∃ c ∈ s, p c) :=
  List.decidableBEx p s

instance decidableForallMemOption {p : UInt8 → Prop} [DecidablePred p] (o : Option UInt8) :
    Decidable (∀ c ∈ o, p c) :=
  Option.decidableForallMem o

-- A named proof, which all the decisions about lists of texts have in common.
instance lawfulBEq : LawfulBEq Bytes :=
  inferInstance

theorem str_inj {s t : String} : str s = str t ↔ s = t := by
  constructor
  case mp  => exact fun h => String.toByteArray_inj.mp (ByteArray.ext (Array.toList_inj.mp h))
  case mpr => exact congrArg str

abbrev nul       : UInt8 := 0x00
abbrev tab       : UInt8 := 0x09
abbrev lf        : UInt8 := 0x0a
abbrev cr        : UInt8 := 0x0d
abbrev space     : UInt8 := 0x20
abbrev quote     : UInt8 := 0x22
abbrev comma     : UInt8 := 0x2c
abbrev minus     : UInt8 := 0x2d
abbrev dot       : UInt8 := 0x2e
abbrev slash     : UInt8 := 0x2f
abbrev colon     : UInt8 := 0x3a
abbrev lbracket  : UInt8 := 0x5b
abbrev backslash : UInt8 := 0x5c
abbrev rbracket  : UInt8 := 0x5d
abbrev lbrace    : UInt8 := 0x7b
abbrev rbrace    : UInt8 := 0x7d

-- `std::tolower`, `std::isdigit` and `std::isalnum` in the "C" locale.
def toLower (c : UInt8) : UInt8 :=
  if 0x41 ≤ c ∧ c ≤ 0x5a then c + 0x20 else c

def isDigit (c : UInt8) : Bool :=
  0x30 ≤ c && c ≤ 0x39

def isAlnum (c : UInt8) : Bool :=
  isDigit c || (0x41 ≤ c && c ≤ 0x5a) || (0x61 ≤ c && c ≤ 0x7a)

def lowered (s : Bytes) : Bytes :=
  s.map toLower

-- The bytes a reader of a C string sees: everything before the first NUL.
def cstr (s : Bytes) : Bytes :=
  s.takeWhile (· ≠ nul)

-- `text` split around the first occurrence of `needle`.
def breakOn (needle : Bytes) : Bytes → Option (Bytes × Bytes)
  | [] => if needle = [] then some ([], []) else none
  | c :: text =>
    if needle <+: c :: text then
      some ([], (c :: text).drop needle.length)
    else
      (breakOn needle text).map fun (before, after) => (c :: before, after)

-- What follows the first occurrence of `needle`, if there is one.
def after (needle text : Bytes) : Option Bytes :=
  (breakOn needle text).map Prod.snd

def contains (needle text : Bytes) : Bool :=
  (breakOn needle text).isSome

def joinWith (sep : Bytes) (parts : List Bytes) : Bytes :=
  sep.intercalate parts

def decimal (n : Nat) : Bytes :=
  (Nat.toDigits 10 n).map Char.toUInt8

def decimalInt : Int → Bytes
  | .ofNat n   => decimal n
  | .negSucc n => minus :: decimal (n + 1)

-- `std::hex`.
def hexadecimal (n : Nat) : Bytes :=
  (Nat.toDigits 16 n).map Char.toUInt8

section CStr

variable {s : Bytes}

theorem cstr_eq_self (h : nul ∉ s) : cstr s = s := by
  rw [cstr, List.takeWhile_eq_self_iff]
  intro c hc
  simp only [decide_eq_true_eq]
  exact fun heq => h (heq ▸ hc)

theorem cstr_append (h : nul ∉ s) : cstr (s ++ t) = s ++ cstr t := by
  rw [cstr, List.takeWhile_append_of_pos]
  · rfl
  · exact fun c hc => decide_eq_true fun heq => h (heq ▸ hc)

theorem nul_not_mem_cstr : nul ∉ cstr s := by
  intro h
  simpa using List.mem_takeWhile_imp h

end CStr

section BreakOn

variable {needle text t u : Bytes} {c : UInt8}

theorem breakOn_eq_some (h : breakOn needle text = some (t, u)) : text = t ++ needle ++ u := by
  induction text generalizing t <;> simp only [breakOn] at h <;> split at h
  case nil.isTrue hn => simp_all
  case nil.isFalse => contradiction
  case cons.isTrue hp =>
    obtain ⟨rfl, rfl⟩ := by simpa using h
    exact (List.prefix_append_drop hp)
  case cons.isFalse c text hi hp =>
    obtain ⟨⟨t', u'⟩, ht, h⟩ := Option.map_eq_some_iff.mp h
    obtain ⟨rfl, rfl⟩ := by simpa using h
    simp [hi ht]

theorem breakOn_isSome_iff : (breakOn needle text).isSome ↔ needle <:+: text := by
  constructor
  case mp =>
    intro h
    have ⟨⟨t, u⟩, h⟩ := Option.isSome_iff_exists.mp h
    exact ⟨t, u, (breakOn_eq_some h).symm⟩
  case mpr =>
    intro h
    induction text <;> simp only [breakOn] <;> split
    case nil.isFalse hn => exact absurd (List.infix_nil.mp h) hn
    case cons.isFalse hi hp => simpa using hi (List.infix_cons_iff.mp h |>.resolve_left hp)
    all_goals rfl

theorem contains_iff : contains needle text ↔ needle <:+: text :=
  breakOn_isSome_iff

theorem after_eq_none_iff : after needle text = none ↔ ¬ needle <:+: text := by
  rw [after, Option.map_eq_none_iff, ← breakOn_isSome_iff, Option.not_isSome_iff_eq_none]

theorem after_cons_of_not_prefix (h : ¬ needle <+: c :: text) :
    after needle (c :: text) = after needle text := by
  simp [after, breakOn, h, Option.map_map, Function.comp_def]

theorem after_append_self (h : needle ≠ []) : after needle (needle ++ text) = some text := by
  cases needle
  case nil       => contradiction
  case cons c cs => simp [after, breakOn]

end BreakOn

-- No occurrence of `needle` in `s ++ rest` starts within `s`.
def Inert (needle s rest : Bytes) : Prop :=
  ∀ t, t ≠ [] → t <:+ s → ¬ needle <+: t ++ rest

section Inert

variable {needle s t rest : Bytes} {c : UInt8}

theorem inert_nil : Inert needle [] rest :=
  fun _ hn ht => absurd (List.suffix_nil.mp ht) hn

theorem inert_cons (hc : ¬ needle <+: c :: s ++ rest) (hs : Inert needle s rest) :
    Inert needle (c :: s) rest := by
  intro t hn ht
  cases List.suffix_cons_iff.mp ht
  case inl he => exact he ▸ hc
  case inr ht => exact hs t hn ht

theorem inert_append (hs : Inert needle s (t ++ rest)) (ht : Inert needle t rest) :
    Inert needle (s ++ t) rest := by
  induction s
  case nil => exact ht
  case cons c s hi =>
    refine inert_cons ?_ (hi fun u hn hu => hs u hn (hu.trans (List.suffix_cons _ _)))
    simpa using hs (c :: s) (by simp) List.suffix_rfl

-- Text without the first byte of the needle.
theorem inert_of_not_mem {n : UInt8} (h : n ∉ s) : Inert (n :: needle) s rest := by
  intro t hn ⟨u, hu⟩ hp
  cases t
  case nil => contradiction
  case cons c t =>
    have : n = c := by
      have ⟨_, hp⟩ := hp
      exact (List.cons.inj hp).left
    exact h <| hu ▸ this ▸ List.mem_append_right _ (List.mem_cons_self ..)

theorem not_infix_of_inert (h : Inert needle (s ++ t) rest) (hn : needle ≠ []) :
    ¬needle <:+: s := by
  intro ⟨u, v, he⟩
  have hp : needle <+: (needle ++ v ++ t) ++ rest := by simp
  refine h (needle ++ v ++ t) (by simp [hn]) ⟨u, ?_⟩ hp
  rw [← he]
  simp

-- What follows an occurrence does not matter.
theorem inert_needle (h : Inert needle s needle) : Inert needle s (needle ++ rest) := by
  intro t hn ht hp
  have hl : needle.length ≤ (t ++ needle).length := by simp
  rw [← List.append_assoc] at hp
  exact h t hn ht (List.prefix_of_prefix_length_le hp (List.prefix_append ..) hl)

-- The first occurrence is the first one.
theorem inert_of_breakOn {u : Bytes} (h : breakOn needle rest = some (t, u)) :
    Inert needle t (needle ++ u) := by
  induction rest generalizing t <;> simp only [breakOn] at h <;> split at h
  case nil.isTrue =>
    obtain ⟨rfl, rfl⟩ := by simpa using h
    exact inert_nil
  case nil.isFalse => contradiction
  case cons.isTrue =>
    obtain ⟨rfl, rfl⟩ := by simpa using h
    exact inert_nil
  case cons.isFalse c text hi hp =>
    obtain ⟨⟨t', u'⟩, ht, h⟩ := Option.map_eq_some_iff.mp h
    obtain ⟨rfl, rfl⟩ := by simpa using h
    refine inert_cons ?_ (hi ht)
    rwa [breakOn_eq_some ht, List.append_assoc] at hp

theorem breakOn_inert (h : Inert needle s rest) :
    breakOn needle (s ++ rest) = (breakOn needle rest).map fun (t, u) => (s ++ t, u) := by
  induction s
  case nil => simp
  case cons c s hi =>
    have hc : ¬ needle <+: c :: (s ++ rest) := h (c :: s) (by simp) List.suffix_rfl
    have hs := hi fun t hn ht => h t hn (ht.trans (List.suffix_cons _ _))
    simp [breakOn, hc, hs, Option.map_map, Function.comp_def]

theorem after_inert (h : Inert needle s rest) : after needle (s ++ rest) = after needle rest := by
  simp [after, breakOn_inert h, Option.map_map, Function.comp_def]

theorem contains_inert (h : Inert needle s rest) :
    contains needle (s ++ rest) = contains needle rest := by
  simp [contains, breakOn_inert h]

end Inert

-- How often a needle occurs.
def occurrences (needle : Bytes) : Bytes → Nat
  | []        => 0
  | c :: text => (if needle <+: c :: text then 1 else 0) + occurrences needle text

section Occurrences

variable {needle s t rest : Bytes}

theorem occurrences_append_le (s t : Bytes) :
    occurrences needle s + occurrences needle t ≤ occurrences needle (s ++ t) := by
  induction s
  case nil => simp [occurrences]
  case cons c s hi =>
    have hp : needle <+: c :: s → needle <+: c :: (s ++ t) :=
      fun h => h.trans (List.prefix_append (c :: s) t)
    simp only [List.cons_append, occurrences]
    split_ifs <;> first | omega | simp_all

theorem occurrences_pos (hn : needle ≠ []) (h : needle <:+: s) : 1 ≤ occurrences needle s := by
  induction s
  case nil => exact absurd (List.infix_nil.mp h) hn
  case cons c s hi =>
    rw [occurrences]
    cases List.infix_cons_iff.mp h
    case inl h => rw [if_pos h]; exact Nat.le_add_right ..
    case inr h => exact Nat.le_trans (hi h) (Nat.le_add_left ..)

theorem occurrences_inert (h : Inert needle s rest) :
    occurrences needle (s ++ rest) = occurrences needle rest := by
  induction s
  case nil => rfl
  case cons c s hi =>
    have hc : ¬needle <+: c :: (s ++ rest) := h (c :: s) (by simp) List.suffix_rfl
    rw [List.cons_append, occurrences, if_neg hc, Nat.zero_add]
    exact hi fun t hn ht => h t hn (ht.trans (List.suffix_cons _ _))

end Occurrences

section Join

variable {sep : Bytes}

theorem joinWith_cons (part : Bytes) (behind : List Bytes) :
    joinWith sep (part :: behind) = part ++ behind.flatMap (sep ++ ·) := by
  induction behind generalizing part
  case nil => simp [joinWith]
  case cons part' behind hi =>
    have : joinWith sep (part :: part' :: behind) =
        part ++ (sep ++ joinWith sep (part' :: behind)) := by
      simp [joinWith, List.intercalate]
    simp [this, hi]

theorem joinWith_split (before : List Bytes) (part : Bytes) (behind : List Bytes) :
    joinWith sep (before ++ part :: behind) =
      before.flatMap (· ++ sep) ++ (part ++ behind.flatMap (sep ++ ·)) := by
  induction before
  case nil => simp [joinWith_cons]
  case cons part' before hi =>
    have : joinWith sep (part' :: (before ++ part :: behind)) =
        part' ++ (sep ++ joinWith sep (before ++ part :: behind)) := by
      cases before <;> simp [joinWith, List.intercalate]
    simp [this, hi]

end Join

section Decimal

variable {c : Char} {n : Nat}

theorem toNat_of_isDigit (h : c.isDigit) : 48 ≤ c.toNat ∧ c.toNat ≤ 57 := by
  simpa [Char.isDigit, UInt32.le_iff_toNat_le] using h

theorem toNat_toUInt8 (h : c.isDigit) : c.toUInt8.toNat = c.toNat := by
  have ⟨_, h⟩ := toNat_of_isDigit h
  simp only [Char.toUInt8, UInt32.toNat_toUInt8]
  exact Nat.mod_eq_of_lt (Nat.lt_of_le_of_lt h (by decide))

theorem isDigit_toUInt8 (h : c.isDigit) : isDigit c.toUInt8 := by
  simpa [isDigit, UInt8.le_iff_toNat_le, toNat_toUInt8 h] using toNat_of_isDigit h

theorem isDigit_of_mem_decimal {b : UInt8} (h : b ∈ decimal n) : isDigit b := by
  have ⟨c, hc, hb⟩ := List.mem_map.mp h
  exact hb ▸ isDigit_toUInt8 (Nat.isDigit_of_mem_toDigits (by decide) (by decide) hc)

theorem hexadecimal_of_le (h : 16 ≤ n) :
    hexadecimal n = hexadecimal (n / 16) ++ hexadecimal (n % 16) := by
  have ht := Nat.toDigits_append_toDigits (show 1 < 16 by decide) (show 0 < n / 16 by omega)
    (show n % 16 < 16 by omega)
  rw [Nat.div_add_mod] at ht
  rw [hexadecimal, ← ht, List.map_append]
  rfl

theorem not_mem_hexadecimal {c : UInt8} (h : ∀ d < 16, c ∉ hexadecimal d) : c ∉ hexadecimal n := by
  induction n using Nat.strongRecOn
  case ind n hi =>
    by_cases hn : n < 16
    case pos => exact h n hn
    case neg =>
      rw [hexadecimal_of_le (by omega), List.mem_append, not_or]
      exact ⟨hi _ (by omega), h _ (by omega)⟩

theorem nul_not_mem_hexadecimal : nul ∉ hexadecimal n :=
  not_mem_hexadecimal (by decide)

theorem length_hexadecimal : 0 < (hexadecimal n).length ∧ ((hexadecimal n).length = 1 ↔ n < 16) := by
  have hd : ∀ d < 16, (hexadecimal d).length = 1 := by decide
  induction n using Nat.strongRecOn
  case ind n hi =>
    by_cases hn : n < 16
    case pos => simp [hd n hn, hn]
    case neg =>
      have := (hi (n / 16) (by omega)).left
      rw [hexadecimal_of_le (by omega), List.length_append, hd (n % 16) (by omega)]
      omega

theorem hexadecimal_injective : Function.Injective hexadecimal := by
  have hd : ∀ d < 16, ∀ e < 16, hexadecimal d = hexadecimal e → d = e := by decide
  intro m
  induction m using Nat.strongRecOn
  case ind m hi =>
    intro n h
    have hl : m < 16 ↔ n < 16 := by
      rw [← length_hexadecimal.right, ← length_hexadecimal.right, h]
    by_cases hm : m < 16
    case pos => exact hd m hm n (hl.mp hm) h
    case neg =>
      rw [hexadecimal_of_le (by omega), hexadecimal_of_le (n := n) (by omega)] at h
      have hr : (hexadecimal (m % 16)).length = (hexadecimal (n % 16)).length := by
        rw [length_hexadecimal.right.mpr (by omega), length_hexadecimal.right.mpr (by omega)]
      have ⟨hq, hr⟩ := List.append_inj' h hr
      have hq := hi (m / 16) (by omega) hq
      have hr := hd _ (by omega) _ (by omega) hr
      omega

theorem toDigits_of_decimal : (decimal n).map (Char.ofNat ·.toNat) = Nat.toDigits 10 n := by
  rw [decimal, List.map_map]
  conv_rhs => rw [← List.map_id (Nat.toDigits 10 n)]
  apply List.map_congr_left
  intro c hc
  have := toNat_toUInt8 <| Nat.isDigit_of_mem_toDigits (by decide) (by decide) hc
  simp [this]

theorem decimal_injective : Function.Injective decimal := by
  intro m n h
  have ht : Nat.toDigits 10 m = Nat.toDigits 10 n := by
    rw [← toDigits_of_decimal, h, toDigits_of_decimal]
  rw [← Nat.ofDigitChars_ten_toDigits (n := m), ht, Nat.ofDigitChars_ten_toDigits]

theorem decimal_ne_nil : decimal n ≠ [] := by
  simp [decimal, Nat.toDigits_ne_nil]

-- No leading zeros.
theorem eq_zero_of_head_toDigits (h : (Nat.toDigits 10 n).head? = some '0') : n = 0 := by
  induction n using Nat.strong_induction_on
  case h n hi =>
    by_cases hn : n < 10
    case pos =>
      rw [Nat.toDigits_of_lt_base hn] at h
      simpa using h
    case neg =>
      have hd : Nat.toDigits 10 n = Nat.toDigits 10 (n / 10) ++ [Nat.digitChar (n % 10)] :=
        Nat.toDigits_of_base_le (by decide) (Nat.le_of_not_lt hn)
      have := hi (n / 10) (by omega) <| by
        rw [hd, List.head?_append_of_ne_nil _ Nat.toDigits_ne_nil] at h
        exact h
      omega

theorem eq_zero_of_head_decimal (h : (decimal n).head? = some 0x30) : n = 0 := by
  apply eq_zero_of_head_toDigits
  rw [← toDigits_of_decimal, List.head?_map, h]
  rfl

end Decimal

-- What stands behind the last separator is determined by the whole.
theorem eq_of_append_cons_eq {c : UInt8} {s t u v : Bytes} (hu : c ∉ u) (hv : c ∉ v)
    (h : s ++ c :: u = t ++ c :: v) : u = v := by
  have hw {s u : Bytes} (hu : c ∉ u) : (s ++ c :: u).reverse.takeWhile (· ≠ c) = u.reverse := by
    have hr : ∀ d ∈ u.reverse, decide (d ≠ c) := by
      intro d hd
      have : d ≠ c := fun he => hu (he ▸ List.mem_reverse.mp hd)
      simpa using this
    rw [List.reverse_append, List.reverse_cons, List.append_assoc,
      List.takeWhile_append_of_pos hr]
    simp
  exact List.reverse_injective <| by rw [← hw hu, h, hw hv]

end Bytes
