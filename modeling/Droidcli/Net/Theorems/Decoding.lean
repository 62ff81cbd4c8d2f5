import Droidcli.Net.Theorems.Json

namespace Droidcli.Net

open Bytes Json

-- A string in which every escape is one that the readers know. Of the legal ones these are all but
-- `\b`, `\f` and those that begin with `\u`, which lose their backslash.
inductive Familiar : Bytes → Prop
  | nil : Familiar []
  | plain {c : UInt8} {r : Bytes} : c ≠ backslash → Familiar r → Familiar (c :: r)
  | short {e : UInt8} {r : Bytes} :
    shortEscape e = some (unescapeJsonChar e) → Familiar r → Familiar (backslash :: e :: r)

section ReadString

variable {raw : UInt8 → Prop} {c : UInt8} {text rest r t : Bytes}

theorem readJsonString_quote : readJsonString (quote :: text) = [] := by
  cases text <;> simp [readJsonString]
  decide

theorem readJsonString_cons (hb : c ≠ backslash) (hq : c ≠ quote) :
    readJsonString (c :: text) = c :: readJsonString text := by
  cases text <;> simp [readJsonString, hb, hq]

theorem readJsonString_escaped {e : UInt8} :
    readJsonString (backslash :: e :: text) = unescapeJsonChar e :: readJsonString text := by
  simp [readJsonString]

theorem readJsonString_hex4 {a b c d : UInt8} {n : Nat} (h : hex4 a b c d = some n) :
    readJsonString (backslash :: 0x75 :: a :: b :: c :: d :: text) =
      0x75 :: a :: b :: c :: d :: readJsonString text := by
  simp only [hex4, Option.pure_def, Option.bind_eq_bind, Option.bind_eq_some_iff] at h
  obtain ⟨_, ha, _, hb, _, hc, _, hd, _⟩ := h
  obtain ⟨ha, ha'⟩ := hexDigit_plain ha
  obtain ⟨hb, hb'⟩ := hexDigit_plain hb
  obtain ⟨hc, hc'⟩ := hexDigit_plain hc
  obtain ⟨hd, hd'⟩ := hexDigit_plain hd
  rw [readJsonString_escaped, readJsonString_cons ha' ha, readJsonString_cons hb' hb,
    readJsonString_cons hc' hc, readJsonString_cons hd' hd]
  rfl

theorem length_utf8_le (n : Nat) : (utf8 n).length ≤ 4 := by
  rw [utf8]
  split_ifs <;> simp

-- What is read is never too short, and when it is as long as it should be no escape was lost.
theorem Body.length_le (h : Body raw r t) :
    t.length ≤ (readJsonString (r ++ quote :: rest)).length := by
  induction h
  case nil => simp
  case plain hq hb _ hi =>
    rw [List.cons_append, readJsonString_cons hb hq]
    simpa using hi
  case short hi =>
    rw [List.cons_append, List.cons_append, readJsonString_escaped]
    simpa using hi
  case unicode n _ _ hx _ _ _ hi =>
    have := length_utf8_le n
    simp only [List.cons_append, readJsonString_hex4 hx, List.length_append, List.length_cons]
    omega
  case pair m n _ _ hx _ hy _ _ hi =>
    have := length_utf8_le (surrogatePair m n)
    simp only [List.cons_append, readJsonString_hex4 hx, readJsonString_hex4 hy,
      List.length_append, List.length_cons]
    omega

theorem Familiar.of_read (h : Body raw r t) (hr : readJsonString (r ++ quote :: rest) = t) :
    Familiar r := by
  induction h
  case nil => exact .nil
  case plain hq hb _ hi =>
    rw [List.cons_append, readJsonString_cons hb hq] at hr
    exact .plain hb (hi (List.cons.inj hr).right)
  case short he _ hi =>
    rw [List.cons_append, List.cons_append, readJsonString_escaped] at hr
    have ⟨hc, hr⟩ := List.cons.inj hr
    exact .short (hc ▸ he) (hi hr)
  case unicode n _ t hx _ _ h _ =>
    have := length_utf8_le n
    have hle := (@Body.length_le _ rest) h
    have := congrArg List.length hr
    simp only [List.cons_append, readJsonString_hex4 hx, List.length_append,
      List.length_cons] at this
    omega
  case pair m n _ _ hx _ hy _ h _ =>
    have := length_utf8_le (surrogatePair m n)
    have hle := (@Body.length_le _ rest) h
    have := congrArg List.length hr
    simp only [List.cons_append, readJsonString_hex4 hx, readJsonString_hex4 hy,
      List.length_append, List.length_cons] at this
    omega

theorem Familiar.read (hf : Familiar r) (h : Body raw r t) :
    readJsonString (r ++ quote :: rest) = t := by
  induction hf generalizing t
  case nil =>
    cases h
    exact readJsonString_quote
  case plain hb _ hi =>
    cases h
    case plain hq _ h => rw [List.cons_append, readJsonString_cons hb hq, hi h]
    all_goals contradiction
  case short he _ hi =>
    cases h
    case plain       => contradiction
    case short he' h =>
      rw [List.cons_append, List.cons_append, readJsonString_escaped, hi h]
      rw [he] at he'
      rw [Option.some.inj he']
    case unicode => exact absurd he (by decide)
    case pair    => exact absurd he (by decide)

-- The reader decodes a string exactly when it knows all of its escapes.
theorem readJsonString_eq_iff (h : Body raw r t) :
    readJsonString (r ++ quote :: rest) = t ↔ Familiar r :=
  ⟨Familiar.of_read h, fun hf => hf.read h⟩

theorem familiar_escapeJsonString (s : Bytes) : Familiar (escapeJsonString s) := by
  induction s
  case nil => exact .nil
  case cons c s hi =>
    have he : escapeJsonString (c :: s) = escapeJsonChar c ++ escapeJsonString s := rfl
    rw [he, escapeJsonChar]
    split_ifs with hb
    case neg => exact .plain hb hi
    all_goals exact .short (by decide) hi

-- The reader of a string stops at the quote behind what the encoder wrote.
theorem readJsonString_escapeJsonString (s : Bytes) :
    readJsonString (escapeJsonString s ++ quote :: rest) = s :=
  (familiar_escapeJsonString s).read (body_lenient s)

end ReadString

section ReadInt

theorem digitsValue_decimal (n : Nat) : digitsValue (decimal n) = n := by
  have hd : ∀ cs : List Char, (∀ c ∈ cs, c.isDigit) → ∀ init,
      (cs.map Char.toUInt8).foldl (fun n d => 10 * n + (d.toNat - 0x30)) init =
        Nat.ofDigitChars 10 cs init := by
    intro cs hcs
    induction cs
    case nil => simp
    case cons c cs hi =>
      intro init
      have hi := hi fun c hc => hcs c (List.mem_cons_of_mem _ hc)
      simp [hi, Nat.ofDigitChars_cons, toNat_toUInt8 (hcs c (by simp))]
  rw [digitsValue, decimal, hd _ fun c hc => Nat.isDigit_of_mem_toDigits (by decide) (by decide) hc]
  exact Nat.ofDigitChars_ten_toDigits

theorem takeWhile_digits {digits rest : Bytes} (hd : ∀ c ∈ digits, isDigit c)
    (hr : ∀ c ∈ rest.head?, ¬isDigit c) : (digits ++ rest).takeWhile isDigit = digits := by
  rw [List.takeWhile_append_of_pos hd]
  cases rest
  case nil => simp
  case cons c rest => simpa using hr c rfl

end ReadInt

end Droidcli.Net
