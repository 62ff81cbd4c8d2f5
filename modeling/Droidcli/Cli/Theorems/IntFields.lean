import Droidcli.Cli.Droidcli
import Droidcli.Cli.HostTools
import Droidcli.Net.Theorems.Decoding

namespace Droidcli.Cli

open Bytes Net

variable {json key text text' : Bytes} {n m : Int}

-- The text behind the first `"key":` and the blanks that follow it.
def FieldText (json key text : Bytes) : Prop :=
  ∃ before blanks, json = before ++ (needle key ++ (blanks ++ text)) ∧
    (∀ t u, json = t ++ (needle key ++ u) → before.length ≤ t.length) ∧
    (∀ c ∈ blanks, isBlank c) ∧ ∀ c ∈ text.head?, ¬isBlank c

-- What a digit run denotes.
def magnitude (digits : Bytes) : Nat :=
  Nat.ofDigits 10 (digits.reverse.map fun d => d.toNat - 0x30)

-- A text that starts with an integer: a minus or none, and digits up to the first other character.
inductive IntText : Bytes → Int → Prop
  | positive {digits rest : Bytes} : digits ≠ [] → (∀ c ∈ digits, isDigit c) →
    (∀ c ∈ rest.head?, ¬isDigit c) → IntText (digits ++ rest) (magnitude digits)
  | negative {digits rest : Bytes} : digits ≠ [] → (∀ c ∈ digits, isDigit c) →
    (∀ c ∈ rest.head?, ¬isDigit c) → IntText (minus :: (digits ++ rest)) (-magnitude digits)

-- The integer that a text has under a key.
def HasInt (json key : Bytes) (n : Int) : Prop :=
  ∃ text, FieldText json key text ∧ IntText text n

-- A minus that no digit follows.
def LoneMinus (json key : Bytes) : Prop :=
  ∃ rest, FieldText json key (minus :: rest) ∧ ∀ c ∈ rest.head?, ¬isDigit c

section Fields

theorem dropWhile_blanks {blanks : Bytes} (hb : ∀ c ∈ blanks, isBlank c)
    (ht : ∀ c ∈ text.head?, ¬isBlank c) : (blanks ++ text).dropWhile isBlank = text := by
  rw [List.dropWhile_append_of_pos hb]
  cases text
  case nil         => rfl
  case cons c text => exact List.dropWhile_cons_of_neg (ht c rfl)

theorem FieldText.unique (f : FieldText json key text) (f' : FieldText json key text') :
    text = text' := by
  have ⟨before, blanks, hj, hf, hb, ht⟩ := f
  have ⟨before', blanks', hj', hf', hb', ht'⟩ := f'
  have hl := Nat.le_antisymm (hf _ _ hj') (hf' _ _ hj)
  have h := (List.append_inj (hj.symm.trans hj') hl).right
  have h := List.append_cancel_left h
  rw [← dropWhile_blanks hb ht, h, dropWhile_blanks hb' ht']

theorem afterField_text (h : afterField json key 0 = some text) : FieldText json key text := by
  have ⟨_, ha, hu⟩ := Option.map_eq_some_iff.mp h
  have ⟨⟨before, u⟩, hs, he⟩ := Option.map_eq_some_iff.mp ha
  rw [← he] at hu
  rw [List.drop_zero] at hs
  have hj := breakOn_eq_some hs
  refine ⟨before, u.takeWhile isBlank, ?_, ?_, ?_, ?_⟩
  · rw [← hu, List.takeWhile_append_dropWhile, hj, List.append_assoc]
  · intro t v ht
    by_contra hl
    have hp : t <+: before := by
      have htj : t <+: json := ⟨_, ht.symm⟩
      have hbj : before <+: json := ⟨_, by rw [hj, List.append_assoc]⟩
      exact List.prefix_of_prefix_length_le htj hbj (by omega)
    have ⟨w, hw⟩ := hp
    have hn : w ≠ [] := by
      rintro rfl
      simp [← hw] at hl
    apply inert_of_breakOn hs w hn ⟨t, hw⟩
    have he : w ++ (needle key ++ u) = needle key ++ v := by
      rw [← List.append_right_inj t, ← ht, ← List.append_assoc, hw, hj, List.append_assoc]
    exact ⟨v, he.symm⟩
  · exact fun c hc => List.mem_takeWhile_imp hc
  · intro c hc
    have := List.head?_dropWhile_not isBlank u
    rw [hu] at this
    cases text <;> simp_all

theorem afterField_iff : afterField json key 0 = some text ↔ FieldText json key text := by
  constructor
  case mp => exact afterField_text
  case mpr =>
    intro f
    cases ha : afterField json key 0
    case some => rw [FieldText.unique f (afterField_text ha)]
    case none =>
      have ⟨before, blanks, hj, _⟩ := f
      have hn := Option.map_eq_none_iff.mp ha
      exact absurd ⟨before, blanks ++ text, by simp [hj]⟩ (after_eq_none_iff.mp hn)

end Fields

section Runs

-- The digits that both readers collect.
def digitRun (text : Bytes) : Bytes :=
  (if text.head? = some minus then text.tail else text).takeWhile isDigit

def signed (text : Bytes) : Int :=
  if text.head? = some minus then -(digitsValue (digitRun text) : Int)
  else digitsValue (digitRun text)

theorem magnitude_eq (digits : Bytes) : magnitude digits = digitsValue digits := by
  induction digits using List.reverseRecOn
  case nil => rfl
  case append_singleton digits d hi =>
    have hm : magnitude (digits ++ [d]) = (d.toNat - 0x30) + 10 * magnitude digits := by
      simp [magnitude, Nat.ofDigits_cons]
    have hv : digitsValue (digits ++ [d]) = 10 * digitsValue digits + (d.toNat - 0x30) := by
      simp [digitsValue]
    rw [hm, hv, hi, Nat.add_comm]

theorem head?_run {digits rest : Bytes} (hn : digits ≠ []) (hd : ∀ c ∈ digits, isDigit c) :
    (digits ++ rest).head? ≠ some minus := by
  cases digits
  case nil => contradiction
  case cons d digits =>
    intro h
    have h : d = minus := by simpa using h
    exact absurd (h ▸ hd d (by simp)) (by decide)

theorem run_ends (text : Bytes) : ∀ c ∈ (text.dropWhile isDigit).head?, ¬isDigit c := by
  intro c hc
  have := List.head?_dropWhile_not isDigit text
  cases h : text.dropWhile isDigit <;> simp_all

theorem intText_iff : IntText text n ↔ digitRun text ≠ [] ∧ n = signed text := by
  constructor
  case mp =>
    intro h
    cases h
    case positive digits rest hn hd hr =>
      have hh := @head?_run _ rest hn hd
      have hq : digitRun (digits ++ rest) = digits := by
        rw [digitRun, if_neg hh, takeWhile_digits hd hr]
      rw [signed, if_neg hh, hq, magnitude_eq]
      exact ⟨hn, rfl⟩
    case negative digits rest hn hd hr =>
      simp [digitRun, signed, takeWhile_digits hd hr, hn, magnitude_eq]
  case mpr =>
    intro ⟨hn, he⟩
    subst he
    by_cases hm : text.head? = some minus
    case pos =>
      have ⟨rest, ht⟩ : ∃ rest, text = minus :: rest := by
        cases text <;> simp_all
      subst ht
      have hn : rest.takeWhile isDigit ≠ [] := by simpa [digitRun] using hn
      have h := IntText.negative hn (fun c => List.mem_takeWhile_imp) (run_ends rest)
      rw [List.takeWhile_append_dropWhile, magnitude_eq] at h
      simpa [signed, digitRun] using h
    case neg =>
      have hn : text.takeWhile isDigit ≠ [] := by simpa [digitRun, hm] using hn
      have h := IntText.positive hn (fun c => List.mem_takeWhile_imp) (run_ends text)
      rw [List.takeWhile_append_dropWhile, magnitude_eq] at h
      simpa [signed, digitRun, hm] using h

end Runs

section Readers

theorem extractJsonIntField_eq : extractJsonIntField json key =
    match afterField json key 0 with
    | none      => .absent
    | some text => if digitRun text = [] then .absent else stoll (signed text) :=
  rfl

theorem extractJsonInt32Field_eq : extractJsonInt32Field json key =
    (afterField json key 0).bind fun text =>
      if digitRun text = [] ∧ text.head? ≠ some minus then none else some (atoi (signed text)) :=
  rfl

theorem hasInt_iff : HasInt json key n ↔
    ∃ text, afterField json key 0 = some text ∧ digitRun text ≠ [] ∧ n = signed text := by
  simp only [HasInt, ← afterField_iff, intText_iff]

theorem hasInt_of_run (ha : afterField json key 0 = some text) (hd : digitRun text ≠ []) :
    HasInt json key n ↔ n = signed text := by
  simp [hasInt_iff, ha, hd]

theorem loneMinus_iff : LoneMinus json key ↔
    ∃ text, afterField json key 0 = some text ∧ text.head? = some minus ∧ digitRun text = [] := by
  simp only [LoneMinus, ← afterField_iff]
  constructor
  case mp =>
    intro ⟨rest, ha, hr⟩
    refine ⟨_, ha, rfl, ?_⟩
    exact @takeWhile_digits [] rest (by simp) hr
  case mpr =>
    intro ⟨text, ha, hm, hd⟩
    cases text
    case nil => simp at hm
    case cons c rest =>
      obtain rfl : c = minus := by simpa using hm
      refine ⟨rest, ha, ?_⟩
      cases rest <;> simp_all [digitRun]

-- What is expected of the readers: no exception, and a value exactly where there is one that fits.
structure SafeInt64 (json key : Bytes) : Prop where
  noThrow : extractJsonIntField json key ≠ .outOfRange
  exact n : extractJsonIntField json key = .value n ↔
    HasInt json key n ∧ int64Min ≤ n ∧ n ≤ int64Max

def SafeInt32 (json key : Bytes) : Prop :=
  ∀ n, extractJsonInt32Field json key = some n ↔ HasInt json key n ∧ int32Min ≤ n ∧ n ≤ int32Max

theorem safeInt64_iff :
    SafeInt64 json key ↔ ∀ n, HasInt json key n → int64Min ≤ n ∧ n ≤ int64Max := by
  constructor
  case mp =>
    intro h n hi
    have ⟨text, ha, hd, hn⟩ := hasInt_iff.mp hi
    by_contra hr
    apply h.noThrow
    rw [extractJsonIntField_eq, ha]
    simp [hd, stoll, ← hn, hr]
  case mpr =>
    intro h
    cases ha : afterField json key 0
    case none =>
      have he : extractJsonIntField json key = .absent := by rw [extractJsonIntField_eq, ha]
      exact ⟨by simp [he], fun n => by simp [he, hasInt_iff, ha]⟩
    case some text =>
      by_cases hd : digitRun text = []
      case pos =>
        have he : extractJsonIntField json key = .absent := by
          rw [extractJsonIntField_eq, ha]
          simp [hd]
        exact ⟨by simp [he], fun n => by simp [he, hasInt_iff, ha, hd]⟩
      case neg =>
        have hr := h _ ((hasInt_of_run ha hd).mpr rfl)
        have he : extractJsonIntField json key = .value (signed text) := by
          rw [extractJsonIntField_eq, ha]
          simp [hd, stoll, hr]
        refine ⟨by simp [he], fun n => ?_⟩
        rw [he, hasInt_of_run ha hd]
        constructor
        case mp =>
          intro hn
          obtain rfl := IntField.value.inj hn
          exact ⟨rfl, hr⟩
        case mpr => exact fun ⟨hn, _⟩ => hn ▸ rfl

theorem atoi_eq (h : int32Min ≤ n ∧ n ≤ int32Max) : atoi n = n := by
  simp only [int32Min, int32Max] at h
  have hs : max int64Min (min int64Max n) = n := by
    simp only [int64Min, int64Max]
    omega
  rw [atoi, hs, Int.bmod_def]
  split <;> omega

theorem safeInt32_iff : SafeInt32 json key ↔
    (∀ n, HasInt json key n → int32Min ≤ n ∧ n ≤ int32Max) ∧ ¬LoneMinus json key := by
  constructor
  case mp =>
    intro h
    constructor
    case left =>
      intro n hi
      have ⟨text, ha, hd, hn⟩ := hasInt_iff.mp hi
      have he : extractJsonInt32Field json key = some (atoi n) := by
        rw [extractJsonInt32Field_eq, ha]
        simp [hd, hn]
      have ⟨hi', hr⟩ := (h (atoi n)).mp he
      have : atoi n = n := ((hasInt_of_run ha hd).mp hi').trans hn.symm
      exact this ▸ hr
    case right =>
      intro hl
      have ⟨text, ha, hm, hd⟩ := loneMinus_iff.mp hl
      have he : extractJsonInt32Field json key = some (atoi (signed text)) := by
        rw [extractJsonInt32Field_eq, ha]
        simp [hm]
      have ⟨text', ha', hd', _⟩ := hasInt_iff.mp ((h _).mp he).left
      exact hd' (Option.some.inj (ha.symm.trans ha') ▸ hd)
  case mpr =>
    intro ⟨h, hl⟩ n
    cases ha : afterField json key 0
    case none => simp [extractJsonInt32Field_eq, hasInt_iff, ha]
    case some text =>
      by_cases hd : digitRun text = []
      case pos =>
        have hm : text.head? ≠ some minus := fun hm => hl (loneMinus_iff.mpr ⟨text, ha, hm, hd⟩)
        simp [extractJsonInt32Field_eq, hasInt_iff, ha, hd, hm]
      case neg =>
        have hr := h _ ((hasInt_of_run ha hd).mpr rfl)
        have he : extractJsonInt32Field json key = some (signed text) := by
          rw [extractJsonInt32Field_eq, ha]
          simp [hd, atoi_eq hr]
        rw [he, hasInt_of_run ha hd, Option.some.injEq]
        constructor
        case mp  => exact fun hn => ⟨hn.symm, hn ▸ hr⟩
        case mpr => exact fun ⟨hn, _⟩ => hn.symm

-- Both readers do what is asked of them except on a number that does not fit, and the one of the
-- host on a minus without a number too.
theorem readsIntegers_iff :
    (SafeInt64 json key ↔ ∀ n, HasInt json key n → int64Min ≤ n ∧ n ≤ int64Max) ∧
      (SafeInt32 json key ↔
        (∀ n, HasInt json key n → int32Min ≤ n ∧ n ≤ int32Max) ∧ ¬LoneMinus json key) :=
  ⟨safeInt64_iff, safeInt32_iff⟩

theorem not_readsIntegers :
    (¬∀ json key, SafeInt64 json key) ∧ ¬∀ json key, SafeInt32 json key := by
  constructor
  case left =>
    intro h
    exact (h "\x7b\"delay_ms\":9223372036854775808\x7d" "delay_ms").noThrow (by decide +kernel)
  case right =>
    intro h
    let body : Bytes := "\x7b\"timeout_ms\":-\x7d"
    have he : extractJsonInt32Field body "timeout_ms" = some 0 := by decide +kernel
    have ⟨text, ha, hd, _⟩ := hasInt_iff.mp ((h _ _ 0).mp he).left
    have ht : afterField body "timeout_ms" 0 = some "-\x7d" := by decide +kernel
    rw [← Option.some.inj (ht.symm.trans ha)] at hd
    exact hd (by decide +kernel)

end Readers

end Droidcli.Cli
