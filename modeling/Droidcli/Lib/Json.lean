import Droidcli.Lib.Bytes

-- The grammar of JSON texts, with the values they denote. A string denotes the UTF-8 encoding of
-- its characters.
namespace Json

open Bytes

inductive Value
  | null
  | bool (b : Bool)
  | number (text : Bytes)
  | string (text : Bytes)
  | array (elements : List Value)
  | object (members : List (Bytes × Value))

def Value.field : Value → Bytes → Option Value
  | object members, key => members.lookup key
  | _, _                => none

section Strings

def utf8 (n : Nat) : Bytes :=
  if n < 0x80 then [n.toUInt8]
  else if n < 0x800 then [(0xc0 + n / 0x40).toUInt8, (0x80 + n % 0x40).toUInt8]
  else if n < 0x10000 then
    [(0xe0 + n / 0x1000).toUInt8, (0x80 + n / 0x40 % 0x40).toUInt8, (0x80 + n % 0x40).toUInt8]
  else
    [(0xf0 + n / 0x40000).toUInt8, (0x80 + n / 0x1000 % 0x40).toUInt8,
      (0x80 + n / 0x40 % 0x40).toUInt8, (0x80 + n % 0x40).toUInt8]

def hexDigit (c : UInt8) : Option Nat :=
  if isDigit c then some (c.toNat - 0x30)
  else if 0x41 ≤ c ∧ c ≤ 0x46 then some (c.toNat - 0x41 + 10)
  else if 0x61 ≤ c ∧ c ≤ 0x66 then some (c.toNat - 0x61 + 10)
  else none

-- The code unit behind `\u`.
def hex4 (a b c d : UInt8) : Option Nat := do
  return ((← hexDigit a) * 16 + (← hexDigit b)) * 256 + (← hexDigit c) * 16 + (← hexDigit d)

def isHighSurrogate (n : Nat) : Bool :=
  0xd800 ≤ n && n < 0xdc00

def isLowSurrogate (n : Nat) : Bool :=
  0xdc00 ≤ n && n < 0xe000

def surrogatePair (high low : Nat) : Nat :=
  0x10000 + (high - 0xd800) * 0x400 + (low - 0xdc00)

-- The two-character escapes.
def shortEscape (e : UInt8) : Option UInt8 :=
  if e = quote ∨ e = backslash ∨ e = slash then some e
  else if e = 0x62 then some 0x08 -- \b
  else if e = 0x66 then some 0x0c -- \f
  else if e = 0x6e then some lf   -- \n
  else if e = 0x72 then some cr   -- \r
  else if e = 0x74 then some tab  -- \t
  else none

-- `Body raw r t`: between quotes, `r` denotes `t`. The bytes that may stand for themselves are
-- those of `raw`; for RFC 8259 these are all but the control characters.
inductive Body (raw : UInt8 → Prop) : Bytes → Bytes → Prop
  | nil : Body raw [] []
  | plain {c : UInt8} {r t : Bytes} :
    raw c → c ≠ quote → c ≠ backslash → Body raw r t → Body raw (c :: r) (c :: t)
  | short {e b : UInt8} {r t : Bytes} :
    shortEscape e = some b → Body raw r t → Body raw (backslash :: e :: r) (b :: t)
  | unicode {a b c d : UInt8} {n : Nat} {r t : Bytes} :
    hex4 a b c d = some n → ¬isHighSurrogate n → ¬isLowSurrogate n → Body raw r t →
    Body raw (backslash :: 0x75 :: a :: b :: c :: d :: r) (utf8 n ++ t)
  | pair {a b c d e f g h : UInt8} {m n : Nat} {r t : Bytes} :
    hex4 a b c d = some m → isHighSurrogate m → hex4 e f g h = some n → isLowSurrogate n →
    Body raw r t →
    Body raw (backslash :: 0x75 :: a :: b :: c :: d :: backslash :: 0x75 :: e :: f :: g :: h :: r)
      (utf8 (surrogatePair m n) ++ t)

def strict (c : UInt8) : Prop :=
  0x20 ≤ c

instance : DecidablePred strict :=
  fun c => inferInstanceAs (Decidable (0x20 ≤ c))

def lenient (_ : UInt8) : Prop :=
  True

-- Text between quotes, as far as its end is concerned.
inductive Quoted : Bytes → Prop
  | nil : Quoted []
  | plain {c : UInt8} {r : Bytes} : c ≠ quote → c ≠ backslash → Quoted r → Quoted (c :: r)
  | escaped {e : UInt8} {r : Bytes} : Quoted r → Quoted (backslash :: e :: r)

theorem hexDigit_plain {c : UInt8} {n : Nat} (h : hexDigit c = some n) :
    c ≠ quote ∧ c ≠ backslash := by
  constructor <;> intro he <;> rw [he] at h <;> contradiction

theorem hex4_plain {a b c d : UInt8} {n : Nat} {r : Bytes} (h : hex4 a b c d = some n)
    (hr : Quoted r) : Quoted (a :: b :: c :: d :: r) := by
  simp only [hex4, Option.pure_def, Option.bind_eq_bind, Option.bind_eq_some_iff] at h
  have ⟨_, ha, _, hb, _, hc, _, hd, _⟩ := h
  have ⟨ha, ha'⟩ := hexDigit_plain ha
  have ⟨hb, hb'⟩ := hexDigit_plain hb
  have ⟨hc, hc'⟩ := hexDigit_plain hc
  have ⟨hd, hd'⟩ := hexDigit_plain hd
  exact .plain ha ha' <| .plain hb hb' <| .plain hc hc' <| .plain hd hd' hr

theorem Body.quoted {raw : UInt8 → Prop} {r t : Bytes} (h : Body raw r t) : Quoted r := by
  induction h
  case nil                   => exact .nil
  case plain _ hq hb _ hi    => exact .plain hq hb hi
  case short _ _ hi          => exact .escaped hi
  case unicode hx _ _ _ hi   => exact .escaped (hex4_plain hx hi)
  case pair hx _ hy _ _ hi   => exact .escaped (hex4_plain hx (.escaped (hex4_plain hy hi)))

-- Text that is its own meaning, such as a key without escapes.
def Plain (key : Bytes) : Prop :=
  ∀ c ∈ key, c ≠ quote ∧ c ≠ backslash

instance (key : Bytes) : Decidable (Plain key) :=
  inferInstanceAs (Decidable (∀ c ∈ key, c ≠ quote ∧ c ≠ backslash))

theorem Plain.quoted {key : Bytes} (hk : Plain key) : Quoted key := by
  induction key
  case nil => exact .nil
  case cons c key hi =>
    have ⟨hq, hb⟩ := hk c (by simp)
    exact .plain hq hb (hi fun c hc => hk c (List.mem_cons_of_mem _ hc))

-- A string ends at its first unescaped quote.
theorem Quoted.unique {r r' s t : Bytes} (hr : Quoted r) (hr' : Quoted r')
    (h : r ++ quote :: s = r' ++ quote :: t) : r = r' ∧ s = t := by
  induction hr generalizing r' <;> cases hr'
  case nil.nil                 => simpa using h
  case nil.plain hq _ _        => exact absurd (List.cons.inj h).left.symm hq
  case nil.escaped             => exact absurd (List.cons.inj h).left (by decide)
  case plain.nil hq _ _ _      => exact absurd (List.cons.inj h).left hq
  case plain.escaped hb _ _ _ _ _ => exact absurd (List.cons.inj h).left hb
  case escaped.nil             => exact absurd (List.cons.inj h).left (by decide)
  case escaped.plain hb _      => exact absurd (List.cons.inj h).left.symm hb
  case plain.plain hi _ _ _ _ hr' =>
    have ⟨hc, h⟩ := List.cons.inj h
    have ⟨he, hs⟩ := hi hr' h
    exact ⟨by rw [hc, he], hs⟩
  case escaped.escaped hi _ _ hr' =>
    have ⟨hc, h⟩ := List.cons.inj (List.cons.inj h).right
    have ⟨he, hs⟩ := hi hr' h
    exact ⟨by rw [hc, he], hs⟩

end Strings

section Texts

def isGap (c : UInt8) : Bool :=
  c = space || c = tab || c = lf || c = cr

def Gap (w : Bytes) : Prop :=
  ∀ c ∈ w, isGap c

def IsDigits (s : Bytes) : Prop :=
  s ≠ [] ∧ ∀ c ∈ s, isDigit c

inductive IsNumber : Bytes → Prop
  | mk {sign int frac exp : Bytes} :
    (sign = [] ∨ sign = [minus]) →
    IsDigits int → (int.head? = some 0x30 → int = [0x30]) →
    (frac = [] ∨ ∃ ds, IsDigits ds ∧ frac = dot :: ds) →
    (exp = [] ∨ ∃ e s ds, e ∈ [0x65, 0x45] ∧ (s = [] ∨ s = [minus] ∨ s = [0x2b]) ∧ IsDigits ds ∧
      exp = e :: s ++ ds) →
    IsNumber (sign ++ int ++ frac ++ exp)

variable (raw : UInt8 → Prop)

mutual

inductive IsValue : Bytes → Value → Prop
  | null : IsValue "null" .null
  | isTrue : IsValue "true" (.bool true)
  | isFalse : IsValue "false" (.bool false)
  | number {n : Bytes} : IsNumber n → IsValue n (.number n)
  | string {r t : Bytes} : Body raw r t → IsValue (quote :: r ++ [quote]) (.string t)
  | emptyArray {w : Bytes} : Gap w → IsValue (lbracket :: w ++ [rbracket]) (.array [])
  | array {e : Bytes} {vs : List Value} :
    IsElements e vs → IsValue (lbracket :: e ++ [rbracket]) (.array vs)
  | emptyObject {w : Bytes} : Gap w → IsValue (lbrace :: w ++ [rbrace]) (.object [])
  | object {m : Bytes} {ms : List (Bytes × Value)} :
    IsMembers m ms → IsValue (lbrace :: m ++ [rbrace]) (.object ms)

inductive IsText : Bytes → Value → Prop
  | mk {w e w' : Bytes} {v : Value} :
    Gap w → Gap w' → IsValue e v → IsText (w ++ e ++ w') v

inductive IsElements : Bytes → List Value → Prop
  | one {e : Bytes} {v : Value} : IsText e v → IsElements e [v]
  | cons {e es : Bytes} {v : Value} {vs : List Value} :
    IsText e v → IsElements es vs → IsElements (e ++ comma :: es) (v :: vs)

inductive IsMember : Bytes → Bytes × Value → Prop
  | mk {w k w' e key : Bytes} {v : Value} :
    Gap w → Body raw k key → Gap w' → IsText e v →
    IsMember (w ++ quote :: k ++ quote :: w' ++ colon :: e) (key, v)

inductive IsMembers : Bytes → List (Bytes × Value) → Prop
  | one {e : Bytes} {m : Bytes × Value} : IsMember e m → IsMembers e [m]
  | cons {e es : Bytes} {m : Bytes × Value} {ms : List (Bytes × Value)} :
    IsMember e m → IsMembers es ms → IsMembers (e ++ comma :: es) (m :: ms)

end

variable {raw}

theorem gap_nil : Gap [] := by
  simp [Gap]

theorem IsValue.text {e : Bytes} {v : Value} (h : IsValue raw e v) : IsText raw e v := by
  simpa using IsText.mk gap_nil gap_nil h

-- A key that is written without escapes.
theorem plain_body {key : Bytes} (hk : Plain key) (hr : ∀ c ∈ key, raw c) : Body raw key key := by
  induction key
  case nil => exact .nil
  case cons c key hi =>
    have ⟨hq, hb⟩ := hk c (by simp)
    have hi := hi (fun c hc => hk c (List.mem_cons_of_mem _ hc))
      (fun c hc => hr c (List.mem_cons_of_mem _ hc))
    exact .plain (hr c (by simp)) hq hb hi

theorem Plain.body {key : Bytes} (hk : Plain key) : Body lenient key key :=
  plain_body hk fun _ _ => trivial

theorem IsMember.plain {key e : Bytes} {v : Value} (hk : Body raw key key) (h : IsText raw e v) :
    IsMember raw (quote :: key ++ quote :: colon :: e) (key, v) := by
  simpa using IsMember.mk gap_nil hk gap_nil h

end Texts

-- A member as it is searched for: a key, and how its value begins.
def pattern (key lit : Bytes) : Bytes :=
  quote :: (key ++ quote :: colon :: lit)

-- What the first bytes of a text say about its value.
section Heads

variable {raw : UInt8 → Prop} {v : Value} {c : UInt8} {e t w s u : Bytes}

theorem Gap.eq_nil (hw : Gap w) (hc : ¬isGap c) (h : w ++ s = c :: u) : w = [] := by
  cases w
  case nil => rfl
  case cons d w => exact absurd (hw d (by simp)) ((List.cons.inj h).left ▸ hc)

theorem Body.eq_of_plain {key : Bytes} (hk : Plain key) (h : Body raw key t) : t = key := by
  induction h
  case nil => rfl
  case plain c _ _ _ _ _ _ hi =>
    rw [hi fun c hc => hk c (List.mem_cons_of_mem _ hc)]
  all_goals exact absurd rfl (hk backslash (by simp)).right

theorem IsNumber.head (h : IsNumber e) : ∃ c, e.head? = some c ∧ (c = minus ∨ isDigit c) := by
  cases h
  case mk sign int _ _ hs hd _ _ _ =>
    have ⟨c, int', hi⟩ := List.exists_cons_of_ne_nil hd.left
    cases hs
    case inl hs => exact ⟨c, by simp [hs, hi], .inr <| hd.right c (by simp [hi])⟩
    case inr hs => exact ⟨minus, by simp [hs], .inl rfl⟩

theorem IsValue.ne_nil (h : IsValue raw e v) : e ≠ [] := by
  cases h
  case number h =>
    have ⟨c, h, _⟩ := h.head
    intro he
    simp [he] at h
  case null  => decide
  case isTrue  => decide
  case isFalse => decide
  all_goals simp

theorem IsText.ne_nil (h : IsText raw e v) : e ≠ [] := by
  cases h
  case mk hv => simp [hv.ne_nil]

theorem IsText.of_head (h : IsText raw (c :: t) v) (hc : ¬isGap c) :
    ∃ e w, IsValue raw (c :: e) v ∧ t = e ++ w := by
  generalize ht : c :: t = t' at h
  cases h
  case mk w e w' hw _ hv =>
    rw [List.append_assoc] at ht
    have hw := hw.eq_nil hc ht.symm
    have ⟨d, e', he⟩ := List.exists_cons_of_ne_nil hv.ne_nil
    have ht : c :: t = d :: (e' ++ w') := by simpa [hw, he] using ht
    have ⟨hd, ht⟩ := List.cons.inj ht
    exact ⟨e', w', hd ▸ he ▸ hv, ht⟩

theorem not_isNumber (hm : c ≠ minus) (hd : ¬isDigit c) : ¬IsNumber (c :: e) := by
  intro h
  have ⟨d, he, h⟩ := h.head
  have hc : c = d := by simpa using he
  cases h
  case inl h => exact hm (hc.trans h)
  case inr h => exact hd (hc ▸ h)

-- The first byte of a value tells its kind.
theorem IsValue.of_n (h : IsValue raw (0x6e :: e) v) : v = .null ∧ 0x6e :: e = str "null" := by
  generalize ht : 0x6e :: e = t at h
  cases h
  case null     => exact ⟨rfl, rfl⟩
  case number h => exact absurd (ht ▸ h) (not_isNumber (by decide) (by decide))
  all_goals exact absurd (congrArg List.head? ht) (by simp [str]; try decide)

theorem IsValue.of_t (h : IsValue raw (0x74 :: e) v) :
    v = .bool true ∧ 0x74 :: e = str "true" := by
  generalize ht : 0x74 :: e = t at h
  cases h
  case isTrue   => exact ⟨rfl, rfl⟩
  case number h => exact absurd (ht ▸ h) (not_isNumber (by decide) (by decide))
  all_goals exact absurd (congrArg List.head? ht) (by simp [str]; try decide)

theorem IsValue.of_f (h : IsValue raw (0x66 :: e) v) :
    v = .bool false ∧ 0x66 :: e = str "false" := by
  generalize ht : 0x66 :: e = t at h
  cases h
  case isFalse  => exact ⟨rfl, rfl⟩
  case number h => exact absurd (ht ▸ h) (not_isNumber (by decide) (by decide))
  all_goals exact absurd (congrArg List.head? ht) (by simp [str]; try decide)

theorem IsValue.of_quote (h : IsValue raw (quote :: e) v) :
    ∃ r t, Body raw r t ∧ e = r ++ [quote] ∧ v = .string t := by
  generalize ht : quote :: e = t at h
  cases h
  case string r t hr => exact ⟨r, t, hr, (List.cons.inj ht).right, rfl⟩
  case number h      => exact absurd (ht ▸ h) (not_isNumber (by decide) (by decide))
  all_goals exact absurd (congrArg List.head? ht) (by simp [str]; try decide)

theorem IsValue.of_lbracket (h : IsValue raw (lbracket :: e) v) :
    (∃ w, Gap w ∧ e = w ++ [rbracket] ∧ v = .array []) ∨
      ∃ es vs, IsElements raw es vs ∧ e = es ++ [rbracket] ∧ v = .array vs := by
  generalize ht : lbracket :: e = t at h
  cases h
  case emptyArray w hw => exact .inl ⟨w, hw, by simpa using ht, rfl⟩
  case array es vs hs  => exact .inr ⟨es, vs, hs, by simpa using ht, rfl⟩
  case number h        => exact absurd (ht ▸ h) (not_isNumber (by decide) (by decide))
  all_goals exact absurd (congrArg List.head? ht) (by simp [str]; try decide)

theorem IsValue.of_lbrace (h : IsValue raw (lbrace :: e) v) :
    (∃ w, Gap w ∧ e = w ++ [rbrace] ∧ v = .object []) ∨
      ∃ m ms, IsMembers raw m ms ∧ e = m ++ [rbrace] ∧ v = .object ms := by
  generalize ht : lbrace :: e = t at h
  cases h
  case emptyObject w hw => exact .inl ⟨w, hw, by simpa using ht, rfl⟩
  case object m ms hm   => exact .inr ⟨m, ms, hm, by simpa using ht, rfl⟩
  case number h         => exact absurd (ht ▸ h) (not_isNumber (by decide) (by decide))
  all_goals exact absurd (congrArg List.head? ht) (by simp [str]; try decide)

theorem IsValue.of_number (hc : c = minus ∨ isDigit c) (h : IsValue raw (c :: e) v) :
    IsNumber (c :: e) ∧ v = .number (c :: e) := by
  generalize ht : c :: e = t at h
  cases h
  case number h => exact ⟨h, rfl⟩
  all_goals
    have hc' := (List.cons.inj ht).left
    exact absurd hc (hc' ▸ by decide)

theorem IsMembers.first {m : Bytes} {ms : List (Bytes × Value)} (h : IsMembers raw m ms) :
    ∃ e first ms' rest, IsMember raw e first ∧ ms = first :: ms' ∧ m = e ++ rest := by
  cases h
  case one h      => exact ⟨_, _, [], [], h, rfl, by simp⟩
  case cons h _   => exact ⟨_, _, _, _, h, rfl, rfl⟩

-- An object whose text begins with a member that is false has that member.
theorem IsText.field_false {key : Bytes} (hk : Plain key)
    (h : IsText raw (lbrace :: quote :: (key ++ quote :: colon :: 0x66 :: s)) v) :
    v.field key = some (.bool false) := by
  have ⟨e, u, hv, he⟩ := h.of_head (by decide)
  cases hv.of_lbrace
  case inl hv =>
    have ⟨w, hw, hm, _⟩ := hv
    have he : w ++ rbrace :: u = quote :: (key ++ quote :: colon :: 0x66 :: s) := by
      simpa [hm] using he.symm
    have hn := hw.eq_nil (by decide) he
    exact absurd (List.cons.inj (hn ▸ he)).left (by decide)
  case inr hv =>
    have ⟨m, ms, hm, hm', hv⟩ := hv
    have ⟨e', first, ms', rest, hf, hms, he'⟩ := hm.first
    cases hf
    case mk w k w' val key' value hw hk' hw' hval =>
      have he : w ++ (quote :: (k ++ quote :: (w' ++ colon :: (val ++ (rest ++ rbrace :: u))))) =
          quote :: (key ++ quote :: colon :: 0x66 :: s) := by
        simpa [hm', he'] using he.symm
      have hn := hw.eq_nil (by decide) he
      have ⟨hkk, he⟩ := hk.quoted.unique hk'.quoted (List.cons.inj (hn ▸ he)).right.symm
      have hn := hw'.eq_nil (by decide) he.symm
      have he := (List.cons.inj (hn ▸ he)).right
      have ⟨c, val', hc⟩ := List.exists_cons_of_ne_nil hval.ne_nil
      have ⟨hf, _⟩ := List.cons.inj (hc ▸ he)
      have ⟨_, _, hval, _⟩ := IsText.of_head (hf ▸ hc ▸ hval) (by decide)
      have hkey : key' = key := Body.eq_of_plain hk (hkk ▸ hk')
      simp [hv, hms, Value.field, hkey, hval.of_f.left]

-- What stands behind a value in an object.
def Follows (s : Bytes) : Prop :=
  ∃ c ∈ [comma, rbrace], s.head? = some c

-- A text that no value outruns or falls short of.
def Delimited (raw : UInt8 → Prop) (e₀ : Bytes) : Prop :=
  ∀ {e v s u}, IsText raw e v → e ++ s = e₀ ++ u → Follows s → Follows u → s = u

theorem Follows.gap {w s u : Bytes} (hw : Gap w) (hu : Follows u) (h : w ++ s = u) : s = u := by
  have ⟨c, hc, hu⟩ := hu
  have ⟨u', hu'⟩ := List.head?_eq_some_iff.mp hu
  have hn : ¬isGap c := by
    simp only [List.mem_cons, List.not_mem_nil, or_false] at hc
    rcases hc with rfl | rfl <;> decide
  simpa [hw.eq_nil hn (h.trans hu')] using h

theorem delimited_string {r : Bytes} (hr : Quoted r) : Delimited raw (quote :: r ++ [quote]) := by
  intro e v s u h he _ hu
  cases h
  case mk w e w' hw hw' hv =>
    have he : w ++ (e ++ (w' ++ s)) = quote :: (r ++ quote :: u) := by simpa using he
    have hn := hw.eq_nil (by decide) he
    have ⟨c, e', hc⟩ := List.exists_cons_of_ne_nil hv.ne_nil
    have he : c :: (e' ++ (w' ++ s)) = quote :: (r ++ quote :: u) := by simpa [hn, hc] using he
    have ⟨hq, he⟩ := List.cons.inj he
    have ⟨r', _, hr', he', _⟩ := IsValue.of_quote (hq ▸ hc ▸ hv)
    have he : r' ++ quote :: (w' ++ s) = r ++ quote :: u := by simpa [he'] using he
    exact hu.gap hw' (hr'.quoted.unique hr he).right

theorem delimited_false : Delimited raw (str "false") := by
  intro e v s u h he _ hu
  cases h
  case mk w e w' hw hw' hv =>
    have hf : str "false" = 0x66 :: [0x61, 0x6c, 0x73, 0x65] := by decide
    have he : w ++ (e ++ (w' ++ s)) = 0x66 :: ([0x61, 0x6c, 0x73, 0x65] ++ u) := by
      simpa [hf] using he
    have hn := hw.eq_nil (by decide) he
    have ⟨c, e', hc⟩ := List.exists_cons_of_ne_nil hv.ne_nil
    have he : c :: (e' ++ (w' ++ s)) = 0x66 :: ([0x61, 0x6c, 0x73, 0x65] ++ u) := by
      simpa [hn, hc] using he
    have ⟨hq, he⟩ := List.cons.inj he
    have ⟨_, ht⟩ := IsValue.of_f (hq ▸ hc ▸ hv)
    have ht : e' = [0x61, 0x6c, 0x73, 0x65] := (List.cons.inj (ht.trans hf)).right
    exact hu.gap hw' (by simpa [ht] using he)

theorem IsMember.read {m k s u : Bytes} {member : Bytes × Value} (h : IsMember raw m member)
    (hk : Plain k) (hd : Delimited raw e) (he : m ++ s = pattern k e ++ u) (hs : Follows s)
    (hu : Follows u) : member.1 = k ∧ s = u := by
  cases h
  case mk w k' w' val key value hw hk' hw' hval =>
    have he : w ++ (quote :: (k' ++ quote :: (w' ++ colon :: (val ++ s)))) =
        quote :: (k ++ quote :: colon :: (e ++ u)) := by
      simpa [pattern] using he
    have hn := hw.eq_nil (by decide) he
    have ⟨hkk, he⟩ := hk.quoted.unique hk'.quoted (List.cons.inj (hn ▸ he)).right.symm
    have hn := hw'.eq_nil (by decide) he.symm
    have he := (List.cons.inj (hn ▸ he)).right
    exact ⟨Body.eq_of_plain hk (hkk ▸ hk'), hd hval he.symm hs hu⟩

-- The keys of an object, read off its text.
theorem IsMembers.keys {m s u : Bytes} {ms : List (Bytes × Value)} (h : IsMembers raw m ms)
    {parts : List (Bytes × Bytes)} (hne : parts ≠ [])
    (hp : ∀ p ∈ parts, Plain p.1 ∧ Delimited raw p.2)
    (he : m ++ rbrace :: s = joinWith [comma] (parts.map fun p => pattern p.1 p.2) ++ rbrace :: u) :
    ms.map Prod.fst = parts.map Prod.fst := by
  have hf {c : UInt8} {s : Bytes} (hc : c ∈ [comma, rbrace]) : Follows (c :: s) := ⟨c, hc, rfl⟩
  induction parts generalizing m ms
  case nil => contradiction
  case cons p parts hi =>
    obtain ⟨hk, hd⟩ := hp p (by simp)
    match parts with
    | [] =>
      cases h
      case one h =>
        have he : m ++ rbrace :: s = pattern p.1 p.2 ++ rbrace :: u := by
          simpa [joinWith] using he
        obtain ⟨hk, _⟩ := h.read hk hd he (hf (by simp)) (hf (by simp))
        simp [hk]
      case cons e es _ _ h _ =>
        have he : e ++ comma :: (es ++ rbrace :: s) = pattern p.1 p.2 ++ rbrace :: u := by
          simpa [joinWith] using he
        obtain ⟨_, he⟩ := h.read hk hd he (hf (by simp)) (hf (by simp))
        exact absurd (List.cons.inj he).left (by decide)
    | q :: parts =>
      generalize hj : joinWith [comma] ((q :: parts).map fun p => pattern p.1 p.2) = joined at *
      have hj' : joinWith [comma] ((p :: q :: parts).map fun p => pattern p.1 p.2) =
          pattern p.1 p.2 ++ comma :: joined := by
        simp [← hj, joinWith, List.intercalate]
      cases h
      case one h =>
        have he : m ++ rbrace :: s = pattern p.1 p.2 ++ comma :: (joined ++ rbrace :: u) := by
          rw [hj'] at he
          simpa using he
        obtain ⟨_, he⟩ := h.read hk hd he (hf (by simp)) (hf (by simp))
        exact absurd (List.cons.inj he).left (by decide)
      case cons e es _ _ h hs =>
        have he : e ++ comma :: (es ++ rbrace :: s) =
            pattern p.1 p.2 ++ comma :: (joined ++ rbrace :: u) := by
          rw [hj'] at he
          simpa using he
        obtain ⟨hk, he⟩ := h.read hk hd he (hf (by simp)) (hf (by simp))
        have hi := hi hs (by simp) (fun p hm => hp p (List.mem_cons_of_mem _ hm))
          (List.cons.inj he).right
        simp [hk, hi]

theorem IsText.field_none {key : Bytes} {parts : List (Bytes × Bytes)} (hne : parts ≠ [])
    (hp : ∀ p ∈ parts, Plain p.1 ∧ Delimited raw p.2) (hk : key ∉ parts.map Prod.fst)
    (h : IsText raw
      (lbrace :: joinWith [comma] (parts.map fun p => pattern p.1 p.2) ++ [rbrace]) v) :
    v.field key = none := by
  have ⟨e, u, hv, he⟩ := IsText.of_head h (by decide)
  cases hv.of_lbrace
  case inl hv =>
    have ⟨_, _, _, hv⟩ := hv
    simp [hv, Value.field]
  case inr hv =>
    have ⟨m, ms, hm, hm', hv⟩ := hv
    have he : m ++ rbrace :: u =
        joinWith [comma] (parts.map fun p => pattern p.1 p.2) ++ rbrace :: [] := by
      simpa [hm'] using he.symm
    have hkeys := hm.keys hne hp he
    rw [hv, Value.field, List.lookup_eq_none_iff]
    intro p hp
    have : p.1 ∈ parts.map Prod.fst := hkeys ▸ List.mem_map_of_mem hp
    have : key ≠ p.1 := fun he => hk (he ▸ this)
    simpa using this

end Heads

section Scan

variable {key lit r rest : Bytes}

theorem pattern_prefix (hk : Plain key) (hr : Quoted r) :
    pattern key lit <+: quote :: (r ++ quote :: rest) ↔ key = r ∧ colon :: lit <+: rest := by
  constructor
  case mp =>
    intro ⟨t, h⟩
    have h : key ++ quote :: (colon :: lit ++ t) = r ++ quote :: rest := by
      simpa [pattern] using h
    have ⟨he, hs⟩ := hk.quoted.unique hr h
    exact ⟨he, t, hs⟩
  case mpr =>
    intro ⟨he, t, h⟩
    exact ⟨t, by simp [pattern, he, ← h]⟩

-- A search for a member steps over a string, unless the string is the key itself: a quote within
-- it is escaped, and what follows such a quote is again the rest of a string.
theorem inert_string (hk : Plain key) (hr : Quoted r)
    (hc : ∀ s, s = r ∨ quote :: s <:+ r → key = s → ¬ colon :: lit <+: rest)
    (hn : ¬ key ++ [quote] <+: rest) :
    Inert (pattern key lit) (quote :: r ++ [quote]) rest := by
  have hlast : Inert (pattern key lit) [quote] rest := by
    refine inert_cons ?_ inert_nil
    intro ⟨t, h⟩
    exact hn ⟨colon :: lit ++ t, by simpa [pattern] using h⟩
  have hc' : ∀ s, quote :: s <:+ r → key = s → ¬ colon :: lit <+: rest := fun s h => hc s (.inr h)
  have hbody : Inert (pattern key lit) r (quote :: rest) := by
    clear hc
    induction hr
    case nil => exact inert_nil
    case plain c r hq hb hr hi =>
      refine inert_cons ?_ (hi fun s hs => hc' s (hs.trans (List.suffix_cons _ _)))
      intro ⟨t, h⟩
      exact hq (List.cons.inj h).left.symm
    case escaped e r hr hi =>
      have hs : r <:+ backslash :: e :: r := (List.suffix_cons _ _).trans (List.suffix_cons _ _)
      refine inert_cons ?_ (inert_cons ?_ (hi fun s h => hc' s (h.trans hs)))
      case refine_1 =>
        intro ⟨t, h⟩
        exact absurd (List.cons.inj h).left (by decide)
      case refine_2 =>
        intro ⟨t, h⟩
        have ⟨he, h⟩ := List.cons.inj h
        have hp : pattern key lit <+: quote :: (r ++ quote :: rest) :=
          ⟨t, by rw [pattern]; exact congrArg (quote :: ·) h⟩
        have ⟨hkr, hcr⟩ := pattern_prefix hk hr |>.mp hp
        exact hc' r (he ▸ List.suffix_cons _ _) hkr hcr
  have hfirst : ¬ pattern key lit <+: quote :: r ++ ([quote] ++ rest) := by
    intro hp
    have hp : pattern key lit <+: quote :: (r ++ quote :: rest) := by simpa using hp
    have ⟨hkr, hcr⟩ := pattern_prefix hk hr |>.mp hp
    exact hc r (.inl rfl) hkr hcr
  exact inert_append (inert_cons (by simpa using hfirst) hbody) hlast

-- Names as programs choose them for the members of their objects.
def isWordChar (c : UInt8) : Bool :=
  isAlnum c || c = 0x5f

def Word (key : Bytes) : Prop :=
  key ≠ [] ∧ ∀ c ∈ key, isWordChar c

instance (key : Bytes) : Decidable (Word key) :=
  inferInstanceAs (Decidable (key ≠ [] ∧ ∀ c ∈ key, isWordChar c))

theorem Word.plain (hk : Word key) : Plain key := by
  intro c hc
  have := hk.right c hc
  constructor <;> intro he <;> rw [he] at this <;> contradiction

-- What may follow a value.
def Closing (rest : Bytes) : Prop :=
  ∀ c ∈ rest.head?, c ≠ colon ∧ ¬isWordChar c

theorem Follows.closing (h : Follows rest) : Closing rest := by
  have ⟨c, hc, hs⟩ := h
  intro d hd
  have : c = d := by simpa [hs] using hd
  revert hc
  rw [this]
  simp only [List.mem_cons, List.not_mem_nil, or_false]
  rintro (rfl | rfl) <;> decide

theorem Word.not_prefix {c : UInt8} {s : Bytes} (hk : Word key) (hc : ¬isWordChar c) :
    ¬ key ++ s <+: c :: rest := by
  have ⟨d, key', hd⟩ := List.exists_cons_of_ne_nil hk.left
  intro ⟨t, h⟩
  have he : d = c := by simp_all
  exact hc <| he ▸ hk.right d (by simp [hd])

theorem inert_value (hk : Word key) (hr : Quoted r) (hrest : Closing rest) :
    Inert (pattern key lit) (quote :: r ++ [quote]) rest := by
  apply inert_string hk.plain hr
  case hc =>
    intro s _ _ ⟨t, h⟩
    exact absurd rfl (hrest colon (by simp [← h])).left
  case hn =>
    cases rest
    case nil         => simp
    case cons c rest => exact hk.not_prefix (hrest c rfl).right

theorem inert_key {k : Bytes} (hk : Word key) (hp : Plain k) (hne : key ≠ k) :
    Inert (pattern key lit) (quote :: k ++ [quote]) (colon :: rest) := by
  apply inert_string hk.plain hp.quoted
  case hc =>
    intro s hs he _
    cases hs
    case inl hs => exact hne (he.trans hs)
    case inr hs => exact absurd rfl (hp quote (hs.subset (by simp))).left
  case hn => exact hk.not_prefix (by decide)

-- A key that is searched for, with a value that begins in another way.
theorem inert_own_key (hk : Word key) (hv : ¬ lit <+: rest) :
    Inert (pattern key lit) (quote :: key ++ [quote]) (colon :: rest) := by
  apply inert_string hk.plain hk.plain.quoted
  case hc =>
    intro s hs he ⟨t, h⟩
    exact hv ⟨t, (List.cons.inj h).right⟩
  case hn => exact hk.not_prefix (by decide)

theorem inert_unquoted (h : quote ∉ r) : Inert (pattern key lit) r rest :=
  inert_of_not_mem h

end Scan
end Json
