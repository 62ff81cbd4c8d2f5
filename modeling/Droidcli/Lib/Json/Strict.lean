import Droidcli.Lib.Json.Unambiguous

-- Texts whose strings have their control characters escaped, as RFC 8259 demands.
namespace Json

open Bytes

def Allowed (c : UInt8) : Prop :=
  0x20 ≤ c ∨ c ∈ [lf, cr, tab]

instance (c : UInt8) : Decidable (Allowed c) :=
  inferInstanceAs (Decidable (_ ∨ _))

section Bytes

variable {c : UInt8} {e r t w : Bytes}

theorem isDigit_printable (h : isDigit c) : 0x20 ≤ c := by
  simp only [isDigit, Bool.and_eq_true, decide_eq_true_eq] at h
  exact UInt8.le_trans (by decide) h.left

theorem hexDigit_printable {n : Nat} (h : hexDigit c = some n) : 0x20 ≤ c := by
  rw [hexDigit] at h
  split_ifs at h with hd hu hl
  case pos => exact isDigit_printable hd
  case pos => exact UInt8.le_trans (by decide) hu.left
  case pos => exact UInt8.le_trans (by decide) hl.left

theorem hex4_printable {a b c d : UInt8} {n : Nat} (h : hex4 a b c d = some n) :
    ∀ x ∈ [a, b, c, d], 0x20 ≤ x := by
  simp only [hex4, Option.pure_def, Option.bind_eq_bind, Option.bind_eq_some_iff] at h
  obtain ⟨_, ha, _, hb, _, hc, _, hd, _⟩ := h
  simpa using ⟨hexDigit_printable ha, hexDigit_printable hb, hexDigit_printable hc,
    hexDigit_printable hd⟩

theorem shortEscape_printable {b : UInt8} (h : shortEscape c = some b) : 0x20 ≤ c := by
  rw [shortEscape] at h
  split_ifs at h with hs hb hf hn hr ht
  case pos => rcases hs with rfl | rfl | rfl <;> decide
  all_goals simp only [*]; decide

theorem Body.printable (h : Body strict r t) : ∀ c ∈ r, 0x20 ≤ c := by
  induction h
  case nil => simp
  case plain hc _ _ _ hi => exact List.forall_mem_cons.mpr ⟨hc, hi⟩
  case short he _ hi =>
    simp only [List.forall_mem_cons]
    exact ⟨by decide, shortEscape_printable he, hi⟩
  case unicode hx _ _ _ hi =>
    have := hex4_printable hx
    simp only [List.forall_mem_cons] at this ⊢
    exact ⟨by decide, by decide, this.1, this.2.1, this.2.2.1, this.2.2.2.1, hi⟩
  case pair hx _ hy _ _ hi =>
    have hx := hex4_printable hx
    have hy := hex4_printable hy
    simp only [List.forall_mem_cons] at hx hy ⊢
    exact ⟨by decide, by decide, hx.1, hx.2.1, hx.2.2.1, hx.2.2.2.1, by decide, by decide, hy.1,
      hy.2.1, hy.2.2.1, hy.2.2.2.1, hi⟩

theorem IsNumber.printable (h : IsNumber e) : ∀ c ∈ e, 0x20 ≤ c := by
  intro c hc
  have := h.chars c hc
  simp only [isNumberChar, Bool.or_eq_true, decide_eq_true_eq] at this
  cases this
  case inl hd => exact isDigit_printable hd
  case inr hm =>
    have : ∀ c ∈ ([minus, 0x2b, dot, 0x65, 0x45] : Bytes), 0x20 ≤ c := by decide
    exact this c hm

theorem Gap.allowed (h : Gap w) : ∀ c ∈ w, Allowed c := by
  intro c hc
  have := h c hc
  simp only [isGap, Bool.or_eq_true, decide_eq_true_eq] at this
  rcases this with ((rfl | rfl) | rfl) | rfl <;> decide

end Bytes

section Texts

mutual

theorem IsValue.allowed {e : Bytes} {v : Value} : IsValue strict e v → ∀ c ∈ e, Allowed c
  | .null          => (by decide : ∀ c ∈ str "null", Allowed c)
  | .isTrue        => (by decide : ∀ c ∈ str "true", Allowed c)
  | .isFalse       => (by decide : ∀ c ∈ str "false", Allowed c)
  | .number h      => fun c hc => .inl (h.printable c hc)
  | .string h      => by
    simp only [List.forall_mem_append, List.forall_mem_cons]
    exact ⟨⟨by decide, fun c hc => .inl (h.printable c hc)⟩, by decide, nofun⟩
  | .emptyArray h  => by
    simp only [List.forall_mem_append, List.forall_mem_cons]
    exact ⟨⟨by decide, h.allowed⟩, by decide, nofun⟩
  | .array h       => by
    simp only [List.forall_mem_append, List.forall_mem_cons]
    exact ⟨⟨by decide, h.allowed⟩, by decide, nofun⟩
  | .emptyObject h => by
    simp only [List.forall_mem_append, List.forall_mem_cons]
    exact ⟨⟨by decide, h.allowed⟩, by decide, nofun⟩
  | .object h      => by
    simp only [List.forall_mem_append, List.forall_mem_cons]
    exact ⟨⟨by decide, h.allowed⟩, by decide, nofun⟩
termination_by structural h => h

theorem IsText.allowed {e : Bytes} {v : Value} : IsText strict e v → ∀ c ∈ e, Allowed c
  | .mk hw hw' h => by
    simp only [List.forall_mem_append]
    exact ⟨⟨hw.allowed, h.allowed⟩, hw'.allowed⟩
termination_by structural h => h

theorem IsElements.allowed {e : Bytes} {vs : List Value} :
    IsElements strict e vs → ∀ c ∈ e, Allowed c
  | .one h     => h.allowed
  | .cons h hs => by
    simp only [List.forall_mem_append, List.forall_mem_cons]
    exact ⟨h.allowed, by decide, hs.allowed⟩
termination_by structural h => h

theorem IsMember.allowed {e : Bytes} {m : Bytes × Value} :
    IsMember strict e m → ∀ c ∈ e, Allowed c
  | .mk hw hk hw' h => by
    simp only [List.forall_mem_append, List.forall_mem_cons]
    exact ⟨⟨⟨hw.allowed, by decide, fun c hc => .inl (hk.printable c hc)⟩, by decide,
      hw'.allowed⟩, by decide, h.allowed⟩
termination_by structural h => h

theorem IsMembers.allowed {e : Bytes} {ms : List (Bytes × Value)} :
    IsMembers strict e ms → ∀ c ∈ e, Allowed c
  | .one h     => h.allowed
  | .cons h hs => by
    simp only [List.forall_mem_append, List.forall_mem_cons]
    exact ⟨h.allowed, by decide, hs.allowed⟩
termination_by structural h => h

end

theorem isWordChar_printable {c : UInt8} (h : isWordChar c) : 0x20 ≤ c := by
  simp only [isWordChar, isAlnum, Bool.or_eq_true, Bool.and_eq_true, decide_eq_true_eq] at h
  rcases h with ((hd | hu) | hl) | rfl
  case inl.inl.inl => exact isDigit_printable hd
  case inl.inl.inr => exact UInt8.le_trans (by decide) hu.left
  case inl.inr     => exact UInt8.le_trans (by decide) hl.left
  case inr         => decide

theorem Word.body {key : Bytes} (hk : Word key) : Body strict key key :=
  plain_body hk.plain fun c hc => isWordChar_printable (hk.right c hc)

end Texts

end Json
