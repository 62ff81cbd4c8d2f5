import Droidcli.Lib.Json.Unambiguous

-- Where a search for a key ends that does not parse the text: behind the key of some member, but
-- of an object at any depth, and perhaps only behind the last characters of that key.
namespace Json

open Bytes

variable {raw : UInt8 → Prop} {key k r s s' rest t : Bytes}

-- Text that begins with a value.
def Valued (raw : UInt8 → Prop) (t : Bytes) : Prop :=
  ∃ e v back, t = e ++ back ∧ IsText raw e v ∧ Stops back

-- A search for `key` that ends within `s` ends in front of a value.
def Leads (raw : UInt8 → Prop) (key s rest : Bytes) : Prop :=
  ∀ t, after (pattern key []) (s ++ rest) = some t →
    Valued raw t ∨ after (pattern key []) rest = some t

theorem leads_inert (h : Inert (pattern key []) s rest) : Leads raw key s rest :=
  fun _ ht => .inr (after_inert h ▸ ht)

theorem leads_append (hs : Leads raw key s (s' ++ rest)) (hs' : Leads raw key s' rest) :
    Leads raw key (s ++ s') rest := by
  intro t ht
  rw [List.append_assoc] at ht
  cases hs t ht
  case inl h => exact .inl h
  case inr h => exact hs' t h

theorem Gap.leads (hw : Gap s) : Leads raw key s rest := by
  apply leads_inert
  apply inert_unquoted
  exact fun hq => absurd (hw quote hq) (by decide)

theorem closing_of_isGap {c : UInt8} (hc : isGap c) : Closing (c :: s) := by
  intro d hd
  have hd : c = d := by simpa using hd
  simp only [isGap, Bool.or_eq_true, decide_eq_true_eq] at hc
  rcases hc with ((rfl | rfl) | rfl) | rfl <;> exact hd ▸ by decide

theorem Gap.closing (hw : Gap s) (hr : Closing rest) : Closing (s ++ rest) := by
  cases s
  case nil      => exact hr
  case cons c s => exact closing_of_isGap (hw c (by simp))

theorem Stops.closing (h : Stops rest) : Closing rest := by
  have : ∀ c ∈ ([comma, rbracket, rbrace] : Bytes), c ≠ colon ∧ ¬isWordChar c := by decide
  exact fun c hc => this c (h c hc)

theorem leads_single {c : UInt8} (hc : c ≠ quote) : Leads raw key [c] rest :=
  leads_inert <| inert_unquoted (by simpa using hc.symm)

theorem leads_enclosed {o c : UInt8} (ho : o ≠ quote) (hc : c ≠ quote)
    (hs : Leads raw key s (c :: rest)) : Leads raw key (o :: s ++ [c]) rest := by
  have := leads_append hs (leads_single hc)
  exact leads_append (s := [o]) (leads_single ho) (by simpa using this)

theorem leads_separated (hs : Leads raw key s (comma :: (s' ++ rest)))
    (hs' : Leads raw key s' rest) : Leads raw key (s ++ comma :: s') rest := by
  have := leads_append (s := [comma]) (leads_single (by decide)) hs'
  exact leads_append hs this

section Key

-- At a quote of a key the search ends if the rest of the key is what it looks for.
theorem after_key_quote (hk : Word key) (hr : Quoted r)
    (h : after (pattern key []) (quote :: (r ++ quote :: colon :: rest)) = some t) :
    t = rest ∨ after (pattern key []) (r ++ quote :: colon :: rest) = some t := by
  by_cases hp : pattern key [] <+: quote :: (r ++ quote :: colon :: rest)
  case pos =>
    have ⟨he, _⟩ := pattern_prefix hk.plain hr |>.mp hp
    have he : quote :: (r ++ quote :: colon :: rest) = pattern key [] ++ rest := by
      simp [pattern, he]
    rw [he, after_append_self (by simp [pattern])] at h
    exact .inl (Option.some.inj h).symm
  case neg =>
    have ha := after_cons_of_not_prefix hp
    exact .inr (ha ▸ h)

theorem after_cons_plain {c : UInt8} (hc : c ≠ quote) :
    after (pattern key []) (c :: s) = after (pattern key []) s :=
  after_cons_of_not_prefix fun ⟨_, h⟩ => hc (List.cons.inj h).left.symm

theorem after_key (hk : Word key) (hr : Quoted r)
    (h : after (pattern key []) (r ++ quote :: colon :: rest) = some t) :
    t = rest ∨ after (pattern key []) rest = some t := by
  induction hr
  case nil =>
    have hp : ¬pattern key [] <+: quote :: colon :: rest := by
      intro hp
      exact Word.not_prefix hk (c := colon) (by decide) (List.cons_prefix_cons.mp hp).right
    have hc : after (pattern key []) (quote :: colon :: rest) = some t := h
    rw [ after_cons_of_not_prefix hp, after_cons_plain (by decide)] at hc
    exact .inr hc
  case plain hq _ _ hi => exact hi (after_cons_plain hq ▸ h)
  case escaped e r hr hi =>
    rw [List.cons_append, List.cons_append, after_cons_plain (by decide)] at h
    by_cases he : e = quote
    case pos =>
      cases after_key_quote hk hr (he ▸ h)
      case inl ht => exact .inl ht
      case inr h  => exact hi h
    case neg => exact hi (after_cons_plain he ▸ h)

-- A key with its colon, in front of the value.
theorem leads_key {w : Bytes} (hk : Word key) (hr : Quoted k) (hw : Gap w)
    (hv : Valued raw rest) : Leads raw key (quote :: k ++ quote :: (w ++ [colon])) rest := by
  cases w
  case nil =>
    intro t h
    have h : after (pattern key []) (quote :: (k ++ quote :: colon :: rest)) = some t := by
      simpa using h
    cases after_key_quote hk hr h
    case inl ht => exact .inl (ht ▸ hv)
    case inr h  =>
      cases after_key hk hr h
      case inl ht => exact .inl (ht ▸ hv)
      case inr h  => exact .inr h
  case cons c w =>
    have hname : Leads raw key (quote :: k ++ [quote]) (c :: (w ++ [colon]) ++ rest) :=
      leads_inert (inert_value hk hr (closing_of_isGap (hw c (by simp))))
    have hrest := leads_append hw.leads ((@leads_single raw key rest colon) (by decide))
    simpa using leads_append hname hrest

end Key

variable {raw : UInt8 → Prop} {key : Bytes}

mutual

theorem IsValue.leads (hk : Word key) {e rest : Bytes} {v : Value} :
    IsValue raw e v → Closing rest → Leads raw key e rest
  | .null, _     => leads_inert (inert_unquoted (by decide))
  | .isTrue, _   => leads_inert (inert_unquoted (by decide))
  | .isFalse, _  => leads_inert (inert_unquoted (by decide))
  | .number h, _ => leads_inert (inert_unquoted fun hq => absurd (h.chars quote hq) (by decide))
  | .string h, hr => leads_inert (inert_value hk h.quoted hr)
  | .emptyArray hw, _  => leads_enclosed (by decide) (by decide) hw.leads
  | .array h, _        => leads_enclosed (by decide) (by decide) (h.leads hk stops_rbracket)
  | .emptyObject hw, _ => leads_enclosed (by decide) (by decide) hw.leads
  | .object h, _       => leads_enclosed (by decide) (by decide) (h.leads hk stops_rbrace)
termination_by structural h => h

theorem IsText.leads (hk : Word key) {e rest : Bytes} {v : Value} :
    IsText raw e v → Closing rest → Leads raw key e rest
  | .mk hw hw' h, hr => by
    have := leads_append (h.leads hk (hw'.closing hr)) hw'.leads
    simpa using leads_append hw.leads this
termination_by structural h => h

theorem IsElements.leads (hk : Word key) {e rest : Bytes} {vs : List Value} :
    IsElements raw e vs → Stops rest → Leads raw key e rest
  | .one h, hr     => h.leads hk hr.closing
  | .cons h hs, hr =>
    leads_separated (h.leads hk stops_comma.closing) (hs.leads hk hr)
termination_by structural h => h

theorem IsMember.leads (hk : Word key) {e rest : Bytes} {m : Bytes × Value} :
    IsMember raw e m → Stops rest → Leads raw key e rest
  | .mk hw hb hw' h, hr => by
    have hv : Valued raw (_ ++ rest) := ⟨_, _, rest, rfl, h, hr⟩
    have := leads_append (leads_key hk hb.quoted hw' hv) (h.leads hk hr.closing)
    simpa using leads_append hw.leads this
termination_by structural h => h

theorem IsMembers.leads (hk : Word key) {e rest : Bytes} {ms : List (Bytes × Value)} :
    IsMembers raw e ms → Stops rest → Leads raw key e rest
  | .one h, hr     => h.leads hk hr
  | .cons h hs, hr => leads_separated (h.leads hk stops_comma) (hs.leads hk hr)
termination_by structural h => h

end

-- In a text a search for a name ends in front of a value, if it ends at all.
theorem IsText.valued {e t : Bytes} {v : Value} (hk : Word key) (h : IsText raw e v)
    (ht : after (pattern key []) e = some t) : Valued raw t := by
  have hn : after (pattern key []) [] = none := by simp [after, breakOn, pattern]
  have hl : Leads raw key e [] := h.leads hk (by simp [Closing])
  cases hl t (by simpa using ht)
  case inl hv => exact hv
  case inr h  => simp [hn] at h

end Json
