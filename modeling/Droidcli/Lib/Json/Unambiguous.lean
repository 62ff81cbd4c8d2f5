import Droidcli.Lib.Json

-- A text denotes at most one value.
namespace Json

open Bytes

section Scanning

variable {raw : UInt8 → Prop} {r s t t' w : Bytes} {c c' : UInt8}

-- Two lists that agree, each split where a class of elements ends for the first time.
theorem split_unique {α : Type} {p : α → Bool} {u u' w w' : List α} (hw : ∀ d ∈ w, p d)
    (hw' : ∀ d ∈ w', p d) (hu : ∀ d ∈ u.head?, ¬p d) (hu' : ∀ d ∈ u'.head?, ¬p d)
    (h : w ++ u = w' ++ u') : w = w' ∧ u = u' := by
  have ht {w u : List α} (hw : ∀ d ∈ w, p d) (hu : ∀ d ∈ u.head?, ¬p d) :
      (w ++ u).takeWhile p = w := by
    rw [List.takeWhile_append_of_pos hw]
    cases u
    case nil      => simp
    case cons d u => simp [hu d rfl]
  have he : w = w' := by rw [← ht hw hu, h, ht hw' hu']
  exact ⟨he, List.append_cancel_left (he ▸ h)⟩

theorem shortEscape_u : shortEscape 0x75 = none := by
  decide

theorem Body.unique (h : Body raw r t) (h' : Body raw r t') : t = t' := by
  induction h generalizing t'
  case nil => cases h'; rfl
  case plain hb _ hi =>
    cases h'
    case plain h => rw [hi h]
    all_goals contradiction
  case short he _ hi =>
    cases h'
    case plain        => contradiction
    case short he' h' => rw [Option.some.inj (he.symm.trans he'), hi h']
    case unicode      => simp [shortEscape_u] at he
    case pair         => simp [shortEscape_u] at he
  case unicode hx hh _ _ hi =>
    cases h'
    case plain                => contradiction
    case short he _           => simp [shortEscape_u] at he
    case unicode hx' h'       => rw [Option.some.inj (hx.symm.trans hx'), hi h']
    case pair hh' _ _ _ hx' _ => exact absurd (Option.some.inj (hx.symm.trans hx') ▸ hh') hh
  case pair hx hh hy _ _ hi =>
    cases h'
    case plain               => contradiction
    case short he _          => simp [shortEscape_u] at he
    case unicode hh' _ hx' _ => exact absurd (Option.some.inj (hx.symm.trans hx') ▸ hh) hh'
    case pair hx' hy' h'     =>
      rw [Option.some.inj (hx.symm.trans hx'), Option.some.inj (hy.symm.trans hy'), hi h']

end Scanning

section Heads

-- What may stand behind a value, or behind it and the gap that follows it.
def Stops (s : Bytes) : Prop :=
  ∀ c ∈ s.head?, c ∈ [comma, rbracket, rbrace]

theorem stops_nil : Stops [] := by
  simp [Stops]

theorem stops_comma : Stops (comma :: s) := by
  simp [Stops]

theorem stops_rbracket : Stops (rbracket :: s) := by
  simp [Stops]

theorem stops_rbrace : Stops (rbrace :: s) := by
  simp [Stops]

def Ends (s : Bytes) : Prop :=
  ∀ c ∈ s.head?, c ∈ [comma, rbracket, rbrace] ∨ isGap c

-- With what a value begins.
def Starts (c : UInt8) : Prop :=
  c ∈ [0x6e, 0x74, 0x66, quote, lbracket, lbrace, minus] ∨ isDigit c

instance (c : UInt8) : Decidable (Starts c) :=
  inferInstanceAs (Decidable (_ ∨ _))

variable {raw : UInt8 → Prop} {v : Value} {vs : List Value} {e s w : Bytes} {c : UInt8}

theorem Starts.not_gap (h : Starts c) : ¬isGap c := by
  cases h
  case inl h =>
    have : ∀ c ∈ ([0x6e, 0x74, 0x66, quote, lbracket, lbrace, minus] : Bytes), ¬isGap c := by
      decide
    exact this c h
  case inr h =>
    intro hg
    simp only [isGap, Bool.or_eq_true, decide_eq_true_eq] at hg
    rcases hg with ((rfl | rfl) | rfl) | rfl <;> exact absurd h (by decide)

theorem Starts.not_stop (h : Starts c) : c ∉ [comma, rbracket, rbrace] := by
  intro hs
  simp only [List.mem_cons, List.not_mem_nil, or_false] at hs
  rcases hs with rfl | rfl | rfl <;> exact absurd h (by decide)

theorem Stops.not_gap (h : Stops s) : ∀ c ∈ s.head?, ¬isGap c := by
  have : ∀ c ∈ ([comma, rbracket, rbrace] : Bytes), ¬isGap c := by decide
  exact fun c hc => this c (h c hc)

theorem IsValue.starts (h : IsValue raw e v) : ∃ c e', e = c :: e' ∧ Starts c := by
  cases h
  case number h =>
    have ⟨c, hc, h⟩ := h.head
    have ⟨e', he⟩ := List.head?_eq_some_iff.mp hc
    exact ⟨c, e', he, h.imp (by simp [·]) id⟩
  case null    => exact ⟨_, _, rfl, .inl (by decide)⟩
  case isTrue  => exact ⟨_, _, rfl, .inl (by decide)⟩
  case isFalse => exact ⟨_, _, rfl, .inl (by decide)⟩
  all_goals exact ⟨_, _, rfl, .inl (by simp)⟩

theorem IsValue.uncons {u : Bytes} (h : IsValue raw e v) (he : c :: u = e ++ s) :
    ∃ e', e = c :: e' ∧ u = e' ++ s := by
  have ⟨d, e', hd, _⟩ := h.starts
  have ⟨hc, hu⟩ := List.cons.inj (hd ▸ he)
  exact ⟨e', hc ▸ hd, hu⟩

theorem IsText.uncons (h : IsText raw e v) : ∃ w c u, Gap w ∧ Starts c ∧ e = w ++ c :: u := by
  cases h
  case mk w e w' hw _ h =>
    have ⟨c, e', he, hc⟩ := h.starts
    exact ⟨w, c, e' ++ w', hw, hc, by simp [he]⟩

theorem Gap.ends (hw : Gap w) (hs : Stops s) : Ends (w ++ s) := by
  intro c hc
  cases w
  case nil      => exact .inl (hs c hc)
  case cons d w =>
    have : d = c := by simpa using hc
    exact .inr (this ▸ hw d (by simp))

-- Elements and members do not begin as the end of an empty array or object does.
theorem IsElements.not_close {u : Bytes} (h : IsElements raw e vs) (hw : Gap w) :
    e ++ s ≠ w ++ rbracket :: u := by
  intro he
  have ⟨w', c, u', hw', hc, he'⟩ : ∃ w' c u', Gap w' ∧ Starts c ∧ e = w' ++ c :: u' := by
    cases h
    case one h    => exact h.uncons
    case cons h _ =>
      have ⟨w', c, u', hw', hc, he⟩ := h.uncons
      exact ⟨w', c, _, hw', hc, by rw [he, List.append_assoc]; rfl⟩
  have hr : ¬isGap rbracket := by decide
  have he : w' ++ c :: (u' ++ s) = w ++ rbracket :: u := by simpa [he'] using he
  have ⟨_, he⟩ := split_unique hw' hw (by simpa using hc.not_gap) (by simpa using hr) he
  exact hc.not_stop ((List.cons.inj he).left ▸ by simp)

theorem IsMembers.not_close {ms : List (Bytes × Value)} {u : Bytes} (h : IsMembers raw e ms)
    (hw : Gap w) : e ++ s ≠ w ++ rbrace :: u := by
  intro he
  have ⟨w', u', hw', he'⟩ : ∃ w' u', Gap w' ∧ e = w' ++ quote :: u' := by
    have ⟨_, _, _, _, hf, hms, he⟩ := h.first
    cases hf
    case mk hw' _ _ _ => exact ⟨_, _, hw', by rw [he]; simp; rfl⟩
  have hr : ¬isGap rbrace := by decide
  have hq : ¬isGap quote := by decide
  have he : w' ++ quote :: (u' ++ s) = w ++ rbrace :: u := by simpa [he'] using he
  have ⟨_, he⟩ := split_unique hw' hw (by simpa using hq) (by simpa using hr) he
  exact absurd (List.cons.inj he).left (by decide)

def isNumberChar (c : UInt8) : Bool :=
  isDigit c || c ∈ [minus, 0x2b, dot, 0x65, 0x45]

theorem IsNumber.chars (h : IsNumber e) : ∀ c ∈ e, isNumberChar c := by
  have hd {c : UInt8} (h : isDigit c) : isNumberChar c := by simp [isNumberChar, h]
  cases h
  case mk sign int frac exp hs hi _ hf he =>
    intro c hc
    simp only [List.mem_append] at hc
    rcases hc with ((hc | hc) | hc) | hc
    case inl.inl.inl =>
      rcases hs with rfl | rfl
      case inl => exact absurd hc List.not_mem_nil
      case inr =>
        rw [List.mem_singleton.mp hc]
        decide
    case inl.inl.inr => exact hd (hi.right c hc)
    case inl.inr =>
      rcases hf with rfl | ⟨ds, hds, rfl⟩
      case inl => exact absurd hc List.not_mem_nil
      case inr =>
        cases List.mem_cons.mp hc
        case inl hc =>
          rw [hc]
          decide
        case inr hc => exact hd (hds.right c hc)
    case inr =>
      rcases he with rfl | ⟨e, s, ds, he, hs, hds, rfl⟩
      case inl => exact absurd hc List.not_mem_nil
      case inr =>
        simp only [List.mem_append, List.mem_cons] at hc
        rcases hc with (rfl | hc) | hc
        case inl.inl =>
          simp only [List.mem_cons, List.not_mem_nil, or_false] at he
          rcases he with rfl | rfl <;> decide
        case inl.inr =>
          rcases hs with rfl | rfl | rfl
          case inl => exact absurd hc List.not_mem_nil
          all_goals
            rw [List.mem_singleton.mp hc]
            decide
        case inr => exact hd (hds.right c hc)

theorem Ends.not_number (h : Ends s) : ∀ c ∈ s.head?, ¬isNumberChar c := by
  intro c hc
  have hs : ∀ c ∈ ([comma, rbracket, rbrace] : Bytes), ¬isNumberChar c := by decide
  have hg : isGap c → ¬isNumberChar c := by
    intro hg
    simp only [isGap, Bool.or_eq_true, decide_eq_true_eq] at hg
    rcases hg with ((rfl | rfl) | rfl) | rfl <;> decide
  exact (h c hc).elim (hs c) hg

end Heads

section Uniqueness

variable {raw : UInt8 → Prop}

mutual

theorem IsValue.unique {e e' s s' : Bytes} {v v' : Value} :
    IsValue raw e v → IsValue raw e' v' → e ++ s = e' ++ s' → Ends s → Ends s' → e = e' ∧ v = v'
  | .null, h', he, _, _ => by
    have ⟨_, he', _⟩ := h'.uncons he
    have ⟨hv, ht⟩ := IsValue.of_n (he' ▸ h')
    exact ⟨(he'.trans ht).symm, hv.symm⟩
  | .isTrue, h', he, _, _ => by
    have ⟨_, he', _⟩ := h'.uncons he
    have ⟨hv, ht⟩ := IsValue.of_t (he' ▸ h')
    exact ⟨(he'.trans ht).symm, hv.symm⟩
  | .isFalse, h', he, _, _ => by
    have ⟨_, he', _⟩ := h'.uncons he
    have ⟨hv, ht⟩ := IsValue.of_f (he' ▸ h')
    exact ⟨(he'.trans ht).symm, hv.symm⟩
  | .number h, h', he, hs, hs' => by
    have ⟨c, hc, hd⟩ := h.head
    have ⟨t, ht⟩ := List.head?_eq_some_iff.mp hc
    have ⟨t', ht', _⟩ := h'.uncons (c := c) (ht ▸ he)
    have ⟨hn, hv⟩ := IsValue.of_number hd (ht' ▸ h')
    have hn : IsNumber e' := ht' ▸ hn
    have hee := (split_unique h.chars hn.chars hs.not_number hs'.not_number he).left
    exact ⟨hee, by rw [hv, hee, ht']⟩
  | .string (r := r) h, h', he, _, _ => by
    have ⟨t', ht', he'⟩ := h'.uncons he
    have ⟨r', _, hb, hr, hv⟩ := IsValue.of_quote (ht' ▸ h')
    have he' : r ++ quote :: s = r' ++ quote :: s' := by simpa [hr] using he'
    have ⟨hrr, _⟩ := h.quoted.unique hb.quoted he'
    exact ⟨by simp [ht', hr, hrr], by rw [hv, h.unique (hrr ▸ hb)]⟩
  | .emptyArray (w := w) hw, h', he, _, _ => by
    have ⟨t', ht', he'⟩ := h'.uncons he
    cases IsValue.of_lbracket (ht' ▸ h')
    case inl h =>
      have ⟨w', hw', hr, hv⟩ := h
      have hg : ¬isGap rbracket := by decide
      have he' : w ++ rbracket :: s = w' ++ rbracket :: s' := by simpa [hr] using he'
      have ⟨hww, _⟩ := split_unique hw hw' (by simpa using hg) (by simpa using hg) he'
      exact ⟨by simp [ht', hr, hww], hv.symm⟩
    case inr h =>
      have ⟨es, vs, hs, hr, _⟩ := h
      exact absurd (by simpa [hr] using he'.symm) (hs.not_close hw)
  | .array h, h', he, _, _ => by
    have ⟨t', ht', he'⟩ := h'.uncons he
    cases IsValue.of_lbracket (ht' ▸ h')
    case inl hw =>
      have ⟨w', hw', hr, _⟩ := hw
      exact absurd (by simpa [hr] using he') (h.not_close hw')
    case inr hs =>
      have ⟨es, vs, hs, hr, hv⟩ := hs
      have ⟨hee, hvv⟩ := h.unique hs (by simpa [hr] using he')
      exact ⟨by simp [ht', hr, hee], by rw [hv, hvv]⟩
  | .emptyObject (w := w) hw, h', he, _, _ => by
    have ⟨t', ht', he'⟩ := h'.uncons he
    cases IsValue.of_lbrace (ht' ▸ h')
    case inl h =>
      have ⟨w', hw', hr, hv⟩ := h
      have hg : ¬isGap rbrace := by decide
      have he' : w ++ rbrace :: s = w' ++ rbrace :: s' := by simpa [hr] using he'
      have ⟨hww, _⟩ := split_unique hw hw' (by simpa using hg) (by simpa using hg) he'
      exact ⟨by simp [ht', hr, hww], hv.symm⟩
    case inr h =>
      have ⟨m, ms, hs, hr, _⟩ := h
      exact absurd (by simpa [hr] using he'.symm) (hs.not_close hw)
  | .object h, h', he, _, _ => by
    have ⟨t', ht', he'⟩ := h'.uncons he
    cases IsValue.of_lbrace (ht' ▸ h')
    case inl hw =>
      have ⟨w', hw', hr, _⟩ := hw
      exact absurd (by simpa [hr] using he') (h.not_close hw')
    case inr hs =>
      have ⟨m, ms, hs, hr, hv⟩ := hs
      have ⟨hee, hvv⟩ := h.unique hs (by simpa [hr] using he')
      exact ⟨by simp [ht', hr, hee], by rw [hv, hvv]⟩
termination_by structural h => h

theorem IsText.unique_of_stops {e e' s s' : Bytes} {v v' : Value} :
    IsText raw e v → IsText raw e' v' → e ++ s = e' ++ s' → Stops s → Stops s' → e = e' ∧ v = v'
  | .mk hw hy h, h', he, hs, hs' => by
    cases h'
    case mk hw' hy' h' =>
      have ⟨_, x, hx, hc⟩ := h.starts
      have ⟨_, x', hx', hc'⟩ := h'.starts
      simp only [List.append_assoc] at he
      have ⟨hww, he⟩ := split_unique hw hw' (by simpa [hx] using hc.not_gap)
        (by simpa [hx'] using hc'.not_gap) he
      have ⟨hee, hv⟩ := h.unique h' he (hy.ends hs) (hy'.ends hs')
      have ⟨hyy, _⟩ := split_unique hy hy' hs.not_gap hs'.not_gap (List.append_cancel_left (hee ▸ he))
      exact ⟨by rw [hww, hee, hyy], hv⟩
termination_by structural h => h

theorem IsElements.unique {e e' s s' : Bytes} {vs vs' : List Value} :
    IsElements raw e vs → IsElements raw e' vs' → e ++ rbracket :: s = e' ++ rbracket :: s' →
    e = e' ∧ vs = vs'
  | .one h, .one h', he => by
    have ⟨hee, hv⟩ := h.unique_of_stops h' he stops_rbracket stops_rbracket
    exact ⟨hee, by rw [hv]⟩
  | .one h, .cons h' _, he => by
    simp only [List.append_assoc, List.cons_append] at he
    have ⟨hee, _⟩ := h.unique_of_stops h' he stops_rbracket stops_comma
    exact absurd (List.cons.inj (List.append_cancel_left (hee ▸ he))).left (by decide)
  | .cons h _, .one h', he => by
    simp only [List.append_assoc, List.cons_append] at he
    have ⟨hee, _⟩ := h.unique_of_stops h' he stops_comma stops_rbracket
    exact absurd (List.cons.inj (List.append_cancel_left (hee ▸ he))).left (by decide)
  | .cons h hs, .cons h' hs', he => by
    simp only [List.append_assoc, List.cons_append] at he
    have ⟨hee, hv⟩ := h.unique_of_stops h' he stops_comma stops_comma
    have ⟨hes, hvs⟩ := hs.unique hs' (List.cons.inj (List.append_cancel_left (hee ▸ he))).right
    exact ⟨by rw [hee, hes], by rw [hv, hvs]⟩
termination_by structural h => h

theorem IsMember.unique {e e' s s' : Bytes} {m m' : Bytes × Value} :
    IsMember raw e m → IsMember raw e' m' → e ++ s = e' ++ s' → Stops s → Stops s' →
    e = e' ∧ m = m'
  | .mk hw hk hy h, h', he, hs, hs' => by
    cases h'
    case mk hw' hk' hy' h' =>
      have hq : ¬isGap quote := by decide
      have hc : ¬isGap colon := by decide
      simp only [List.append_assoc, List.cons_append] at he
      have ⟨hww, he⟩ := split_unique hw hw' (by simpa using hq) (by simpa using hq) he
      have ⟨hkk, he⟩ := hk.quoted.unique hk'.quoted (List.cons.inj he).right
      have ⟨hyy, he⟩ := split_unique hy hy' (by simpa using hc) (by simpa using hc) he
      have ⟨hee, hv⟩ := h.unique_of_stops h' (List.cons.inj he).right hs hs'
      exact ⟨by rw [hww, hkk, hyy, hee], Prod.ext (hk.unique (hkk ▸ hk')) hv⟩
termination_by structural h => h

theorem IsMembers.unique {e e' s s' : Bytes} {ms ms' : List (Bytes × Value)} :
    IsMembers raw e ms → IsMembers raw e' ms' → e ++ rbrace :: s = e' ++ rbrace :: s' →
    e = e' ∧ ms = ms'
  | .one h, .one h', he => by
    have ⟨hee, hm⟩ := h.unique h' he stops_rbrace stops_rbrace
    exact ⟨hee, by rw [hm]⟩
  | .one h, .cons h' _, he => by
    simp only [List.append_assoc, List.cons_append] at he
    have ⟨hee, _⟩ := h.unique h' he stops_rbrace stops_comma
    exact absurd (List.cons.inj (List.append_cancel_left (hee ▸ he))).left (by decide)
  | .cons h _, .one h', he => by
    simp only [List.append_assoc, List.cons_append] at he
    have ⟨hee, _⟩ := h.unique h' he stops_comma stops_rbrace
    exact absurd (List.cons.inj (List.append_cancel_left (hee ▸ he))).left (by decide)
  | .cons h hs, .cons h' hs', he => by
    simp only [List.append_assoc, List.cons_append] at he
    have ⟨hee, hm⟩ := h.unique h' he stops_comma stops_comma
    have ⟨hes, hms⟩ := hs.unique hs' (List.cons.inj (List.append_cancel_left (hee ▸ he))).right
    exact ⟨by rw [hee, hes], by rw [hm, hms]⟩
termination_by structural h => h

end

theorem IsText.unique {e : Bytes} {v v' : Value} (h : IsText raw e v) (h' : IsText raw e v') :
    v = v' :=
  (h.unique_of_stops h' rfl stops_nil stops_nil).right

theorem IsText.iff_eq {e : Bytes} {v : Value} (h : IsText raw e v) (v' : Value) :
    IsText raw e v' ↔ v' = v :=
  ⟨fun h' => h'.unique h, fun he => he ▸ h⟩

end Uniqueness

end Json
