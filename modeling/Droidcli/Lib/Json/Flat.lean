import Droidcli.Lib.Json.Search

-- Objects whose values hold no others, taken apart into their members as they are written.
namespace Json

open Bytes

def Value.Flat : Value → Prop
  | string _ => True
  | bool _   => True
  | _        => False

structure Written where
  (front key back lead value trail : Bytes)
  name : Bytes
  meant : Value
  front_gap : Gap front
  spelled   : Body lenient key name
  back_gap  : Gap back
  lead_gap  : Gap lead
  valued    : IsValue lenient value meant
  trail_gap : Gap trail
  flat      : meant.Flat

namespace Written

variable {key r t rest : Bytes} {m : Written}

def head (m : Written) : Bytes :=
  m.front ++ (quote :: (m.key ++ (quote :: (m.back ++ [colon]))))

def text (m : Written) : Bytes :=
  m.head ++ (m.lead ++ (m.value ++ m.trail))

def member (m : Written) : Bytes × Value :=
  (m.name, m.meant)

-- The same member with a string as its value.
def withString (m : Written) (h : Body lenient r t) : Written :=
  { m with
    value := quote :: r ++ [quote]
    meant := .string t
    valued := .string h
    flat := trivial }

-- A member in which a search for the name and its colon stops: at the whole key, or behind a quote
-- within the key.
def Holds (key : Bytes) (m : Written) : Prop :=
  m.back = [] ∧ (m.key = key ∨ quote :: key <:+ m.key)

instance (key : Bytes) (m : Written) : Decidable (m.Holds key) :=
  inferInstanceAs (Decidable (_ ∧ _))

-- All of the member but its value.
def frame (m : Written) : Written :=
  @withString [] [] m .nil

theorem holds_of_frame {m' : Written} (h : m'.frame = m.frame) : m'.Holds key ↔ m.Holds key := by
  have hm : m'.frame.Holds key ↔ m.frame.Holds key := by rw [h]
  exact hm

theorem isMember : IsMember lenient m.text m.member := by
  have h := IsMember.mk m.front_gap m.spelled m.back_gap (.mk m.lead_gap m.trail_gap m.valued)
  simpa [text, head, member] using h

end Written

section Body

variable {raw : UInt8 → Prop} {r t : Bytes}

theorem Body.mono (h : Body raw r t) : Body lenient r t := by
  induction h
  case nil => exact .nil
  case plain hq hb _ ih => exact .plain trivial hq hb ih
  case short he _ ih => exact .short he ih
  case unicode hx hh hl _ ih => exact .unicode hx hh hl ih
  case pair hx hy hh hl _ ih => exact .pair hx hy hh hl ih

theorem hex4_quote {a b c d : UInt8} {n : Nat} (h : hex4 a b c d = some n) :
    quote ∉ [a, b, c, d] := by
  simp only [hex4, Option.pure_def, Option.bind_eq_bind, Option.bind_eq_some_iff] at h
  obtain ⟨_, ha, _, hb, _, hc, _, hd, _⟩ := h
  simp [(hexDigit_plain ha).left.symm, (hexDigit_plain hb).left.symm, (hexDigit_plain hc).left.symm,
    (hexDigit_plain hd).left.symm]

-- A quote within a string is one of its meaning.
theorem Body.quote_mem (h : Body raw r t) (hq : quote ∈ r) : quote ∈ t := by
  have hb : quote ≠ backslash := by decide
  have hu : quote ≠ 0x75 := by decide
  induction h
  case nil => exact hq
  case plain hc _ _ ih =>
    have hq := (List.mem_cons.mp hq).resolve_left hc.symm
    exact List.mem_cons_of_mem _ (ih hq)
  case short e b r t he _ ih =>
    have hq := (List.mem_cons.mp hq).resolve_left hb
    cases List.mem_cons.mp hq
    case inl hqe =>
      subst hqe
      obtain rfl : quote = b := by simpa [shortEscape] using he
      exact List.mem_cons_self
    case inr hq => exact List.mem_cons_of_mem _ (ih hq)
  case unicode hx _ _ _ ih =>
    have hx := hex4_quote hx
    simp only [List.mem_cons, List.not_mem_nil, or_false, not_or] at hx hq
    exact List.mem_append_right _ (ih (by tauto))
  case pair hx _ hy _ _ ih =>
    have hx := hex4_quote hx
    have hy := hex4_quote hy
    simp only [List.mem_cons, List.not_mem_nil, or_false, not_or] at hx hy hq
    exact List.mem_append_right _ (ih (by tauto))

-- What a member is called in which the search for a name stops.
theorem Written.Holds.name {key : Bytes} {m : Written} (h : m.Holds key) (hk : Word key) :
    m.name = key ∨ quote ∈ m.name := by
  cases h.right
  case inl he => exact .inl (Body.eq_of_plain hk.plain (he ▸ m.spelled))
  case inr hs => exact .inr (m.spelled.quote_mem (hs.subset List.mem_cons_self))

end Body

-- An object, with what may stand around it.
def objectText (w : Bytes) (written : List Written) (w' : Bytes) : Bytes :=
  w ++ (lbrace :: (joinWith [comma] (written.map Written.text) ++ (rbrace :: w')))

section Texts

variable {raw : UInt8 → Prop} {e w w' json : Bytes} {v : Value} {written : List Written}
  {ms : List (Bytes × Value)}

theorem isMembers_written (hn : written ≠ []) : IsMembers lenient
    (joinWith [comma] (written.map Written.text)) (written.map Written.member) := by
  induction written
  case nil => contradiction
  case cons m written ih =>
    cases written
    case nil => simpa [joinWith_cons] using IsMembers.one m.isMember
    case cons m' written =>
      have h := ih (by simp)
      rw [List.map_cons, joinWith_cons] at h
      simpa [joinWith_cons] using IsMembers.cons m.isMember h

theorem isText_objectText (hw : Gap w) (hw' : Gap w') :
    IsText lenient (objectText w written w') (.object (written.map Written.member)) := by
  by_cases hn : written = []
  case pos => simpa [objectText, hn, joinWith] using IsText.mk hw hw' (.emptyObject gap_nil)
  case neg => simpa [objectText] using IsText.mk hw hw' (.object (isMembers_written hn))

theorem IsValue.flat_cases (h : IsValue raw e v) (hf : v.Flat) :
    (∃ b, v = .bool b ∧ quote ∉ e ∧ e.head? ≠ some quote) ∨
      ∃ r t, v = .string t ∧ Body raw r t ∧ e = quote :: r ++ [quote] := by
  cases h
  case isTrue   => exact .inl ⟨true, rfl, by decide, by decide⟩
  case isFalse  => exact .inl ⟨false, rfl, by decide, by decide⟩
  case string h => exact .inr ⟨_, _, rfl, h, rfl⟩
  all_goals exact hf.elim

theorem IsValue.mono_flat (h : IsValue raw e v) (hf : v.Flat) : IsValue lenient e v := by
  cases h
  case isTrue   => exact .isTrue
  case isFalse  => exact .isFalse
  case string h => exact .string h.mono
  all_goals exact hf.elim

theorem IsMember.exists_written {m : Bytes × Value} (h : IsMember raw e m) (hf : m.2.Flat) :
    ∃ x : Written, e = x.text ∧ m = x.member := by
  cases h
  case mk w k w' e key v hw hk hw' h =>
    cases h
    case mk u e u' hu hu' h =>
      refine ⟨⟨w, k, w', u, e, u', key, v, hw, hk.mono, hw', hu, h.mono_flat hf, hu', hf⟩, ?_, rfl⟩
      simp [Written.text, Written.head]

theorem IsMembers.exists_written {e : Bytes} {ms : List (Bytes × Value)} :
    IsMembers raw e ms → (∀ m ∈ ms, m.2.Flat) → ∃ written : List Written, written ≠ [] ∧
      e = joinWith [comma] (written.map Written.text) ∧ ms = written.map Written.member
  | .one h, hf => by
    have ⟨x, he, hm⟩ := h.exists_written (hf _ List.mem_cons_self)
    exact ⟨[x], by simp, by simpa [joinWith_cons] using he, by simp [hm]⟩
  | .cons h hs, hf => by
    have ⟨hm, hms⟩ := List.forall_mem_cons.mp hf
    have ⟨x, he, hx⟩ := h.exists_written hm
    have ⟨written, hn, hes, hw⟩ := hs.exists_written hms
    cases written
    case nil => contradiction
    case cons y written =>
      refine ⟨x :: y :: written, by simp, ?_, by simp [hx, hw]⟩
      rw [he, hes]
      simp [joinWith_cons]

-- Every object of that kind is one that is written so.
theorem IsText.exists_written (h : IsText raw json (.object ms)) (hn : ms ≠ [])
    (hf : ∀ m ∈ ms, m.2.Flat) : ∃ w written w', Gap w ∧ Gap w' ∧ written ≠ [] ∧
      json = objectText w written w' ∧ ms = written.map Written.member := by
  cases h
  case mk w e w' hw hw' h =>
    cases h
    case emptyObject => contradiction
    case object e hm =>
      have ⟨written, hne, he, hms⟩ := hm.exists_written hf
      exact ⟨w, written, w', hw, hw', hne, by simp [objectText, he], hms⟩

end Texts

section Search

variable {key r s t rest w w' : Bytes} {m : Written} {before behind written : List Written}

theorem Quoted.of_suffix (hr : Quoted r) (h : quote :: s <:+ r) : Quoted s := by
  induction hr
  case nil => simpa using h.length_le
  case plain hq _ _ ih =>
    cases List.suffix_cons_iff.mp h
    case inl he => exact absurd (List.cons.inj he).left.symm hq
    case inr h  => exact ih h
  case escaped hr ih =>
    cases List.suffix_cons_iff.mp h
    case inl he => exact absurd (List.cons.inj he).left (by decide)
    case inr h  =>
      cases List.suffix_cons_iff.mp h
      case inl he => exact (List.cons.inj he).right ▸ hr
      case inr h  => exact ih h

-- In front of the colon no name ends.
theorem not_name_of_gap (hk : Word key) (hw : Gap w) : ¬key ++ [quote] <+: w ++ colon :: s := by
  cases w
  case nil      => exact hk.not_prefix (by decide)
  case cons c w => exact hk.not_prefix (closing_of_isGap (s := w) (hw c (by simp)) c rfl).right

namespace Written

theorem inert_value (hk : Word key) (hr : Stops rest) :
    Inert (pattern key []) m.value (m.trail ++ rest) := by
  cases m.valued.flat_cases m.flat
  case inl h =>
    have ⟨_, _, hq, _⟩ := h
    exact inert_unquoted hq
  case inr h =>
    have ⟨_, _, _, hb, he⟩ := h
    exact he ▸ Json.inert_value hk hb.quoted (m.trail_gap.closing hr.closing)

theorem inert_gap (hw : Gap w) : Inert (pattern key []) w rest :=
  inert_unquoted fun hq => absurd (hw quote hq) (by decide)

-- The search goes over a member that does not hold the name.
theorem inert (hk : Word key) (h : ¬m.Holds key) (hr : Stops rest) :
    Inert (pattern key []) m.text rest := by
  have hlead : Inert (pattern key []) (m.lead ++ (m.value ++ m.trail)) rest :=
    inert_append (inert_gap m.lead_gap) <| by
      simpa using inert_append (inert_value hk hr) (inert_gap m.trail_gap)
  have hback : Inert (pattern key []) (m.back ++ [colon])
      (m.lead ++ (m.value ++ m.trail) ++ rest) :=
    inert_append (inert_gap m.back_gap) (inert_unquoted (by decide))
  have hkey : Inert (pattern key []) (quote :: m.key ++ [quote])
      (m.back ++ colon :: (m.lead ++ (m.value ++ m.trail) ++ rest)) := by
    apply inert_string hk.plain m.spelled.quoted
    case hn => exact not_name_of_gap hk m.back_gap
    case hc =>
      intro s hs he hp
      cases hb : m.back
      case nil =>
        refine h ⟨hb, hs.imp (fun hs => ?_) fun hs => ?_⟩
        case refine_1 => exact (he.trans hs).symm
        case refine_2 => exact he ▸ hs
      case cons c w =>
        rw [hb] at hp
        have hc : c = colon := (List.cons_prefix_cons.mp hp).left.symm
        exact absurd (m.back_gap c (by simp [hb])) (by simp [hc]; decide)
  have htail := inert_append hback hlead
  have hname : Inert (pattern key []) ((quote :: m.key ++ [quote]) ++
      (m.back ++ [colon] ++ (m.lead ++ (m.value ++ m.trail)))) rest :=
    inert_append (by simpa using hkey) htail
  simpa [text, head] using inert_append (inert_gap m.front_gap) hname

-- In a member that holds the name the search stops in front of the value.
theorem head_of_holds (hk : Word key) (h : m.Holds key) :
    ∃ pre, m.head = pre ++ pattern key [] ∧ Inert (pattern key []) pre (pattern key []) := by
  obtain ⟨hb, hh⟩ := h
  cases hh
  case inl he => exact ⟨m.front, by simp [head, hb, he, pattern], inert_gap m.front_gap⟩
  case inr hs =>
    obtain ⟨u, hu⟩ := hs
    refine ⟨m.front ++ (quote :: u), by simp [head, hb, ← hu, pattern], ?_⟩
    refine inert_append (inert_gap m.front_gap) ?_
    intro t hne ht hp
    cases t
    case nil => contradiction
    case cons c t =>
      obtain rfl : quote = c := by
        obtain ⟨_, hp⟩ := hp
        exact (List.cons.inj hp).left
      -- Behind a quote of the key, or the quote before it, there is more left than the name.
      have hq : Quoted (t ++ quote :: key) := by
        cases List.suffix_cons_iff.mp ht
        case inl he => exact (List.cons.inj he).right ▸ hu ▸ m.spelled.quoted
        case inr ht =>
          obtain ⟨u', hu'⟩ := ht
          exact m.spelled.quoted.of_suffix ⟨u', by simp [← hu, ← hu']⟩
      have hp : pattern key [] <+: quote :: ((t ++ quote :: key) ++ quote :: [colon]) := by
        simpa [pattern] using hp
      obtain ⟨he, _⟩ := pattern_prefix hk.plain hq |>.mp hp
      have he := congrArg List.length he
      simp only [List.length_append, List.length_cons] at he
      omega

end Written

theorem inert_before (hk : Word key) (h : ∀ b ∈ before, ¬b.Holds key) :
    Inert (pattern key []) (before.flatMap (·.text ++ [comma])) rest := by
  induction before
  case nil => exact inert_nil
  case cons b before ih =>
    have ⟨hb, hbs⟩ := List.forall_mem_cons.mp h
    rw [List.flatMap_cons]
    refine inert_append (inert_append (b.inert hk hb ?_) (inert_unquoted ?_)) (ih hbs)
    case refine_1 => exact stops_comma
    case refine_2 => decide

theorem objectText_split : objectText w (before ++ m :: behind) w' =
    w ++ (lbrace :: (before.flatMap (·.text ++ [comma]) ++ (m.text ++
      (behind.flatMap ([comma] ++ ·.text) ++ (rbrace :: w'))))) := by
  simp [objectText, joinWith_split, List.flatMap_map]

-- Where the search for a name stops in an object: in the first member that holds it.
theorem search_objectText (hk : Word key) (hw : Gap w) (hb : ∀ b ∈ before, ¬b.Holds key)
    (hm : m.Holds key) : ∃ pre, Inert (pattern key []) pre (pattern key []) ∧
      ∀ m' : Written, m'.head = m.head → objectText w (before ++ m' :: behind) w' =
        pre ++ (pattern key [] ++ (m'.lead ++ (m'.value ++ (m'.trail ++
          (behind.flatMap ([comma] ++ ·.text) ++ (rbrace :: w')))))) := by
  have ⟨pre, hh, hi⟩ := Written.head_of_holds hk hm
  refine ⟨w ++ (lbrace :: (before.flatMap (·.text ++ [comma]) ++ pre)), ?_, fun m' he => ?_⟩
  case refine_1 =>
    have hobj : Inert (pattern key []) ([lbrace] ++ (before.flatMap (·.text ++ [comma]) ++ pre))
        (pattern key []) :=
      inert_append (inert_unquoted (by decide)) (inert_append (inert_before hk hb) hi)
    exact inert_append (Written.inert_gap hw) hobj
  case refine_2 => simp [objectText_split, Written.text, he, hh]

-- Where no member holds it, it is not in the text.
theorem inert_objectText (hk : Word key) (hw : Gap w) (hw' : Gap w')
    (h : ∀ b ∈ before, ¬b.Holds key) (hm : ¬m.Holds key) :
    Inert (pattern key []) (objectText w (before ++ [m]) w') [] := by
  have hclose : Inert (pattern key []) (rbrace :: w') [] := by
    refine inert_unquoted fun hq => ?_
    cases List.mem_cons.mp hq
    case inl he => exact absurd he (by decide)
    case inr hq => exact absurd (hw' quote hq) (by decide)
  have hlast := inert_append (m.inert hk hm stops_rbrace) hclose
  have hbody : Inert (pattern key []) ([lbrace] ++ (before.flatMap (·.text ++ [comma]) ++
      (m.text ++ (rbrace :: w')))) [] :=
    inert_append (inert_unquoted (by decide)) (inert_append (inert_before hk h) hlast)
  simpa [objectText_split] using inert_append (Written.inert_gap hw) hbody

end Search
end Json
