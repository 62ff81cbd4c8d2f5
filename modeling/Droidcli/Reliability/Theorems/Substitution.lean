import Droidcli.Reliability.Guards

namespace Droidcli.Reliability

open Bytes

-- The bytes behind which a word begins.
def marks : Bytes :=
  [space, quote, 0x27]

-- What may stand before the first word of a text and goes with it when it is substituted.
def leads : List Bytes :=
  [[], [slash], [backslash], [dot, slash], [dot, backslash]]

-- The word `desktop`, with a separator behind it.
structure IsToken (name : Bytes) (sep : UInt8) : Prop where
  name : lowered name = str "desktop"
  sep  : isSeparator sep

-- A token at the beginning of a text.
def Opens (name text : Bytes) : Prop :=
  ∃ sep post, text = name ++ sep :: post ∧ IsToken name sep

-- A token behind a mark; `left` is the byte before the text.
def Marked (left : UInt8) (name text : Bytes) : Prop :=
  ∃ pre post, text = pre ++ post ∧ Opens name post ∧ (left :: pre).getLast (by simp) ∈ marks

-- What the loop makes of a text that no word leads; `left` is the byte before it.
inductive Substituted (desktopPath : Bytes) : UInt8 → Bytes → Bytes → Prop
  | nil {left} : Substituted desktopPath left [] []
  | token {left name sep post result} : left ∈ marks → IsToken name sep →
    Substituted desktopPath sep post result →
    Substituted desktopPath left (name ++ sep :: post) (desktopPath ++ sep :: result)
  | copy {left c text result} : ¬(left ∈ marks ∧ ∃ name, Opens name (c :: text)) →
    Substituted desktopPath c text result → Substituted desktopPath left (c :: text) (c :: result)

-- The words that are taken for the Desktop are the Desktop already.
structure Settled (desktopPath text : Bytes) : Prop where
  leading : ∀ lead ∈ leads, ∀ name post, text = lead ++ post → Opens name post →
    lead ++ name = desktopPath
  marked : ∀ name, Marked slash name text → name = desktopPath

theorem substituteFrom_ne_nil {desktopPath seen result args : Bytes} {skip : ℕ} (h : result ≠ []) :
    substituteFrom desktopPath skip seen result args ≠ [] := by
  fun_induction substituteFrom desktopPath skip seen result args
  case case1 => exact h
  case case2 ih => exact ih h
  case case3 ih => exact ih (by simp)
  case case4 ih => exact ih (by simp)

theorem substituteBareDesktopToken_eq_nil {args desktopPath : Bytes}
    (h : substituteBareDesktopToken args desktopPath = []) : args = [] := by
  rw [substituteBareDesktopToken] at h
  split_ifs at h
  case pos => exact h
  case neg =>
    cases args
    case nil  => rfl
    case cons c args =>
      rw [substituteFrom] at h
      dsimp only at h
      split_ifs at h <;> exact absurd h (substituteFrom_ne_nil (by simp))

section Token

variable {name text a : Bytes} {sep left c : UInt8}

theorem lowered_separator (hc : isSeparator c) : toLower c = c := by
  simp only [isSeparator, Bool.or_eq_true, decide_eq_true_eq] at hc
  cases hc <;> subst c <;> decide

theorem eq_of_toLower_separator {d : UInt8} (hd : isSeparator d) (h : toLower c = d) : c = d := by
  rw [toLower] at h
  split_ifs at h with hr
  case neg => exact h
  case pos =>
    have hc : c = d - 0x20 := by simp [← h]
    simp only [isSeparator, Bool.or_eq_true, decide_eq_true_eq] at hd
    subst hc
    cases hd <;> subst d <;> exact absurd hr (by decide)

namespace IsToken

theorem length (h : IsToken name sep) : name.length = 7 := by
  have hl : (str "desktop").length = 7 := rfl
  rw [← hl, ← h.name, lowered, List.length_map]

theorem plain (h : IsToken name sep) : ∀ c ∈ name, isSeparator c = false ∧ c ∉ marks := by
  intro c hc
  have hm : toLower c ∈ str "desktop" := h.name ▸ List.mem_map_of_mem hc
  have hd : ∀ c ∈ str "desktop", isSeparator c = false ∧ c ∉ marks := by decide
  have hl : ∀ c ∈ slash :: backslash :: marks, toLower c ∉ str "desktop" := by decide
  constructor
  case left =>
    by_contra hs
    have hs : isSeparator c := by simpa using hs
    exact absurd (hd _ hm).left (by simp [lowered_separator hs, hs])
  case right => exact fun hc => hl c (by simp [hc]) hm

theorem ne_nil (h : IsToken name sep) : name ≠ [] := by
  intro hn
  simpa [hn] using h.length

end IsToken

-- The comparisons of the loop.
theorem prefix_lowered_iff (hs : isSeparator sep) : str "desktop" ++ [sep] <+: lowered text ↔
    ∃ name post, text = name ++ sep :: post ∧ lowered name = str "desktop" := by
  constructor
  case mp =>
    intro h
    have ⟨head, ⟨post, ht⟩, hh⟩ := List.prefix_map_iff.mp h
    have ⟨name, tail, hn, hname, htail⟩ := List.map_eq_append_iff.mp hh.symm
    have ⟨c, tail', hc, hs', hnil⟩ := List.map_eq_cons_iff.mp htail
    obtain rfl : tail' = [] := by simpa using hnil
    exact ⟨name, post, by simp [← ht, hn, hc, eq_of_toLower_separator hs hs'], hname⟩
  case mpr =>
    intro ⟨name, post, ht, hn⟩
    exact ⟨lowered post, by simp [ht, lowered, ← hn, lowered_separator hs]⟩

theorem opens_iff :
    (str "desktop/" <+: lowered text ∨ str "desktop\\" <+: lowered text) ↔
      ∃ name, Opens name text := by
  have hf : str "desktop/" = str "desktop" ++ [slash] := rfl
  have hb : str "desktop\\" = str "desktop" ++ [backslash] := rfl
  have hs : isSeparator slash ∧ isSeparator backslash := by decide
  rw [hf, hb, prefix_lowered_iff hs.left, prefix_lowered_iff hs.right]
  constructor
  case mp =>
    intro h
    cases h
    case inl h =>
      have ⟨name, post, ht, hn⟩ := h
      exact ⟨name, slash, post, ht, hn, hs.left⟩
    case inr h =>
      have ⟨name, post, ht, hn⟩ := h
      exact ⟨name, backslash, post, ht, hn, hs.right⟩
  case mpr =>
    intro ⟨name, sep, post, ht, hn, hs⟩
    simp only [isSeparator, Bool.or_eq_true, decide_eq_true_eq] at hs
    cases hs <;> subst sep
    case inl => exact .inl ⟨name, post, ht, hn⟩
    case inr => exact .inr ⟨name, post, ht, hn⟩

end Token

section Marked

variable {name text a : Bytes} {sep left c : UInt8}

theorem not_marked_nil : ¬Marked left name [] := by
  intro ⟨pre, post, ht, ⟨_, _, hp, _⟩, _⟩
  simp [hp] at ht

theorem marked_cons_iff :
    Marked left name (c :: text) ↔ (left ∈ marks ∧ Opens name (c :: text)) ∨ Marked c name text := by
  constructor
  case mp =>
    intro ⟨pre, post, ht, ho, hm⟩
    cases pre
    case nil => exact .inl ⟨hm, by simpa [ht] using ho⟩
    case cons x pre =>
      have ⟨hx, ht⟩ := List.cons.inj ht
      exact .inr ⟨pre, post, ht, ho, by simpa [hx] using hm⟩
  case mpr =>
    intro h
    cases h
    case inl h => exact ⟨[], c :: text, rfl, h.right, h.left⟩
    case inr h =>
      have ⟨pre, post, ht, ho, hm⟩ := h
      exact ⟨c :: pre, post, by simp [ht], ho, by simpa using hm⟩

theorem Marked.behind (h : Marked c name text) : Marked left name (a ++ c :: text) := by
  induction a generalizing left
  case nil         => exact marked_cons_iff.mpr (.inr h)
  case cons x a ih => exact marked_cons_iff.mpr (.inr ih)

-- A word does not go across a separator.
theorem Opens.split (h : Opens name (a ++ c :: text)) (hc : isSeparator c) : Opens name (a ++ [c]) := by
  have ⟨sep, post, ht, hn⟩ := h
  cases List.append_eq_append_iff.mp ht
  case inl h =>
    have ⟨b, hb, hct⟩ := h
    cases b
    case nil =>
      have hs : c = sep := (List.cons.inj hct).left
      exact ⟨sep, [], by simpa [hs] using hb.symm, hn⟩
    case cons x b =>
      have hx : c = x := (List.cons.inj hct).left
      have hp := (hn.plain x (by simp [hb])).left
      exact absurd hc (by simp [hx, hp])
  case inr h =>
    have ⟨b, hb, hst⟩ := h
    cases b
    case nil =>
      have hs : sep = c := (List.cons.inj hst).left
      exact ⟨sep, [], by simp [hb, hs], hn⟩
    case cons x b =>
      have hs : sep = x := (List.cons.inj hst).left
      exact ⟨sep, b ++ [c], by simp [hb, hs], hn⟩

theorem Marked.split (h : Marked left name (a ++ c :: text)) (hc : isSeparator c) :
    Marked left name (a ++ [c]) ∨ Marked c name text := by
  induction a generalizing left
  case nil =>
    refine (marked_cons_iff.mp h).imp_left fun ⟨hl, ho⟩ => ?_
    exact marked_cons_iff.mpr (.inl ⟨hl, @Opens.split _ text [] c ho hc⟩)
  case cons x a ih =>
    cases marked_cons_iff.mp h
    case inl h =>
      have ho := @Opens.split _ text (x :: a) c h.right hc
      exact .inl (marked_cons_iff.mpr (.inl ⟨h.left, ho⟩))
    case inr h => exact (ih h).imp_left fun h => marked_cons_iff.mpr (.inr h)

end Marked

section Substituted

variable {d text result w name : Bytes} {left c sep : UInt8}

theorem Substituted.eq (h : Substituted d left text result)
    (hs : ∀ name, Marked left name text → name = d) : result = text := by
  induction h
  case nil => rfl
  case token hl hn _ ih =>
    have hd := hs _ ⟨[], _, rfl, ⟨_, _, rfl, hn⟩, hl⟩
    rw [ih fun name h => hs name h.behind, hd]
  case copy ih => rw [ih fun name h => hs name (marked_cons_iff.mpr (.inr h))]

theorem Substituted.length_le (h : Substituted d left text result) (hd : d.length ≤ 7) :
    result.length ≤ text.length := by
  induction h
  case nil => rfl
  case token hn _ ih =>
    have hl := hn.length
    simp only [List.length_append, List.length_cons]
    omega
  case copy ih => simpa using ih

theorem Substituted.le_length (h : Substituted d left text result) (hd : 7 ≤ d.length) :
    text.length ≤ result.length := by
  induction h
  case nil => rfl
  case token hn _ ih =>
    have hl := hn.length
    simp only [List.length_append, List.length_cons]
    omega
  case copy ih => simpa using ih

theorem Substituted.marked (h : Substituted d left text result) (he : result = text)
    (hm : Marked left name text) : name = d := by
  induction h generalizing name
  case nil => exact absurd hm not_marked_nil
  case token left name' sep post result hl hn hs ih =>
    have hl := hn.length
    -- The rest has not become longer where the Desktop's path is short, nor shorter where it is long.
    have hd : d.length = 7 := by
      have hle := congrArg List.length he
      simp only [List.length_append, List.length_cons] at hle
      by_cases h : d.length ≤ 7
      case pos => have := hs.length_le h; omega
      case neg => have := hs.le_length (by omega); omega
    have ⟨hname, hrest⟩ := List.append_inj he (hd.trans hl.symm)
    cases hm.split hn.sep
    case inl hm =>
      have ⟨pre, post', ht, ⟨sep', post'', hp, hn'⟩, _⟩ := hm
      have ht : name' ++ [sep] = pre ++ (name ++ sep' :: post'') := hp ▸ ht
      have hpre : pre = [] := by
        have h := congrArg List.length ht
        simp only [List.length_append, List.length_cons, List.length_nil, hn'.length] at h
        exact List.eq_nil_of_length_eq_zero (by omega)
      rw [hpre, List.nil_append] at ht
      rw [hname, (List.append_inj ht (hl.trans hn'.length.symm)).left]
    case inr hm => exact ih (List.cons.inj hrest).right hm
  case copy left c text result hn _ ih =>
    cases marked_cons_iff.mp hm
    case inl hm => exact absurd ⟨hm.left, _, hm.right⟩ hn
    case inr hm => exact ih (List.cons.inj he).right hm

-- What is before the first mark is what was before it.
theorem Substituted.prefix_of_plain (h : Substituted d left text result) (hl : left ∉ marks)
    (hw : ∀ c ∈ w, c ∉ marks) (hr : w <+: result) : w <+: text := by
  induction h generalizing w
  case nil => exact hr
  case token hm _ _ _ => exact absurd hm hl
  case copy c text result _ _ ih =>
    cases w
    case nil => exact List.nil_prefix
    case cons x w =>
      have ⟨hx, hr⟩ := List.cons_prefix_cons.mp hr
      have hc : c ∉ marks := hx ▸ hw x List.mem_cons_self
      exact List.cons_prefix_cons.mpr ⟨hx, ih hc (fun c hc => hw c (by simp [hc])) hr⟩

theorem IsToken.not_mark (h : IsToken name sep) : ∀ c ∈ name ++ [sep], c ∉ marks := by
  have hm : ∀ c ∈ marks, isSeparator c = false := by decide
  intro c hc
  cases List.mem_append.mp hc
  case inl hc => exact (h.plain c hc).right
  case inr hc =>
    obtain rfl : c = sep := by simpa using hc
    exact fun hc => absurd h.sep (by simp [hm c hc])

-- A word at the beginning of what the loop has copied is one of the text.
theorem Substituted.opens (h : Substituted d c text result) (ho : Opens name (c :: result)) :
    Opens name (c :: text) := by
  have ⟨sep, post, ht, hn⟩ := ho
  cases name
  case nil => exact absurd rfl hn.ne_nil
  case cons x name =>
    have ⟨hx, ht⟩ := List.cons.inj ht
    have hw := hn.not_mark
    have hp : name ++ [sep] <+: text := by
      refine h.prefix_of_plain (hx ▸ hw x (by simp)) (fun c hc => hw c (by simp_all)) ⟨post, ?_⟩
      simp [ht]
    have ⟨post', hp⟩ := hp
    exact ⟨sep, post', by simp [hx, ← hp], hn⟩

-- Where the Desktop's path has no other word in it, the result has none.
theorem Substituted.settled (h : Substituted d left text result)
    (hd : ∀ left name sep, isSeparator sep → Marked left name (d ++ [sep]) → name = d)
    (hm : Marked left name result) : name = d := by
  induction h generalizing name
  case nil => exact absurd hm not_marked_nil
  case token hn _ ih =>
    cases hm.split hn.sep
    case inl hm => exact hd _ _ _ hn.sep hm
    case inr hm => exact ih hm
  case copy left c text result hn hs ih =>
    cases marked_cons_iff.mp hm
    case inr hm => exact ih hm
    case inl hm => exact absurd ⟨hm.left, name, hs.opens hm.right⟩ hn

theorem Substituted.keeps_separator (h : Substituted d left text result) (hs : text.any isSeparator) :
    result.any isSeparator := by
  induction h
  case nil => exact hs
  case token hn _ _ => simp [hn.sep]
  case copy c text result _ _ ih =>
    simp only [List.any_cons, Bool.or_eq_true] at hs ⊢
    exact hs.imp_right ih

theorem Substituted.eq_or_contains (h : Substituted d left text result) :
    result = text ∨ d <:+: result := by
  induction h
  case nil => exact .inl rfl
  case token sep _ result _ _ _ _ => exact .inr ⟨[], sep :: result, rfl⟩
  case copy ih => exact ih.imp (congrArg _) List.infix_cons

end Substituted

section Loop

variable {d text seen result args name lead : Bytes} {sep c : UInt8}

-- No word at the cursor or behind it leads the text; `seen` is the text before it, the last byte
-- first.
def Clear (seen args : Bytes) : Prop :=
  ∀ a b, args = a ++ b → seen.reverse ++ a ∈ leads → ∀ name, ¬Opens name b

theorem substituteFrom_skip : substituteFrom d a.length seen result (a ++ args) =
    substituteFrom d 0 (a.reverse ++ seen) result args := by
  induction a generalizing seen
  case nil => rfl
  case cons c a ih => simp [substituteFrom, ih]

theorem reverse_mem_leads_iff : seen.reverse ∈ leads ↔
    seen = [] ∨ seen ∈ [[slash], [backslash]] ∨ seen ∈ [[slash, dot], [backslash, dot]] := by
  simp [leads, List.reverse_eq_iff, or_assoc]

-- Where the loop takes a word for the Desktop.
def Boundary (seen : Bytes) : Prop :=
  seen.reverse ∈ leads ∨ ∃ c ∈ seen.head?, c ∈ marks

theorem boundary_iff : Boundary seen ↔ seen = [] ∨ seen.head? ∈ [some space, some quote, some 0x27] ∨
    seen ∈ [[slash], [backslash]] ∨ seen ∈ [[slash, dot], [backslash, dot]] := by
  have hm : (∃ c ∈ seen.head?, c ∈ marks) ↔ seen.head? ∈ [some space, some quote, some 0x27] := by
    cases seen.head? <;> simp [marks]
  rw [Boundary, reverse_mem_leads_iff, hm]
  tauto

theorem substituteFrom_copy (h : ¬(Boundary seen ∧ ∃ name, Opens name (c :: args))) :
    substituteFrom d 0 seen result (c :: args) = substituteFrom d 0 (c :: seen) (result ++ [c]) args := by
  rw [substituteFrom]
  exact if_neg (by rwa [boundary_iff, ← opens_iff] at h)

theorem separator_eq (hn : IsToken name sep) :
    (if str "desktop/" <+: lowered (name ++ sep :: text) then slash else backslash) = sep := by
  have hf : str "desktop/" = str "desktop" ++ [slash] := rfl
  have hs : isSeparator slash := by decide
  by_cases h : sep = slash
  case pos =>
    subst h
    exact if_pos (hf ▸ (prefix_lowered_iff hs).mpr ⟨name, text, rfl, hn.name⟩)
  case neg =>
    have hb : sep = backslash := by simpa [isSeparator, h] using hn.sep
    refine (if_neg fun hp => h ?_).trans hb.symm
    have ⟨name', text', ht, hn'⟩ := (prefix_lowered_iff hs).mp (hf ▸ hp)
    have hl := hn.length.trans (IsToken.mk hn' hs).length.symm
    exact (List.cons.inj (List.append_inj ht hl).right).left

theorem substituteFrom_token (hb : Boundary seen) (hn : IsToken name sep) :
    substituteFrom d 0 seen result (name ++ sep :: text) =
      substituteFrom d 0 ((name ++ [sep]).reverse ++ seen)
        ((if (seen ∈ [[slash], [backslash]] ∨ seen ∈ [[slash, dot], [backslash, dot]]) ∧
            seen.length ≤ result.length then
          result.take (result.length - seen.length) else result) ++ d ++ [sep]) text := by
  have hs := @separator_eq text name sep hn
  have ho := opens_iff.mpr ⟨name, sep, text, rfl, hn⟩
  have hl := hn.length
  cases name
  case nil => simp at hl
  case cons x name =>
    have hk : (name ++ [sep]).length = 7 := by simpa using hl
    rw [List.cons_append] at ho hs ⊢
    rw [substituteFrom]
    dsimp only
    rw [if_pos ⟨boundary_iff.mp hb, ho⟩, hs, ← hk]
    have ht : name ++ sep :: text = (name ++ [sep]) ++ text := by simp
    rw [ht, substituteFrom_skip]
    simp

-- A word that leads the text takes what is before it with it.
theorem substituteFrom_lead (hl : lead ∈ leads) (hn : IsToken name sep) :
    substituteFrom d 0 lead.reverse lead (name ++ sep :: text) =
      substituteFrom d 0 ((name ++ [sep]).reverse ++ lead.reverse) (d ++ [sep]) text := by
  have hb : lead.reverse.reverse ∈ leads := by simpa using hl
  rw [substituteFrom_token (.inl hb) hn]
  cases reverse_mem_leads_iff.mp hb
  case inl h =>
    obtain rfl : lead = [] := by simpa using h
    simp
  case inr h =>
    rw [if_pos ⟨h, by simp⟩]
    simp

theorem substituteFrom_marked (hc : ∃ c ∈ seen.head?, c ∈ marks) (hn : IsToken name sep) :
    substituteFrom d 0 seen result (name ++ sep :: text) =
      substituteFrom d 0 ((name ++ [sep]).reverse ++ seen) (result ++ d ++ [sep]) text := by
  rw [substituteFrom_token (.inr hc) hn, if_neg]
  intro ⟨h, _⟩
  have ⟨c, hc, hm⟩ := hc
  have hd : ∀ s ∈ [[slash], [backslash]] ++ [[slash, dot], [backslash, dot]],
      ∀ c ∈ s.head?, c ∉ marks := by decide
  exact hd seen (List.mem_append.mpr h) c hc hm

theorem Opens.head (h : Opens name (c :: text)) : toLower c = 0x64 := by
  have ⟨sep, post, ht, hn⟩ := h
  cases name
  case nil => exact absurd rfl hn.ne_nil
  case cons x name =>
    rw [(List.cons.inj ht).left]
    exact (List.cons.inj hn.name).left

theorem substituteFrom_leads (hl : lead ∈ leads) :
    substituteFrom d 0 [] [] (lead ++ args) = substituteFrom d 0 lead.reverse lead args := by
  have hc : ∀ c ∈ [slash, backslash, dot], toLower c ≠ 0x64 := by decide
  have hn : ∀ c ∈ [slash, backslash, dot], ∀ seen text,
      ¬(Boundary seen ∧ ∃ name, Opens name (c :: text)) :=
    fun c hm _ _ ⟨_, name, ho⟩ => hc c hm ho.head
  simp only [leads, List.mem_cons, List.not_mem_nil, or_false] at hl
  rcases hl with rfl | rfl | rfl | rfl | rfl
  · rfl
  · exact substituteFrom_copy (hn slash (by simp) _ _)
  · exact substituteFrom_copy (hn backslash (by simp) _ _)
  · have hslash := hn slash (by simp)
    exact (substituteFrom_copy (hn dot (by simp) _ _)).trans (substituteFrom_copy (hslash _ _))
  · have hback := hn backslash (by simp)
    exact (substituteFrom_copy (hn dot (by simp) _ _)).trans (substituteFrom_copy (hback _ _))

theorem length_leads : ∀ lead ∈ leads, lead.length ≤ 2 := by
  decide

-- What is behind a word is not at the beginning of the text.
theorem clear_behind (hn : IsToken name sep) : Clear ((name ++ [sep]).reverse ++ seen) args := by
  intro a b _ hl
  have h := length_leads _ hl
  simp only [List.reverse_append, List.reverse_reverse, List.length_append, List.length_reverse,
    hn.length, List.length_singleton] at h
  omega

theorem Clear.tail (h : Clear seen (c :: args)) : Clear (c :: seen) args := by
  intro a b hab hl
  exact h (c :: a) b (by simp [hab]) (by simpa using hl)

theorem exists_mark_iff : (∃ c ∈ seen.head?, c ∈ marks) ↔ seen.headD slash ∈ marks := by
  have hs : slash ∉ marks := by decide
  cases seen <;> simp [hs]

theorem substituteFrom_substituted (h : Clear seen args) :
    ∃ out, Substituted d (seen.headD slash) args out ∧
      substituteFrom d 0 seen result args = result ++ out := by
  generalize hk : args.length = k
  induction k using Nat.strong_induction_on generalizing seen result args
  case h k ih =>
    subst hk
    cases args
    case nil => exact ⟨[], .nil, by simp [substituteFrom]⟩
    case cons c args =>
      by_cases hb : Boundary seen ∧ ∃ name, Opens name (c :: args)
      case neg =>
        have ⟨out, hs, he⟩ := @ih args.length (by simp) (c :: seen) (result ++ [c]) args h.tail rfl
        refine ⟨c :: out, .copy (fun hm => hb ⟨.inr ?_, hm.right⟩) hs, ?_⟩
        case refine_1 => exact exists_mark_iff.mpr hm.left
        case refine_2 => simp [substituteFrom_copy hb, he]
      case pos =>
        have ⟨hb, name, ho⟩ := hb
        have hm : ∃ c ∈ seen.head?, c ∈ marks :=
          hb.resolve_left fun hl => h [] _ rfl (by simpa using hl) name ho
        have ⟨sep, post, ht, hn⟩ := ho
        have hl : post.length < (c :: args).length := by
          rw [ht]
          simp
          omega
        have ⟨out, hs, he⟩ := @ih post.length hl ((name ++ [sep]).reverse ++ seen)
          (result ++ d ++ [sep]) post (clear_behind hn) rfl
        have hs : Substituted d sep post out := by simpa using hs
        rw [ht, substituteFrom_marked hm hn, he]
        exact ⟨_, .token (exists_mark_iff.mp hm) hn hs, by simp⟩

-- What `substitute_bare_desktop_token` makes of a text with a word that leads it, and without.
theorem substituteBareDesktopToken_lead (hd : d ≠ []) (hl : lead ∈ leads) (hn : IsToken name sep) :
    ∃ out, Substituted d sep text out ∧
      substituteBareDesktopToken (lead ++ (name ++ sep :: text)) d = d ++ sep :: out := by
  have ⟨out, hs, he⟩ := @substituteFrom_substituted d ((name ++ [sep]).reverse ++ lead.reverse)
    (d ++ [sep]) text (clear_behind hn)
  refine ⟨out, by simpa using hs, ?_⟩
  rw [substituteBareDesktopToken, if_neg hd, substituteFrom_leads hl, substituteFrom_lead hl hn, he]
  simp

-- No word leads the text.
def Unled (text : Bytes) : Prop :=
  ∀ lead ∈ leads, ∀ name post, text = lead ++ post → ¬Opens name post

theorem substituteBareDesktopToken_unled (hd : d ≠ []) (h : Unled text) :
    Substituted d slash text (substituteBareDesktopToken text d) := by
  have hc : Clear [] text := fun a b ht hl name => h a hl name b ht
  have ⟨out, hs, he⟩ := @substituteFrom_substituted d [] [] text hc
  rw [substituteBareDesktopToken, if_neg hd, he]
  exact hs

end Loop

section Settled

variable {d text out name lead post : Bytes} {sep left : UInt8}

theorem Marked.of_getLast (h : Marked left name text) :
    (left ∈ marks ∧ Opens name text) ∨ Marked slash name text := by
  cases text
  case nil => exact absurd h not_marked_nil
  case cons c text =>
    exact (marked_cons_iff.mp h).imp_right fun h => marked_cons_iff.mpr (.inr h)

-- A word that leads the text stays as it is only if it is the Desktop with what is before it: as
-- the rest grows and shrinks with the Desktop's path, the lengths add up in no other way.
theorem eq_of_lead_eq (hl : lead ∈ leads) (hn : IsToken name sep) (hs : Substituted d sep post out)
    (he : d ++ sep :: out = lead ++ (name ++ sep :: post)) : d = lead ++ name ∧ out = post := by
  have hlen := congrArg List.length he
  have hname := hn.length
  simp only [List.length_append, List.length_cons, hname] at hlen
  rw [← List.append_assoc] at he
  by_cases hd : d.length = (lead ++ name).length
  case pos =>
    have ⟨hd, ho⟩ := List.append_inj he hd
    exact ⟨hd, (List.cons.inj ho).right⟩
  case neg =>
    exfalso
    rw [List.length_append, hname] at hd
    by_cases hlt : d.length ≤ 7
    case pos =>
      have := hs.length_le hlt
      omega
    case neg =>
      have := hs.le_length (by omega)
      have hlead := length_leads lead hl
      cases List.append_eq_append_iff.mp he
      case inl h =>
        have ⟨b, hb, hc⟩ := h
        cases b
        case nil         =>
          have := congrArg List.length hb
          simp only [List.length_append, List.length_nil, hname] at this
          omega
        case cons x b =>
          obtain rfl : sep = x := (List.cons.inj hc).left
          cases List.append_eq_append_iff.mp hb
          case inl h =>
            have ⟨e, hde, hne⟩ := h
            have := hn.plain sep (by simp [hne])
            exact absurd hn.sep (by simp [this])
          case inr h =>
            have ⟨e, hle, _⟩ := h
            have := congrArg List.length hle
            simp only [List.length_append] at this
            omega
      case inr h =>
        have ⟨b, hb, _⟩ := h
        have := congrArg List.length hb
        simp only [List.length_append, hname] at this
        omega

theorem plain_lead (hl : lead ∈ leads) : ∀ c ∈ lead, c ∉ marks := by
  have h : ∀ lead ∈ leads, ∀ c ∈ lead, c ∉ marks := by decide
  exact h lead hl

theorem plain_word (hl : lead ∈ leads) (hn : IsToken name sep) :
    ∀ c ∈ lead ++ (name ++ [sep]), c ∉ marks :=
  List.forall_mem_append.mpr ⟨plain_lead hl, hn.not_mark⟩

theorem not_marked_of_plain (hl : left ∉ marks) (h : ∀ c ∈ text, c ∉ marks) :
    ¬Marked left name text := by
  intro ⟨pre, post, ht, _, hm⟩
  have hmem := List.getLast_mem (List.cons_ne_nil left pre)
  cases List.mem_cons.mp hmem
  case inl he => exact hl (he ▸ hm)
  case inr he => exact h _ (by simp [ht, he]) hm

theorem unled_or (text : Bytes) : Unled text ∨ ∃ lead ∈ leads, ∃ name sep post,
    text = lead ++ (name ++ sep :: post) ∧ IsToken name sep := by
  by_cases h : Unled text
  case pos => exact .inl h
  case neg =>
    simp only [Unled, not_forall, not_not] at h
    have ⟨lead, hl, name, post, ht, sep, rest, hp, hn⟩ := h
    exact .inr ⟨lead, hl, name, sep, rest, hp ▸ ht, hn⟩

-- The substitution leaves a text alone exactly if the words in it are the Desktop already.
theorem substituteBareDesktopToken_eq_self_iff (hd : d ≠ []) :
    substituteBareDesktopToken text d = text ↔ Settled d text := by
  have hslash : slash ∉ marks := by decide
  constructor
  case mp =>
    intro he
    refine ⟨fun lead hl name post ht ⟨sep, rest, hp, hn⟩ => ?_, fun name hm => ?_⟩
    case refine_1 =>
      have ⟨out, hs, ho⟩ := @substituteBareDesktopToken_lead d rest name lead sep hd hl hn
      have ht : text = lead ++ (name ++ sep :: rest) := hp ▸ ht
      exact (eq_of_lead_eq hl hn hs (ho.symm.trans (ht ▸ he))).left.symm
    case refine_2 =>
      cases unled_or text
      case inl h => exact (substituteBareDesktopToken_unled hd h).marked he hm
      case inr h =>
        have ⟨lead, hl, name', sep, rest, ht, hn⟩ := h
        have ⟨out, hs, ho⟩ := @substituteBareDesktopToken_lead d rest name' lead sep hd hl hn
        have hrest := (eq_of_lead_eq hl hn hs (ho.symm.trans (ht ▸ he))).right
        have ht : text = (lead ++ name') ++ sep :: rest := by simp [ht]
        cases (ht ▸ hm).split hn.sep
        case inl hm =>
          have hp := plain_word hl hn
          exact absurd hm (not_marked_of_plain hslash (by simpa using hp))
        case inr hm => exact hs.marked hrest hm
  case mpr =>
    intro h
    cases unled_or text
    case inl hu => exact (substituteBareDesktopToken_unled hd hu).eq h.marked
    case inr hu =>
      have ⟨lead, hl, name, sep, rest, ht, hn⟩ := hu
      have ⟨out, hs, ho⟩ := @substituteBareDesktopToken_lead d rest name lead sep hd hl hn
      have hname := h.leading lead hl name _ ht ⟨sep, rest, rfl, hn⟩
      have hm : ∀ nm, Marked sep nm rest → nm = d := by
        intro nm hm
        refine h.marked nm ?_
        have hb := @Marked.behind nm rest (lead ++ name) slash sep hm
        simpa [ht] using hb
      rw [ht, ho, hs.eq hm, ← hname]
      simp

-- Which of the separators closes the text makes no difference.
theorem Opens.other_separator {a : Bytes} {sep' : UInt8} (h : Opens name (a ++ [sep]))
    (hs : isSeparator sep') : Opens name (a ++ [sep']) := by
  have ⟨c, rest, ht, hn⟩ := h
  cases List.eq_nil_or_concat' rest
  case inl he =>
    have ht : a ++ [sep] = name ++ [c] := he ▸ ht
    have ⟨ha, _⟩ := List.append_inj' ht rfl
    exact ⟨sep', [], by simp [ha], hn.name, hs⟩
  case inr he =>
    have ⟨rest', x, he⟩ := he
    have ht : a ++ [sep] = (name ++ c :: rest') ++ [x] := by simp [ht, he]
    have ⟨ha, _⟩ := List.append_inj' ht rfl
    exact ⟨c, rest' ++ [sep'], by simp [ha], hn⟩

theorem split_concat {a pre : Bytes} {sep' : UInt8} (h : a ++ [sep] = pre ++ post) (ho : Opens name post)
    (hs : isSeparator sep') : ∃ post', a ++ [sep'] = pre ++ post' ∧ Opens name post' := by
  cases List.eq_nil_or_concat' post
  case inl he =>
    have ⟨_, _, hp, _⟩ := ho
    simp [he] at hp
  case inr he =>
    have ⟨post', x, he⟩ := he
    have ht : a ++ [sep] = (pre ++ post') ++ [x] := by simp [h, he]
    have ⟨ha, _⟩ := List.append_inj' ht rfl
    exact ⟨post' ++ [sep'], by simp [ha], (he ▸ ho).other_separator hs⟩

theorem Settled.other_separator {a : Bytes} {sep' : UInt8} (h : Settled d (a ++ [sep]))
    (hs : isSeparator sep) : Settled d (a ++ [sep']) where
  leading lead hl name _ ht ho :=
    have ⟨_, ht, ho⟩ := split_concat ht ho hs
    h.leading lead hl name _ ht ho
  marked name := fun ⟨_, _, ht, ho, hm⟩ =>
    have ⟨_, ht, ho⟩ := split_concat ht ho hs
    h.marked name ⟨_, _, ht, ho, hm⟩

-- A Desktop whose path, with a separator behind it, has no word in it but itself. The path `.` would
-- be a lead for the text behind it.
structure Clean (d : Bytes) : Prop where
  ne_dot  : d ≠ [dot]
  settled : Settled d (d ++ [slash])

theorem Clean.settled_concat (h : Clean d) : Settled d (d ++ [sep]) :=
  h.settled.other_separator (by decide)

theorem Clean.marked (h : Clean d) (hm : Marked left name (d ++ [sep])) : name = d := by
  cases hm.of_getLast
  case inl hm => exact h.settled_concat.leading [] (by simp [leads]) name _ rfl hm.right
  case inr hm => exact h.settled_concat.marked name hm

-- The Desktop's path is not a lead, alone or with the separator behind it.
theorem Clean.not_lead {b : Bytes} (h : Clean d) (hd : d ≠ []) (hs : isSeparator sep)
    (hp : sep :: out = b ++ post) (ho : Opens name post) : d ++ b ∉ leads := by
  intro hl
  cases b
  case nil =>
    have ⟨_, _, ht, hn⟩ := ho
    cases name
    case nil => exact hn.ne_nil rfl
    case cons x name =>
      obtain rfl : sep = x := (List.cons.inj (hp.trans ht)).left
      exact absurd hs (by simp [(hn.plain sep List.mem_cons_self).left])
  case cons x b =>
    have h2 : ∀ lead ∈ leads, lead.length = 2 → lead.take 1 = [dot] := by decide
    have hle := length_leads _ hl
    have hpos := List.length_pos_iff.mpr hd
    simp only [List.length_append, List.length_cons] at hle
    have hone : d.length = 1 := by omega
    have htake := h2 _ hl (by simp only [List.length_append, List.length_cons]; omega)
    rw [← hone, List.take_left] at htake
    exact h.ne_dot htake

theorem Clean.settled_substituted (h : Clean d) (hd : d ≠ []) :
    Settled d (substituteBareDesktopToken text d) := by
  cases unled_or text
  case inl hu =>
    have hs := substituteBareDesktopToken_unled hd hu
    refine ⟨fun lead hl name post ht ⟨sep, rest, hp, hn⟩ => ?_,
      fun name hm => hs.settled (fun _ _ _ _ => h.marked) hm⟩
    have hw : lead ++ (name ++ [sep]) <+: substituteBareDesktopToken text d :=
      ⟨rest, by simp [ht, hp]⟩
    have ⟨rest', ht'⟩ := hs.prefix_of_plain (by decide) (plain_word hl hn) hw
    exact absurd ⟨sep, rest', rfl, hn⟩ (hu lead hl name _ (by simp [← ht']))
  case inr hu =>
    have ⟨lead, hl, name, sep, rest, ht, hn⟩ := hu
    have ⟨out, hs, ho⟩ := @substituteBareDesktopToken_lead d rest name lead sep hd hl hn
    rw [ht, ho]
    refine ⟨fun lead' hl' name' post' ht' ho' => ?_, fun name' hm => ?_⟩
    case refine_1 =>
      cases List.append_eq_append_iff.mp ht'
      case inl h' =>
        have ⟨b, hb, hp⟩ := h'
        exact absurd (hb ▸ hl') (h.not_lead hd hn.sep hp ho')
      case inr h' =>
        have ⟨b, hb, hp⟩ := h'
        have hc : d ++ [sep] = lead' ++ (b ++ [sep]) := by simp [hb]
        exact h.settled_concat.leading lead' hl' name' _ hc ((hp ▸ ho').split hn.sep)
    case refine_2 =>
      cases hm.split hn.sep
      case inl hm => exact h.marked hm
      case inr hm => exact hs.settled (fun _ _ _ _ => h.marked) hm

theorem Opens.append {a : Bytes} (h : Opens name text) : Opens name (text ++ a) := by
  have ⟨sep, post, ht, hn⟩ := h
  exact ⟨sep, post ++ a, by simp [ht], hn⟩

theorem Settled.of_append {a : Bytes} (h : Settled d (text ++ a)) : Settled d text where
  leading lead hl name post ht ho :=
    h.leading lead hl name (post ++ a) (by simp [ht]) ho.append
  marked name := fun ⟨pre, post, ht, ho, hm⟩ =>
    h.marked name ⟨pre, post ++ a, by simp [ht], ho.append, hm⟩

-- A name behind the directory brings no word with it.
theorem opens_of_append {a pre : Bytes} (h : text ++ a = pre ++ post) (ha : a.any isSeparator = false)
    (ho : Opens name post) : ∃ post', text = pre ++ post' ∧ Opens name post' := by
  have ⟨sep, rest, hp, hn⟩ := ho
  have ha : ∀ c ∈ a, isSeparator c = false := by simpa using ha
  have ht : text ++ a = (pre ++ name) ++ sep :: rest := by simp [h, hp]
  cases List.append_eq_append_iff.mp ht
  case inl h =>
    have ⟨b, _, hb⟩ := h
    exact absurd hn.sep (by simp [ha sep (by simp [hb])])
  case inr h =>
    have ⟨b, hb, hr⟩ := h
    cases b
    case nil => exact absurd hn.sep (by simp [ha sep (by simp [← List.nil_append a ▸ hr])])
    case cons x b =>
      obtain rfl : sep = x := (List.cons.inj hr).left
      exact ⟨name ++ sep :: b, by simp [hb], sep, b, rfl, hn⟩

theorem Settled.append {a : Bytes} (h : Settled d text) (ha : a.any isSeparator = false) :
    Settled d (text ++ a) where
  leading lead hl name _ ht ho :=
    have ⟨post, ht, ho⟩ := opens_of_append ht ha ho
    h.leading lead hl name post ht ho
  marked name := fun ⟨pre, _, ht, ho, hm⟩ =>
    have ⟨post, ht, ho⟩ := opens_of_append ht ha ho
    h.marked name ⟨pre, post, ht, ho, hm⟩

theorem keeps_separator (ht : text.any isSeparator) :
    (substituteBareDesktopToken text d).any isSeparator := by
  by_cases hd : d = []
  case pos => simpa [substituteBareDesktopToken, hd] using ht
  case neg =>
    cases unled_or text
    case inl hu => exact (substituteBareDesktopToken_unled hd hu).keeps_separator ht
    case inr hu =>
      have ⟨lead, hl, name, sep, rest, ht, hn⟩ := hu
      have ⟨out, _, ho⟩ := @substituteBareDesktopToken_lead d rest name lead sep hd hl hn
      simp [ht, ho, hn.sep]

theorem eq_or_contains : substituteBareDesktopToken text d = text ∨
    d <:+: substituteBareDesktopToken text d := by
  by_cases hd : d = []
  case pos => exact .inl (if_pos hd)
  case neg =>
    cases unled_or text
    case inl hu => exact (substituteBareDesktopToken_unled hd hu).eq_or_contains
    case inr hu =>
      have ⟨lead, hl, name, sep, rest, ht, hn⟩ := hu
      have ⟨out, _, ho⟩ := @substituteBareDesktopToken_lead d rest name lead sep hd hl hn
      exact .inr ⟨[], sep :: out, by simp [ht, ho]⟩

end Settled
end Droidcli.Reliability
