import Droidcli.Reliability.Theorems.Substitution

-- The substitution of the Desktop as a rule for each byte of a text, with no order among them.
namespace Droidcli.Reliability

open Bytes

-- A word begins there that stands for the Desktop: at the start of the text, behind a space or a
-- quote, or behind what may lead the whole text.
def TokenAt (text : Bytes) (i : Nat) : Prop :=
  (text.take i ∈ leads ∨ (text.take i).getLast?.any (· ∈ marks)) ∧
    (str "desktop/" <+: lowered (text.drop i) ∨ str "desktop\\" <+: lowered (text.drop i))

instance (text : Bytes) (i : Nat) : Decidable (TokenAt text i) :=
  inferInstanceAs (Decidable (_ ∧ _))

-- What the byte at the place becomes: the first letter of a word becomes the Desktop's path, the
-- other letters nothing, nor does what leads a text together with its first word. All others stay,
-- among them the separators behind the words.
def becomes (desktopPath text : Bytes) (i : Nat) (c : UInt8) : Bytes :=
  if TokenAt text i then desktopPath
  else if ∃ j < i, i < j + 7 ∧ TokenAt text j then []
  else if ∃ lead ∈ leads, i < lead.length ∧ lead <+: text ∧ TokenAt text lead.length then []
  else [c]

section Places

variable {text pre rest name post d : Bytes} {i : Nat} {c sep : UInt8}

theorem tokenAt_iff : TokenAt (pre ++ rest) pre.length ↔
    (pre ∈ leads ∨ pre.getLast?.any (· ∈ marks)) ∧ ∃ name, Opens name rest := by
  rw [TokenAt, List.take_left, List.drop_left, opens_iff]

theorem becomes_of_tokenAt (h : TokenAt text i) : becomes d text i c = d :=
  if_pos h

theorem not_tokenAt_of_getLast (hl : (text.take i).getLast? = some c) (hs : isSeparator c = false)
    (hm : c ∉ marks) : ¬TokenAt text i := by
  have hleads : ∀ lead ∈ leads, lead.getLast?.all isSeparator := by decide
  intro ⟨h, _⟩
  cases h
  case inl h => simpa [hl, hs] using hleads _ h
  case inr h => simp [hl, hm] at h

-- Within a word, and at the separator behind it, no other word begins.
theorem not_tokenAt_within (hn : IsToken name sep) {k : Nat} (hk : k < 7) :
    ¬TokenAt (pre ++ (name ++ sep :: post)) (pre.length + (k + 1)) := by
  have hl : k < name.length := hn.length ▸ hk
  have hp := hn.plain name[k] (List.getElem_mem hl)
  refine not_tokenAt_of_getLast ?_ hp.left hp.right
  have ht : (name ++ sep :: post).take (k + 1) = name.take (k + 1) :=
    List.take_append_of_le_length hl
  rw [List.take_length_add_append, ht, List.take_succ_eq_append_getElem hl, ← List.append_assoc]
  exact List.getLast?_concat

theorem take_not_mem_leads {j : Nat} (hj : 2 < j) (ht : 2 < text.length) : text.take j ∉ leads := by
  intro h
  have := length_leads _ h
  simp only [List.length_take] at this
  omega

-- What a word becomes, with the separator behind it.
theorem becomes_token (hn : IsToken name sep)
    (ht : TokenAt (pre ++ (name ++ sep :: post)) pre.length) :
    ((name ++ [sep]).zipIdx pre.length).flatMap
      (fun (c, i) => becomes d (pre ++ (name ++ sep :: post)) i c) = d ++ [sep] := by
  have hlen := hn.length
  generalize hx : pre ++ (name ++ sep :: post) = text at ht ⊢
  have hwithin : ∀ k < 7, ¬TokenAt text (pre.length + (k + 1)) :=
    fun k hk => hx ▸ not_tokenAt_within hn hk
  have hsep : becomes d text (pre.length + 7) sep = [sep] := by
    have hword : ¬∃ j < pre.length + 7, pre.length + 7 < j + 7 ∧ TokenAt text j := by
      intro ⟨j, hj, hi, htj⟩
      refine hwithin (j - pre.length - 1) (by omega) ?_
      rwa [show pre.length + (j - pre.length - 1 + 1) = j by omega]
    have hlead : ¬∃ lead ∈ leads, pre.length + 7 < lead.length ∧ lead <+: text ∧
        TokenAt text lead.length := by
      intro ⟨lead, hl, hi, _⟩
      have := length_leads lead hl
      omega
    rw [becomes, if_neg (hwithin 6 (by decide)), if_neg hword, if_neg hlead]
  cases name
  case nil => simp at hlen
  case cons x name =>
    have hlen : name.length = 6 := by simpa using hlen
    have hrest : (name.zipIdx (pre.length + 1)).flatMap (fun (c, i) => becomes d text i c) = [] := by
      refine List.flatMap_eq_nil_iff.mpr fun (c, i) hc => ?_
      have ⟨hi, hi', _⟩ := List.mem_zipIdx hc
      have hnot : ¬TokenAt text i := by
        have := hwithin (i - pre.length - 1) (by omega)
        rwa [show pre.length + (i - pre.length - 1 + 1) = i by omega] at this
      show becomes d text i c = []
      rw [becomes, if_neg hnot, if_pos ⟨pre.length, by omega, by omega, ht⟩]
    simp [List.zipIdx_cons, List.zipIdx_append, becomes_of_tokenAt ht, hrest, hlen, hsep,
      Nat.add_assoc]

end Places

section Rest

variable {d pre rest name post out : Bytes} {c sep left : UInt8}

-- The words of what is done do not reach into the rest, and nothing leads a word of the rest.
structure Behind (pre rest : Bytes) : Prop where
  done  : ∀ j < pre.length, TokenAt (pre ++ rest) j → j + 7 ≤ pre.length
  unled : ∀ j, pre.length ≤ j → TokenAt (pre ++ rest) j → (pre ++ rest).take j ∉ leads

namespace Behind

theorem step {a : Bytes} (h : Behind pre (a ++ rest))
    (ha : ∀ k < a.length, TokenAt (pre ++ (a ++ rest)) (pre.length + k) → k + 7 ≤ a.length) :
    Behind (pre ++ a) rest where
  done j hj ht := by
    rw [List.append_assoc] at ht
    rw [List.length_append] at hj ⊢
    by_cases hlt : j < pre.length
    case pos =>
      have := h.done j hlt ht
      omega
    case neg =>
      have := ha (j - pre.length) (by omega) (by rwa [show pre.length + (j - pre.length) = j by omega])
      omega
  unled j hj ht := by
    rw [List.append_assoc] at ht ⊢
    rw [List.length_append] at hj
    exact h.unled j (by omega) ht

theorem tokenAt_iff (h : Behind pre rest) (hl : left = pre.getLast?.getD slash) :
    TokenAt (pre ++ rest) pre.length ↔ left ∈ marks ∧ ∃ name, Opens name rest := by
  have hs : slash ∉ marks := by decide
  have hm : pre.getLast?.any (· ∈ marks) ↔ left ∈ marks := by
    subst hl
    cases pre.getLast? <;> simp [hs]
  constructor
  case mp =>
    intro ht
    have hu := h.unled _ (Nat.le_refl _) ht
    rw [List.take_left] at hu
    have ⟨hb, ho⟩ := Reliability.tokenAt_iff.mp ht
    exact ⟨hm.mp (hb.resolve_left hu), ho⟩
  case mpr => exact fun ⟨hl, ho⟩ => Reliability.tokenAt_iff.mpr ⟨.inr (hm.mpr hl), ho⟩

theorem becomes_copy (h : Behind pre (c :: rest)) (ht : ¬TokenAt (pre ++ c :: rest) pre.length) :
    becomes d (pre ++ c :: rest) pre.length c = [c] := by
  have hword : ¬∃ j < pre.length, pre.length < j + 7 ∧ TokenAt (pre ++ c :: rest) j := by
    intro ⟨j, hj, hi, htj⟩
    have := h.done j hj htj
    omega
  have hlead : ¬∃ lead ∈ leads, pre.length < lead.length ∧ lead <+: pre ++ c :: rest ∧
      TokenAt (pre ++ c :: rest) lead.length := by
    intro ⟨lead, hl, hi, hp, htl⟩
    exact h.unled _ (by omega) htl (List.prefix_iff_eq_take.mp hp ▸ hl)
  rw [becomes, if_neg ht, if_neg hword, if_neg hlead]

theorem behind_token (hn : IsToken name sep) (h : Behind pre (name ++ sep :: rest)) :
    Behind (pre ++ (name ++ [sep])) rest := by
  have he : name ++ sep :: rest = (name ++ [sep]) ++ rest := by simp
  refine (he ▸ h).step fun k hk ht => ?_
  have hlen := hn.length
  rw [List.length_append, List.length_singleton] at hk ⊢
  cases k
  case zero   => omega
  case succ k => exact absurd (he ▸ ht) (not_tokenAt_within hn (by omega))

end Behind

-- What the loop makes of the rest is what each byte of it becomes. The induction is on the loop;
-- what it has behind itself decides about none of the bytes to come.
theorem Substituted.eq_becomes (h : Substituted d left rest out)
    (hl : left = pre.getLast?.getD slash) (hb : Behind pre rest) :
    out = (rest.zipIdx pre.length).flatMap fun (c, i) => becomes d (pre ++ rest) i c := by
  induction h generalizing pre
  case nil => rfl
  case copy left c text result hn _ ih =>
    have hnot : ¬TokenAt (pre ++ c :: text) pre.length :=
      fun ht => hn ((hb.tokenAt_iff hl).mp ht)
    have hstep : Behind (pre ++ [c]) text := by
      refine hb.step (a := [c]) fun k hk ht => ?_
      obtain rfl : k = 0 := by simpa using hk
      exact absurd ht hnot
    rw [@ih (pre ++ [c]) (by simp) hstep]
    simp [List.zipIdx_cons, hb.becomes_copy hnot]
  case token left name sep post result hm hn _ ih =>
    have ht := (hb.tokenAt_iff hl).mpr ⟨hm, name, sep, post, rfl, hn⟩
    have hbecomes := @becomes_token pre name post d sep hn ht
    rw [@ih (pre ++ (name ++ [sep])) (by simp) (hb.behind_token hn)]
    have he : name ++ sep :: post = (name ++ [sep]) ++ post := by simp
    rw [he, List.zipIdx_append, List.flatMap_append, ← he, hbecomes]
    simp

end Rest

section Whole

variable {d lead rest name post text : Bytes} {i : Nat} {c sep : UInt8}

theorem not_tokenAt_lead (hl : lead ∈ leads) (hi : i < lead.length) : ¬TokenAt (lead ++ rest) i := by
  have hd : ∀ lead ∈ leads, ∀ c ∈ lead, toLower c ≠ 0x64 := by decide
  intro ⟨_, ho⟩
  have ⟨name, ho⟩ := opens_iff.mp ho
  rw [List.drop_append_of_le_length (by omega), List.drop_eq_getElem_cons hi, List.cons_append] at ho
  exact hd lead hl _ (List.getElem_mem hi) ho.head

theorem becomes_lead (hl : lead ∈ leads) (ht : TokenAt (lead ++ rest) lead.length) :
    (lead.zipIdx).flatMap (fun (c, i) => becomes d (lead ++ rest) i c) = [] := by
  refine List.flatMap_eq_nil_iff.mpr fun (c, i) hc => ?_
  have ⟨_, hi, _⟩ := List.mem_zipIdx hc
  have hnot : ¬TokenAt (lead ++ rest) i := not_tokenAt_lead hl (by omega)
  have hword : ¬∃ j < i, i < j + 7 ∧ TokenAt (lead ++ rest) j :=
    fun ⟨j, hj, _, htj⟩ => not_tokenAt_lead hl (by omega) htj
  have hdropped : ∃ lead' ∈ leads, i < lead'.length ∧ lead' <+: lead ++ rest ∧
      TokenAt (lead ++ rest) lead'.length :=
    ⟨lead, hl, by omega, List.prefix_append lead rest, ht⟩
  show becomes d (lead ++ rest) i c = []
  rw [becomes, if_neg hnot, if_neg hword, if_pos hdropped]

theorem Unled.behind (h : Unled text) : Behind [] text where
  done j hj _ := by simp at hj
  unled j _ ht hl := by
    have ⟨name, ho⟩ := opens_iff.mp ht.right
    exact h _ hl name _ (List.take_append_drop j text).symm ho

theorem behind_lead (hl : lead ∈ leads) (hn : IsToken name sep) :
    Behind (lead ++ (name ++ [sep])) post where
  done j hj ht := by
    have hlen := hn.length
    simp only [List.length_append, List.length_singleton] at hj ⊢
    have he : lead ++ (name ++ [sep]) ++ post = lead ++ (name ++ sep :: post) := by simp
    rw [he] at ht
    by_cases hlt : j < lead.length
    case pos => exact absurd ht (not_tokenAt_lead hl hlt)
    case neg =>
      by_cases hle : j ≤ lead.length
      case pos => omega
      case neg =>
        rw [show j = lead.length + (j - lead.length - 1 + 1) by omega] at ht
        exact absurd ht (not_tokenAt_within hn (by omega))
  unled j hj _ := by
    have hlen := hn.length
    simp only [List.length_append, List.length_singleton] at hj
    exact take_not_mem_leads (by omega) (by simp; omega)

-- The substitution changes the words that stand for the Desktop and nothing else.
theorem substituteBareDesktopToken_eq_becomes (text : Bytes) {desktopPath : Bytes}
    (h : desktopPath ≠ []) : substituteBareDesktopToken text desktopPath =
      text.zipIdx.flatMap fun (c, i) => becomes desktopPath text i c := by
  cases unled_or text
  case inl hu => exact (substituteBareDesktopToken_unled h hu).eq_becomes (by simp) hu.behind
  case inr hl =>
    have ⟨lead, hl, name, sep, post, ht, hn⟩ := hl
    have ⟨out, hs, he⟩ := @substituteBareDesktopToken_lead desktopPath post name lead sep h hl hn
    have htoken : TokenAt (lead ++ (name ++ sep :: post)) lead.length :=
      tokenAt_iff.mpr ⟨.inl hl, name, sep, post, rfl, hn⟩
    have hout := @Substituted.eq_becomes desktopPath (lead ++ (name ++ [sep])) post out sep hs (by simp)
      (behind_lead hl hn)
    have hword := @becomes_token lead name post desktopPath sep hn htoken
    have hjoin : name ++ sep :: post = (name ++ [sep]) ++ post := by simp
    have hlead := @becomes_lead desktopPath lead (name ++ sep :: post) hl htoken
    rw [ht, he, hout, List.zipIdx_append, List.flatMap_append, hlead, hjoin, List.zipIdx_append,
      List.flatMap_append, ← hjoin, Nat.zero_add, hword]
    simp

-- The word behind the lead and the one behind the quote are the Desktop, the one in the path is not.
theorem substituteBareDesktopToken_eq_becomes_command :
    str "D:\\u" ≠ [] ∧ substituteBareDesktopToken "./Desktop/a \"desktop\\b\" c/desktop/d" "D:\\u" =
      "D:\\u/a \"D:\\u\\b\" c/desktop/d" := by
  refine ⟨by decide, ?_⟩
  rw [substituteBareDesktopToken_eq_becomes _ (by decide)]
  decide +kernel

end Whole

end Droidcli.Reliability
