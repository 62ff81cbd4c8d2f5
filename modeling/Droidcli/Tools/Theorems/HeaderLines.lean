import Droidcli.Tools.HttpMessage
import Droidcli.Net.Theorems.Decoding

namespace Droidcli.Tools

open Bytes Net Cli Stream

variable {overflow : Bytes → Int32} {s body line first : Bytes} {lines : List Bytes}
  {header : HeaderLine} {headers : List HeaderLine}

section Lines

theorem getLines_append_lf (h : lf ∉ line) : getLines (line ++ lf :: s) = line :: getLines s := by
  induction line
  case nil => simp [getLines]
  case cons c line hi =>
    have ⟨hc, hl⟩ := not_or.mp fun hm => h (List.mem_cons.mpr hm)
    rw [List.cons_append, getLines, if_neg (Ne.symm hc), hi hl]

theorem getLines_line (h : lf ∉ line) (hn : line ≠ []) : getLines line = [line] := by
  induction line
  case nil => contradiction
  case cons c line hi =>
    have ⟨hc, hl⟩ := not_or.mp fun hm => h (List.mem_cons.mpr hm)
    rw [getLines, if_neg (Ne.symm hc)]
    cases line
    case nil => rfl
    case cons d line => rw [hi hl (by simp)]

theorem dropCr_cr : dropCr (line ++ [cr]) = line := by
  simp [dropCr]

theorem dropCr_line (h : IsLine line) : dropCr line = line := by
  rw [dropCr, if_neg]
  exact fun hl => h.cr (List.mem_of_getLast? hl)

theorem HeaderLine.isLine (header : HeaderLine) : IsLine header.text where
  cr := by
    have hc : cr ≠ colon := by decide
    simpa [HeaderLine.text, hc] using ⟨header.nameLine.cr, header.valueLine.cr⟩
  lf := by
    have hc : lf ≠ colon := by decide
    simpa [HeaderLine.text, hc] using ⟨header.nameLine.lf, header.valueLine.lf⟩

theorem HeaderLine.text_ne_nil (header : HeaderLine) : header.text ≠ [] := by
  simp [HeaderLine.text]

theorem lines_blockText (h : IsLine first) (hn : first ≠ []) :
    (getLines (blockText first headers)).map dropCr = first :: headers.map HeaderLine.text := by
  induction headers generalizing first
  case nil => simp [blockText, getLines_line h.lf hn, dropCr_line h]
  case cons header headers hi =>
    have hs : blockText first (header :: headers) =
        (first ++ [cr]) ++ lf :: blockText header.text headers := by
      simp [blockText, crlf]
    have hc : lf ≠ cr := by decide
    have hl : lf ∉ first ++ [cr] := by simpa [hc] using h.lf
    rw [hs, getLines_append_lf hl, List.map_cons, dropCr_cr, hi header.isLine header.text_ne_nil,
      List.map_cons]

theorem inert_line (h : IsLine line) : Inert headerEnd line s :=
  inert_of_not_mem h.cr

theorem inert_crlf (h : IsLine line) (hn : line ≠ []) : Inert headerEnd crlf (line ++ s) := by
  cases line
  case nil => contradiction
  case cons c line =>
    have hc : cr ≠ c := fun he => h.cr (he ▸ List.mem_cons_self)
    apply inert_cons
    case hc => simp [headerEnd, hc]
    case hs =>
      apply inert_of_not_mem
      decide

-- The blank line is the first place where a block can end.
theorem inert_blockText (h : IsLine first) (hn : first ≠ []) :
    Inert headerEnd (blockText first headers) (headerEnd ++ s) := by
  induction headers generalizing first
  case nil => simpa [blockText] using inert_line h
  case cons header headers hi =>
    have hs : blockText first (header :: headers) =
        first ++ (crlf ++ blockText header.text headers) := by
      simp [blockText]
    have hb : blockText header.text headers ++ (headerEnd ++ s) =
        header.text ++ (headers.flatMap (crlf ++ ·.text) ++ (headerEnd ++ s)) := by
      simp [blockText]
    have hc : Inert headerEnd crlf (blockText header.text headers ++ (headerEnd ++ s)) :=
      hb ▸ inert_crlf header.isLine header.text_ne_nil
    rw [hs]
    exact inert_append (inert_line h)
      (inert_append hc (hi header.isLine header.text_ne_nil))

theorem breakOn_blockText (h : IsLine first) (hn : first ≠ []) :
    breakOn headerEnd (blockText first headers ++ headerEnd ++ s) =
      some (blockText first headers, s) := by
  have hb : breakOn headerEnd (headerEnd ++ s) = some ([], s) := by
    simp [headerEnd, breakOn]
  rw [List.append_assoc, breakOn_inert (inert_blockText h hn), hb]
  simp

end Lines

section Length

theorem toLower_eq_colon {c : UInt8} : toLower c = colon ↔ c = colon := by
  rw [toLower]
  split_ifs with h
  case neg => rfl
  case pos =>
    simp only [colon, UInt8.le_iff_toNat_le, ← UInt8.toNat_inj, UInt8.toNat_add,
      UInt8.reduceToNat] at h ⊢
    omega

theorem colon_mem_lowered : colon ∈ lowered s ↔ colon ∈ s := by
  simp [lowered, toLower_eq_colon]

-- A name ends at the first colon.
theorem named_prefix_iff {k k' v : Bytes} (h : colon ∉ k) (h' : colon ∉ k') :
    k ++ [colon] <+: k' ++ colon :: v ↔ k = k' := by
  constructor
  case mp =>
    intro ⟨t, ht⟩
    have hs : k ++ colon :: t = k' ++ colon :: v := by simpa using ht
    have hd {s u : Bytes} (hs : colon ∉ s) : (s ++ colon :: u).takeWhile (· ≠ colon) = s := by
      have hp : ∀ c ∈ s, decide (c ≠ colon) := by
        intro c hc
        simpa using fun he : c = colon => hs (he ▸ hc)
      rw [List.takeWhile_append_of_pos hp]
      simp
    rw [← hd h, hs, hd h']
  case mpr =>
    intro he
    exact ⟨v, by simp [he]⟩

-- Which header tells the length.
theorem tells_length_iff : str "content-length:" <+: lowered header.text ↔ ¬header.IsOther := by
  have hs : str "content-length:" = str "content-length" ++ [colon] := by decide
  have hn : colon ∉ lowered header.name := colon_mem_lowered.not.mpr header.named.right
  have ht : lowered header.text = lowered header.name ++ colon :: lowered header.value := by
    simp [HeaderLine.text, lowered]
    decide
  rw [hs, ht, named_prefix_iff (by decide) hn, HeaderLine.IsOther, not_not, eq_comm]

variable {trim : Bytes → Bytes} {default : Int32}

theorem scan_others (h : ∀ header ∈ headers, header.IsOther) :
    scanContentLength overflow trim default (headers.map HeaderLine.text) = default := by
  induction headers generalizing default
  case nil => rfl
  case cons header headers hi =>
    have ⟨hh, h⟩ := List.forall_mem_cons.mp h
    have hn := tells_length_iff.not.mpr (not_not.mpr hh)
    rw [scanContentLength, List.map_cons, List.foldl_cons, if_neg hn]
    exact hi h

theorem scan_append {before behind : List Bytes} :
    scanContentLength overflow trim default (before ++ behind) =
      scanContentLength overflow trim (scanContentLength overflow trim default before) behind :=
  List.foldl_append

-- The header that tells the length is found wherever it stands.
theorem scan_told {before behind : List HeaderLine} (h : ¬header.IsOther)
    (hb : ∀ header ∈ before ++ behind, header.IsOther) :
    scanContentLength overflow trim default
        ((before ++ [header] ++ behind).map HeaderLine.text) =
      atoiArgument overflow (trim (header.text.drop 15)) := by
  have ⟨hb, hb'⟩ := List.forall_mem_append.mp hb
  rw [List.map_append, List.map_append, scan_append, scan_others hb', scan_append, scan_others hb]
  rw [List.map_singleton, scanContentLength, List.foldl_cons, if_pos (tells_length_iff.mpr h)]
  rfl

theorem text_drop (h : ¬header.IsOther) : header.text.drop 15 = header.value := by
  have hl : header.name.length = 14 := by
    have hl := congrArg List.length (not_not.mp h)
    rwa [lowered, List.length_map] at hl
  have hs : header.text = (header.name ++ [colon]) ++ header.value := by simp [HeaderLine.text]
  rw [hs, List.drop_left']
  simp [hl]

end Length

section Numbers

theorem isDigit_ne {c : UInt8} (h : isDigit c) : c ≠ minus ∧ c ≠ 0x2b ∧ ¬isSpace c := by
  simp only [isDigit, isSpace, minus, space, tab, cr, Bool.and_eq_true, Bool.or_eq_true,
    decide_eq_true_eq, ne_eq, UInt8.le_iff_toNat_le, ← UInt8.toNat_inj, UInt8.reduceToNat] at h ⊢
  omega

-- `std::atoi` on a number with blanks in front of it.
theorem atoi_digits {blanks digits rest : Bytes} (hb : ∀ c ∈ blanks, isSpace c) (hn : digits ≠ [])
    (hd : ∀ c ∈ digits, isDigit c) (hr : ∀ c ∈ rest.head?, ¬isDigit c) :
    atoiArgument overflow (blanks ++ digits ++ rest) =
      if digitsValue digits < 2 ^ 31 then Int32.ofNat (digitsValue digits)
      else overflow (blanks ++ digits ++ rest) := by
  have hs : (blanks ++ digits ++ rest).dropWhile isSpace = digits ++ rest := by
    rw [List.append_assoc, List.dropWhile_append_of_pos hb]
    cases digits
    case nil => contradiction
    case cons d digits => simp [(isDigit_ne (hd d (by simp))).2.2]
  have hh : ∀ c ∈ (digits ++ rest).head?, c ≠ minus ∧ c ≠ 0x2b := by
    cases digits
    case nil => contradiction
    case cons d digits =>
      have := isDigit_ne (hd d (by simp))
      simpa using ⟨this.1, this.2.1⟩
  have hm : (digits ++ rest).head? ≠ some minus := fun h => (hh _ h).left rfl
  have hp : (digits ++ rest).head? ≠ some 0x2b := fun h => (hh _ h).right rfl
  have hi : int32Min ≤ (digitsValue digits : Int) ∧ (digitsValue digits : Int) ≤ int32Max ↔
      digitsValue digits < 2 ^ 31 := by
    simp only [int32Min, int32Max]
    omega
  simp only [atoiArgument, hs, hm, hp, or_self, if_false, takeWhile_digits hd hr, hi]
  rfl

end Numbers

end Droidcli.Tools
