import Droidcli.Tools.Theorems.Fragments
import Droidcli.Tools.Theorems.HeaderLines

namespace Droidcli.Tools

open Bytes Net Cli Stream

variable {overflow : Bytes → Int32} {s head body got : Bytes} {chunks back : List Bytes}

section Reading

def answeredStatus (overflow : Bytes → Int32) (head : Bytes) : Int32 :=
  match after [space] head with
  | some text => atoiArgument overflow text
  | none      => 0

def answeredLength (overflow : Bytes → Int32) (head : Bytes) : Int32 :=
  scanContentLength overflow id (-1) ((getLines head).map dropCr)

-- What a response comes to when `got` has arrived with its headers.
def answerArrived (overflow : Bytes → Int32) (head body got : Bytes) : Outcome (Int32 × Bytes) :=
  if (head ++ headerEnd ++ got).length ≤ 1024 * 1024 then
    .done (answeredStatus overflow head,
      if 0 ≤ answeredLength overflow head then
        body.take (answeredLength overflow head).toInt.toNat
      else got)
  else .refused

theorem readHttpResponse_arrived (h : breakOn headerEnd s = some (head, body))
    (hb : body = got ++ back.flatten)
    (hg : gather headerEnd (1024 * 1024) true [] chunks =
      if (head ++ headerEnd ++ got).length ≤ 1024 * 1024 then
        .done (head ++ headerEnd ++ got, back)
      else .refused) :
    readHttpResponse overflow true chunks = answerArrived overflow head body got := by
  rw [readHttpResponse, hg, answerArrived]
  by_cases hl : (head ++ headerEnd ++ got).length ≤ 1024 * 1024
  case neg =>
    rw [if_neg hl, if_neg hl]
    rfl
  case pos =>
    have ha := breakOn_arrived h hb
    simp only [if_pos hl, Outcome.bind, ha]
    change (fill (fun m => ¬(0 ≤ answeredLength overflow head ∧
      Int32.ofNat m < answeredLength overflow head)) true got back).bind (fun t =>
        .done (answeredStatus overflow head, if 0 ≤ answeredLength overflow head then
          t.take (answeredLength overflow head).toInt.toNat else t)) = _
    by_cases hn : 0 ≤ answeredLength overflow head
    case pos =>
      have he (m : Nat) (h : decide ¬(0 ≤ answeredLength overflow head ∧
          Int32.ofNat m < answeredLength overflow head)) :
          (answeredLength overflow head).toInt.toNat ≤ m :=
        toNat_le_of_not_lt fun hlt => of_decide_eq_true h ⟨hn, hlt⟩
      obtain ⟨t, hf, ht⟩ := @fill_take got back _ _ he
      rw [hf, hb]
      simp only [Outcome.bind, if_pos hn, ht]
    case neg =>
      rw [fill_of_enough (by simp [hn])]
      simp only [Outcome.bind, if_neg hn]

end Reading

theorem isLine_decimal (n : Nat) : IsLine (decimal n) where
  cr h := absurd (isDigit_of_mem_decimal h) (by decide)
  lf h := absurd (isDigit_of_mem_decimal h) (by decide)

theorem IsLine.append {s t : Bytes} (hs : IsLine s) (ht : IsLine t) : IsLine (s ++ t) where
  cr h := (List.mem_append.mp h).elim hs.cr ht.cr
  lf h := (List.mem_append.mp h).elim hs.lf ht.lf

theorem IsLine.space_cons {s : Bytes} (hs : IsLine s) : IsLine (space :: s) where
  cr h := hs.cr ((List.mem_cons.mp h).resolve_left (by decide))
  lf h := hs.lf ((List.mem_cons.mp h).resolve_left (by decide))

namespace Transfer

-- The length that the headers tell, as the reader understands it.
def toldLength (overflow : Bytes → Int32) : Transfer body → Int32
  | contentLength header body .. =>
    if body.length < 2 ^ 31 then Int32.ofNat body.length else overflow header.value
  | chunked ..    => -1
  | untilClose .. => -1

theorem scan_headers (transfer : Transfer body) {before behind : List HeaderLine}
    (ho : ∀ header ∈ before ++ behind, header.IsOther) :
    scanContentLength overflow id (-1) ((before ++ transfer.headers ++ behind).map HeaderLine.text) =
      transfer.toldLength overflow := by
  cases transfer
  case contentLength header front digits back hk hv hb hn hd hl =>
    have ht : ¬header.IsOther := not_not.mpr hk
    have ⟨hf, hb⟩ := List.forall_mem_append.mp hb
    have hsp : ∀ c ∈ front, isSpace c := fun c hc =>
      (by decide : ∀ c ∈ ([space, tab] : Bytes), isSpace c) c (hf c hc)
    have hr : ∀ c ∈ back.head?, ¬isDigit c := fun c hc =>
      (by decide : ∀ c ∈ ([space, tab] : Bytes), ¬isDigit c) c (hb c (List.mem_of_head? hc))
    rw [headers, scan_told ht ho, text_drop ht, hv, id, atoi_digits hsp hn hd hr, toldLength, hl, hv]
  case chunked header chunks last trailers hk hv hc hl =>
    have ho' : ∀ h ∈ before ++ [header] ++ behind, h.IsOther := by
      have hh : header.IsOther := by
        rw [HeaderLine.IsOther, hk]
        decide
      simpa [or_imp, forall_and, hh] using ho
    exact scan_others ho'
  case untilClose => exact scan_others (by simpa [headers] using ho)

-- When a body is read right, however it is cut, behind `size` bytes of headers: its length is told,
-- and fits an `int`, and what may come along with the headers does not make these too long; or there
-- is nothing to it.
def ReadWell (size : Nat) : Transfer body → Prop
  | contentLength _ body .. =>
    body.length < 2 ^ 31 ∧ size + min body.length 2047 ≤ 1024 * 1024
  | chunked ..              => False
  | untilClose body         => body = [] ∧ size ≤ 1024 * 1024

-- What is read of a body when `got` has come along with the headers.
def read (overflow : Bytes → Int32) (size : Nat) (transfer : Transfer body) (got : Bytes) :
    Option Bytes :=
  if size + got.length ≤ 1024 * 1024 then
    some <|
      if 0 ≤ transfer.toldLength overflow then
        transfer.payload.take (transfer.toldLength overflow).toInt.toNat
      else got
  else none

theorem not_zero_le_neg_one : ¬(0 : Int32) ≤ -1 := by
  decide

theorem toldLength_of_lt {n : Nat} (h : n < 2 ^ 31) :
    0 ≤ Int32.ofNat n ∧ (Int32.ofNat n).toInt.toNat = n := by
  have hi : (Int32.ofNat n).toInt = n := Int32.toInt_ofNat_of_lt h
  exact ⟨Int32.le_iff_toInt_le.mpr (hi ▸ Int.natCast_nonneg n), by simp [hi]⟩

variable {transfer : Transfer body} {size : Nat}

theorem read_of_readWell (h : transfer.ReadWell size) (hp : got <+: transfer.payload)
    (hl : got.length ≤ 2047) : transfer.read overflow size got = some body := by
  have hle := hp.length_le
  rw [read]
  cases transfer
  case contentLength =>
    obtain ⟨hlt, hfit⟩ := h
    obtain ⟨hz, hn⟩ := toldLength_of_lt hlt
    have hs : size + got.length ≤ 1024 * 1024 :=
      Nat.le_trans (Nat.add_le_add_left (Nat.le_min.mpr ⟨hle, hl⟩) size) hfit
    rw [if_pos hs, toldLength, if_pos hlt, if_pos hz, hn, payload, List.take_length]
  case chunked => exact h.elim
  case untilClose =>
    obtain ⟨hb, hfit⟩ := h
    have hg : got = [] := List.length_eq_zero_iff.mp (by simpa [payload, hb] using hle)
    have hs : size + got.length ≤ 1024 * 1024 := by simpa [hg] using hfit
    rw [if_pos hs, toldLength, if_neg not_zero_le_neg_one, hg, hb]

-- Of a body that is not read well, too much shows or too little.
theorem readWell_of_read (h : ∀ got, got <+: transfer.payload → got.length ≤ 2047 →
    transfer.read overflow size got = some body) : transfer.ReadWell size := by
  have hnone := h [] (List.nil_prefix) (Nat.zero_le _)
  have hmore := h (transfer.payload.take 2047) (List.take_prefix ..) (by
    rw [List.length_take]
    omega)
  have fits {got : Bytes} (hr : transfer.read overflow size got = some body) :
      size + got.length ≤ 1024 * 1024 := by
    by_contra hn
    simp [read, if_neg hn] at hr
  have hfit := fits hnone
  have hfit' := fits hmore
  rw [read, if_pos hfit, Option.some.injEq] at hnone
  rw [read, if_pos hfit', Option.some.injEq] at hmore
  cases transfer
  case contentLength header front digits back hk hv hb hn hd hl =>
    have hlt : body.length < 2 ^ 31 := by
      by_contra hlt
      rw [toldLength, if_neg hlt, payload] at hnone
      split_ifs at hnone with hz
      case pos =>
        have hlen := congrArg List.length hnone
        rw [List.length_take] at hlen
        have := Int32.toInt_lt (overflow header.value)
        omega
      case neg => simp [← hnone] at hlt
    refine ⟨hlt, ?_⟩
    rw [payload, List.length_take, Nat.min_comm] at hfit'
    exact hfit'
  case chunked header chunks last trailers hk hv hc hd =>
    rw [toldLength, if_neg not_zero_le_neg_one] at hnone hmore
    have hp := hmore.trans hnone.symm
    simp [payload, crlf] at hp
  case untilClose =>
    rw [toldLength, if_neg not_zero_le_neg_one] at hnone
    exact ⟨hnone.symm, hfit⟩

end Transfer

namespace Message

variable {m : Message}

theorem isLine_statusLine : IsLine m.statusLine :=
  IsLine.append (IsLine.append ⟨by decide, by decide⟩ (isLine_decimal _)) m.reasonLine.space_cons

theorem statusLine_ne_nil : m.statusLine ≠ [] := by
  simp [statusLine]

theorem breakOn_text : breakOn headerEnd m.text = some (m.head, m.transfer.payload) :=
  breakOn_blockText isLine_statusLine statusLine_ne_nil

theorem answeredStatus_head : answeredStatus overflow m.head = Int32.ofNat m.status := by
  have ⟨rest, hs⟩ : ∃ rest, m.head =
      str "HTTP/1.1" ++ ([space] ++ ([] ++ decimal m.status ++ (space :: rest))) := by
    refine ⟨m.reason ++ (m.before ++ m.transfer.headers ++ m.behind).flatMap (crlf ++ ·.text), ?_⟩
    have hv : str "HTTP/1.1 " = str "HTTP/1.1" ++ [space] := by decide
    simp [head, blockText, statusLine, hv]
  have ha : after [space] m.head = some ([] ++ decimal m.status ++ (space :: rest)) := by
    rw [hs, after_inert (inert_of_not_mem (by decide)), after_append_self (by decide)]
  have hlt : m.status < 2 ^ 31 := Nat.lt_of_le_of_lt m.statusCode.right (by decide)
  rw [answeredStatus, ha]
  dsimp only
  rw [atoi_digits (by simp) decimal_ne_nil (fun _ => isDigit_of_mem_decimal) (by simp; decide),
    digitsValue_decimal, if_pos hlt]

theorem answeredLength_head :
    answeredLength overflow m.head = m.transfer.toldLength overflow := by
  have hn : ¬str "content-length:" <+: lowered m.statusLine := by
    have hl : lowered m.statusLine =
        0x68 :: lowered (str "TTP/1.1 " ++ decimal m.status ++ space :: m.reason) := by
      have hv : str "HTTP/1.1 " = 0x48 :: str "TTP/1.1 " := by decide
      simp [statusLine, hv, lowered]
      decide
    have hc : str "content-length:" = 0x63 :: str "ontent-length:" := by decide
    rw [hl, hc]
    exact fun hp => absurd (List.cons_prefix_cons.mp hp).left (by decide)
  rw [← m.transfer.scan_headers m.others, answeredLength, head,
    lines_blockText isLine_statusLine statusLine_ne_nil, scanContentLength, List.foldl_cons,
    if_neg hn]
  rfl

theorem readHttpResponse_eq (hb : m.transfer.payload = got ++ back.flatten)
    (hg : gather headerEnd (1024 * 1024) true [] chunks =
      if (m.head ++ headerEnd ++ got).length ≤ 1024 * 1024 then
        .done (m.head ++ headerEnd ++ got, back)
      else .refused) :
    readHttpResponse overflow true chunks = .done (Int32.ofNat m.status, m.body) ↔
      m.transfer.read overflow (m.head ++ headerEnd).length got = some m.body := by
  have hl : (m.head ++ headerEnd ++ got).length = (m.head ++ headerEnd).length + got.length :=
    List.length_append
  rw [readHttpResponse_arrived breakOn_text hb hg, answerArrived, answeredStatus_head,
    answeredLength_head, Transfer.read, hl]
  split_ifs <;> simp

def ReadWell (m : Message) : Prop :=
  m.transfer.ReadWell (m.head ++ headerEnd).length

theorem readWell_of_read (h : ∀ chunks, Cut 2048 m.text chunks →
    readHttpResponse overflow true chunks = .done (Int32.ofNat m.status, m.body)) :
    m.ReadWell := by
  apply Transfer.readWell_of_read
  intro got ⟨back, hb⟩ hl
  have ⟨chunks, hc, hg⟩ := exists_cut_arriving (n := 2048) (1024 * 1024) true breakOn_text
    headerEnd_ne_nil hb.symm (by omega)
  exact (readHttpResponse_eq (by simpa using hb.symm) hg).mp (h chunks hc)

theorem read_of_readWell (h : m.ReadWell) (hc : Cut 2048 m.text chunks) :
    readHttpResponse overflow true chunks = .done (Int32.ofNat m.status, m.body) := by
  have ⟨got, back, hb, ⟨c, hm, hl⟩, hg⟩ :=
    gather_arrives (1024 * 1024) true breakOn_text hc.whole headerEnd_ne_nil
  have hlen := (hc.sizes c hm).right
  exact (readHttpResponse_eq hb hg).mpr (Transfer.read_of_readWell h ⟨_, hb.symm⟩ (by omega))

theorem readHttpResponse_iff (overflow : Bytes → Int32) (m : Message) :
    (∀ chunks, Cut 2048 m.text chunks →
      readHttpResponse overflow true chunks = .done (Int32.ofNat m.status, m.body)) ↔
      m.ReadWell :=
  ⟨readWell_of_read, fun h _ hc => read_of_readWell h hc⟩

section Chunked

def plainHeader (name value : Bytes)
    (named : name ≠ [] ∧ colon ∉ name := by decide)
    (lines : cr ∉ name ++ value ∧ lf ∉ name ++ value := by decide) : HeaderLine where
  name := name
  value := value
  named := named
  nameLine := ⟨fun h => lines.1 (List.mem_append_left _ h),
    fun h => lines.2 (List.mem_append_left _ h)⟩
  valueLine := ⟨fun h => lines.1 (List.mem_append_right _ h),
    fun h => lines.2 (List.mem_append_right _ h)⟩

theorem isLine_ok : IsLine (str "OK") :=
  ⟨by decide, by decide⟩

-- Transfer-Encoding: chunked, and a body of one chunk.
def chunkedAnswer : Message where
  status := 200
  reason := "OK"
  before := []
  behind := []
  body := _
  transfer := .chunked (plainHeader "Transfer-Encoding" " chunked")
    [⟨"2", [], "hi", by decide, by decide, by decide⟩] ⟨"0", [], [], by decide, by decide, by decide⟩
    [] (by decide) (by decide) (by decide) rfl
  statusCode := by decide
  reasonLine := isLine_ok
  others := by simp

theorem not_readHttpResponse : ¬∀ (overflow : Bytes → Int32) (m : Message) (chunks : List Bytes),
    Cut 2048 m.text chunks →
      readHttpResponse overflow true chunks = .done (Int32.ofNat m.status, m.body) :=
  fun h => readWell_of_read (h (fun _ => 0) chunkedAnswer)

end Chunked
end Message

end Droidcli.Tools
