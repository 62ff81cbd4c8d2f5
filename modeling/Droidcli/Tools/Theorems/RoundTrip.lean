import Droidcli.Tools.Theorems.Responses

namespace Droidcli.Tools

open Bytes Net Cli Stream

variable {overflow : Bytes → Int32} {s head body got method host path url : Bytes}
  {chunks back : List Bytes} {headers : List HeaderLine} {closed : Bool}

section Parsing

theorem trimAscii_blanks {blanks : Bytes} (hb : ∀ c ∈ blanks, isTrimmed c)
    (h : ∀ c ∈ s, ¬isTrimmed c) : trimAscii (blanks ++ s) = s := by
  have hd {t : Bytes} (ht : ∀ c ∈ t, ¬isTrimmed c) : t.dropWhile isTrimmed = t := by
    cases t
    case nil      => rfl
    case cons c t => exact List.dropWhile_cons_of_neg (ht c (by simp))
  rw [trimAscii, List.dropWhile_append_of_pos hb, hd h, hd (by simpa using h),
    List.reverse_reverse]

theorem parseHeader_text (header : HeaderLine) :
    parseHeader header.text = some ⟨trimAscii header.name, trimAscii header.value⟩ := by
  have hb : breakOn [colon] (colon :: header.value) = some ([], header.value) := by
    simp [breakOn]
  rw [parseHeader, HeaderLine.text, breakOn_inert (inert_of_not_mem header.named.right), hb]
  simp

-- What a target says, in front of its first question mark and behind it.
def pathOf (target : Bytes) : Bytes :=
  target.takeWhile (· ≠ 0x3f)

def queryOf (target : Bytes) : Bytes :=
  (target.dropWhile (· ≠ 0x3f)).tail

theorem breakOn_target (target : Bytes) :
    breakOn [0x3f] target = if 0x3f ∈ target then some (pathOf target, queryOf target) else none := by
  induction target
  case nil => simp [breakOn]
  case cons c target hi =>
    by_cases hc : c = 0x3f
    case pos => simp [breakOn, hc, pathOf, queryOf]
    case neg =>
      have hc' : 0x3f ≠ c := Ne.symm hc
      rw [breakOn, if_neg (by simpa using hc'), hi]
      by_cases hm : 0x3f ∈ target <;> simp [hm, hc, hc', pathOf, queryOf]

theorem parseRequestLine_target {target : Bytes} (hm : ∀ c ∈ method, ¬isSpace c) (hn : method ≠ [])
    (ht : ∀ c ∈ target, ¬isSpace c) (hn' : target ≠ []) :
    parseRequestLine (method ++ space :: target ++ " HTTP/1.1") =
      some (parseMethod method, pathOf target, queryOf target) := by
  have hv : str " HTTP/1.1" = space :: str "HTTP/1.1" := by decide
  have hs : method ++ space :: target ++ " HTTP/1.1" =
      method ++ space :: (target ++ space :: str "HTTP/1.1") := by
    simp [hv]
  have hp : (str "HTTP/1.1").splitOnP isSpace = [str "HTTP/1.1"] := by decide
  have hw : (str "HTTP/1.1") ≠ [] := by decide
  rw [parseRequestLine, hs,
    List.splitOnP_append_cons_of_forall_mem (by simpa using hm) space (by decide),
    List.splitOnP_append_cons_of_forall_mem (by simpa using ht) space (by decide), hp]
  simp only [hn, hn', hw, ne_eq, not_false_eq_true, decide_true, List.filter_cons_of_pos,
    List.filter_nil, breakOn_target]
  split_ifs with hq
  case pos => rfl
  case neg =>
    have hp : pathOf target = target :=
      List.takeWhile_eq_self_iff.mpr fun c hc => by
        simpa using fun he : c = 0x3f => hq (he ▸ hc)
    have hn : target.dropWhile (· ≠ 0x3f) = [] :=
      List.dropWhile_eq_nil_iff.mpr fun c hc => by
        simpa using fun he : c = 0x3f => hq (he ▸ hc)
    rw [hp, queryOf, hn]
    rfl

end Parsing

section Request

-- A host that can stand in a line.
def hostHeader (host : Bytes) (h : IsLine host) : HeaderLine where
  name := "Host"
  value := space :: host
  named := by decide
  nameLine := ⟨by decide, by decide⟩
  valueLine := h.space_cons

def lengthHeader (body : Bytes) : HeaderLine where
  name := "Content-Length"
  value := space :: decimal body.length
  named := by decide
  nameLine := ⟨by decide, by decide⟩
  valueLine := (isLine_decimal _).space_cons

-- A header that may be asked for: its name is a word, and it does not tell the length.
structure HeaderLine.Extra (header : HeaderLine) : Prop where
  word  : ∀ c ∈ header.name, ¬isSpace c
  other : header.IsOther

def postHeaders (method body : Bytes) : List HeaderLine :=
  if method = str "POST" then
    [Message.plainHeader "Content-Type" " application/json", lengthHeader body]
  else []

def requestHeaders (method host body : Bytes) (h : IsLine host) (extra : List HeaderLine) :
    List HeaderLine :=
  [hostHeader host h, Message.plainHeader "Connection" " close"] ++ postHeaders method body ++ extra

-- A header as it is to arrive.
def HeaderLine.received (header : HeaderLine) : HttpHeader :=
  ⟨header.name, trimAscii header.value⟩

theorem flatMap_crlf (s : Bytes) : headers.flatMap (crlf ++ ·.text) ++ (crlf ++ s) =
    crlf ++ (headers.flatMap (·.text ++ crlf) ++ s) := by
  induction headers
  case nil => rfl
  case cons header headers hi =>
    rw [List.flatMap_cons, List.append_assoc, hi]
    simp

theorem postHeaders_text :
    (if method = str "POST" then "Content-Type: application/json\r\n" ++
        "Content-Length: " ++ decimal body.length ++ crlf else []) =
      (postHeaders method body).flatMap (·.text ++ crlf) := by
  have ht : str "Content-Type: application/json\r\n" =
      (Message.plainHeader "Content-Type" " application/json").text ++ crlf := by decide
  have hl : (lengthHeader body).text = "Content-Length: " ++ decimal body.length := by
    have hs : str "Content-Length: " = str "Content-Length" ++ [colon, space] := by decide
    simp [HeaderLine.text, lengthHeader, hs]
  rw [postHeaders]
  split_ifs
  case pos => simp [ht, hl]
  case neg => rfl

theorem requestText_eq (h : IsLine host) (hb : method = str "POST" ∨ body = []) :
    requestText method host path body (headers.map HeaderLine.text) =
      blockText (method ++ space :: path ++ " HTTP/1.1")
        (requestHeaders method host body h headers) ++ headerEnd ++ body := by
  have hv : str " HTTP/1.1\r\n" = str " HTTP/1.1" ++ crlf := by decide
  have hh : str "Host: " ++ host = (hostHeader host h).text := by
    have hs : str "Host: " = str "Host" ++ [colon, space] := by decide
    simp [HeaderLine.text, hostHeader, hs]
  have hc : str "Connection: close\r\n" =
      (Message.plainHeader "Connection" " close").text ++ crlf := by decide
  have hp : (if method = str "POST" then body else []) = body := by
    split_ifs with hm
    case pos => rfl
    case neg => exact (hb.resolve_left hm).symm
  have he : headerEnd = crlf ++ crlf := rfl
  have hs : blockText (method ++ space :: path ++ " HTTP/1.1")
      (requestHeaders method host body h headers) ++ headerEnd ++ body =
      method ++ space :: path ++ " HTTP/1.1" ++ (crlf ++
        ((requestHeaders method host body h headers).flatMap (·.text ++ crlf) ++ (crlf ++ body))) := by
    rw [← flatMap_crlf]
    simp only [blockText, he, List.append_assoc]
  rw [hs, requestText]
  simp only [postHeaders_text, hp, hv, hc, List.flatMap_map, requestHeaders]
  simp [← hh]

-- The method that is named, and what may be sent with it.
inductive Sends (body : Bytes) : Bytes → HttpMethod → Prop
  | get : body = [] → Sends body "GET" .get
  | post : Sends body "POST" .post

namespace Sends

variable {m : HttpMethod}

theorem carries (h : Sends body method m) : method = str "POST" ∨ body = [] := by
  cases h
  case get hb => exact .inr hb
  case post   => exact .inl rfl

theorem word (h : Sends body method m) : ∀ c ∈ method, ¬isSpace c := by
  cases h <;> decide

theorem ne_nil (h : Sends body method m) : method ≠ [] := by
  cases h <;> decide

theorem parse (h : Sends body method m) : parseMethod method = m := by
  cases h <;> decide

end Sends

theorem isLine_of_word (h : ∀ c ∈ s, ¬isSpace c) : IsLine s where
  cr hc := h cr hc (by decide)
  lf hc := h lf hc (by decide)

theorem not_isTrimmed_of_word (h : ∀ c ∈ s, ¬isSpace c) : ∀ c ∈ s, ¬isTrimmed c := by
  intro c hc ht
  apply h c hc
  simp only [isTrimmed, Bool.or_eq_true, decide_eq_true_eq] at ht
  obtain (rfl | rfl) | rfl := ht <;> decide

theorem HeaderLine.parse {header : HeaderLine} (h : ∀ c ∈ header.name, ¬isSpace c) :
    parseHeader header.text = some header.received := by
  have ht : trimAscii ([] ++ header.name) = header.name :=
    trimAscii_blanks (by simp) (not_isTrimmed_of_word h)
  rw [List.nil_append] at ht
  rw [parseHeader_text, received, ht]

variable {m : HttpMethod}

-- The headers that do not depend on the body are no different from those that are asked for.
theorem extra_fixed (h : IsLine host) : ∀ header ∈ [hostHeader host h,
    Message.plainHeader "Connection" " close",
    Message.plainHeader "Content-Type" " application/json"], header.Extra := by
  have hn : ∀ name ∈ ([str "Host", str "Connection", str "Content-Type"] : List Bytes),
      (∀ c ∈ name, ¬isSpace c) ∧ lowered name ≠ str "content-length" := by decide
  simp only [List.forall_mem_cons] at hn ⊢
  exact ⟨⟨hn.1.1, hn.1.2⟩, ⟨hn.2.1.1, hn.2.1.2⟩, ⟨hn.2.2.1.1, hn.2.2.1.2⟩, by simp⟩

theorem lengthHeader_name : (∀ c ∈ (lengthHeader body).name, ¬isSpace c) ∧
    ¬(lengthHeader body).IsOther := by
  have hn : (∀ c ∈ str "Content-Length", ¬isSpace c) ∧
      lowered "Content-Length" = str "content-length" := by decide
  exact ⟨hn.1, not_not.mpr hn.2⟩

theorem requestHeaders_words (h : IsLine host) (hx : ∀ header ∈ headers, header.Extra) :
    ∀ header ∈ requestHeaders method host body h headers, ∀ c ∈ header.name, ¬isSpace c := by
  have hf := extra_fixed h
  simp only [List.forall_mem_cons] at hf
  have hp : ∀ header ∈ postHeaders method body, ∀ c ∈ header.name, ¬isSpace c := by
    rw [postHeaders]
    split_ifs
    case pos =>
      simp only [List.forall_mem_cons]
      exact ⟨hf.2.2.1.word, lengthHeader_name.left, by simp⟩
    case neg => simp
  simp only [requestHeaders, List.forall_mem_append, List.forall_mem_cons]
  exact ⟨⟨⟨hf.1.word, hf.2.1.word, by simp⟩, hp⟩, fun header hm => (hx header hm).word⟩

-- The length that the server finds is that of the body.
theorem scan_requestHeaders (h : IsLine host) (hs : Sends body method m)
    (hx : ∀ header ∈ headers, header.Extra) (hl : body.length < 2 ^ 31) :
    scanContentLength overflow trimAscii 0
        ((requestHeaders method host body h headers).map HeaderLine.text) =
      Int32.ofNat body.length := by
  have hf := extra_fixed h
  simp only [List.forall_mem_cons] at hf
  have hx' : ∀ header ∈ headers, header.IsOther := fun header hm => (hx header hm).other
  cases hs
  case get hb =>
    have hp : postHeaders "GET" body = [] := rfl
    have ho : ∀ header ∈ requestHeaders "GET" host body h headers, header.IsOther := by
      simpa [requestHeaders, hp, or_imp, forall_and, hf.1.other, hf.2.1.other] using hx'
    rw [scan_others ho, hb]
    rfl
  case post =>
    have hr : requestHeaders "POST" host body h headers = [hostHeader host h,
        Message.plainHeader "Connection" " close",
        Message.plainHeader "Content-Type" " application/json"] ++ [lengthHeader body] ++ headers :=
      rfl
    have ho : ∀ header ∈ [hostHeader host h, Message.plainHeader "Connection" " close",
        Message.plainHeader "Content-Type" " application/json"] ++ headers, header.IsOther := by
      simpa [or_imp, forall_and, hf.1.other, hf.2.1.other, hf.2.2.1.other] using hx'
    have hd : ∀ c ∈ decimal body.length, ¬isTrimmed c :=
      not_isTrimmed_of_word fun c hc => (isDigit_ne (isDigit_of_mem_decimal hc)).2.2
    have hv : trimAscii (lengthHeader body).value = [] ++ decimal body.length ++ [] := by
      have ht : trimAscii ([space] ++ decimal body.length) = decimal body.length :=
        trimAscii_blanks (by decide) hd
      rw [List.nil_append, List.append_nil]
      exact ht
    have hn := (@lengthHeader_name body).right
    rw [hr, scan_told hn ho, text_drop hn, hv,
      atoi_digits (by simp) decimal_ne_nil (fun _ => isDigit_of_mem_decimal) (by simp),
      digitsValue_decimal, if_pos hl]

theorem parseHeaderBlock_request (h : IsLine host) (hs : Sends body method m)
    (hx : ∀ header ∈ headers, header.Extra) (hp : ∀ c ∈ path, ¬isSpace c) (hn : path ≠ [])
    (hl : body.length < 2 ^ 31) :
    parseHeaderBlock overflow (blockText (method ++ space :: path ++ " HTTP/1.1")
        (requestHeaders method host body h headers)) =
      some (⟨m, pathOf path, queryOf path, [],
        (requestHeaders method host body h headers).map HeaderLine.received⟩,
        Int32.ofNat body.length) := by
  have hline : IsLine (method ++ space :: path ++ " HTTP/1.1") :=
    IsLine.append (IsLine.append (isLine_of_word hs.word) (isLine_of_word hp).space_cons)
      ⟨by decide, by decide⟩
  have hparse : ((requestHeaders method host body h headers).map HeaderLine.text).filterMap
      parseHeader = (requestHeaders method host body h headers).map HeaderLine.received := by
    rw [List.filterMap_map, ← List.filterMap_eq_map]
    apply List.filterMap_congr
    exact fun header hm => HeaderLine.parse (requestHeaders_words h hx header hm)
  rw [parseHeaderBlock, lines_blockText hline (by simp)]
  simp only [parseRequestLine_target hs.word hs.ne_nil hp hn, hs.parse, hparse,
    scan_requestHeaders h hs hx hl, Option.map_some]

theorem parseHttpUrl_path_ne_nil : (parseHttpUrl overflow url).path ≠ [] := by
  have hs : str "/" ≠ [] := by decide
  rw [parseHttpUrl]
  dsimp only
  split
  case isTrue => exact hs
  case isFalse =>
    split
    all_goals
      dsimp only
      split <;> first | exact hs | simp

-- The requests that are to arrive as they were sent.
structure Sendable (overflow : Bytes → Int32) (method url body : Bytes) (extra : List HeaderLine)
    (m : HttpMethod) : Prop where
  sends : Sends body method m
  host  : IsLine (parseHttpUrl overflow url).host
  path  : ∀ c ∈ (parseHttpUrl overflow url).path, ¬isSpace c
  extra : ∀ header ∈ extra, header.Extra
  body  : body.length < 2 ^ 31

def Sendable.received {extra : List HeaderLine} (h : Sendable overflow method url body extra m) :
    HttpRequest where
  method := m
  path := pathOf (parseHttpUrl overflow url).path
  queryString := queryOf (parseHttpUrl overflow url).path
  body := body
  headers :=
    (requestHeaders method (parseHttpUrl overflow url).host body h.host extra).map
      HeaderLine.received

-- The headers of a text are no longer than that.
def HeadAtMost (n : Nat) (text : Bytes) : Prop :=
  ∀ head body, breakOn headerEnd text = some (head, body) → head.length ≤ n

theorem readRequest_sent {extra : List HeaderLine} {sent : Bytes}
    (h : Sendable overflow method url body extra m)
    (hs : syncHttpRequest overflow method url body (extra.map HeaderLine.text) = some sent)
    (hh : HeadAtMost 60000 sent) (hc : Cut 1024 sent chunks) :
    readRequest overflow closed chunks = .done h.received := by
  have hsent : sent = requestText method (parseHttpUrl overflow url).host
      (parseHttpUrl overflow url).path body (extra.map HeaderLine.text) := by
    simp only [syncHttpRequest] at hs
    split_ifs at hs
    case pos => exact (Option.some.inj hs).symm
  have hline : IsLine (method ++ space :: (parseHttpUrl overflow url).path ++ " HTTP/1.1") :=
    IsLine.append (IsLine.append (isLine_of_word h.sends.word) (isLine_of_word h.path).space_cons)
      ⟨by decide, by decide⟩
  rw [requestText_eq h.host h.sends.carries] at hsent
  have hb := hsent ▸ breakOn_blockText (s := body) hline (by simp)
  have hlen := hh _ _ hb
  have ⟨got, back, hbody, ⟨c, hm, hl⟩, hg⟩ :=
    gather_arrives 65536 closed hb hc.whole headerEnd_ne_nil
  have hgot := (hc.sizes c hm).right
  have ha := breakOn_arrived hb hbody
  have hfit : (blockText (method ++ space :: (parseHttpUrl overflow url).path ++ " HTTP/1.1")
      (requestHeaders method (parseHttpUrl overflow url).host body h.host extra) ++
      headerEnd ++ got).length ≤ 65536 := by
    have he : headerEnd.length = 4 := rfl
    rw [List.length_append, List.length_append, he]
    omega
  have hn : (Int32.ofNat body.length).toInt = body.length := Int32.toInt_ofNat_of_lt h.body
  have hfill : fill (fun size => ¬Int32.ofNat size < Int32.ofNat body.length) closed got back =
      .done body := by
    rw [hbody]
    apply fill_all
    case he => simp [← hbody]
    case hn =>
      intro k hk
      rw [← hbody] at hk ⊢
      have hk' : (Int32.ofNat k).toInt = k := Int32.toInt_ofNat_of_lt (by have := h.body; omega)
      simpa [Int32.lt_iff_toInt_lt, hk', hn] using hk
  have hparse := (parseHeaderBlock_request h.host h.sends h.extra h.path parseHttpUrl_path_ne_nil
    h.body : parseHeaderBlock overflow _ = _)
  rw [readRequest, hg, if_pos hfit]
  simp only [Outcome.bind, ha, hparse, hfill, hn, Int.toNat_natCast, List.take_length, ite_self]
  rfl

end Request

section Response

variable {response : HttpResponse}

theorem code_bounds (status : HttpStatus) : 100 ≤ status.code ∧ status.code ≤ 999 := by
  cases status <;> decide

def typeHeader (contentType : Bytes) (h : IsLine contentType) : HeaderLine where
  name := "Content-Type"
  value := space :: contentType
  named := by decide
  nameLine := ⟨by decide, by decide⟩
  valueLine := h.space_cons

theorem isOther_of_mem (response : HttpResponse) (h : IsLine response.contentType) :
    ∀ header ∈ [typeHeader response.contentType h] ++ [Message.plainHeader "Connection" " close"],
      header.IsOther := by
  have hn : ∀ name ∈ ([str "Content-Type", str "Connection"] : List Bytes),
      lowered name ≠ str "content-length" := by decide
  simp only [List.forall_mem_cons, List.cons_append, List.nil_append] at hn ⊢
  exact ⟨hn.1, hn.2.1, by simp⟩

-- What `write_response` writes is a response with a length.
def responseMessage (response : HttpResponse) (h : IsLine response.contentType) : Message where
  status := response.status.code
  reason := "OK"
  before := [typeHeader response.contentType h]
  behind := [Message.plainHeader "Connection" " close"]
  body := response.body
  transfer := .contentLength (lengthHeader response.body) response.body [space]
    (decimal response.body.length) [] (not_not.mp lengthHeader_name.right)
    (by simp [lengthHeader]) (by decide) decimal_ne_nil (fun _ => isDigit_of_mem_decimal)
    (digitsValue_decimal _)
  statusCode := code_bounds _
  reasonLine := Message.isLine_ok
  others := isOther_of_mem response h

theorem responseMessage_text (h : IsLine response.contentType) :
    (responseMessage response h).text = writeResponse response := by
  have hc : str "Connection: close\r\n\r\n" =
      (Message.plainHeader "Connection" " close").text ++ headerEnd := by decide
  have ho : str " OK\r\n" = space :: str "OK" ++ crlf := by decide
  have ht : str "Content-Type: " = str "Content-Type" ++ [colon, space] := by decide
  have hl : str "Content-Length: " = str "Content-Length" ++ [colon, space] := by decide
  simp [Message.text, Message.head, blockText, writeResponse, responseMessage, Transfer.headers,
    Transfer.payload, Message.statusLine, hc, ho, ht, hl, typeHeader, lengthHeader, HeaderLine.text]

-- What may come along with the headers of a response leaves them within the limit.
def HeadFits (response : HttpResponse) : Prop :=
  ∀ head body, breakOn headerEnd (writeResponse response) = some (head, body) →
    (head ++ headerEnd).length + min body.length 2047 ≤ 1024 * 1024

theorem responseMessage_readWell_iff (h : IsLine response.contentType) :
    (responseMessage response h).ReadWell ↔
      response.body.length < 2 ^ 31 ∧ HeadFits response := by
  have hb := responseMessage_text h ▸ Message.breakOn_text (m := responseMessage response h)
  rw [HeadFits, hb]
  simp [Message.ReadWell, responseMessage, Transfer.ReadWell, Transfer.payload]

theorem readHttpResponse_written (h : IsLine response.contentType)
    (hl : response.body.length < 2 ^ 31) (hf : HeadFits response)
    (hc : Cut 2048 (writeResponse response) chunks) :
    readHttpResponse overflow true chunks =
      .done (Int32.ofNat response.status.code, response.body) := by
  have hw := responseMessage_readWell_iff h |>.mpr ⟨hl, hf⟩
  exact Message.read_of_readWell hw (responseMessage_text h ▸ hc)

end Response

-- Either side understands the other, whatever the pieces that arrive.
theorem http_roundTrip (overflow : Bytes → Int32) :
    (∀ (method url body sent : Bytes) (extra : List HeaderLine) (m : HttpMethod) (closed : Bool)
        (chunks : List Bytes) (h : Sendable overflow method url body extra m),
      syncHttpRequest overflow method url body (extra.map HeaderLine.text) = some sent →
      HeadAtMost 60000 sent → Cut 1024 sent chunks →
      readRequest overflow closed chunks = .done h.received) ∧
    (∀ (response : HttpResponse) (chunks : List Bytes), IsLine response.contentType →
      response.body.length < 2 ^ 31 → HeadFits response →
      Cut 2048 (writeResponse response) chunks →
      readHttpResponse overflow true chunks =
        .done (Int32.ofNat response.status.code, response.body)) :=
  ⟨fun _ _ _ _ _ _ _ _ h hs hh hc => readRequest_sent h hs hh hc,
    fun _ _ h hl hf hc => readHttpResponse_written h hl hf hc⟩

section Wide

-- A response with a content type of `n` letters.
def wideResponse (n : Nat) : HttpResponse :=
  ⟨.ok, List.replicate n 0x61, []⟩

theorem isLine_wide (n : Nat) : IsLine (wideResponse n).contentType where
  cr hm := absurd (List.eq_of_mem_replicate hm) (by decide)
  lf hm := absurd (List.eq_of_mem_replicate hm) (by decide)

theorem wide_fits {n : Nat} (h : HeadFits (wideResponse n)) : n < 1024 * 1024 := by
  have hb := responseMessage_text (isLine_wide n) ▸
    Message.breakOn_text (m := responseMessage (wideResponse n) (isLine_wide n))
  have hfit := h _ _ hb
  have hn : n ≤ (responseMessage (wideResponse n) (isLine_wide n)).head.length := by
    simp [Message.head, blockText, responseMessage, typeHeader, HeaderLine.text, wideResponse]
    omega
  have he : headerEnd.length = 4 := rfl
  rw [List.length_append, he] at hfit
  omega

-- A content type of a mebibyte is too much for the client.
theorem not_readHttpResponse_written : ¬∀ (overflow : Bytes → Int32) (response : HttpResponse)
    (chunks : List Bytes), IsLine response.contentType → response.body.length < 2 ^ 31 →
      Cut 2048 (writeResponse response) chunks →
      readHttpResponse overflow true chunks =
        .done (Int32.ofNat response.status.code, response.body) := by
  intro h
  have hw : (responseMessage (wideResponse (1024 * 1024)) (isLine_wide _)).ReadWell := by
    apply Message.readWell_of_read
    intro chunks hc
    rw [responseMessage_text] at hc
    exact h (fun _ => 0) _ chunks (isLine_wide _) (by decide) hc
  have hfit := (responseMessage_readWell_iff (isLine_wide _)).mp hw
  exact absurd (wide_fits hfit.right) (Nat.lt_irrefl _)

end Wide

section Status

def statusUrl : Bytes := "http://localhost:8080/api/status?x"

def chatUrl : Bytes := "http://localhost:8080/ai/chat"

def chatBody : Bytes := "\x7b\"message\":\"hi\"\x7d"

def bearerHeader : HeaderLine :=
  Message.plainHeader "Authorization" " Bearer t"

theorem statusUrl_parsed : (parseHttpUrl (fun _ => 0) statusUrl).host = str "localhost" ∧
    (parseHttpUrl (fun _ => 0) statusUrl).path = str "/api/status?x" := by
  decide +kernel

theorem chatUrl_parsed : (parseHttpUrl (fun _ => 0) chatUrl).host = str "localhost" ∧
    (parseHttpUrl (fun _ => 0) chatUrl).path = str "/ai/chat" := by
  decide +kernel

theorem extra_bearer : ∀ header ∈ [bearerHeader], header.Extra := by
  have hn : (∀ c ∈ str "Authorization", ¬isSpace c) ∧
      lowered "Authorization" ≠ str "content-length" := by decide
  simp only [List.forall_mem_singleton]
  exact ⟨hn.left, hn.right⟩

theorem sendable_status : Sendable (fun _ => 0) "GET" statusUrl [] [bearerHeader] .get where
  sends := .get rfl
  host  := statusUrl_parsed.left ▸ ⟨by decide, by decide⟩
  path  := statusUrl_parsed.right ▸ by decide
  extra := extra_bearer
  body  := by decide

theorem sendable_chat : Sendable (fun _ => 0) "POST" chatUrl chatBody [bearerHeader] .post where
  sends := .post
  host  := chatUrl_parsed.left ▸ ⟨by decide, by decide⟩
  path  := chatUrl_parsed.right ▸ by decide
  extra := extra_bearer
  body  := by decide

theorem headAtMost_of_length {n : Nat} (h : s.length ≤ n) : HeadAtMost n s := by
  intro head body hb
  rw [breakOn_eq_some hb] at h
  simp only [List.length_append] at h
  omega

-- A request for the status, a message for the chat, and an answer, byte by byte.
theorem http_roundTrip_status :
    (∃ sent request,
      syncHttpRequest (fun _ => 0) "GET" statusUrl [] ([bearerHeader].map HeaderLine.text) =
        some sent ∧
      readRequest (fun _ => 0) false (singles sent) = .done request ∧
      request.path = str "/api/status" ∧ request.queryString = str "x") ∧
    (∃ sent request,
      syncHttpRequest (fun _ => 0) "POST" chatUrl chatBody ([bearerHeader].map HeaderLine.text) =
        some sent ∧
      readRequest (fun _ => 0) false (singles sent) = .done request ∧
      request.path = str "/ai/chat" ∧ request.body = chatBody) ∧
    readHttpResponse (fun _ => 0) true (singles (writeResponse ⟨.ok, "text/plain", "hi"⟩)) =
      .done (200, str "hi") := by
  have hget : syncHttpRequest (fun _ => 0) "GET" statusUrl []
      ([bearerHeader].map HeaderLine.text) =
      some (requestText "GET" "localhost" "/api/status?x" [] ["Authorization: Bearer t"]) := by
    decide +kernel
  have hpost : syncHttpRequest (fun _ => 0) "POST" chatUrl chatBody
      ([bearerHeader].map HeaderLine.text) =
      some (requestText "POST" "localhost" "/ai/chat" chatBody ["Authorization: Bearer t"]) := by
    decide +kernel
  have ⟨hreq, hres⟩ := http_roundTrip fun _ => 0
  refine ⟨⟨_, sendable_status.received, hget, ?_, ?_, ?_⟩,
    ⟨_, sendable_chat.received, hpost, ?_, ?_, rfl⟩, ?_⟩
  case refine_1 =>
    exact hreq _ _ _ _ _ _ false _ sendable_status hget (headAtMost_of_length (by decide +kernel))
      (cut_singles (by decide))
  case refine_2 =>
    rw [Sendable.received, statusUrl_parsed.right]
    decide +kernel
  case refine_3 =>
    rw [Sendable.received, statusUrl_parsed.right]
    decide +kernel
  case refine_4 =>
    exact hreq _ _ _ _ _ _ false _ sendable_chat hpost (headAtMost_of_length (by decide +kernel))
      (cut_singles (by decide))
  case refine_5 =>
    rw [Sendable.received, chatUrl_parsed.right]
    decide +kernel
  case refine_6 =>
    have hf : HeadFits ⟨.ok, "text/plain", "hi"⟩ := by
      intro head body hb
      have hl := congrArg List.length (breakOn_eq_some hb)
      have hlen : (writeResponse ⟨.ok, "text/plain", "hi"⟩).length < 200 := by decide +kernel
      rw [hl] at hlen
      simp only [List.length_append] at hlen ⊢
      omega
    exact hres ⟨.ok, "text/plain", "hi"⟩ _ ⟨by decide, by decide⟩ (by decide) hf
      (cut_singles (by decide))

end Status

end Droidcli.Tools
