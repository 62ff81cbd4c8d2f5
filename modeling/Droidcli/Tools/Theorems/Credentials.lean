import Droidcli.Tools.Theorems.Gate
import Droidcli.Tools.Theorems.RoundTrip

namespace Droidcli.Tools

open Bytes Net Cli Stream

variable {overflow : Bytes → Int32} {closed : Bool} {chunks : List Bytes} {request : HttpRequest}
  {apiToken s line : Bytes}

section Parsing

theorem prefix_of_getLines {lines : List Bytes} (h : getLines s = line :: lines) : line <+: s := by
  induction s generalizing line lines
  case nil => simp [getLines] at h
  case cons c s hi =>
    rw [getLines] at h
    split at h
    case isTrue => exact (List.cons.inj h).left ▸ List.nil_prefix
    case isFalse =>
      split at h
      case h_1    => exact (List.cons.inj h).left ▸ List.prefix_append [c] s
      case h_2 hl => exact (List.cons.inj h).left ▸ (List.prefix_cons_inj c).mpr (hi hl)

theorem infix_of_mem_getLines (h : line ∈ getLines s) : line <:+: s := by
  induction s generalizing line
  case nil => simp [getLines] at h
  case cons c s hi =>
    have hs : s <:+: c :: s := (List.suffix_cons c s).isInfix
    cases hl : getLines (c :: s)
    case nil => simp [hl] at h
    case cons first lines =>
      rw [hl] at h
      rcases List.mem_cons.mp h with rfl | h
      case inl => exact (prefix_of_getLines hl).isInfix
      case inr =>
        rw [getLines] at hl
        split at hl
        case isTrue => exact (hi ((List.cons.inj hl).right ▸ h)).trans hs
        case isFalse =>
          split at hl
          case h_1 => simp [← (List.cons.inj hl).right] at h
          case h_2 hl' =>
            have hm : line ∈ getLines s :=
              hl' ▸ List.mem_cons_of_mem _ ((List.cons.inj hl).right ▸ h)
            exact (hi hm).trans hs

theorem dropCr_prefix_self : dropCr line <+: line := by
  rw [dropCr]
  split
  case isTrue  => exact List.dropLast_prefix line
  case isFalse => exact List.prefix_rfl

theorem trimAscii_infix_self {value : Bytes} : trimAscii value <:+: value := by
  have hd : (value.dropWhile isTrimmed) <:+ value := List.dropWhile_suffix _
  refine List.IsInfix.trans ?_ hd.isInfix
  have ht := List.dropWhile_suffix (l := (value.dropWhile isTrimmed).reverse) isTrimmed
  exact (List.reverse_suffix.mp (by simpa [trimAscii] using ht)).isInfix

theorem parseHeader_sent {header : HttpHeader} (h : parseHeader line = some header) :
    header.value <:+: line := by
  obtain ⟨⟨name, value⟩, hb, rfl⟩ := Option.map_eq_some_iff.mp h
  have hs := breakOn_eq_some hb
  exact trimAscii_infix_self.trans ⟨name ++ [colon], [], by simp [hs]⟩

-- Whatever a header is said to be, its value has been sent.
theorem parseHeaderBlock_sent {n : Int32} (h : parseHeaderBlock overflow s = some (request, n)) :
    ∀ header ∈ request.headers, header.value <:+: s := by
  intro header hm
  rw [parseHeaderBlock] at h
  split at h
  case h_1 => contradiction
  case h_2 line lines hl =>
    obtain ⟨⟨method, path, queryString⟩, _, hr⟩ := Option.map_eq_some_iff.mp h
    obtain ⟨rfl, _⟩ := Prod.mk.inj hr
    obtain ⟨line', hline, hh⟩ := List.mem_filterMap.mp hm
    have hline : line' ∈ (getLines s).map dropCr := hl ▸ List.mem_cons_of_mem _ hline
    obtain ⟨sent, hsent, rfl⟩ := List.mem_map.mp hline
    have hl := dropCr_prefix_self.isInfix.trans (infix_of_mem_getLines hsent)
    exact (parseHeader_sent hh).trans hl

theorem gather_whole {needle buffer : Bytes} {limit : Nat} {r : Bytes × List Bytes}
    (h : gather needle limit closed buffer chunks = .done r) :
    r.1 ++ r.2.flatten = buffer ++ chunks.flatten := by
  induction chunks generalizing buffer
  case nil =>
    rw [gather] at h
    split_ifs at h
    case pos =>
      obtain rfl := Outcome.done.inj h
      rfl
  case cons c chunks hi =>
    rw [gather] at h
    split_ifs at h
    case pos =>
      obtain rfl := Outcome.done.inj h
      rfl
    case neg => simpa using hi h

theorem readRequest_value_sent (h : readRequest overflow closed chunks = .done request) :
    ∀ header ∈ request.headers, header.value <:+: chunks.flatten := by
  rw [readRequest] at h
  cases hg : gather headerEnd 65536 closed [] chunks
  case waiting => simp [hg, Outcome.bind] at h
  case refused => simp [hg, Outcome.bind] at h
  case done r =>
    have hw : r.1 ++ r.2.flatten = chunks.flatten := gather_whole hg
    rw [hg] at h
    dsimp only [Outcome.bind] at h
    split at h
    case h_1 => contradiction
    case h_2 headerBlock bodyPrefix hb =>
      have hblock : headerBlock <:+: chunks.flatten :=
        ⟨[], headerEnd ++ bodyPrefix ++ r.2.flatten, by simp [← hw, breakOn_eq_some hb]⟩
      split at h
      case h_1 => contradiction
      case h_2 parsed n hp =>
        split at h
        case h_3 =>
          obtain rfl := Outcome.done.inj h
          exact fun header hm => (parseHeaderBlock_sent hp header hm).trans hblock
        all_goals contradiction

end Parsing

section Token

theorem isAuthorized_header (h : isAuthorized request apiToken) :
    ∃ header ∈ request.headers, header.value = str "Bearer " ++ apiToken := by
  have hn : apiToken ≠ [] := fun hn => by simp [isAuthorized, hn] at h
  simp only [isAuthorized, if_neg hn] at h
  split at h
  case isFalse => contradiction
  case isTrue hp =>
    obtain ⟨token, ht⟩ := hp
    rw [← ht, List.drop_left, decide_eq_true_eq] at h
    rw [findHeaderValue] at ht
    split at ht
    case h_1 header hf => exact ⟨header, List.mem_of_find?_eq_some hf, h ▸ ht.symm⟩
    case h_2 => exact absurd (h ▸ (List.append_eq_nil_iff.mp ht).right) hn

theorem authorization_named : str "Authorization" ≠ [] ∧ colon ∉ str "Authorization" := by decide

theorem isLine_authorization : IsLine "Authorization" := ⟨by decide, by decide⟩

theorem isLine_bearer : IsLine "Bearer " := ⟨by decide, by decide⟩

-- A client of the daemon that puts the token where it belongs.
def tokenHeader (apiToken : Bytes) (h : IsLine apiToken) : HeaderLine where
  name := "Authorization"
  value := space :: (str "Bearer " ++ apiToken)
  named := authorization_named
  nameLine := isLine_authorization
  valueLine := (isLine_bearer.append h).space_cons

theorem trimAscii_token (h : ∀ c ∈ apiToken, ¬isSpace c) (hn : apiToken ≠ []) :
    trimAscii (space :: (str "Bearer " ++ apiToken)) = str "Bearer " ++ apiToken := by
  obtain ⟨front, last, rfl⟩ := List.eq_nil_or_concat apiToken |>.resolve_left hn
  have hl : isTrimmed last = false := by
    simpa using not_isTrimmed_of_word h last (by simp)
  have hs : isTrimmed space = true ∧ isTrimmed 0x42 = false := by decide
  have hb : str "Bearer " = 0x42 :: str "earer " := by decide
  rw [trimAscii, hb, List.cons_append, List.dropWhile_cons_of_pos hs.left,
    List.dropWhile_cons_of_neg (by simp [hs.right])]
  simp [hl]

variable {method url body : Bytes} {m : HttpMethod}

theorem received_isAuthorized {hl : IsLine apiToken} (hw : ∀ c ∈ apiToken, ¬isSpace c)
    (hn : apiToken ≠ []) (h : Sendable overflow method url body [tokenHeader apiToken hl] m) :
    isAuthorized h.received apiToken := by
  have hnames : lowered "Host" ≠ str "authorization" ∧ lowered "Connection" ≠ str "authorization" ∧
      lowered "Content-Type" ≠ str "authorization" ∧
      lowered "Content-Length" ≠ str "authorization" ∧
      lowered "Authorization" = str "authorization" := by decide
  have hv : findHeaderValue h.received "authorization" = str "Bearer " ++ apiToken := by
    by_cases hp : method = str "POST" <;>
      simp [findHeaderValue, Sendable.received, requestHeaders, postHeaders, HeaderLine.received,
        hostHeader, Message.plainHeader, lengthHeader, tokenHeader, hnames, hp,
        trimAscii_token hw hn]
  rw [isAuthorized, if_neg hn]
  simp [hv]

theorem pollOnce_authorized (h : isAuthorized request apiToken) :
    pollOnce apiToken request ≠ .unauthorized := by
  simp only [pollOnce, h, Bool.not_true, Bool.and_false, Bool.false_eq_true, ↓reduceIte]
  split
  case h_1 => exact Served.noConfusion
  case h_2 => split <;> exact Served.noConfusion

theorem pollOnce_admitted {call : HostCall} (hu : pollOnce apiToken request ≠ .unauthorized)
    (hd : RouteTable.dispatch request = none) (hc : customDispatch request = some call) :
    pollOnce apiToken request = .custom call := by
  rw [pollOnce] at hu ⊢
  split
  case isTrue h  => exact absurd (if_pos h) hu
  case isFalse h => simp [hd, hc]

end Token

-- The bytes of a request that the server serves behind its gate have the token in them, however
-- they arrive, but for the spellings that get around it. A client that sends the token, a word, is
-- not refused.
theorem token_gate (overflow : Bytes → Int32) (apiToken : Bytes) (closed : Bool) :
    (∀ (chunks : List Bytes) (request : HttpRequest),
      readRequest overflow closed chunks = .done request →
      (∃ call, pollOnce apiToken request = .custom call) ∨
        pollOnce apiToken request = .handled .aiChat ∧ ¬UngatedSpelling request →
      (str "Bearer " ++ apiToken) <:+: chunks.flatten) ∧
    (∀ (method url body sent : Bytes) (m : HttpMethod) (chunks : List Bytes)
        (hl : IsLine apiToken) (h : Sendable overflow method url body [tokenHeader apiToken hl] m),
      apiToken ≠ [] → (∀ c ∈ apiToken, ¬isSpace c) →
      syncHttpRequest overflow method url body [(tokenHeader apiToken hl).text] = some sent →
      HeadAtMost 60000 sent → Cut 1024 sent chunks →
      readRequest overflow closed chunks = .done h.received ∧
        pollOnce apiToken h.received ≠ .unauthorized) := by
  constructor
  case left =>
    intro chunks request hr hs
    have ha : isAuthorized request apiToken := by
      rcases hs with ⟨call, hc⟩ | ⟨hc, hu⟩
      case inl => exact isAuthorized_of_pollOnce_custom hc
      case inr => exact by_contra fun hn => hu ((pollOnce_aiChat_iff hn).mp hc)
    obtain ⟨header, hm, hv⟩ := isAuthorized_header ha
    exact hv ▸ readRequest_value_sent hr header hm
  case right =>
    intro method url body sent m chunks hl h hn hw hs hh hc
    exact ⟨readRequest_sent h hs hh hc, pollOnce_authorized (received_isAuthorized hw hn h)⟩

section Status

theorem isLine_t : IsLine "t" := ⟨by decide, by decide⟩

theorem sendable_token :
    Sendable (fun _ => 0) "GET" statusUrl [] [tokenHeader "t" isLine_t] .get where
  sends := .get rfl
  host  := statusUrl_parsed.left ▸ ⟨by decide, by decide⟩
  path  := statusUrl_parsed.right ▸ by decide
  extra := by
    have hn : (∀ c ∈ str "Authorization", ¬isSpace c) ∧
        lowered "Authorization" ≠ str "content-length" := by decide
    simp only [List.forall_mem_singleton]
    exact ⟨hn.left, hn.right⟩
  body  := by decide

-- The status is asked for byte by byte, with the token.
theorem token_gate_status : ∃ sent request,
    readRequest (fun _ => 0) false (singles sent) = .done request ∧
      pollOnce "t" request ≠ .unauthorized ∧ (str "Bearer t" <:+: (singles sent).flatten) := by
  have hs : syncHttpRequest (fun _ => 0) "GET" statusUrl []
      [(tokenHeader "t" isLine_t).text] =
      some (requestText "GET" "localhost" "/api/status?x" [] ["Authorization: Bearer t"]) := by
    decide +kernel
  have ⟨hsound, hserved⟩ := token_gate (fun _ => 0) "t" false
  have hr := hserved "GET" statusUrl [] _ .get _ isLine_t sendable_token (by decide) (by decide) hs
    (headAtMost_of_length (by decide +kernel)) (cut_singles (by decide))
  have hp : RouteTable.dispatch sendable_token.received = none ∧
      customDispatch sendable_token.received = some .buildStatusJson := by
    rw [Sendable.received, statusUrl_parsed.right]
    exact ⟨by decide +kernel, rfl⟩
  have hc := pollOnce_admitted hr.right hp.left hp.right
  exact ⟨_, _, hr.left, hr.right, hsound _ _ hr.left (.inl ⟨_, hc⟩)⟩

end Status

end Droidcli.Tools
