import Droidcli.Tools.MiniHttpServer
import Mathlib.Tactic.SplitIfs

namespace Droidcli.Tools

open Bytes Net Cli Stream

variable {overflow : Bytes → Int32} {n : Int32} {m : Nat} {s head body got : Bytes}
  {chunks back : List Bytes} {request : HttpRequest}

section Sizes

theorem toInt_ofNat_le (m : Nat) : (Int32.ofNat m).toInt ≤ m := by
  by_cases h : m < 2 ^ 31
  case pos => exact Int.le_of_eq (Int32.toInt_ofNat_of_lt h)
  case neg =>
    have := Int32.toInt_lt (Int32.ofNat m)
    omega

-- A reader that stops has what it wants.
theorem toNat_le_of_not_lt (h : ¬Int32.ofNat m < n) : n.toInt.toNat ≤ m := by
  have h := Int.not_lt.mp (Int32.lt_iff_toInt_lt.not.mp h)
  have := toInt_ofNat_le m
  omega

theorem not_lt_of_not_pos (h : ¬0 < n) (hm : m < 2 ^ 31) : ¬Int32.ofNat m < n := by
  rw [Int32.lt_iff_toInt_lt] at h ⊢
  have hz : (0 : Int32).toInt = 0 := rfl
  rw [Int32.toInt_ofNat_of_lt hm]
  omega

end Sizes

theorem headerEnd_ne_nil : headerEnd ≠ [] := by
  decide

-- What a request comes to when `got` has arrived with its headers.
def readArrived (overflow : Bytes → Int32) (head body got : Bytes) : Outcome HttpRequest :=
  if (head ++ headerEnd ++ got).length ≤ 65536 then
    match parseHeaderBlock overflow head with
    | none              => .refused
    | some (request, n) =>
      .done { request with body := if 0 < n then body.take n.toInt.toNat else got }
  else .refused

theorem readRequest_arrived (h : breakOn headerEnd s = some (head, body))
    (hb : body = got ++ back.flatten)
    (hg : gather headerEnd 65536 true [] chunks =
      if (head ++ headerEnd ++ got).length ≤ 65536 then .done (head ++ headerEnd ++ got, back)
      else .refused) :
    readRequest overflow true chunks = readArrived overflow head body got := by
  rw [readRequest, hg, readArrived]
  split_ifs with hl
  case neg => rfl
  case pos =>
    have ha := breakOn_arrived h hb
    simp only [Outcome.bind, ha]
    cases hp : parseHeaderBlock overflow head
    case none => rfl
    case some r =>
      obtain ⟨request, n⟩ := r
      dsimp only
      by_cases hn : 0 < n
      case neg =>
        have hs : ¬Int32.ofNat got.length < n := by
          apply not_lt_of_not_pos hn
          simp only [List.length_append] at hl
          omega
        rw [fill_of_enough (by simpa using hs)]
        simp [hn]
      case pos =>
        have he (m : Nat) (h : decide ¬Int32.ofNat m < n) : n.toInt.toNat ≤ m :=
          toNat_le_of_not_lt (of_decide_eq_true h)
        obtain ⟨t, hf, ht⟩ := @fill_take got back _ _ he
        rw [hf]
        simp only [if_pos hn, ht, ← hb]

-- In front of its body a request is 64 KiB at most, with all that may come along with its blank
-- line, and there is a body only where its length is declared.
def Seamless (overflow : Bytes → Int32) (s : Bytes) : Prop :=
  ∀ head body, breakOn headerEnd s = some (head, body) → (head ++ headerEnd).length ≤ 65536 →
    ∀ request n, parseHeaderBlock overflow head = some (request, n) →
    body = [] ∨ (0 < n ∧ (head ++ headerEnd).length + min body.length 1023 ≤ 65536)

theorem readRequest_without (h : breakOn headerEnd s = none) (hc : Cut 1024 s chunks) :
    readRequest overflow true chunks = .refused := by
  have hn : ¬contains headerEnd ([] ++ chunks.flatten) := by simp [hc.whole, contains, h]
  rw [readRequest, gather_without hn]
  rfl

theorem Seamless.readArrived (hs : Seamless overflow s) (h : breakOn headerEnd s = some (head, body))
    (hp : got <+: body) (hg : got.length ≤ 1023) :
    readArrived overflow head body got = readArrived overflow head body [] := by
  have hm : got.length ≤ min body.length 1023 := Nat.le_min.mpr ⟨hp.length_le, hg⟩
  rw [Tools.readArrived, Tools.readArrived, List.append_nil]
  by_cases hl : (head ++ headerEnd).length ≤ 65536
  case neg =>
    have hl' : ¬(head ++ headerEnd ++ got).length ≤ 65536 := by
      rw [List.length_append]
      omega
    rw [if_neg hl, if_neg hl']
  case pos =>
    cases hr : parseHeaderBlock overflow head
    case none => simp only [ite_self]
    case some r =>
      have ⟨request, n⟩ := r
      cases hs head body h hl request n hr
      case inl hb =>
        rw [hb, List.prefix_nil] at hp
        simp [hp]
      case inr hn =>
        have hl' : (head ++ headerEnd ++ got).length ≤ 65536 := by
          rw [List.length_append]
          omega
        simp only [if_pos hl, if_pos hl', if_pos hn.left]

theorem Seamless.independent (hs : Seamless overflow s) (hc : Cut 1024 s chunks)
    {chunks' : List Bytes} (hc' : Cut 1024 s chunks') :
    readRequest overflow true chunks = readRequest overflow true chunks' := by
  cases h : breakOn headerEnd s
  case none => rw [readRequest_without h hc, readRequest_without h hc']
  case some r =>
    have ⟨head, body⟩ := r
    have arrives {chunks : List Bytes} (hc : Cut 1024 s chunks) :
        readRequest overflow true chunks = Tools.readArrived overflow head body [] := by
      have ⟨got, back, hb, ⟨c, hm, hl⟩, hg⟩ :=
        gather_arrives 65536 true h hc.whole headerEnd_ne_nil
      have := (hc.sizes c hm).right
      rw [readRequest_arrived h hb hg]
      exact hs.readArrived h ⟨_, hb.symm⟩ (by omega)
    rw [arrives hc, arrives hc']

-- What came along with the headers shows wherever the stream is not seamless.
theorem seamless_of_independent
    (hi : ∀ chunks chunks', Cut 1024 s chunks → Cut 1024 s chunks' →
      readRequest overflow true chunks = readRequest overflow true chunks') :
    Seamless overflow s := by
  intro head body h hl request n hr
  by_cases hb : body = []
  case pos => exact .inl hb
  case neg =>
    have arriving {got back : Bytes} (hs : body = got ++ back) (hg : got.length < 1024) :
        ∃ chunks, Cut 1024 s chunks ∧
          readRequest overflow true chunks = readArrived overflow head body got := by
      have ⟨chunks, hc, hg⟩ := exists_cut_arriving 65536 true h headerEnd_ne_nil hs hg
      exact ⟨chunks, hc, readRequest_arrived h (by simpa using hs) hg⟩
    have ⟨chunks, hc, ha⟩ := arriving (List.nil_append body).symm (by decide)
    have ⟨chunks', hc', ha'⟩ := arriving (List.take_append_drop 1023 body).symm (by
      rw [List.length_take]
      omega)
    have he := hi chunks chunks' hc hc'
    have hlen : (body.take 1023).length = min body.length 1023 := by
      rw [List.length_take, Nat.min_comm]
    rw [ha, ha', readArrived, readArrived, List.append_nil, if_pos hl, hr] at he
    split_ifs at he with hl'
    case pos =>
      rw [List.length_append, hlen] at hl'
      refine .inr ⟨?_, hl'⟩
      by_contra hn
      simp only [if_neg hn, Outcome.done.injEq, HttpRequest.mk.injEq] at he
      have hz : body.take 1023 = [] := he.2.2.2.1.symm
      exact hb ((List.take_eq_nil_iff.mp hz).resolve_left (by decide))

theorem readRequest_independent_iff (overflow : Bytes → Int32) (s : Bytes) :
    (∀ chunks chunks', Cut 1024 s chunks → Cut 1024 s chunks' →
      readRequest overflow true chunks = readRequest overflow true chunks') ↔
      Seamless overflow s :=
  ⟨seamless_of_independent, fun hs _ _ hc hc' => hs.independent hc hc'⟩

-- A message without a length: its text is lost, or not.
theorem not_readRequest_independent : ¬∀ (overflow : Bytes → Int32) (s : Bytes) (chunks chunks'),
    Cut 1024 s chunks → Cut 1024 s chunks' →
      readRequest overflow true chunks = readRequest overflow true chunks' := by
  intro h
  have hl : Seamless (fun _ => 0) (str "POST /notify HTTP/1.1\r\n\r\nhi") :=
    seamless_of_independent (h _ _)
  have hb : breakOn headerEnd (str "POST /notify HTTP/1.1\r\n\r\nhi") =
      some (str "POST /notify HTTP/1.1", str "hi") := by decide +kernel
  have hp : parseHeaderBlock (fun _ => 0) (str "POST /notify HTTP/1.1") =
      some (⟨.post, str "/notify", [], [], []⟩, 0) := by rfl
  cases hl _ _ hb (by decide +kernel) _ _ hp
  case inl h => exact absurd h (by decide)
  case inr h => exact absurd h.left (by decide)

end Droidcli.Tools
