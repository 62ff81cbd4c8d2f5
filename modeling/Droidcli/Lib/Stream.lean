import Droidcli.Lib.Bytes

namespace Stream

open Bytes

-- A text as it arrives: in pieces of at most `n` bytes.
structure Cut (n : Nat) (s : Bytes) (chunks : List Bytes) : Prop where
  whole : chunks.flatten = s
  sizes : ∀ c ∈ chunks, 0 < c.length ∧ c.length ≤ n

-- What a reader comes to. A reader that waits does so for a piece that never arrives.
inductive Outcome (α : Type) : Type
  | waiting
  | refused
  | done (a : α)
  deriving DecidableEq

def Outcome.bind {α β : Type} : Outcome α → (α → Outcome β) → Outcome β
  | waiting, _ => waiting
  | refused, _ => refused
  | done a, f  => f a

-- Reads until `needle` has arrived. Too long a text is refused, and so is one that ends before.
def gather (needle : Bytes) (limit : Nat) (closed : Bool) :
    Bytes → List Bytes → Outcome (Bytes × List Bytes)
  | buffer, []          =>
    if contains needle buffer then .done (buffer, []) else if closed then .refused else .waiting
  | buffer, c :: chunks =>
    if contains needle buffer then .done (buffer, c :: chunks)
    else if limit < (buffer ++ c).length then .refused
    else gather needle limit closed (buffer ++ c) chunks

-- Reads until there is enough, or nothing more to come.
def fill (enough : Nat → Bool) (closed : Bool) : Bytes → List Bytes → Outcome Bytes
  | buffer, []          =>
    if enough buffer.length then .done buffer else if closed then .done buffer else .waiting
  | buffer, c :: chunks =>
    if enough buffer.length then .done buffer else fill enough closed (buffer ++ c) chunks

variable {n limit : Nat} {needle buffer s head body c : Bytes} {chunks front back : List Bytes}
  {closed : Bool}

-- The finest way to cut a text.
def singles (s : Bytes) : List Bytes :=
  s.map fun c => [c]

@[simp]
theorem flatten_singles : (singles s).flatten = s := by
  induction s
  case nil          => rfl
  case cons c s hi => simpa [singles] using hi

theorem cut_singles (h : 0 < n) : Cut n s (singles s) where
  whole   := flatten_singles
  sizes c hc := by
    have ⟨b, _, he⟩ := List.mem_map.mp hc
    exact he ▸ ⟨by simp, h⟩

-- A text whose bytes arrive one by one, save for one piece in its midst.
theorem cut_midst {t u : Bytes} (hc : 0 < c.length ∧ c.length ≤ n) :
    Cut n (t ++ (c ++ u)) (singles t ++ c :: singles u) where
  whole := by simp
  sizes d hd := by
    have hn : 0 < n := Nat.lt_of_lt_of_le hc.left hc.right
    cases List.mem_append.mp hd
    case inl hd => exact (cut_singles hn).sizes d hd
    case inr hd =>
      cases List.mem_cons.mp hd
      case inl hd => exact hd ▸ hc
      case inr hd => exact (cut_singles hn).sizes d hd

section Gather

theorem gather_of_contains (h : contains needle buffer) :
    gather needle limit closed buffer chunks = .done (buffer, chunks) := by
  cases chunks <;> simp [gather, h]

theorem not_contains_left {t : Bytes} (h : ¬contains needle (buffer ++ t)) :
    ¬contains needle buffer := by
  rw [contains_iff] at h ⊢
  exact fun hb => h (hb.trans (List.infix_append' [] buffer t))

-- The piece that completes the needle decides.
theorem gather_at (hf : ¬contains needle (buffer ++ front.flatten))
    (hc : contains needle (buffer ++ front.flatten ++ c)) :
    gather needle limit closed buffer (front ++ c :: back) =
      if (buffer ++ front.flatten ++ c).length ≤ limit then
        .done (buffer ++ front.flatten ++ c, back)
      else .refused := by
  induction front generalizing buffer
  case nil =>
    simp only [List.flatten_nil, List.append_nil, List.nil_append] at hf hc ⊢
    rw [gather, if_neg hf, gather_of_contains hc]
    by_cases hl : (buffer ++ c).length ≤ limit
    case pos => rw [if_pos hl, if_neg (Nat.not_lt.mpr hl)]
    case neg => rw [if_neg hl, if_pos (Nat.lt_of_not_le hl)]
  case cons d front hi =>
    have hs : buffer ++ (d :: front).flatten = (buffer ++ d) ++ front.flatten := by simp
    rw [hs] at hf hc ⊢
    rw [List.cons_append, gather, if_neg (not_contains_left (not_contains_left hf))]
    by_cases hl : limit < (buffer ++ d).length
    case pos =>
      have hn : ¬(buffer ++ d ++ front.flatten ++ c).length ≤ limit := by
        simp only [List.length_append] at hl ⊢
        omega
      rw [if_pos hl, if_neg hn]
    case neg => rw [if_neg hl, hi hf hc]

-- Without the needle nothing is ever read to an end.
theorem gather_without (h : ¬contains needle (buffer ++ chunks.flatten)) :
    gather needle limit true buffer chunks = .refused := by
  induction chunks generalizing buffer
  case nil =>
    rw [gather, if_neg (by simpa using h), if_pos rfl]
  case cons c chunks hi =>
    have hs : buffer ++ (c :: chunks).flatten = (buffer ++ c) ++ chunks.flatten := by simp
    rw [hs] at h
    rw [gather, if_neg (not_contains_left (not_contains_left h)), hi h, ite_self]

-- Some piece completes the needle.
theorem exists_completing (hf : ¬contains needle buffer)
    (hc : contains needle (buffer ++ chunks.flatten)) :
    ∃ front c back, chunks = front ++ c :: back ∧ ¬contains needle (buffer ++ front.flatten) ∧
      contains needle (buffer ++ front.flatten ++ c) := by
  induction chunks generalizing buffer
  case nil => exact absurd (by simpa using hc) hf
  case cons d chunks hi =>
    by_cases hd : contains needle (buffer ++ d)
    case pos => exact ⟨[], d, chunks, rfl, by simpa using hf, by simpa using hd⟩
    case neg =>
      have hs : buffer ++ (d :: chunks).flatten = (buffer ++ d) ++ chunks.flatten := by simp
      have ⟨front, c, back, he, hf, hc⟩ := hi hd (hs ▸ hc)
      refine ⟨d :: front, c, back, by simp [he], ?_, ?_⟩
      case refine_1 => simpa using hf
      case refine_2 => simpa using hc

-- Where the needle first occurs is settled as soon as it has arrived.
theorem breakOn_append {t u : Bytes} (h : breakOn needle t = some (head, body)) :
    breakOn needle (t ++ u) = some (head, body ++ u) := by
  induction t generalizing head <;> simp only [breakOn] at h <;> split at h
  case nil.isTrue hn =>
    obtain ⟨rfl, rfl⟩ := by simpa using h
    cases u <;> simp [breakOn, hn]
  case nil.isFalse => contradiction
  case cons.isTrue c t hi hp =>
    obtain ⟨rfl, rfl⟩ := by simpa using h
    have hp' : needle <+: c :: (t ++ u) := hp.trans (List.prefix_append (c :: t) u)
    rw [List.cons_append, breakOn, if_pos hp', ← List.cons_append,
      List.drop_append_of_le_length hp.length_le]
  case cons.isFalse c t hi hp =>
    obtain ⟨⟨t', u'⟩, ht, h⟩ := Option.map_eq_some_iff.mp h
    obtain ⟨rfl, rfl⟩ := by simpa using h
    have hp' : ¬needle <+: c :: (t ++ u) := by
      intro hp'
      have hl : needle.length ≤ (c :: t).length := by
        rw [breakOn_eq_some ht]
        simp only [List.length_cons, List.length_append]
        omega
      exact hp (List.prefix_of_prefix_length_le hp' (List.prefix_append (c :: t) u) hl)
    rw [List.cons_append, breakOn, if_neg hp', hi ht]
    rfl

theorem breakOn_arrived {got rest : Bytes} (h : breakOn needle s = some (head, body))
    (hb : body = got ++ rest) : breakOn needle (head ++ needle ++ got) = some (head, got) := by
  have hc : contains needle (head ++ needle ++ got) := contains_iff.mpr ⟨head, got, rfl⟩
  have ⟨⟨head', got'⟩, hg⟩ := Option.isSome_iff_exists.mp hc
  rw [breakOn_eq_some h, hb, ← List.append_assoc, breakOn_append hg] at h
  have ⟨he, ht⟩ := Prod.mk.inj (Option.some.inj h)
  rw [hg, he, List.append_cancel_right ht]

-- What has been read when the needle is there: all up to it, and what came with its last piece.
theorem gather_arrives (limit : Nat) (closed : Bool) (h : breakOn needle s = some (head, body))
    (hw : chunks.flatten = s) (hn : needle ≠ []) :
    ∃ got back, body = got ++ back.flatten ∧ (∃ c ∈ chunks, got.length < c.length) ∧
      gather needle limit closed [] chunks =
        if (head ++ needle ++ got).length ≤ limit then .done (head ++ needle ++ got, back)
        else .refused := by
  subst hw
  have he : ¬contains needle [] := by simp [contains, breakOn, hn]
  have hc : contains needle chunks.flatten := by simp [contains, h]
  obtain ⟨front, c, back, hs, hf, hc⟩ := exists_completing he hc
  simp only [List.nil_append] at hf hc
  obtain ⟨⟨head', got⟩, hb⟩ := Option.isSome_iff_exists.mp hc
  have hw : chunks.flatten = front.flatten ++ c ++ back.flatten := by simp [hs]
  rw [hw, breakOn_append hb] at h
  obtain ⟨rfl, rfl⟩ := by simpa using h
  have ht := breakOn_eq_some hb
  refine ⟨got, back, rfl, ⟨c, by simp [hs], ?_⟩, ?_⟩
  case refine_1 =>
    by_contra hl
    have hlen := congrArg List.length ht
    simp only [List.length_append] at hlen
    have hp : head' ++ needle <+: front.flatten := by
      have hp : front.flatten <+: head' ++ needle ++ got := ht ▸ List.prefix_append ..
      apply List.prefix_of_prefix_length_le (List.prefix_append (head' ++ needle) got) hp
      simp only [List.length_append]
      omega
    exact hf (contains_iff.mpr ((List.suffix_append head' needle).isInfix.trans hp.isInfix))
  case refine_2 =>
    rw [hs, gather_at (by simpa using hf) (by simpa using hc)]
    simp [ht]

-- Each byte behind the needle, up to a piece less one, may come with the needle's last byte.
theorem exists_cut_arriving (limit : Nat) (closed : Bool)
    (h : breakOn needle s = some (head, body)) (hn : needle ≠ []) {got back : Bytes}
    (hb : body = got ++ back) (hg : got.length < n) :
    ∃ chunks, Cut n s chunks ∧ gather needle limit closed [] chunks =
      if (head ++ needle ++ got).length ≤ limit then
        .done (head ++ needle ++ got, singles back)
      else .refused := by
  have ⟨front, b, hf⟩ := List.eq_nil_or_concat needle |>.resolve_left hn
  rw [List.concat_eq_append] at hf
  have hs := breakOn_eq_some h
  have hw : s = head ++ front ++ (b :: got ++ back) := by simp [hs, hb, hf]
  have hc : Cut n s (singles (head ++ front) ++ (b :: got) :: singles back) :=
    hw ▸ cut_midst ⟨by simp, hg⟩
  refine ⟨_, hc, ?_⟩
  have ht : head ++ front ++ b :: got = head ++ needle ++ got := by simp [hf]
  rw [gather_at]
  case hf =>
    simp only [List.nil_append, flatten_singles]
    intro hc
    have ⟨⟨head', got'⟩, hb'⟩ := Option.isSome_iff_exists.mp hc
    rw [hw, breakOn_append hb'] at h
    obtain ⟨rfl, _⟩ := by simpa using h
    have hlen := congrArg List.length (breakOn_eq_some hb')
    simp only [hf, List.length_append, List.length_singleton] at hlen
    omega
  case hc =>
    simp only [List.nil_append, flatten_singles, ht]
    exact contains_iff.mpr ⟨head, got, rfl⟩
  simp [ht]

end Gather

section Fill

variable {enough : Nat → Bool}

theorem fill_of_enough (h : enough buffer.length) :
    fill enough closed buffer chunks = .done buffer := by
  cases chunks <;> simp [fill, h]

-- What a reader of a closed stream has in the end: enough, or all there is.
theorem fill_closed : ∃ t u, chunks.flatten = t ++ u ∧
    fill enough true buffer chunks = .done (buffer ++ t) ∧
    (enough (buffer ++ t).length ∨ u = []) := by
  induction chunks generalizing buffer
  case nil =>
    refine ⟨[], [], rfl, ?_, .inr rfl⟩
    simp [fill]
  case cons c chunks hi =>
    rw [fill]
    split_ifs
    case pos he => exact ⟨[], (c :: chunks).flatten, rfl, by simp, .inl (by simpa using he)⟩
    case neg =>
      have ⟨t, u, hs, hf, h⟩ := @hi (buffer ++ c)
      exact ⟨c ++ t, u, by simp [hs], by simp [hf], by simpa using h⟩

-- A reader that stops only with `k` bytes has the first `k` of all there are.
theorem fill_take {k : Nat} (he : ∀ m, enough m → k ≤ m) :
    ∃ t, fill enough true buffer chunks = .done t ∧
      t.take k = (buffer ++ chunks.flatten).take k := by
  have ⟨t, u, hs, hf, h⟩ := @fill_closed buffer chunks enough
  refine ⟨buffer ++ t, hf, ?_⟩
  rw [hs, ← List.append_assoc]
  cases h
  case inl h => exact (List.take_append_of_le_length (he _ h)).symm
  case inr hu => rw [hu, List.append_nil]

-- A reader that has enough only once it has everything reads everything.
theorem fill_all (he : enough (buffer ++ chunks.flatten).length)
    (hn : ∀ m < (buffer ++ chunks.flatten).length, ¬enough m) :
    fill enough closed buffer chunks = .done (buffer ++ chunks.flatten) := by
  induction chunks generalizing buffer
  case nil =>
    simp only [List.flatten_nil, List.append_nil] at he ⊢
    rw [fill, if_pos he]
  case cons c chunks hi =>
    have hs : buffer ++ (c :: chunks).flatten = (buffer ++ c) ++ chunks.flatten := by simp
    rw [fill]
    split_ifs
    case pos hb =>
      have hl : buffer.length = (buffer ++ (c :: chunks).flatten).length := by
        by_contra hne
        refine hn buffer.length (lt_of_le_of_ne ?_ hne) hb
        simp
      have hz : (c :: chunks).flatten = [] := by
        rw [List.length_append] at hl
        exact List.length_eq_zero_iff.mp (by omega)
      rw [hz, List.append_nil]
    case neg => rw [hs] at he hn ⊢; exact hi he hn

end Fill

end Stream
