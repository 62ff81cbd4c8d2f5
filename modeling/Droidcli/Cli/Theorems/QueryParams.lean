import Droidcli.Cli.HttpMount
import Droidcli.Net.Handlers

namespace Droidcli.Cli

open Bytes

variable {queryString key pair value text : Bytes} {pairs : List Bytes} {c : UInt8}

abbrev ampersand : UInt8 := 0x26
abbrev equalSign : UInt8 := 0x3d

section BreakOn

variable {t u : Bytes}

theorem breakOn_singleton_none : breakOn [c] text = none ↔ c ∉ text := by
  rw [← Option.not_isSome_iff_eq_none, breakOn_isSome_iff, List.singleton_infix_iff]

theorem not_mem_of_breakOn (h : breakOn [c] text = some (t, u)) : c ∉ t := by
  intro hc
  have ⟨a, b, ht⟩ := List.append_of_mem hc
  exact inert_of_breakOn h (c :: b) (by simp) ⟨a, ht.symm⟩ ⟨b ++ ([c] ++ u), by simp⟩

theorem breakOn_append (h : c ∉ t) : breakOn [c] (t ++ c :: u) = some (t, u) := by
  rw [breakOn_inert (inert_of_not_mem h)]
  simp [breakOn]

end BreakOn

section Scan

-- The loop of both readers, which ends at the first pair that decides.
def scanPairs (found : Bytes → Option Bytes) (text : Bytes) : Option Bytes :=
  if text = [] then none
  else
    match _h : breakOn [ampersand] text with
    | none              => found text
    | some (pair, rest) => (found pair).or (scanPairs found rest)
  termination_by text.length
  decreasing_by
    rw [breakOn_eq_some _h]
    simp
    omega

variable {found : Bytes → Option Bytes}

-- The loop does not get to an empty pair at the end, and need not.
theorem scanPairs_eq (h : (found []).getD [] = []) :
    (scanPairs found text).getD [] = ((text.splitOn ampersand).findSome? found).getD [] := by
  induction text using scanPairs.induct
  case case1 =>
    cases hf : found [] <;> simp_all [scanPairs]
  case case2 text hn hb =>
    have hs := List.splitOn_eq_singleton (breakOn_singleton_none.mp hb)
    rw [scanPairs, if_neg hn, hs]
    cases hf : found text <;> grind
  case case3 text hn pair rest hb hi =>
    have hs : text.splitOn ampersand = pair :: rest.splitOn ampersand := by
      rw [breakOn_eq_some hb, List.append_assoc, List.singleton_append,
        List.splitOn_append_cons_self, List.splitOn_eq_singleton (not_mem_of_breakOn hb),
        List.singleton_append]
    have he : scanPairs found text = (found pair).or (scanPairs found rest) := by
      rw [scanPairs, if_neg hn]
      split <;> simp_all
    rw [he, hs, List.findSome?_cons]
    cases hf : found pair
    case none => simpa using hi
    case some => simp

end Scan

section Pairs

-- What a pair tells the handlers of a key, and what it tells the mount.
def handlersFound (key pair : Bytes) : Option Bytes :=
  match breakOn [equalSign] pair with
  | some (pairKey, value) => if pairKey = key then some value else none
  | none                  => if pair = key then some [] else none

def mountFound (key pair : Bytes) : Option Bytes :=
  if key ++ [equalSign] <+: pair then some (pair.drop (key ++ [equalSign]).length) else none

theorem not_prefix_key : ¬key ++ [equalSign] <+: key := by
  intro h
  simpa using h.length_le

theorem mountFound_append : mountFound key (key ++ equalSign :: value) = some value := by
  simp [mountFound, List.drop_append]

theorem mountFound_eq_none : mountFound key pair = none ↔ ¬key ++ [equalSign] <+: pair := by
  simp [mountFound]

theorem mountFound_eq_some : mountFound key pair = some value ↔ pair = key ++ equalSign :: value := by
  constructor
  case mpr => exact fun h => h ▸ mountFound_append
  case mp =>
    intro h
    have ⟨⟨rest, hp⟩, _⟩ := Option.ite_none_right_eq_some.mp h
    rw [List.append_assoc, List.singleton_append] at hp
    rw [← hp, mountFound_append] at h
    exact Option.some.inj h ▸ hp.symm

theorem handlersFound_nil (key : Bytes) : (handlersFound key []).getD [] = [] := by
  rw [handlersFound]
  split
  case h_1 hb   => simp [breakOn] at hb
  case h_2      => split <;> rfl

theorem handlers_queryParam_eq_scan :
    Net.queryParam queryString key = (scanPairs (handlersFound key) queryString).getD [] :=
  (scanPairs_eq (handlersFound_nil key)).symm

theorem mount_queryParam_eq_scan :
    queryParam queryString key = (scanPairs (mountFound key) queryString).getD [] := by
  rw [scanPairs_eq (by simp [mountFound]), queryParam]
  induction queryString.splitOn ampersand
  case nil => rfl
  case cons pair pairs hi =>
    simp only [List.find?_cons, List.findSome?_cons]
    by_cases h : key ++ [equalSign] <+: pair
    case pos => simp [mountFound, h]
    case neg => simpa [mountFound, h] using hi

-- The readers differ in the bare key only.
theorem handlersFound_eq (hk : equalSign ∉ key) :
    handlersFound key pair = if pair = key then some [] else mountFound key pair := by
  rw [handlersFound]
  split
  case h_1 pairKey value hb =>
    have hp := breakOn_eq_some hb
    rw [List.append_assoc, List.singleton_append] at hp
    have hn : pair ≠ key := fun h => hk (by simp [← h, hp])
    rw [if_neg hn]
    split
    case isTrue h => rw [hp, h, mountFound_append]
    case isFalse h =>
      symm
      rw [mountFound_eq_none]
      intro ⟨rest, hr⟩
      rw [List.append_assoc, List.singleton_append] at hr
      rw [← hr, breakOn_append hk] at hb
      exact h (Prod.mk.inj (Option.some.inj hb)).left.symm
  case h_2 hb =>
    have hm : mountFound key pair = none := by
      rw [mountFound_eq_none]
      intro hp
      exact breakOn_singleton_none.mp hb (hp.subset (by simp))
    rw [hm]

end Pairs

-- The bare key stands before the first pair that has a value for it, and that value is not empty.
def Shadowed (key : Bytes) (pairs : List Bytes) : Prop :=
  ∃ u value v, pairs = u ++ (key ++ equalSign :: value) :: v ∧ value ≠ [] ∧ key ∈ u ∧
    ∀ pair ∈ u, ¬key ++ [equalSign] <+: pair

section Shadowed

theorem not_shadowed_nil : ¬Shadowed key [] := by
  intro ⟨u, value, v, h, _⟩
  simp at h

theorem not_shadowed_cons_value : ¬Shadowed key ((key ++ equalSign :: value) :: pairs) := by
  intro ⟨u, value', v, h, _, hk, hu⟩
  cases u
  case nil => simp at hk
  case cons pair u =>
    apply hu pair (by simp)
    rw [← (List.cons.inj h).left]
    exact ⟨value, by simp⟩

theorem shadowed_cons_key :
    Shadowed key (key :: pairs) ↔ ∃ value ≠ [], pairs.findSome? (mountFound key) = some value := by
  constructor
  case mp =>
    intro ⟨u, value, v, h, hv, hm, hu⟩
    cases u
    case nil => simp at hm
    case cons pair u =>
      refine ⟨value, hv, List.findSome?_eq_some_iff.mpr ⟨u, _, v, (List.cons.inj h).right, ?_⟩⟩
      exact ⟨mountFound_append, fun p hp => mountFound_eq_none.mpr (hu p (by simp [hp]))⟩
  case mpr =>
    intro ⟨value, hv, h⟩
    have ⟨u, pair, v, h, hp, hu⟩ := List.findSome?_eq_some_iff.mp h
    refine ⟨key :: u, value, v, ?_, hv, by simp, ?_⟩
    case refine_1 => rw [h, mountFound_eq_some.mp hp, List.cons_append]
    case refine_2 =>
      intro p hp
      cases List.mem_cons.mp hp
      case inl hp => exact hp ▸ not_prefix_key
      case inr hp => exact mountFound_eq_none.mp (hu p hp)

theorem shadowed_cons (hp : mountFound key pair = none) (hn : pair ≠ key) :
    Shadowed key (pair :: pairs) ↔ Shadowed key pairs := by
  constructor
  case mp =>
    intro ⟨u, value, v, h, hv, hm, hu⟩
    cases u
    case nil => simp at hm
    case cons pair' u =>
      have ⟨hp', h⟩ := List.cons.inj h
      have hm := (List.mem_cons.mp hm).resolve_left fun hm => hn (hp'.trans hm.symm)
      exact ⟨u, value, v, h, hv, hm, fun p hp => hu p (by simp [hp])⟩
  case mpr =>
    intro ⟨u, value, v, h, hv, hm, hu⟩
    refine ⟨pair :: u, value, v, by rw [h, List.cons_append], hv, by simp [hm], ?_⟩
    simpa using ⟨mountFound_eq_none.mp hp, hu⟩

end Shadowed

-- The readers agree on a key exactly when it does not stand bare before it has a value.
theorem queryParam_eq_iff (hk : equalSign ∉ key) :
    Net.queryParam queryString key = queryParam queryString key ↔
      ¬Shadowed key (queryString.splitOn ampersand) := by
  rw [handlers_queryParam_eq_scan, mount_queryParam_eq_scan,
    scanPairs_eq (handlersFound_nil key), scanPairs_eq (by simp [mountFound])]
  induction queryString.splitOn ampersand
  case nil => simp [not_shadowed_nil]
  case cons pair pairs hi =>
    rw [List.findSome?_cons, List.findSome?_cons, handlersFound_eq hk]
    by_cases hp : pair = key
    case pos =>
      subst hp
      rw [if_pos rfl, mountFound_eq_none.mpr not_prefix_key, shadowed_cons_key]
      cases pairs.findSome? (mountFound pair)
      case none       => simp
      case some value => simp [eq_comm]
    case neg =>
      rw [if_neg hp]
      cases hm : mountFound key pair
      case none       => exact hi.trans (not_congr (shadowed_cons hm hp).symm)
      case some value =>
        rw [mountFound_eq_some.mp hm]
        simp [not_shadowed_cons_value]

theorem queryParam_eq_iff_session_id :
    Net.queryParam "session_id=a%20b&x&session_id" "session_id" =
        queryParam "session_id=a%20b&x&session_id" "session_id" ↔
      ¬Shadowed "session_id" ((str "session_id=a%20b&x&session_id").splitOn ampersand) :=
  queryParam_eq_iff (by decide)

theorem not_queryParam_eq : ¬∀ queryString key, equalSign ∉ key → ampersand ∉ key →
    Net.queryParam queryString key = queryParam queryString key := by
  intro h
  exact absurd (h "msg&msg=1" "msg" (by decide) (by decide)) (by decide)

end Droidcli.Cli
