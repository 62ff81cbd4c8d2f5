import Droidcli.Net.Types

namespace Droidcli.Net

open Bytes

-- Pops slashes off a reversed path, but never its last byte.
def popSlashes : Bytes → Bytes
  | c :: d :: path => if c = slash then popSlashes (d :: path) else c :: d :: path
  | path           => path

def normalizePath (path : Bytes) : Bytes :=
  (popSlashes path.reverse).reverse

-- The handlers of the built-in route table.
inductive Handler
  | health
  | echo
  | notify
  | aiChat
  deriving DecidableEq

-- The handler that `RouteTable::dispatch` runs, or `none` when it leaves the request unhandled.
def RouteTable.dispatch (request : HttpRequest) : Option Handler :=
  let path := normalizePath request.path
  if request.method = .get ∧ path = str "/health" then some .health
  else if (request.method = .get ∨ request.method = .post) ∧ path = str "/echo" then some .echo
  else if request.method = .post ∧ path = str "/notify" then some .notify
  else if request.method = .post ∧ path = str "/ai/chat" then some .aiChat
  else none

theorem popSlashes_replicate {c : UInt8} (h : c ≠ slash) (path : Bytes) (k : Nat) :
    popSlashes (List.replicate k slash ++ c :: path) = c :: path := by
  induction k
  case zero => cases path <;> simp [popSlashes, h]
  case succ k hi =>
    cases k
    case zero   => simpa [popSlashes] using hi
    case succ k => simpa [List.replicate_succ, popSlashes] using hi

theorem popSlashes_spec (path : Bytes) : ∃ k, path = List.replicate k slash ++ popSlashes path := by
  induction path using popSlashes.induct
  case case1 d path hi =>
    have ⟨k, hk⟩ := hi
    refine ⟨k + 1, ?_⟩
    conv_lhs => rw [hk]
    simp [popSlashes, List.replicate_succ]
  case case2 c d path h => exact ⟨0, by simp [popSlashes, h]⟩
  case case3 path h =>
    refine ⟨0, ?_⟩
    match path, h with
    | [], _  => simp [popSlashes]
    | [_], _ => simp [popSlashes]
    | c :: d :: path, h => exact absurd rfl (h c d path)

-- A route that does not end in a slash is reached by its own path followed by any number of
-- slashes, and by no other path.
theorem normalizePath_eq_iff {path route : Bytes} {c : UInt8} (h : c ≠ slash) :
    normalizePath path = route ++ [c] ↔ ∃ k, path = route ++ [c] ++ List.replicate k slash := by
  have he : normalizePath path = route ++ [c] ↔ popSlashes path.reverse = c :: route.reverse := by
    rw [normalizePath, List.reverse_eq_iff]
    simp
  rw [he]
  constructor
  case mp =>
    intro hp
    have ⟨k, hk⟩ := popSlashes_spec path.reverse
    refine ⟨k, ?_⟩
    rw [hp, List.reverse_eq_iff] at hk
    simpa using hk
  case mpr =>
    intro ⟨k, hk⟩
    have := popSlashes_replicate h route.reverse k
    simpa [hk] using this

end Droidcli.Net
