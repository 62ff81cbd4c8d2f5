import Droidcli.Lib.Interaction

namespace Locking

open Interaction Prog

-- What a program does around a lock that is not recursive: it takes the lock, gives it back, or
-- asks its surroundings.
inductive LockOp (Ask : Type)
  | acquire
  | release
  | ask (q : Ask)
  deriving DecidableEq

@[reducible]
def LockRes {Ask : Type} (Ans : Ask → Type) : LockOp Ask → Type
  | .acquire => Unit
  | .release => Unit
  | .ask q   => Ans q

abbrev LockM {Ask : Type} (Ans : Ask → Type) := Prog (LockRes Ans)

variable {Ask : Type} {Ans : Ask → Type} {α β ι : Type}

def acquire : LockM Ans Unit :=
  perform LockOp.acquire

def release : LockM Ans Unit :=
  perform LockOp.release

def ask (q : Ask) : LockM Ans (Ans q) :=
  perform (LockOp.ask q)

-- A scope that holds the lock from its start to its end.
def locked (p : LockM Ans α) : LockM Ans α := do
  acquire
  let a ← p
  release
  return a

-- Held or not, the program takes the lock only where it does not hold it, gives it back only where
-- it does, and ends as `ends` says. A fatal answer is one behind which it takes the lock it holds.
def Obeys (Fatal : (q : Ask) → Ans q → Prop) (ends : Bool) : Bool → LockM Ans α → Prop
  | held, .ret _         => held = ends
  | held, .op .acquire k => held = false ∧ Obeys Fatal ends true (k ())
  | held, .op .release k => held = true ∧ Obeys Fatal ends false (k ())
  | held, .op (.ask q) k => ∀ r,
    (Fatal q r → held = true ∧ ∃ k', k r = .op .acquire k') ∧
      (¬Fatal q r → Obeys Fatal ends held (k r))

section Obeys

variable {Fatal : (q : Ask) → Ans q → Prop} {held mid ends : Bool} {p : LockM Ans α}
  {f : α → LockM Ans β}

theorem obeys_ret {a : α} : Obeys Fatal held held (ret a : LockM Ans α) :=
  rfl

theorem obeys_bind (hp : Obeys Fatal mid held p) (hf : ∀ a, Obeys Fatal ends mid (f a)) :
    Obeys Fatal ends held (p >>= f) := by
  induction p generalizing held
  case ret a =>
    have : held = mid := hp
    exact this ▸ hf a
  case op o k hi =>
    cases o
    case acquire => exact ⟨hp.left, hi () hp.right⟩
    case release => exact ⟨hp.left, hi () hp.right⟩
    case ask q =>
      intro r
      refine ⟨fun hr => ?_, fun hr => hi r ((hp r).right hr)⟩
      have ⟨hh, k', hk⟩ := (hp r).left hr
      exact ⟨hh, fun r => k' r >>= f, congrArg (· >>= f) hk⟩

-- An answer that is never fatal.
theorem obeys_ask {q : Ask} (h : ∀ r, ¬Fatal q r) : Obeys Fatal held held (ask q) :=
  show Obeys Fatal held held (op (.ask q) ret) from
    fun r => ⟨fun hr => absurd hr (h r), fun _ => obeys_ret⟩

theorem obeys_locked (hp : Obeys Fatal true true p) : Obeys Fatal false false (locked p) :=
  show _ ∧ Obeys Fatal false true (p >>= fun a => release >>= fun _ => ret a) from
    ⟨rfl, obeys_bind hp fun _ => show _ ∧ Obeys Fatal false false (ret _) from ⟨rfl, rfl⟩⟩

theorem obeys_interpret {Op : Type} {Res : Op → Type} {p : Prog Res α}
    {g : (o : Op) → LockM Ans (Res o)} (h : ∀ o, Obeys Fatal held held (g o)) :
    Obeys Fatal held held (p.interpret g) := by
  induction p
  case ret       => exact obeys_ret
  case op o k hi => exact obeys_bind (h o) hi

theorem obeys_forM {γ : Type} {g : γ → LockM Ans Unit} (h : ∀ c, Obeys Fatal held held (g c)) :
    (cs : List γ) → Obeys Fatal held held (cs.forM g)
  | []      => obeys_ret
  | c :: cs => obeys_bind (h c) fun _ => obeys_forM h cs

end Obeys

-- Threads around one lock. A thread in front of the lock waits while anyone holds it, itself
-- included.
structure Crew (Ans : Ask → Type) (ι : Type) where
  owner : Option ι
  threads : ι → LockM Ans Unit

namespace Crew

variable [DecidableEq ι]

inductive Step : Crew Ans ι → ι × Event (LockRes Ans) → Crew Ans ι → Prop
  | acquire {c : Crew Ans ι} {i : ι} {k : Unit → LockM Ans Unit} :
      c.threads i = op .acquire k → c.owner = none →
      Step c (i, ⟨.acquire, ()⟩) ⟨some i, Function.update c.threads i (k ())⟩
  | release {c : Crew Ans ι} {i : ι} {k : Unit → LockM Ans Unit} :
      c.threads i = op .release k →
      Step c (i, ⟨.release, ()⟩) ⟨none, Function.update c.threads i (k ())⟩
  | ask {c : Crew Ans ι} {i : ι} {q : Ask} {k : Ans q → LockM Ans Unit} {r : Ans q} :
      c.threads i = op (.ask q) k →
      Step c (i, ⟨.ask q, r⟩) ⟨c.owner, Function.update c.threads i (k r)⟩

inductive Run (c : Crew Ans ι) : List (ι × Event (LockRes Ans)) → Crew Ans ι → Prop
  | refl : Run c [] c
  | snoc {t : List (ι × Event (LockRes Ans))} {d d' : Crew Ans ι} {e : ι × Event (LockRes Ans)} :
      Run c t d → Step d e d' → Run c (t ++ [e]) d'

-- The thread waits for the lock that it holds, and will wait forever.
def SelfDeadlocked (c : Crew Ans ι) (i : ι) : Prop :=
  c.owner = some i ∧ ∃ k, c.threads i = op .acquire k

def IsFatal (Fatal : (q : Ask) → Ans q → Prop) : Event (LockRes Ans) → Prop
  | ⟨.ask q, r⟩  => Fatal q r
  | ⟨.acquire, _⟩ => False
  | ⟨.release, _⟩ => False

-- Each thread obeys the lock from where it stands, and has given it back at its end.
def Obeying (Fatal : (q : Ask) → Ans q → Prop) (c : Crew Ans ι) : Prop :=
  ∀ i, Obeys Fatal false (c.owner = some i) (c.threads i)

variable {Fatal : (q : Ask) → Ans q → Prop} {c d d' : Crew Ans ι}
  {t : List (ι × Event (LockRes Ans))} {e : ι × Event (LockRes Ans)} {i : ι}

theorem Obeying.not_selfDeadlocked (h : c.Obeying Fatal) : ¬c.SelfDeadlocked i := by
  intro ⟨ho, k, hk⟩
  have := h i
  rw [hk] at this
  simpa [ho] using this.left

theorem Obeying.step (h : c.Obeying Fatal) (s : Step c e d) (he : ¬IsFatal Fatal e.2) :
    d.Obeying Fatal := by
  intro j
  cases s
  case acquire i k hi ho =>
    have hj := h j
    by_cases hij : j = i
    case pos =>
      subst hij
      rw [hi] at hj
      simpa using hj.right
    case neg => simpa [hij, Ne.symm hij, ho] using hj
  case release i k hi =>
    have hj := h j
    by_cases hij : j = i
    case pos =>
      subst hij
      rw [hi] at hj
      simpa using hj.right
    case neg =>
      have hheld := h i
      rw [hi] at hheld
      have ho : c.owner = some i := by simpa using hheld.left
      simpa [hij, Ne.symm hij, ho] using hj
  case ask i q k r hi =>
    have hj := h j
    by_cases hij : j = i
    case pos =>
      subst hij
      rw [hi] at hj
      simpa using (hj r).right he
    case neg => simpa [hij] using hj

-- A fatal answer leaves its thread in front of the lock that it holds.
theorem Obeying.fatal (h : c.Obeying Fatal) (s : Step c e d) (he : IsFatal Fatal e.2) :
    d.SelfDeadlocked e.1 := by
  cases s
  case acquire => exact he.elim
  case release => exact he.elim
  case ask i q k r hi =>
    have hj := h i
    rw [hi] at hj
    have ⟨ho, k', hk⟩ := (hj r).left he
    exact ⟨by simpa using ho, k', by simpa using hk⟩

theorem Run.obeying (r : Run c t d) (h : c.Obeying Fatal) (ht : ∀ e ∈ t, ¬IsFatal Fatal e.2) :
    d.Obeying Fatal := by
  induction r
  case refl        => exact h
  case snoc s hi =>
    have ⟨ht, he⟩ := List.forall_mem_append.mp ht
    exact (hi ht).step s (he _ (by simp))

-- Every state that a run goes through.
def Through (c : Crew Ans ι) (t : List (ι × Event (LockRes Ans))) (P : Crew Ans ι → Prop) :
    Prop :=
  ∀ u v d, t = u ++ v → Run c u d → P d

theorem Run.through_iff (r : Run c t d) (h : c.Obeying Fatal) :
    Through c t (fun d => ∀ i, ¬d.SelfDeadlocked i) ↔ ∀ e ∈ t, ¬IsFatal Fatal e.2 := by
  constructor
  case mp =>
    intro hr
    induction r
    case refl => simp
    case snoc t d d' e r s hi =>
      have ht := hi fun u v d hu => hr u (v ++ [e]) d (by simp [hu])
      refine List.forall_mem_append.mpr ⟨ht, List.forall_mem_singleton.mpr fun he => ?_⟩
      exact hr _ [] d' (by simp) (r.snoc s) e.1 ((r.obeying h ht).fatal s he)
  case mpr =>
    intro ht u v d' hu r'
    exact fun i => (r'.obeying h fun e he => ht e (by simp [hu, he])).not_selfDeadlocked

end Crew
end Locking
