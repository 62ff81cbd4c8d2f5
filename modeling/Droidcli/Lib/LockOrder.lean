import Droidcli.Lib.Interaction

namespace LockOrder

open Interaction Prog

-- What a thread does around locks and other threads: it takes a lock, gives it back, starts a
-- thread, waits for the end of one, or asks its surroundings.
inductive ThreadOp (Lock ι Ask : Type)
  | acquire (l : Lock)
  | release (l : Lock)
  | spawn (j : ι)
  | join (j : ι)
  | ask (q : Ask)
  deriving DecidableEq

variable {Lock ι Ask : Type} {Ans : Ask → Type} {α β : Type}

@[reducible]
def ThreadRes (Lock ι : Type) {Ask : Type} (Ans : Ask → Type) : ThreadOp Lock ι Ask → Type
  | .acquire _ => Unit
  | .release _ => Unit
  | .spawn _   => Unit
  | .join _    => Unit
  | .ask q     => Ans q

abbrev ThreadM (Lock ι : Type) {Ask : Type} (Ans : Ask → Type) := Prog (ThreadRes Lock ι Ans)

def acquire (l : Lock) : ThreadM Lock ι Ans Unit :=
  perform (ThreadOp.acquire l)

def release (l : Lock) : ThreadM Lock ι Ans Unit :=
  perform (ThreadOp.release l)

def spawn (j : ι) : ThreadM Lock ι Ans Unit :=
  perform (ThreadOp.spawn j)

def join (j : ι) : ThreadM Lock ι Ans Unit :=
  perform (ThreadOp.join j)

def ask (q : Ask) : ThreadM Lock ι Ans (Ans q) :=
  perform (ThreadOp.ask q)

-- A scope that holds a lock from its start to its end.
def locked (l : Lock) (p : ThreadM Lock ι Ans α) : ThreadM Lock ι Ans α := do
  acquire l
  let a ← p
  release l
  return a

-- An order of the locks and one of the threads, and the answers behind which a thread takes a lock
-- that it holds.
structure Order (Lock ι : Type) {Ask : Type} (Ans : Ask → Type) where
  rank : Lock → Nat
  level : ι → Nat
  Fatal : (q : Ask) → Ans q → Prop

variable (o : Order Lock ι Ans)

-- With the locks of `held`, the last one first, a thread of level `n` takes no lock but one above
-- those, gives back the last one only, and waits for threads of a lower level, with no lock held.
-- It ends with the locks of `ends`.
def Ordered (n : Nat) (ends : List Lock) : List Lock → ThreadM Lock ι Ans α → Prop
  | held, .ret _            => held = ends
  | held, .op (.acquire l) k =>
    (∀ l' ∈ held, o.rank l' < o.rank l) ∧ Ordered n ends (l :: held) (k ())
  | held, .op (.release l) k => ∃ rest, held = l :: rest ∧ Ordered n ends rest (k ())
  | held, .op (.spawn _) k   => Ordered n ends held (k ())
  | held, .op (.join j) k    => held = [] ∧ o.level j < n ∧ Ordered n ends held (k ())
  | held, .op (.ask q) k     => ∀ r,
    (o.Fatal q r → ∃ l ∈ held, ∃ k', k r = .op (.acquire l) k') ∧
      (¬o.Fatal q r → Ordered n ends held (k r))

section Ordered

variable {o} {n : Nat} {held mid ends : List Lock} {l : Lock} {p : ThreadM Lock ι Ans α}
  {f : α → ThreadM Lock ι Ans β}

theorem ordered_ret {a : α} : Ordered o n held held (ret a : ThreadM Lock ι Ans α) :=
  rfl

theorem ordered_bind (hp : Ordered o n mid held p) (hf : ∀ a, Ordered o n ends mid (f a)) :
    Ordered o n ends held (p >>= f) := by
  induction p generalizing held
  case ret a =>
    have : held = mid := hp
    exact this ▸ hf a
  case op op k hi =>
    cases op
    case acquire => exact ⟨hp.left, hi () hp.right⟩
    case release =>
      obtain ⟨rest, hh, hp⟩ := hp
      exact ⟨rest, hh, hi () hp⟩
    case spawn   => exact hi () hp
    case join    => exact ⟨hp.left, hp.right.left, hi () hp.right.right⟩
    case ask q   =>
      intro r
      refine ⟨fun hr => ?_, fun hr => hi r ((hp r).right hr)⟩
      obtain ⟨l, hl, k', hk⟩ := (hp r).left hr
      exact ⟨l, hl, fun u => k' u >>= f, congrArg (· >>= f) hk⟩

theorem ordered_locked (hl : ∀ l' ∈ held, o.rank l' < o.rank l)
    (hp : Ordered o n (l :: held) (l :: held) p) : Ordered o n held held (locked l p) :=
  show _ ∧ Ordered o n held (l :: held) (p >>= fun a => release l >>= fun _ => ret a) from
    ⟨hl, ordered_bind hp fun _ => show Ordered o n held (l :: held) (release l >>= fun _ => ret _)
      from ⟨held, rfl, ordered_ret⟩⟩

-- An answer that is never fatal.
theorem ordered_ask {q : Ask} (h : ∀ r, ¬o.Fatal q r) :
    Ordered o n held held (ask q : ThreadM Lock ι Ans (Ans q)) :=
  show Ordered o n held held (op (.ask q) ret) from
    fun r => ⟨fun hr => absurd hr (h r), fun _ => ordered_ret⟩

theorem ordered_spawn {j : ι} : Ordered o n held held (spawn j : ThreadM Lock ι Ans Unit) :=
  rfl

theorem ordered_join {j : ι} (hj : o.level j < n) :
    Ordered o n [] [] (join j : ThreadM Lock ι Ans Unit) :=
  ⟨rfl, hj, ordered_ret⟩

theorem ordered_if {c : Prop} [Decidable c] {a b : ThreadM Lock ι Ans α}
    (ha : Ordered o n ends held a) (hb : Ordered o n ends held b) :
    Ordered o n ends held (if c then a else b) := by
  split
  · exact ha
  · exact hb

theorem ordered_branch {p : ThreadM Lock ι Ans Bool} {a b : ThreadM Lock ι Ans α}
    (hp : Ordered o n held held p) (ha : Ordered o n held held a) (hb : Ordered o n held held b) :
    Ordered o n held held (do if ← p then a else b) :=
  ordered_bind hp fun _ => ordered_if ha hb

theorem ordered_forM {γ : Type} {g : γ → ThreadM Lock ι Ans Unit}
    (h : ∀ c, Ordered o n held held (g c)) : (cs : List γ) → Ordered o n held held (cs.forM g)
  | []      => ordered_ret
  | c :: cs => ordered_bind (h c) fun _ => ordered_forM h cs

end Ordered

-- Threads around locks that are not recursive. One that has not been started does nothing, and
-- whoever waits for such a thread goes on at once.
structure Crew (Lock ι : Type) {Ask : Type} (Ans : Ask → Type) where
  owner : Lock → Option ι
  started : ι → Prop
  threads : ι → ThreadM Lock ι Ans Unit

namespace Crew

def Finished (c : Crew Lock ι Ans) (i : ι) : Prop :=
  c.threads i = ret ()

-- A thread that still has something to do.
def Running (c : Crew Lock ι Ans) (i : ι) : Prop :=
  c.started i ∧ ¬c.Finished i

-- The thread stands in front of a lock that the other one holds, or waits for its end.
inductive Waits (c : Crew Lock ι Ans) (i j : ι) : Prop
  | lock {l : Lock} {k : Unit → ThreadM Lock ι Ans Unit} :
    c.threads i = op (.acquire l) k → c.owner l = some j → Waits c i j
  | join {k : Unit → ThreadM Lock ι Ans Unit} :
    c.threads i = op (.join j) k → c.Running j → Waits c i j

-- The locks that each thread holds, the last one first. A thread that has not been started
-- holds none.
structure Keeping (o : Order Lock ι Ans) (c : Crew Lock ι Ans) (held : ι → List Lock) : Prop where
  ordered : ∀ i, Ordered o (o.level i) [] (held i) (c.threads i)
  owner   : ∀ l i, c.owner l = some i ↔ l ∈ held i
  nodup   : ∀ i, (held i).Nodup
  started : ∀ i, held i ≠ [] → c.started i

variable {o} {c d : Crew Lock ι Ans} {held : ι → List Lock} {i j : ι} {l : Lock}
  {e : ι × Event (ThreadRes Lock ι Ans)} {bound : Nat}

-- Two threads do not hold the same lock.
theorem Keeping.eq (h : Keeping o c held) (hi : l ∈ held i) (hj : l ∈ held j) : i = j :=
  Option.some.inj (((h.owner l i).mpr hi).symm.trans ((h.owner l j).mpr hj))

theorem Keeping.running (h : Keeping o c held) (hl : l ∈ held i) : c.Running i := by
  refine ⟨h.started i (List.ne_nil_of_mem hl), fun hf => ?_⟩
  have ho := h.ordered i
  have hf : c.threads i = ret () := hf
  rw [hf] at ho
  have ho : held i = [] := ho
  simp [ho] at hl

-- How far a thread is from one that can go on: those that wait for the end of another one stand
-- above those that wait for a lock, and these the lower, the higher their lock.
def distance (o : Order Lock ι Ans) (bound : Nat) (c : Crew Lock ι Ans) (i : ι) : Nat :=
  match c.threads i with
  | .op (.join _) _    => bound + 1 + o.level i
  | .op (.acquire l) _ => bound - o.rank l
  | _                  => 0

-- A thread that holds a lock does not wait for the end of another one, and if it waits for a lock,
-- then for a higher one.
theorem Keeping.distance_holder (h : Keeping o c held) (hb : ∀ l, o.rank l ≤ bound)
    (hl : l ∈ held i) : distance o bound c i < bound - o.rank l ∨
      ∀ j, ¬c.Waits i j := by
  have hi := h.ordered i
  cases ht : c.threads i
  case ret a =>
    refine .inr fun j hw => ?_
    cases hw <;> simp_all
  case op op k =>
    rw [ht] at hi
    cases op
    case acquire l' =>
      have := hi.left l hl
      have := hb l'
      refine .inl ?_
      simp only [distance, ht]
      omega
    case join j =>
      have hn : held i = [] := hi.left
      simp [hn] at hl
    case release => exact .inr fun j hw => by cases hw <;> simp_all
    case spawn   => exact .inr fun j hw => by cases hw <;> simp_all
    case ask     => exact .inr fun j hw => by cases hw <;> simp_all

theorem distance_le : distance o bound c i ≤ bound + 1 + o.level i := by
  rw [distance]
  split <;> omega

theorem Keeping.distance_joined (h : Keeping o c held) {k : Unit → ThreadM Lock ι Ans Unit}
    (ht : c.threads i = op (.join j) k) : distance o bound c j < distance o bound c i := by
  have hi := h.ordered i
  rw [ht] at hi
  have hl : o.level j < o.level i := hi.right.left
  have hd : distance o bound c j ≤ bound + 1 + o.level j := distance_le
  have hi : distance o bound c i = bound + 1 + o.level i := by simp only [distance, ht]
  omega

section Runs

variable [DecidableEq Lock] [DecidableEq ι]

inductive Step : Crew Lock ι Ans → ι × Event (ThreadRes Lock ι Ans) → Crew Lock ι Ans → Prop
  | acquire {c : Crew Lock ι Ans} {i : ι} {l : Lock} {k : Unit → ThreadM Lock ι Ans Unit} :
      c.started i → c.threads i = op (.acquire l) k → c.owner l = none →
      Step c (i, ⟨.acquire l, ()⟩)
        ⟨Function.update c.owner l (some i), c.started, Function.update c.threads i (k ())⟩
  | release {c : Crew Lock ι Ans} {i : ι} {l : Lock} {k : Unit → ThreadM Lock ι Ans Unit} :
      c.started i → c.threads i = op (.release l) k →
      Step c (i, ⟨.release l, ()⟩)
        ⟨Function.update c.owner l none, c.started, Function.update c.threads i (k ())⟩
  | spawn {c : Crew Lock ι Ans} {i j : ι} {k : Unit → ThreadM Lock ι Ans Unit} :
      c.started i → c.threads i = op (.spawn j) k →
      Step c (i, ⟨.spawn j, ()⟩)
        ⟨c.owner, fun i' => i' = j ∨ c.started i', Function.update c.threads i (k ())⟩
  | join {c : Crew Lock ι Ans} {i j : ι} {k : Unit → ThreadM Lock ι Ans Unit} :
      c.started i → c.threads i = op (.join j) k → ¬c.Running j →
      Step c (i, ⟨.join j, ()⟩) ⟨c.owner, c.started, Function.update c.threads i (k ())⟩
  | ask {c : Crew Lock ι Ans} {i : ι} {q : Ask} {k : Ans q → ThreadM Lock ι Ans Unit} {r : Ans q} :
      c.started i → c.threads i = op (.ask q) k →
      Step c (i, ⟨.ask q, r⟩) ⟨c.owner, c.started, Function.update c.threads i (k r)⟩

def CanStep (c : Crew Lock ι Ans) (i : ι) : Prop :=
  ∃ e d, Step c (i, e) d

inductive Run (c : Crew Lock ι Ans) :
    List (ι × Event (ThreadRes Lock ι Ans)) → Crew Lock ι Ans → Prop
  | refl : Run c [] c
  | snoc {t : List (ι × Event (ThreadRes Lock ι Ans))} {d d' : Crew Lock ι Ans}
      {e : ι × Event (ThreadRes Lock ι Ans)} :
      Run c t d → Step d e d' → Run c (t ++ [e]) d'

def IsFatal (o : Order Lock ι Ans) : Event (ThreadRes Lock ι Ans) → Prop
  | ⟨.ask q, r⟩     => o.Fatal q r
  | ⟨.acquire _, _⟩ => False
  | ⟨.release _, _⟩ => False
  | ⟨.spawn _, _⟩   => False
  | ⟨.join _, _⟩    => False

omit [DecidableEq Lock] in
-- A step that leaves the locks alone.
theorem Keeping.frame (h : Keeping o c held) {k : ThreadM Lock ι Ans Unit} {started : ι → Prop}
    (hk : Ordered o (o.level i) [] (held i) k) (hs : ∀ i, c.started i → started i) :
    Keeping o ⟨c.owner, started, Function.update c.threads i k⟩ held where
  ordered j := by
    by_cases hij : j = i
    case pos =>
      subst hij
      simpa using hk
    case neg => simpa [hij] using h.ordered j
  owner     := h.owner
  nodup     := h.nodup
  started j := fun hj => hs j (h.started j hj)

theorem Keeping.acquire (h : Keeping o c held) {k : ThreadM Lock ι Ans Unit}
    (hk : Ordered o (o.level i) [] (l :: held i) k) (hs : c.started i) (ho : c.owner l = none) :
    Keeping o ⟨Function.update c.owner l (some i), c.started, Function.update c.threads i k⟩
      (Function.update held i (l :: held i)) where
  ordered j := by
    by_cases hij : j = i
    case pos =>
      subst hij
      simpa using hk
    case neg => simpa [hij] using h.ordered j
  owner l' j := by
    have hl : l ∉ held j := fun hm => by simpa [ho] using (h.owner l j).mpr hm
    by_cases hll : l' = l
    case pos =>
      subst hll
      by_cases hij : j = i
      case pos => simp [hij]
      case neg => simp [hij, hl, Ne.symm hij]
    case neg =>
      by_cases hij : j = i
      case pos => simp [hij, hll, h.owner]
      case neg => simp [hij, hll, h.owner]
  nodup j := by
    have hl : l ∉ held i := fun hm => by simpa [ho] using (h.owner l i).mpr hm
    by_cases hij : j = i
    case pos =>
      subst hij
      simpa using ⟨hl, h.nodup j⟩
    case neg => simpa [hij] using h.nodup j
  started j := by
    by_cases hij : j = i
    case pos => exact fun _ => hij ▸ hs
    case neg => simpa [hij] using h.started j

theorem Keeping.release (h : Keeping o c held) {k : ThreadM Lock ι Ans Unit} {rest : List Lock}
    (hk : Ordered o (o.level i) [] rest k) (hs : c.started i) (hr : held i = l :: rest) :
    Keeping o ⟨Function.update c.owner l none, c.started, Function.update c.threads i k⟩
      (Function.update held i rest) where
  ordered j := by
    by_cases hij : j = i
    case pos =>
      subst hij
      simpa using hk
    case neg => simpa [hij] using h.ordered j
  owner l' j := by
    have hn := h.nodup i
    rw [hr, List.nodup_cons] at hn
    by_cases hll : l' = l
    case pos =>
      subst hll
      by_cases hij : j = i
      case pos => simp [hij, hn.left]
      case neg =>
        have hl : l' ∉ held j := fun hm => hij (h.eq hm (hr ▸ List.mem_cons_self))
        simp [hij, hl]
    case neg =>
      by_cases hij : j = i
      case pos =>
        subst hij
        simp [hll, h.owner, hr]
      case neg => simp [hij, hll, h.owner]
  nodup j := by
    by_cases hij : j = i
    case pos =>
      subst hij
      have hn := h.nodup j
      rw [hr, List.nodup_cons] at hn
      simpa using hn.right
    case neg => simpa [hij] using h.nodup j
  started j := by
    by_cases hij : j = i
    case pos => exact fun _ => hij ▸ hs
    case neg => simpa [hij] using h.started j

theorem Keeping.step (h : Keeping o c held) (s : Step c e d) (he : ¬IsFatal o e.2) :
    ∃ held, Keeping o d held := by
  cases s
  case acquire i l k hs hk ho =>
    have hi := h.ordered i
    rw [hk] at hi
    exact ⟨_, h.acquire hi.right hs ho⟩
  case release i l k hs hk =>
    have hi := h.ordered i
    rw [hk] at hi
    obtain ⟨rest, hr, hi⟩ := hi
    exact ⟨_, h.release hi hs hr⟩
  case spawn i j k hs hk =>
    have hi := h.ordered i
    rw [hk] at hi
    exact ⟨_, h.frame hi fun _ => Or.inr⟩
  case join i j k hs hk _ =>
    have hi := h.ordered i
    rw [hk] at hi
    exact ⟨_, h.frame hi.right.right fun _ => id⟩
  case ask i q k r hs hk =>
    have hi := h.ordered i
    rw [hk] at hi
    exact ⟨_, h.frame ((hi r).right he) fun _ => id⟩

-- The thread stands in front of a lock that it holds, and will wait forever.
def SelfDeadlocked (c : Crew Lock ι Ans) (i : ι) : Prop :=
  ∃ l k, c.threads i = op (.acquire l) k ∧ c.owner l = some i

theorem Keeping.fatal (h : Keeping o c held) (s : Step c e d) (he : IsFatal o e.2) :
    d.SelfDeadlocked e.1 := by
  cases s
  case acquire => exact he.elim
  case release => exact he.elim
  case spawn   => exact he.elim
  case join    => exact he.elim
  case ask i q k r hs hk =>
    have hi := h.ordered i
    rw [hk] at hi
    obtain ⟨l, hl, k', hkr⟩ := (hi r).left he
    exact ⟨l, k', by simpa using hkr, (h.owner l i).mpr hl⟩

section SelfDeadlocked

variable (h : c.SelfDeadlocked i)
include h

omit [DecidableEq Lock] [DecidableEq ι] in
theorem SelfDeadlocked.eq_of_waits (hw : c.Waits i j) : j = i := by
  obtain ⟨l, k, ht, ho⟩ := h
  cases hw
  case lock l' k' ht' ho' =>
    cases ht.symm.trans ht'
    exact Option.some.inj (ho'.symm.trans ho)
  case join ht' _ => cases ht.symm.trans ht'

omit [DecidableEq Lock] [DecidableEq ι] in
theorem SelfDeadlocked.eq_of_waits_star (hw : Relation.ReflTransGen c.Waits i j) : j = i := by
  induction hw
  case refl            => rfl
  case tail hw hj      => exact h.eq_of_waits (hj ▸ hw)

theorem SelfDeadlocked.not_canStep : ¬c.CanStep i := by
  obtain ⟨l, k, ht, ho⟩ := h
  rintro ⟨e, d, s⟩
  cases s
  case acquire ho' _ ht' =>
    cases ht.symm.trans ht'
    simp [ho] at ho'
  case release _ ht' => cases ht.symm.trans ht'
  case spawn _ ht'   => cases ht.symm.trans ht'
  case join _ ht'    => cases ht.symm.trans ht'
  case ask _ ht'     => cases ht.symm.trans ht'

end SelfDeadlocked

theorem Run.keeping {t : List (ι × Event (ThreadRes Lock ι Ans))} (r : Run c t d)
    (h : Keeping o c held) (ht : ∀ e ∈ t, ¬IsFatal o e.2) : ∃ held, Keeping o d held := by
  induction r
  case refl => exact ⟨held, h⟩
  case snoc s hi =>
    have ⟨ht, he⟩ := List.forall_mem_append.mp ht
    obtain ⟨held, h⟩ := hi ht
    exact h.step s (he _ (by simp))

variable [∀ q, Nonempty (Ans q)]

theorem Keeping.canStep_or_waits (h : Keeping o c held)
    (hr : c.Running i) : c.CanStep i ∨ ∃ j, c.Waits i j ∧ c.Running j := by
  obtain ⟨hs, hf⟩ := hr
  cases ht : c.threads i
  case ret a => exact absurd ht hf
  case op op k =>
    cases op
    case acquire l =>
      cases ho : c.owner l
      case none   => exact .inl ⟨_, _, .acquire hs ht ho⟩
      case some j => exact .inr ⟨j, .lock ht ho, h.running ((h.owner l j).mp ho)⟩
    case release => exact .inl ⟨_, _, .release hs ht⟩
    case spawn   => exact .inl ⟨_, _, .spawn hs ht⟩
    case join j  =>
      by_cases hj : c.Running j
      case pos => exact .inr ⟨j, .join ht hj, hj⟩
      case neg => exact .inl ⟨_, _, .join hs ht hj⟩
    case ask q   =>
      obtain ⟨r⟩ := ‹∀ q, Nonempty (Ans q)› q
      exact .inl ⟨⟨.ask q, r⟩, _, .ask hs ht⟩

theorem Keeping.progress (h : Keeping o c held)
    (hb : ∀ l, o.rank l ≤ bound) (hr : c.Running i) :
    ∃ j, Relation.ReflTransGen c.Waits i j ∧ c.CanStep j := by
  generalize hn : distance o bound c i = n
  induction n using Nat.strongRecOn generalizing i
  case ind n hi =>
    rcases h.canStep_or_waits hr with hs | ⟨j, hw, hj⟩
    case inl => exact ⟨i, .refl, hs⟩
    case inr =>
      have hnext (hd : distance o bound c j < n) :
          ∃ j, Relation.ReflTransGen c.Waits i j ∧ c.CanStep j := by
        obtain ⟨j', hw', hs⟩ := hi _ hd hj rfl
        exact ⟨j', .head hw hw', hs⟩
      cases hw
      case join ht _ => exact hnext (hn ▸ h.distance_joined ht)
      case lock l k ht ho =>
        have hd : distance o bound c i = bound - o.rank l := by simp only [distance, ht]
        rcases h.distance_holder hb ((h.owner l j).mp ho) with hlt | hfree
        case inl => exact hnext (by omega)
        case inr =>
          have hs := (h.canStep_or_waits hj).resolve_right fun ⟨j', hw', _⟩ => hfree j' hw'
          exact ⟨j, .single (.lock ht ho), hs⟩

-- Where nothing can go on any more, everything that was started has ended, and no lock is held.
theorem Keeping.quiescent (h : Keeping o c held)
    (hb : ∀ l, o.rank l ≤ bound) (hq : ∀ i, ¬c.CanStep i) :
    (∀ i, c.started i → c.Finished i) ∧ ∀ l, c.owner l = none := by
  have hf : ∀ i, ¬c.Running i := by
    intro i hr
    obtain ⟨j, _, hs⟩ := h.progress hb hr
    exact hq j hs
  refine ⟨fun i hs => by_contra fun hn => hf i ⟨hs, hn⟩, fun l => ?_⟩
  cases ho : c.owner l
  case none   => rfl
  case some j => exact absurd (h.running ((h.owner l j).mp ho)) (hf j)

-- Whoever has something left to do waits, in the end, for a thread that can go on, and where
-- nothing can go on any more, everything has ended.
structure Live (c : Crew Lock ι Ans) : Prop where
  progress  : ∀ i, c.Running i → ∃ j, Relation.ReflTransGen c.Waits i j ∧ c.CanStep j
  quiescent : (∀ i, ¬c.CanStep i) → (∀ i, c.started i → c.Finished i) ∧ ∀ l, c.owner l = none

theorem Keeping.live (h : Keeping o c held) (hb : ∀ l, o.rank l ≤ bound) : c.Live where
  progress  := fun _ => h.progress hb
  quiescent := h.quiescent hb

omit [∀ q, Nonempty (Ans q)] in
theorem SelfDeadlocked.not_live (h : c.SelfDeadlocked i) (hs : c.started i) : ¬c.Live := by
  intro hl
  have hr : c.Running i := by
    obtain ⟨l, k, ht, _⟩ := h
    exact ⟨hs, fun hf => by cases ht.symm.trans hf⟩
  obtain ⟨j, hw, hj⟩ := hl.progress i hr
  exact h.not_canStep (h.eq_of_waits_star hw ▸ hj)

omit [∀ q, Nonempty (Ans q)] in
theorem Step.started (s : Step c e d) : d.started e.1 := by
  cases s
  case acquire hs _ _ => exact hs
  case release hs _   => exact hs
  case spawn hs _     => exact .inr hs
  case join hs _ _    => exact hs
  case ask hs _       => exact hs

-- Every state that a run goes through.
def Through (c : Crew Lock ι Ans) (t : List (ι × Event (ThreadRes Lock ι Ans)))
    (P : Crew Lock ι Ans → Prop) : Prop :=
  ∀ u v d, t = u ++ v → Run c u d → P d

theorem Run.live_iff {t : List (ι × Event (ThreadRes Lock ι Ans))} (r : Run c t d)
    (h : Keeping o c held) (hb : ∀ l, o.rank l ≤ bound) :
    Through c t Live ↔ ∀ e ∈ t, ¬IsFatal o e.2 := by
  constructor
  case mp =>
    intro hr
    induction r
    case refl => simp
    case snoc t d d' e r s hi =>
      have ht := hi fun u v d hu => hr u (v ++ [e]) d (by simp [hu])
      refine List.forall_mem_append.mpr ⟨ht, List.forall_mem_singleton.mpr fun he => ?_⟩
      obtain ⟨held, hk⟩ := r.keeping h ht
      exact (hk.fatal s he).not_live s.started (hr _ [] d' (by simp) (r.snoc s))
  case mpr =>
    intro ht u v d' hu r'
    obtain ⟨held, hk⟩ := r'.keeping h fun e he => ht e (by simp [hu, he])
    exact hk.live hb

end Runs

end Crew
end LockOrder
