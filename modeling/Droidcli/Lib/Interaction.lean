import Mathlib

namespace Interaction

-- A program that talks to its surroundings through the operations of `Op`: it either returns or
-- performs one operation and goes on with the answer. What an operation does is left open.
inductive Prog {Op : Type} (Res : Op → Type) (α : Type) : Type
  | ret (a : α)
  | op (o : Op) (k : Res o → Prog Res α)

structure Event {Op : Type} (Res : Op → Type) where
  op : Op
  res : Res op

-- A handler says what each operation does to a state and what it answers.
abbrev Handler {Op : Type} (Res : Op → Type) (σ : Type) :=
  (o : Op) → σ → Res o × σ

variable {Op : Type} {Res : Op → Type} {α β γ σ ι : Type}

instance [DecidableEq Op] [∀ o, DecidableEq (Res o)] : DecidableEq (Event Res)
  | ⟨o, r⟩, ⟨o', r'⟩ =>
    if h : o = o' then decidable_of_iff (h ▸ r = r') (by subst h; simp)
    else isFalse (by simp [h])

namespace Prog

def bind : Prog Res α → (α → Prog Res β) → Prog Res β
  | ret a, f  => f a
  | op o k, f => op o fun r => (k r).bind f

instance : Monad (Prog Res) where
  pure := ret
  bind := bind

def perform (o : Op) : Prog Res (Res o) :=
  op o ret

-- Each operation replaced by a program of other operations.
def interpret {Op' : Type} {Res' : Op' → Type} (f : (o : Op) → Prog Res' (Res o)) :
    Prog Res α → Prog Res' α
  | ret a  => ret a
  | op o k => f o >>= fun r => (k r).interpret f

section Monad

variable {a : α} {o : Op} {k : Res o → Prog Res α} {f : α → Prog Res β}

@[simp]
theorem pure_def : (pure a : Prog Res α) = ret a :=
  rfl

@[simp]
theorem ret_bind : (ret a : Prog Res α) >>= f = f a :=
  rfl

@[simp]
theorem op_bind : op o k >>= f = op o fun r => k r >>= f :=
  rfl

@[simp]
theorem perform_bind {f : Res o → Prog Res β} : perform o >>= f = op o f :=
  rfl

end Monad

-- Every operation the program may perform, whatever it is answered, satisfies `P`.
def Always (P : Event Res → Prop) : Prog Res α → Prop
  | ret _  => True
  | op o k => ∀ r, P ⟨o, r⟩ ∧ (k r).Always P

section Always

variable {P Q : Event Res → Prop} {p : Prog Res α} {f : α → Prog Res β}

@[simp]
theorem always_ret {a : α} : (ret a : Prog Res α).Always P :=
  trivial

@[simp]
theorem always_op {o : Op} {k : Res o → Prog Res α} :
    (op o k).Always P ↔ ∀ r, P ⟨o, r⟩ ∧ (k r).Always P :=
  .rfl

theorem always_perform {o : Op} : (perform o : Prog Res (Res o)).Always P ↔ ∀ r, P ⟨o, r⟩ := by
  simp [perform]

theorem always_bind (hp : p.Always P) (hf : ∀ a, (f a).Always P) : (p >>= f).Always P := by
  induction p
  case ret a     => exact hf a
  case op o k hi => exact fun r => ⟨(hp r).left, hi r (hp r).right⟩

theorem Always.mono (h : ∀ e, P e → Q e) (hp : p.Always P) : p.Always Q := by
  induction p
  case ret       => trivial
  case op o k hi => exact fun r => ⟨h _ (hp r).left, hi r (hp r).right⟩

end Always

-- What the program may return satisfies `V`, if all its answers satisfy `P`.
def Returns (P : Event Res → Prop) (V : α → Prop) : Prog Res α → Prop
  | ret a  => V a
  | op o k => ∀ r, P ⟨o, r⟩ → (k r).Returns P V

section Returns

variable {P : Event Res → Prop} {V : α → Prop} {U : β → Prop} {p : Prog Res α}
  {f : α → Prog Res β}

@[simp]
theorem returns_ret {a : α} : (ret a : Prog Res α).Returns P V ↔ V a :=
  .rfl

@[simp]
theorem returns_op {o : Op} {k : Res o → Prog Res α} :
    (op o k).Returns P V ↔ ∀ r, P ⟨o, r⟩ → (k r).Returns P V :=
  .rfl

theorem returns_of_forall (h : ∀ a, V a) : p.Returns P V := by
  induction p
  case ret a     => exact h a
  case op o k hi => exact fun r _ => hi r

theorem Returns.mono {V' : α → Prop} (hV : ∀ a, V a → V' a) (hp : p.Returns P V) :
    p.Returns P V' := by
  induction p
  case ret a     => exact hV a hp
  case op o k hi => exact fun r hr => hi r (hp r hr)

theorem returns_bind (hp : p.Returns P V) (hf : ∀ a, V a → (f a).Returns P U) :
    (p >>= f).Returns P U := by
  induction p
  case ret a     => exact hf a hp
  case op o k hi => exact fun r hr => hi r (hp r hr)

-- Whatever comes first, if what follows does not depend on it.
theorem returns_bind_of_forall (hf : ∀ a, (f a).Returns P U) : (p >>= f).Returns P U :=
  returns_bind (@returns_of_forall _ _ _ P (fun _ => True) p fun _ => trivial) fun a _ => hf a

end Returns

-- What `f` collects from the events of a complete run satisfies `Q`, together with what the run
-- returns, whatever it is answered.
def Collects (f : Event Res → List γ) : (List γ → α → Prop) → Prog Res α → Prop
  | Q, ret a  => Q [] a
  | Q, op o k => ∀ r, (k r).Collects f fun l a => Q (f ⟨o, r⟩ ++ l) a

section Collects

variable {f : Event Res → List γ} {Q : List γ → α → Prop} {R : List γ → β → Prop} {P : γ → Prop}
  {V : α → Prop} {p : Prog Res α} {g : α → Prog Res β}

@[simp]
theorem collects_ret {a : α} : (ret a : Prog Res α).Collects f Q ↔ Q [] a :=
  .rfl

theorem Collects.mono {Q' : List γ → α → Prop} (h : p.Collects f Q)
    (hQ : ∀ l a, Q l a → Q' l a) : p.Collects f Q' := by
  induction p generalizing Q Q'
  case ret a     => exact hQ [] a h
  case op o k hi => exact fun r => hi r (h r) fun _ _ => hQ _ _

theorem collects_bind (hp : p.Collects f Q)
    (hg : ∀ l a, Q l a → (g a).Collects f fun l' b => R (l ++ l') b) :
    (p >>= g).Collects f R := by
  induction p generalizing Q R
  case ret a => simpa using hg [] a hp
  case op o k hi =>
    intro r
    apply hi r (hp r)
    intro l a hq
    simpa using hg _ a hq

theorem collects_of_always (hp : p.Always fun e => ∀ c ∈ f e, P c)
    (hv : p.Returns (fun _ => True) V) : p.Collects f fun l a => (∀ c ∈ l, P c) ∧ V a := by
  suffices h : ∀ l : List γ, (∀ c ∈ l, P c) → p.Collects f fun l' a => (∀ c ∈ l ++ l', P c) ∧ V a by
    simpa using h [] (by simp)
  induction p
  case ret a => exact fun l hl => ⟨by simpa using hl, hv⟩
  case op o k hi =>
    intro l hl r
    have ⟨he, hk⟩ := hp r
    have h := hi r hk (hv r trivial) (l ++ f ⟨o, r⟩) (List.forall_mem_append.mpr ⟨hl, he⟩)
    simpa using h

end Collects

-- The operations the program performs weigh at most `n` together, whatever it is answered.
def Within (w : Event Res → Nat) : Prog Res α → Nat → Prop
  | ret _, _  => True
  | op o k, n => ∀ r, ∃ m, w ⟨o, r⟩ + m ≤ n ∧ (k r).Within w m

section Within

variable {w : Event Res → Nat} {p : Prog Res α} {f : α → Prog Res β} {m n : Nat}

theorem Within.mono (h : m ≤ n) (hp : p.Within w m) : p.Within w n := by
  cases p
  case ret => trivial
  case op o k =>
    intro r
    have ⟨l, hl, hk⟩ := hp r
    exact ⟨l, Nat.le_trans hl h, hk⟩

theorem within_bind (hp : p.Within w m) (hf : ∀ a, (f a).Within w n) :
    (p >>= f).Within w (m + n) := by
  induction p generalizing m
  case ret a => exact (hf a).mono (Nat.le_add_left n m)
  case op o k hi =>
    intro r
    have ⟨l, hl, hk⟩ := hp r
    exact ⟨l + n, by omega, hi r hk⟩

end Within

-- `p` may perform the events `t`, one after the other, and is then left with `q`.
inductive Emits : Prog Res α → List (Event Res) → Prog Res α → Prop
  | refl {p : Prog Res α} : Emits p [] p
  | step {o : Op} {k : Res o → Prog Res α} {r : Res o} {t : List (Event Res)} {q : Prog Res α} :
      Emits (k r) t q → Emits (op o k) (⟨o, r⟩ :: t) q

namespace Emits

variable {p q : Prog Res α} {t : List (Event Res)} {P : Event Res → Prop}

theorem snoc {o : Op} {k : Res o → Prog Res α} {r : Res o} (h : Emits p t (op o k)) :
    Emits p (t ++ [⟨o, r⟩]) (k r) := by
  generalize hq : op o k = q at h
  induction h
  case refl      => subst hq; exact .step .refl
  case step _ hi => exact .step (hi hq)

theorem append {r : Prog Res α} {u : List (Event Res)} (h : Emits p t q) (h' : Emits q u r) :
    Emits p (t ++ u) r := by
  induction h
  case refl      => exact h'
  case step _ hi => exact .step (hi h')

theorem op_inv {o : Op} {k : Res o → Prog Res α} (h : Emits (op o k) t q) :
    t = [] ∧ q = op o k ∨ ∃ r u, t = ⟨o, r⟩ :: u ∧ Emits (k r) u q := by
  cases h
  case refl    => exact .inl ⟨rfl, rfl⟩
  case step hk => exact .inr ⟨_, _, rfl, hk⟩

theorem ret_inv {a : α} (h : Emits (ret a) t q) : t = [] := by
  cases h
  rfl

theorem ne_op_of_ret {a : α} {o : Op} {k : Res o → Prog Res α} : ¬Emits (ret a) t (op o k) :=
  nofun

theorem always (h : Emits p t q) (hp : p.Always P) : (∀ e ∈ t, P e) ∧ q.Always P := by
  induction h
  case refl => exact ⟨by simp, hp⟩
  case step r _ _ _ hi =>
    have ⟨he, hk⟩ := hp r
    have ⟨ht, hq⟩ := hi hk
    exact ⟨List.forall_mem_cons.mpr ⟨he, ht⟩, hq⟩

theorem within {w : Event Res → Nat} {n : Nat} (h : Emits p t q) (hp : p.Within w n) :
    (t.map w).sum ≤ n := by
  induction h generalizing n
  case refl => simp
  case step r _ _ _ hi =>
    have ⟨m, hm, hk⟩ := hp r
    have := hi hk
    simp only [List.map_cons, List.sum_cons]
    omega

end Emits

structure Outcome {Op : Type} (Res : Op → Type) (α σ : Type) where
  value : α
  state : σ
  trace : List (Event Res)

-- Runs a program to its end against a handler.
def run (h : Handler Res σ) : Prog Res α → σ → Outcome Res α σ
  | ret a, s  => ⟨a, s, []⟩
  | op o k, s =>
    let (r, s') := h o s
    let out := (k r).run h s'
    { out with trace := ⟨o, r⟩ :: out.trace }

section Run

variable {h : Handler Res σ} {p : Prog Res α} {f : α → Prog Res β} {s : σ}

@[simp]
theorem run_ret {a : α} : (ret a : Prog Res α).run h s = ⟨a, s, []⟩ :=
  rfl

theorem run_op {o : Op} {k : Res o → Prog Res α} :
    (op o k).run h s =
      { (k (h o s).1).run h (h o s).2 with
        trace := ⟨o, (h o s).1⟩ :: ((k (h o s).1).run h (h o s).2).trace } :=
  rfl

theorem run_op_of_eq {o : Op} {k : Res o → Prog Res α} {r : Res o} {s' : σ}
    (he : h o s = (r, s')) :
    (op o k).run h s = { (k r).run h s' with trace := ⟨o, r⟩ :: ((k r).run h s').trace } := by
  simp [run_op, he]

theorem run_perform {o : Op} :
    (perform o : Prog Res (Res o)).run h s = ⟨(h o s).1, (h o s).2, [⟨o, (h o s).1⟩]⟩ :=
  rfl

theorem run_bind :
    (p >>= f).run h s =
      { (f (p.run h s).value).run h (p.run h s).state with
        trace := (p.run h s).trace ++ ((f (p.run h s).value).run h (p.run h s).state).trace } := by
  induction p generalizing s
  case ret       => simp
  case op o k hi => simp [run_op, hi]

theorem run_emits : Emits p (p.run h s).trace (ret (p.run h s).value) := by
  induction p generalizing s
  case ret       => exact .refl
  case op o k hi => exact .step (hi _)

theorem Always.run {P : Event Res → Prop} (hp : p.Always P) : ∀ e ∈ (p.run h s).trace, P e :=
  (run_emits.always hp).left

theorem Collects.run {f : Event Res → List γ} {Q : List γ → α → Prop} (hp : p.Collects f Q) :
    Q ((p.run h s).trace.flatMap f) (p.run h s).value := by
  induction p generalizing s Q
  case ret       => exact hp
  case op o k hi => exact hi _ (hp _)

theorem Returns.run {P : Event Res → Prop} {V : α → Prop} (hp : p.Returns P V)
    (ht : ∀ e ∈ (p.run h s).trace, P e) : V (p.run h s).value := by
  induction p generalizing s
  case ret => exact hp
  case op o k hi =>
    have ⟨he, ht⟩ := List.forall_mem_cons.mp ht
    exact hi _ (hp _ he) ht

-- Every step of the run satisfies `C`, which may look at the operation and the state before it.
def Meets (h : Handler Res σ) (C : Op → σ → Prop) : Prog Res α → σ → Prop
  | ret _, _  => True
  | op o k, s => C o s ∧ (k (h o s).1).Meets h C (h o s).2

instance instDecidableMeets {C : Op → σ → Prop} [∀ o s, Decidable (C o s)] (h : Handler Res σ) :
    (p : Prog Res α) → (s : σ) → Decidable (p.Meets h C s)
  | ret _, _  => inferInstanceAs (Decidable True)
  | op o k, s =>
    have : Decidable ((k (h o s).1).Meets h C (h o s).2) := instDecidableMeets h _ _
    inferInstanceAs (Decidable (C o s ∧ (k (h o s).1).Meets h C (h o s).2))

section Meets

variable {C : Op → σ → Prop} {P : Event Res → Prop}

@[simp]
theorem meets_ret {a : α} : (ret a : Prog Res α).Meets h C s :=
  trivial

@[simp]
theorem meets_perform {o : Op} : (perform o : Prog Res (Res o)).Meets h C s ↔ C o s := by
  simp [perform, Meets]

theorem meets_op_of_eq {o : Op} {k : Res o → Prog Res α} {r : Res o} {s' : σ}
    (he : h o s = (r, s')) : (op o k).Meets h C s ↔ C o s ∧ (k r).Meets h C s' := by
  simp [Meets, he]

theorem meets_bind :
    (p >>= f).Meets h C s ↔ p.Meets h C s ∧ (f (p.run h s).value).Meets h C (p.run h s).state := by
  induction p generalizing s
  case ret       => simp
  case op o k hi => simp [Meets, run_op, hi, and_assoc]

theorem Always.meets (hC : ∀ e s, P e → C e.op s) (hp : p.Always P) : p.Meets h C s := by
  induction p generalizing s
  case ret       => trivial
  case op o k hi => exact ⟨hC ⟨o, (h o s).1⟩ s (hp _).left, hi _ (hp _).right⟩

theorem Meets.trace {e : Event Res} (hm : p.Meets h C s) (he : e ∈ (p.run h s).trace) :
    ∃ s', C e.op s' := by
  induction p generalizing s
  case ret => nomatch he
  case op o k hi =>
    obtain rfl | he := List.mem_cons.mp he
    · exact ⟨s, hm.left⟩
    · exact hi _ hm.right he

-- An invariant over the events so far and the state, kept by every step that satisfies `P` and
-- `C`, holds before every step of a run whose steps all do, and at its end.
theorem Always.run_invariant {I : List (Event Res) → σ → Prop} {t : List (Event Res)}
    (hI : ∀ t o s, I t s → P ⟨o, (h o s).1⟩ → C o s → I (t ++ [⟨o, (h o s).1⟩]) (h o s).2)
    (hp : p.Always P) (hm : p.Meets h C s) (hs : I t s) :
    I (t ++ (p.run h s).trace) (p.run h s).state ∧
      ∀ u e v, (p.run h s).trace = u ++ e :: v → ∃ s', I (t ++ u) s' ∧ C e.op s' := by
  induction p generalizing s t
  case ret => exact ⟨by simpa using hs, by simp⟩
  case op o k hi =>
    have ⟨hend, hsplit⟩ := hi _ (hp _).right hm.right (hI t o s hs (hp _).left hm.left)
    refine ⟨by simpa [run_op] using hend, fun u e v ht => ?_⟩
    cases u
    case nil =>
      injection ht with he _
      exact ⟨s, by simpa using hs, he ▸ hm.left⟩
    case cons e' u =>
      injection ht with he ht
      have ⟨s', hs', hc⟩ := hsplit u e v ht
      exact ⟨s', by simpa [← he] using hs', hc⟩

end Meets

end Run

end Prog

-- Programs that share one state. Each thread is a program of its own; a step performs the next
-- operation of some thread on the state, so that the threads interleave in every order.
structure Pool {Op : Type} (Res : Op → Type) (α σ ι : Type) where
  state : σ
  threads : ι → Prog Res α

namespace Pool

open Prog

inductive Run [DecidableEq ι] (h : ι → Handler Res σ) (c : Pool Res α σ ι) :
    List (ι × Event Res) → Pool Res α σ ι → Prop
  | refl : Run h c [] c
  | step {t : List (ι × Event Res)} {d : Pool Res α σ ι} {i : ι} {o : Op}
      {k : Res o → Prog Res α} :
      Run h c t d → d.threads i = op o k →
      Run h c (t ++ [(i, ⟨o, (h i o d.state).1⟩)])
        ⟨(h i o d.state).2, Function.update d.threads i (k (h i o d.state).1)⟩

-- The events of one thread.
def eventsOf [DecidableEq ι] (i : ι) (t : List (ι × Event Res)) : List (Event Res) :=
  t.filterMap fun (j, e) => if j = i then some e else none

section Run

variable [DecidableEq ι] {h : ι → Handler Res σ} {c d : Pool Res α σ ι}
  {t : List (ι × Event Res)} {i : ι} {e : Event Res}

theorem mem_eventsOf : e ∈ eventsOf i t ↔ (i, e) ∈ t := by
  simp [eventsOf]

theorem eventsOf_append {u : List (ι × Event Res)} :
    eventsOf i (t ++ u) = eventsOf i t ++ eventsOf i u := by
  simp [eventsOf]

-- Within a pool a thread does what its program alone may do.
theorem Run.emits (r : Run h c t d) : Emits (c.threads i) (eventsOf i t) (d.threads i) := by
  induction r
  case refl => exact .refl
  case step d j o k r hj hi =>
    rw [eventsOf_append]
    by_cases hij : j = i
    case pos =>
      subst hij
      simpa [eventsOf] using (hj ▸ hi).snoc
    case neg =>
      have hne : i ≠ j := Ne.symm hij
      simpa [eventsOf, hij, hne] using hi

theorem eventsOf_eq {n : Nat} (h : t[n]? = some (i, e)) :
    eventsOf i t = eventsOf i (t.take n) ++ e :: eventsOf i (t.drop (n + 1)) := by
  have ⟨hn, he⟩ := List.getElem?_eq_some_iff.mp h
  conv_lhs => rw [← List.take_append_drop n t, List.drop_eq_getElem_cons hn, he, eventsOf_append]
  simp [eventsOf]

-- The step that an event of a run is.
theorem Run.step_at {n : Nat} {o : Op} {x : Res o} (r : Run h c t d)
    (ht : t[n]? = some (i, ⟨o, x⟩)) : ∃ d' k, Run h c (t.take n) d' ∧ d'.threads i = op o k ∧
      x = (h i o d'.state).1 := by
  induction r
  case refl => simp at ht
  case step t d j o' k r hj hi =>
    by_cases hn : n < t.length
    case pos =>
      rw [List.getElem?_append_left hn] at ht
      rw [List.take_append_of_le_length (Nat.le_of_lt hn)]
      exact hi ht
    case neg =>
      have hlt := (List.getElem?_eq_some_iff.mp ht).1
      obtain rfl : n = t.length := by
        simp only [List.length_append, List.length_cons, List.length_nil] at hlt
        omega
      simp only [List.getElem?_concat_length, Option.some.injEq, Prod.mk.injEq,
        Event.mk.injEq] at ht
      obtain ⟨rfl, rfl, rfl⟩ := ht
      exact ⟨d, k, by simpa using r, hj, rfl⟩

-- The state in which an event of a run happened.
theorem Run.at {n : Nat} {o : Op} {x : Res o} (r : Run h c t d)
    (ht : t[n]? = some (i, ⟨o, x⟩)) : ∃ d', Run h c (t.take n) d' ∧ x = (h i o d'.state).1 :=
  have ⟨d', _, r', _, hx⟩ := r.step_at ht
  ⟨d', r', hx⟩

theorem Run.snoc_inv {o : Op} {x : Res o} (r : Run h c (t ++ [(i, ⟨o, x⟩)]) d) :
    ∃ d' k, Run h c t d' ∧ d'.threads i = op o k ∧ x = (h i o d'.state).1 ∧
      d = ⟨(h i o d'.state).2, Function.update d'.threads i (k (h i o d'.state).1)⟩ := by
  generalize hu : t ++ [(i, ⟨o, x⟩)] = u at r
  cases r
  case refl => simp at hu
  case step u d' j o' k r hj =>
    have ⟨ht, he⟩ := List.append_inj' hu rfl
    simp only [List.cons.injEq, Prod.mk.injEq, Event.mk.injEq, and_true] at he
    obtain ⟨rfl, rfl, he⟩ := he
    exact ⟨d', k, ht ▸ r, hj, eq_of_heq he, rfl⟩

-- The events of a run determine where it ends.
theorem Run.unique {d' : Pool Res α σ ι} (r : Run h c t d) (r' : Run h c t d') : d = d' := by
  induction r generalizing d'
  case refl =>
    generalize hu : ([] : List (ι × Event Res)) = u at r'
    cases r'
    case refl => rfl
    case step => simp at hu
  case step d j o k r hj hi =>
    have ⟨d'', k', r'', hj', _, hd⟩ := r'.snoc_inv
    obtain rfl := hi r''
    rw [hj] at hj'
    cases hj'
    exact hd.symm

-- A thread may run to its end without the others.
theorem Run.thread {p : Prog Res α} (r : Run h c t d) (hp : d.threads i = p) :
    Run h c (t ++ (p.run (h i) d.state).trace.map (i, ·))
      ⟨(p.run (h i) d.state).state, Function.update d.threads i (ret (p.run (h i) d.state).value)⟩ := by
  induction p generalizing t d
  case ret a =>
    have hd : Function.update d.threads i (ret a) = d.threads := by simp [← hp]
    simpa [hd] using r
  case op o k hi =>
    have := hi (h i o d.state).1 (r.step hp) (by simp)
    simpa [run_op] using this

-- Runs some of the threads to their ends, one after the other.
def serially (h : ι → Handler Res σ) : List ι → Pool Res α σ ι →
    List (ι × Event Res) × Pool Res α σ ι
  | [], c      => ([], c)
  | i :: is, c =>
    let out := (c.threads i).run (h i) c.state
    let (t, d) := serially h is ⟨out.state, Function.update c.threads i (ret out.value)⟩
    (out.trace.map (i, ·) ++ t, d)

theorem Run.serially {is : List ι} (r : Run h c t d) :
    Run h c (t ++ (Pool.serially h is d).1) (Pool.serially h is d).2 := by
  induction is generalizing t d
  case nil          => simpa [Pool.serially] using r
  case cons i is hi => simpa [Pool.serially] using hi (r.thread rfl)

-- An invariant over the events so far and the state, kept by every step, holds at the end of
-- every run.
theorem Run.invariant {I : List (ι × Event Res) → σ → Prop} (r : Run h c t d)
    (hc : I [] c.state)
    (hI : ∀ t s i o, I t s → I (t ++ [(i, ⟨o, (h i o s).1⟩)]) (h i o s).2) : I t d.state := by
  induction r
  case refl           => exact hc
  case step r _ hi    => exact hI _ _ _ _ hi

end Run

-- A run in which every step satisfies `C`, which may look at the operation and the state before it.
inductive Guarded [DecidableEq ι] (C : Op → σ → Prop) (h : ι → Handler Res σ)
    (c : Pool Res α σ ι) : List (ι × Event Res) → Pool Res α σ ι → Prop
  | refl : Guarded C h c [] c
  | step {t : List (ι × Event Res)} {d : Pool Res α σ ι} {i : ι} {o : Op}
      {k : Res o → Prog Res α} :
      Guarded C h c t d → d.threads i = op o k → C o d.state →
      Guarded C h c (t ++ [(i, ⟨o, (h i o d.state).1⟩)])
        ⟨(h i o d.state).2, Function.update d.threads i (k (h i o d.state).1)⟩

section Guarded

variable [DecidableEq ι] {C : Op → σ → Prop} {h : ι → Handler Res σ} {c d : Pool Res α σ ι}
  {t : List (ι × Event Res)} {i : ι}

theorem Guarded.run (g : Guarded C h c t d) : Run h c t d := by
  induction g
  case refl            => exact .refl
  case step _ hi _ hr  => exact hr.step hi

theorem Guarded.thread {p : Prog Res α} (g : Guarded C h c t d) (hp : d.threads i = p)
    (hm : p.Meets (h i) C d.state) :
    Guarded C h c (t ++ (p.run (h i) d.state).trace.map (i, ·))
      ⟨(p.run (h i) d.state).state, Function.update d.threads i (ret (p.run (h i) d.state).value)⟩ := by
  induction p generalizing t d
  case ret a =>
    have hd : Function.update d.threads i (ret a) = d.threads := by simp [← hp]
    simpa [hd] using g
  case op o k hi =>
    have := hi (h i o d.state).1 (g.step hp hm.left) (by simp) hm.right
    simpa [run_op] using this

end Guarded

end Pool
end Interaction
