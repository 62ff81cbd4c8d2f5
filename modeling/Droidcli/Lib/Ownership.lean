import Droidcli.Lib.Interaction

namespace Interaction.Prog

theorem collects_of_forall {Op : Type} {Res : Op → Type} {α γ : Type} {p : Prog Res α}
    {f : Event Res → List γ} {Q : List γ → α → Prop} (h : ∀ l a, Q l a) : p.Collects f Q := by
  induction p generalizing Q
  case ret a     => exact h [] a
  case op o k hi => exact fun r => hi r fun l => h (f ⟨o, r⟩ ++ l)

namespace Emits

variable {Op : Type} {Res : Op → Type} {α γ : Type} {p q : Prog Res α} {t : List (Event Res)}

theorem collects {f : Event Res → List γ} {Q : List γ → α → Prop} {a : α}
    (h : Emits p t (ret a)) (hp : p.Collects f Q) : Q (t.flatMap f) a := by
  generalize hq : ret a = q at h
  induction h generalizing Q
  case refl =>
    subst hq
    exact hp
  case step _ hi => exact hi (hp _) hq

theorem returns {P : Event Res → Prop} {V : α → Prop} {a : α} (h : Emits p t (ret a))
    (hp : p.Returns P V) (ht : ∀ e ∈ t, P e) : V a := by
  generalize hq : ret a = q at h
  induction h
  case refl =>
    subst hq
    exact hp
  case step _ hi =>
    have ⟨he, ht⟩ := List.forall_mem_cons.mp ht
    exact hi (hp _ he) ht hq

end Emits
end Interaction.Prog

namespace Ownership

open Interaction Prog

-- What one event does with the things of a program: it uses some, which have to be there, and fills
-- some places, which have to be vacant. It drops some and gives some. The surroundings promise that
-- the `fresh` ones are not there yet.
structure Deal (Thing : Type) where
  used : List Thing
  vacant : List Thing
  dropped : List Thing
  fresh : List Thing
  given : List Thing

namespace Deal

variable {Thing : Type} (d : Deal Thing) (live : Set Thing)

def none : Deal Thing :=
  ⟨[], [], [], [], []⟩

def use (things : List Thing) : Deal Thing :=
  { Deal.none with used := things }

-- The thing is given back.
def free (things : List Thing) : Deal Thing :=
  { Deal.none with used := things, dropped := things }

def make (used things : List Thing) : Deal Thing :=
  { Deal.none with used, fresh := things, given := things }

def Proper : Prop :=
  (∀ x ∈ d.used, x ∈ live) ∧ ∀ x ∈ d.vacant, x ∉ live

def Fresh : Prop :=
  ∀ x ∈ d.fresh, x ∉ live

def after : Set Thing :=
  {x | x ∈ live ∧ x ∉ d.dropped ∨ x ∈ d.given}

variable {live} {used things : List Thing}

-- What is made and given back leaves no trace.
theorem diff_of_fresh (h : ∀ x ∈ things, x ∉ live) :
    {x | x ∈ {x | x ∈ live ∨ x ∈ things} ∧ x ∉ things} = live := by
  ext x
  show (x ∈ live ∨ x ∈ things) ∧ x ∉ things ↔ x ∈ live
  constructor
  case mp =>
    rintro ⟨hx, hn⟩
    exact hx.resolve_right hn
  case mpr => exact fun hx => ⟨.inl hx, fun hn => h x hn hx⟩

@[simp]
theorem proper_use : (use things).Proper live ↔ ∀ x ∈ things, x ∈ live := by
  simp [Proper, use, none]

@[simp]
theorem after_use : (use things).after live = live := by
  simp [after, use, none]

@[simp]
theorem proper_free : (free things).Proper live ↔ ∀ x ∈ things, x ∈ live := by
  simp [Proper, free, none]

@[simp]
theorem after_free : (free things).after live = {x | x ∈ live ∧ x ∉ things} := by
  simp [after, free, none]

@[simp]
theorem proper_make : (make used things).Proper live ↔ ∀ x ∈ used, x ∈ live := by
  simp [Proper, make, none]

@[simp]
theorem fresh_make : (make used things).Fresh live ↔ ∀ x ∈ things, x ∉ live :=
  .rfl

@[simp]
theorem after_make : (make used things).after live = {x | x ∈ live ∨ x ∈ things} := by
  simp [after, make, none]

end Deal

variable {Op Thing : Type} {Res : Op → Type} {α β : Type} (deal : Event Res → Deal Thing)

def liveAfter (live : Set Thing) (t : List (Event Res)) : Set Thing :=
  t.foldl (fun live e => (deal e).after live) live

-- Each event finds the things that it uses, and none that it would lose.
def InOrder (live : Set Thing) : List (Event Res) → Prop
  | []     => True
  | e :: t => (deal e).Proper live ∧ InOrder ((deal e).after live) t

-- The surroundings give out nothing twice.
def Possible (live : Set Thing) : List (Event Res) → Prop
  | []     => True
  | e :: t => (deal e).Fresh live ∧ Possible ((deal e).after live) t

-- Whatever it is answered, the program keeps its things in order, and at its end `Q` holds of the
-- events there have been, of what it returns and of the things that are left.
def Keeps : (List (Event Res) → α → Set Thing → Prop) → Prog Res α → Set Thing → Prop
  | Q, ret a, live  => Q [] a live
  | Q, op o k, live =>
    ∀ r, (deal ⟨o, r⟩).Fresh live → (deal ⟨o, r⟩).Proper live ∧
      Keeps (fun t => Q (⟨o, r⟩ :: t)) (k r) ((deal ⟨o, r⟩).after live)

variable {deal} {live : Set Thing} {t : List (Event Res)} {p q : Prog Res α}
  {Q Q' : List (Event Res) → α → Set Thing → Prop}

theorem keeps_ret {a : α} (h : Q [] a live) : Keeps deal Q (ret a) live :=
  h

theorem Keeps.mono (h : Keeps deal Q p live) (hQ : ∀ t a live, Q t a live → Q' t a live) :
    Keeps deal Q' p live := by
  induction p generalizing live Q Q'
  case ret a => exact hQ [] a live h
  case op o k hi =>
    intro r hr
    have ⟨hp, hk⟩ := h r hr
    exact ⟨hp, hi r hk fun t => hQ (⟨o, r⟩ :: t)⟩

theorem keeps_bind {f : α → Prog Res β} {R : List (Event Res) → β → Set Thing → Prop}
    (h : Keeps deal Q p live)
    (hf : ∀ t a live, Q t a live → Keeps deal (fun u => R (t ++ u)) (f a) live) :
    Keeps deal R (p >>= f) live := by
  induction p generalizing live Q R
  case ret a => exact hf [] a live h
  case op o k hi =>
    intro r hr
    have ⟨hp, hk⟩ := h r hr
    exact ⟨hp, hi r hk fun t => hf (⟨o, r⟩ :: t)⟩

section Calls

variable {o : Op} {f : Res o → Prog Res α} {things : List Thing}

theorem keeps_call (h : ∀ r, (deal ⟨o, r⟩).Fresh live → (deal ⟨o, r⟩).Proper live ∧
      Keeps deal (fun t => Q (⟨o, r⟩ :: t)) (f r) ((deal ⟨o, r⟩).after live)) :
    Keeps deal Q (perform o >>= f) live :=
  h

theorem keeps_use (hd : ∀ r, deal ⟨o, r⟩ = .use things) (hx : ∀ x ∈ things, x ∈ live)
    (hk : ∀ r, Keeps deal (fun t => Q (⟨o, r⟩ :: t)) (f r) live) :
    Keeps deal Q (perform o >>= f) live := by
  refine keeps_call fun r _ => ?_
  rw [hd r, Deal.proper_use, Deal.after_use]
  exact ⟨hx, hk r⟩

-- A call that has nothing to do with the things.
theorem keeps_ask (hd : ∀ r, deal ⟨o, r⟩ = .none)
    (hk : ∀ r, Keeps deal (fun t => Q (⟨o, r⟩ :: t)) (f r) live) :
    Keeps deal Q (perform o >>= f) live := by
  have hx : ∀ x ∈ ([] : List Thing), x ∈ live := by simp
  exact keeps_use hd hx hk

theorem keeps_free (hd : ∀ r, deal ⟨o, r⟩ = .free things) (hx : ∀ x ∈ things, x ∈ live)
    (hk : ∀ r, Keeps deal (fun t => Q (⟨o, r⟩ :: t)) (f r) {x | x ∈ live ∧ x ∉ things}) :
    Keeps deal Q (perform o >>= f) live := by
  refine keeps_call fun r _ => ?_
  rw [hd r, Deal.proper_free, Deal.after_free]
  exact ⟨hx, hk r⟩

theorem keeps_make {made : Res o → List Thing} (hd : ∀ r, deal ⟨o, r⟩ = .make things (made r))
    (hx : ∀ x ∈ things, x ∈ live)
    (hk : ∀ r, (∀ x ∈ made r, x ∉ live) →
      Keeps deal (fun t => Q (⟨o, r⟩ :: t)) (f r) {x | x ∈ live ∨ x ∈ made r}) :
    Keeps deal Q (perform o >>= f) live := by
  refine keeps_call fun r => ?_
  rw [hd r, Deal.fresh_make, Deal.proper_make, Deal.after_make]
  exact fun hn => ⟨hx, hk r hn⟩

end Calls

theorem Keeps.emits (h : Keeps deal Q p live) (he : Emits p t q) (hp : Possible deal live t) :
    InOrder deal live t ∧ Keeps deal (fun u => Q (t ++ u)) q (liveAfter deal live t) := by
  induction he generalizing live Q
  case refl => exact ⟨trivial, h⟩
  case step r _ _ _ hi =>
    have ⟨ho, hk⟩ := h r hp.left
    have ⟨ht, hq⟩ := hi hk hp.right
    exact ⟨⟨ho, ht⟩, hq⟩

-- A run to the end.
theorem Keeps.done {a : α} (h : Keeps deal Q p live) (he : Emits p t (ret a))
    (hp : Possible deal live t) : InOrder deal live t ∧ Q t a (liveAfter deal live t) := by
  have ⟨ho, hq⟩ := h.emits he hp
  have hq : Q (t ++ []) a (liveAfter deal live t) := hq
  exact ⟨ho, by simpa using hq⟩

end Ownership
