import Mathlib

namespace Trace

variable {σ ε : Type} {step : σ → ε → σ → Prop} {s s' s'' : σ} {t u : List ε} {e : ε}

-- A run of a system whose steps are observed, with what is observed of it.
inductive Run (step : σ → ε → σ → Prop) (s : σ) : List ε → σ → Prop
  | nil : Run step s [] s
  | snoc {t : List ε} {e : ε} {s' s'' : σ} :
    Run step s t s' → step s' e s'' → Run step s (t ++ [e]) s''

-- A system with at most one next state for each event.
def Functional (step : σ → ε → σ → Prop) : Prop :=
  ∀ ⦃s e s₁ s₂⦄, step s e s₁ → step s e s₂ → s₁ = s₂

namespace Run

theorem snoc_inv (r : Run step s (t ++ [e]) s'') : ∃ s', Run step s t s' ∧ step s' e s'' := by
  generalize hu : t ++ [e] = u at r
  cases r
  case nil => simp at hu
  case snoc t' e' s' r hs =>
    have ⟨ht, he⟩ := List.append_inj' hu rfl
    obtain rfl := ht
    obtain rfl := (List.cons.inj he).left
    exact ⟨s', r, hs⟩

theorem append (r : Run step s t s') (r' : Run step s' u s'') : Run step s (t ++ u) s'' := by
  induction r'
  case nil        => simpa using r
  case snoc hs hi => simpa using hi.snoc hs

-- A run can be halted after each of its events.
theorem halt (r : Run step s (t ++ u) s'') : ∃ s', Run step s t s' ∧ Run step s' u s'' := by
  generalize hv : t ++ u = v at r
  induction r generalizing u
  case nil =>
    obtain ⟨rfl, rfl⟩ := List.append_eq_nil_iff.mp hv
    exact ⟨s, .nil, .nil⟩
  case snoc v e s' s'' r hs hi =>
    cases List.eq_nil_or_concat u
    case inl hu =>
      subst hu
      have hv : t = v ++ [e] := by simpa using hv
      exact ⟨s'', hv ▸ r.snoc hs, .nil⟩
    case inr hu =>
      have ⟨u', e', hu⟩ := hu
      subst hu
      rw [List.concat_eq_append, ← List.append_assoc] at hv
      have ⟨ht, he⟩ := List.append_inj' hv rfl
      obtain rfl := (List.cons.inj he).left
      have ⟨s₁, r₁, r₂⟩ := hi ht
      exact ⟨s₁, r₁, by simpa using r₂.snoc hs⟩

-- What is observed of such a system tells where it has got to.
theorem unique (hd : Functional step) (r : Run step s t s')
    (r' : Run step s t s'') : s' = s'' := by
  induction r generalizing s''
  case nil =>
    generalize ht : ([] : List ε) = t at r'
    cases r'
    case nil => rfl
    case snoc => simp at ht
  case snoc hs hi =>
    have ⟨_, r', hs'⟩ := r'.snoc_inv
    exact hd (hi r' ▸ hs) hs'

-- A run of a system that is executed.
theorem of_foldlM {f : σ → ε → Option σ} (h : t.foldlM f s = some s') :
    Run (fun s e s' => f s e = some s') s t s' := by
  induction t using List.reverseRecOn generalizing s'
  case nil => exact Option.some.inj h ▸ .nil
  case append_singleton t e hi =>
    rw [List.foldlM_append] at h
    have ⟨s'', ht, he⟩ := Option.bind_eq_some_iff.mp h
    exact (hi ht).snoc (by simpa using he)

-- Where an event stands, a step was taken.
theorem step_at (r : Run step s (t ++ e :: u) s'') :
    ∃ s₁ s₂, Run step s t s₁ ∧ step s₁ e s₂ := by
  have hs : t ++ e :: u = (t ++ [e]) ++ u := by simp
  have ⟨s₂, r, _⟩ := (hs ▸ r).halt
  have ⟨s₁, r, hs⟩ := r.snoc_inv
  exact ⟨s₁, s₂, r, hs⟩

end Run

-- What is said of each event, and of what has been observed before it.
def Each (P : List ε → ε → Prop) (t : List ε) : Prop :=
  ∀ u e v, t = u ++ e :: v → P u e

section Each

variable {P : List ε → ε → Prop}

theorem each_nil : Each P [] := by
  intro u e v h
  simp at h

theorem each_snoc : Each P (t ++ [e]) ↔ Each P t ∧ P t e := by
  constructor
  case mp =>
    intro h
    refine ⟨fun u d v ht => h u d (v ++ [e]) (by simp [ht]), h t e [] rfl⟩
  case mpr =>
    intro ⟨h, he⟩ u d v hu
    cases List.eq_nil_or_concat v
    case inl hv =>
      subst hv
      have ⟨ht, hd⟩ := List.append_inj' hu rfl
      exact ht ▸ (List.cons.inj hd).left ▸ he
    case inr hv =>
      have ⟨v', d', hv⟩ := hv
      subst hv
      rw [List.concat_eq_append, ← List.cons_append, ← List.append_assoc] at hu
      exact h u d v' (List.append_inj' hu rfl).left

end Each

-- A run in which every step satisfies `C`, which may look at what has been observed so far, at the
-- state before the step and at the event.
inductive Guarded (C : List ε → σ → ε → Prop) (step : σ → ε → σ → Prop) (s : σ) : List ε → σ → Prop
  | nil : Guarded C step s [] s
  | snoc {t : List ε} {e : ε} {s' s'' : σ} :
    Guarded C step s t s' → C t s' e → step s' e s'' → Guarded C step s (t ++ [e]) s''

namespace Guarded

variable {C : List ε → σ → ε → Prop} {P : List ε → ε → Prop} {I : List ε → σ → Prop}

theorem run (g : Guarded C step s t s') : Run step s t s' := by
  induction g
  case nil          => exact .nil
  case snoc hs hi   => exact hi.snoc hs

theorem snoc_inv (g : Guarded C step s (t ++ [e]) s'') :
    ∃ s', Guarded C step s t s' ∧ C t s' e ∧ step s' e s'' := by
  generalize hu : t ++ [e] = u at g
  cases g
  case nil => simp at hu
  case snoc t' e' s' g hc hs =>
    have ⟨ht, he⟩ := List.append_inj' hu rfl
    obtain rfl := ht
    obtain rfl := (List.cons.inj he).left
    exact ⟨s', g, hc, hs⟩

theorem halt (g : Guarded C step s (t ++ u) s'') : ∃ s', Guarded C step s t s' := by
  generalize hv : t ++ u = v at g
  induction g generalizing u
  case nil =>
    obtain ⟨rfl, rfl⟩ := List.append_eq_nil_iff.mp hv
    exact ⟨s, .nil⟩
  case snoc v e s' s'' g hc hs hi =>
    cases List.eq_nil_or_concat u
    case inl hu =>
      subst hu
      have hv : t = v ++ [e] := by simpa using hv
      exact ⟨s'', hv ▸ g.snoc hc hs⟩
    case inr hu =>
      have ⟨u', e', hu⟩ := hu
      rw [hu, List.concat_eq_append, ← List.append_assoc] at hv
      exact hi (List.append_inj' hv rfl).left

-- The last step of a run decides, when all those before it meet the guard.
theorem snoc_iff (hd : Functional step) (g : Guarded C step s t s') (hs : step s' e s'') :
    Guarded C step s (t ++ [e]) s'' ↔ C t s' e := by
  constructor
  case mpr => exact fun hc => g.snoc hc hs
  case mp =>
    intro g'
    have ⟨_, g', hc, _⟩ := g'.snoc_inv
    exact g.run.unique hd g'.run ▸ hc

-- The steps of a run that has its guard wherever an event stands.
theorem iff_run (hd : Functional step) : Guarded C step s t s' ↔
    Run step s t s' ∧ ∀ u e v s₁, t = u ++ e :: v → Run step s u s₁ → C u s₁ e := by
  constructor
  case mp =>
    intro g
    refine ⟨g.run, fun u e v s₁ ht r => ?_⟩
    have hs : t = (u ++ [e]) ++ v := by simp [ht]
    have ⟨_, g'⟩ := (hs ▸ g).halt
    have ⟨_, g', hc, _⟩ := g'.snoc_inv
    exact g'.run.unique hd r ▸ hc
  case mpr =>
    intro ⟨r, h⟩
    induction r
    case nil => exact .nil
    case snoc u e s₁ s₂ r hs hi =>
      refine (hi ?_).snoc (h u e [] s₁ rfl r) hs
      intro w d v s' hw
      exact h w d (v ++ [e]) s' (by simp [hw])

theorem invariant (g : Guarded C step s t s') (h : I [] s)
    (hs : ∀ {t e s₁ s₂}, I t s₁ → C t s₁ e → step s₁ e s₂ → I (t ++ [e]) s₂) : I t s' := by
  induction g
  case nil              => exact h
  case snoc hc hst hi   => exact hs hi hc hst

-- What the guarded steps do under an invariant that they keep.
theorem each (g : Guarded C step s t s') (h : I [] s)
    (hs : ∀ {t e s₁ s₂}, I t s₁ → C t s₁ e → step s₁ e s₂ → I (t ++ [e]) s₂)
    (hp : ∀ {t e s₁ s₂}, I t s₁ → C t s₁ e → step s₁ e s₂ → P t e) : Each P t := by
  induction g
  case nil => exact each_nil
  case snoc g hc hst hi => exact each_snoc.mpr ⟨hi, hp (g.invariant h hs) hc hst⟩

end Guarded
end Trace
