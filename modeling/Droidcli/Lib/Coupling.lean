import Droidcli.Lib.Interaction

namespace Interaction.Prog

variable {Op : Type} {Res : Op → Type} {α β γ δ σ ω : Type}

-- Two programs, each run against a handler of its own, take related states to related states and
-- values, and show the same observations on their way, if all the first one does satisfies `C`.
def Coupled (h₁ h₂ : Handler Res σ) (obs : Event Res → Option ω) (C : Event Res → Prop)
    (R : σ → σ → Prop) (p : Prog Res α) (q : Prog Res β) (V : α → β → Prop) : Prop :=
  ∀ s t, R s t → (∀ e ∈ (p.run h₁ s).trace, C e) →
    V (p.run h₁ s).value (q.run h₂ t).value ∧ R (p.run h₁ s).state (q.run h₂ t).state ∧
      (p.run h₁ s).trace.filterMap obs = (q.run h₂ t).trace.filterMap obs

variable {h₁ h₂ : Handler Res σ} {obs : Event Res → Option ω} {C : Event Res → Prop}
  {R : σ → σ → Prop} {p : Prog Res α} {q : Prog Res β} {V : α → β → Prop}

theorem coupled_ret {a : α} {b : β} (h : V a b) : Coupled h₁ h₂ obs C R (ret a) (ret b) V :=
  fun _ _ hs _ => ⟨h, hs, rfl⟩

theorem coupled_bind {f : α → Prog Res γ} {g : β → Prog Res δ} {U : γ → δ → Prop}
    (hp : Coupled h₁ h₂ obs C R p q V) (hf : ∀ a b, V a b → Coupled h₁ h₂ obs C R (f a) (g b) U) :
    Coupled h₁ h₂ obs C R (p >>= f) (q >>= g) U := by
  intro s t hs hc
  simp only [run_bind, List.forall_mem_append] at hc
  have ⟨hv, hr, ho⟩ := hp s t hs hc.1
  have ⟨hv', hr', ho'⟩ := hf _ _ hv _ _ hr hc.2
  simp only [run_bind, List.filterMap_append, ho, ho']
  exact ⟨hv', hr', trivial⟩

theorem coupled_perform {o₁ o₂ : Op} {V : Res o₁ → Res o₂ → Prop}
    (h : ∀ s t, R s t → C ⟨o₁, (h₁ o₁ s).1⟩ →
      V (h₁ o₁ s).1 (h₂ o₂ t).1 ∧ R (h₁ o₁ s).2 (h₂ o₂ t).2 ∧
        obs ⟨o₁, (h₁ o₁ s).1⟩ = obs ⟨o₂, (h₂ o₂ t).1⟩) :
    Coupled h₁ h₂ obs C R (perform o₁) (perform o₂) V := by
  intro s t hs hc
  have ⟨hv, hr, ho⟩ := h s t hs (hc _ (List.mem_singleton_self _))
  exact ⟨hv, hr, by simp [run_perform, List.filterMap_cons, ho]⟩

-- What keeps the states related, whatever the other side does, and is not observed.
def Silent (h₁ h₂ : Handler Res σ) (obs : Event Res → Option ω) (R : σ → σ → Prop) (o : Op) :
    Prop :=
  (∀ s t, R s t → R (h₁ o s).2 t) ∧ (∀ s t, R s t → R s (h₂ o t).2) ∧ ∀ r, obs ⟨o, r⟩ = none

theorem run_left_of_silent {s t : σ} (hp : p.Always (Silent h₁ h₂ obs R ·.op)) (hs : R s t) :
    R (p.run h₁ s).state t ∧ (p.run h₁ s).trace.filterMap obs = [] := by
  induction p generalizing s
  case ret => exact ⟨hs, rfl⟩
  case op o k hi =>
    have h := hp (h₁ o s).1
    have ⟨hr, ho⟩ := hi (h₁ o s).1 h.right (h.left.1 s t hs)
    exact ⟨hr, by rw [run_op, List.filterMap_cons, h.left.2.2, ho]⟩

theorem run_right_of_silent {s t : σ} (hq : q.Always (Silent h₁ h₂ obs R ·.op)) (hs : R s t) :
    R s (q.run h₂ t).state ∧ (q.run h₂ t).trace.filterMap obs = [] := by
  induction q generalizing t
  case ret => exact ⟨hs, rfl⟩
  case op o k hi =>
    have h := hq (h₂ o t).1
    have ⟨hr, ho⟩ := hi (h₂ o t).1 h.right (h.left.2.1 s t hs)
    exact ⟨hr, by rw [run_op, List.filterMap_cons, h.left.2.2, ho]⟩

-- Silent programs need not go in step.
theorem coupled_silent (hp : p.Always (Silent h₁ h₂ obs R ·.op))
    (hq : q.Always (Silent h₁ h₂ obs R ·.op))
    (hv : ∀ s t, V (p.run h₁ s).value (q.run h₂ t).value) : Coupled h₁ h₂ obs C R p q V := by
  intro s t hs _
  have ⟨hr, ho⟩ := run_left_of_silent hp hs
  have ⟨hr', ho'⟩ := run_right_of_silent hq hr
  exact ⟨hv s t, hr', ho.trans ho'.symm⟩

end Interaction.Prog
