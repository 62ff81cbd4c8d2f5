import Droidcli.Cli.Theorems.RunCommand

namespace Droidcli.Cli

open Bytes Trace

-- The blocking calls of `waitpid`.
def Point.waits : Point → Bool
  | awaitExit | awaitKilled => true
  | _                       => false

namespace CommandRun

variable {timeoutMs : Int} {s s' : CommandRun} {a : Action} {t : List Action}

-- The parent does not wait for a child that goes on, unless it has been sent SIGKILL.
def Bounded (s : CommandRun) : Prop :=
  s.point.waits → s.child ≠ .running ∨ s.killed

-- A poll that comes after the end of both streams finds the child gone.
def Finished (s : CommandRun) : Action → Prop
  | .parent => s.point = .poll false false → s.child ≠ .running
  | _       => True

structure Waits (s : CommandRun) : Prop where
  exit : s.point = .awaitExit → s.child ≠ .running
  kill : s.point = .awaitKilled → s.killed

theorem Waits.bounded (w : Waits s) : Bounded s := by
  intro hw
  cases hp : s.point
  case awaitExit   => exact .inl (w.exit hp)
  case awaitKilled => exact .inr (w.kill hp)
  all_goals simp [hp, Point.waits] at hw

theorem Waits.of_point (h : ¬s.point.waits) : Waits s where
  exit hp := by simp [hp, Point.waits] at h
  kill hp := by simp [hp, Point.waits] at h

theorem drain_waits {stream : OutputStream} {next : Bool → Point} (hs : ¬s.point.waits)
    (hn : ∀ isOpen, ¬(next isOpen).waits) : ¬(s.drain stream next).point.waits := by
  cases @drain_point s stream next
  case inl hp => exact hp ▸ hs
  case inr hp =>
    have ⟨isOpen, hp⟩ := hp
    exact hp ▸ hn isOpen

theorem advance_waits (hf : Finished s .parent) (h : s.advance timeoutMs = some s') : Waits s' := by
  cases hp : s.point
  all_goals simp only [advance, hp] at h
  case drainStdout | drainStderr =>
    have hd := Option.some.inj h
    exact .of_point <| hd ▸ drain_waits (by simp [hp, Point.waits]) (by simp [Point.waits])
  case poll stdoutOpen stderrOpen =>
    split at h
    case h_1 =>
      have hs := Option.some.inj h
      exact .of_point (by simp [← hs, Point.waits])
    case h_2 =>
      have hs := Option.some.inj h
      cases stdoutOpen <;> cases stderrOpen
      case false.false => exact ⟨by simpa [← hs] using hf hp, by simp [← hs]⟩
      all_goals exact .of_point (by simp [← hs, Point.waits])
  case awaitExit =>
    split at h
    case h_1 => exact .of_point (by simp [← Option.some.inj h, Point.waits])
    case h_2 => contradiction
  case checkDeadline => split at h <;> exact .of_point (by simp [← Option.some.inj h, Point.waits])
  case sleep =>
    split at h
    case isTrue  => exact .of_point (by simp [← Option.some.inj h, Point.waits])
    case isFalse => contradiction
  case kill => exact ⟨by simp [← Option.some.inj h], by simp [← Option.some.inj h]⟩
  case awaitKilled =>
    split at h
    case h_1 => exact .of_point (by simp [← Option.some.inj h, Point.waits])
    case h_2 => contradiction
  case drainRest stream =>
    cases stream
    all_goals
      have hd := Option.some.inj h
      exact .of_point <| hd ▸ drain_waits (by simp [hp, Point.waits]) (by simp [Point.waits])
  case returned => contradiction

theorem Waits.step (w : Waits s) (hf : Finished s a) (h : Step timeoutMs s a s') : Waits s' := by
  replace h := (step_iff.mp h).right
  cases a
  case parent => exact advance_waits hf h
  case child stream use =>
    have ⟨_, _, hs⟩ := Option.map_eq_some_iff.mp h
    exact hs ▸ ⟨w.exit, w.kill⟩
  case exit status =>
    have ⟨_, hs⟩ := Option.ite_none_right_eq_some.mp h
    exact Option.some.inj hs ▸ ⟨by simp, w.kill⟩
  case tick n => exact Option.some.inj h ▸ ⟨w.exit, w.kill⟩

theorem bounded_of_guarded (g : Guarded (fun _ => Finished) (Step timeoutMs) start t s) :
    Bounded s := by
  apply Waits.bounded
  apply g.invariant (I := fun _ => Waits) (.of_point (by simp [start, Point.waits]))
  exact fun w hf hs => w.step hf hs

theorem not_bounded (i : Inv s) (hf : ¬Finished s a) (h : Step timeoutMs s a s') : ¬Bounded s' := by
  cases a
  case parent =>
    simp only [Finished, Classical.not_imp, not_not] at hf
    have ⟨hp, hc⟩ := hf
    have hk : s.killed = false := by simpa [hp, Point.afterKill] using i.killed
    replace h := (step_iff.mp h).right
    simp only [perform, advance, hp, hc] at h
    simp [← Option.some.inj h, Bounded, Point.waits, hk]
  all_goals exact absurd trivial hf

-- Throughout a call the parent waits without a deadline only for a child that has exited or been
-- sent SIGKILL, exactly when no poll after the end of both streams finds the child still running.
theorem waits_bounded_iff {command : Bytes} {pipes forks : Bool} {s₀ : CommandRun}
    (hc : runCommandOnce command pipes forks = .ok s₀) (r : Run (Step timeoutMs) s₀ t s) :
    (∀ u v s', t = u ++ v → Run (Step timeoutMs) s₀ u s' → Bounded s') ↔
      Guarded (fun _ => Finished) (Step timeoutMs) s₀ t s := by
  obtain rfl := runCommandOnce_ok hc
  constructor
  case mp =>
    intro hb
    induction r
    case nil => exact .nil
    case snoc t a s s' r hs hi =>
      have g := hi fun u v s' ht => hb u (v ++ [a]) s' (by simp [ht])
      have hb := hb (t ++ [a]) [] s' (by simp) (r.snoc hs)
      exact g.snoc (by_contra fun hf => not_bounded (.run r) hf hs hb) hs
  case mpr =>
    intro g u v s' ht r'
    have ⟨_, g'⟩ := (ht ▸ g).halt
    exact g'.run.unique functional_step r' ▸ bounded_of_guarded g'

-- A child that closes both of its streams and sleeps.
def closesBoth : List Action :=
  [.child .stdout .close, .child .stderr .close]

theorem waits_bounded_iff_exited :
    let t := closesBoth ++ [.parent, .parent, .exit (.exited 0), .parent]
    ∃ s, (∀ u v s', t = u ++ v → Run (Step 5000) start u s' → Bounded s') ↔
      Guarded (fun _ => Finished) (Step 5000) start t s := by
  have hc : runCommandOnce "exec >&- 2>&-; sleep 60" true true = .ok start := rfl
  exact ⟨_, waits_bounded_iff hc (.of_foldlM rfl)⟩

theorem not_waits_bounded :
    ¬∀ (timeoutMs : Int) (command : Bytes) (s₀ s : CommandRun) (t : List Action), 0 < timeoutMs →
      runCommandOnce command true true = .ok s₀ → Run (Step timeoutMs) s₀ t s → Bounded s := by
  intro h
  have hc : runCommandOnce "exec >&- 2>&-; sleep 60" true true = .ok start := rfl
  have r : ∃ s, Run (Step 5000) start (closesBoth ++ [.parent, .parent, .parent]) s ∧
      s.point = .awaitExit ∧ s.child = .running ∧ s.killed = false :=
    ⟨_, .of_foldlM rfl, rfl, rfl, rfl⟩
  have ⟨s, r, hp, hr, hk⟩ := r
  have := h 5000 _ start s _ (by decide) hc r
  simp [Bounded, Point.waits, hp, hr, hk] at this

end CommandRun
end Droidcli.Cli
