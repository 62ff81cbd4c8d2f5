import Droidcli.Cli.Theorems.RunCommand

namespace Droidcli.Cli.CommandRun

open Bytes Trace

variable {timeoutMs : Int} {s s' : CommandRun} {a : Action} {t : List Action}
variable {result : CommandRunResult}

-- A poll that finds the child gone does so when all that it has written has been read.
def Drained (s : CommandRun) : Action → Prop
  | .parent => ∀ stdoutOpen stderrOpen status,
    s.point = .poll stdoutOpen stderrOpen → s.child = .exited status →
    ∀ stream, (s.pipe stream).unread = []
  | _       => True

-- The result has all that was written to the two streams, in order.
structure Complete (result : CommandRunResult) (s : CommandRun) : Prop where
  stdout : result.stdoutText = (s.pipe .stdout).written
  stderr : result.stderrText = (s.pipe .stderr).written

theorem drain_returned {stream : OutputStream} {next : Bool → Point} (hn : ¬s.point.isReturned)
    (h : (s.drain stream next).point = .returned result) :
    ∃ isOpen, next isOpen = .returned result := by
  cases @drain_point s stream next
  case inl hp => simp [← hp, h, Point.isReturned] at hn
  case inr hp =>
    have ⟨isOpen, hp⟩ := hp
    exact ⟨isOpen, hp ▸ h⟩

-- What the parent does when it returns without a timeout.
structure Returns (s : CommandRun) (a : Action) (s' : CommandRun) (result : CommandRunResult) :
    Prop where
  parent : a = .parent
  child  : ∃ status, s.child = .exited status ∧ result = s.exitResult status
  point  : s.point = .awaitExit ∨ ∃ stdoutOpen stderrOpen, s.point = .poll stdoutOpen stderrOpen
  pipe   : s'.pipe = s.pipe

theorem advance_returns (h : s.advance timeoutMs = some s') (hr : s'.point = .returned result)
    (he : result.errorMessage = []) : Returns s .parent s' result := by
  cases hp : s.point
  all_goals simp only [advance, hp] at h
  case poll stdoutOpen stderrOpen =>
    split at h
    case h_1 status hc =>
      have hs := Option.some.inj h
      have : result = s.exitResult status := by simpa [← hs, eq_comm] using hr
      exact ⟨rfl, ⟨status, hc, this⟩, .inr ⟨_, _, hp⟩, by simp [← hs]⟩
    case h_2 =>
      have hs := Option.some.inj h
      rw [← hs] at hr
      dsimp only at hr
      split at hr <;> contradiction
  case awaitExit =>
    split at h
    case h_2 => contradiction
    case h_1 status hc =>
      have hs := Option.some.inj h
      have : result = s.exitResult status := by simpa [← hs, eq_comm] using hr
      exact ⟨rfl, ⟨status, hc, this⟩, .inl hp, by simp [← hs]⟩
  case drainStdout | drainStderr =>
    obtain ⟨_, hn⟩ := drain_returned (by simp [hp, Point.isReturned]) (Option.some.inj h ▸ hr)
    contradiction
  case drainRest stream =>
    cases stream
    all_goals
      obtain ⟨_, hn⟩ := drain_returned (by simp [hp, Point.isReturned]) (Option.some.inj h ▸ hr)
    case stdout => contradiction
    case stderr => exact absurd he (Point.returned.inj hn ▸ timeoutResult_error)
  case checkDeadline => split at h <;> simp [← Option.some.inj h] at hr
  case kill          => simp [← Option.some.inj h] at hr
  case sleep | awaitKilled =>
    split at h
    all_goals first | contradiction | simp [← Option.some.inj h] at hr
  case returned => contradiction

theorem step_returns (h : Step timeoutMs s a s') (hr : s'.point = .returned result)
    (he : result.errorMessage = []) : Returns s a s' result := by
  have ⟨hn, h⟩ := step_iff.mp h
  cases a
  case parent => exact advance_returns h hr he
  case child stream use =>
    have ⟨_, _, hs⟩ := Option.map_eq_some_iff.mp h
    simp [← hs] at hr
    simp [hr, Point.isReturned] at hn
  case exit status =>
    have ⟨_, hs⟩ := Option.ite_none_right_eq_some.mp h
    simp [← Option.some.inj hs] at hr
    simp [hr, Point.isReturned] at hn
  case tick n =>
    simp [← Option.some.inj h] at hr
    simp [hr, Point.isReturned] at hn

theorem drained_of_running (h : Step timeoutMs s a s') (hn : ¬s'.point.isReturned) :
    Drained s a := by
  cases a
  case parent =>
    intro stdoutOpen stderrOpen status hp hc
    have h := (step_iff.mp h).right
    simp only [perform, advance, hp, hc] at h
    simp [← Option.some.inj h, Point.isReturned] at hn
  all_goals trivial

-- Only the last step of a call, with which it returns, can poll a child that has exited.
theorem guarded_of_running {s₀ : CommandRun} (r : Run (Step timeoutMs) s₀ t s)
    (hn : ¬s.point.isReturned) : Guarded (fun _ => Drained) (Step timeoutMs) s₀ t s := by
  induction r
  case nil => exact .nil
  case snoc r hs hi =>
    exact (hi (step_iff.mp hs).left).snoc (drained_of_running hs hn) hs

theorem complete_iff_unread (i : Inv s) (hp : s'.pipe = s.pipe) {status : WaitStatus} :
    Complete (s.exitResult status) s' ↔ ∀ stream, (s.pipe stream).unread = [] := by
  have hk (stream : OutputStream) :
      s.text stream = (s.pipe stream).written ↔ (s.pipe stream).unread = [] := by
    rw [← i.kept stream]
    simp
  constructor
  case mp =>
    intro c stream
    cases stream
    case stdout => exact (hk _).mp (by simpa [exitResult, hp] using c.stdout)
    case stderr => exact (hk _).mp (by simpa [exitResult, hp] using c.stderr)
  case mpr =>
    intro hu
    constructor
    case stdout => simpa [exitResult, hp] using (hk .stdout).mpr (hu _)
    case stderr => simpa [exitResult, hp] using (hk .stderr).mpr (hu _)

-- The last step drains and polls a child, or returns from a wait that began at the end of both
-- streams.
theorem complete_iff_drained (i : Inv s) (h : Returns s a s' result) :
    Complete result s' ↔ Drained s a := by
  obtain ⟨status, hc, hr⟩ := h.child
  rw [hr, complete_iff_unread i h.pipe, h.parent]
  cases h.point
  case inl hp =>
    have he (stream : OutputStream) := i.ended stream (by simp [hp, Point.sawEnd])
    simp [Drained, hp, fun stream => (he stream).unread]
  case inr hp =>
    obtain ⟨stdoutOpen, stderrOpen, hp⟩ := hp
    simp [Drained, hp, hc]

-- The output of a command that did not time out is complete exactly when its call reaped it, if by
-- a poll, with both pipes empty: nothing is read after the poll.
theorem output_complete_iff {command : Bytes} {pipes forks : Bool} {s₀ : CommandRun}
    (hc : runCommandOnce command pipes forks = .ok s₀) (r : Run (Step timeoutMs) s₀ t s)
    (hr : s.point = .returned result) (he : result.errorMessage = []) :
    Complete result s ↔ Guarded (fun _ => Drained) (Step timeoutMs) s₀ t s := by
  obtain rfl := runCommandOnce_ok hc
  cases r
  case nil => contradiction
  case snoc r hs =>
    have g := guarded_of_running r (step_iff.mp hs).left
    rw [g.snoc_iff functional_step hs]
    exact complete_iff_drained (.run r) (step_returns hs hr he)

def echoHi : List Action :=
  [.child .stdout (.write (str "hi")), .exit (.exited 0)]

theorem output_complete_iff_echo :
    ∃ s result, s.point = .returned result ∧ result.stdoutText = str "hi" ∧
      (Complete result s ↔ Guarded (fun _ => Drained) (Step 30000) start
        (echoHi ++ [.parent, .parent, .parent, .parent]) s) := by
  have hc : runCommandOnce "echo hi" true true = .ok start := rfl
  have r : ∃ s result, Run (Step 30000) start (echoHi ++ [.parent, .parent, .parent, .parent]) s ∧
      s.point = .returned result ∧ result.errorMessage = [] ∧ result.stdoutText = str "hi" :=
    ⟨_, _, .of_foldlM rfl, rfl, rfl, rfl⟩
  have ⟨s, result, r, hr, he, ht⟩ := r
  exact ⟨s, result, hr, ht, output_complete_iff hc r hr he⟩

-- The child writes and exits between the drains and the poll.
theorem not_output_complete :
    ¬∀ (timeoutMs : Int) (command : Bytes) (s₀ s : CommandRun) (t : List Action)
      (result : CommandRunResult), runCommandOnce command true true = .ok s₀ →
      Run (Step timeoutMs) s₀ t s → s.point = .returned result → result.errorMessage = [] →
      (∀ stream, (s.pipe stream).shared = false) → Complete result s := by
  intro h
  have hc : runCommandOnce "echo hi" true true = .ok start := rfl
  have r : ∃ s result, Run (Step 30000) start ([.parent, .parent] ++ echoHi ++ [.parent]) s ∧
      s.point = .returned result ∧ result.errorMessage = [] ∧ result.stdoutText = [] ∧
      (s.pipe .stdout).written = str "hi" ∧ ∀ stream, (s.pipe stream).shared = false :=
    ⟨_, _, .of_foldlM rfl, rfl, rfl, rfl, rfl, fun stream => by cases stream <;> rfl⟩
  have ⟨s, result, r, hr, he, ht, hw, hs⟩ := r
  have c := (h 30000 "echo hi" start s _ result hc r hr he hs).stdout
  rw [ht, hw] at c
  exact absurd c (by decide)

end Droidcli.Cli.CommandRun
