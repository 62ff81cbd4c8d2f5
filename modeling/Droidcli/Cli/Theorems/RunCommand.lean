import Droidcli.Cli.RunCommand

namespace Droidcli.Cli

open Bytes

namespace Point

-- The streams of which the parent has seen the end, in the drains of this round.
def sawEnd : Point → OutputStream → Bool
  | drainStderr stdoutOpen, .stdout => !stdoutOpen
  | poll stdoutOpen _, .stdout      => !stdoutOpen
  | poll _ stderrOpen, .stderr      => !stderrOpen
  | awaitExit, _                    => true
  | _, _                            => false

def afterKill : Point → Bool
  | awaitKilled | drainRest _ => true
  | returned result           => result.errorMessage ≠ []
  | _                         => false

end Point

theorem runCommandOnce_ok {command : Bytes} {pipes forks : Bool} {s : CommandRun}
    (h : runCommandOnce command pipes forks = .ok s) : s = .start := by
  simp only [runCommandOnce] at h
  split at h
  case isTrue => contradiction
  case isFalse =>
    split at h
    case isTrue => contradiction
    case isFalse =>
      split at h
      case isTrue  => contradiction
      case isFalse => exact (Except.ok.inj h).symm

namespace CommandRun

variable {timeoutMs : Int} {s s' : CommandRun} {a : Action} {t : List Action}

section Drain

variable {stream : OutputStream} {next : Bool → Point}

-- What one `read` of a drain comes to.
theorem drain_cases (s : CommandRun) (stream : OutputStream) (next : Bool → Point) :
    (∃ data pipe, (s.pipe stream).read bufferSize = (.data data, pipe) ∧
      s.drain stream next = { s with
        pipe := Function.update s.pipe stream pipe
        text := Function.update s.text stream (s.text stream ++ data) }) ∨
    (s.drain stream next = { s with point := next true }) ∨
    ((s.pipe stream).Ended ∧ s.drain stream next = { s with point := next false }) := by
  cases hr : (s.pipe stream).read bufferSize
  case mk received pipe =>
    cases received
    case data data    => exact .inl ⟨data, pipe, rfl, by simp [drain, hr]⟩
    case wouldBlock   => exact .inr <| .inl <| by simp [drain, hr]
    case eof          => exact .inr <| .inr ⟨(Pipe.read_eof hr).right, by simp [drain, hr]⟩

theorem drain_point : (s.drain stream next).point = s.point ∨
    ∃ isOpen, (s.drain stream next).point = next isOpen := by
  obtain ⟨_, _, _, h⟩ | h | ⟨_, h⟩ := drain_cases s stream next
  · exact .inl (by simp [h])
  · exact .inr ⟨true, by simp [h]⟩
  · exact .inr ⟨false, by simp [h]⟩

theorem drain_child : (s.drain stream next).child = s.child := by
  obtain ⟨_, _, _, h⟩ | h | ⟨_, h⟩ := drain_cases s stream next <;> simp [h]

theorem drain_killed : (s.drain stream next).killed = s.killed := by
  obtain ⟨_, _, _, h⟩ | h | ⟨_, h⟩ := drain_cases s stream next <;> simp [h]

end Drain

theorem timeoutResult_error : (s.timeoutResult timeoutMs).errorMessage ≠ [] := by
  have : str "command timed out after " ≠ [] := by decide
  simp [timeoutResult, this]

theorem step_iff : Step timeoutMs s a s' ↔
    ¬s.point.isReturned ∧ s.perform timeoutMs a = some s' :=
  Option.ite_none_left_eq_some

theorem functional_step : Trace.Functional (Step timeoutMs) :=
  fun _ _ _ _ h₁ h₂ => Option.some.inj (h₁.symm.trans h₂)

-- Nothing is lost between the streams and the texts, and a stream that has ended has ended for good.
structure Inv (s : CommandRun) : Prop where
  kept   : ∀ stream, s.text stream ++ (s.pipe stream).unread = (s.pipe stream).written
  ended  : ∀ stream, s.point.sawEnd stream → (s.pipe stream).Ended
  killed : s.killed → s.point.afterKill

theorem inv_start : Inv start where
  kept _   := rfl
  ended    := by simp [start, Point.sawEnd]
  killed   := by simp [start]

namespace Inv

-- The parent moves on, and neither reads nor signals.
theorem move (i : Inv s) {child : Child} {clock : Nat} {point : Point}
    (he : ∀ stream, point.sawEnd stream → (s.pipe stream).Ended)
    (hk : s.killed → point.afterKill) :
    Inv { s with child := child, clock := clock, point := point } where
  kept   := i.kept
  ended  := he
  killed := hk

theorem drain (i : Inv s) {stream : OutputStream} {next : Bool → Point}
    (he : ∀ isOpen other, (next isOpen).sawEnd other →
      s.point.sawEnd other ∨ isOpen = false ∧ other = stream)
    (hk : s.point.afterKill → ∀ isOpen, (next isOpen).afterKill) :
    Inv (s.drain stream next) := by
  obtain ⟨data, pipe, hr, h⟩ | h | ⟨hs, h⟩ := drain_cases s stream next
  · have ⟨hu, hw, hn⟩ := Pipe.read_data hr
    rw [h]
    constructor
    case kept =>
      intro other
      by_cases ho : other = stream
      case pos =>
        subst ho
        simp [hw, ← i.kept other, ← hu]
      case neg => simpa [ho] using i.kept other
    case ended =>
      intro other hs
      by_cases ho : other = stream
      case pos => exact absurd (i.ended other hs) (ho ▸ hn)
      case neg => simpa [ho] using i.ended other hs
    case killed => exact i.killed
  · rw [h]
    apply i.move
    · intro other hs
      cases he true other hs
      case inl hs => exact i.ended other hs
      case inr hs => simp at hs
    · exact fun hs => hk (i.killed hs) true
  · rw [h]
    apply i.move
    · intro other ho
      cases he false other ho
      case inl ho => exact i.ended other ho
      case inr ho => exact ho.right ▸ hs
    · exact fun hs => hk (i.killed hs) false

theorem advance (i : Inv s) (h : s.advance timeoutMs = some s') : Inv s' := by
  have he {stream : OutputStream} := i.ended stream
  have hk := i.killed
  cases hp : s.point
  all_goals simp only [CommandRun.advance, hp, Option.some.injEq] at h
  case drainStdout =>
    refine h ▸ i.drain ?_ ?_
    · intro isOpen other
      cases other <;> simp [hp, Point.sawEnd]
    · simp [hp, Point.afterKill]
  case drainStderr stdoutOpen =>
    refine h ▸ i.drain ?_ ?_
    · intro isOpen other
      cases other <;> simp [hp, Point.sawEnd]
    · simp [hp, Point.afterKill]
  case poll stdoutOpen stderrOpen =>
    have hn : s.killed = false := by simpa [hp, Point.afterKill] using hk
    split at h
    case h_1 => exact Option.some.inj h ▸ i.move (by simp [Point.sawEnd]) (by simp [hn])
    case h_2 =>
      refine Option.some.inj h ▸ i.move ?_ (by simp [hn])
      intro stream
      split
      case isTrue ho  => cases stream <;> simp_all [Point.sawEnd]
      case isFalse ho => simp [Point.sawEnd]
  case awaitExit =>
    have hn : s.killed = false := by simpa [hp, Point.afterKill] using hk
    split at h
    case h_1 => exact Option.some.inj h ▸ i.move (by simp [Point.sawEnd]) (by simp [hn])
    case h_2 => contradiction
  case checkDeadline =>
    have hn : s.killed = false := by simpa [hp, Point.afterKill] using hk
    split at h
    all_goals exact Option.some.inj h ▸ i.move (by simp [Point.sawEnd]) (by simp [hn])
  case sleep wakes =>
    have hn : s.killed = false := by simpa [hp, Point.afterKill] using hk
    split at h
    case isTrue  => exact Option.some.inj h ▸ i.move (by simp [Point.sawEnd]) (by simp [hn])
    case isFalse => contradiction
  case kill => exact h ▸ ⟨i.kept, by simp [Point.sawEnd], by simp [Point.afterKill]⟩
  case awaitKilled =>
    split at h
    case h_1 => exact Option.some.inj h ▸ i.move (by simp [Point.sawEnd]) (by simp [Point.afterKill])
    case h_2 => contradiction
  case drainRest stream =>
    cases stream
    all_goals
      refine Option.some.inj h ▸ i.drain ?_ ?_
      · simp [Point.sawEnd]
      · simp [Point.afterKill, timeoutResult_error]
  case returned => contradiction

theorem apply (i : Inv s) (h : Step timeoutMs s a s') : Inv s' := by
  replace h := (step_iff.mp h).right
  cases a
  case parent => exact i.advance h
  case tick n => exact Option.some.inj h ▸ ⟨i.kept, i.ended, i.killed⟩
  case exit status =>
    have ⟨_, hs⟩ := Option.ite_none_right_eq_some.mp h
    refine Option.some.inj hs ▸ ⟨i.kept, fun stream hs => ?_, i.killed⟩
    have he := i.ended stream hs
    simpa only [he.closed] using he
  case child stream use =>
    have ⟨pipe, hu, hs⟩ := Option.map_eq_some_iff.mp h
    have ⟨data, hd, hw⟩ := Pipe.use_appends hu
    subst hs
    refine ⟨fun other => ?_, fun other hs => ?_, i.killed⟩
    all_goals by_cases ho : other = stream
    · subst ho
      simp [hd, hw, ← i.kept other]
    · simpa [ho] using i.kept other
    · have := (i.ended other hs).use use
      simp [ho, hu] at this
    · simpa [ho] using i.ended other hs

theorem run (r : Trace.Run (Step timeoutMs) start t s) : Inv s := by
  induction r
  case nil            => exact inv_start
  case snoc hs hi     => exact hi.apply hs

end Inv
end CommandRun
end Droidcli.Cli
