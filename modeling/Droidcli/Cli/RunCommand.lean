import Droidcli.Cli.HostState
import Droidcli.Lib.Pipe
import Droidcli.Lib.Trace

namespace Droidcli.Cli

open Bytes

inductive OutputStream
  | stdout
  | stderr
  deriving DecidableEq

-- What `waitpid` tells of a process that is gone.
inductive WaitStatus
  | exited (code : Nat)
  | signaled (signal : Nat)
  deriving DecidableEq

def WaitStatus.exitCode : WaitStatus → Int
  | exited code     => code
  | signaled signal => 128 + signal

inductive Child
  | running
  | exited (status : WaitStatus)
  | reaped
  deriving DecidableEq

-- Where the parent stands in `run_command_once`, with its local variables. Each point is one call
-- into the kernel; `drain_available` is at the point of its `read`.
inductive Point
  | drainStdout
  | drainStderr (stdoutOpen : Bool)
  | poll (stdoutOpen stderrOpen : Bool)
  | awaitExit
  | checkDeadline
  | sleep (wakes : Nat)
  | kill
  | awaitKilled
  | drainRest (stream : OutputStream)
  | returned (result : CommandRunResult)

def Point.isReturned : Point → Bool
  | returned _ => true
  | _          => false

-- A call of `run_command_once` on POSIX from the fork on, together with the child. The clock counts
-- milliseconds from the moment at which the deadline is computed. A write that a full pipe delays
-- is taken to happen when the kernel lets it.
structure CommandRun where
  pipe : OutputStream → Pipe UInt8
  text : OutputStream → Bytes
  child : Child
  killed : Bool
  clock : Nat
  point : Point

namespace CommandRun

inductive Action
  | parent
  | child (stream : OutputStream) (use : Pipe.Use UInt8)
  | exit (status : WaitStatus)
  | tick (milliseconds : Nat)

def start : CommandRun where
  pipe _ := .opened
  text _ := []
  child  := .running
  killed := false
  clock  := 0
  point  := .drainStdout

def bufferSize : Nat := 4096

def pollIntervalMs : Nat := 20

-- One round of the loop of `drain_available`, which ends with whether the pipe is still open. A
-- `read` of this pipe has no other error.
def drain (s : CommandRun) (stream : OutputStream) (next : Bool → Point) : CommandRun :=
  match (s.pipe stream).read bufferSize with
  | (.data data, pipe)  =>
    { s with
      pipe := Function.update s.pipe stream pipe
      text := Function.update s.text stream (s.text stream ++ data) }
  | (.wouldBlock, _)    => { s with point := next true }
  | (.eof, _)           => { s with point := next false }

-- The result of a child that has been waited for.
def exitResult (s : CommandRun) (status : WaitStatus) : CommandRunResult where
  launched     := true
  exitCode     := status.exitCode
  stdoutText   := s.text .stdout
  stderrText   := s.text .stderr
  errorMessage := []

def timeoutResult (s : CommandRun) (timeoutMs : Int) : CommandRunResult where
  launched     := true
  exitCode     := 0
  stdoutText   := s.text .stdout
  stderrText   := s.text .stderr
  errorMessage := "command timed out after " ++ decimalInt timeoutMs ++ str "ms"

-- What the parent does next. There is nothing in `sleep` before it is over, nothing in a blocking
-- `waitpid` before the child has exited, and nothing after the return.
def advance (timeoutMs : Int) (s : CommandRun) : Option CommandRun :=
  match s.point with
  | .drainStdout                => some (s.drain .stdout .drainStderr)
  | .drainStderr stdoutOpen     => some (s.drain .stderr (.poll stdoutOpen))
  | .poll stdoutOpen stderrOpen =>
    match s.child with
    | .exited status =>
      some { s with child := .reaped, point := .returned (s.exitResult status) }
    | _              =>
      some { s with point := if !stdoutOpen && !stderrOpen then .awaitExit else .checkDeadline }
  | .awaitExit                  =>
    match s.child with
    | .exited status =>
      some { s with child := .reaped, point := .returned (s.exitResult status) }
    | _              => none
  | .checkDeadline              =>
    if 0 < timeoutMs ∧ timeoutMs ≤ s.clock then some { s with point := .kill }
    else some { s with point := .sleep (s.clock + pollIntervalMs) }
  | .sleep wakes                =>
    if wakes ≤ s.clock then some { s with point := .drainStdout } else none
  | .kill                       => some { s with killed := true, point := .awaitKilled }
  | .awaitKilled                =>
    match s.child with
    | .exited _ => some { s with child := .reaped, point := .drainRest .stdout }
    | _         => none
  | .drainRest .stdout          => some (s.drain .stdout fun _ => .drainRest .stderr)
  | .drainRest .stderr          =>
    some (s.drain .stderr fun _ => .returned (s.timeoutResult timeoutMs))
  | .returned _                 => none

-- The child, and whatever has inherited its streams, go on as they like.
def perform (timeoutMs : Int) (s : CommandRun) : Action → Option CommandRun
  | .parent           => s.advance timeoutMs
  | .child stream use =>
    (s.pipe stream |>.use use).map fun pipe =>
      { s with pipe := Function.update s.pipe stream pipe }
  | .exit status      =>
    if s.child = .running then
      some { s with pipe := fun stream => (s.pipe stream).closed, child := .exited status }
    else none
  | .tick n           => some { s with clock := s.clock + n }

def apply (timeoutMs : Int) (s : CommandRun) (a : Action) : Option CommandRun :=
  if s.point.isReturned then none else s.perform timeoutMs a

abbrev Step (timeoutMs : Int) (s : CommandRun) (a : Action) (s' : CommandRun) : Prop :=
  s.apply timeoutMs a = some s'

end CommandRun

-- The call as a whole: what comes before there is a child, and whether `pipe` and `fork` succeed.
def runCommandOnce (command : Bytes) (pipes forks : Bool) : Except CommandRunResult CommandRun :=
  let refused (error : Bytes) : CommandRunResult := ⟨false, 0, [], [], error⟩
  if command = [] then .error (refused "command is empty")
  else if !pipes then .error (refused "pipe() failed")
  else if !forks then .error (refused "fork() failed")
  else .ok .start

end Droidcli.Cli
