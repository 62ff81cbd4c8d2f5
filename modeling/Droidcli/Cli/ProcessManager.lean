import Droidcli.Cli.HostState
import Droidcli.Lib.Table
import Droidcli.Lib.Trace

namespace Droidcli.Cli

open Bytes

-- The leader of a process group: one that has exited is there until it is waited for.
inductive Leader
  | running
  | exited
  | reaped
  deriving DecidableEq

-- A process group of the kernel. `descendants` counts its live members apart from the leader. The
-- last two fields are kept to speak about runs: the key that the group was launched under, and
-- whether it has been sent a signal as a whole.
structure ProcessGroup where
  leader : Leader
  descendants : Nat
  key : Bytes
  signalled : Bool

namespace ProcessGroup

def unused : ProcessGroup :=
  ⟨.reaped, 0, [], false⟩

-- The kernel gives out an id again once nothing bears it any more.
def isUnused (group : ProcessGroup) : Bool :=
  group.leader = .reaped ∧ group.descendants = 0

def isLive (group : ProcessGroup) : Bool :=
  group.leader = .running ∨ 0 < group.descendants

end ProcessGroup

abbrev ProcessGroups :=
  Nat → ProcessGroup

namespace ProcessGroups

-- What becomes of the members is up to them: a signal can be caught.
def killpg (groups : ProcessGroups) (pgid : Nat) : ProcessGroups :=
  Function.update groups pgid { groups pgid with signalled := true }

-- `waitpid` without waiting, and whether it returns 0, as it does on a child that is running.
def waitpid (groups : ProcessGroups) (pid : Nat) : Bool × ProcessGroups :=
  match (groups pid).leader with
  | .running => (true, groups)
  | .exited  => (false, Function.update groups pid { groups pid with leader := .reaped })
  | .reaped  => (false, groups)

end ProcessGroups

structure ProcessEntry where
  info : ProcessInfo
  label : Bytes
  command : Bytes
  workingDir : Bytes
  pgid : Nat

namespace ProcessEntry

def empty : ProcessEntry where
  info       := ⟨[], 0, false, "idle"⟩
  label      := []
  command    := []
  workingDir := []
  pgid       := 0

def stopLocked (groups : ProcessGroups) (entry : ProcessEntry) : ProcessGroups × ProcessEntry :=
  if 0 < entry.pgid then
    (groups.killpg entry.pgid, { entry with
      pgid := 0
      info := { entry.info with
        running    := false
        statusText := if entry.info.running then "stopped" else entry.info.statusText } })
  else (groups, { entry with info := { entry.info with running := false } })

def refreshLocked (groups : ProcessGroups) (entry : ProcessEntry) : ProcessGroups × ProcessEntry :=
  if 0 < entry.pgid then
    match groups.waitpid entry.info.pid.toNat with
    | (true, groups)  =>
      (groups, { entry with info := { entry.info with running := true, statusText := "running" } })
    | (false, groups) =>
      (groups, { entry with
        pgid := 0
        info := { entry.info with running := false, statusText := "exited" } })
  else (groups, { entry with info := { entry.info with running := false } })

end ProcessEntry

-- The manager on POSIX and the process groups around it. A `snapshot` holds the mutex while it goes
-- from entry to entry: `toRefresh` are the keys that it has not come to yet, and `infos` is what it
-- has so far.
structure ProcessManager where
  groups : ProcessGroups
  entries : Table Bytes ProcessEntry
  toRefresh : List Bytes
  infos : List ProcessInfo

namespace ProcessManager

def initial : ProcessManager where
  groups _  := .unused
  entries   := []
  toRefresh := []
  infos     := []

-- `forked` is what `fork` returns, if it succeeds.
def launch (s : ProcessManager) (key label workingDir command : Bytes) (forked : Option Nat) :
    Except Bytes Unit × ProcessManager :=
  let (groups, entry) := ((s.entries.get? key).getD .empty).stopLocked s.groups
  let entry :=
    { entry with
      info       := ⟨key, 0, false, "idle"⟩
      label      := label
      command    := command
      workingDir := workingDir }
  match forked with
  | none     =>
    let info := { entry.info with statusText := "fork failed" }
    (.error "fork failed", { s with
      groups := groups, entries := s.entries.set key { entry with info := info } })
  | some pid =>
    let info := { entry.info with pid := pid, running := true, statusText := "running" }
    (.ok (), { s with
      groups  := Function.update groups pid ⟨.running, 0, key, false⟩
      entries := s.entries.set key { entry with pgid := pid, info := info } })

def stop (s : ProcessManager) (key : Bytes) : Except Bytes Unit × ProcessManager :=
  match s.entries.get? key with
  | none       => (.error "no process for key", s)
  | some entry =>
    if 0 < entry.pgid then
      let (groups, entry) := entry.stopLocked s.groups
      (.ok (), { s with groups := groups, entries := s.entries.set key entry })
    else (.error "process not running", s)

def snapshot (s : ProcessManager) : ProcessManager :=
  { s with toRefresh := s.entries.map Prod.fst, infos := [] }

-- A running `snapshot` comes to its next entry.
def refresh (s : ProcessManager) (key : Bytes) (rest : List Bytes) : ProcessManager :=
  match s.entries.get? key with
  | none       => { s with toRefresh := rest }
  | some entry =>
    let (groups, entry) := entry.refreshLocked s.groups
    { s with
      groups    := groups
      entries   := s.entries.set key entry
      toRefresh := rest
      infos     := s.infos ++ [entry.info] }

inductive Action
  | launch (key label workingDir command : Bytes) (forked : Option Nat)
  | stop (key : Bytes)
  | snapshot
  | refresh
  | fork (pgid : Nat)
  | exitLeader (pgid : Nat)
  | exitDescendant (pgid : Nat)

def setGroup (s : ProcessManager) (pgid : Nat) (group : ProcessGroup) : ProcessManager :=
  { s with groups := Function.update s.groups pgid group }

-- The calls of the manager wait for a snapshot to end. Members of a group fork and exit at any time.
def apply (s : ProcessManager) : Action → Option ProcessManager
  | .launch key label workingDir command forked =>
    if s.toRefresh = [] ∧ ∀ pid ∈ forked, 0 < pid ∧ (s.groups pid).isUnused then
      some (s.launch key label workingDir command forked).2
    else none
  | .stop key            => if s.toRefresh = [] then some (s.stop key).2 else none
  | .snapshot            => if s.toRefresh = [] then some s.snapshot else none
  | .refresh             =>
    match s.toRefresh with
    | []          => none
    | key :: rest => some (s.refresh key rest)
  | .fork pgid           =>
    let group := s.groups pgid
    if group.isLive then
      some (s.setGroup pgid { group with descendants := group.descendants + 1 })
    else none
  | .exitLeader pgid     =>
    let group := s.groups pgid
    if group.leader = .running then some (s.setGroup pgid { group with leader := .exited })
    else none
  | .exitDescendant pgid =>
    let group := s.groups pgid
    if 0 < group.descendants then
      some (s.setGroup pgid { group with descendants := group.descendants - 1 })
    else none

abbrev Step (s : ProcessManager) (a : Action) (s' : ProcessManager) : Prop :=
  s.apply a = some s'

end ProcessManager
end Droidcli.Cli
