import Droidcli.App.TaskSystem
import Mathlib.Data.List.Nodup
import Mathlib.Data.List.Perm.Subperm

namespace Droidcli.App

open Bytes Net

-- The identifiers that the queue has handed out so far.
def TaskQueue.Issued (queue : TaskQueue) (taskId : Bytes) : Prop :=
  ∃ now sequence, sequence ≤ queue.counter ∧ taskId = generateTaskId now sequence

theorem generateTaskId_sequence {now now' : Int} {m n : Nat}
    (h : generateTaskId now m = generateTaskId now' n) : m = n := by
  have hd (n : Nat) : minus ∉ decimal n :=
    fun hm => absurd (isDigit_of_mem_decimal hm) (by decide)
  exact decimal_injective <| eq_of_append_cons_eq (hd m) (hd n) h

theorem addInt64_eq_iff {a b : Int} :
    addInt64 a b = a + b ↔ int64Min ≤ a + b ∧ a + b ≤ int64Max := by
  rw [addInt64, Int.bmod_def]
  simp only [int64Min, int64Max]
  split <;> omega

namespace TaskQueue

variable {tasks : List Task} {task : Task} {id : Bytes} {f : Task → Task} {now : Int}

section Trim

-- What the cap leaves behind: room, or no finished task that could make room.
def Trimmed (tasks : List Task) : Prop :=
  tasks.length ≤ kMaxHistoryEntries ∨ ∀ task ∈ tasks, ¬task.status.isTerminal

theorem trimRounds_sublist {rounds : Nat} : (trimRounds rounds tasks).Sublist tasks := by
  induction rounds generalizing tasks
  case zero           => exact List.Sublist.refl _
  case succ rounds hi => exact hi.trans List.eraseP_sublist

theorem trimRounds_trimmed {rounds : Nat} (h : tasks.length - kMaxHistoryEntries = rounds) :
    Trimmed (trimRounds rounds tasks) := by
  induction rounds generalizing tasks
  case zero => exact .inl (Nat.le_of_sub_eq_zero h)
  case succ rounds hi =>
    by_cases hf : ∃ task ∈ tasks, task.status.isTerminal
    case pos =>
      have ⟨task, hm, ht⟩ := hf
      apply hi
      have : (tasks.eraseP (·.status.isTerminal)).length = tasks.length - 1 :=
        List.length_eraseP_of_mem hm ht
      omega
    case neg =>
      refine .inr fun task hm ht => hf ⟨task, ?_, ht⟩
      exact trimRounds_sublist.subset hm

theorem mem_trimRounds {rounds : Nat} (h : task ∈ tasks) (ht : ¬task.status.isTerminal) :
    task ∈ trimRounds rounds tasks := by
  induction rounds generalizing tasks
  case zero           => exact h
  case succ rounds hi => exact hi (List.mem_eraseP_of_neg (by simpa using ht) |>.mpr h)

structure Trims (tasks tasks' : List Task) : Prop where
  sublist : tasks'.Sublist tasks
  keeps   : ∀ task ∈ tasks, ¬task.status.isTerminal → task ∈ tasks'
  trimmed : Trimmed tasks'
  room    : tasks.length ≤ kMaxHistoryEntries → tasks' = tasks

theorem trimHistory_trims : Trims tasks (trimHistory tasks) where
  sublist := trimRounds_sublist
  keeps _ := mem_trimRounds
  trimmed := trimRounds_trimmed rfl
  room h  := by rw [trimHistory, Nat.sub_eq_zero_of_le h, trimRounds]

namespace Trims

variable {tasks' : List Task}

theorem ids (t : Trims tasks tasks') (h : (tasks.map Task.id).Nodup) :
    (tasks'.map Task.id).Nodup :=
  h.sublist (t.sublist.map Task.id)

-- The only finished task is gone when there is no room for it.
theorem not_mem (t : Trims tasks tasks') (hn : tasks.Nodup)
    (hl : kMaxHistoryEntries < tasks.length) (ht : task.status.isTerminal)
    (ho : ∀ other ∈ tasks, other ≠ task → ¬other.status.isTerminal) : task ∉ tasks' := by
  intro hm
  have hs : tasks ⊆ tasks' := by
    intro other h
    by_cases he : other = task
    case pos => exact he ▸ hm
    case neg => exact t.keeps other h (ho other h he)
  have := (hn.subperm hs).length_le
  cases t.trimmed
  case inl hl => omega
  case inr hn => exact hn task hm ht

end Trims
end Trim

section Update

theorem update_ids (hf : ∀ task, (f task).id = task.id) :
    (update id f tasks).map Task.id = tasks.map Task.id := by
  induction tasks
  case nil => rfl
  case cons task tasks hi =>
    rw [update]
    split <;> simp [hf, hi]

theorem update_length : (update id f tasks).length = tasks.length := by
  induction tasks
  case nil => rfl
  case cons task tasks hi =>
    rw [update]
    split <;> simp [hi]

-- Identifiers are unique, so that an update reaches every task that bears the one it is given.
theorem mem_update (hn : (tasks.map Task.id).Nodup) (h : task ∈ update id f tasks) :
    (task ∈ tasks ∧ task.id ≠ id) ∨ ∃ old ∈ tasks, old.id = id ∧ task = f old := by
  induction tasks
  case nil => simp [update] at h
  case cons head tasks hi =>
    have ⟨hh, hn⟩ := List.nodup_cons.mp hn
    rw [update] at h
    split at h <;> cases List.mem_cons.mp h
    case isTrue.inl hid he => exact .inr ⟨head, by simp, hid, he⟩
    case isTrue.inr hid hm =>
      refine .inl ⟨List.mem_cons_of_mem _ hm, fun he => hh ?_⟩
      exact hid.trans he.symm ▸ List.mem_map_of_mem hm
    case isFalse.inl hid he => exact .inl ⟨by simp [he], he ▸ hid⟩
    case isFalse.inr hm =>
      cases hi hn hm
      case inl h => exact .inl ⟨List.mem_cons_of_mem _ h.left, h.right⟩
      case inr h =>
        have ⟨old, ho, h⟩ := h
        exact .inr ⟨old, List.mem_cons_of_mem _ ho, h⟩

theorem map_mem_update (f : Task → Task) (hn : (tasks.map Task.id).Nodup) (h : task ∈ tasks)
    (hid : task.id = id) :
    f task ∈ update id f tasks := by
  induction tasks
  case nil => contradiction
  case cons head tasks hi =>
    have ⟨hh, hn⟩ := List.nodup_cons.mp hn
    rw [update]
    cases List.mem_cons.mp h
    case inl he => simp [← he, hid]
    case inr hm =>
      have : head.id ≠ id := fun he => hh (he.trans hid.symm ▸ List.mem_map_of_mem hm)
      simp [this, hi hn hm]

end Update

section Claim

variable {claimed : Task} {rest : List Task}

-- What a claim does: it finds a pending task that is due, and marks it as running.
theorem claimFrom_split (h : claimFrom now tasks = some (claimed, rest)) :
    ∃ before task after, tasks = before ++ task :: after ∧ rest = before ++ claimed :: after ∧
      task.status = .pending ∧ task.scheduledForMs ≤ now ∧ claimed = { task with
        status := .running, updatedAtMs := now, runCount := task.runCount + 1 } := by
  induction tasks generalizing rest
  case nil => contradiction
  case cons task tasks hi =>
    rw [claimFrom] at h
    split at h
    case isTrue hp =>
      have ⟨hc, hr⟩ := Prod.mk.inj (Option.some.inj h)
      exact ⟨[], task, tasks, rfl, by simp [← hr, ← hc], hp.left, hp.right, hc.symm⟩
    case isFalse =>
      have ⟨⟨claimed', rest'⟩, hc, he⟩ := Option.map_eq_some_iff.mp h
      have ⟨he₁, he₂⟩ := Prod.mk.inj he
      have ⟨before, old, after, ht, hr, h⟩ := hi (he₁ ▸ hc)
      exact ⟨task :: before, old, after, by simp [ht], by simp [← he₂, hr], h⟩

theorem claimFrom_cases (h : claimFrom now tasks = some (claimed, rest)) :
    ∃ before task after, tasks = before ++ task :: after ∧ rest = before ++ claimed :: after ∧
      task.status = .pending ∧ claimed.id = task.id ∧ claimed.status = .running := by
  have ⟨before, task, after, ht, hr, hp, _, hc⟩ := claimFrom_split h
  exact ⟨before, task, after, ht, hr, hp, by simp [hc], by simp [hc]⟩

theorem claimNext_eq_some {queue : TaskQueue} (h : (queue.claimNext now).1 = some claimed) :
    ∃ rest, claimFrom now queue.tasks = some (claimed, rest) ∧
      (queue.claimNext now).2 = { queue with tasks := rest } := by
  cases hc : claimFrom now queue.tasks
  case none => simp [claimNext, hc] at h
  case some r =>
    have he : r.1 = claimed := by simpa [claimNext, hc] using h
    exact ⟨r.2, by simp [← he], by simp [claimNext, hc]⟩

theorem claimNext_eq_none {queue : TaskQueue} (h : (queue.claimNext now).1 = none) :
    (queue.claimNext now).2 = queue := by
  cases hc : claimFrom now queue.tasks
  case none   => simp [claimNext, hc]
  case some r => simp [claimNext, hc] at h

theorem claimNext_cases {queue : TaskQueue} (h : (queue.claimNext now).1 = some claimed) :
    ∃ before task after, queue.tasks = before ++ task :: after ∧
      (queue.claimNext now).2 = { queue with tasks := before ++ claimed :: after } ∧
      task.status = .pending ∧ claimed.id = task.id ∧ claimed.status = .running := by
  have ⟨rest, hc, hq⟩ := claimNext_eq_some h
  have ⟨before, task, after, ht, hr, h⟩ := claimFrom_cases hc
  exact ⟨before, task, after, ht, hr ▸ hq, h⟩

end Claim

section Settle

variable {queue : TaskQueue}

theorem find_eq_none_iff : queue.find id = none ↔ ∀ task ∈ queue.tasks, task.id ≠ id := by
  simp [find]

theorem find_eq_some (hn : (queue.tasks.map Task.id).Nodup) (h : task ∈ queue.tasks)
    (hid : task.id = id) : queue.find id = some task := by
  have ⟨found, hf⟩ := Option.ne_none_iff_exists'.mp fun he => find_eq_none_iff.mp he task h hid
  have hm := List.mem_of_find?_eq_some hf
  have he : found.id = task.id := hid ▸ by simpa using List.find?_some hf
  exact List.inj_on_of_nodup_map hn hm h he ▸ hf

theorem mem_of_find (h : queue.find id = some task) : task ∈ queue.tasks ∧ task.id = id :=
  ⟨List.mem_of_find?_eq_some h, by simpa using List.find?_some h⟩

-- What every change of a queued task comes to: an update, and a trim.
structure Settles (queue : TaskQueue) (id : Bytes) (f : Task → Task) (queue' : TaskQueue) :
    Prop where
  counter : queue'.counter = queue.counter
  trims   : Trims (update id f queue.tasks) queue'.tasks

theorem settle_settles (f : Task → Task) (h : (queue.find id).isSome) :
    Settles queue id f (queue.settle id f).2 := by
  rw [settle, if_pos h]
  constructor
  case counter => rfl
  case trims =>
    dsimp only
    exact trimHistory_trims

theorem settle_unknown (h : queue.find id = none) : (queue.settle id f).2 = queue := by
  simp [settle, h]

-- A task that is recorded keeps its id, and is then due again or finished.
def Recorded (f : Task → Task) : Prop :=
  ∀ task, (f task).id = task.id ∧ (f task).status ∈ [.pending, .done, .failed]

theorem record_settles (queue : TaskQueue) (outcome : TaskOutcome) (id : Bytes) (now : Int) :
    ∃ f, Recorded f ∧ queue.record id now outcome = (queue.settle id f).2 := by
  cases outcome
  all_goals
    refine ⟨_, fun task => ?_, rfl⟩
    simp only [Task.rescheduled]
    split <;> simp

theorem cancel_settles (h : (queue.cancel id now).1 = true) :
    (∃ task, queue.find id = some task ∧ ¬task.status.isTerminal) ∧
      Settles queue id (·.cancelled now) (queue.cancel id now).2 := by
  cases hf : queue.find id
  case none => simp [cancel, hf] at h
  case some task =>
    cases ht : task.status.isTerminal
    case true  => simp [cancel, hf, ht] at h
    case false =>
      have hc : queue.cancel id now = queue.settle id (·.cancelled now) := by simp [cancel, hf, ht]
      exact ⟨⟨task, rfl, by simp [ht]⟩, hc ▸ settle_settles _ (by simp [hf])⟩

theorem cancel_refused (h : ¬(queue.cancel id now).1 = true) : (queue.cancel id now).2 = queue := by
  cases hf : queue.find id
  case none => simp [cancel, hf]
  case some task =>
    cases ht : task.status.isTerminal
    case true  => simp [cancel, hf, ht]
    case false => simp [cancel, hf, ht, settle] at h

end Settle
end TaskQueue

theorem TaskQueue.enqueue_fresh (queue : TaskQueue) {task : Task} (now : Int)
    (h : task.id = [] ∧ task.status = .unset) :
    ∃ fresh, (queue.enqueue task now).2.counter = queue.counter + 1 ∧
      Trims (queue.tasks ++ [fresh]) (queue.enqueue task now).2.tasks ∧
      fresh.id = generateTaskId now (queue.counter + 1) ∧ fresh.status = .pending := by
  simp only [enqueue, h.left, ↓reduceIte]
  exact ⟨_, trivial, trimHistory_trims, rfl, by simp [h.right]⟩

-- A request that parses leaves the id and the status to the queue.
theorem parseTaskRequestFromJson_fresh {body : Bytes} {parsed : Int} {task : Task}
    (h : parseTaskRequestFromJson body parsed = some (.ok task)) :
    task.id = [] ∧ task.status = .unset := by
  rw [parseTaskRequestFromJson] at h
  split at h
  case isTrue => simp at h
  case isFalse =>
    have ⟨_, _, h⟩ := Option.bind_eq_some_iff.mp h
    have ⟨_, _, h⟩ := Option.bind_eq_some_iff.mp h
    have := Except.ok.inj (Option.some.inj h)
    simp [← this]

end Droidcli.App
