import Droidcli.App.Theorems.Queue

namespace Droidcli.App.TaskQueue

open Bytes

-- The queues that the calls of its public functions lead to, in whatever order and with whatever
-- arguments. A caller is free to hand in a task with an id and a status of its own.
inductive Reachable : TaskQueue → Prop
  | empty : Reachable ⟨[], 0⟩
  | enqueue {queue : TaskQueue} (task : Task) (now : Int) :
    Reachable queue → Reachable (queue.enqueue task now).2
  | claimNext {queue : TaskQueue} (now : Int) :
    Reachable queue → Reachable (queue.claimNext now).2
  | complete {queue : TaskQueue} (taskId resultJson : Bytes) (now : Int) :
    Reachable queue → Reachable (queue.complete taskId resultJson now).2
  | fail {queue : TaskQueue} (taskId error : Bytes) (now : Int) :
    Reachable queue → Reachable (queue.fail taskId error now).2
  | cancel {queue : TaskQueue} (taskId : Bytes) (now : Int) :
    Reachable queue → Reachable (queue.cancel taskId now).2

variable {queue : TaskQueue} {tasks : List Task} {task : Task} {id : Bytes} {f : Task → Task}
variable {now : Int}

section Trimmed

theorem settle_trimmed (h : Trimmed queue.tasks) : Trimmed (queue.settle id f).2.tasks := by
  by_cases hf : (queue.find id).isSome
  case pos => exact (settle_settles f hf).trims.trimmed
  case neg => simpa [settle, hf] using h

theorem claimNext_trimmed (h : Trimmed queue.tasks) : Trimmed (queue.claimNext now).2.tasks := by
  cases hc : (queue.claimNext now).1
  case none => exact (claimNext_eq_none hc).symm ▸ h
  case some claimed =>
    have ⟨before, old, after, ht, hq, _, _, hr⟩ := claimNext_cases hc
    rw [hq]
    cases h
    case inl hl => exact .inl (by simpa [ht] using hl)
    case inr hn =>
      refine .inr fun task hm => ?_
      simp only [List.mem_append, List.mem_cons] at hm
      obtain hm | rfl | hm := hm
      · exact hn task (by simp [ht, hm])
      · simp [hr, TaskStatus.isTerminal]
      · exact hn task (by simp [ht, hm])

theorem enqueue_trimmed : Trimmed (queue.enqueue task now).2.tasks := by
  simp only [enqueue]
  exact trimHistory_trims.trimmed

theorem Reachable.trimmed (r : Reachable queue) : Trimmed queue.tasks := by
  induction r
  case empty        => exact .inl (by simp)
  case enqueue      => exact enqueue_trimmed
  case claimNext hi => exact claimNext_trimmed hi
  case complete hi  => exact settle_trimmed hi
  case fail hi      => exact settle_trimmed hi
  case cancel taskId now _ hi =>
    rw [TaskQueue.cancel]
    split
    case h_1 => exact hi
    case h_2 =>
      split
      case isTrue  => exact hi
      case isFalse => exact settle_trimmed hi

end Trimmed

theorem find?_update (h : tasks.find? (·.id = id) = some task) (hf : (f task).id = id) :
    (update id f tasks).find? (·.id = id) = some (f task) := by
  induction tasks
  case nil => simp at h
  case cons head tasks hi =>
    rw [update]
    by_cases hh : head.id = id
    case pos =>
      have he : head = task := by simpa [hh] using h
      rw [if_pos hh, he]
      simp [hf]
    case neg =>
      rw [if_neg hh]
      simpa [hh] using hi (by simpa [hh] using h)

-- In a list without finished tasks, the one that an update finishes is the one that is dropped.
theorem eraseP_update (hn : ∀ task ∈ tasks, ¬task.status.isTerminal)
    (h : tasks.find? (·.id = id) = some task) (ht : (f task).status.isTerminal) :
    ((update id f tasks).eraseP (·.status.isTerminal)).Sublist tasks := by
  induction tasks
  case nil => simp at h
  case cons head tasks hi =>
    rw [update]
    by_cases hh : head.id = id
    case pos =>
      have he : head = task := by simpa [hh] using h
      rw [if_pos hh, List.eraseP_cons_of_pos (by simpa [he] using ht)]
      exact List.sublist_cons_self head tasks
    case neg =>
      have hs := hi (fun task hm => hn task (List.mem_cons_of_mem _ hm)) (by simpa [hh] using h)
      rw [if_neg hh, List.eraseP_cons_of_neg (by simpa using hn head List.mem_cons_self)]
      exact hs.cons_cons head

-- The task that `complete` has marked as done, with the result that it was given.
def finished (task : Task) (resultJson : Bytes) (now : Int) : Task :=
  { task with resultJson := resultJson, updatedAtMs := now, status := .done }

def Retrievable (queue : TaskQueue) (task : Task) (resultJson : Bytes) (now : Int) : Prop :=
  (queue.complete task.id resultJson now).2.find task.id = some (finished task resultJson now)

-- A one-shot task that `complete` finishes is found with its result exactly when the queue is
-- within its cap. Beyond the cap it is the only finished task, and the trim of the same call drops
-- it.
theorem complete_retrievable_iff {resultJson : Bytes} (r : Reachable queue)
    (h : queue.find id = some task) (hc : (queue.complete id resultJson now).1 = true)
    (ho : ¬0 < task.recurrenceMs) :
    Retrievable queue task resultJson now ↔ queue.tasks.length ≤ kMaxHistoryEntries := by
  have hid : task.id = id := (mem_of_find h).right
  subst hid
  let f (task : Task) := Task.rescheduled { task with resultJson := resultJson } now .done
  have hf : f task = finished task resultJson now := by
    simp [f, Task.rescheduled, ho, finished]
  have hq : (queue.complete task.id resultJson now).2.tasks =
      trimHistory (update task.id f queue.tasks) := by
    simp [complete, settle, h, f]
  have hr : Retrievable queue task resultJson now ↔
      (trimHistory (update task.id f queue.tasks)).find? (·.id = task.id) = some (f task) := by
    rw [Retrievable, find, hq, hf]
  rw [hr]
  constructor
  case mp =>
    intro hs
    by_contra hl
    have hn := r.trimmed.resolve_left hl
    have hd : (f task).status.isTerminal := by simp [hf, finished, TaskStatus.isTerminal]
    obtain ⟨rounds, he⟩ : ∃ rounds, queue.tasks.length - kMaxHistoryEntries = rounds + 1 :=
      ⟨queue.tasks.length - kMaxHistoryEntries - 1, by omega⟩
    have hm := List.mem_of_find?_eq_some hs
    rw [trimHistory, update_length, he, trimRounds] at hm
    have hm := (trimRounds_sublist.trans (eraseP_update hn h hd)).subset hm
    exact hn _ hm hd
  case mpr =>
    intro hl
    rw [trimHistory_trims.room (by rwa [update_length])]
    exact find?_update h (by simp [hf, finished])

-- A one-shot task that runs a command, as a request without delay or recurrence parses to it.
def runTask : Task where
  id             := []
  connectorId    := []
  command        := "run"
  payloadJson    := []
  status         := .unset
  createdAtMs    := 0
  updatedAtMs    := 0
  scheduledForMs := 0
  recurrenceMs   := 0
  runCount       := 0
  errorMessage   := []
  resultJson     := []

def queued : Nat → TaskQueue
  | 0     => ⟨[], 0⟩
  | n + 1 => ((queued n).enqueue runTask 0).2

theorem queued_reachable (n : Nat) : Reachable (queued n) := by
  induction n
  case zero      => exact .empty
  case succ n hi => exact .enqueue runTask 0 hi

-- The first task of such a queue.
def firstTask : Task :=
  { runTask with id := "task-0-1", status := .pending }

theorem complete_retrievable_iff_single :
    Retrievable (queued 1) firstTask "{}" 5 ↔ (queued 1).tasks.length ≤ kMaxHistoryEntries :=
  have h : (queued 1).find "task-0-1" = some firstTask := by decide +kernel
  complete_retrievable_iff (queued_reachable 1) h (by decide +kernel) (by decide)

theorem not_complete_retrievable :
    ¬∀ (queue : TaskQueue) (task : Task) (id resultJson : Bytes) (now : Int), Reachable queue →
      queue.find id = some task → (queue.complete id resultJson now).1 = true →
      ¬0 < task.recurrenceMs → Retrievable queue task resultJson now := by
  intro h
  have hr := h (queued 257) firstTask "task-0-1" "{}" 5 (queued_reachable 257)
    (by decide +kernel) (by decide +kernel) (by decide)
  revert hr
  rw [Retrievable]
  decide +kernel

end Droidcli.App.TaskQueue
