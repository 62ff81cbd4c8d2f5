import Droidcli.App.Theorems.Retrieval

namespace Droidcli.App.TaskQueue

open Bytes

variable {queue : TaskQueue} {tasks touched : List Task} {task : Task} {id : Bytes}
variable {f : Task → Task} {now : Int}

def isFinished (task : Task) : Bool :=
  task.status.isTerminal

-- What a trim makes of a list: the finished tasks of a front part are gone, which are the oldest
-- ones, and there are as many of them as it takes to get down to the cap.
structure Trimming (tasks kept : List Task) : Prop where
  order   : kept.Sublist tasks
  live    : kept.filter (!isFinished ·) = tasks.filter (!isFinished ·)
  oldest  : ∃ front behind, tasks = front ++ behind ∧
    kept = front.filter (!isFinished ·) ++ behind
  needed  : kept.length + min (tasks.length - kMaxHistoryEntries) (tasks.countP isFinished) =
    tasks.length
  bounded : kept.length ≤ kMaxHistoryEntries ∨ ∀ task ∈ kept, ¬isFinished task

inductive Operation
  | enqueue (task : Task)
  | claimNext
  | complete (taskId resultJson : Bytes)
  | fail (taskId error : Bytes)
  | cancel (taskId : Bytes)

-- The task as it is queued.
def stamped (queue : TaskQueue) (task : Task) (now : Int) : Task :=
  { task with
    id := if task.id = [] then generateTaskId now (queue.counter + 1) else task.id
    status := if task.status = .unset then .pending else task.status
    createdAtMs := now
    updatedAtMs := now }

def IsDue (now : Int) (task : Task) : Prop :=
  task.status = .pending ∧ task.scheduledForMs ≤ now

instance : Decidable (IsDue now task) :=
  inferInstanceAs (Decidable (_ ∧ _))

def started (now : Int) (task : Task) : Task :=
  { task with status := .running, updatedAtMs := now, runCount := task.runCount + 1 }

-- The task that an operation is told to change, and what it makes of it. One that has ended is not
-- cancelled any more.
def Operation.taskId : Operation → Option Bytes
  | .enqueue _ | .claimNext                               => none
  | .complete taskId _ | .fail taskId _ | .cancel taskId => some taskId

def Operation.change (now : Int) (task : Task) : Operation → Task
  | .enqueue _ | .claimNext => task
  | .complete _ resultJson  => Task.rescheduled { task with resultJson := resultJson } now .done
  | .fail _ error           => Task.rescheduled { task with errorMessage := error } now .failed
  | .cancel _               => if isFinished task then task else task.cancelled now

-- What an operation does to the list before it is trimmed: the new task is put at its end, or the
-- one task that is meant is changed where it stands. Only if there is none the list is left alone.
inductive Touches (queue : TaskQueue) (now : Int) : Operation → List Task → Prop
  | enqueued {task : Task} :
    Touches queue now (.enqueue task) (queue.tasks ++ [queue.stamped task now])
  | claimed {before after : List Task} {task : Task} :
    queue.tasks = before ++ task :: after → (∀ other ∈ before, ¬IsDue now other) → IsDue now task →
    Touches queue now .claimNext (before ++ started now task :: after)
  | unclaimed : (∀ task ∈ queue.tasks, ¬IsDue now task) → Touches queue now .claimNext queue.tasks
  | settled {operation : Operation} {before after : List Task} {task : Task} :
    queue.tasks = before ++ task :: after → (∀ other ∈ before, other.id ≠ task.id) →
    operation.taskId = some task.id →
    Touches queue now operation (before ++ operation.change now task :: after)
  | unknown {operation : Operation} {id : Bytes} :
    operation.taskId = some id → (∀ task ∈ queue.tasks, task.id ≠ id) →
    Touches queue now operation queue.tasks

def perform (queue : TaskQueue) (now : Int) : Operation → TaskQueue
  | .enqueue task               => (queue.enqueue task now).2
  | .claimNext                  => (queue.claimNext now).2
  | .complete taskId resultJson => (queue.complete taskId resultJson now).2
  | .fail taskId error          => (queue.fail taskId error now).2
  | .cancel taskId              => (queue.cancel taskId now).2

section Rounds

variable {rounds : Nat}

theorem trimRounds_nil : trimRounds rounds [] = [] := by
  induction rounds
  case zero           => rfl
  case succ rounds hi => exact hi

theorem trimRounds_succ :
    trimRounds (rounds + 1) tasks = trimRounds rounds (tasks.eraseP isFinished) :=
  rfl

theorem trimRounds_live (h : ¬isFinished task) :
    trimRounds rounds (task :: tasks) = task :: trimRounds rounds tasks := by
  induction rounds generalizing tasks
  case zero => rfl
  case succ rounds hi => rw [trimRounds_succ, List.eraseP_cons_of_neg h, hi, trimRounds_succ]

theorem trimRounds_finished (h : isFinished task) :
    trimRounds (rounds + 1) (task :: tasks) = trimRounds rounds tasks := by
  rw [trimRounds_succ, List.eraseP_cons_of_pos h]

-- Each round takes the oldest finished task that is left.
theorem trimRounds_split (rounds : Nat) (tasks : List Task) :
    ∃ front behind, tasks = front ++ behind ∧
      trimRounds rounds tasks = front.filter (!isFinished ·) ++ behind ∧
      front.countP isFinished = min rounds (tasks.countP isFinished) := by
  induction tasks generalizing rounds
  case nil => exact ⟨[], [], rfl, trimRounds_nil, by simp⟩
  case cons task tasks hi =>
    by_cases hf : isFinished task
    case neg =>
      have ⟨front, behind, ht, hr, hc⟩ := hi rounds
      refine ⟨task :: front, behind, by simp [ht], ?_, ?_⟩
      · simp [trimRounds_live hf, hr, hf]
      · simpa [hf] using hc
    case pos =>
      cases rounds
      case zero => exact ⟨[], task :: tasks, rfl, rfl, by simp⟩
      case succ rounds =>
        have ⟨front, behind, ht, hr, hc⟩ := hi rounds
        refine ⟨task :: front, behind, by simp [ht], ?_, ?_⟩
        · simp [trimRounds_finished hf, hr, hf]
        · simp only [List.countP_cons_of_pos hf, hc]
          omega

end Rounds

theorem trimHistory_trimming : Trimming tasks (trimHistory tasks) := by
  have ⟨front, behind, ht, hr, hc⟩ := trimRounds_split (tasks.length - kMaxHistoryEntries) tasks
  constructor
  case order   => exact trimRounds_sublist
  case oldest  => exact ⟨front, behind, ht, hr⟩
  case bounded => exact trimHistory_trims.trimmed
  case live =>
    rw [trimHistory, hr, ht]
    simp
  case needed =>
    have hl : front.length = front.countP isFinished + (front.filter (!isFinished ·)).length := by
      rw [List.length_eq_countP_add_countP isFinished, ← List.countP_eq_length_filter]
      simp
    rw [← hc, trimHistory, hr, congrArg List.length ht, List.length_append, List.length_append, hl]
    omega

-- Where there is room, or nothing that could make room, a trim does nothing.
theorem trimHistory_of_trimmed (h : Trimmed tasks) : trimHistory tasks = tasks := by
  cases h
  case inl hl => exact trimHistory_trims.room hl
  case inr hn =>
    have ⟨front, behind, ht, hr, _⟩ := trimRounds_split (tasks.length - kMaxHistoryEntries) tasks
    have hf : front.filter (!isFinished ·) = front := by
      apply List.filter_eq_self.mpr
      intro task hm
      simpa [isFinished] using hn task (ht ▸ List.mem_append_left _ hm)
    rw [trimHistory, hr, hf, ← ht]

section Operations

variable {operation : Operation}

theorem update_append {before after : List Task} (hb : ∀ other ∈ before, other.id ≠ task.id) :
    update task.id f (before ++ task :: after) = before ++ f task :: after := by
  induction before
  case nil => simp [update]
  case cons head before hi =>
    obtain ⟨hh, hb⟩ := List.forall_mem_cons.mp hb
    simp [update, hh, hi hb]

-- The task that is found is the first one with its id, and the one that an update changes.
theorem find_split (h : queue.find id = some task) :
    ∃ before after, queue.tasks = before ++ task :: after ∧
      (∀ other ∈ before, other.id ≠ task.id) ∧ task.id = id ∧
      ∀ f, update id f queue.tasks = before ++ f task :: after := by
  have ⟨hid, before, after, ht, hb⟩ := List.find?_eq_some_iff_append.mp h
  obtain rfl : task.id = id := by simpa using hid
  have hb : ∀ other ∈ before, other.id ≠ task.id := by simpa using hb
  exact ⟨before, after, ht, hb, rfl, fun f => ht ▸ update_append hb⟩

theorem claimFrom_cons {head : Task} : claimFrom now (head :: tasks) =
    if IsDue now head then some (started now head, started now head :: tasks)
    else (claimFrom now tasks).map fun (claimed, tasks) => (claimed, head :: tasks) :=
  rfl

-- A claim takes the first task that is due.
theorem claimFrom_first (now : Int) (tasks : List Task) :
    (∀ task ∈ tasks, ¬IsDue now task) ∧ claimFrom now tasks = none ∨
      ∃ before task after, tasks = before ++ task :: after ∧ (∀ other ∈ before, ¬IsDue now other) ∧
        IsDue now task ∧
        claimFrom now tasks = some (started now task, before ++ started now task :: after) := by
  induction tasks
  case nil => exact .inl ⟨by simp, rfl⟩
  case cons head tasks hi =>
    rw [claimFrom_cons]
    by_cases hh : IsDue now head
    case pos => exact .inr ⟨[], head, tasks, rfl, by simp, hh, if_pos hh⟩
    case neg =>
      rw [if_neg hh]
      cases hi
      case inl h =>
        have ⟨hn, hc⟩ := h
        exact .inl ⟨by simpa [hh] using hn, by simp [hc]⟩
      case inr h =>
        have ⟨before, task, after, ht, hb, hd, hc⟩ := h
        exact .inr ⟨head :: before, task, after, by simp [ht], by simpa [hh] using hb, hd,
          by simp [hc]⟩

def OnlyTrims (queue queue' : TaskQueue) (now : Int) (operation : Operation) : Prop :=
  ∃ touched, Touches queue now operation touched ∧ Trimming touched queue'.tasks

-- A list that is left alone has been trimmed before.
theorem trimming_self (r : Reachable queue) : Trimming queue.tasks queue.tasks := by
  have h : Trimming queue.tasks (trimHistory queue.tasks) := trimHistory_trimming
  rwa [trimHistory_of_trimmed r.trimmed] at h

theorem settle_trimming (r : Reachable queue) (ho : operation.taskId = some id)
    (hf : ∀ task, queue.find id = some task → f task = operation.change now task) :
    OnlyTrims queue (queue.settle id f).2 now operation := by
  rw [settle]
  cases h : queue.find id
  case none => exact ⟨queue.tasks, .unknown ho (find_eq_none_iff.mp h), trimming_self r⟩
  case some task =>
    obtain ⟨before, after, ht, hb, rfl, hu⟩ := find_split h
    refine ⟨before ++ operation.change now task :: after, .settled ht hb ho, ?_⟩
    rw [if_pos Option.isSome_some, ← hf task h, ← hu]
    dsimp only
    exact trimHistory_trimming

theorem claimNext_trimming (r : Reachable queue) :
    OnlyTrims queue (queue.claimNext now).2 now .claimNext := by
  cases claimFrom_first now queue.tasks
  case inl h =>
    obtain ⟨hn, hc⟩ := h
    rw [claimNext, hc]
    exact ⟨queue.tasks, .unclaimed hn, trimming_self r⟩
  case inr h =>
    obtain ⟨before, task, after, ht, hb, hd, hc⟩ := h
    have hr : trimHistory (queue.claimNext now).2.tasks = (queue.claimNext now).2.tasks :=
      trimHistory_of_trimmed (claimNext_trimmed r.trimmed)
    rw [claimNext, hc] at hr ⊢
    exact ⟨_, .claimed ht hb hd, by rw [← hr]; exact trimHistory_trimming⟩

-- To cancel a task that has ended changes nothing.
theorem cancel_trimming (r : Reachable queue) :
    OnlyTrims queue (queue.cancel id now).2 now (.cancel id) := by
  rw [TaskQueue.cancel]
  cases h : queue.find id
  case none => exact ⟨queue.tasks, .unknown rfl (find_eq_none_iff.mp h), trimming_self r⟩
  case some task =>
    dsimp only
    split
    case isTrue hf =>
      obtain ⟨before, after, ht, hb, hid, _⟩ := find_split h
      have hc : Operation.change now task (.cancel id) = task := if_pos hf
      have h : Touches queue now (.cancel id) _ := .settled ht hb (hid ▸ rfl)
      rw [hc, ← ht] at h
      exact ⟨queue.tasks, h, trimming_self r⟩
    case isFalse hf =>
      refine settle_trimming r rfl fun found he => ?_
      obtain rfl := Option.some.inj (h.symm.trans he)
      exact (if_neg hf).symm

-- Whatever is done to a queue, in whatever state its earlier operations have left it: the new task
-- or the change of one task apart, all that happens to it is the trim.
theorem perform_trimming (r : Reachable queue) (operation : Operation) (now : Int) :
    ∃ touched, Touches queue now operation touched ∧
      Trimming touched (queue.perform now operation).tasks := by
  cases operation
  case enqueue task =>
    have he : (queue.enqueue task now).2.tasks =
        trimHistory (queue.tasks ++ [queue.stamped task now]) := by
      by_cases hi : task.id = [] <;> simp [enqueue, stamped, hi]
    refine ⟨_, .enqueued, ?_⟩
    rw [perform, he]
    exact trimHistory_trimming
  case claimNext                  => exact claimNext_trimming r
  case complete taskId resultJson => exact settle_trimming r rfl fun _ _ => rfl
  case fail taskId error          => exact settle_trimming r rfl fun _ _ => rfl
  case cancel taskId              => exact cancel_trimming r

theorem perform_trimming_single :
    ∃ touched, Touches (queued 1) 5 (.complete "task-0-1" "{}") touched ∧
      Trimming touched ((queued 1).perform 5 (.complete "task-0-1" "{}")).tasks :=
  perform_trimming (queued_reachable 1) (.complete "task-0-1" "{}") 5

end Operations

end Droidcli.App.TaskQueue
