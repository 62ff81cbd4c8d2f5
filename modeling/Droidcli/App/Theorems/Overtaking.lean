import Droidcli.App.Theorems.Jobs

namespace Droidcli.App

open Bytes Net TaskQueue

namespace QueueEvent

def isClaim : QueueEvent → Bool
  | claimed _ _ => true
  | _           => false

def cancels (id : Bytes) : QueueEvent → Bool
  | cancelled taskId accepted _ => accepted && taskId = id
  | _                           => false

end QueueEvent

-- How often a job comes to wait again within that time, at most.
def Job.periods (elapsed : Int) (job : Job) : Int :=
  if 0 < job.recurrenceMs then elapsed / job.recurrenceMs else 0

-- How often it is claimed within that time, at most.
def Job.turns (elapsed : Int) (job : Job) : Int :=
  match job.standing with
  | .waiting _ => job.periods elapsed + 1
  | .running   => job.periods elapsed
  | .over      => 0

-- The tasks that were enqueued before the one with the id.
def TaskQueue.ahead (queue : TaskQueue) (id : Bytes) : List Task :=
  queue.tasks.takeWhile (·.id ≠ id)

variable {before u t : List QueueEvent} {e : QueueEvent} {job : Job} {id : Bytes}
  {queue : TaskQueue} {counter : Nat} {start now due : Int}

section Pace

-- How a job keeps its pace, if it has been claimed that many times since `start`.
structure Paced (start now : Int) (job : Job) (n : Nat) : Prop where
  once      : ¬0 < job.recurrenceMs → n ≤ 1 ∧ (0 < n → ∀ due, job.standing ≠ .waiting due)
  claimed   : 0 < job.recurrenceMs → n * job.recurrenceMs ≤ now - start + job.recurrenceMs
  scheduled : 0 < job.recurrenceMs → 0 < n → ∀ due, job.standing = .waiting due →
    n * job.recurrenceMs ≤ due - start

theorem Paced.later {n : Nat} {now' : Int} (h : Paced start now job n) (hn : now ≤ now') :
    Paced start now' job n where
  once        := h.once
  claimed hr  := by
    have := h.claimed hr
    omega
  scheduled   := h.scheduled

-- A claim takes a job that is due.
theorem Paced.claim {n : Nat} (h : Paced start now job n) (hs : start ≤ now)
    (hd : job.IsDue now) : Paced start now job.claimed (n + 1) := by
  obtain ⟨due, hw, hdue⟩ := hd
  refine ⟨fun hr => ?_, fun hr => ?_, fun _ _ due hw => by simp [Job.claimed] at hw⟩
  case refine_1 =>
    have hn : n = 0 := Nat.eq_zero_of_not_pos fun hn => (h.once hr).right hn due hw
    exact ⟨by omega, fun _ due => by simp [Job.claimed]⟩
  case refine_2 =>
    have hr : 0 < job.recurrenceMs := hr
    show ((n + 1 : Nat) : Int) * job.recurrenceMs ≤ now - start + job.recurrenceMs
    rw [Nat.cast_add, Int.add_mul, Nat.cast_one, Int.one_mul]
    rcases Nat.eq_zero_or_pos n with hn | hn
    case inl =>
      subst hn
      simpa using hs
    case inr =>
      have := h.scheduled hr hn due hw
      omega

-- A job that recurs waits a whole period from the end of its run.
theorem Paced.finish {n : Nat} (h : Paced start now job n)
    (hf : addInt64 now job.recurrenceMs = now + job.recurrenceMs) :
    Paced start now (job.finished now) n where
  once hr := by
    have hr : ¬0 < job.recurrenceMs := hr
    exact ⟨(h.once hr).left, fun _ due => by simp [Job.finished, hr]⟩
  claimed := h.claimed
  scheduled hr _ due hw := by
    have hr : 0 < job.recurrenceMs := hr
    have hc := h.claimed hr
    simp only [Job.finished, if_pos hr, hf, Standing.waiting.injEq] at hw
    show n * job.recurrenceMs ≤ due - start
    omega

theorem Paced.cancel {n : Nat} (h : Paced start now job n) : Paced start now job.cancelled n where
  once hr           := ⟨(h.once hr).left, fun _ due => by simp [Job.cancelled]⟩
  claimed           := h.claimed
  scheduled _ _ due := by simp [Job.cancelled]

theorem Paced.periods {n : Nat} (h : Paced start now job n) :
    n ≤ job.periods (now - start) + 1 := by
  rw [Job.periods]
  split
  case isTrue hr =>
    have hc := h.claimed hr
    have hn : (n : Int) - 1 ≤ (now - start) / job.recurrenceMs := by
      refine (Int.le_ediv_iff_mul_le hr).mpr ?_
      rw [Int.sub_mul]
      omega
    omega
  case isFalse hr => exact_mod_cast (h.once hr).left

theorem paced_waiting (hs : start ≤ now) : Paced start now job 0 where
  once _      := ⟨Nat.zero_le _, fun hn => absurd hn (Nat.lt_irrefl 0)⟩
  claimed hr  := by
    have hr : 0 < job.recurrenceMs := hr
    rw [Nat.cast_zero, Int.zero_mul]
    omega
  scheduled _ hn := absurd hn (Nat.lt_irrefl 0)

-- A job that runs at the start counts as one that has been claimed then.
theorem paced_running (hs : start ≤ now) (hr : job.standing = .running) : Paced start now job 1 where
  once _          := ⟨le_rfl, fun _ due => by simp [hr]⟩
  claimed _       := by
    rw [Nat.cast_one, Int.one_mul]
    omega
  scheduled _ _ _ := by simp [hr]

end Pace

-- The clock does not run backwards.
structure Timely (start finish : Int) (t : List QueueEvent) : Prop where
  elapsed : start ≤ finish
  ordered : t.Pairwise fun e e' => e.now ≤ e'.now
  within  : ∀ e ∈ t, start ≤ e.now ∧ e.now ≤ finish

theorem Timely.left {finish : Int} (h : Timely start finish (u ++ t)) : Timely start finish u where
  elapsed     := h.elapsed
  ordered     := (List.pairwise_append.mp h.ordered).left
  within e he := h.within e (List.mem_append_left t he)

-- What the clock shows a period after each of the events.
def Fits (t : List QueueEvent) (recurrenceMs : Int) : Prop :=
  ∀ e ∈ t, int64Min ≤ e.now + recurrenceMs ∧ e.now + recurrenceMs ≤ int64Max

section Claims

variable (hd : Distinct (t ++ [e]))
include hd

theorem Run.paced {n : Nat} (r : TaskQueue.Run ⟨[], counter⟩ (t ++ [e]) queue)
    (hm : job ∈ jobs t) (h : Paced start e.now job n) (hs : start ≤ e.now)
    (hf : int64Min ≤ e.now + job.recurrenceMs ∧ e.now + job.recurrenceMs ≤ int64Max) :
    Paced start e.now (job.after e) (n + if e.claims job.id then 1 else 0) := by
  split
  case isTrue hc =>
    obtain ⟨job', hm', hid, hdue, ha, _⟩ := Run.claimed r hd hc
    obtain rfl : job' = job := hd.left.unique hm' hm hid
    exact ha ▸ h.claim hs hdue
  case isFalse hc =>
    unfold Job.after
    split
    case h_1 task now =>
      have hid : job.id ≠ task.id := by simpa [QueueEvent.claims, eq_comm] using hc
      simpa [hid] using h
    case h_2 =>
      split
      case isTrue  => exact h.finish (addInt64_eq_iff.mpr hf)
      case isFalse => exact h
    case h_3 =>
      split
      case isTrue  => exact h.cancel
      case isFalse => exact h
    case h_4 => exact h

-- A claim passes over a job that is due only for one that was enqueued before it.
theorem Run.claims_ahead (r : TaskQueue.Run ⟨[], counter⟩ (t ++ [e]) queue)
    (hm : job ∈ jobs t) (hdue : job.IsDue e.now) (he : e.isClaim) (hn : ¬e.claims job.id) :
    ∃ id' ∈ ((jobs t).map Job.id).takeWhile (· ≠ job.id), e.claims id' := by
  obtain ⟨q, r, hs⟩ := r.snoc_inv
  have hk := Run.keeps r hd.left
  cases hs
  case claimNext now =>
    obtain ⟨hc, _⟩ := @hk.claimNext _ now _ hd.left.job_ids
    have hf : ((jobs t).find? (·.IsDue now)).isSome := by
      simpa using ⟨job, hm, hdue⟩
    obtain ⟨first, hf⟩ := Option.isSome_iff_exists.mp hf
    cases hq : (q.claimNext now).1
    case none => simp [hq, hf] at hc
    case some task =>
      have hid : task.id = first.id := by
        simpa [hq, hf, Job.claimed] using congrArg (Option.map Job.id) hc
      have hne : first.id ≠ job.id := by simpa [QueueEvent.claims, hq, hid] using hn
      obtain ⟨_, front, back, hj, hfront⟩ := List.find?_eq_some_iff_append.mp hf
      have hfront : ∀ id' ∈ front.map Job.id, id' ≠ job.id := by
        rintro id' hid' rfl
        obtain ⟨job', hm', hid'⟩ := List.mem_map.mp hid'
        obtain rfl : job' = job :=
          hd.left.unique (hj ▸ List.mem_append_left _ hm') hm hid'
        have hdue' : ¬job'.IsDue now := by simpa using hfront _ hm'
        exact hdue' hdue
      refine ⟨first.id, ?_, by simp [QueueEvent.claims, hid]⟩
      rw [hj, List.map_append, List.takeWhile_append_of_pos (by simpa using hfront)]
      simp [hne]
  all_goals simp [QueueEvent.isClaim] at he

theorem Run.waits (r : TaskQueue.Run ⟨[], counter⟩ (t ++ [e]) queue)
    (hm : job ∈ jobs t) (hw : job.standing = .waiting due) (hn : ¬e.claims job.id)
    (hc : ¬e.cancels job.id) : (job.after e).standing = .waiting due := by
  obtain ⟨q, r, hs⟩ := r.snoc_inv
  have hk := Run.keeps r hd.left
  unfold Job.after
  split
  case h_1 task now =>
    have hid : job.id ≠ task.id := by simpa [QueueEvent.claims, eq_comm] using hn
    simpa [hid] using hw
  case h_2 taskId outcome now =>
    cases hs
    case finish hr =>
      obtain ⟨task, ht, hid, hs⟩ := hr
      have hid : job.id ≠ taskId := by
        rintro rfl
        obtain rfl : task.job = job := hd.left.unique (hk.mem ht) hm hid
        simp [Task.job, hs] at hw
      simpa [hid] using hw
  case h_3 taskId now =>
    have hid : job.id ≠ taskId := by simpa [QueueEvent.cancels, eq_comm] using hc
    simpa [hid] using hw
  case h_4 => exact hw

theorem Run.stays_over (r : TaskQueue.Run ⟨[], counter⟩ (t ++ [e]) queue)
    (hm : job ∈ jobs t) (ho : job.standing = .over) :
    (job.after e).standing = .over ∧ ¬e.claims job.id := by
  have hn : ¬e.claims job.id := by
    intro hc
    obtain ⟨job', hm', hid, ⟨due, hw, _⟩, _⟩ := Run.claimed r hd hc
    obtain rfl : job' = job := hd.left.unique hm' hm hid
    simp [ho] at hw
  refine ⟨?_, hn⟩
  obtain ⟨q, r, hs⟩ := r.snoc_inv
  have hk := Run.keeps r hd.left
  unfold Job.after
  split
  case h_1 task now =>
    have hid : job.id ≠ task.id := by simpa [QueueEvent.claims, eq_comm] using hn
    simpa [hid] using ho
  case h_2 taskId outcome now =>
    cases hs
    case finish hr =>
      obtain ⟨task, ht, hid, hs⟩ := hr
      have hid : job.id ≠ taskId := by
        rintro rfl
        obtain rfl : task.job = job := hd.left.unique (hk.mem ht) hm hid
        simp [Task.job, hs] at ho
      simpa [hid] using ho
  case h_3 =>
    split
    case isTrue  => rfl
    case isFalse => exact ho
  case h_4 => exact ho

end Claims

section Waiting

variable {js : List Job} {ids : List Bytes} {finish : Int}

theorem timesClaimed_snoc :
    timesClaimed id (t ++ [e]) = timesClaimed id t + if e.claims id then 1 else 0 := by
  simp [timesClaimed, List.countP_append, List.countP_cons]

theorem sum_timesClaimed_le :
    (ids.map (timesClaimed · t)).sum ≤ (ids.map (timesClaimed · (t ++ [e]))).sum := by
  refine List.sum_le_sum fun id _ => ?_
  rw [timesClaimed_snoc]
  exact Nat.le_add_right _ _

theorem sum_timesClaimed_lt (h : ∃ id ∈ ids, e.claims id) :
    (ids.map (timesClaimed · t)).sum < (ids.map (timesClaimed · (t ++ [e]))).sum := by
  obtain ⟨id, hid, he⟩ := h
  refine List.sum_lt_sum _ _ (fun id _ => ?_) ⟨id, hid, ?_⟩
  case refine_1 =>
    rw [timesClaimed_snoc]
    exact Nat.le_add_right _ _
  case refine_2 =>
    rw [timesClaimed_snoc, if_pos he]
    exact Nat.lt_succ_self _

theorem afterAll_snoc : job.afterAll (u ++ [e]) = (job.afterAll u).after e := by
  simp [Job.afterAll]

theorem afterAll_recurrenceMs : (job.afterAll u).recurrenceMs = job.recurrenceMs := by
  induction u using List.reverseRecOn
  case nil                    => rfl
  case append_singleton u e hi => rw [afterAll_snoc, after_same.right, hi]

-- Each job keeps its pace.
theorem Run.paced_all {n : Nat} (r : TaskQueue.Run ⟨[], counter⟩ (before ++ u) queue)
    (hd : Distinct (before ++ u)) (ht : Timely start finish u) (hf : Fits u job.recurrenceMs)
    (hm : job ∈ jobs before) (hs : start ≤ now) (hn : ∀ e ∈ u, e.now ≤ now)
    (hp : ∀ now, start ≤ now → Paced start now job n) :
    Paced start now (job.afterAll u) (n + timesClaimed job.id u) := by
  induction u using List.reverseRecOn generalizing queue now
  case nil => exact hp now hs
  case append_singleton u e hi =>
    rw [← List.append_assoc] at r hd
    obtain ⟨_, r', _⟩ := r.snoc_inv
    obtain ⟨hfu, hfe⟩ := List.forall_mem_append.mp hf
    have hu : ∀ e' ∈ u, e'.now ≤ e.now := fun e' he =>
      (List.pairwise_append.mp ht.ordered).right.right e' he e (by simp)
    obtain ⟨hse, _⟩ := ht.within e (by simp)
    have hp := hi r' hd.left ht.left hfu hse hu
    have hs := Run.paced hd r (mem_jobs_append hm) hp hse
      (by simpa [afterAll_recurrenceMs] using hfe)
    rw [afterAll_id, Nat.add_assoc, ← timesClaimed_snoc, ← afterAll_snoc] at hs
    exact hs.later (hn e (by simp))

-- A job that is over has no turn any more.
theorem Run.over (r : TaskQueue.Run ⟨[], counter⟩ (before ++ u) queue)
    (hd : Distinct (before ++ u)) (hm : job ∈ jobs before) (ho : job.standing = .over) :
    (job.afterAll u).standing = .over ∧ timesClaimed job.id u = 0 := by
  induction u using List.reverseRecOn generalizing queue
  case nil => exact ⟨ho, rfl⟩
  case append_singleton u e hi =>
    rw [← List.append_assoc] at r hd
    obtain ⟨_, r', _⟩ := r.snoc_inv
    obtain ⟨ho, hc⟩ := hi r' hd.left
    obtain ⟨ho, hn⟩ := Run.stays_over hd r (mem_jobs_append hm) ho
    rw [afterAll_id] at hn
    rw [afterAll_snoc, timesClaimed_snoc, hc, if_neg hn]
    exact ⟨ho, rfl⟩

theorem Run.turns (r : TaskQueue.Run ⟨[], counter⟩ (before ++ u) queue)
    (hd : Distinct (before ++ u)) (ht : Timely start finish u) (hm : job ∈ jobs before)
    (hf : job.standing ≠ .over → Fits u job.recurrenceMs) :
    timesClaimed job.id u ≤ job.turns (finish - start) := by
  have hn : ∀ e ∈ u, e.now ≤ finish := fun e he => (ht.within e he).right
  have hp {n : Nat} (ho : job.standing ≠ .over) (hp : ∀ now, start ≤ now → Paced start now job n) :
      ((n + timesClaimed job.id u : Nat) : Int) ≤ job.periods (finish - start) + 1 := by
    have := (Run.paced_all r hd ht (hf ho) hm ht.elapsed hn hp).periods
    simpa [Job.periods, afterAll_recurrenceMs] using this
  rw [Job.turns]
  split
  case h_1 hw =>
    have := hp (by simp [hw]) fun _ => paced_waiting
    omega
  case h_2 hr =>
    have := hp (by simp [hr]) fun _ hs => paced_running hs hr
    omega
  case h_3 ho => exact_mod_cast (Run.over r hd hm ho).right.le

theorem Run.waits_all (r : TaskQueue.Run ⟨[], counter⟩ (before ++ u) queue)
    (hd : Distinct (before ++ u)) (hm : job ∈ jobs before) (hw : job.standing = .waiting due)
    (hn : ∀ e ∈ u, ¬e.claims job.id ∧ ¬e.cancels job.id) :
    (job.afterAll u).standing = .waiting due := by
  induction u using List.reverseRecOn generalizing queue
  case nil => exact hw
  case append_singleton u e hi =>
    rw [← List.append_assoc] at r hd
    obtain ⟨_, r', _⟩ := r.snoc_inv
    obtain ⟨hu, he⟩ := List.forall_mem_append.mp hn
    obtain ⟨hc, hx⟩ := he e (by simp)
    rw [afterAll_snoc]
    exact Run.waits hd r (mem_jobs_append hm) (hi r' hd.left hu) (by rwa [afterAll_id])
      (by rwa [afterAll_id])

theorem takeWhile_append_left {l l' : List Bytes} (h : id ∈ l) :
    (l ++ l').takeWhile (· ≠ id) = l.takeWhile (· ≠ id) := by
  induction l
  case nil => simp at h
  case cons id' l hi =>
    by_cases he : id' = id
    case pos => simp [he]
    case neg => simpa [he] using hi (by simpa [Ne.symm he] using h)

-- While a job that is due waits, every claim is one of a job ahead of it.
theorem Run.claims_le (r : TaskQueue.Run ⟨[], counter⟩ (before ++ u) queue)
    (hd : Distinct (before ++ u)) (hm : job ∈ jobs before) (hw : job.standing = .waiting due)
    (hdue : ∀ e ∈ u, due ≤ e.now) (hn : ∀ e ∈ u, ¬e.claims job.id ∧ ¬e.cancels job.id) :
    u.countP (·.isClaim) ≤
      ((((jobs before).map Job.id).takeWhile (· ≠ job.id)).map (timesClaimed · u)).sum := by
  induction u using List.reverseRecOn generalizing queue
  case nil => simp
  case append_singleton u e hi =>
    rw [← List.append_assoc] at r hd
    obtain ⟨_, r', _⟩ := r.snoc_inv
    obtain ⟨hu, he⟩ := List.forall_mem_append.mp hn
    obtain ⟨hud, hed⟩ := List.forall_mem_append.mp hdue
    have hi := hi r' hd.left hud hu
    rw [List.countP_append, List.countP_singleton]
    by_cases hc : e.isClaim
    case neg =>
      simp only [hc]
      exact hi.trans sum_timesClaimed_le
    case pos =>
      have hw := Run.waits_all r' hd.left hm hw hu
      obtain ⟨id, hid, he⟩ := Run.claims_ahead hd r (mem_jobs_append hm)
        ⟨due, hw, hed e (by simp)⟩ hc (by simpa [afterAll_id] using (he e (by simp)).left)
      rw [afterAll_id, jobs_ids, enqueuedTasks_append, List.map_append, ← jobs_ids,
        takeWhile_append_left (List.mem_map_of_mem hm)] at hid
      have := sum_timesClaimed_lt (t := u) ⟨id, hid, he⟩
      simp only [hc, if_true]
      omega

theorem Keeps.mem_of_not_over {tasks : List Task} (h : Keeps js tasks) (hm : job ∈ js)
    (ho : job.standing ≠ .over) : ∃ task ∈ tasks, task.job = job := by
  induction h
  case nil => simp at hm
  case keep task _ h hi =>
    rcases List.mem_cons.mp hm with rfl | hm
    case inl => exact ⟨task, List.mem_cons_self, rfl⟩
    case inr =>
      obtain ⟨task', ht, hj⟩ := hi hm
      exact ⟨task', List.mem_cons_of_mem _ ht, hj⟩
  case drop hover h hi =>
    rcases List.mem_cons.mp hm with rfl | hm
    case inl => exact absurd hover ho
    case inr => exact hi hm

-- What the queue has dropped has no turn either.
theorem Keeps.sum_turns {tasks : List Task} {elapsed : Int} (h : Keeps js tasks)
    (hn : (js.map Job.id).Nodup) (hid : id ∈ tasks.map Task.id) :
    ((js.takeWhile (·.id ≠ id)).map (·.turns elapsed)).sum =
      ((tasks.takeWhile (·.id ≠ id)).map (·.job.turns elapsed)).sum := by
  induction h
  case nil => rfl
  case keep task _ h hi =>
    by_cases he : task.id = id
    case pos => simp [he]
    case neg =>
      have hid := (List.mem_cons.mp hid).resolve_left (Ne.symm he)
      simpa [he] using hi (List.nodup_cons.mp hn).right hid
  case drop job ho h hi =>
    have hne : job.id ≠ id := by
      rintro rfl
      obtain ⟨task, hm, ht⟩ := List.mem_map.mp hid
      exact (List.nodup_cons.mp hn).left (ht ▸ h.mem_id hm)
    have hz : job.turns elapsed = 0 := by simp [Job.turns, ho]
    simpa [hne, hz] using hi (List.nodup_cons.mp hn).right hid

theorem Run.sum_turns (id : Bytes) (r : TaskQueue.Run ⟨[], counter⟩ (before ++ u) queue)
    (hd : Distinct (before ++ u)) (ht : Timely start finish u)
    (hf : ∀ job ∈ jobs before, job.standing ≠ .over → Fits u job.recurrenceMs) :
    (((((jobs before).map Job.id).takeWhile (· ≠ id)).map (timesClaimed · u)).sum : Int) ≤
      (((jobs before).takeWhile (·.id ≠ id)).map (·.turns (finish - start))).sum := by
  have hs : ((jobs before).takeWhile (·.id ≠ id)).Sublist (jobs before) := List.takeWhile_sublist _
  have hid : ((jobs before).map Job.id).takeWhile (· ≠ id) =
      ((jobs before).takeWhile (·.id ≠ id)).map Job.id := List.takeWhile_map ..
  rw [hid]
  generalize (jobs before).takeWhile (·.id ≠ id) = js at hs
  induction js
  case nil => simp
  case cons job js hi =>
    have hj := Run.turns r hd ht (hs.subset List.mem_cons_self)
      (hf job (hs.subset List.mem_cons_self))
    have hi := hi ((List.sublist_cons_self job js).trans hs)
    simp only [List.map_cons, List.sum_cons, Nat.cast_add]
    omega

end Waiting

-- A task that is due waits for the tasks ahead of it only, for each of them once, and for one that
-- recurs once more for every period that passes: if the queue is asked more often than that, the
-- task has had its turn, or has been cancelled.
theorem TaskQueue.bounded_waiting {queue' : TaskQueue} {task : Task} {finish : Int}
    (r : TaskQueue.Run ⟨[], counter⟩ before queue) (r' : TaskQueue.Run queue u queue')
    (hd : Distinct (before ++ u)) (hm : task ∈ queue.tasks) (hp : task.status = .pending)
    (hdue : task.scheduledForMs ≤ start) (ht : Timely start finish u)
    (hf : ∀ task' ∈ queue.tasks, Fits u task'.recurrenceMs)
    (hlt : ((queue.ahead task.id).map (·.job.turns (finish - start))).sum <
      u.countP (·.isClaim)) :
    ∃ e ∈ u, e.claims task.id ∨ e.cancels task.id := by
  by_contra hn
  have hn : ∀ e ∈ u, ¬e.claims task.id ∧ ¬e.cancels task.id :=
    fun e he => not_or.mp fun h => hn ⟨e, he, h⟩
  have hk := Run.keeps r hd.left
  have hj : task.job ∈ jobs before := hk.mem hm
  have hw : task.job.standing = .waiting task.scheduledForMs := by simp [Task.job, hp]
  have hf : ∀ job ∈ jobs before, job.standing ≠ .over → Fits u job.recurrenceMs := by
    intro job hj ho
    obtain ⟨task', ht', rfl⟩ := hk.mem_of_not_over hj ho
    exact hf task' ht'
  have hc := Run.claims_le (r.append r') hd hj hw
    (fun e he => hdue.trans (ht.within e he).left) hn
  have hs := Run.sum_turns task.id (r.append r') hd ht hf
  rw [hk.sum_turns hd.left.job_ids (List.mem_map_of_mem hm)] at hs
  rw [job_id] at hc
  rw [TaskQueue.ahead] at hlt
  omega

def twoTasks : TaskQueue :=
  (afterEnqueue.enqueue { recurringTask with id := str "other" } 5).2

-- The second of two tasks has its turn by the second time that the queue is asked.
theorem TaskQueue.bounded_waiting_second :
    ∃ u queue, TaskQueue.Run twoTasks u queue ∧
      ∃ e ∈ u, e.claims (str "other") ∨ e.cancels (str "other") := by
  have hp : parseTaskRequestFromJson
      (Net.jsonObject [Net.jsonStringField "command" "run", Net.jsonIntField "recurrence_ms" 60000])
      5 = some (.ok recurringTask) := by decide +kernel
  have r : TaskQueue.Run ⟨[], 0⟩ _ ⟨[], 0⟩ := .nil
  have r : TaskQueue.Run _ _ afterEnqueue := r.snoc (.enqueue 5 5 (str "task") hp rfl)
  have r : TaskQueue.Run _ _ twoTasks := r.snoc (.enqueue 5 5 (str "other") hp rfl)
  have r' : TaskQueue.Run twoTasks _ twoTasks := .nil
  have r' := (r'.snoc (.claimNext 6)).snoc (.claimNext 7)
  have ht : ∃ task ∈ twoTasks.tasks, task.id = str "other" ∧ task.status = .pending ∧
      task.scheduledForMs = 0 ∧
      ((twoTasks.ahead task.id).map (·.job.turns (7 - 6))).sum = 1 := by decide +kernel
  obtain ⟨task, hm, hid, hs, hdue, hturns⟩ := ht
  have hrec : ∀ task ∈ twoTasks.tasks, task.recurrenceMs = 60000 := by decide +kernel
  refine ⟨_, _, r', hid ▸ TaskQueue.bounded_waiting r r' ?_ hm hs
    (?_ : task.scheduledForMs ≤ 6) (?_ : Timely 6 7 _)
    ?_ ?_⟩
  case refine_1 => decide +kernel
  case refine_2 => omega
  case refine_3 => exact ⟨by decide, by simp [QueueEvent.now], by simp [QueueEvent.now]⟩
  case refine_4 =>
    intro task' ht'
    rw [hrec task' ht']
    simp [Fits, QueueEvent.now, int64Min, int64Max]
  case refine_5 =>
    rw [hturns]
    simp [QueueEvent.isClaim]

end Droidcli.App
