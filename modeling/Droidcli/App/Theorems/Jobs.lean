import Droidcli.App.Jobs
import Droidcli.App.Theorems.Queue

namespace Droidcli.App

open Bytes Net TaskQueue

variable {js : List Job} {tasks : List Task} {job : Job} {task : Task} {id : Bytes} {now : Int}

section Keeping

@[simp]
theorem job_id : task.job.id = task.id :=
  rfl

theorem Keeps.sublist (h : Keeps js tasks) : (tasks.map Task.job).Sublist js := by
  induction h
  case nil       => exact List.Sublist.refl _
  case keep _ hi => exact hi.cons_cons _
  case drop _ hi => exact hi.cons _

theorem Keeps.mem (h : Keeps js tasks) (hm : task ∈ tasks) : task.job ∈ js :=
  h.sublist.subset (List.mem_map_of_mem hm)

theorem Keeps.mem_id (h : Keeps js tasks) (hm : task ∈ tasks) : task.id ∈ js.map Job.id :=
  List.mem_map_of_mem (f := Job.id) (h.mem hm)

theorem Keeps.eraseP (h : Keeps js tasks) : Keeps js (tasks.eraseP (·.status.isTerminal)) := by
  induction h
  case nil => exact .nil
  case keep task hs h hi =>
    cases ht : task.status.isTerminal
    case false => simpa [List.eraseP_cons, ht] using hi.keep hs
    case true =>
      have ho : task.job.standing = .over := by
        cases hst : task.status <;> simp_all [Task.job, TaskStatus.isTerminal]
      simpa [List.eraseP_cons, ht] using h.drop ho
  case drop hs _ hi => exact hi.drop hs

theorem Keeps.trimRounds {rounds : Nat} (h : Keeps js tasks) :
    Keeps js (trimRounds rounds tasks) := by
  induction rounds generalizing tasks
  case zero           => exact h
  case succ rounds hi => exact hi h.eraseP

theorem Keeps.trimHistory (h : Keeps js tasks) : Keeps js (trimHistory tasks) := by
  rw [TaskQueue.trimHistory]
  exact h.trimRounds

theorem Keeps.append (h : Keeps js tasks) (hj : job = task.job) (hs : task.status ≠ .unset) :
    Keeps (js ++ [job]) (tasks ++ [task]) := by
  subst hj
  induction h
  case nil          => exact Keeps.nil.keep hs
  case keep hs _ hi => exact hi.keep hs
  case drop hs _ hi => exact hi.drop hs

theorem map_unless {g : Job → Job} (h : id ∉ js.map Job.id) :
    (js.map fun job => if job.id = id then g job else job) = js := by
  have hj (job : Job) (hm : job ∈ js) : (if job.id = id then g job else job) = job :=
    if_neg fun (he : job.id = id) => h (he ▸ List.mem_map_of_mem hm)
  rw [List.map_congr_left hj, List.map_id']

-- An update of one task is one of its job.
theorem Keeps.update {f : Task → Task} {g : Job → Job} (h : Keeps js tasks)
    (hn : (js.map Job.id).Nodup) (hid : ∃ task ∈ tasks, task.id = id)
    (hf : ∀ task, (f task).job = g task.job ∧ (f task).status ≠ .unset) :
    Keeps (js.map fun job => if job.id = id then g job else job) (update id f tasks) := by
  induction h
  case nil => simp at hid
  case keep js tasks task hs h hi =>
    obtain ⟨hh, hn⟩ := List.nodup_cons.mp hn
    rw [TaskQueue.update, List.map_cons, job_id]
    split_ifs
    case pos hj =>
      rw [map_unless (hj ▸ hh), ← (hf task).left]
      exact h.keep (hf task).right
    case neg hne =>
      obtain ⟨other, hm, ho⟩ := hid
      apply (hi hn _).keep hs
      cases List.mem_cons.mp hm
      case inl he => exact absurd (he ▸ ho) hne
      case inr hm => exact ⟨other, hm, ho⟩
  case drop js tasks job hs h hi =>
    obtain ⟨hh, hn⟩ := List.nodup_cons.mp hn
    obtain ⟨other, hm, ho⟩ := hid
    have hne : job.id ≠ id := fun he => hh (he.trans ho.symm ▸ h.mem_id hm)
    rw [List.map_cons, if_neg hne]
    exact (hi hn ⟨other, hm, ho⟩).drop hs

theorem isDue_job (hs : task.status ≠ .unset) :
    task.job.IsDue now ↔ task.status = .pending ∧ task.scheduledForMs ≤ now := by
  cases h : task.status <;> simp_all [Job.IsDue, Task.job]

-- A claim takes the first job that is due, if there is one.
theorem Keeps.claimFrom_none (h : Keeps js tasks) (hc : claimFrom now tasks = none) :
    js.find? (·.IsDue now) = none := by
  induction h
  case nil => rfl
  case keep task hs h hi =>
    rw [claimFrom] at hc
    split at hc
    case isTrue => contradiction
    case isFalse hd =>
      have hd : ¬task.job.IsDue now := (isDue_job hs).not.mpr hd
      simpa [hd] using hi (Option.map_eq_none_iff.mp hc)
  case drop job hs h hi => simpa [Job.IsDue, hs] using hi hc

theorem Keeps.claimFrom_some {claimed : Task} {rest : List Task} (h : Keeps js tasks)
    (hn : (js.map Job.id).Nodup) (hc : claimFrom now tasks = some (claimed, rest)) :
    ∃ job, js.find? (·.IsDue now) = some job ∧ claimed.job = job.claimed ∧
      Keeps (js.map fun job => if job.id = claimed.id then job.claimed else job) rest := by
  induction h generalizing rest
  case nil => contradiction
  case keep js tasks task hs h hi =>
    obtain ⟨hh, hn⟩ := List.nodup_cons.mp hn
    rw [claimFrom] at hc
    split at hc
    case isTrue hd =>
      obtain ⟨hc, hr⟩ := Prod.mk.inj (Option.some.inj hc)
      have hj : claimed.job = task.job.claimed := by simp [← hc, Task.job, Job.claimed]
      have hid : claimed.id = task.id := congrArg Job.id hj
      refine ⟨task.job, ?_, hj, ?_⟩
      case refine_1 => simp [(isDue_job hs).mpr hd]
      case refine_2 =>
        rw [List.map_cons, map_unless (hid ▸ hh), job_id, if_pos hid.symm, ← hj, ← hr, hc]
        exact h.keep (by simp [← hc])
    case isFalse hd =>
      obtain ⟨⟨claimed', rest'⟩, hc, he⟩ := Option.map_eq_some_iff.mp hc
      obtain ⟨he, hr⟩ := Prod.mk.inj he
      obtain ⟨job, hf, hj, hk⟩ := hi hn (he ▸ hc)
      have hd : ¬task.job.IsDue now := (isDue_job hs).not.mpr hd
      have hne : task.job.id ≠ claimed.id := by
        intro he
        have hid : claimed.id = job.id := congrArg Job.id hj
        exact hh ((he.trans hid) ▸ List.mem_map_of_mem (List.mem_of_find?_eq_some hf))
      refine ⟨job, by simpa [hd] using hf, hj, ?_⟩
      rw [List.map_cons, if_neg hne, ← hr]
      exact hk.keep hs
  case drop js tasks other hs h hi =>
    obtain ⟨hh, hn⟩ := List.nodup_cons.mp hn
    obtain ⟨job, hf, hj, hk⟩ := hi hn hc
    have hne : other.id ≠ claimed.id := by
      intro he
      have hid : claimed.id = job.id := congrArg Job.id hj
      exact hh ((he.trans hid) ▸ List.mem_map_of_mem (List.mem_of_find?_eq_some hf))
    refine ⟨job, by simpa [Job.IsDue, hs] using hf, hj, ?_⟩
    rw [List.map_cons, if_neg hne]
    exact hk.drop hs

end Keeping

section Steps

variable {queue queue' : TaskQueue} {e : QueueEvent}

theorem parsed_runCount {body : Bytes} {parsedAt : Int}
    (h : parseTaskRequestFromJson body parsedAt = some (.ok task)) : task.runCount = 0 := by
  rw [parseTaskRequestFromJson] at h
  split at h
  case isTrue => simp at h
  case isFalse =>
    obtain ⟨_, _, h⟩ := Option.bind_eq_some_iff.mp h
    obtain ⟨_, _, h⟩ := Option.bind_eq_some_iff.mp h
    have := Except.ok.inj (Option.some.inj h)
    simp [← this]

-- What is left of a finished run says whether the task recurs, not what the run came to.
theorem record_job (queue : TaskQueue) (outcome : TaskOutcome) (id : Bytes) (now : Int) :
    ∃ f : Task → Task, queue.record id now outcome = (queue.settle id f).2 ∧
      ∀ task, (f task).job = task.job.finished now ∧ (f task).status ≠ .unset := by
  cases outcome
  all_goals
    refine ⟨_, rfl, fun task => ?_⟩
    by_cases hr : 0 < task.recurrenceMs <;> simp [Task.rescheduled, Task.job, Job.finished, hr]

theorem Keeps.settle {f : Task → Task} {g : Job → Job} (h : Keeps js queue.tasks)
    (hn : (js.map Job.id).Nodup) (hid : ∃ task ∈ queue.tasks, task.id = id)
    (hf : ∀ task, (f task).job = g task.job ∧ (f task).status ≠ .unset) :
    Keeps (js.map fun job => if job.id = id then g job else job) (queue.settle id f).2.tasks := by
  have hs : (queue.find id).isSome := by
    have ⟨task, hm, hid⟩ := hid
    exact Option.isSome_iff_ne_none.mpr fun hf => find_eq_none_iff.mp hf task hm hid
  rw [TaskQueue.settle, if_pos hs]
  dsimp only
  exact (h.update hn hid hf).trimHistory

theorem Keeps.cancel (h : Keeps js queue.tasks) (hn : (js.map Job.id).Nodup) :
    Keeps (jobsAfter js (.cancelled id (queue.cancel id now).1 now))
      (queue.cancel id now).2.tasks := by
  cases hc : (queue.cancel id now).1
  case false =>
    have hq : (queue.cancel id now).2 = queue := cancel_refused (by simp [hc])
    simpa [jobsAfter, Job.after, hq] using h
  case true =>
    have ⟨⟨task, hf, ht⟩, _⟩ := cancel_settles hc
    have he : queue.cancel id now = queue.settle id (·.cancelled now) := by
      simp [TaskQueue.cancel, hf, ht]
    rw [he]
    exact h.settle hn ⟨task, mem_of_find hf⟩ fun task => by
      simp [Task.cancelled, Task.job, Job.cancelled]

theorem Keeps.claimNext (h : Keeps js queue.tasks) (hn : (js.map Job.id).Nodup) :
    (queue.claimNext now).1.map Task.job = (js.find? (·.IsDue now)).map Job.claimed ∧
      Keeps (jobsAfter js (.claimed (queue.claimNext now).1 now))
        (queue.claimNext now).2.tasks := by
  cases hc : claimFrom now queue.tasks
  case none => simpa [TaskQueue.claimNext, hc, h.claimFrom_none hc, jobsAfter, Job.after] using h
  case some r =>
    obtain ⟨claimed, rest⟩ := r
    obtain ⟨job, hf, hj, hk⟩ := h.claimFrom_some hn hc
    simpa [TaskQueue.claimNext, hc, hf, hj, jobsAfter, Job.after] using hk

theorem Keeps.step (h : Keeps js queue.tasks) (hn : (js.map Job.id).Nodup)
    (hs : TaskQueue.Step queue e queue') : Keeps (jobsAfter js e) queue'.tasks := by
  cases hs
  case enqueue parsed parsedAt now id task hp ht =>
    have hu := (parseTaskRequestFromJson_fresh hp).right
    have hu : task.status = .unset := ht ▸ hu
    dsimp only [TaskQueue.enqueue, jobsAfter]
    apply Keeps.trimHistory
    apply h.append
    case hj => simp [Task.job, hu]
    case hs => simp [hu]
  case claimNext now => exact (h.claimNext hn).right
  case finish id outcome now hr =>
    have ⟨f, he, hf⟩ := record_job queue outcome id now
    have ⟨task, hm, hid, _⟩ := hr
    exact he ▸ h.settle hn ⟨task, hm, hid⟩ hf
  case cancel id now => exact h.cancel hn

end Steps

section Lives

variable {t u : List QueueEvent} {e : QueueEvent}

-- What becomes of a job changes neither what it is called nor whether it recurs.
theorem after_same :
    (job.after e).id = job.id ∧ (job.after e).recurrenceMs = job.recurrenceMs := by
  unfold Job.after
  split
  case h_1 => split_ifs <;> exact ⟨rfl, rfl⟩
  case h_2 => split_ifs <;> exact ⟨rfl, rfl⟩
  case h_3 => split_ifs <;> exact ⟨rfl, rfl⟩
  case h_4 => exact ⟨rfl, rfl⟩

@[simp]
theorem after_id : (job.after e).id = job.id :=
  after_same.left

def Job.afterAll (job : Job) (t : List QueueEvent) : Job :=
  t.foldl Job.after job

theorem afterAll_id : (job.afterAll t).id = job.id := by
  induction t generalizing job
  case nil          => rfl
  case cons e t hi  => exact hi.trans after_id

theorem jobs_snoc : jobs (t ++ [e]) = jobsAfter (jobs t) e := by
  simp [jobs]

theorem mem_jobs_snoc (h : job ∈ jobs t) : job.after e ∈ jobs (t ++ [e]) := by
  rw [jobs_snoc]
  cases e
  case enqueued => exact List.mem_append_left _ h
  all_goals exact List.mem_map_of_mem h

-- Each job goes its own way.
theorem mem_jobs_append (h : job ∈ jobs t) : job.afterAll u ∈ jobs (t ++ u) := by
  induction u generalizing t job
  case nil         => simpa [Job.afterAll] using h
  case cons e u hi =>
    have := hi (mem_jobs_snoc (e := e) h)
    rwa [List.append_assoc] at this

theorem mem_jobs_snoc_inv (h : job ∈ jobs (t ++ [e])) :
    (∃ old ∈ jobs t, job = old.after e) ∨
      ∃ task now, e = .enqueued task now ∧ job = task.job := by
  rw [jobs_snoc] at h
  cases e
  case enqueued task now =>
    cases List.mem_append.mp h
    case inl h => exact .inl ⟨job, h, rfl⟩
    case inr h => exact .inr ⟨task, now, rfl, List.mem_singleton.mp h⟩
  all_goals
    have ⟨old, hm, he⟩ := List.mem_map.mp h
    exact .inl ⟨old, hm, he.symm⟩

theorem enqueuedTasks_append : enqueuedTasks (t ++ u) = enqueuedTasks t ++ enqueuedTasks u :=
  List.filterMap_append

-- The jobs are the enqueued tasks, in their order.
theorem jobs_ids : (jobs t).map Job.id = (enqueuedTasks t).map Task.id := by
  induction t using List.reverseRecOn
  case nil => rfl
  case append_singleton t e hi =>
    rw [jobs_snoc, enqueuedTasks_append, List.map_append, ← hi]
    have hm : Job.id ∘ (·.after e) = Job.id := funext fun _ => after_id
    cases e
    all_goals simp [jobsAfter, enqueuedTasks, QueueEvent.enqueuedTask, hm]

def Distinct (t : List QueueEvent) : Prop :=
  ((enqueuedTasks t).map Task.id).Nodup

instance (t : List QueueEvent) : Decidable (Distinct t) :=
  inferInstanceAs (Decidable (List.Nodup _))

theorem Distinct.left (h : Distinct (t ++ u)) : Distinct t := by
  rw [Distinct, enqueuedTasks_append, List.map_append] at h
  exact h.of_append_left

theorem Distinct.job_ids (h : Distinct t) : ((jobs t).map Job.id).Nodup :=
  jobs_ids ▸ h

theorem Distinct.unique (h : Distinct t) {job' : Job} (hj : job ∈ jobs t) (hj' : job' ∈ jobs t)
    (hid : job.id = job'.id) : job = job' :=
  List.inj_on_of_nodup_map h.job_ids hj hj' hid

theorem Distinct.task_unique (h : Distinct t) {task' : Task} (hm : task ∈ enqueuedTasks t)
    (hm' : task' ∈ enqueuedTasks t) (hid : task.id = task'.id) : task = task' :=
  List.inj_on_of_nodup_map h hm hm' hid

-- A job waits only because it has been enqueued or finished.
theorem waiting_of_after {due : Int} (h : (job.after e).standing = .waiting due)
    (hf : ¬e.finishes job.id) : job.standing = .waiting due := by
  cases e
  case claimed result now =>
    cases result
    case none => exact h
    case some task =>
      rw [Job.after] at h
      split_ifs at h
      case pos => simp [Job.claimed] at h
      case neg => exact h
  case finished id outcome now =>
    rw [Job.after, if_neg fun he => hf (by simp [QueueEvent.finishes, he])] at h
    exact h
  case cancelled id ok now =>
    cases ok
    case false => exact h
    case true =>
      rw [Job.after] at h
      split_ifs at h
      case pos => simp [Job.cancelled] at h
      case neg => exact h
  case enqueued => exact h

theorem waiting_of_afterAll {due : Int} (h : (job.afterAll t).standing = .waiting due)
    (hf : ∀ e ∈ t, ¬e.finishes job.id) : job.standing = .waiting due := by
  induction t generalizing job
  case nil => exact h
  case cons e t hi =>
    have ⟨he, hf⟩ := List.forall_mem_cons.mp hf
    exact waiting_of_after (hi h (after_id.symm ▸ hf)) he

-- A job stands for the task it has been enqueued as.
theorem enqueued_of_mem (h : job ∈ jobs t) :
    ∃ task ∈ enqueuedTasks t, task.id = job.id ∧ task.recurrenceMs = job.recurrenceMs := by
  induction t using List.reverseRecOn generalizing job
  case nil => simp [jobs] at h
  case append_singleton t e hi =>
    rw [enqueuedTasks_append]
    cases mem_jobs_snoc_inv h
    case inl h =>
      have ⟨old, ho, he⟩ := h
      have ⟨task, hm, hid, hr⟩ := hi ho
      exact ⟨task, List.mem_append_left _ hm, by rw [he, after_id, hid],
        by rw [he, after_same.right, hr]⟩
    case inr h =>
      have ⟨task, now, he, hj⟩ := h
      exact ⟨task, by simp [he, enqueuedTasks, QueueEvent.enqueuedTask], by simp [hj],
        by simp [hj, Task.job]⟩

end Lives

section Runs

variable {counter : Nat} {t before between after : List QueueEvent} {e e' : QueueEvent}
  {queue : TaskQueue}

theorem Run.keeps (r : TaskQueue.Run ⟨[], counter⟩ t queue) (hd : Distinct t) :
    Keeps (jobs t) queue.tasks := by
  induction r
  case nil => exact .nil
  case snoc r hs hi =>
    rw [jobs_snoc]
    exact (hi hd.left).step hd.left.job_ids hs

-- A task is claimed when its job is due, and runs from then on.
theorem Run.claimed (r : TaskQueue.Run ⟨[], counter⟩ (before ++ e :: after) queue)
    (hd : Distinct (before ++ e :: after)) (he : e.claims id) :
    ∃ job ∈ jobs before, job.id = id ∧ job.IsDue e.now ∧ job.after e = job.claimed ∧
      ∃ task, e = .claimed (some task) e.now ∧ task.job = job.claimed := by
  have ⟨q, q', r, hs⟩ := r.step_at
  have hk := Run.keeps r hd.left
  cases hs
  case claimNext now =>
    have ⟨hc, _⟩ := @hk.claimNext _ now _ hd.left.job_ids
    cases hq : (q.claimNext now).1
    case none => simp [QueueEvent.claims, hq] at he
    case some task =>
      rw [hq] at hc he
      have ⟨job, hf, hj⟩ := Option.map_eq_some_iff.mp hc.symm
      have hid : task.id = job.id := congrArg Job.id hj.symm
      refine ⟨job, List.mem_of_find?_eq_some hf, ?_, ?_, ?_, task, rfl, hj.symm⟩
      case refine_1 => simpa [QueueEvent.claims, hid] using he
      case refine_2 =>
        have hdue : job.IsDue now := by simpa using List.find?_some hf
        exact hdue
      case refine_3 => rw [Job.after, if_pos hid.symm]
  all_goals simp [QueueEvent.claims] at he

-- Only a task that runs is finished.
theorem Run.finished (r : TaskQueue.Run ⟨[], counter⟩ (before ++ e :: after) queue)
    (hd : Distinct (before ++ e :: after)) (he : e.finishes id) :
    ∃ job ∈ jobs before, job.id = id ∧ job.after e = job.finished e.now := by
  have ⟨q, q', r, hs⟩ := r.step_at
  have hk := Run.keeps r hd.left
  cases hs
  case finish taskId outcome now hr =>
    have ⟨task, hm, hid, _⟩ := hr
    have he : taskId = id := by simpa [QueueEvent.finishes] using he
    exact ⟨task.job, hk.mem hm, hid.trans he, by rw [Job.after, job_id, if_pos hid]; rfl⟩
  all_goals simp [QueueEvent.finishes] at he

-- A job of an earlier time that is claimed has come to wait by then.
theorem Run.reclaimed
    (r : TaskQueue.Run ⟨[], counter⟩ (before ++ e :: (between ++ e' :: after)) queue)
    (hd : Distinct (before ++ e :: (between ++ e' :: after))) (hm : job ∈ jobs before)
    (he : e'.claims job.id) :
    ∃ due, ((job.after e).afterAll between).standing = .waiting due ∧ due ≤ e'.now := by
  have hs : before ++ e :: (between ++ e' :: after) = (before ++ e :: between) ++ e' :: after := by
    simp
  have hd := hs ▸ hd
  have ⟨job', hm', hid, ⟨due, hw, hdue⟩, _⟩ := Run.claimed (hs ▸ r) hd he
  have hj : job.afterAll (e :: between) = job' :=
    hd.left.unique (mem_jobs_append hm) hm' (by rw [afterAll_id, hid])
  exact ⟨due, hj ▸ hw, hdue⟩

-- A task that is claimed twice has been finished in between.
theorem Run.separated
    (r : TaskQueue.Run ⟨[], counter⟩ (before ++ e :: (between ++ e' :: after)) queue)
    (hd : Distinct (before ++ e :: (between ++ e' :: after))) (he : e.claims id)
    (he' : e'.claims id) : ∃ f ∈ between, f.finishes id := by
  by_contra hn
  have ⟨job, hm, hid, _, ha, _⟩ := Run.claimed r hd he
  have ⟨due, hw, _⟩ := Run.reclaimed r hd hm (hid ▸ he')
  have hw : (job.claimed.afterAll between).standing = .waiting due := ha ▸ hw
  have hw := waiting_of_afterAll hw fun f hf hfi => hn ⟨f, hf, hid ▸ hfi⟩
  simp [Job.claimed] at hw

-- A task that recurs is due a whole period after its last run, when that is a moment that the clock
-- can show.
theorem Run.recurs
    (r : TaskQueue.Run ⟨[], counter⟩ (before ++ e :: (between ++ e' :: after)) queue)
    (hd : Distinct (before ++ e :: (between ++ e' :: after))) (he : e.finishes id)
    (hn : ∀ f ∈ between, ¬f.finishes id) (he' : e'.claims id)
    (ht : task ∈ enqueuedTasks (before ++ e :: (between ++ e' :: after)))
    (hid : task.id = id) (hl : int64Min ≤ e.now + task.recurrenceMs)
    (hu : e.now + task.recurrenceMs ≤ int64Max) :
    0 < task.recurrenceMs ∧ e.now + task.recurrenceMs ≤ e'.now := by
  have ⟨job, hm, hj, ha⟩ := Run.finished r hd he
  have ⟨due, hw, hdue⟩ := Run.reclaimed r hd hm (hj ▸ he')
  have ⟨task', ht', hid', hr⟩ := enqueued_of_mem hm
  have ht' : task' ∈ enqueuedTasks (before ++ e :: (between ++ e' :: after)) :=
    enqueuedTasks_append ▸ List.mem_append_left _ ht'
  obtain rfl := hd.task_unique ht ht' (by rw [hid, hid', hj])
  have hw : ((job.finished e.now).afterAll between).standing = .waiting due := ha ▸ hw
  have hf := waiting_of_afterAll hw fun f hf hfi => hn f hf (hj ▸ hfi)
  simp only [Job.finished] at hf
  split_ifs at hf
  case pos hp =>
    have hdue' := Standing.waiting.inj hf
    rw [addInt64_eq_iff.mpr ⟨hr ▸ hl, hr ▸ hu⟩] at hdue'
    omega

-- A job that does not recur, and does not wait, never waits again.
theorem spent_after (hr : ¬0 < job.recurrenceMs) (hs : ∀ due, job.standing ≠ .waiting due)
    (due : Int) : (job.after e).standing ≠ .waiting due := by
  intro h
  unfold Job.after at h
  split at h
  case h_1 =>
    split_ifs at h
    case pos => simp [Job.claimed] at h
    case neg => exact hs due h
  case h_2 =>
    split_ifs at h
    case pos => simp [Job.finished, hr] at h
    case neg => exact hs due h
  case h_3 =>
    split_ifs at h
    case pos => simp [Job.cancelled] at h
    case neg => exact hs due h
  case h_4 => exact hs due h

theorem spent_afterAll (hr : ¬0 < job.recurrenceMs) (hs : ∀ due, job.standing ≠ .waiting due)
    (due : Int) : (job.afterAll t).standing ≠ .waiting due := by
  induction t generalizing job
  case nil         => exact hs due
  case cons e t hi =>
    exact hi (after_same.right.symm ▸ hr) (spent_after hr hs)

theorem Run.once
    (r : TaskQueue.Run ⟨[], counter⟩ (before ++ e :: (between ++ e' :: after)) queue)
    (hd : Distinct (before ++ e :: (between ++ e' :: after))) (he : e.claims id)
    (he' : e'.claims id)
    (ht : task ∈ enqueuedTasks (before ++ e :: (between ++ e' :: after))) (hid : task.id = id) :
    0 < task.recurrenceMs := by
  by_contra hn
  have ⟨job, hm, hj, _, ha, _⟩ := Run.claimed r hd he
  have ⟨due, hw, _⟩ := Run.reclaimed r hd hm (hj ▸ he')
  have ⟨task', ht', hid', hr⟩ := enqueued_of_mem hm
  have ht' : task' ∈ enqueuedTasks (before ++ e :: (between ++ e' :: after)) :=
    enqueuedTasks_append ▸ List.mem_append_left _ ht'
  obtain rfl := hd.task_unique ht ht' (by rw [hid, hid', hj])
  have hr : ¬0 < job.claimed.recurrenceMs := hr ▸ hn
  exact spent_afterAll hr (by simp [Job.claimed]) due (ha ▸ hw)

theorem claims_after :
    (job.after e).claims = job.claims + if e.claims job.id then 1 else 0 := by
  cases e
  case claimed result now =>
    cases result
    case none => simp [Job.after, QueueEvent.claims]
    case some task =>
      by_cases h : job.id = task.id
      case pos => simp [Job.after, h, Job.claimed, QueueEvent.claims]
      case neg => simp [Job.after, h, Ne.symm h, QueueEvent.claims]
  case finished id outcome now =>
    by_cases h : job.id = id <;> simp [Job.after, h, Job.finished, QueueEvent.claims]
  case cancelled id ok now =>
    cases ok
    case false => simp [Job.after, QueueEvent.claims]
    case true  => by_cases h : job.id = id <;> simp [Job.after, h, Job.cancelled, QueueEvent.claims]
  case enqueued => simp [Job.after, QueueEvent.claims]

def timesClaimed (id : Bytes) (t : List QueueEvent) : Nat :=
  t.countP (·.claims id)

theorem Run.claims (r : TaskQueue.Run ⟨[], counter⟩ t queue) (hd : Distinct t)
    (hm : job ∈ jobs t) : job.claims = timesClaimed job.id t := by
  induction r generalizing job
  case nil => simp [jobs] at hm
  case snoc t e q q' r hs hi =>
    cases mem_jobs_snoc_inv hm
    case inl h =>
      have ⟨old, ho, he⟩ := h
      rw [he, claims_after, hi hd.left ho, after_id, timesClaimed, timesClaimed, List.countP_append]
      by_cases hc : e.claims old.id <;> simp [hc]
    case inr h =>
      have ⟨task, now, he, hj⟩ := h
      have hz : task.runCount = 0 := by
        subst he
        cases hs
        case enqueue hp ht =>
          have hz := parsed_runCount hp
          simp [ht, hz]
      have hn : ∀ f ∈ t ++ [e], ¬f.claims task.id := by
        intro f hf hc
        cases List.mem_append.mp hf
        case inl hf =>
          have ⟨before, after, ht⟩ := List.append_of_mem hf
          have ⟨old, ho, hid, _⟩ := Run.claimed (ht ▸ r) (ht ▸ hd.left) hc
          have ho : old.afterAll (f :: after) ∈ jobs t := ht ▸ mem_jobs_append ho
          have hdis := hd.job_ids
          rw [jobs_snoc, he] at hdis
          simp only [jobsAfter, List.map_append, List.nodup_append] at hdis
          apply hdis.2.2 (old.afterAll (f :: after)).id (List.mem_map_of_mem ho) task.id (by simp)
          rw [afterAll_id, hid]
        case inr hf => simp [List.mem_singleton.mp hf, he, QueueEvent.claims] at hc
      have hcount : timesClaimed task.id (t ++ [e]) = 0 := List.countP_eq_zero.mpr hn
      rw [hj, job_id, hcount]
      exact hz

-- What the queue promises about a sequence of uses.
structure Safe (t : List QueueEvent) (queue : TaskQueue) : Prop where
  -- It has each task of a job that is not over, in the order in which they were enqueued.
  kept      : Keeps (jobs t) queue.tasks
  inOrder   : (jobs t).map Job.id = (enqueuedTasks t).map Task.id
  -- A claim would take the first of the jobs that are due.
  earliest  : ∀ now,
    (queue.claimNext now).1.map Task.job = ((jobs t).find? (·.IsDue now)).map Job.claimed
  counted   : ∀ task ∈ queue.tasks, task.runCount = timesClaimed task.id t
  reported  : ∀ {before after} {task : Task} {now : Int},
    t = before ++ .claimed (some task) now :: after →
    task.runCount = timesClaimed task.id before + 1
  separated : ∀ {id before e between e' after}, t = before ++ e :: (between ++ e' :: after) →
    e.claims id → e'.claims id → ∃ f ∈ between, f.finishes id
  once      : ∀ {before e between e' after}, t = before ++ e :: (between ++ e' :: after) →
    ∀ task ∈ enqueuedTasks t, e.claims task.id → e'.claims task.id → 0 < task.recurrenceMs
  recurring : ∀ {before e between e' after}, t = before ++ e :: (between ++ e' :: after) →
    ∀ task ∈ enqueuedTasks t, e.finishes task.id →
    (∀ f ∈ between, ¬f.finishes task.id) → e'.claims task.id →
    int64Min ≤ e.now + task.recurrenceMs → e.now + task.recurrenceMs ≤ int64Max →
    e.now + task.recurrenceMs ≤ e'.now

theorem Run.reported {after : List QueueEvent}
    (r : TaskQueue.Run ⟨[], counter⟩ (before ++ .claimed (some task) now :: after) queue)
    (hd : Distinct (before ++ .claimed (some task) now :: after)) :
    task.runCount = timesClaimed task.id before + 1 := by
  have ⟨_, _, r', _⟩ := r.step_at
  have hc : (QueueEvent.claimed (some task) now).claims task.id := by simp [QueueEvent.claims]
  have ⟨job, hm, hid, _, _, task', he, hj⟩ := Run.claimed r hd hc
  obtain rfl : task = task' := by simpa [QueueEvent.now] using he
  have hc : task.runCount = job.claims + 1 := congrArg Job.claims hj
  rw [hc, Run.claims r' hd.left hm, hid]

theorem safe_of_run (r : TaskQueue.Run ⟨[], counter⟩ t queue) (hd : Distinct t) :
    Safe t queue where
  kept := Run.keeps r hd
  inOrder := jobs_ids
  earliest now := ((Run.keeps r hd).claimNext hd.job_ids).left
  counted task hm := Run.claims r hd ((Run.keeps r hd).mem hm)
  reported ht := by
    subst ht
    exact Run.reported r hd
  separated ht he he' := by
    subst ht
    exact Run.separated r hd he he'
  once ht task hm he he' := by
    subst ht
    exact Run.once r hd he he' hm rfl
  recurring ht task hm he hn he' hl hu := by
    subst ht
    exact (Run.recurs r hd he hn he' hm rfl hl hu).right

section Recurring

-- {"command":"run","recurrence_ms":60000}
def recurringTask : Task where
  id := []
  connectorId := []
  command := "run"
  payloadJson := []
  status := .unset
  createdAtMs := 0
  updatedAtMs := 0
  scheduledForMs := 0
  recurrenceMs := 60000
  runCount := 0
  errorMessage := []
  resultJson := []

def afterEnqueue : TaskQueue :=
  (TaskQueue.enqueue ⟨[], 0⟩ { recurringTask with id := str "task" } 5).2

def afterClaim : TaskQueue :=
  (afterEnqueue.claimNext 6).2

def afterFailure : TaskQueue :=
  afterClaim.record (str "task") 7 (.failed "boom")

-- The task fails once, and is claimed again a minute later.
theorem safe_of_run_recurring :
    ∃ t queue, TaskQueue.Run ⟨[], 0⟩ t queue ∧ timesClaimed (str "task") t = 2 ∧ Safe t queue := by
  have hp : parseTaskRequestFromJson
      (Net.jsonObject [Net.jsonStringField "command" "run", Net.jsonIntField "recurrence_ms" 60000])
      5 = some (.ok recurringTask) := by decide +kernel
  have hr : afterClaim.IsRunning (str "task") := by
    refine ⟨{ recurringTask with
      id := str "task", status := .running, createdAtMs := 5, updatedAtMs := 6, runCount := 1 }, ?_⟩
    decide +kernel
  have r : TaskQueue.Run ⟨[], 0⟩ [] ⟨[], 0⟩ := .nil
  have r : TaskQueue.Run _ _ afterEnqueue := r.snoc (.enqueue 5 5 (str "task") hp rfl)
  have r : TaskQueue.Run _ _ afterClaim := r.snoc (.claimNext 6)
  have r : TaskQueue.Run _ _ afterFailure := r.snoc (.finish (.failed "boom") 7 hr)
  have r := r.snoc (.claimNext 60007)
  exact ⟨_, _, r, by decide +kernel, safe_of_run r (by decide +kernel)⟩

end Recurring
end Runs

section Filed

variable {task : Task} {queue queue' : TaskQueue} {t : List QueueEvent} {counter : Nat}

-- What the queue makes sure of.
def Filed (task : Task) : Prop :=
  task.id ≠ [] ∧ task.status ≠ .unset

theorem mem_of_mem_trimHistory {tasks : List Task} (h : task ∈ TaskQueue.trimHistory tasks) :
    task ∈ tasks := by
  have ht : TaskQueue.Trims tasks (TaskQueue.trimHistory tasks) := TaskQueue.trimHistory_trims
  exact ht.sublist.subset h

theorem filed_settles {id : Bytes} {f : Task → Task} (hf : ∀ task, Filed task → Filed (f task))
    (hs : TaskQueue.Settles queue id f queue') (h : ∀ task ∈ queue.tasks, Filed task) :
    ∀ task ∈ queue'.tasks, Filed task := by
  have hu : ∀ task ∈ TaskQueue.update id f queue.tasks, Filed task := by
    generalize queue.tasks = tasks at h
    induction tasks
    case nil => exact h
    case cons task tasks hi =>
      have ⟨ht, hs⟩ := List.forall_mem_cons.mp h
      rw [TaskQueue.update]
      split
      case isTrue  => exact List.forall_mem_cons.mpr ⟨hf task ht, hs⟩
      case isFalse => exact List.forall_mem_cons.mpr ⟨ht, hi hs⟩
  exact fun task ht => hu task (hs.trims.sublist.subset ht)

theorem filed_step {e : QueueEvent} (hs : TaskQueue.Step queue e queue')
    (h : ∀ task ∈ queue.tasks, Filed task) : ∀ task ∈ queue'.tasks, Filed task := by
  cases hs
  case enqueue parsed _ now id task _ _ =>
    intro task' ht
    dsimp only [TaskQueue.enqueue] at ht
    replace ht := mem_of_mem_trimHistory ht
    rcases List.mem_append.mp ht with ht | ht
    case inl => exact h task' ht
    case inr =>
      have ht := List.mem_singleton.mp ht
      subst ht
      refine ⟨?_, ?_⟩ <;> dsimp only <;> split
      case refine_1.isTrue  => simp [generateTaskId]
      case refine_2.isTrue  => decide
      all_goals assumption
  case claimNext now =>
    cases hc : (queue.claimNext now).1
    case none =>
      have hq : (queue.claimNext now).2 = queue := by
        cases hf : TaskQueue.claimFrom now queue.tasks <;> simp_all [TaskQueue.claimNext]
      rwa [hq]
    case some claimed =>
      obtain ⟨before, old, after, ht, hq, _, hid, hr⟩ := TaskQueue.claimNext_cases hc
      rw [ht] at h
      obtain ⟨hbefore, hold⟩ := List.forall_mem_append.mp h
      obtain ⟨hold, hafter⟩ := List.forall_mem_cons.mp hold
      rw [hq]
      refine List.forall_mem_append.mpr ⟨hbefore, List.forall_mem_cons.mpr ⟨?_, hafter⟩⟩
      exact ⟨hid ▸ hold.left, by simp [hr]⟩
  case finish id outcome now _ =>
    obtain ⟨f, hf, he⟩ := TaskQueue.record_settles queue outcome id now
    rw [he]
    cases hn : queue.find id
    case none => rwa [TaskQueue.settle_unknown hn]
    case some old =>
      refine filed_settles (fun task ht => ?_) (TaskQueue.settle_settles f (by simp [hn])) h
      obtain ⟨hid, hs⟩ := hf task
      exact ⟨hid ▸ ht.left, fun hn => by simp [hn] at hs⟩
  case cancel id now =>
    by_cases hc : (queue.cancel id now).1 = true
    case neg => rwa [TaskQueue.cancel_refused hc]
    case pos =>
      obtain ⟨_, hs⟩ := TaskQueue.cancel_settles hc
      refine filed_settles (f := (·.cancelled now)) (fun task ht => ⟨ht.left, ?_⟩) hs h
      exact (by decide : TaskStatus.cancelled ≠ .unset)

theorem filed_of_run (r : TaskQueue.Run ⟨[], counter⟩ t queue) : ∀ task ∈ queue.tasks, Filed task := by
  induction r
  case nil => simp
  case snoc hs hi => exact filed_step hs hi

end Filed

end Droidcli.App
