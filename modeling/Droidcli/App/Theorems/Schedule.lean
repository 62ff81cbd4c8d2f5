import Droidcli.App.Schedule
import Droidcli.App.Theorems.Queue

namespace Droidcli.App.Schedule

open Bytes Net TaskQueue Trace

variable {s s' : Schedule} {c : QueueCall} {t : List QueueCall} {queue : TaskQueue}
variable {task : Task} {id body : Bytes} {now : Int}

section Sums

-- A sum of a clock reading and something that is not negative can only get too large.
theorem Clock.add_iff (clock : Clock) {n : Int} (h : 0 < n) :
    addInt64 clock.now n = clock.now + n ↔ n ≤ int64Max - clock.now := by
  have := clock.lower
  rw [addInt64_eq_iff]
  omega

theorem fits_of_not_pos (clock : Clock) {n : Int} (h : ¬0 < n) : n ≤ int64Max - clock.now := by
  have := clock.upper
  omega

end Sums

section Calls

theorem parsed_scheduled (h : parseTaskRequestFromJson body now = some (.ok task)) :
    task.scheduledForMs = if 0 < delayMs body then addInt64 now (delayMs body) else 0 := by
  rw [parseTaskRequestFromJson] at h
  split at h
  case isTrue => simp at h
  case isFalse =>
    obtain ⟨delay, hd, h⟩ := Option.bind_eq_some_iff.mp h
    obtain ⟨_, _, h⟩ := Option.bind_eq_some_iff.mp h
    have ht := Except.ok.inj (Option.some.inj h)
    rw [← ht]
    dsimp only
    cases hf : extractJsonIntField body "delay_ms"
    case outOfRange => simp [hf, IntField.getD] at hd
    case absent     => simp_all [IntField.getD, delayMs]
    case value n =>
      have hn : n = delay := by simpa [hf, IntField.getD] using hd
      subst hn
      simp only [delayMs, hf]
      split_ifs <;> grind

theorem enqueue_eq (queue : TaskQueue) (now : Int) (h : task.id = [] ∧ task.status = .unset) :
    ∃ (fresh : Task) (tasks : List Task), queue.enqueue task now =
        (fresh.id, ⟨tasks, queue.counter + 1⟩) ∧ Trims (queue.tasks ++ [fresh]) tasks ∧
      fresh.id = generateTaskId now (queue.counter + 1) ∧ fresh.status = .pending ∧
      fresh.scheduledForMs = task.scheduledForMs := by
  simp only [enqueue, h.left, ↓reduceIte]
  refine ⟨{ task with
    id := generateTaskId now (queue.counter + 1), status := .pending, createdAtMs := now
    updatedAtMs := now }, _, ?_, trimHistory_trims, rfl, rfl, rfl⟩
  simp [h.right]

-- A task that recurs is pending again, and due after its period. Any other one stays as it was.
structure Reschedules (now : Int) (task task' : Task) : Prop where
  id       : task'.id = task.id
  again    : 0 < task.recurrenceMs →
    task'.status = .pending ∧ task'.scheduledForMs = addInt64 now task.recurrenceMs
  once     : ¬0 < task.recurrenceMs → task'.scheduledForMs = task.scheduledForMs

theorem record_reschedules (queue : TaskQueue) (id : Bytes) (now : Int) (outcome : TaskOutcome) :
    ∃ f : Task → Task, queue.record id now outcome = (queue.settle id f).2 ∧
      ∀ task, Reschedules now task (f task) := by
  cases outcome
  all_goals
    refine ⟨_, rfl, fun task => ?_⟩
    by_cases hr : 0 < task.recurrenceMs
    all_goals constructor <;> simp [Task.rescheduled, hr]

end Calls

section Issuing

-- The tasks are told apart by their ids, and a new one by the counter.
structure Issuing (queue : TaskQueue) : Prop where
  ids    : (queue.tasks.map Task.id).Nodup
  issued : ∀ task ∈ queue.tasks, queue.Issued task.id

namespace Issuing

theorem fresh (i : Issuing queue) (h : task ∈ queue.tasks) :
    task.id ≠ generateTaskId now (queue.counter + 1) := by
  have ⟨_, sequence, hs, he⟩ := i.issued task h
  intro hn
  have := generateTaskId_sequence (he.symm.trans hn)
  omega

theorem enqueue (i : Issuing queue) (h : task.id = [] ∧ task.status = .unset) :
    Issuing (queue.enqueue task now).2 := by
  have ⟨fresh, tasks, hq, ht, hid, _⟩ := enqueue_eq queue now h
  rw [hq]
  constructor
  case ids =>
    apply ht.ids
    rw [List.map_append, List.nodup_append]
    refine ⟨i.ids, by simp, fun other ho other' ho' => ?_⟩
    have ⟨old, hm, he⟩ := List.mem_map.mp ho
    have he' : other' = fresh.id := by simpa using ho'
    exact he ▸ he' ▸ hid ▸ i.fresh hm
  case issued =>
    intro other ho
    cases List.mem_append.mp (ht.sublist.subset ho)
    case inl hm =>
      have ⟨now, sequence, hs, he⟩ := i.issued other hm
      exact ⟨now, sequence, Nat.le_succ_of_le hs, he⟩
    case inr hm =>
      exact ⟨now, queue.counter + 1, Nat.le_refl _, by rw [List.mem_singleton.mp hm, hid]⟩

-- What neither renames nor adds a task.
theorem of_ids {queue' : TaskQueue} (i : Issuing queue) (hc : queue'.counter = queue.counter)
    (h : (queue'.tasks.map Task.id).Sublist (queue.tasks.map Task.id)) : Issuing queue' where
  ids := i.ids.sublist h
  issued task hm := by
    have ⟨old, ho, he⟩ := List.mem_map.mp (h.subset (List.mem_map_of_mem hm))
    have ⟨now, sequence, hs, hi⟩ := i.issued old ho
    exact ⟨now, sequence, hc ▸ hs, he ▸ hi⟩

theorem settle {f : Task → Task} (i : Issuing queue) (hf : ∀ task, (f task).id = task.id) :
    Issuing (queue.settle id f).2 := by
  cases hq : queue.find id
  case none => exact (settle_unknown hq).symm ▸ i
  case some task =>
    have hs := settle_settles f (Option.isSome_iff_exists.mpr ⟨task, hq⟩)
    have hl := hs.trims.sublist.map Task.id
    rw [update_ids hf] at hl
    exact i.of_ids hs.counter hl

theorem cancel (i : Issuing queue) : Issuing (queue.cancel id now).2 := by
  by_cases hc : (queue.cancel id now).1 = true
  case neg => exact (cancel_refused hc).symm ▸ i
  case pos =>
    have ⟨_, hs⟩ := cancel_settles hc
    have hl := hs.trims.sublist.map Task.id
    rw [update_ids fun task => show (task.cancelled now).id = task.id from rfl] at hl
    exact i.of_ids hs.counter hl

theorem claimNext (i : Issuing queue) : Issuing (queue.claimNext now).2 := by
  cases hc : (queue.claimNext now).1
  case none => exact (claimNext_eq_none hc).symm ▸ i
  case some claimed =>
    have ⟨before, task, after, ht, hq, _, hid, _⟩ := claimNext_cases hc
    refine i.of_ids (by rw [hq]) ?_
    simp [hq, ht, hid]

theorem call (i : Issuing s.queue) : Issuing (s.call c).queue := by
  cases c
  case request body parsed enqueued =>
    simp only [Schedule.call, request]
    split
    case h_1 hp => exact i.enqueue (parseTaskRequestFromJson_fresh hp)
    case h_2    => exact i
  case claimNext now => exact i.claimNext
  case record id outcome now =>
    have ⟨f, hr, hf⟩ := record_reschedules s.queue id now.now outcome
    simp only [Schedule.call, record, hr]
    exact i.settle fun task => (hf task).id
  case cancel id now => exact i.cancel

theorem run (r : Run Step initial t s) : Issuing s.queue := by
  induction r
  case nil        => exact ⟨by simp [initial], by simp [initial]⟩
  case snoc hs hi => exact hs ▸ hi.call

end Issuing
end Issuing

section Exact

-- A new task is as due as its request says exactly when the delay fits.
theorem request_exact_iff {parsed enqueued : Clock} (i : Issuing s.queue) (h : s.Exact) :
    (s.request body parsed enqueued).Exact ↔ s.Fits (.request body parsed enqueued) := by
  cases hp : parseTaskRequestFromJson body parsed.now
  case none => simpa [request, hp, Fits] using h
  case some r =>
    cases r
    case error => simpa [request, hp, Fits] using h
    case ok task =>
      have hs := parsed_scheduled hp
      have ⟨fresh, tasks, hq, ht, hid, hl, hf⟩ :=
        enqueue_eq s.queue enqueued.now (parseTaskRequestFromJson_fresh hp)
      have hd : (s.request body parsed enqueued).Exact ↔
          fresh.scheduledForMs = if 0 < delayMs body then parsed.now + delayMs body else 0 := by
        simp only [request, hp, hq, Exact]
        constructor
        case mp =>
          intro he
          have hm : fresh ∈ tasks := ht.keeps fresh (by simp) (by simp [hl, TaskStatus.isTerminal])
          simpa using he fresh hm
        case mpr =>
          intro he other ho
          cases List.mem_append.mp (ht.sublist.subset ho)
          case inl hm =>
            have hne : other.id ≠ fresh.id := hid ▸ i.fresh hm
            rw [Function.update_of_ne hne]
            exact h other hm
          case inr hm => simp [List.mem_singleton.mp hm, he]
      have hb : s.Fits (.request body parsed enqueued) ↔
          delayMs body ≤ int64Max - parsed.now := by simp [Fits, hp]
      rw [hd, hb, hf, hs]
      by_cases hpos : 0 < delayMs body
      case pos => rw [if_pos hpos, if_pos hpos, Clock.add_iff parsed hpos]
      case neg => simp [hpos, fits_of_not_pos parsed hpos]

theorem record_exact_iff {outcome : TaskOutcome} {now : Clock} (i : Issuing s.queue)
    (h : s.Exact) : (s.record id outcome now).Exact ↔ s.Fits (.record id outcome now) := by
  have ⟨f, hr, hf⟩ := record_reschedules s.queue id now.now outcome
  cases hq : s.queue.find id
  case none =>
    have he : s.record id outcome now = s := by simp [record, hr, hq, settle_unknown hq]
    simpa [he, Fits, hq] using h
  case some task =>
    have ⟨hm, hid⟩ := mem_of_find hq
    have hs := settle_settles f (Option.isSome_iff_exists.mpr ⟨task, hq⟩)
    have hb : s.Fits (.record id outcome now) ↔ task.recurrenceMs ≤ int64Max - now.now := by
      simp [Fits, hq]
    -- Whatever else is queued is as it was.
    have ho {other : Task} (ho : other ∈ (s.queue.settle id f).2.tasks) :
        (other ∈ s.queue.tasks ∧ other.id ≠ id) ∨ other = f task := by
      cases mem_update i.ids (hs.trims.sublist.subset ho)
      case inl h => exact .inl h
      case inr h =>
        have ⟨old, hm', hid', he⟩ := h
        have := List.inj_on_of_nodup_map i.ids hm hm' (hid.trans hid'.symm)
        exact .inr (this ▸ he)
    have hq' : (s.record id outcome now).queue = (s.queue.settle id f).2 := hr
    rw [hb]
    by_cases hpos : 0 < task.recurrenceMs
    case neg =>
      have hd : (s.record id outcome now).due = s.due := by simp [record, hq, hpos]
      refine iff_of_true (fun other hm' => ?_) (fits_of_not_pos now hpos)
      rw [hd]
      cases ho (hq' ▸ hm')
      case inl hm' => exact h other hm'.left
      case inr he  => rw [he, (hf task).once hpos, (hf task).id, h task hm]
    case pos =>
      have ⟨hp, hw⟩ := (hf task).again hpos
      have hd : (s.record id outcome now).due =
          Function.update s.due id (now.now + task.recurrenceMs) := by simp [record, hq, hpos]
      have hfid : (f task).id = id := (hf task).id.trans hid
      rw [← Clock.add_iff now hpos, Exact, hd]
      constructor
      case mp =>
        intro he
        have hm : f task ∈ (s.queue.settle id f).2.tasks :=
          hs.trims.keeps _ (map_mem_update f i.ids hm hid) (by simp [hp, TaskStatus.isTerminal])
        have := he (f task) (hq' ▸ hm)
        rw [← hw, this, hfid]
        simp
      case mpr =>
        intro hsum other hm'
        cases ho (hq' ▸ hm')
        case inl hm' =>
          rw [Function.update_of_ne hm'.right]
          exact h other hm'.left
        case inr he => rw [he, hw, hfid, hsum, Function.update_self]

theorem cancel_exact (i : Issuing s.queue) (h : s.Exact) :
    Exact { s with queue := (s.queue.cancel id now).2 } := by
  by_cases hc : (s.queue.cancel id now).1 = true
  case neg => exact (cancel_refused hc).symm ▸ h
  case pos =>
    have ⟨_, hs⟩ := cancel_settles hc
    intro other hm
    cases mem_update i.ids (hs.trims.sublist.subset hm)
    case inl hm => exact h other hm.left
    case inr hm =>
      have ⟨old, ho, _, he⟩ := hm
      rw [he]
      exact h old ho

theorem claimNext_exact (h : s.Exact) :
    Exact { s with queue := (s.queue.claimNext now).2 } := by
  cases hc : (s.queue.claimNext now).1
  case none => exact (claimNext_eq_none hc).symm ▸ h
  case some claimed =>
    have ⟨rest, hf, hq⟩ := claimNext_eq_some hc
    have ⟨before, task, after, ht, hr, _, _, he⟩ := claimFrom_split hf
    intro other hm
    simp only [hq, hr, List.mem_append, List.mem_cons] at hm
    obtain hm | rfl | hm := hm
    · exact h other (by simp [ht, hm])
    · simpa [he] using h task (by simp [ht])
    · exact h other (by simp [ht, hm])

theorem Exact.onTime (h : s.Exact) : OnTime s where
  exact := h
  notEarly now claimed hc := by
    have ⟨rest, hf, _⟩ := claimNext_eq_some hc
    have ⟨before, task, after, ht, _, _, hs, he⟩ := claimFrom_split hf
    have : task.scheduledForMs = s.due task.id := h task (by simp [ht])
    simpa [he, ← this] using hs

-- What one call keeps.
theorem call_exact_iff (i : Issuing s.queue) (h : s.Exact) : (s.call c).Exact ↔ s.Fits c := by
  cases c
  case request body parsed enqueued => exact request_exact_iff i h
  case record id outcome now        => exact record_exact_iff i h
  case claimNext now                => exact iff_of_true (claimNext_exact h) trivial
  case cancel id now                => exact iff_of_true (cancel_exact i h) trivial

end Exact

theorem initial_exact : initial.Exact := by
  simp [Exact, initial]

theorem step_functional : Functional Step := by
  intro s c s₁ s₂ h₁ h₂
  exact h₁.symm.trans h₂

theorem exact_of_guarded (g : Guarded (fun _ => Fits) Step initial t s) : s.Exact := by
  induction g
  case nil              => exact initial_exact
  case snoc g hf hs hi  => exact hs ▸ (call_exact_iff (.run g.run) hi).mpr hf

-- The queue keeps to the schedule throughout a run exactly when each sum fits in an `int64_t`.
theorem onTime_iff (r : Run Step initial t s) :
    (∀ u v s', t = u ++ v → Run Step initial u s' → OnTime s') ↔
      Guarded (fun _ => Fits) Step initial t s := by
  constructor
  case mp =>
    intro ho
    induction r
    case nil => exact .nil
    case snoc t c s s' r hs hi =>
      have g := hi fun u v s' ht => ho u (v ++ [c]) s' (by simp [ht])
      have he := (ho (t ++ [c]) [] s' (by simp) (r.snoc hs)).exact
      exact g.snoc ((call_exact_iff (.run r) (exact_of_guarded g)).mp (hs ▸ he)) hs
  case mpr =>
    intro g u v s' ht r'
    have ⟨_, g'⟩ := (ht ▸ g).halt
    exact g'.run.unique step_functional r' ▸ (exact_of_guarded g').onTime

-- A request for a task that runs in a minute, and every minute from then on.
def everyMinute : Bytes :=
  jsonObject [jsonStringField "command" "run", jsonIntField "delay_ms" 60000,
    jsonIntField "recurrence_ms" 60000]

-- A request for a task that is to run as late as can be said.
def atTheEnd : Bytes :=
  jsonObject [jsonStringField "command" "run", jsonIntField "delay_ms" int64Max]

def clock (now : Int) (h : int64Min ≤ now ∧ now ≤ int64Max := by decide) : Clock :=
  ⟨now, h.left, h.right⟩

theorem onTime_iff_everyMinute :
    let t := [.request everyMinute (clock 5) (clock 5), .claimNext (clock 60005),
      .record "task-5-1" (.failed "boom") (clock 60007)]
    ∃ s, s.due "task-5-1" = 120007 ∧
      ((∀ u v s', t = u ++ v → Run Step initial u s' → OnTime s') ↔
        Guarded (fun _ => Fits) Step initial t s) :=
  ⟨_, by decide +kernel, onTime_iff (.snoc (.snoc (.snoc .nil rfl) rfl) rfl)⟩

-- The deadline wraps into the past, and the task is claimed at once.
theorem not_onTime : ¬∀ t s, Run Step initial t s → OnTime s := by
  intro h
  have r : Run Step initial [.request atTheEnd (clock 5) (clock 5)] _ := .snoc .nil rfl
  have ho := (h _ _ r).notEarly 6
  revert ho
  decide +kernel

end Droidcli.App.Schedule
