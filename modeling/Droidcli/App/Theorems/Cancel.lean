import Droidcli.App.Theorems.Queue

namespace Droidcli.App.TaskSystem

open Bytes Net TaskQueue Relation

-- The invariant of the queue and of the runs that are under way.
structure Inv (s : TaskSystem) : Prop where
  ids       : (s.queue.tasks.map Task.id).Nodup
  flightIds : (s.inFlight.map Task.id).Nodup
  issued    : ∀ task ∈ s.queue.tasks ++ s.inFlight, s.queue.Issued task.id
  running   : ∀ task ∈ s.queue.tasks, task.status = .running → task.id ∈ s.inFlight.map Task.id
  flight    : ∀ task ∈ s.queue.tasks, task.id ∈ s.inFlight.map Task.id →
    task.status ∈ [.running, .cancelled]
  trimmed   : Trimmed s.queue.tasks

theorem inv_initial : Inv initial where
  ids       := by simp [initial]
  flightIds := by simp [initial]
  issued    := by simp [initial]
  running   := by simp [initial]
  flight    := by simp [initial]
  trimmed   := .inl (by simp [initial])

theorem Issued.mono {queue queue' : TaskQueue} {id : Bytes} (h : queue.Issued id)
    (hc : queue.counter ≤ queue'.counter) : queue'.Issued id := by
  have ⟨now, sequence, hs, he⟩ := h
  exact ⟨now, sequence, Nat.le_trans hs hc, he⟩

theorem Issued.ne_next {queue : TaskQueue} {id : Bytes} {now : Int} (h : queue.Issued id) :
    id ≠ generateTaskId now (queue.counter + 1) := by
  have ⟨_, sequence, hs, he⟩ := h
  intro hn
  have := generateTaskId_sequence (he.symm.trans hn)
  omega

namespace Inv

variable {s : TaskSystem} {id : Bytes} {now : Int} {task : Task}

theorem enqueue (i : Inv s) (h : task.id = [] ∧ task.status = .unset) :
    Inv { s with queue := (s.queue.enqueue task now).2 } := by
  have ⟨fresh, hq, ht, hid, hp⟩ := enqueue_fresh s.queue now h
  generalize (s.queue.enqueue task now).2 = queue' at hq ht
  have hf : ∀ old ∈ s.queue.tasks ++ s.inFlight, old.id ≠ fresh.id :=
    fun old hm => hid ▸ Issued.ne_next (i.issued old hm)
  have hm {old : Task} (ho : old ∈ queue'.tasks) : old ∈ s.queue.tasks ∨ old = fresh := by
    simpa using ht.sublist.subset ho
  have hc : s.queue.counter ≤ queue'.counter := by omega
  constructor
  case ids =>
    apply ht.ids
    simp only [List.map_append, List.nodup_append, i.ids, List.map_cons, List.map_nil]
    simpa using fun old ho => hf old (List.mem_append_left _ ho)
  case flightIds => exact i.flightIds
  case issued =>
    intro old ho
    cases List.mem_append.mp ho
    case inl ho =>
      cases hm ho
      case inl ho => exact Issued.mono (i.issued old <| List.mem_append_left _ ho) hc
      case inr he => exact ⟨now, s.queue.counter + 1, by simp [hq], he ▸ hid⟩
    case inr ho => exact Issued.mono (i.issued old <| List.mem_append_right _ ho) hc
  case running =>
    intro old ho hr
    cases hm ho
    case inl ho => exact i.running old ho hr
    case inr he => simp [he, hp] at hr
  case flight =>
    intro old ho hr
    cases hm ho
    case inl ho => exact i.flight old ho hr
    case inr he =>
      have ⟨other, ho, he'⟩ := List.mem_map.mp hr
      exact absurd (he'.trans (congrArg _ he)) (hf other <| List.mem_append_right _ ho)
  case trimmed => exact ht.trimmed

theorem settle (i : Inv s) {f : Task → Task} {queue' : TaskQueue} {inFlight' : List Task}
    (h : Settles s.queue id f queue') (hf : ∀ task, (f task).id = task.id)
    (hl : inFlight'.Sublist s.inFlight)
    (ho : ∀ task ∈ s.inFlight, task.id ≠ id → task ∈ inFlight')
    (hs : ∀ task ∈ s.queue.tasks, task.id = id → (f task).status ≠ .running ∧
      ((f task).status ≠ .cancelled → id ∉ inFlight'.map Task.id)) :
    Inv ⟨queue', inFlight'⟩ := by
  have hm {task : Task} (ht : task ∈ queue'.tasks) := mem_update i.ids (h.trims.sublist.subset ht)
  constructor
  case ids       => exact h.trims.ids <| (update_ids hf).symm ▸ i.ids
  case flightIds => exact i.flightIds.sublist (hl.map Task.id)
  case issued =>
    have hc : s.queue.counter ≤ queue'.counter := Nat.le_of_eq h.counter.symm
    intro task ht
    cases List.mem_append.mp ht
    case inl ht =>
      cases hm ht
      case inl ht => exact Issued.mono (i.issued task <| List.mem_append_left _ ht.left) hc
      case inr ht =>
        have ⟨old, ho, _, he⟩ := ht
        exact he ▸ hf old ▸ Issued.mono (i.issued old <| List.mem_append_left _ ho) hc
    case inr ht => exact Issued.mono (i.issued task <| List.mem_append_right _ (hl.subset ht)) hc
  case running =>
    intro task ht hr
    cases hm ht
    case inl ht =>
      have ⟨flying, hm, he⟩ := List.mem_map.mp (i.running task ht.left hr)
      exact he ▸ List.mem_map_of_mem (ho flying hm (he ▸ ht.right))
    case inr ht =>
      have ⟨old, hm, hid, he⟩ := ht
      exact absurd (he ▸ hr) (hs old hm hid).left
  case flight =>
    intro task ht hr
    cases hm ht
    case inl ht => exact i.flight task ht.left ((hl.map Task.id).subset hr)
    case inr ht =>
      have ⟨old, hm, hid, he⟩ := ht
      by_contra hn
      have hc : (f old).status ≠ .cancelled := by simp_all
      exact (hs old hm hid).right hc <| hid ▸ hf old ▸ he ▸ hr
  case trimmed => exact h.trims.trimmed

theorem cancel (i : Inv s) (id : Bytes) (now : Int) : Inv (s.cancel id now) := by
  by_cases hc : (s.queue.cancel id now).1 = true
  case neg => simpa [TaskSystem.cancel, cancel_refused hc] using i
  case pos =>
    have ⟨_, h⟩ := cancel_settles hc
    apply i.settle h (fun _ => rfl) (List.Sublist.refl _) (fun _ h _ => h)
    intro task _ _
    simp [Task.cancelled]

theorem claim (i : Inv s) (h : (s.queue.claimNext now).1 = some task) :
    Inv ⟨(s.queue.claimNext now).2, task :: s.inFlight⟩ := by
  have ⟨before, old, after, ht, hq, hp, hid, hr⟩ := claimNext_cases h
  have ho : old ∈ s.queue.tasks := by simp [ht]
  have hn : task.id ∉ s.inFlight.map Task.id := by
    intro hm
    have := i.flight old ho (hid ▸ hm)
    simp [hp] at this
  have hm {other : Task} (h : other ∈ before ++ task :: after) :
      other = task ∨ other ∈ s.queue.tasks ∧ other.id ≠ task.id := by
    have hn : (old.id :: (before ++ after).map Task.id).Nodup := by
      simpa [ht, List.nodup_middle] using i.ids
    cases List.mem_cons.mp <| List.perm_middle.mem_iff.mp h
    case inl he => exact .inl he
    case inr hm =>
      refine .inr ⟨ht ▸ List.perm_middle.mem_iff.mpr (List.mem_cons_of_mem _ hm), fun he => ?_⟩
      exact List.nodup_cons.mp hn |>.left <| he.trans hid ▸ List.mem_map_of_mem hm
  rw [hq]
  constructor
  case ids       => simpa [ht, hid] using i.ids
  case flightIds => exact List.nodup_cons.mpr ⟨hn, i.flightIds⟩
  case issued =>
    have hi : s.queue.Issued task.id := hid ▸ i.issued old (List.mem_append_left _ ho)
    intro other h
    cases List.mem_append.mp h
    case inl h =>
      cases hm h
      case inl he => exact he ▸ hi
      case inr h  => exact i.issued other (List.mem_append_left _ h.left)
    case inr h =>
      cases List.mem_cons.mp h
      case inl he => exact he ▸ hi
      case inr h  => exact i.issued other (List.mem_append_right _ h)
  case running =>
    intro other h hr
    cases hm h
    case inl he => simp [he]
    case inr h  => exact List.mem_cons_of_mem _ (i.running other h.left hr)
  case flight =>
    intro other h hf
    cases hm h
    case inl he => simp [he, hr]
    case inr h  => exact i.flight other h.left (List.mem_cons.mp hf |>.resolve_left h.right)
  case trimmed =>
    cases i.trimmed
    case inl hl => exact .inl (by simpa [ht] using hl)
    case inr hl =>
      refine .inr fun other h => ?_
      cases hm h
      case inl he => simp [he, hr, TaskStatus.isTerminal]
      case inr h  => exact hl other h.left

theorem finish (i : Inv s) (outcome : TaskOutcome) (now : Int) (h : task ∈ s.inFlight) :
    Inv ⟨s.queue.record task.id now outcome, s.inFlight.erase task⟩ := by
  have hl : (s.inFlight.erase task).Sublist s.inFlight := List.erase_sublist
  have hn : task.id ∉ (s.inFlight.erase task).map Task.id := by
    intro hm
    have ⟨other, hm, he⟩ := List.mem_map.mp hm
    have ho := List.inj_on_of_nodup_map i.flightIds (hl.subset hm) h he
    exact i.flightIds.of_map.not_mem_erase (ho ▸ hm)
  have ho : ∀ other ∈ s.inFlight, other.id ≠ task.id → other ∈ s.inFlight.erase task :=
    fun other hm hne => List.mem_erase_of_ne (fun he => hne (congrArg _ he)) |>.mpr hm
  have ⟨f, hf, hr⟩ := record_settles s.queue outcome task.id now
  rw [hr]
  cases hq : s.queue.find task.id
  case some found =>
    apply i.settle (settle_settles f (by simp [hq])) (fun task => (hf task).left) hl ho
    intro old _ _
    have := (hf old).right
    exact ⟨fun he => by simp [he] at this, fun _ => hn⟩
  case none =>
    have hu := find_eq_none_iff.mp hq
    rw [settle_unknown hq]
    constructor
    case ids       => exact i.ids
    case flightIds => exact i.flightIds.sublist (hl.map Task.id)
    case issued =>
      intro other hm
      cases List.mem_append.mp hm
      case inl hm => exact i.issued other (List.mem_append_left _ hm)
      case inr hm => exact i.issued other (List.mem_append_right _ (hl.subset hm))
    case running =>
      intro other hm hr
      have ⟨flying, hf, he⟩ := List.mem_map.mp (i.running other hm hr)
      exact he ▸ List.mem_map_of_mem (ho flying hf (he ▸ hu other hm))
    case flight  => exact fun other hm hf => i.flight other hm ((hl.map Task.id).subset hf)
    case trimmed => exact i.trimmed

theorem step (i : Inv s) {t : TaskSystem} (h : Step s t) : Inv t := by
  cases h
  case enqueue hp => exact i.enqueue (parseTaskRequestFromJson_fresh hp)
  case cancel     => exact i.cancel _ _
  case claim h    => exact i.claim h
  case finish h   => exact i.finish _ _ h

theorem steps (i : Inv s) {t : TaskSystem} (h : Steps s t) : Inv t := by
  induction h
  case refl         => exact i
  case tail h hi    => exact hi.step h

end Inv

theorem Reachable.inv {s : TaskSystem} (h : Reachable s) : Inv s :=
  inv_initial.steps h

-- A cancelled task that no run can bring back: a run of it that is still under way would not find
-- it in the queue any more.
structure Gone (id : Bytes) (s : TaskSystem) : Prop where
  issued    : s.queue.Issued id
  cancelled : ∀ task ∈ s.queue.tasks, task.id = id → task.status = .cancelled
  grounded  : id ∈ s.inFlight.map Task.id → ∀ task ∈ s.queue.tasks, task.id ≠ id

namespace Gone

variable {s t : TaskSystem} {id : Bytes}

-- A step that neither brings the task back nor starts a run of it.
theorem of_subset (g : Gone id s) (hc : s.queue.counter ≤ t.queue.counter)
    (hf : id ∈ t.inFlight.map Task.id → id ∈ s.inFlight.map Task.id)
    (hm : ∀ task ∈ t.queue.tasks, task.id = id → task ∈ s.queue.tasks) : Gone id t where
  issued := Issued.mono g.issued hc
  cancelled := fun task ht he => g.cancelled task (hm task ht he) he
  grounded := fun hi task ht he => g.grounded (hf hi) task (hm task ht he) he

theorem enqueue {new : Task} {now : Int} (g : Gone id s)
    (hn : new.id = [] ∧ new.status = .unset) :
    Gone id { s with queue := (s.queue.enqueue new now).2 } := by
  have ⟨fresh, hq, ht, hid, _⟩ := enqueue_fresh s.queue now hn
  have hc : s.queue.counter ≤ (s.queue.enqueue new now).2.counter := by simp [hq]
  refine g.of_subset hc (fun hf => hf) ?_
  intro task hm he
  cases List.mem_append.mp (ht.sublist.subset hm)
  case inl hm => exact hm
  case inr hm =>
    have hf : task.id = fresh.id := by simp_all
    exact absurd (he.symm.trans <| hf.trans hid) (Issued.ne_next g.issued)

theorem cancel (g : Gone id s) (i : Inv s) (other : Bytes) (now : Int) :
    Gone id (s.cancel other now) := by
  by_cases hc : (s.queue.cancel other now).1 = true
  case neg => simpa [TaskSystem.cancel, cancel_refused hc] using g
  case pos =>
    have ⟨_, h⟩ := cancel_settles hc
    have hm {task : Task} (hm : task ∈ (s.cancel other now).queue.tasks) :=
      mem_update i.ids (h.trims.sublist.subset hm)
    constructor
    case issued => exact Issued.mono g.issued (by simp [TaskSystem.cancel, h.counter])
    case grounded =>
      intro hf task ht
      cases hm ht
      case inl ht => exact g.grounded hf task ht.left
      case inr ht =>
        have ⟨old, ho, _, he⟩ := ht
        exact he ▸ g.grounded hf old ho
    case cancelled =>
      intro task ht he
      cases hm ht
      case inl ht => exact g.cancelled task ht.left he
      case inr ht =>
        have ⟨_, _, _, he⟩ := ht
        simp [he, Task.cancelled]

theorem claim {task : Task} {now : Int} (g : Gone id s)
    (h : (s.queue.claimNext now).1 = some task) :
    Gone id ⟨(s.queue.claimNext now).2, task :: s.inFlight⟩ := by
  have ⟨before, old, after, ht, hq, hp, hid, _⟩ := claimNext_cases h
  have hne : task.id ≠ id := by
    intro he
    have := g.cancelled old (by simp [ht]) (hid.symm.trans he)
    simp [hp] at this
  rw [hq]
  refine g.of_subset (by simp) (fun hf => by simpa [hne.symm] using hf) ?_
  intro other hm he
  have hn : other ≠ task := fun ho => hne (ho ▸ he)
  have : other ∈ before ∨ other ∈ after := by simpa [hn] using hm
  exact ht ▸ List.perm_middle.mem_iff.mpr (List.mem_cons_of_mem _ (List.mem_append.mpr this))

theorem finish {task : Task} (g : Gone id s) (i : Inv s) (outcome : TaskOutcome) (now : Int)
    (h : task ∈ s.inFlight) :
    Gone id ⟨s.queue.record task.id now outcome, s.inFlight.erase task⟩ := by
  have ⟨f, hf, hr⟩ := record_settles s.queue outcome task.id now
  have hg (hm : id ∈ (s.inFlight.erase task).map Task.id) : id ∈ s.inFlight.map Task.id :=
    (List.erase_sublist.map Task.id).subset hm
  rw [hr]
  cases hq : s.queue.find task.id
  case none =>
    rw [settle_unknown hq]
    exact g.of_subset (Nat.le_refl _) hg fun _ hm _ => hm
  case some found =>
    have hne : task.id ≠ id := by
      intro he
      have ⟨hm, hid⟩ := mem_of_find hq
      exact g.grounded (he ▸ List.mem_map_of_mem h) found hm (hid.trans he)
    have h := settle_settles f (Option.isSome_iff_exists.mpr ⟨_, hq⟩)
    refine g.of_subset (by simp [h.counter]) hg ?_
    intro other hm he
    cases mem_update i.ids (h.trims.sublist.subset hm)
    case inl hm => exact hm.left
    case inr hm =>
      have ⟨old, _, ho, he'⟩ := hm
      exact absurd (ho.symm.trans <| (hf old).left.symm.trans <| he' ▸ he) hne

theorem step (g : Gone id s) (i : Inv s) (h : Step s t) : Gone id t := by
  cases h
  case enqueue hp => exact g.enqueue (parseTaskRequestFromJson_fresh hp)
  case cancel     => exact g.cancel i _ _
  case claim h    => exact g.claim h
  case finish h   => exact g.finish i _ _ h

theorem staysCancelled (g : Gone id s) (i : Inv s) : StaysCancelled id s := by
  intro t h
  have ⟨g, _⟩ : Gone id t ∧ Inv t := by
    induction h
    case refl      => exact ⟨g, i⟩
    case tail h hi => exact ⟨hi.left.step hi.right h, hi.right.step h⟩
  constructor
  case left =>
    intro task hf
    have ⟨hm, he⟩ := mem_of_find hf
    exact g.cancelled task hm he
  case right =>
    intro now task hc he
    have ⟨before, old, after, ht, _, hp, hid, _⟩ := claimNext_cases hc
    have := g.cancelled old (by simp [ht]) (hid.symm.trans he)
    simp [hp] at this

end Gone

-- A cancel that is undone: the task was under way, there was room to keep it as cancelled, and the
-- run is recorded afterwards.
theorem not_staysCancelled {s : TaskSystem} {id : Bytes} {now : Int} {task : Task} (i : Inv s)
    (hc : (s.queue.cancel id now).1 = true) (hf : s.queue.find id = some task)
    (hr : task.status = .running) (hl : s.queue.tasks.length ≤ kMaxHistoryEntries) :
    ¬StaysCancelled id (s.cancel id now) := by
  intro h
  have ⟨hm, hid⟩ := mem_of_find hf
  have ⟨flying, hm', he⟩ := List.mem_map.mp (i.running task hm hr)
  have ⟨_, hs⟩ := cancel_settles hc
  have ic := i.cancel id now
  have ht : (s.cancel id now).queue.tasks = update id (·.cancelled now) s.queue.tasks :=
    hs.trims.room (by simp [update_length, hl])
  have hl : (s.cancel id now).queue.tasks.length ≤ kMaxHistoryEntries := by
    simp [ht, update_length, hl]
  -- The run comes to its end and finds the task under its id.
  have hm : task.cancelled now ∈ (s.cancel id now).queue.tasks := ht ▸ map_mem_update _ i.ids hm hid
  have hid : (task.cancelled now).id = flying.id := he.symm
  have hi := ic.finish (.completed []) now hm'
  have hstep : Step (s.cancel id now) _ := .finish (.completed []) now hm'
  have ⟨f, hf, hr⟩ := record_settles (s.cancel id now).queue (.completed []) flying.id now
  rw [hr] at hi hstep
  have hs := settle_settles f <| Option.isSome_iff_exists.mpr ⟨_, find_eq_some ic.ids hm hid⟩
  have ht := hs.trims.room (by simp [update_length, hl])
  have hm := ht ▸ map_mem_update f ic.ids hm hid
  have hc := (h _ (.single hstep)).left _ <| find_eq_some hi.ids hm <|
    (hf _).left.trans <| hid.trans <| he.trans ‹task.id = id›
  have := (hf (task.cancelled now)).right
  simp [hc] at this

theorem cancel_gone {s : TaskSystem} {id : Bytes} {now : Int} {task : Task} (i : Inv s)
    (hc : (s.queue.cancel id now).1 = true) (hf : s.queue.find id = some task)
    (hr : task.status = .running → kMaxHistoryEntries < s.queue.tasks.length) :
    Gone id (s.cancel id now) := by
  have ⟨hm, hid⟩ := mem_of_find hf
  have ⟨⟨_, hf', ht⟩, hs⟩ := cancel_settles hc
  have ht : ¬task.status.isTerminal := Option.some.inj (hf.symm.trans hf') ▸ ht
  have hm' {other : Task} (hm : other ∈ (s.cancel id now).queue.tasks) :=
    mem_update i.ids (hs.trims.sublist.subset hm)
  constructor
  case issued =>
    apply Issued.mono (hid ▸ i.issued task (List.mem_append_left _ hm))
    simp [TaskSystem.cancel, hs.counter]
  case cancelled =>
    intro other hm he
    cases hm' hm
    case inl hm => exact absurd he hm.right
    case inr hm =>
      have ⟨_, _, _, he⟩ := hm
      simp [he, Task.cancelled]
  case grounded =>
    intro hg other ho he
    have hrun : task.status = .running := by
      have := i.flight task hm (hid ▸ hg)
      cases hst : task.status <;> simp_all [TaskStatus.isTerminal]
    -- The queue is too long to hold any finished task but this one, which the trim then drops.
    have hl := hr hrun
    have hn : (update id (·.cancelled now) s.queue.tasks).Nodup :=
      List.Nodup.of_map Task.id <| by simpa [update_ids, Task.cancelled] using i.ids
    refine hs.trims.not_mem hn (by simp [update_length, hl]) ?_ ?_ ho
    case refine_1 =>
      have ⟨_, _, _, he⟩ := (hm' ho).resolve_left fun h => h.right he
      simp [he, Task.cancelled, TaskStatus.isTerminal]
    case refine_2 =>
      intro another ha hne
      cases mem_update i.ids ha
      case inl ha =>
        cases i.trimmed
        case inl hl' => omega
        case inr hn  => exact hn another ha.left
      case inr ha =>
        have ⟨old, hm₁, hid₁, he₁⟩ := ha
        have ⟨old', hm₂, hid₂, he₂⟩ := (hm' ho).resolve_left fun h => h.right he
        have := List.inj_on_of_nodup_map i.ids hm₁ hm₂ (hid₁.trans hid₂.symm)
        exact absurd (he₁.trans <| this ▸ he₂.symm) hne

-- A cancel lasts exactly when it does not land on a run that is under way. The one exception is a
-- queue without room: there the cancelled task is dropped on the spot.
theorem cancel_permanent_iff {s : TaskSystem} {id : Bytes} {now : Int} (hr : Reachable s)
    (hc : (s.queue.cancel id now).1 = true) :
    StaysCancelled id (s.cancel id now) ↔
      ∀ task, s.queue.find id = some task → task.status = .running →
        kMaxHistoryEntries < s.queue.tasks.length := by
  have ⟨⟨task, hf, _⟩, _⟩ := cancel_settles hc
  constructor
  case mp =>
    intro h found hf hr'
    by_contra hl
    exact not_staysCancelled hr.inv hc hf hr' (Nat.le_of_not_lt hl) h
  case mpr =>
    intro h
    exact (cancel_gone hr.inv hc hf (h task hf)).staysCancelled (hr.inv.cancel _ _)

-- A recurring task, queued on an empty queue.
def recurring : Task where
  id := []
  connectorId := []
  command := "run"
  payloadJson := []
  status := .unset
  createdAtMs := 0
  updatedAtMs := 0
  scheduledForMs := 0
  recurrenceMs := 60000
  runCount := 0
  errorMessage := []
  resultJson := []

def queued : TaskSystem :=
  { initial with queue := (initial.queue.enqueue recurring 0).2 }

theorem reachable_queued : Reachable queued := by
  have hb : parseTaskRequestFromJson (jsonObject
      [jsonStringField "command" "run", jsonIntField "recurrence_ms" 60000]) 0 =
      some (.ok recurring) := by rfl
  exact .single (.enqueue 0 0 hb)

theorem cancel_permanent_queued : StaysCancelled "task-0-1" (queued.cancel "task-0-1" 0) := by
  refine cancel_permanent_iff reachable_queued (by rfl) |>.mpr fun task hf hr => ?_
  have : (queued.queue.find "task-0-1").map Task.status = some .pending := by rfl
  simp [hf, hr] at this

theorem cancel_not_permanent :
    ∃ s id now, Reachable s ∧ (s.queue.cancel id now).1 = true ∧
      ¬StaysCancelled id (s.cancel id now) := by
  have ⟨task, hc, hq, hr⟩ : ∃ task, (queued.queue.claimNext 0).1 = some task ∧
      (queued.queue.claimNext 0).2.find "task-0-1" = some task ∧ task.status = .running :=
    ⟨_, rfl, rfl, rfl⟩
  have h : Reachable ⟨(queued.queue.claimNext 0).2, [task]⟩ := reachable_queued.tail (.claim 0 hc)
  have hl : (queued.queue.claimNext 0).2.tasks.length ≤ kMaxHistoryEntries := by decide
  exact ⟨_, "task-0-1", 0, h, rfl, not_staysCancelled h.inv rfl hq hr hl⟩

end Droidcli.App.TaskSystem
