import Droidcli.Cli.ProcessManager

namespace Droidcli.Cli

open Bytes Trace

namespace ProcessGroups

variable {groups : ProcessGroups} {pgid other : Nat}

@[simp]
theorem killpg_leader : (groups.killpg pgid other).leader = (groups other).leader := by
  by_cases h : other = pgid <;> simp [killpg, h]

@[simp]
theorem killpg_descendants :
    (groups.killpg pgid other).descendants = (groups other).descendants := by
  by_cases h : other = pgid <;> simp [killpg, h]

@[simp]
theorem killpg_key : (groups.killpg pgid other).key = (groups other).key := by
  by_cases h : other = pgid <;> simp [killpg, h]

@[simp]
theorem killpg_signalled :
    (groups.killpg pgid other).signalled ↔ other = pgid ∨ (groups other).signalled := by
  by_cases h : other = pgid <;> simp [killpg, h]

@[simp]
theorem killpg_isLive : (groups.killpg pgid other).isLive = (groups other).isLive := by
  simp [ProcessGroup.isLive]

end ProcessGroups

namespace ProcessGroup

variable {group : ProcessGroup}

@[simp]
theorem isLive_iff : group.isLive ↔ group.leader = .running ∨ 0 < group.descendants := by
  simp [isLive]

theorem not_isLive_of_isUnused (h : group.isUnused) : ¬group.isLive := by
  simp_all [isUnused]

end ProcessGroup

namespace ProcessManager

variable {s s' : ProcessManager} {a : Action} {t : List Action} {key : Bytes}
variable {entry : ProcessEntry} {pgid : Nat}

-- An entry with a group id has that of the group of its key, whose leader has not been waited for
-- and which has not been signalled.
structure Tracks (s : ProcessManager) (key : Bytes) (entry : ProcessEntry) : Prop where
  pid       : entry.info.pid = entry.pgid
  key       : (s.groups entry.pgid).key = key
  leader    : (s.groups entry.pgid).leader ≠ .reaped
  signalled : ¬(s.groups entry.pgid).signalled

structure Inv (s : ProcessManager) : Prop where
  tracks   : ∀ key entry, s.entries.get? key = some entry → 0 < entry.pgid → Tracks s key entry
  positive : ∀ pgid, (s.groups pgid).isLive → 0 < pgid

-- The entry of the key that a group was launched under has its id, as long as the group has a live
-- member and has not been signalled as a whole.
def Kept (s : ProcessManager) : Prop :=
  ∀ pgid, (s.groups pgid).isLive → ¬(s.groups pgid).signalled →
    ∃ entry, s.entries.get? (s.groups pgid).key = some entry ∧ entry.pgid = pgid

-- Snapshots do not come to a leader that has exited before its descendants.
def Survived (s : ProcessManager) : Action → Prop
  | .refresh => ∀ key rest entry, s.toRefresh = key :: rest → s.entries.get? key = some entry →
    0 < entry.pgid → (s.groups entry.pgid).leader = .exited →
    (s.groups entry.pgid).descendants = 0
  | _        => True

-- The key whose group a call of the manager ends.
def Action.ends : Action → Option Bytes
  | .launch key _ _ _ _ => some key
  | .stop key           => some key
  | _                   => none

-- What the manager is for: it has the id of a group for as long as there is someone to signal, and
-- a stop or a relaunch signals the group.
structure KeepsGroups (s : ProcessManager) : Prop where
  kept    : Kept s
  signals : ∀ a key s', a.ends = some key → Step s a s' →
    ∀ pgid, (s.groups pgid).isLive → (s.groups pgid).key = key → (s'.groups pgid).signalled

theorem inv_initial : Inv initial where
  tracks   := by simp [initial, Table.get?]
  positive := by simp [initial, ProcessGroup.unused]

theorem kept_initial : Kept initial := by
  simp [Kept, initial, ProcessGroup.unused]

theorem functional_step : Functional Step :=
  fun _ _ _ _ h₁ h₂ => Option.some.inj (h₁.symm.trans h₂)

section Stop

variable {s₁ : ProcessManager}

-- What `stop_locked` does to the groups, for the entry of a key that may have none.
def stopped (s : ProcessManager) (key : Bytes) : ProcessGroups :=
  (((s.entries.get? key).getD .empty).stopLocked s.groups).1

theorem stopLocked_pgid {groups : ProcessGroups} : (entry.stopLocked groups).2.pgid = 0 := by
  rw [ProcessEntry.stopLocked]
  split
  case isTrue    => rfl
  case isFalse h => exact Nat.eq_zero_of_not_pos h

theorem stopLocked_groups {groups : ProcessGroups} : (entry.stopLocked groups).1 =
    if 0 < entry.pgid then groups.killpg entry.pgid else groups := by
  rw [ProcessEntry.stopLocked]
  split <;> rfl

theorem stopped_of_none (h : s.entries.get? key = none) : s.stopped key = s.groups := by
  simp [stopped, h, stopLocked_groups, ProcessEntry.empty]

theorem stopped_of_some (h : s.entries.get? key = some entry) : s.stopped key =
    if 0 < entry.pgid then s.groups.killpg entry.pgid else s.groups := by
  simp [stopped, h, stopLocked_groups]

-- The group of the entry of the key, if it has one, has been signalled.
theorem stopped_signalled : (s.stopped key pgid).signalled ↔
    (s.groups pgid).signalled ∨
      ∃ entry, s.entries.get? key = some entry ∧ 0 < entry.pgid ∧ entry.pgid = pgid := by
  cases h : s.entries.get? key
  case none => simp [stopped_of_none h]
  case some entry =>
    rw [stopped_of_some h]
    split
    case isTrue hp =>
      rw [ProcessGroups.killpg_signalled, or_comm, @eq_comm _ pgid]
      simp [hp]
    case isFalse hp => simp [hp]

-- And that is all.
theorem stopped_cases :
    s.stopped key = s.groups ∨ ∃ pgid, s.stopped key = s.groups.killpg pgid := by
  cases h : s.entries.get? key
  case none => exact .inl (stopped_of_none h)
  case some entry =>
    rw [stopped_of_some h]
    split
    case isTrue  => exact .inr ⟨entry.pgid, rfl⟩
    case isFalse => exact .inl rfl

@[simp]
theorem stopped_isLive : (s.stopped key pgid).isLive = (s.groups pgid).isLive := by
  obtain h | ⟨_, h⟩ := @stopped_cases s key <;> simp [h]

@[simp]
theorem stopped_key {k : Bytes} : (s.stopped k pgid).key = (s.groups pgid).key := by
  obtain h | ⟨_, h⟩ := @stopped_cases s k <;> simp [h]

@[simp]
theorem stopped_leader : (s.stopped key pgid).leader = (s.groups pgid).leader := by
  obtain h | ⟨_, h⟩ := @stopped_cases s key <;> simp [h]

-- The entry of the key has let go of its group, which has been signalled.
structure Dropped (s : ProcessManager) (key : Bytes) (s' : ProcessManager) : Prop where
  groups : s'.groups = s.stopped key
  others : ∀ other, other ≠ key → s'.entries.get? other = s.entries.get? other
  entry  : ∀ entry, s'.entries.get? key = some entry → entry.pgid = 0

-- The key has a new group, with nobody but its leader.
structure Started (s : ProcessManager) (key : Bytes) (pid : Nat) (s' : ProcessManager) : Prop where
  groups : s'.groups = Function.update s.groups pid ⟨.running, 0, key, false⟩
  others : ∀ other, other ≠ key → s'.entries.get? other = s.entries.get? other
  entry  : ∃ entry, s'.entries.get? key = some entry ∧ entry.pgid = pid ∧ entry.info.pid = pid

theorem stop_dropped : Dropped s key (s.stop key).2 := by
  cases h : s.entries.get? key
  case none => exact ⟨by simp [stop, h, stopped_of_none h], by simp [stop, h], by simp [stop, h]⟩
  case some entry =>
    simp only [stop, h]
    split
    case isTrue =>
      constructor
      case groups => simp [stopped, h]
      case others =>
        intro other ho
        simp [ho.symm]
      case entry => simp [stopLocked_pgid]
    case isFalse hp =>
      constructor
      case groups => simp [stopped_of_some h, hp]
      case others => exact fun _ _ => rfl
      case entry =>
        intro entry' h'
        have := Option.some.inj (h.symm.trans h')
        exact this ▸ Nat.eq_zero_of_not_pos hp

theorem launch_dropped {label workingDir command : Bytes} :
    Dropped s key (s.launch key label workingDir command none).2 := by
  constructor
  case groups => simp [launch, stopped]
  case others =>
    intro other ho
    simp [launch, ho.symm]
  case entry => simp [launch, stopLocked_pgid]

theorem launch_started {label workingDir command : Bytes} {pid : Nat} :
    ∃ s₁, Dropped s key s₁ ∧ Started s₁ key pid (s.launch key label workingDir command pid).2 := by
  refine ⟨(s.launch key label workingDir command none).2, launch_dropped, ?_⟩
  constructor
  case groups => simp [launch]
  case others =>
    intro other ho
    simp [launch, ho.symm]
  case entry => simp [launch]

theorem Dropped.isUnused (d : Dropped s key s') :
    (s'.groups pgid).isUnused = (s.groups pgid).isUnused := by
  rw [d.groups]
  obtain h | ⟨_, h⟩ := @stopped_cases s key <;> simp [h, ProcessGroup.isUnused]

theorem Inv.dropped (i : Inv s) (d : Dropped s key s') : Inv s' := by
  constructor
  case tracks =>
    intro other entry h hp
    have ho : other ≠ key := fun ho => hp.ne' (d.entry entry (ho ▸ h))
    have h := d.others other ho ▸ h
    have t := i.tracks other entry h hp
    refine ⟨t.pid, by simp [d.groups, t.key], by simp [d.groups, t.leader], ?_⟩
    rw [d.groups, stopped_signalled]
    intro hs
    obtain hs | ⟨entry', h', hp', he⟩ := hs
    · exact t.signalled hs
    · exact ho (t.key.symm.trans (he ▸ (i.tracks key entry' h' hp').key))
  case positive => simpa only [d.groups, stopped_isLive] using i.positive

theorem Kept.dropped (k : Kept s) (i : Inv s) (d : Dropped s key s') : Kept s' := by
  intro pgid hl hs
  simp only [d.groups, stopped_isLive] at hl
  rw [d.groups, stopped_signalled] at hs
  push Not at hs
  obtain ⟨entry, h, he⟩ := k pgid hl hs.left
  have ho : (s.groups pgid).key ≠ key :=
    fun ho => hs.right entry (ho ▸ h) (he ▸ i.positive pgid hl) he
  refine ⟨entry, ?_, he⟩
  simp only [d.groups, stopped_key, d.others _ ho, h]

theorem Inv.started (i : Inv s) {pid : Nat} (hp : 0 < pid) (hu : (s.groups pid).isUnused)
    (st : Started s key pid s') : Inv s' := by
  constructor
  case tracks =>
    intro other entry h hpos
    by_cases ho : other = key
    case pos =>
      have ⟨entry', h', hg, hi⟩ := st.entry
      obtain rfl := Option.some.inj (h'.symm.trans (ho ▸ h))
      exact ⟨by simp [hi, hg], by simp [st.groups, hg, ho], by simp [st.groups, hg],
        by simp [st.groups, hg]⟩
    case neg =>
      have t := i.tracks other entry (st.others other ho ▸ h) hpos
      have hn : entry.pgid ≠ pid := by
        intro he
        have := t.leader
        simp_all [ProcessGroup.isUnused]
      exact ⟨t.pid, by simp [st.groups, hn, t.key], by simp [st.groups, hn, t.leader],
        by simpa [st.groups, hn] using t.signalled⟩
  case positive =>
    intro pgid hl
    by_cases hn : pgid = pid
    case pos => exact hn ▸ hp
    case neg => exact i.positive pgid (by simpa [st.groups, hn] using hl)

theorem Kept.started (k : Kept s) {pid : Nat} (st : Started s key pid s')
    (hk : ∀ entry, s.entries.get? key = some entry → entry.pgid = 0) (i : Inv s) : Kept s' := by
  intro pgid hl hs
  by_cases hn : pgid = pid
  case pos =>
    obtain ⟨entry, h, hg, _⟩ := st.entry
    exact ⟨entry, by simp [st.groups, hn, h], hn ▸ hg⟩
  case neg =>
    simp only [st.groups, Function.update_of_ne hn] at hl hs ⊢
    obtain ⟨entry, h, he⟩ := k pgid hl hs
    have ho : (s.groups pgid).key ≠ key := by
      intro ho
      have := i.positive pgid hl
      have := hk entry (ho ▸ h)
      omega
    exact ⟨entry, st.others _ ho ▸ h, he⟩

end Stop

section Refresh

variable {rest : List Bytes}

-- Nothing has changed but what entries tell about their process.
structure Shown (s s' : ProcessManager) : Prop where
  groups  : s'.groups = s.groups
  entries : ∀ key entry, s'.entries.get? key = some entry →
    ∃ old, s.entries.get? key = some old ∧ entry.pgid = old.pgid ∧ entry.info.pid = old.info.pid
  kept    : ∀ key old, s.entries.get? key = some old →
    ∃ entry, s'.entries.get? key = some entry ∧ entry.pgid = old.pgid

theorem survived_refresh (hr : s.toRefresh = key :: rest)
    (h : ∀ entry, s.entries.get? key = some entry → 0 < entry.pgid →
      (s.groups entry.pgid).leader ≠ .exited) : Survived s .refresh := by
  intro other rest' entry hr' he hp hl
  obtain ⟨rfl, rfl⟩ := List.cons.inj (hr.symm.trans hr')
  exact absurd hl (h entry he hp)

-- The leader of the entry of the key, which had exited, is gone, and the entry has let go of its
-- group.
structure Reaped (s : ProcessManager) (key : Bytes) (entry : ProcessEntry) (s' : ProcessManager) :
    Prop where
  found  : s.entries.get? key = some entry
  pgid   : 0 < entry.pgid
  leader : (s.groups entry.pgid).leader = .exited
  groups : s'.groups =
    Function.update s.groups entry.pgid { s.groups entry.pgid with leader := .reaped }
  others : ∀ other, other ≠ key → s'.entries.get? other = s.entries.get? other
  entry  : ∃ entry, s'.entries.get? key = some entry ∧ entry.pgid = 0

theorem Shown.of_eq (hg : s'.groups = s.groups) (he : s'.entries = s.entries) : Shown s s' where
  groups          := hg
  entries _ old h := ⟨old, he ▸ h, rfl, rfl⟩
  kept _ old h    := ⟨old, he ▸ h, rfl⟩

theorem Shown.of_set {shown : ProcessEntry} (h : s.entries.get? key = some entry)
    (hg : s'.groups = s.groups) (he : s'.entries = s.entries.set key shown)
    (hp : shown.pgid = entry.pgid ∧ shown.info.pid = entry.info.pid) : Shown s s' := by
  constructor
  case groups => exact hg
  case entries =>
    intro other entry' h'
    rw [he, Table.get?_set] at h'
    split at h'
    case isTrue ho  => exact ⟨entry, ho ▸ h, Option.some.inj h' ▸ hp⟩
    case isFalse ho => exact ⟨entry', h', rfl, rfl⟩
  case kept =>
    intro other old h'
    by_cases ho : key = other
    case pos =>
      have := Option.some.inj (h.symm.trans (ho ▸ h'))
      exact ⟨shown, by simp [he, ho], this ▸ hp.left⟩
    case neg => exact ⟨old, by simp [he, ho, h'], rfl⟩

theorem refresh_cases (i : Inv s) (hr : s.toRefresh = key :: rest) :
    (Survived s .refresh ∧ Shown s (s.refresh key rest)) ∨
      ∃ entry, Reaped s key entry (s.refresh key rest) := by
  cases h : s.entries.get? key
  case none =>
    refine .inl ⟨survived_refresh hr ?_, .of_eq (by simp [refresh, h]) (by simp [refresh, h])⟩
    simp [h]
  case some entry =>
    by_cases hp : 0 < entry.pgid
    case neg =>
      refine .inl ⟨survived_refresh hr ?_, .of_set h ?_ (by simp only [refresh, h]; rfl) ?_⟩
      case refine_1 => simp [h, Nat.eq_zero_of_not_pos hp]
      all_goals simp [refresh, h, ProcessEntry.refreshLocked, hp]
    case pos =>
      have t := i.tracks key entry h hp
      have hpid : entry.info.pid.toNat = entry.pgid := by simp [t.pid]
      cases hl : (s.groups entry.pgid).leader
      case running =>
        refine .inl ⟨survived_refresh hr ?_, .of_set h ?_ (by simp only [refresh, h]; rfl) ?_⟩
        case refine_1 => simp [h, hl]
        all_goals
          simp [refresh, h, ProcessEntry.refreshLocked, hp, hpid, ProcessGroups.waitpid, hl]
      case exited =>
        refine .inr ⟨entry, h, hp, hl, ?_, ?_, ?_⟩
        all_goals
          simp [refresh, h, ProcessEntry.refreshLocked, hp, hpid, ProcessGroups.waitpid, hl]
        exact fun other ho he => absurd he.symm ho
      case reaped => exact absurd hl t.leader

theorem Inv.shown (i : Inv s) (h : Shown s s') : Inv s' := by
  constructor
  case tracks =>
    intro key entry he hp
    have ⟨old, ho, hg, hi⟩ := h.entries key entry he
    have t := i.tracks key old ho (hg ▸ hp)
    exact ⟨by rw [hi, hg, t.pid], by rw [h.groups, hg, t.key], by simpa [h.groups, hg] using t.leader,
      by simpa [h.groups, hg] using t.signalled⟩
  case positive => exact h.groups ▸ i.positive

theorem Kept.shown (k : Kept s) (h : Shown s s') : Kept s' := by
  intro pgid hl hs
  rw [h.groups] at hl hs ⊢
  have ⟨old, ho, hg⟩ := k pgid hl hs
  have ⟨entry, he, hp⟩ := h.kept _ old ho
  exact ⟨entry, he, hp.trans hg⟩

theorem Inv.reaped (i : Inv s) (r : Reaped s key entry s') : Inv s' := by
  constructor
  case tracks =>
    intro other entry' h hp
    have ho : other ≠ key := by
      intro ho
      have ⟨_, h', hz⟩ := r.entry
      obtain rfl := Option.some.inj (h'.symm.trans (ho ▸ h))
      omega
    have t := i.tracks other entry' (r.others other ho ▸ h) hp
    have hn : entry'.pgid ≠ entry.pgid := by
      intro he
      exact ho (t.key.symm.trans (he ▸ (i.tracks key entry r.found r.pgid).key))
    exact ⟨t.pid, by simp [r.groups, hn, t.key], by simp [r.groups, hn, t.leader],
      by simpa [r.groups, hn] using t.signalled⟩
  case positive =>
    intro pgid hl
    by_cases hn : pgid = entry.pgid
    case pos => exact hn ▸ r.pgid
    case neg => exact i.positive pgid (by simpa [r.groups, hn] using hl)

theorem Kept.reaped (k : Kept s) (r : Reaped s key entry s')
    (hd : (s.groups entry.pgid).descendants = 0) : Kept s' := by
  intro pgid hl hs
  by_cases hn : pgid = entry.pgid
  case pos => simp [r.groups, hn, hd] at hl
  case neg =>
    simp only [r.groups, Function.update_of_ne hn] at hl hs ⊢
    obtain ⟨entry', h, he⟩ := k pgid hl hs
    have ho : (s.groups pgid).key ≠ key := by
      intro ho
      have := Option.some.inj (r.found.symm.trans (ho ▸ h))
      exact hn (this ▸ he.symm)
    exact ⟨entry', r.others _ ho ▸ h, he⟩

-- Who is left in the group of a leader that is gone can no longer be signalled.
theorem Reaped.not_kept (r : Reaped s key entry s') (i : Inv s)
    (hd : (s.groups entry.pgid).descendants ≠ 0) : ¬Kept s' := by
  intro k
  have t := i.tracks key entry r.found r.pgid
  have ⟨entry', h, he⟩ := k entry.pgid
    (by simp [r.groups, Nat.pos_of_ne_zero hd]) (by simpa [r.groups] using t.signalled)
  have ⟨_, h', hz⟩ := r.entry
  simp only [r.groups, Function.update_self, t.key] at h
  obtain rfl := Option.some.inj (h'.symm.trans h)
  have := r.pgid
  omega

end Refresh

section Members

variable {group : ProcessGroup}

-- Members come and go, of which only live ones have children.
structure Moves (group group' : ProcessGroup) : Prop where
  live      : group'.isLive → group.isLive
  leader    : group.leader ≠ .reaped → group'.leader ≠ .reaped
  key       : group'.key = group.key
  signalled : group'.signalled = group.signalled

theorem Inv.moves (i : Inv s) (m : Moves (s.groups pgid) group) : Inv (s.setGroup pgid group) := by
  have hm (other : Nat) : Moves (s.groups other) ((s.setGroup pgid group).groups other) := by
    by_cases ho : other = pgid
    case pos => simpa [setGroup, ho] using m
    case neg => simpa [setGroup, ho] using ⟨id, id, rfl, rfl⟩
  constructor
  case tracks =>
    intro key entry h hp
    have t := i.tracks key entry h hp
    have m := hm entry.pgid
    exact ⟨t.pid, m.key.trans t.key, m.leader t.leader, m.signalled ▸ t.signalled⟩
  case positive => exact fun other hl => i.positive other ((hm other).live hl)

theorem Kept.moves (k : Kept s) (m : Moves (s.groups pgid) group) :
    Kept (s.setGroup pgid group) := by
  intro other hl hs
  by_cases ho : other = pgid
  case pos =>
    simp only [setGroup, ho, Function.update_self] at hl hs ⊢
    exact m.key ▸ k pgid (m.live hl) (m.signalled ▸ hs)
  case neg =>
    simp only [setGroup, Function.update_of_ne ho] at hl hs ⊢
    exact k other hl hs

end Members

section Step

-- What a step can be.
inductive Effect (s : ProcessManager) (a : Action) (s' : ProcessManager) : Prop
  | dropped {key : Bytes} :
    a.ends = some key → Dropped s key s' → Effect s a s'
  | started {key : Bytes} {pid : Nat} {s₁ : ProcessManager} :
    a.ends = some key → 0 < pid → (s.groups pid).isUnused → Dropped s key s₁ →
    Started s₁ key pid s' → Effect s a s'
  | shown :
    a.ends = none → Survived s a → Shown s s' → Effect s a s'
  | reaped {key : Bytes} {rest : List Bytes} {entry : ProcessEntry} :
    a = .refresh → s.toRefresh = key :: rest → Reaped s key entry s' → Effect s a s'
  | moves {pgid : Nat} {group : ProcessGroup} :
    a.ends = none → Survived s a → s.setGroup pgid group = s' → Moves (s.groups pgid) group →
    Effect s a s'

theorem survived_of_ends (h : a.ends = some key) : Survived s a := by
  cases a
  case refresh => contradiction
  all_goals trivial

theorem effect_of_step (i : Inv s) (h : Step s a s') : Effect s a s' := by
  cases a
  case launch key label workingDir command forked =>
    have ⟨⟨_, hf⟩, hs⟩ := Option.ite_none_right_eq_some.mp h
    rw [← Option.some.inj hs]
    cases forked
    case none => exact .dropped rfl launch_dropped
    case some pid =>
      have ⟨s₁, d, st⟩ := @launch_started s key label workingDir command pid
      exact .started rfl (hf pid rfl).left (hf pid rfl).right d st
  case stop key =>
    have ⟨_, hs⟩ := Option.ite_none_right_eq_some.mp h
    exact .dropped rfl (Option.some.inj hs ▸ stop_dropped)
  case snapshot =>
    have ⟨_, hs⟩ := Option.ite_none_right_eq_some.mp h
    exact .shown rfl trivial (Option.some.inj hs ▸ .of_eq rfl rfl)
  case refresh =>
    cases hr : s.toRefresh
    case nil => simp [Step, apply, hr] at h
    case cons key rest =>
      have hs : s.refresh key rest = s' := by simpa [Step, apply, hr] using h
      cases refresh_cases i hr
      case inl h => exact .shown rfl h.left (hs ▸ h.right)
      case inr h =>
        have ⟨entry, r⟩ := h
        exact .reaped rfl hr (hs ▸ r)
  case fork pgid =>
    have ⟨hl, hs⟩ := Option.ite_none_right_eq_some.mp h
    exact .moves rfl trivial (Option.some.inj hs) ⟨fun _ => hl, id, rfl, rfl⟩
  case exitLeader pgid =>
    have ⟨hl, hs⟩ := Option.ite_none_right_eq_some.mp h
    exact .moves rfl trivial (Option.some.inj hs) ⟨by simp [hl], by simp, rfl, rfl⟩
  case exitDescendant pgid =>
    have ⟨hl, hs⟩ := Option.ite_none_right_eq_some.mp h
    exact .moves rfl trivial (Option.some.inj hs) ⟨by simp [hl], id, rfl, rfl⟩

theorem Inv.step (i : Inv s) (h : Step s a s') : Inv s' := by
  cases effect_of_step i h
  case dropped d          => exact i.dropped d
  case started hp hu d st => exact (i.dropped d).started hp (d.isUnused ▸ hu) st
  case shown h            => exact i.shown h
  case reaped r           => exact i.reaped r
  case moves he m         => exact he ▸ i.moves m

theorem Kept.step (k : Kept s) (i : Inv s) (hs : Survived s a) (h : Step s a s') : Kept s' := by
  cases effect_of_step i h
  case dropped d    => exact k.dropped i d
  case started d st => exact (k.dropped i d).started st d.entry (i.dropped d)
  case shown h      => exact k.shown h
  case moves he m   => exact he ▸ k.moves m
  case reaped he hr r =>
    subst he
    exact k.reaped r (hs _ _ _ hr r.found r.pgid r.leader)

theorem not_kept (i : Inv s) (hs : ¬Survived s a) (h : Step s a s') : ¬Kept s' := by
  cases effect_of_step i h
  case dropped he _       => exact absurd (survived_of_ends he) hs
  case started he _ _ _ _ => exact absurd (survived_of_ends he) hs
  case shown hn _         => exact absurd hn hs
  case moves hn _ _       => exact absurd hn hs
  case reaped he hr r =>
    subst he
    apply r.not_kept i
    intro hd
    apply hs
    intro key rest entry hr' hf _ _
    obtain ⟨rfl, rfl⟩ := List.cons.inj (hr.symm.trans hr')
    exact Option.some.inj (r.found.symm.trans hf) ▸ hd

theorem Kept.signals (k : Kept s) (i : Inv s) (he : a.ends = some key) (h : Step s a s')
    (hl : (s.groups pgid).isLive) (hk : (s.groups pgid).key = key) :
    (s'.groups pgid).signalled := by
  have hs : (s.stopped key pgid).signalled := by
    rw [stopped_signalled]
    by_cases hs : (s.groups pgid).signalled
    case pos => exact .inl hs
    case neg =>
      have ⟨entry, h, hp⟩ := k pgid hl hs
      exact .inr ⟨entry, hk ▸ h, hp ▸ i.positive pgid hl, hp⟩
  cases effect_of_step i h
  case dropped he' d =>
    obtain rfl := Option.some.inj (he.symm.trans he')
    exact d.groups ▸ hs
  case started pid _ he' _ hu d st =>
    obtain rfl := Option.some.inj (he.symm.trans he')
    have hn : pgid ≠ pid := by
      intro hn
      exact ProcessGroup.not_isLive_of_isUnused (hn ▸ hu) hl
    rw [st.groups, Function.update_of_ne hn]
    exact d.groups ▸ hs
  case shown hn _ _   => exact absurd (hn.symm.trans he) (by simp)
  case moves hn _ _ _ => exact absurd (hn.symm.trans he) (by simp)
  case reaped hr _ _  => exact absurd (hr ▸ he) (by simp [Action.ends])

theorem Inv.run (r : Run Step initial t s) : Inv s := by
  induction r
  case nil        => exact inv_initial
  case snoc hs hi => exact hi.step hs

theorem kept_of_guarded (g : Guarded (fun _ => Survived) Step initial t s) : Kept s := by
  induction g
  case nil                => exact kept_initial
  case snoc g hc hs hi    => exact hi.step (.run g.run) hc hs

end Step

-- The manager keeps hold of the groups that it has launched throughout a run exactly when no
-- snapshot comes to a leader that has exited before the last of its descendants.
theorem keepsGroups_iff (r : Run Step initial t s) :
    (∀ u v s', t = u ++ v → Run Step initial u s' → KeepsGroups s') ↔
      Guarded (fun _ => Survived) Step initial t s := by
  constructor
  case mp =>
    intro hk
    induction r
    case nil => exact .nil
    case snoc t a s s' r hs hi =>
      have g := hi fun u v s' ht => hk u (v ++ [a]) s' (by simp [ht])
      have k := (hk (t ++ [a]) [] s' (by simp) (r.snoc hs)).kept
      exact g.snoc (by_contra fun hc => not_kept (.run r) hc hs k) hs
  case mpr =>
    intro g u v s' ht r'
    have ⟨_, g'⟩ := (ht ▸ g).halt
    have k := g'.run.unique functional_step r' ▸ kept_of_guarded g'
    exact ⟨k, fun _ _ _ he h _ => k.signals (.run r') he h⟩

-- A shell that starts a server in the background.
def launchWeb : Action :=
  .launch "web" "Web" [] "npm run dev &" (some 100)

theorem keepsGroups_iff_stopped :
    let t := [launchWeb, .fork 100, .snapshot, .refresh, .exitLeader 100, .stop "web"]
    ∃ s, (s.groups 100).signalled ∧
      ((∀ u v s', t = u ++ v → Run Step initial u s' → KeepsGroups s') ↔
        Guarded (fun _ => Survived) Step initial t s) :=
  ⟨_, rfl, keepsGroups_iff (.of_foldlM rfl)⟩

-- The shell exits, the server runs on, and a snapshot forgets about it.
theorem not_keepsGroups : ¬∀ t s, Run Step initial t s → KeepsGroups s := by
  intro h
  have r : ∃ s, Run Step initial
      [launchWeb, .fork 100, .exitLeader 100, .snapshot, .refresh] s ∧
      (s.groups 100).isLive ∧ (s.groups 100).signalled = false ∧ (s.groups 100).key = str "web" ∧
      (s.entries.get? (str "web")).map ProcessEntry.pgid = some 0 :=
    ⟨_, .of_foldlM rfl, rfl, rfl, rfl, rfl⟩
  have ⟨s, r, hl, hs, hk, hp⟩ := r
  have ⟨entry, he, hg⟩ := (h _ s r).kept 100 hl (by simp [hs])
  rw [← hk, he] at hp
  simp [hg] at hp

end ProcessManager
end Droidcli.Cli
