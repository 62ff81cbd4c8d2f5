import Droidcli.Ai.Theorems.Splitting
import Droidcli.Cli.Tui

namespace Droidcli.Cli.Tui

open Bytes Net Json App Ai

-- The depth of the splitter behind a text, when between two objects it is zero. It stops at
-- anything else than another object.
def scan : Nat → Bytes → Option Nat
  | depth, [] => some depth
  | 0, c :: s => if isJsonGap c then scan 0 s else if c = lbrace then scan 1 s else none
  | depth + 1, c :: s =>
    scan (if c = lbrace then depth + 2 else if c = rbrace then depth else depth + 1) s

section Scan

variable {depth depth' : Nat} {s t gap : Bytes} {c : UInt8}

theorem scan_gap (hg : isJsonGap c) : scan 0 (c :: s) = scan 0 s := by
  simp [scan, hg]

theorem scan_lbrace : scan 0 (lbrace :: s) = scan 1 s := by
  rw [scan, if_neg (by decide), if_pos rfl]

theorem scan_stop (hg : ¬isJsonGap c) (hc : c ≠ lbrace) : scan 0 (c :: s) = none := by
  simp [scan, hg, hc]

theorem scan_through (h : openBraces depth s = some depth') (hd : 1 ≤ depth) :
    scan depth (s ++ t) = scan depth' t := by
  induction s generalizing depth
  case nil => rw [Option.some.inj h]; rfl
  case cons c s hi =>
    have ⟨d, hd⟩ : ∃ d, depth = d + 1 := ⟨depth - 1, by omega⟩
    subst hd
    rw [openBraces] at h
    rw [List.cons_append, scan]
    split_ifs at h with hn hl hr
    case pos => rw [if_pos hl]; exact hi h (by omega)
    case pos =>
      have hd : d ≠ 0 := fun he => hn ⟨hr, by rw [he]⟩
      rw [if_neg hl, if_pos hr]
      exact hi h (by omega)
    case neg => rw [if_neg hl, if_neg hr]; exact hi h (by omega)

theorem scan_closing (h : openBraces depth s = some 1) (hd : 1 ≤ depth) :
    scan depth (s ++ rbrace :: t) = scan 0 t := by
  rw [scan_through h hd]
  rfl

end Scan

section Tasks

-- What must be within the object of a task: the strings in front of its status.
def front (task : Task) : Bytes :=
  task.id ++ task.connectorId ++ task.command ++ task.payloadJson

def trailFields (task : Task) : List (Bytes × Field) :=
  [("error_message", .string task.errorMessage), ("result_json", .string task.resultJson)]

-- The rest of the text of a task, behind all that a row is made of.
def trail (task : Task) : Bytes :=
  members (trailFields task) ++ [rbrace]

-- The splitter gets to the first of the tasks with some objects open, begun in what is left of
-- another one.
def Aligned : Nat → List Task → Prop
  | _, []                 => True
  | depth, task :: tasks  =>
    ∃ d, openBraces (depth + 1) (front task) = some d ∧
      (tasks = [] ∨ openBraces d (trail task) = none ∧
        ∃ d', scan d (trail task) = some d' ∧ Aligned d' tasks)

def taskRow (task : Task) : TaskRow where
  id := task.id
  connectorId := task.connectorId
  command := task.command
  status := task.status.text
  scheduledForMs := task.scheduledForMs

-- A task of a queue, which has an id and a status. Its times are `int64_t`s.
structure Listed (task : Task) : Prop where
  id      : task.id ≠ []
  status  : task.status ≠ .unset
  inRange : task.InRange

def headFields (task : Task) : List (Bytes × Field) := [
  ("id", .string task.id),
  ("connector_id", .string task.connectorId),
  ("command", .string task.command),
  ("payload_json", .string task.payloadJson),
  ("status", .string task.status.text),
  ("created_at_ms", .int task.createdAtMs),
  ("updated_at_ms", .int task.updatedAtMs),
  ("scheduled_for_ms", .int task.scheduledForMs),
  ("recurrence_ms", .int task.recurrenceMs),
  ("run_count", .int task.runCount)
]

def taskFormat : Format Task where
  keys := taskKeys
  fields := taskFields
  keys_eq := map_fst_taskFields
  nonempty := by decide
  words := by decide
  nodup := by decide

variable {task prev : Task} {o : Bytes} {os : List Bytes}

theorem taskFields_eq : taskFields task = headFields task ++ trailFields task :=
  rfl

def headText (task : Task) : Bytes :=
  (members (headFields task)).tail

theorem members_headFields : members (headFields task) = comma :: headText task :=
  rfl

theorem body_taskFormat : taskFormat.body task ++ [rbrace] = headText task ++ trail task := by
  have hm : members (taskFields task) = members (headFields task) ++ members (trailFields task) := by
    rw [taskFields_eq, members, List.flatMap_append]
    rfl
  have hb : comma :: taskFormat.body task = comma :: (headText task ++ members (trailFields task)) := by
    rw [← Format.members_eq]
    exact hm.trans (by rw [members_headFields]; rfl)
  rw [(List.cons.inj hb).right, trail, List.append_assoc]

theorem openBraces_headText {depth : Nat} :
    openBraces depth (headText task) = openBraces depth (front task) := by
  have hw : ∀ f ∈ headFields task, Word f.1 := fun f hf =>
    taskFormat.word (e := task) f (List.mem_append_left _ hf)
  have hs : strings (headFields task) = front task ++ task.status.text := by
    simp [strings, headFields, front, Field.text]
  have hn : NoBraces task.status.text := by
    cases task.status <;> decide
  rw [← openBraces_append_noBraces (s := front task) hn, ← hs, ← openBraces_members hw,
    members_headFields, openBraces_plain (by decide) (by decide)]

def Reads (o : Bytes) (task : Task) : Prop :=
  parseTask o = some (taskRow task)

def Drops (o : Bytes) : Prop :=
  ∃ row, parseTask o = some row ∧ row.id = []

theorem rows_iff {tasks : List Task} :
    (os.mapM parseTask).map (·.filter (·.id ≠ [])) = some (tasks.map taskRow) ↔
      Yields Reads Drops os tasks ∧ ∀ task ∈ tasks, task.id ≠ [] := by
  induction os generalizing tasks
  case nil =>
    rw [yields_nil]
    cases tasks <;> simp
  case cons o os hi =>
    rw [List.mapM_cons]
    cases h : parseTask o
    case none =>
      refine iff_of_false (by simp) fun hn => ?_
      have hy := hn.left
      clear hn
      cases hy
      case drop hd _ =>
        have ⟨_, hr, _⟩ := hd
        simp [h] at hr
      case read hr _ => simp [Reads, h] at hr
    case some row =>
      by_cases hrow : row.id = []
      case pos =>
        have hd : Drops o := ⟨row, h, hrow⟩
        rw [yields_drop hd, ← hi]
        cases os.mapM parseTask <;> simp [hrow]
      case neg =>
        have hd : ¬Drops o := by
          intro ⟨row', hr, hid⟩
          rw [h] at hr
          exact hrow (Option.some.inj hr ▸ hid)
        cases tasks
        case nil =>
          refine iff_of_false ?_ fun ⟨hy, _⟩ => ?_
          case refine_1 => cases os.mapM parseTask <;> simp [hrow]
          case refine_2 => cases hy; exact hd ‹_›
        case cons task tasks =>
          have hr : Reads o task ↔ row = taskRow task := by rw [Reads, h, Option.some.injEq]
          have hid (he : row = taskRow task) : task.id ≠ [] := fun hn => hrow (he ▸ hn)
          have hi := @hi tasks
          rw [yields_cons hd, hr, List.forall_mem_cons]
          cases hx : os.mapM parseTask
          case none =>
            rw [hx] at hi
            exact iff_of_false (by simp) fun ⟨⟨_, hy⟩, _, hids⟩ => absurd (hi.mpr ⟨hy, hids⟩) (by simp)
          case some rows =>
            rw [hx] at hi
            simp only [Option.map_some, Option.some.injEq] at hi
            simp [hrow]
            grind

-- An object that is begun in the middle of a task has no identifier.
theorem absent_id (h : taskFormat.Within task o) : extractJsonStringField o "id" = [] := by
  have ⟨l, ha⟩ := h.absent
  refine stringField_absent (ha "id" (by decide) fun f hf => ?_)
  have ⟨_, hb, ho⟩ := l.other_keys
  have he : taskFields task = l.before ++ (l.key, .string (l.left ++ lbrace :: l.right)) :: l.behind :=
    l.fields_eq
  cases hbefore : l.before
  case nil =>
    rw [hbefore] at he
    have hk : str "id" = l.key := congrArg Prod.fst (List.cons.inj he).left
    exact hk ▸ (hb f hf).right
  case cons f' before =>
    rw [hbefore] at he
    have hk : ((str "id", Field.string task.id) : Bytes × Field) = f' := (List.cons.inj he).left
    have := ho f' (by simp [hbefore]) f hf
    rw [← hk] at this
    exact this.symm

theorem drops_or_not_reads (h : taskFormat.Within task o) (hd : ¬Drops o) : ¬Reads o task := by
  intro hr
  have hid := absent_id h
  refine hd ⟨taskRow task, hr, ?_⟩
  have ⟨_, _, hr⟩ := Option.bind_eq_some_iff.mp hr
  rw [← Option.some.inj hr]
  exact hid

def trailKeys : List Bytes :=
  ["error_message", "result_json"]

-- An object that is begun there has none of the members that a row is made of.
theorem inert_trail {w y key rest : Bytes} (h : trail prev = w ++ lbrace :: y) (hk : Word key)
    (hn : key ∉ trailKeys) : Inert (needle key) (lbrace :: y) rest := by
  have ⟨y', hm, hy⟩ := concat_split (by decide) h
  have hw : ∀ f ∈ trailFields prev, Word f.1 := fun f hf =>
    taskFormat.word (e := prev) f (List.mem_append_right (headFields prev) hf)
  have hkeys : ∀ f ∈ trailFields prev, f.1 ∈ trailKeys := by
    simp [trailFields, trailKeys]
  have ⟨before, k, s₁, s₂, behind, hf, _, hy'⟩ := members_split hw (.inl rfl) hm
  have hb : ∀ f ∈ behind, Word f.1 ∧ key ≠ f.1 := by
    intro f hm
    have hm : f ∈ trailFields prev := by simp [hf, hm]
    exact ⟨hw f hm, fun he => hn (he ▸ hkeys f hm)⟩
  have hl : Inert (needle key) [lbrace] (y ++ rest) := inert_of_not_mem (by decide)
  have := @inert_remainder behind key s₂ rest hk hb
  rw [hy, hy'] at hl ⊢
  exact inert_append hl (by simpa using this)

theorem drops_trail {w y : Bytes} (h : trail prev = w ++ lbrace :: y)
    (ho : o <+: lbrace :: (y ++ [rbracket, rbrace])) : Drops o := by
  have ha (key : Bytes) (hk : Word key) (hn : key ∉ trailKeys) : ¬needle key <:+: o := by
    intro hi
    have hr : Inert (needle key) [rbracket, rbrace] [] := inert_of_not_mem (by decide)
    have := inert_append (inert_trail h hk hn) hr
    exact not_infix_of_inert (by simpa using this) (by simp [needle]) (hi.trans ho.isInfix)
  have hs := intField_absent (ha "scheduled_for_ms" (by decide) (by decide))
  have hid := stringField_absent (ha "id" (by decide) (by decide))
  exact ⟨_, by rw [parseTask, hs]; rfl, hid⟩

section Step

variable {tasks : List Task} {p q : Bytes} {depth : Nat}

-- All of an entry that counts is in the object that is open when it begins.
theorem reads_head (hl : Listed task)
    (hp : ∀ key rest, Word key → key ∉ trailKeys → Inert (needle key) p rest) (rest : Bytes) :
    parseTask (p ++ (openedObject (headFields task) ++ rest)) = some (taskRow task) := by
  have hkeys : ∀ f ∈ headFields task, f.1 ∉ trailKeys := by
    have : ∀ key ∈ (taskKeys.take 10), key ∉ trailKeys := by decide
    exact fun f hf => this f.1 (List.mem_map_of_mem hf)
  have hmem {f} (hf : f ∈ headFields task) : f ∈ taskFields task :=
    taskFields_eq ▸ List.mem_append_left _ hf
  have hn : Net.Named (headFields task) := {
    words := fun f hf => taskFormat.word (e := task) f (hmem hf)
    distinct := by
      have : (taskKeys.take 10).Nodup := by decide
      exact this
    inRange := fun f hf => hl.inRange f (hmem hf)
  }
  have hr : ∀ f ∈ headFields task, f.2.ReadFrom (p ++ (openedObject (headFields task) ++ rest)) f.1 :=
    fun f hf => (openedObject_readFrom hn f hf).behind (hp f.1 _ (hn.words f hf) (hkeys f hf))
  generalize p ++ (openedObject (headFields task) ++ rest) = o at hr
  simp only [headFields, List.forall_mem_cons, Field.ReadFrom] at hr
  obtain ⟨hid, hconnector, hcommand, _, hstatus, _, _, hscheduled, _⟩ := hr
  rw [parseTask, hid, hconnector, hcommand, hstatus, hscheduled]
  rfl

theorem opened_headText (rest : Bytes) :
    lbrace :: (headText task ++ comma :: rest) = openedObject (headFields task) ++ rest :=
  openedObject_of_members (by rw [members_headFields]; rfl)

-- The strings with braces stand in front of the status.
theorem head_split {before behind : List (Bytes × Field)} {k s₁ s₂ : Bytes}
    (h : headFields task = before ++ (k, .string (s₁ ++ rbrace :: s₂)) :: behind) :
    (Word k ∧ str "status" ≠ k) ∧ ∀ f ∈ before, Word f.1 ∧ str "status" ≠ f.1 := by
  have hstatus : rbrace ∉ task.status.text := by
    cases task.status <;> decide
  have hlater : (k, Field.string (s₁ ++ rbrace :: s₂)) ∉ (headFields task).drop 4 := by
    intro hm
    have hm : k = str "status" ∧ s₁ ++ rbrace :: s₂ = task.status.text := by
      simpa [headFields] using hm
    exact hstatus (hm.right ▸ by simp)
  have hfront : ∀ f ∈ (headFields task).take 4, Word f.1 ∧ str "status" ≠ f.1 := by
    have : ∀ key ∈ taskKeys.take 4, Word key ∧ str "status" ≠ key := by decide
    exact fun f hf => this f.1 (List.mem_map_of_mem hf)
  rw [← List.take_append_drop 4 (headFields task)] at h
  obtain ⟨z, _, hz⟩ | ⟨z, hz, hk⟩ := List.append_eq_append_iff.mp h
  case inl => exact absurd (hz ▸ by simp) hlater
  case inr =>
    cases z
    case nil =>
      rw [List.nil_append] at hk
      exact absurd (hk ▸ List.mem_cons_self ..) hlater
    case cons f z =>
      have hf := (List.cons.inj hk).left
      have hk := hfront f (by simp [hz])
      rw [← hf] at hk
      exact ⟨hk, fun f hf => hfront f (by simp [hz, hf])⟩

theorem TaskStatus.text_eq_nil {status : TaskStatus} (h : status.text = []) : status = .unset := by
  revert h
  cases status <;> decide

-- A task that is cut off there loses its status.
theorem cut_status {a b : Bytes} (h : headText task = a ++ rbrace :: b)
    (hp : ∀ key rest, Word key → key ∉ trailKeys → Inert (needle key) p rest) :
    extractJsonStringField (p ++ lbrace :: (a ++ [rbrace])) "status" = [] := by
  have hw : ∀ f ∈ headFields task, Word f.1 := fun f hf =>
    taskFormat.word (e := task) f (List.mem_append_left (trailFields task) hf)
  have hm : members (headFields task) = (comma :: a) ++ rbrace :: b := by
    rw [members_headFields, h]
    rfl
  have ⟨before, k, s₁, s₂, behind, hf, ha, _⟩ := members_split hw (.inr rfl) hm
  have ⟨hk, hbefore⟩ := head_split hf
  have ho := brokenOff_brace (openedObject_of_members ha)
  have hb := @afterField_brokenOff before "status" k (s₁ ++ [rbrace]) (by decide) hk.left hk.right
    hbefore
  rw [ho, extractJsonStringField, extractJsonStringFieldFrom,
    afterField_inert (hp "status" _ (by decide) (by decide)), hb]

-- The splitter gets to a task with an object open, and the object ends within the head.
theorem not_yields_cut (hl : Listed task) (hq : lbrace :: q = p ++ [lbrace])
    (hd : openBraces 1 q = some (depth + 1))
    (hp : ∀ key rest, Word key → key ∉ trailKeys → Inert (needle key) p rest)
    (h : openBraces (depth + 1) (headText task) = none) :
    ¬Yields Reads Drops (Ai.extractJsonObjectArray
        (lbrace :: (q ++ (headText task ++ (trail task ++ taskFormat.behind tasks)))))
      (task :: tasks) := by
  obtain ⟨a, b, hab, ha⟩ := exists_closing h
  have hopen : openBraces 1 (q ++ a) = some 1 := by
    rw [openBraces_append, hd, Option.bind_some, ha]
  have hw : walkObject 1 (q ++ (headText task ++ (trail task ++ taskFormat.behind tasks))) =
      (q ++ a ++ [rbrace], b ++ trail task ++ taskFormat.behind tasks) := by
    have := walkObject_closing (t := b ++ (trail task ++ taskFormat.behind tasks)) hopen
    simpa [hab] using this
  have ht : taskFormat.text task = (lbrace :: (a ++ [rbrace])) ++ (b ++ trail task) := by
    rw [Format.text_eq, body_taskFormat, hab]
    simp
  have hlate : Format.Late taskFormat (task :: tasks)
      (b ++ trail task ++ taskFormat.behind tasks) :=
    .mk List.suffix_rfl ht (by simp)
  have hcut : ¬Reads (lbrace :: (q ++ a ++ [rbrace])) task := by
    have ho : lbrace :: (q ++ a ++ [rbrace]) = p ++ lbrace :: (a ++ [rbrace]) := by
      rw [List.append_assoc, ← List.cons_append, hq]
      simp
    intro hr
    obtain ⟨_, _, hr⟩ := Option.bind_eq_some_iff.mp hr
    have hs := congrArg TaskRow.status (Option.some.inj hr)
    exact hl.status (TaskStatus.text_eq_nil (hs.symm.trans (ho ▸ cut_status hab hp)))
  rw [extractJsonObjectArray_lbrace, hw]
  by_cases hdrops : Drops (lbrace :: (q ++ a ++ [rbrace]))
  case pos =>
    rw [yields_drop hdrops]
    exact hlate.not_yields fun _ _ => drops_or_not_reads
  case neg =>
    rw [yields_cons hdrops]
    intro hy
    exact hcut hy.left

-- The object of a task ends within its trail, or takes in the tasks behind it.
theorem yields_trail {d : Nat} (hopen : openBraces 1 (q ++ headText task) = some d)
    (hi : ∀ w u, trail task = w ++ rbrace :: u →
      (Yields Reads Drops (Ai.extractJsonObjectArray (u ++ taskFormat.behind tasks)) tasks ↔
        tasks = [] ∨ ∃ d, scan 0 u = some d ∧ Aligned d tasks)) :
    Yields Reads Drops (Ai.extractJsonObjectArray
        (walkObject d (trail task ++ taskFormat.behind tasks)).2) tasks ↔
      tasks = [] ∨ openBraces d (trail task) = none ∧
        ∃ d', scan d (trail task) = some d' ∧ Aligned d' tasks := by
  cases ht : openBraces d (trail task)
  case none =>
    obtain ⟨a, u, hau, ha⟩ := exists_closing ht
    have hwalk : walkObject d (trail task ++ taskFormat.behind tasks) =
        (a ++ [rbrace], u ++ taskFormat.behind tasks) := by
      rw [hau, List.append_assoc]
      exact walkObject_closing ha
    have hscan : scan d (trail task) = scan 0 u := by
      rw [hau]
      exact scan_closing ha (openBraces_pos hopen (Nat.le_refl 1))
    rw [hwalk, hi a u hau, hscan]
    simp
  case some d' =>
    have hy : openBraces 1 (q ++ headText task ++ trail task) ≠ none := by
      rw [openBraces_append, hopen, Option.bind_some, ht]
      simp
    have hlate := (@Format.late_of_open _ taskFormat tasks _) hy
    rw [List.append_assoc, walkObject_through hopen] at hlate
    dsimp only at hlate
    rcases hlate with hn | hl
    case inl => simp [hn, extractJsonObjectArray_nil, yields_nil]
    case inr =>
      obtain ⟨_, _, he⟩ := hl.exists_cons
      refine iff_of_false (hl.not_yields fun _ _ => drops_or_not_reads) ?_
      simp [he]

-- The splitter gets to a task with an object open.
theorem step (hl : Listed task) (hq : lbrace :: q = p ++ [lbrace])
    (hd : openBraces 1 q = some (depth + 1))
    (hp : ∀ key rest, Word key → key ∉ trailKeys → Inert (needle key) p rest)
    (hi : ∀ w u, trail task = w ++ rbrace :: u →
      (Yields Reads Drops (Ai.extractJsonObjectArray (u ++ taskFormat.behind tasks)) tasks ↔
        tasks = [] ∨ ∃ d, scan 0 u = some d ∧ Aligned d tasks)) :
    Yields Reads Drops (Ai.extractJsonObjectArray
        (lbrace :: (q ++ (headText task ++ (trail task ++ taskFormat.behind tasks)))))
      (task :: tasks) ↔ Aligned depth (task :: tasks) := by
  cases h : openBraces (depth + 1) (headText task)
  case none =>
    refine iff_of_false (not_yields_cut hl hq hd hp h) ?_
    rintro ⟨d, hd, _⟩
    rw [openBraces_headText, hd] at h
    contradiction
  case some d =>
    have hopen : openBraces 1 (q ++ headText task) = some d := by
      rw [openBraces_append, hd, Option.bind_some, h]
    have htrail : trail task = comma :: (trail task).tail := rfl
    obtain ⟨r, hr⟩ : ∃ r, (walkObject d (trail task ++ taskFormat.behind tasks)).1 = comma :: r := by
      rw [htrail, List.cons_append, walkObject, if_neg (fun hn => absurd hn.left (by decide))]
      exact ⟨_, rfl⟩
    have hreads := reads_head hl hp r
    have hdrops : ¬Drops (p ++ (openedObject (headFields task) ++ r)) := by
      rintro ⟨row, hrow, hid⟩
      rw [hreads] at hrow
      exact hl.id ((congrArg TaskRow.id (Option.some.inj hrow)).trans hid)
    have ho : lbrace :: (q ++ headText task ++ comma :: r) =
        p ++ (openedObject (headFields task) ++ r) := by
      rw [← opened_headText, List.append_assoc, ← List.cons_append, hq]
      simp
    have hopened : Aligned depth (task :: tasks) ↔ tasks = [] ∨ openBraces d (trail task) = none ∧
        ∃ d', scan d (trail task) = some d' ∧ Aligned d' tasks := by
      rw [Aligned, ← openBraces_headText, h]
      simp
    rw [extractJsonObjectArray_lbrace, ← List.append_assoc q, walkObject_through hopen, hr, ho,
      yields_cons hdrops, Reads, and_iff_right hreads, hopened]
    exact yields_trail hopen hi

end Step

-- Behind the row of a task the splitter drops what it finds in the rest of it. That is up to an
-- object that is still open at the end, or to where it stops.
theorem trail_scan {tasks : List Task} {w u tail : Bytes} {P : Nat → Prop} (h : trail prev = w ++ u)
    (hend : Yields Reads Drops (Ai.extractJsonObjectArray tail) tasks ↔ P 0)
    (hopen : ∀ w y d, trail prev = w ++ lbrace :: y → openBraces 1 y = some d →
      (Yields Reads Drops (Ai.extractJsonObjectArray (lbrace :: (y ++ tail))) tasks ↔ P d)) :
    Yields Reads Drops (Ai.extractJsonObjectArray (u ++ tail)) tasks ↔
      scan 0 u = none ∧ tasks = [] ∨ ∃ d, scan 0 u = some d ∧ P d := by
  induction hn : u.length using Nat.strong_induction_on generalizing w u
  case h n hi =>
    cases u
    case nil => simpa [scan] using hend
    case cons c u =>
      by_cases hg : isJsonGap c
      case pos =>
        have hgap := (@extractJsonObjectArray_gap (u ++ tail) [c]) (by simpa using hg)
        rw [List.singleton_append] at hgap
        rw [List.cons_append, hgap, scan_gap hg]
        exact hi u.length (by simp [← hn]) (w := w ++ [c]) (by simp [h]) rfl
      case neg =>
        by_cases hc : c = lbrace
        case neg =>
          rw [List.cons_append, extractJsonObjectArray_end hg hc, scan_stop hg hc, yields_nil]
          simp
        case pos =>
          subst hc
          rw [scan_lbrace]
          cases ho : openBraces 1 u
          case some d =>
            have hs : scan 1 u = some d := by
              have := @scan_through 1 d u [] ho (Nat.le_refl 1)
              rw [List.append_nil] at this
              rw [this, scan]
            rw [List.cons_append, hopen w u d h ho, hs]
            simp
          case none =>
            have ⟨a, b, hab, ha⟩ := exists_closing ho
            have hdrops : Drops (lbrace :: (a ++ [rbrace])) :=
              drops_trail h (by simp [hab])
            have hw : walkObject 1 (u ++ tail) = (a ++ [rbrace], b ++ tail) := by
              rw [hab, List.append_assoc]
              exact walkObject_closing ha
            rw [List.cons_append, extractJsonObjectArray_lbrace, hw, yields_drop hdrops, hab,
              scan_closing ha (Nat.le_refl 1)]
            refine hi b.length ?_ (w := w ++ lbrace :: (a ++ [rbrace])) (by simp [h, hab]) rfl
            simp [← hn, hab]
            omega

theorem behind_taskFormat (tasks : List Task) : taskFormat.behind (task :: tasks) =
    comma :: lbrace :: (headText task ++ (trail task ++ taskFormat.behind tasks)) := by
  have := congrArg (· ++ taskFormat.behind tasks) (@body_taskFormat task)
  simp only [List.append_assoc, List.cons_append, List.nil_append] at this
  rw [Format.behind_cons, this]

theorem trail_iff {tasks : List Task} (hl : ∀ task ∈ tasks, Listed task) {w u : Bytes}
    (h : trail prev = w ++ u) :
    Yields Reads Drops (Ai.extractJsonObjectArray (u ++ taskFormat.behind tasks)) tasks ↔
      tasks = [] ∨ ∃ d, scan 0 u = some d ∧ Aligned d tasks := by
  induction tasks generalizing prev w u
  case nil =>
    have hy (w y : Bytes) (d : Nat) (hy : trail prev = w ++ lbrace :: y)
        (ho : openBraces 1 y = some d) :
        Yields Reads Drops (Ai.extractJsonObjectArray (lbrace :: (y ++ taskFormat.behind []))) [] := by
      have hlate := (@Format.late_of_open _ taskFormat [] y) (by simp [ho])
      have hw : (walkObject 1 (y ++ taskFormat.behind [])).2 = [] := by
        refine hlate.elim id fun hl => ?_
        have ⟨_, _, he⟩ := hl.exists_cons
        contradiction
      have hp : (walkObject 1 (y ++ taskFormat.behind [])).1 <+: y ++ [rbracket, rbrace] :=
        ⟨_, walkObject_append 1 _⟩
      rw [extractJsonObjectArray_lbrace, hw, yields_drop (drops_trail hy (by simpa using hp))]
      exact yields_nil.mpr rfl
    rw [trail_scan (P := fun _ => True) h]
    case hend  => exact iff_of_true (taskFormat.objects_nil ▸ yields_nil.mpr rfl) trivial
    case hopen => exact fun w y d h ho => iff_of_true (hy w y d h ho) trivial
    cases scan 0 u <;> simp
  case cons task tasks hi =>
    have ⟨ht, hl⟩ := List.forall_mem_cons.mp hl
    have hi (w u : Bytes) (h : trail task = w ++ rbrace :: u) := @hi task hl (w ++ [rbrace]) u
      (by simp [h])
    rw [trail_scan (P := fun d => Aligned d (task :: tasks)) h]
    case hend =>
      rw [behind_taskFormat, extractJsonObjectArray_comma]
      exact step (q := []) (p := []) ht rfl rfl (fun _ _ _ _ => inert_nil) hi
    case hopen =>
      intro w y d hy ho
      have hq : openBraces 1 (y ++ [comma, lbrace]) = some (d + 1) := by
        rw [openBraces_append, ho, Option.bind_some, openBraces_plain (by decide) (by decide),
          openBraces_lbrace]
        rfl
      have hp (key rest : Bytes) (hk : Word key) (hn : key ∉ trailKeys) :
          Inert (needle key) (lbrace :: y ++ [comma]) rest :=
        inert_append (inert_trail hy hk hn) (inert_of_not_mem (by decide))
      have := step (q := y ++ [comma, lbrace]) (p := lbrace :: y ++ [comma]) ht (by simp) hq hp hi
      rw [behind_taskFormat]
      simpa using this
    simp

-- The rows of a listing are the tasks exactly when the splitter gets to each of them.
theorem parseTasks_iff {tasks : List Task} (hl : ∀ task ∈ tasks, Listed task) :
    parseTasks (buildTasksJson tasks) = some (tasks.map taskRow) ↔ Aligned 0 tasks := by
  have hids : ∀ task ∈ tasks, task.id ≠ [] := fun task ht => (hl task ht).id
  have hf : Inert (needle "tasks") (jsonBoolField "ok" true ++ [comma]) (needle "tasks") := by
    have hk : Word (str "tasks") := by decide
    have hp : Passes "tasks" [] (jsonBoolField "ok" true) :=
      passes_boolField hk (Word.plain (by decide)) true fun he => absurd he (by decide)
    have hc : Inert (pattern "tasks" []) [comma] (needle "tasks") := inert_unquoted (by decide)
    rw [needle_eq_pattern] at hc ⊢
    exact inert_append (hp _ (Follows.closing ⟨comma, by simp, rfl⟩)) hc
  have ho : extractJsonObjectArray (buildTasksJson tasks) "tasks" =
      Ai.extractJsonObjectArray (taskFormat.behind tasks) := by
    rw [← Format.objects_of_array hf, extractJsonObjectArray]
    have ht : tasks.map buildTaskJson = tasks.map taskFormat.text :=
      List.map_congr_left fun task _ => buildTaskJson_eq task
    rw [buildTasksJson, ht]
    simp
  rw [parseTasks, ho, rows_iff, and_iff_left hids]
  cases tasks
  case nil => exact iff_of_true (taskFormat.objects_nil ▸ yields_nil.mpr rfl) trivial
  case cons task tasks =>
    have ⟨ht, hl⟩ := List.forall_mem_cons.mp hl
    rw [behind_taskFormat, extractJsonObjectArray_comma]
    exact step (q := []) (p := []) ht rfl rfl (fun _ _ _ _ => inert_nil) fun w u h =>
      @trail_iff task _ hl (w ++ [rbrace]) u (by simp [h])

end Tasks
end Droidcli.Cli.Tui
