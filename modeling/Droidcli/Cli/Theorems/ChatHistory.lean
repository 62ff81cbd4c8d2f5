import Droidcli.Cli.ChatHistory

namespace Droidcli.Cli.Tui.ChatInput

open Bytes Trace

variable {input input' : ChatInput} {event : ChatInputEvent} {message : Bytes}

abbrev Step (input : ChatInput) (event : ChatInputEvent) (input' : ChatInput) : Prop :=
  input.step event = some input'

theorem functional_step : Functional Step := by
  intro s e s₁ s₂ h₁ h₂
  exact Option.some.inj (h₁.symm.trans h₂)

-- The cursor points to an entry unless live text is edited, no entry repeats the one before it, and
-- no key reads past the entries.
structure WellFormed (input : ChatInput) : Prop where
  cursor : input.historyCursor = -1 ∨
    0 ≤ input.historyCursor ∧ input.historyCursor < input.history.length
  distinct : input.history.IsChain (· ≠ ·)
  reads : ∀ event, (input.step event).isSome

-- Neither looks a message up nor sends one.
def Quiet (_ : List ChatInputEvent) (input : ChatInput) (event : ChatInputEvent) : Prop :=
  event ≠ .arrowUp ∧ input.sentBy event = none

-- The first arrow up from here on brings `message` back, unless another one is sent before it.
def Recalls (message : Bytes) (input : ChatInput) : Prop :=
  ∀ t s s', Guarded Quiet Step input t s → Step s .arrowUp s' → s'.text = message

structure Navigates (input : ChatInput) (t : List ChatInputEvent) : Prop where
  wellFormed : ∀ u v s, t = u ++ v → Run Step input u s → WellFormed s
  recalls : ∀ u event v s s' message, t = u ++ event :: v →
    Run Step input u s → Step s event s' → s.sentBy event = some message → Recalls message s'

-- A message which repeats the newest entry is not sent while browsing, unless that entry is the only
-- one. A message which does not can be counted in an `int`.
def Fresh (_ : List ChatInputEvent) (input : ChatInput) (event : ChatInputEvent) : Prop :=
  ∀ message, input.sentBy event = some message →
    if input.history.getLast? = some message then
      input.historyCursor = -1 ∨ input.history.length = 1
    else input.history.length + 1 < 2 ^ 31

structure Inv (input : ChatInput) : Prop where
  cursor : input.historyCursor = -1 ∨
    0 ≤ input.historyCursor ∧ input.historyCursor < input.history.length
  distinct : input.history.IsChain (· ≠ ·)
  counted : input.history.length < 2 ^ 31

-- `message` is the newest entry, and the next arrow up goes there.
structure Poised (message : Bytes) (input : ChatInput) : Prop extends Inv input where
  newest : input.history.getLast? = some message
  outside : input.historyCursor = -1 ∨ input.history.length = 1

theorem inv_start (tui : TuiState) : Inv (start tui) where
  cursor := .inl rfl
  distinct := .nil
  counted := by simp [start]

section Cursor

theorem toInt_eq {size : Nat} (h : size < 2 ^ 31) : toInt size = size := by
  unfold toInt
  exact Int.bmod_eq_of_le (by omega) (by omega)

theorem toInt_neg {size : Nat} (h : size = 2 ^ 31) : toInt size < 0 := by
  unfold toInt
  rw [Int.bmod_def]
  omega

theorem entryAt_natCast (index : Nat) : input.entryAt index = input.history[index]? := by
  simp [entryAt]

-- Where the arrow up moves the cursor to.
def above (input : ChatInput) : Nat :=
  if input.historyCursor = -1 then input.history.length - 1
  else input.historyCursor.toNat - 1

theorem Inv.above_lt (i : Inv input) (h : input.history ≠ []) :
    input.above < input.history.length := by
  have hl := List.length_pos_iff.mpr h
  have hc := i.cursor
  rw [above]
  split <;> omega

end Cursor

section Arrows

-- An arrow moves the cursor to an entry that it shows, and leaves the entries alone.
structure Shown (index : Nat) (input input' : ChatInput) : Prop where
  history : input'.history = input.history
  cursor : input'.historyCursor = index
  text : input.history[index]? = some input'.text

theorem fill_shown {index : Nat} (hi : input.historyCursor = index)
    (h : index < input.history.length) : ∃ input',
    (input.entryAt input.historyCursor).map input.fill = some input' ∧
    Shown index input input' := by
  rw [hi, entryAt_natCast, List.getElem?_eq_getElem h]
  exact ⟨_, rfl, ⟨rfl, hi, List.getElem?_eq_getElem h⟩⟩

theorem Inv.pressArrowUp (i : Inv input) (h : input.history ≠ []) :
    ∃ input', input.pressArrowUp = some input' ∧ Shown input.above input input' := by
  have hl := List.length_pos_iff.mpr h
  have ha := i.above_lt h
  have hc := i.cursor
  rw [ChatInput.pressArrowUp, if_neg h]
  split
  case isTrue hn =>
    have ⟨_, he, hs⟩ := @fill_shown
      { input with
        historyDraft := input.text
        historyCursor := toInt input.history.length - 1 }
      input.above (by simp [above, hn, toInt_eq i.counted]; omega) ha
    exact ⟨_, he, ⟨hs.history, hs.cursor, hs.text⟩⟩
  case isFalse hn =>
    split
    case isTrue hp =>
      have ⟨_, he, hs⟩ := @fill_shown { input with historyCursor := input.historyCursor - 1 }
        input.above (by simp [above, hn]; omega) ha
      exact ⟨_, he, ⟨hs.history, hs.cursor, hs.text⟩⟩
    case isFalse hp =>
      exact fill_shown (by simp [above, hn]; omega) ha

theorem pressArrowUp_nil (h : input.history = []) : input.pressArrowUp = some input :=
  if_pos h

-- An arrow down leaves the entries or moves on to the next one.
theorem Inv.pressArrowDown (i : Inv input) :
    ∃ input', input.pressArrowDown = some input' ∧
      input'.history = input.history ∧
      (input'.historyCursor = -1 ∧ (input.historyCursor = -1 ∨
          input.historyCursor + 1 = input.history.length) ∨
        input.historyCursor ≠ -1 ∧ input.historyCursor + 1 < input.history.length ∧
          input'.historyCursor = input.historyCursor + 1) := by
  have hc := i.cursor
  rw [ChatInput.pressArrowDown]
  split
  case isTrue hn => exact ⟨_, rfl, rfl, .inl ⟨hn, .inl hn⟩⟩
  case isFalse hn =>
    simp only [toInt_eq i.counted]
    split
    case isTrue he => exact ⟨_, rfl, rfl, .inl ⟨rfl, .inr (by omega)⟩⟩
    case isFalse he =>
      have ⟨_, hf, hs⟩ := @fill_shown { input with historyCursor := input.historyCursor + 1 }
        (input.historyCursor + 1).toNat (by simp; omega) (by simp; omega)
      have hi := hs.cursor
      exact ⟨_, hf, hs.history, .inr ⟨hn, by omega, by omega⟩⟩

end Arrows

section Return

variable {blankAllowed : Bool}

-- What a return records is what it sends.
theorem pressReturn_sent (h : input.sentBy (.enter blankAllowed) = some message) :
    message ≠ [] ∧ ∃ tui, input.pressReturn blankAllowed =
      { input with tui := tui, text := [] }.recordChatHistory message := by
  rw [sentBy] at h
  rw [pressReturn]
  generalize input.tui.pressEnter input.text blankAllowed = pressed at h
  match pressed, h with
  | (tui, some (.turn m starts)), h =>
    have ⟨hm, h⟩ := Option.ite_none_left_eq_some.mp h
    exact Option.some.inj h ▸ ⟨hm, tui, rfl⟩

theorem pressReturn_quiet (h : input.sentBy (.enter blankAllowed) = none) :
    (input.pressReturn blankAllowed).history = input.history ∧
      (input.pressReturn blankAllowed).historyCursor = input.historyCursor := by
  rw [sentBy] at h
  rw [pressReturn]
  generalize input.tui.pressEnter input.text blankAllowed = pressed at h
  match pressed, h with
  | (tui, none), _                          => exact ⟨rfl, rfl⟩
  | (tui, some (.toolDecision ..)), _       => exact ⟨rfl, rfl⟩
  | (tui, some (.turn m starts)), h =>
    have hm : m = [] := by simpa using h
    simp [hm, recordChatHistory]

theorem recordChatHistory_repeated (h : input.history.getLast? = some message) :
    input.recordChatHistory message = input := by
  simp [recordChatHistory, h]

theorem recordChatHistory_new (hm : message ≠ []) (h : input.history.getLast? ≠ some message) :
    (input.recordChatHistory message).history = input.history ++ [message] ∧
      (input.recordChatHistory message).historyCursor = -1 := by
  simp [recordChatHistory, hm, h]

end Return

section Steps

-- What an event does to the entries and to the cursor.
inductive Effect (input input' : ChatInput) (event : ChatInputEvent) : Prop
  | raised : event = .arrowUp → input.history ≠ [] → Shown input.above input input' →
    Effect input input' event
  | still : event ≠ .arrowUp → input.sentBy event = none → input'.history = input.history →
    input'.historyCursor = input.historyCursor → Effect input input' event
  | empty : event = .arrowUp → input.history = [] → input' = input → Effect input input' event
  | lowered : event = .arrowDown → input'.history = input.history →
    input.historyCursor ≠ -1 → input.historyCursor + 1 < input.history.length →
    input'.historyCursor = input.historyCursor + 1 → Effect input input' event
  | left : event = .arrowDown → input'.history = input.history →
    input'.historyCursor = -1 → Effect input input' event
  | repeated (message : Bytes) : input.sentBy event = some message →
    input.history.getLast? = some message → input'.history = input.history →
    input'.historyCursor = input.historyCursor → Effect input input' event
  | recorded (message : Bytes) : input.sentBy event = some message →
    input.history.getLast? ≠ some message → input'.history = input.history ++ [message] →
    input'.historyCursor = -1 → Effect input input' event

theorem Inv.effect (i : Inv input) (h : Step input event input') :
    Effect input input' event := by
  cases event
  case arrowUp =>
    by_cases hn : input.history = []
    case pos =>
      exact .empty rfl hn (Option.some.inj ((pressArrowUp_nil hn).symm.trans h)).symm
    case neg =>
      have ⟨_, he, hs⟩ := i.pressArrowUp hn
      exact .raised rfl hn (Option.some.inj (he.symm.trans h) ▸ hs)
  case arrowDown =>
    have ⟨_, he, hh, hc⟩ := i.pressArrowDown
    obtain rfl := Option.some.inj (he.symm.trans h)
    cases hc
    case inl hc => exact .left rfl hh hc.left
    case inr hc => exact .lowered rfl hh hc.left hc.right.left hc.right.right
  case enter blankAllowed =>
    obtain rfl := Option.some.inj h
    cases hs : input.sentBy (.enter blankAllowed)
    case none =>
      have ⟨hh, hc⟩ := pressReturn_quiet hs
      exact .still (by simp) hs hh hc
    case some message =>
      have ⟨hm, tui, hr⟩ := pressReturn_sent hs
      by_cases hl : input.history.getLast? = some message
      case pos =>
        rw [hr, recordChatHistory_repeated (by exact hl)]
        exact .repeated message hs hl rfl rfl
      case neg =>
        have ⟨hh, hc⟩ := @recordChatHistory_new { input with tui := tui, text := [] } _ hm hl
        exact .recorded message hs hl (hr ▸ hh) (hr ▸ hc)
  case edited text cursor =>
    obtain rfl := Option.some.inj h
    exact .still (by simp) rfl rfl rfl
  case elsewhere tui =>
    obtain rfl := Option.some.inj h
    exact .still (by simp) rfl rfl rfl

theorem Inv.isSome (i : Inv input) (event : ChatInputEvent) : (input.step event).isSome := by
  cases event
  case arrowUp =>
    by_cases hn : input.history = []
    case pos => exact Option.isSome_of_mem (pressArrowUp_nil hn)
    case neg => exact Option.isSome_of_mem (i.pressArrowUp hn).choose_spec.left
  case arrowDown => exact Option.isSome_of_mem i.pressArrowDown.choose_spec.left
  all_goals rfl

theorem Inv.wellFormed (i : Inv input) : WellFormed input :=
  ⟨i.cursor, i.distinct, i.isSome⟩

theorem Inv.of_history (i : Inv input) (h : input'.history = input.history)
    (hc : input'.historyCursor = -1 ∨
      0 ≤ input'.historyCursor ∧ input'.historyCursor < input.history.length) : Inv input' where
  cursor := h ▸ hc
  distinct := h ▸ i.distinct
  counted := h ▸ i.counted

theorem Inv.step (i : Inv input) (hf : Fresh t input event) (h : Step input event input') :
    Inv input' := by
  cases i.effect h
  case raised _ hn hs =>
    have ha := i.above_lt hn
    exact i.of_history hs.history (.inr (by have hc := hs.cursor; omega))
  case still _ _ hh hc        => exact i.of_history hh (hc ▸ i.cursor)
  case empty _ _ he           => exact he ▸ i
  case lowered _ hh hn hl hc  => exact i.of_history hh (.inr (by have := i.cursor; omega))
  case left _ hh hc           => exact i.of_history hh (.inl hc)
  case repeated _ _ _ hh hc   => exact i.of_history hh (hc ▸ i.cursor)
  case recorded message hs hl hh hc =>
    have hb := if_neg hl ▸ hf message hs
    refine ⟨.inl hc, ?_, by rw [hh]; simpa using hb⟩
    rw [hh, List.isChain_append]
    refine ⟨i.distinct, .singleton _, ?_⟩
    intro x hx y hy
    obtain rfl := Option.some.inj hy
    intro he
    exact hl (he ▸ hx)

end Steps

section Recall

-- A message that is sent as it should be is what the next arrow up shows.
theorem Inv.poised (i : Inv input) (hf : Fresh t input event) (h : Step input event input')
    (hs : input.sentBy event = some message) : Poised message input' := by
  have i' := i.step hf h
  have hf := hf message hs
  cases i.effect h
  case raised he _ _        => simp [he, sentBy] at hs
  case still _ hs' _ _      => simp [hs'] at hs
  case empty he _ _         => simp [he, sentBy] at hs
  case lowered he _ _ _ _   => simp [he, sentBy] at hs
  case left he _ _          => simp [he, sentBy] at hs
  case repeated hs' hl hh hc =>
    obtain rfl := Option.some.inj (hs.symm.trans hs')
    rw [if_pos hl] at hf
    exact ⟨i', hh ▸ hl, hh ▸ hc ▸ hf⟩
  case recorded hs' _ hh hc =>
    obtain rfl := Option.some.inj (hs.symm.trans hs')
    exact ⟨i', by simp [hh], .inl hc⟩

theorem Poised.cursor_of_ne (p : Poised message input) (h : input.historyCursor ≠ -1) :
    input.historyCursor + 1 = input.history.length := by
  have hl := p.outside.resolve_left h
  have hc := p.cursor.resolve_left h
  omega

theorem Poised.quiet (p : Poised message input) (hq : Quiet t input event)
    (h : Step input event input') : Poised message input' := by
  have i' := p.toInv.step (t := t) (fun _ hs => by simp [hq.right] at hs) h
  cases p.toInv.effect h
  case raised he _ _          => exact absurd he hq.left
  case still _ _ hh hc        => exact ⟨i', hh ▸ p.newest, hh ▸ hc ▸ p.outside⟩
  case empty he _ _           => exact absurd he hq.left
  case lowered _ hh hn hl hc  => exact absurd (p.cursor_of_ne hn) (by omega)
  case left _ hh hc           => exact ⟨i', hh ▸ p.newest, .inl hc⟩
  case repeated hs _ _ _      => simp [hq.right] at hs
  case recorded hs _ _ _      => simp [hq.right] at hs

theorem Poised.above (p : Poised message input) : input.above = input.history.length - 1 := by
  rw [ChatInput.above]
  have hc := p.cursor
  have ho := p.outside
  split <;> omega

theorem Poised.recalls (p : Poised message input) : Recalls message input := by
  intro t s s' g h
  have p := g.invariant (I := fun _ => Poised message) p fun p hq hs => p.quiet hq hs
  cases p.toInv.effect h
  case raised _ _ hs =>
    have ht := hs.text
    rw [p.above, ← List.getLast?_eq_getElem?, p.newest] at ht
    exact (Option.some.inj ht).symm
  case still hn _ _ _       => exact absurd rfl hn
  case empty _ he _         => simpa [he] using p.newest
  case lowered he _ _ _ _   => simp at he
  case left he _ _          => simp at he
  case repeated hs _ _ _    => simp [sentBy] at hs
  case recorded hs _ _ _    => simp [sentBy] at hs

end Recall

section Forgotten

-- The cursor can be taken down to the newest entry without that one being looked up.
theorem Inv.lower (i : Inv input) (n : Nat) (hc : 0 ≤ input.historyCursor)
    (hn : input.historyCursor + n < input.history.length) :
    ∃ t s, Guarded Quiet Step input t s ∧ Inv s ∧ s.history = input.history ∧
      s.historyCursor = input.historyCursor + n := by
  induction n
  case zero => exact ⟨[], input, .nil, i, rfl, by simp⟩
  case succ n hi =>
    have ⟨t, s, g, i, hh, he⟩ := hi (by omega)
    have ⟨s', hs, hh', hd⟩ := i.pressArrowDown
    have hs : Step s .arrowDown s' := hs
    refine ⟨_, s', g.snoc ⟨by simp, rfl⟩ hs, ?_, hh'.trans hh, ?_⟩
    case refine_1 => exact i.of_history hh' (by rw [hh] at hd ⊢; omega)
    case refine_2 => rw [hh] at hd; omega

theorem Inv.not_recalls (i : Inv input) (hl : input.history.getLast? = some message)
    (hc : input.historyCursor ≠ -1) (hn : input.history.length ≠ 1) : ¬Recalls message input := by
  intro hr
  have hv := i.cursor.resolve_left hc
  have ⟨t, s, g, i', hh, he⟩ :=
    i.lower (input.history.length - 1 - input.historyCursor.toNat) hv.left (by omega)
  have ⟨s', hs, sh⟩ := i'.pressArrowUp (by intro hh'; simp [← hh, hh'] at hv; omega)
  have ha : s.above = input.history.length - 2 := by
    rw [ChatInput.above]
    split <;> omega
  have ht := sh.text
  rw [ha, hh, hr t s s' g hs, ← hl, List.getLast?_eq_getElem?] at ht
  have hd := List.isChain_iff_getElem.mp i.distinct (input.history.length - 2) (by omega)
  rw [List.getElem?_eq_getElem (by omega), List.getElem?_eq_getElem (by omega)] at ht
  apply hd
  convert Option.some.inj ht using 2
  omega

theorem not_wellFormed (hn : input.history.length = 2 ^ 31) (hc : input.historyCursor = -1) :
    ¬WellFormed input := by
  intro w
  have hp := toInt_neg hn
  have hr := w.reads .arrowUp
  rw [ChatInput.step, ChatInput.pressArrowUp, if_neg (by intro h; simp [h] at hn), if_pos hc] at hr
  simp only [entryAt, if_neg (show ¬0 ≤ toInt input.history.length - 1 by omega)] at hr
  simp at hr

theorem Inv.fresh (i : Inv input) (h : Step input event input') (w : WellFormed input')
    (hr : ∀ message, input.sentBy event = some message → Recalls message input') :
    Fresh t input event := by
  intro message hs
  split
  case isTrue hl =>
    by_contra hn
    have ⟨hc, hn⟩ := not_or.mp hn
    cases i.effect h
    case repeated _ _ hh hc' =>
      have i' := i.of_history hh (hc' ▸ i.cursor)
      exact i'.not_recalls (hh ▸ hl) (hc' ▸ hc) (hh ▸ hn) (hr message hs)
    case recorded hs' hl' _ _ => exact hl' (Option.some.inj (hs.symm.trans hs') ▸ hl)
    all_goals simp_all [sentBy]
  case isFalse hl =>
    by_contra hn
    have hc := i.counted
    cases i.effect h
    case recorded _ _ hh hc' => exact not_wellFormed (by simp [hh]; omega) hc' w
    case repeated hs' hl' _ _ => exact hl (Option.some.inj (hs.symm.trans hs') ▸ hl')
    all_goals simp_all [sentBy]

end Forgotten

theorem Inv.of_guarded {tui : TuiState} (g : Guarded Fresh Step (start tui) t input) : Inv input :=
  g.invariant (I := fun _ => Inv) (inv_start tui) fun i hf h => i.step hf h

theorem navigates_of_guarded {tui : TuiState} (g : Guarded Fresh Step (start tui) t input) :
    Navigates (start tui) t where
  wellFormed := by
    intro u v s ht r
    have ⟨_, g⟩ := (ht ▸ g).halt
    exact g.run.unique functional_step r ▸ (Inv.of_guarded g).wellFormed
  recalls := by
    intro u event v s s' message ht r h hs
    have ht : t = (u ++ [event]) ++ v := by simp [ht]
    have ⟨_, g⟩ := (ht ▸ g).halt
    have ⟨_, g, hf, _⟩ := g.snoc_inv
    obtain rfl := g.run.unique functional_step r
    exact ((Inv.of_guarded g).poised hf h hs).recalls

-- The history is browsed as it should be exactly when no message that repeats the newest of several
-- entries is sent while browsing, and no more messages are recorded than an `int` can count.
theorem navigates_iff {tui : TuiState} (r : Run Step (start tui) t input) :
    Navigates (start tui) t ↔ Guarded Fresh Step (start tui) t input := by
  constructor
  case mpr => exact navigates_of_guarded
  case mp =>
    intro n
    induction r
    case nil => exact .nil
    case snoc t event s s' r h hi =>
      have g := hi {
        wellFormed := fun u v s ht => n.wellFormed u (v ++ [event]) s (by simp [ht])
        recalls := fun u e v s s' m ht => n.recalls u e (v ++ [event]) s s' m (by simp [ht]) }
      have w := n.wellFormed _ [] s' (by simp) (r.snoc h)
      exact g.snoc ((Inv.of_guarded g).fresh h w fun m => n.recalls t event [] s s' m rfl r h) h

section Repeated

-- The TUI after the agent has answered.
def idle : TuiState :=
  .start [] [] [] []

def send (message : Bytes) : List ChatInputEvent :=
  [.edited message message.length, .enter false, .elsewhere idle]

theorem navigates_iff_sent :
    let t := send "a" ++ send "b" ++ [.arrowUp, .arrowUp, .arrowDown, .arrowDown] ++ send "b"
    ∃ s, s.history = [str "a", str "b"] ∧
      (Navigates (start idle) t ↔ Guarded Fresh Step (start idle) t s) :=
  ⟨_, rfl, navigates_iff (.of_foldlM rfl)⟩

-- The newest message is looked up and sent again. The next arrow up goes past it.
theorem not_navigates : ¬∀ tui t s, Run Step (start tui) t s → Navigates (start tui) t := by
  intro h
  have r : ∃ s s' s'', Run Step (start idle) (send "a" ++ send "b" ++ [.arrowUp]) s ∧
      s.sentBy (.enter false) = some (str "b") ∧ Step s (.enter false) s' ∧
      Step s' .arrowUp s'' ∧ s''.text = str "a" :=
    ⟨_, _, _, .of_foldlM rfl, rfl, rfl, rfl, rfl⟩
  have ⟨s, s', s'', r, hs, h₁, h₂, ht⟩ := r
  have n := h idle _ _ (r.snoc h₁)
  have he := n.recalls _ _ [] s s' _ rfl r h₁ hs [] s' s'' .nil h₂
  exact absurd (ht.symm.trans he) (by decide)

end Repeated
end Droidcli.Cli.Tui.ChatInput
