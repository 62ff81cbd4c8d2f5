import Droidcli.Cli.TuiSession

namespace Droidcli.Cli.Tui

open Bytes

-- The locals of `run_tui` that have to do with the chat input, beside those of the chat.
structure ChatInput where
  tui : TuiState
  text : Bytes
  cursor : Int
  history : List Bytes
  historyCursor : Int
  historyDraft : Bytes

-- What reaches the chat input: the keys that it handles itself, the edits that are left to the
-- text field, and whatever else happens to the chat.
inductive ChatInputEvent
  | arrowUp
  | arrowDown
  | enter (blankAllowed : Bool)
  | edited (text : Bytes) (cursor : Int)
  | elsewhere (tui : TuiState)

namespace ChatInput

variable (input : ChatInput)

def start (tui : TuiState) : ChatInput where
  tui := tui
  text := []
  cursor := 0
  history := []
  historyCursor := -1
  historyDraft := []

-- `static_cast<int>` of a size.
def toInt (size : Nat) : Int :=
  (size : Int).bmod (2 ^ 32)

-- A negative index is cast to a size that is past the end. A read there is undefined.
def entryAt (index : Int) : Option Bytes :=
  if 0 ≤ index then input.history[index.toNat]? else none

def recordChatHistory (message : Bytes) : ChatInput :=
  if message = [] then input
  else if input.history.getLast? = some message then input
  else
    { input with
      history := input.history ++ [message]
      historyCursor := -1
      historyDraft := [] }

def fill (text : Bytes) : ChatInput :=
  { input with text := text, cursor := toInt text.length }

-- `Event::ArrowUp`
def pressArrowUp : Option ChatInput :=
  if input.history = [] then some input
  else
    let input :=
      if input.historyCursor = -1 then
        { input with
          historyDraft := input.text
          historyCursor := toInt input.history.length - 1 }
      else if 0 < input.historyCursor then
        { input with historyCursor := input.historyCursor - 1 }
      else input
    (input.entryAt input.historyCursor).map input.fill

-- `Event::ArrowDown`
def pressArrowDown : Option ChatInput :=
  if input.historyCursor = -1 then some input
  else
    let input := { input with historyCursor := input.historyCursor + 1 }
    if toInt input.history.length ≤ input.historyCursor then
      some <| { input with historyCursor := -1 }.fill input.historyDraft
    else (input.entryAt input.historyCursor).map input.fill

-- `Event::Return`
def pressReturn (blankAllowed : Bool) : ChatInput :=
  match input.tui.pressEnter input.text blankAllowed with
  | (_, none)       => input
  | (tui, some job) =>
    let cleared := { input with tui := tui, text := [] }
    match job with
    | .turn message _       => cleared.recordChatHistory message
    | .toolDecision _ _ _   => cleared

-- `none` where the code reads an entry that there is not.
def step : ChatInputEvent → Option ChatInput
  | .arrowUp            => input.pressArrowUp
  | .arrowDown          => input.pressArrowDown
  | .enter blankAllowed => some <| input.pressReturn blankAllowed
  | .edited text cursor => some { input with text := text, cursor := cursor }
  | .elsewhere tui      => some { input with tui := tui }

-- The message that an event sends to the agent. A reply to a proposed call is none.
def sentBy : ChatInputEvent → Option Bytes
  | .enter blankAllowed =>
    match (input.tui.pressEnter input.text blankAllowed).2 with
    | some (.turn message _) => if message = [] then none else some message
    | _                      => none
  | _                   => none

end ChatInput
end Droidcli.Cli.Tui
