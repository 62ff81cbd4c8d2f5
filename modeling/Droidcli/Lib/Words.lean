import Droidcli.Lib.Bytes

-- How the interpreters of command lines split them into words: the POSIX shell, with its quotations
-- and operators, and the rules by which a Windows program finds its arguments.
namespace Words

open Bytes

abbrev hash   : UInt8 := 0x23
abbrev squote : UInt8 := 0x27
abbrev equals : UInt8 := 0x3d
abbrev tilde  : UInt8 := 0x7e

def blanks : Bytes :=
  [space, tab]

-- A character of a word that stands for itself, by itself or as it is quoted, or one that the shell
-- puts something else for.
inductive Piece
  | plain (c : UInt8)
  | quoted (c : UInt8)
  | active (c : UInt8)
  deriving DecidableEq

namespace Piece

def stands : Piece → Bool
  | plain _ | quoted _ => true
  | active _           => false

def unquote : Piece → Piece
  | quoted c => plain c
  | piece    => piece

-- The character, if nothing has been made of it yet.
def bare? : Piece → Option UInt8
  | plain c => some c
  | _       => none

end Piece

-- A word that the shell takes for one of its own is none of a command.
inductive Token
  | word (pieces : List Piece)
  | operator (c : UInt8)
  | reserved (text : Bytes)
  deriving DecidableEq

-- What is left when the quotations have been removed.
def Token.unquote : Token → Token
  | word pieces => word (pieces.map Piece.unquote)
  | token       => token

-- The word that is this text, whatever the shell knows.
def literal (text : Bytes) : Token :=
  .word (text.map .plain)

section Shell

-- The end of a line, `|`, `&`, `;`, `<`, `>` and parentheses.
def operators : Bytes :=
  [lf, 0x7c, 0x26, 0x3b, 0x3c, 0x3e, 0x28, 0x29]

-- `$` and the backquote, which are active in double quotes, too.
def expansions : Bytes :=
  [0x24, 0x60]

def patterns : Bytes :=
  [0x2a, 0x3f, lbracket]

inductive Mode
  | bare
  | escaped
  | single
  | double
  | doubleEscaped
  | comment

-- The tokens so far and the word that has been begun behind them.
structure Scanner where
  mode : Mode
  word : Option (List Piece)
  tokens : List Token

namespace Scanner

def init : Scanner :=
  ⟨.bare, none, []⟩

def switch (s : Scanner) (mode : Mode) : Scanner :=
  { s with mode := mode }

def begin (s : Scanner) : Scanner :=
  { s with word := some (s.word.getD []) }

def push (s : Scanner) (piece : Piece) : Scanner :=
  { s with word := some (s.word.getD [] ++ [piece]) }

def emit (s : Scanner) (token : Token) : Scanner :=
  { s with tokens := s.tokens ++ [token] }

def finish (s : Scanner) : Scanner :=
  { s with word := none, tokens := s.tokens ++ (s.word.map Token.word).toList }

def stepBare (s : Scanner) (c : UInt8) : Scanner :=
  if c ∈ blanks then s.finish
  else if c ∈ operators then s.finish.emit (.operator c)
  else if c = squote then s.begin.switch .single
  else if c = quote then s.begin.switch .double
  else if c = backslash then s.switch .escaped
  else if s.word.isNone ∧ c = hash then s.switch .comment
  else if c ∈ expansions ++ patterns ∨ s.word.isNone ∧ c = tilde then s.push (.active c)
  else s.push (.plain c)

def stepDouble (s : Scanner) (c : UInt8) : Scanner :=
  if c = quote then s.switch .bare
  else if c = backslash then s.switch .doubleEscaped
  else if c ∈ expansions then s.push (.active c)
  else s.push (.quoted c)

-- In double quotes a backslash is only special in front of what it takes its meaning from.
def stepDoubleEscaped (s : Scanner) (c : UInt8) : Scanner :=
  if c = lf then s.switch .double
  else if c ∈ quote :: backslash :: expansions then (s.push (.quoted c)).switch .double
  else ((s.push (.quoted backslash)).push (.quoted c)).switch .double

def step (s : Scanner) (c : UInt8) : Scanner :=
  match s.mode with
  | .bare          => s.stepBare c
  | .escaped       => if c = lf then s.switch .bare else (s.push (.quoted c)).switch .bare
  | .single        => if c = squote then s.switch .bare else s.push (.quoted c)
  | .double        => s.stepDouble c
  | .doubleEscaped => s.stepDoubleEscaped c
  | .comment       => if c = lf then (s.emit (.operator c)).switch .bare else s

def run (s : Scanner) (text : Bytes) : Scanner :=
  text.foldl step s

-- A backslash with nothing behind it stands for itself.
def close (s : Scanner) : List Token :=
  match s.mode with
  | .escaped | .doubleEscaped => (s.push (.quoted backslash)).finish.tokens
  | _                         => s.finish.tokens

end Scanner

-- The words of a text, with their quotations.
def shellTokens (text : Bytes) : List Token :=
  (Scanner.init.run text).close

def shellWords (text : Bytes) : List Token :=
  (shellTokens text).map Token.unquote

def isNameStart (c : UInt8) : Bool :=
  0x61 ≤ toLower c ∧ toLower c ≤ 0x7a ∨ c = 0x5f

def isNameChar (c : UInt8) : Bool :=
  isNameStart c ∨ 0x30 ≤ c ∧ c ≤ 0x39

-- `name=value`.
def Assigns (text : Bytes) : Prop :=
  (∃ c ∈ text.head?, isNameStart c) ∧ (text.dropWhile (isNameChar ·)).head? = some equals

instance : DecidablePred Assigns :=
  fun _ => inferInstanceAs (Decidable (_ ∧ _))

-- Only what is in front of any quotation and expansion makes a word an assignment.
def Token.isAssignment : Token → Bool
  | word pieces => Assigns ((pieces.map Piece.bare?).takeWhile Option.isSome).reduceOption
  | _           => false

def reservedWords : List Bytes :=
  ["!", "\x7b", "\x7d", "case", "do", "done", "elif", "else", "esac", "fi", "for", "if", "in", "then",
    "until", "while"]

section Command

-- What else the shell takes for something of its own at the beginning of a command.
variable (reserves : Bytes → Bool)

def Token.reserved? : Token → Option Bytes
  | word pieces => (pieces.mapM Piece.bare?).filter fun text => text ∈ reservedWords || reserves text
  | _           => none

-- A command begins with its assignments, if not with a word of the shell.
def command : List Token → List Token
  | []              => []
  | token :: tokens =>
    match token.reserved? reserves with
    | some text => .reserved text :: tokens
    | none      => (token :: tokens).dropWhile Token.isAssignment

def signs : Bytes :=
  [minus, 0x2b]

-- The words that `sh -c` finds in its argument. One that begins with a sign are options to it, and
-- there is no command.
def commandWords (text : Bytes) : List Token :=
  if ∃ c ∈ text.head?, c ∈ signs then [] else (command reserves (shellTokens text)).map Token.unquote

end Command

-- No quotation goes on behind the text.
def Closed (text : Bytes) : Prop :=
  (Scanner.init.run text).mode = .bare

-- A character that is nothing special to the shell within a word.
def Ordinary (c : UInt8) : Prop :=
  c ∉ blanks ∧ c ∉ operators ∧ c ≠ squote ∧ c ≠ quote ∧ c ≠ backslash ∧ c ∉ expansions ++ patterns

instance : DecidablePred Ordinary :=
  fun c => inferInstanceAs (Decidable (c ∉ blanks ∧ _))

-- A text that is a word as it stands.
structure Verbatim (text : Bytes) : Prop where
  ne_nil   : text ≠ []
  ordinary : ∀ c ∈ text, Ordinary c
  head     : ∀ c ∈ text.head?, c ≠ hash ∧ c ≠ tilde

-- One that is the first word of a command as it stands.
structure Named (reserves : Bytes → Bool) (text : Bytes) : Prop extends Verbatim text where
  unsigned   : ∀ c ∈ text.head?, c ∉ signs
  unassigned : ¬Assigns text
  unreserved : text ∉ reservedWords ∧ ¬reserves text

end Shell

section Arguments

inductive ArgumentMode
  | bare
  | quoted
  | closed

-- The arguments so far, the one that has been begun behind them and the backslashes behind that.
-- Behind the end of a quotation a further quote is one of the argument.
structure ArgumentScanner where
  mode : ArgumentMode
  slashes : Nat
  word : Option Bytes
  words : List Bytes

namespace ArgumentScanner

def init : ArgumentScanner :=
  ⟨.bare, 0, none, []⟩

def append (s : ArgumentScanner) (text : Bytes) : ArgumentScanner :=
  { s with slashes := 0, word := some (s.word.getD [] ++ text) }

def switch (s : ArgumentScanner) (mode : ArgumentMode) : ArgumentScanner :=
  { s with mode := mode }

-- Backslashes stand for themselves where no quote is behind them.
def flush (s : ArgumentScanner) : ArgumentScanner :=
  if s.slashes = 0 then s else s.append (List.replicate s.slashes backslash)

def finish (s : ArgumentScanner) : ArgumentScanner :=
  ⟨.bare, 0, none, s.words ++ s.flush.word.toList⟩

def stepQuote (s : ArgumentScanner) : ArgumentScanner :=
  let halved := s.append (List.replicate (s.slashes / 2) backslash)
  if s.slashes % 2 = 1 then halved.append [quote]
  else
    match s.mode with
    | .bare   => halved.switch .quoted
    | .quoted => halved.switch .closed
    | .closed => (halved.append [quote]).switch .quoted

def step (s : ArgumentScanner) (c : UInt8) : ArgumentScanner :=
  if c = quote then s.stepQuote
  else
    match s.mode with
    | .quoted =>
      if c = backslash then { s with slashes := s.slashes + 1 } else s.flush.append [c]
    | _ =>
      if c = backslash then ⟨.bare, s.slashes + 1, s.word, s.words⟩
      else if c ∈ blanks then s.finish
      else (s.flush.append [c]).switch .bare

end ArgumentScanner

def argumentWords (text : Bytes) : List Bytes :=
  (text.foldl ArgumentScanner.step .init).finish.words

-- The program comes first, up to a quote if it begins with one and up to a blank otherwise. Only in
-- the arguments behind it do backslashes count.
def processWords : Bytes → List Bytes
  | []        => []
  | c :: text =>
    if c = quote then
      text.takeWhile (· ≠ quote) :: argumentWords ((text.dropWhile (· ≠ quote)).drop 1)
    else
      (c :: text).takeWhile (· ∉ blanks) :: argumentWords ((c :: text).dropWhile (· ∉ blanks))

variable {program arguments : Bytes}

theorem argumentWords_space : argumentWords (space :: arguments) = argumentWords arguments :=
  rfl

theorem processWords_quoted (h : quote ∉ program) :
    processWords (quote :: program ++ quote :: arguments) = program :: argumentWords arguments := by
  have hp : ∀ c ∈ program, decide (c ≠ quote) = true := by
    intro c hc
    exact decide_eq_true fun he => h (he ▸ hc)
  rw [List.cons_append, processWords, if_pos rfl, List.takeWhile_append_of_pos hp,
    List.dropWhile_append_of_pos hp]
  simp

end Arguments

namespace Scanner

variable {s : Scanner} {c : UInt8} {a b text : Bytes} {tokens : List Token} {word : List Piece}

section Behind

-- The scanner with tokens before its own.
def behind (tokens : List Token) (s : Scanner) : Scanner :=
  { s with tokens := tokens ++ s.tokens }

theorem finish_behind : (s.behind tokens).finish = s.finish.behind tokens := by
  simp [finish, behind]

theorem emit_behind (token : Token) : (s.behind tokens).emit token = (s.emit token).behind tokens := by
  simp [emit, behind]

theorem step_behind : (s.behind tokens).step c = (s.step c).behind tokens := by
  have hm : (s.behind tokens).mode = s.mode := rfl
  have hw : (s.behind tokens).word = s.word := rfl
  rw [step, step, hm]
  cases s.mode
  case bare =>
    simp only [stepBare, hw, finish_behind, emit_behind]
    split_ifs <;> rfl
  case escaped       => dsimp only; split_ifs <;> rfl
  case single        => dsimp only; split_ifs <;> rfl
  case double        => simp only [stepDouble]; split_ifs <;> rfl
  case doubleEscaped => simp only [stepDoubleEscaped]; split_ifs <;> rfl
  case comment       => simp only [emit_behind]; split_ifs <;> rfl

theorem run_behind : (s.behind tokens).run text = (s.run text).behind tokens := by
  induction text generalizing s
  case nil => rfl
  case cons c text ih =>
    rw [run, List.foldl_cons, step_behind]
    exact ih

theorem close_behind : (s.behind tokens).close = tokens ++ s.close := by
  have hm : (s.behind tokens).mode = s.mode := rfl
  have hp : (s.behind tokens).push (.quoted backslash) = (s.push (.quoted backslash)).behind tokens := rfl
  rw [close, close, hm]
  cases s.mode
  all_goals
    simp only [hp, finish_behind]
    rfl

theorem run_append : s.run (a ++ b) = (s.run a).run b :=
  List.foldl_append

theorem close_bare (h : s.mode = .bare) : s.finish = init.behind s.close := by
  simp [close, h, finish, behind, init]

end Behind

-- Behind a text that closes its quotations the shell begins anew.
theorem shellTokens_append (h : Closed a) :
    shellTokens (a ++ space :: b) = shellTokens a ++ shellTokens b := by
  have hs : (init.run a).step space = init.behind (shellTokens a) := by
    rw [step, h]
    exact close_bare h
  rw [shellTokens, run_append, run, List.foldl_cons, hs]
  exact (congrArg close run_behind).trans close_behind

section Load

def plains : Token → ℕ
  | .word pieces => pieces.countP Piece.stands
  | _            => 0

-- How many characters stand for themselves so far.
def weight (s : Scanner) : ℕ :=
  (s.tokens.map plains).sum + (s.word.getD []).countP Piece.stands

@[simp] theorem mode_switch (mode : Mode) : (s.switch mode).mode = mode :=
  rfl

@[simp] theorem mode_push (piece : Piece) : (s.push piece).mode = s.mode :=
  rfl

@[simp] theorem mode_finish : s.finish.mode = s.mode :=
  rfl

@[simp] theorem mode_emit (token : Token) : (s.emit token).mode = s.mode :=
  rfl

@[simp] theorem weight_switch (mode : Mode) : (s.switch mode).weight = s.weight :=
  rfl

@[simp] theorem weight_begin : s.begin.weight = s.weight :=
  rfl

@[simp] theorem weight_finish : s.finish.weight = s.weight := by
  cases hw : s.word <;> simp [weight, finish, hw, plains]

@[simp] theorem weight_emit_operator : (s.emit (.operator c)).weight = s.weight := by
  simp [weight, emit, plains]

@[simp] theorem weight_push_plain : (s.push (.plain c)).weight = s.weight + 1 := by
  simp only [weight, push, Option.getD_some, List.countP_append, List.countP_singleton,
    Piece.stands, if_true]
  omega

@[simp] theorem weight_push_quoted : (s.push (.quoted c)).weight = s.weight + 1 := by
  simp only [weight, push, Option.getD_some, List.countP_append, List.countP_singleton,
    Piece.stands, if_true]
  omega

@[simp] theorem weight_push_active : (s.push (.active c)).weight = s.weight := by
  simp [weight, push, Piece.stands]

-- A backslash that waits for the next character may come to stand for itself, too.
def pending : Mode → ℕ
  | .escaped | .doubleEscaped => 1
  | _                         => 0

def load (s : Scanner) : ℕ :=
  s.weight + pending s.mode

theorem weight_close : (s.close.map plains).sum = s.load := by
  have hf (s : Scanner) : (s.finish.tokens.map plains).sum = s.weight := by
    rw [← weight_finish]
    rfl
  rw [close, load]
  cases s.mode <;> simp [hf, weight_push_quoted, pending]

-- Each character stands for itself at most once.
theorem load_step_le : (s.step c).load ≤ s.load + 1 := by
  rw [step]
  cases hm : s.mode
  case bare =>
    simp only [stepBare]
    split_ifs <;> simp [load, pending, hm]
  case escaped       => dsimp only; split_ifs <;> (simp [load, pending, hm]; try omega)
  case single        => dsimp only; split_ifs <;> simp [load, pending, hm]
  case double        => simp only [stepDouble]; split_ifs <;> simp [load, pending, hm]
  case doubleEscaped => simp only [stepDoubleEscaped]; split_ifs <;> (simp [load, pending, hm]; try omega)
  case comment       => dsimp only; split_ifs <;> simp [load, pending, hm]

theorem load_run_le : (s.run text).load ≤ s.load + text.length := by
  induction text generalizing s
  case nil => exact Nat.le_refl _
  case cons c text ih =>
    have h := @ih (s.step c)
    have hc := @load_step_le s c
    rw [List.length_cons]
    exact h.trans (by omega)

-- A character that may be part of a word that has been begun, or begin one.
def Fits (s : Scanner) (c : UInt8) : Prop :=
  Ordinary c ∧ (s.word = none → c ≠ hash ∧ c ≠ tilde)

theorem stepBare_of_fits (h : s.Fits c) : s.stepBare c = s.push (.plain c) := by
  have ⟨⟨hb, ho, hs, hq, he, hx⟩, hw⟩ := h
  have hhash : ¬(s.word.isNone ∧ c = hash) := fun ⟨hn, hc⟩ => (hw (Option.isNone_iff_eq_none.mp hn)).left hc
  have htilde : ¬(s.word.isNone ∧ c = tilde) := fun ⟨hn, hc⟩ => (hw (Option.isNone_iff_eq_none.mp hn)).right hc
  rw [stepBare, if_neg hb, if_neg ho, if_neg hs, if_neg hq, if_neg he, if_neg hhash,
    if_neg (not_or.mpr ⟨hx, htilde⟩)]

-- One that does not does not stand for itself, unless it is a backslash.
theorem load_stepBare_le (hm : s.mode = .bare) (hf : ¬s.Fits c) (he : c ≠ backslash) :
    (s.stepBare c).load ≤ s.load := by
  rw [stepBare]
  split_ifs
  case neg hb ho hs hq hh hx =>
    refine absurd ⟨⟨hb, ho, hs, hq, he, (not_or.mp hx).left⟩, fun hw => ⟨fun hc => ?_, fun hc => ?_⟩⟩ hf
    case refine_1 => exact hh ⟨by simp [hw], hc⟩
    case refine_2 => exact (not_or.mp hx).right ⟨by simp [hw], hc⟩
  all_goals simp [load, pending, hm]

theorem load_escaped_le (hm : s.mode = .escaped) : (s.step c).load ≤ s.load := by
  rw [step, hm]
  dsimp only
  split_ifs <;> simp [load, pending, hm]

-- A backslash is lost, unless the text ends behind it.
theorem load_run_escaped_lt (hm : s.mode = .bare)
    (hr : ((s.switch .escaped).run text).mode ≠ .escaped) :
    ((s.switch .escaped).run text).load < s.load + (text.length + 1) := by
  cases text
  case nil => exact absurd rfl hr
  case cons d text =>
    have hload : (s.switch .escaped).load = s.load + 1 := by simp [load, hm, pending]
    have hle := @load_escaped_le (s.switch .escaped) d rfl
    have hrest := @load_run_le ((s.switch .escaped).step d) text
    have hrun : (s.switch .escaped).run (d :: text) = ((s.switch .escaped).step d).run text := rfl
    rw [hrun, List.length_cons]
    omega

-- Where all characters stand for themselves, all are ordinary; only a backslash at the end might be
-- none of these.
theorem load_run_lt (hm : s.mode = .bare) (hr : (s.run text).mode ≠ .escaped) :
    (s.run text).load < s.load + text.length ∨ (∀ c ∈ text, Ordinary c) ∧
      (s.word = none → ∀ c ∈ text.head?, c ≠ hash ∧ c ≠ tilde) := by
  induction text generalizing s
  case nil => exact .inr (by simp)
  case cons c text ih =>
    have hstep : s.step c = s.stepBare c := by rw [step, hm]
    have hrun : s.run (c :: text) = (s.stepBare c).run text := by rw [run, List.foldl_cons, hstep]; rfl
    rw [hrun] at hr ⊢
    rw [List.length_cons]
    by_cases hf : s.Fits c
    case pos =>
      have hp := stepBare_of_fits hf
      have hload : (s.push (.plain c)).load = s.load + 1 := by simp [load, hm, pending]
      rw [hp] at hr ⊢
      cases @ih (s.push (.plain c)) hm hr
      case inl hlt => exact .inl (by omega)
      case inr h =>
        refine .inr ⟨List.forall_mem_cons.mpr ⟨hf.left, h.left⟩, fun hw d hd => ?_⟩
        obtain rfl : c = d := by simpa using hd
        exact hf.right hw
    case neg =>
      refine .inl ?_
      by_cases he : c = backslash
      case neg =>
        have hle := load_stepBare_le hm hf he
        have := @load_run_le (s.stepBare c) text
        omega
      case pos =>
        have hs : s.stepBare c = s.switch .escaped := by
          subst he
          rfl
        rw [hs] at hr ⊢
        exact load_run_escaped_lt hm hr

end Load

theorem run_ordinary (h : ∀ c ∈ text, Ordinary c) :
    (Scanner.mk .bare (some word) tokens).run text =
      ⟨.bare, some (word ++ text.map .plain), tokens⟩ := by
  induction text generalizing word
  case nil => simp [run]
  case cons c text ih =>
    have ⟨hc, ht⟩ := List.forall_mem_cons.mp h
    have hs : (Scanner.mk .bare (some word) tokens).step c =
        ⟨.bare, some (word ++ [.plain c]), tokens⟩ := stepBare_of_fits ⟨hc, nofun⟩
    have hrun := @ih (word ++ [.plain c]) ht
    rw [run, List.foldl_cons, hs]
    simpa [run] using hrun

theorem run_verbatim (h : Verbatim text) : init.run text = ⟨.bare, some (text.map .plain), []⟩ := by
  cases text
  case nil => exact absurd rfl h.ne_nil
  case cons c text =>
    have ⟨hc, ht⟩ := List.forall_mem_cons.mp h.ordinary
    have hs : init.step c = ⟨.bare, some [.plain c], []⟩ :=
      stepBare_of_fits ⟨hc, fun _ => h.head c rfl⟩
    rw [run, List.foldl_cons, hs]
    exact run_ordinary ht

end Scanner

section Weight

open Scanner

variable {a text : Bytes} {token : Token} {tokens rest : List Token}

theorem plains_literal (text : Bytes) : plains (literal text) = text.length := by
  have hp : (text.map Piece.plain).countP Piece.stands = (text.map Piece.plain).length :=
    List.countP_eq_length.mpr (by simp [Piece.stands])
  rw [literal, plains, hp, List.length_map]

theorem plains_unquote : plains token.unquote = plains token := by
  have hs : Piece.stands ∘ Piece.unquote = Piece.stands := by
    funext piece
    cases piece <;> rfl
  cases token
  case word pieces => simp [Token.unquote, plains, List.countP_map, hs]
  all_goals rfl

theorem sum_unquote :
    ((tokens.map Token.unquote).map plains).sum = (tokens.map plains).sum := by
  rw [List.map_map]
  exact congrArg List.sum (List.map_congr_left fun _ _ => plains_unquote)

theorem sum_shellTokens_le : ((shellTokens text).map plains).sum ≤ text.length := by
  have hload := @weight_close (init.run text)
  have hle := @load_run_le init text
  have hinit : init.load = 0 := rfl
  rw [shellTokens]
  omega

theorem unquote_literal : (literal text).unquote = literal text := by
  simp [literal, Token.unquote, Piece.unquote]

theorem literal_inj (h : literal a = literal text) : a = text := by
  have hm : a.map Piece.plain = text.map Piece.plain := Token.word.inj h
  exact List.map_injective_iff.mpr (fun _ _ he => Piece.plain.inj he) hm

end Weight

section Command

open Scanner

variable {reserves : Bytes → Bool} {a text : Bytes} {token : Token} {tokens rest : List Token}

theorem Token.isAssignment.pos (h : token.isAssignment) : 0 < plains token := by
  cases token
  case word pieces =>
    have ⟨⟨c, hc, _⟩, _⟩ := of_decide_eq_true h
    have hm := List.mem_of_mem_head? hc
    rw [List.reduceOption_mem_iff] at hm
    have ⟨piece, hp, hb⟩ := List.mem_map.mp ((List.takeWhile_prefix _).subset hm)
    refine List.countP_pos_iff.mpr ⟨piece, hp, ?_⟩
    cases piece
    case plain => rfl
    all_goals contradiction
  all_goals contradiction

-- The words of a command are its tokens, but for a word of the shell at its beginning and for
-- assignments, which take their characters with them.
theorem command_cases :
    (command reserves tokens = tokens ∧
      ∀ token ∈ tokens.head?, token.reserved? reserves = none ∧ ¬token.isAssignment) ∨
    (∃ text rest, command reserves tokens = .reserved text :: rest) ∨
    ((command reserves tokens).map plains).sum < (tokens.map plains).sum := by
  cases tokens
  case nil => exact .inl ⟨rfl, by simp⟩
  case cons token tokens =>
    rw [command]
    cases hr : token.reserved? reserves
    case some text => exact .inr (.inl ⟨text, tokens, rfl⟩)
    case none =>
      by_cases ha : token.isAssignment
      case neg =>
        refine .inl ⟨List.dropWhile_cons_of_neg ha, ?_⟩
        simpa [hr] using ha
      case pos =>
        have hpos := Token.isAssignment.pos ha
        have hle : ((tokens.dropWhile Token.isAssignment).map plains).sum ≤
            (tokens.map plains).sum :=
          ((List.dropWhile_sublist _).map plains).sum_le_sum fun _ _ => Nat.zero_le _
        refine .inr (.inr ?_)
        simp only [List.dropWhile_cons_of_pos ha, List.map_cons, List.sum_cons]
        omega

theorem length_command_le : (command reserves tokens).length ≤ tokens.length := by
  cases tokens
  case nil => exact Nat.le_refl _
  case cons token tokens =>
    rw [command]
    cases token.reserved? reserves
    case some => exact Nat.le_refl _
    case none => exact (List.dropWhile_sublist _).length_le

theorem length_commandWords_le : (commandWords reserves text).length ≤ (shellTokens text).length := by
  rw [commandWords]
  split
  case isTrue  => exact Nat.zero_le _
  case isFalse => simpa using length_command_le

theorem length_le_of_commandWords (h : commandWords reserves text = literal a :: tokens) :
    a.length ≤ text.length := by
  rw [commandWords] at h
  split at h
  case isTrue  => contradiction
  case isFalse =>
    have hle := @sum_shellTokens_le text
    have hsum := congrArg (fun tokens => (tokens.map plains).sum) h
    simp only [List.map_cons, List.sum_cons, sum_unquote, plains_literal] at hsum
    rcases @command_cases reserves (shellTokens text) with ⟨he, _⟩ | ⟨word, rest, he⟩ | hlt
    case inl =>
      rw [he] at hsum
      omega
    case inr.inl =>
      rw [he] at h
      exact absurd (List.cons.inj h).left nofun
    case inr.inr => omega

-- Where the words are as long as the tokens, nothing has been taken away.
theorem command_self (h : (command reserves tokens).map Token.unquote =
      literal text :: rest.map Token.unquote)
    (hle : (tokens.map plains).sum ≤ text.length + (rest.map plains).sum) :
    command reserves tokens = tokens ∧
      ∀ token ∈ tokens.head?, token.reserved? reserves = none ∧ ¬token.isAssignment := by
  rcases @command_cases reserves tokens with hs | ⟨word, others, hr⟩ | hlt
  case inl => exact hs
  case inr.inl =>
    rw [hr] at h
    exact absurd (List.cons.inj h).left nofun
  case inr.inr =>
    have hsum := congrArg (fun tokens => (tokens.map plains).sum) h
    simp only [List.map_cons, List.sum_cons, sum_unquote, plains_literal] at hsum
    omega

theorem isAssignment_literal : (literal text).isAssignment ↔ Assigns text := by
  have hb : ((text.map Piece.plain).map Piece.bare?).takeWhile Option.isSome = text.map some := by
    rw [List.map_map]
    exact List.takeWhile_eq_self_iff.mpr (by simp [Piece.bare?])
  have hr : (text.map some).reduceOption = text := by simp [List.reduceOption]
  rw [literal, Token.isAssignment, decide_eq_true_iff, hb, hr]

theorem reserved_literal : (literal text).reserved? reserves = none ↔
    text ∉ reservedWords ∧ ¬reserves text := by
  have hb : (text.map Piece.plain).mapM Piece.bare? = some text := by
    induction text
    case nil            => rfl
    case cons c text ih => simp [List.mapM_cons, ih, Piece.bare?]
  rw [literal, Token.reserved?, hb]
  simp

end Command

section Verbatim

variable {a b text : Bytes}

theorem Verbatim.closed (h : Verbatim text) : Closed text := by
  rw [Closed, Scanner.run_verbatim h]

theorem Verbatim.shellTokens (h : Verbatim text) : shellTokens text = [literal text] := by
  rw [Words.shellTokens, Scanner.run_verbatim h]
  rfl

-- The only texts that the shell takes for one word that is the text are those without anything
-- special to it.
theorem verbatim_of_shellWords (hn : text ≠ []) (hm : (Scanner.init.run text).mode ≠ .escaped)
    (h : shellWords text = [literal text]) : Verbatim text := by
  have hload := @Scanner.weight_close (Scanner.init.run text)
  have hsum : ((Scanner.init.run text).close.map Scanner.plains).sum = text.length := by
    have hs := congrArg (fun tokens => (tokens.map Scanner.plains).sum) h
    rw [shellWords, sum_unquote, List.map_singleton, List.sum_singleton, plains_literal] at hs
    exact hs
  rw [hsum] at hload
  cases @Scanner.load_run_lt Scanner.init text rfl hm
  case inl hlt =>
    have hinit : Scanner.init.load = 0 := rfl
    omega
  case inr h => exact ⟨hn, h.left, h.right rfl⟩

-- A backslash at the end of a text takes the blank behind it into the word.
theorem length_shellTokens_escaped (h : (Scanner.init.run a).mode = .escaped) :
    (shellTokens (a ++ str " x")).length = (shellTokens a).length := by
  generalize hs : Scanner.init.run a = s at h
  have hspace : s.step space = (s.push (.quoted space)).switch .bare := by
    rw [Scanner.step, h]
    rfl
  have hx : ((s.push (.quoted space)).switch .bare).Fits 0x78 := ⟨by decide, nofun⟩
  have hrun : Scanner.init.run (a ++ str " x") =
      ((s.push (.quoted space)).switch .bare).push (.plain 0x78) := by
    have hstr : str " x" = [space, 0x78] := rfl
    rw [Scanner.run_append, hs, hstr, Scanner.run, List.foldl_cons, hspace]
    exact Scanner.stepBare_of_fits hx
  rw [shellTokens, shellTokens, hrun, hs, Scanner.close, Scanner.close, h]
  simp [Scanner.push, Scanner.finish, Scanner.switch]

end Verbatim

section Named

variable {reserves : Bytes → Bool} {a b line text : Bytes} {tokens : List Token}

theorem Named.command (h : Named reserves text) :
    command reserves (literal text :: tokens) = literal text :: tokens := by
  rw [Words.command, reserved_literal.mpr h.unreserved]
  exact List.dropWhile_cons_of_neg (mt isAssignment_literal.mp h.unassigned)

theorem Named.commandWords (h : Named reserves text)
    (hl : line.head? = text.head?) (ht : shellTokens line = literal text :: tokens) :
    commandWords reserves line = literal text :: tokens.map Token.unquote := by
  have hs : ¬∃ c ∈ line.head?, c ∈ signs := by
    rw [hl]
    exact fun ⟨c, hc, hm⟩ => h.unsigned c hc hm
  rw [Words.commandWords, if_neg hs, ht, h.command, List.map_cons, unquote_literal]

-- If a text behind which the shell begins anew is the first word of a command, nothing of it has been
-- taken for anything else.
theorem shellWords_of_commandWords (hl : line.head? = text.head?)
    (ht : shellTokens line = shellTokens text ++ tokens)
    (h : commandWords reserves line = literal text :: tokens.map Token.unquote) :
    shellWords text = [literal text] ∧ (∀ c ∈ text.head?, c ∉ signs) ∧
      ∀ token ∈ (shellTokens line).head?, token.reserved? reserves = none ∧ ¬token.isAssignment := by
  rw [commandWords] at h
  split at h
  case isTrue     => contradiction
  case isFalse hs =>
    have hle := @sum_shellTokens_le text
    have ⟨hc, hh⟩ := command_self h (by rw [ht]; simpa using hle)
    rw [hc, ht, List.map_append] at h
    have hw := List.append_cancel_right (h.trans (List.singleton_append ..).symm)
    exact ⟨hw, fun c hc hm => hs ⟨c, hl ▸ hc, hm⟩, hh⟩

theorem named_of_commandWords (hn : text ≠ []) (hm : (Scanner.init.run text).mode ≠ .escaped)
    (hl : line.head? = text.head?) (ht : shellTokens line = shellTokens text ++ tokens)
    (h : commandWords reserves line = literal text :: tokens.map Token.unquote) :
    Named reserves text := by
  have ⟨hw, hs, hh⟩ := shellWords_of_commandWords hl ht h
  have hv := verbatim_of_shellWords hn hm hw
  rw [ht, hv.shellTokens] at hh
  have ⟨hr, ha⟩ := hh (literal text) rfl
  exact {
    hv with
    unsigned := hs
    unassigned := mt isAssignment_literal.mpr ha
    unreserved := reserved_literal.mp hr
  }

end Named
end Words
