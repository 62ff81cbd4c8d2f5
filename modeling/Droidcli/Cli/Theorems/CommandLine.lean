import Droidcli.Cli.CommandRunner

namespace Droidcli.Cli

open Bytes Platform Words

variable {reserves : Bytes → Bool} {platform : Platform} {pathOrName args a b : Bytes}

-- The program that runs is the path, with the words of the arguments behind it.
def LaunchesPath (reserves : Bytes → Bool) (platform : Platform) (pathOrName args : Bytes) : Prop :=
  platform.words reserves (platform.commandLine pathOrName args) =
    literal pathOrName :: platform.argumentWords args

-- The path reaches the interpreter whole, and the shell leaves it as it is.
def Untouched (reserves : Bytes → Bool) (platform : Platform) (pathOrName : Bytes) : Prop :=
  nul ∉ pathOrName ∧ (platform = posix → Named reserves pathOrName)

theorem cstr_append_of_mem (h : nul ∈ a) : cstr (a ++ b) = cstr a := by
  have ⟨s, t, he, hs⟩ := List.eq_append_cons_of_mem h
  rw [he, List.append_assoc, cstr_append hs, cstr_append hs, List.cons_append]
  rfl

theorem cstr_space : cstr (space :: args) = space :: cstr args :=
  rfl

theorem length_cstr_lt (h : nul ∈ a) : (cstr a).length < a.length := by
  have hp : cstr a <+: a := List.takeWhile_prefix _
  refine Nat.lt_of_le_of_ne hp.length_le fun he => nul_not_mem_cstr (s := a) ?_
  rwa [hp.eq_of_length he]

theorem launchesPath_windows_iff (hq : quote ∉ pathOrName) :
    LaunchesPath reserves windows pathOrName args ↔ nul ∉ pathOrName := by
  rw [LaunchesPath, commandLine, Platform.words]
  by_cases hn : nul ∈ pathOrName
  case pos =>
    refine iff_of_false (fun h => ?_) (not_not.mpr hn)
    have hmem : nul ∈ quote :: pathOrName := List.mem_cons_of_mem _ hn
    have hcut : quote ∉ cstr pathOrName := fun hm => hq ((List.takeWhile_prefix _).subset hm)
    have hp : ∀ c ∈ cstr pathOrName, decide (c ≠ quote) = true :=
      fun c hc => decide_eq_true fun he => hcut (he ▸ hc)
    have hline : cstr (quote :: pathOrName) = quote :: cstr pathOrName := rfl
    have htake : (cstr pathOrName).takeWhile (· ≠ quote) = cstr pathOrName :=
      List.takeWhile_eq_self_iff.mpr hp
    rw [List.append_assoc, cstr_append_of_mem hmem, hline, processWords, if_pos rfl, htake] at h
    have he := literal_inj (List.cons.inj h).left
    exact nul_not_mem_cstr (s := pathOrName) (he.symm ▸ hn)
  case neg =>
    refine iff_of_true ?_ hn
    have hquote : nul ≠ quote := by decide
    have hprogram : nul ∉ quote :: pathOrName ++ [quote] := by simp [hquote, hn]
    rw [cstr_append hprogram]
    split_ifs with ha
    case pos =>
      have := @processWords_quoted pathOrName [] hq
      simpa [ha, cstr, Platform.argumentWords] using congrArg (List.map literal) this
    case neg =>
      have := @processWords_quoted pathOrName (space :: cstr args) hq
      rw [argumentWords_space] at this
      simpa [cstr_space, Platform.argumentWords] using congrArg (List.map literal) this

-- What the shell is given, behind a path that reaches it whole.
def shellLine (pathOrName args : Bytes) : Bytes :=
  pathOrName ++ if args = [] then [] else space :: cstr args

theorem launchesPath_posix_iff (hn : nul ∉ pathOrName) :
    LaunchesPath reserves posix pathOrName args ↔
      commandWords reserves (shellLine pathOrName args) =
        literal pathOrName :: shellWords (cstr args) := by
  rw [LaunchesPath, commandLine, Platform.words, cstr_append hn, shellLine]
  split_ifs <;> rfl

theorem not_launchesPath_posix_of_nul (hn : nul ∈ pathOrName) :
    ¬LaunchesPath reserves posix pathOrName args := by
  intro h
  rw [LaunchesPath, commandLine, Platform.words, cstr_append_of_mem hn] at h
  have hle := length_le_of_commandWords h
  have hlt := length_cstr_lt hn
  omega

theorem head_shellLine (he : pathOrName ≠ []) :
    (shellLine pathOrName args).head? = pathOrName.head? :=
  List.head?_append_of_ne_nil _ he

-- Behind a path that closes its quotations the words are those of the arguments in any case.
theorem shellTokens_shellLine (hc : args ≠ [] → Closed pathOrName) :
    shellTokens (shellLine pathOrName args) = shellTokens pathOrName ++ shellTokens (cstr args) := by
  rw [shellLine]
  split_ifs with ha
  case pos =>
    rw [ha, List.append_nil]
    exact (List.append_nil _).symm
  case neg => exact Scanner.shellTokens_append (hc ha)

theorem launchesPath_posix_of_named (hn : nul ∉ pathOrName) (h : Named reserves pathOrName) :
    LaunchesPath reserves posix pathOrName args := by
  rw [launchesPath_posix_iff hn]
  refine h.commandWords (head_shellLine h.ne_nil) ?_
  rw [shellTokens_shellLine fun _ => h.closed, h.shellTokens, List.singleton_append]

theorem named_of_launchesPath (he : pathOrName ≠ []) (hn : nul ∉ pathOrName)
    (hm : (Scanner.init.run pathOrName).mode ≠ .escaped) (hc : args ≠ [] → Closed pathOrName)
    (h : LaunchesPath reserves posix pathOrName args) : Named reserves pathOrName :=
  named_of_commandWords he hm (head_shellLine he) (shellTokens_shellLine hc)
    ((launchesPath_posix_iff hn).mp h)

theorem named_of_forall_launchesPath (he : pathOrName ≠ []) (hn : nul ∉ pathOrName)
    (h : ∀ args, LaunchesPath reserves posix pathOrName args) : Named reserves pathOrName := by
  refine named_of_launchesPath he hn (fun hm => ?_) (absurd rfl) (h [])
  have hnone : commandWords reserves (shellLine pathOrName []) =
      literal pathOrName :: (shellTokens (cstr [])).map Token.unquote :=
    (launchesPath_posix_iff hn).mp (h [])
  have hone : commandWords reserves (pathOrName ++ str " x") =
      literal pathOrName :: shellWords (str "x") := (launchesPath_posix_iff hn).mp (h "x")
  have ⟨hw, _⟩ := shellWords_of_commandWords (head_shellLine he)
    (shellTokens_shellLine (absurd rfl)) hnone
  have hlen : (shellTokens pathOrName).length = 1 := by
    simpa [shellWords] using congrArg List.length hw
  have hle := @length_commandWords_le reserves (pathOrName ++ str " x")
  have hx : (shellWords (str "x")).length = 1 := by decide
  rw [length_shellTokens_escaped hm, hlen, hone] at hle
  simp [hx] at hle

-- The path that runs is the one that is resolved, for all arguments, exactly if nothing in it is
-- special and it is no word of the shell. Only a path that leaves a quotation open might run as it
-- is with arguments of some kind.
theorem launchesPath_iff (ha : platform.accepts pathOrName)
    (hq : platform = windows → quote ∉ pathOrName) :
    ((∀ args, LaunchesPath reserves platform pathOrName args) ↔
        Untouched reserves platform pathOrName) ∧
      ∀ args, (platform = posix → Closed pathOrName) →
        (LaunchesPath reserves platform pathOrName args ↔ Untouched reserves platform pathOrName) := by
  cases platform
  case windows =>
    have h (args : Bytes) := @launchesPath_windows_iff reserves pathOrName args (hq rfl)
    simp [h, Untouched]
  case posix =>
    have he : pathOrName ≠ [] := by simpa [accepts] using ha
    by_cases hn : nul ∈ pathOrName
    case pos =>
      have hno (args : Bytes) := @not_launchesPath_posix_of_nul reserves pathOrName args hn
      simp [hno, Untouched, hn]
    case neg =>
      have hu : Untouched reserves posix pathOrName ↔ Named reserves pathOrName := by
        simp [Untouched, hn]
      rw [hu]
      refine ⟨⟨named_of_forall_launchesPath he hn, ?_⟩, fun args hc => ⟨?_, ?_⟩⟩
      case refine_1 => exact fun hv args => launchesPath_posix_of_named hn hv
      case refine_2 =>
        have hm : (Scanner.init.run pathOrName).mode ≠ .escaped := by
          rw [hc rfl]
          nofun
        exact named_of_launchesPath he hn hm fun _ => hc rfl
      case refine_3 => exact launchesPath_posix_of_named hn

-- The words that a shell may know beyond those of the standard.
def reservesFunction (text : Bytes) : Bool :=
  text = "function"

theorem launchesPath_iff_firefox :
    ((∀ args, LaunchesPath reservesFunction posix "/usr/bin/firefox" args) ↔
        Untouched reservesFunction posix "/usr/bin/firefox") ∧
      ∀ args, (posix = posix → Closed "/usr/bin/firefox") →
        (LaunchesPath reservesFunction posix "/usr/bin/firefox" args ↔
          Untouched reservesFunction posix "/usr/bin/firefox") :=
  @launchesPath_iff reservesFunction posix "/usr/bin/firefox" (by decide) nofun

-- The blank in the path of the program that was approved ends the word.
theorem not_launchesPath : posix.accepts "/opt/My App/run" ∧
    posix.words (fun _ => false) (posix.commandLine "/opt/My App/run" []) =
      [literal "/opt/My", literal "App/run"] ∧
    ¬LaunchesPath (fun _ => false) posix "/opt/My App/run" [] := by
  have hw : posix.words (fun _ => false) (posix.commandLine "/opt/My App/run" []) =
      [literal "/opt/My", literal "App/run"] := by decide +kernel
  refine ⟨by decide, hw, fun h => ?_⟩
  rw [LaunchesPath, hw] at h
  exact absurd (literal_inj (List.cons.inj h).left) (by decide)

end Droidcli.Cli
