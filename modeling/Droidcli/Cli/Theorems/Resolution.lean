import Droidcli.Cli.OsTools
import Droidcli.Reliability.Theorems.Substitution

namespace Droidcli.Cli

open Bytes Reliability

section Path

variable {host : HostState} {path : Bytes} {sep : UInt8}

theorem resolvePath_eq_nil (h : resolvePath host path = []) : path = [] := by
  rw [resolvePath, defaultBareFilenameToDesktop] at h
  split_ifs at h
  case pos => exact substituteBareDesktopToken_eq_nil h
  all_goals simp_all

theorem resolvePath_eq_self_iff (hd : host.desktopPath ≠ []) (hp : path.any isSeparator) :
    resolvePath host path = path ↔ Settled host.desktopPath path := by
  have hs : resolvePath host path = substituteBareDesktopToken path host.desktopPath :=
    if_pos (.inr (.inr (keeps_separator hp)))
  rw [hs]
  exact substituteBareDesktopToken_eq_self_iff hd

-- A word with a separator behind it and nothing else is the Desktop.
theorem substitute_desktop (hd : host.desktopPath ≠ []) (hs : isSeparator sep) :
    substituteBareDesktopToken (str "desktop" ++ [sep]) host.desktopPath =
      host.desktopPath ++ [sep] := by
  have hn : IsToken (str "desktop") sep := ⟨by decide, hs⟩
  have ⟨out, hs, he⟩ := @substituteBareDesktopToken_lead host.desktopPath [] (str "desktop") [] sep hd
    (by simp [leads]) hn
  have ho : out = [] := hs.eq fun _ hm => absurd hm not_marked_nil
  simpa [ho] using he

-- The name of a file is put behind the Desktop's path, closed by a separator.
theorem default_cases (path d : Bytes) : defaultBareFilenameToDesktop path d = path ∨
    path.any isSeparator = false ∧ ∃ closed ∈ [d, d ++ [backslash]], closed.any isSeparator ∧
      defaultBareFilenameToDesktop path d = closed ++ path := by
  rw [defaultBareFilenameToDesktop]
  by_cases h : path = [] ∨ d = [] ∨ path.any isSeparator
  case pos => exact .inl (if_pos h)
  case neg =>
    have ha : path.any isSeparator = false := by simpa using fun ha => h (.inr (.inr ha))
    refine .inr ⟨ha, ?_⟩
    rw [if_neg h]
    cases hn : d.getLast?.any isSeparator
    case false => exact ⟨d ++ [backslash], by simp, by simp [isSeparator], by simp⟩
    case true  =>
      obtain ⟨c, hc, hs⟩ : ∃ c, d.getLast? = some c ∧ isSeparator c := by
        cases hl : d.getLast? <;> simp_all
      exact ⟨d, by simp, List.any_eq_true.mpr ⟨c, List.mem_of_getLast? hc, hs⟩, by simp⟩

theorem resolvePath_idempotent (h : Clean host.desktopPath) (hd : host.desktopPath ≠ []) :
    resolvePath host (resolvePath host path) = resolvePath host path := by
  have hs : Settled host.desktopPath (substituteBareDesktopToken path host.desktopPath) :=
    h.settled_substituted hd
  have he := (substituteBareDesktopToken_eq_self_iff hd).mpr hs
  cases default_cases (substituteBareDesktopToken path host.desktopPath) host.desktopPath
  case inl hr =>
    have hr : resolvePath host path = substituteBareDesktopToken path host.desktopPath := hr
    rw [hr, resolvePath, he]
    exact hr
  case inr hr =>
    have ⟨hp, closed, hc, ha, hr⟩ := hr
    have hr : resolvePath host path = closed ++ _ := hr
    have hclosed : Settled host.desktopPath closed := by
      simp only [List.mem_cons, List.not_mem_nil, or_false] at hc
      cases hc <;> subst closed
      case inl => exact h.settled.of_append
      case inr => exact h.settled_concat
    rw [hr]
    exact (resolvePath_eq_self_iff hd (by simp [ha])).mpr (hclosed.append hp)

theorem clean_of_resolvePath_idempotent (hd : host.desktopPath ≠ [])
    (h : ∀ path, resolvePath host (resolvePath host path) = resolvePath host path) :
    Clean host.desktopPath := by
  have hs : isSeparator slash := by decide
  constructor
  case ne_dot =>
    intro hdot
    have h := h "desktop/desktop/"
    simp only [resolvePath, hdot] at h
    exact absurd h (by decide)
  case settled =>
    have hr : resolvePath host (str "desktop" ++ [slash]) = host.desktopPath ++ [slash] := by
      rw [resolvePath, substitute_desktop hd hs]
      exact if_pos (.inr (.inr (by simp [hs])))
    have h := hr ▸ h (str "desktop" ++ [slash])
    exact (resolvePath_eq_self_iff hd (by simp [hs])).mp h

end Path

section WorkDir

variable {host : HostState} {workDir : Bytes}

-- What the guards let through.
def Accepted (host : HostState) (path : Bytes) : Prop :=
  looksLikePlaceholderPath path = false ∧ looksLikeInventedDesktopPath path host.desktopPath = false

theorem resolveWorkDir_accepted (hw : workDir ≠ [])
    (h : Accepted host (substituteBareDesktopToken workDir host.desktopPath)) :
    resolveWorkDirOrDesktop host workDir = substituteBareDesktopToken workDir host.desktopPath := by
  rw [resolveWorkDirOrDesktop, if_neg hw, if_neg (by simp [h.left, h.right])]

theorem resolveWorkDir_cases : resolveWorkDirOrDesktop host workDir = host.desktopPath ∨
    workDir ≠ [] ∧ Accepted host (substituteBareDesktopToken workDir host.desktopPath) := by
  rw [resolveWorkDirOrDesktop]
  split_ifs
  case pos => exact .inl rfl
  case pos => exact .inl rfl
  case neg hw h => exact .inr ⟨hw, by simpa [Accepted] using h⟩

theorem placeholder_iff {path : Bytes} :
    looksLikePlaceholderPath path ↔ ∃ p ∈ placeholders, p <:+: lowered path := by
  simp [looksLikePlaceholderPath, contains_iff]

theorem placeholder_of_contains {path text : Bytes} (h : path <:+: text)
    (hp : looksLikePlaceholderPath path) : looksLikePlaceholderPath text :=
  have ⟨p, hm, hi⟩ := placeholder_iff.mp hp
  placeholder_iff.mpr ⟨p, hm, hi.trans (h.map toLower)⟩

-- A path in which the Desktop's has come to stand is a placeholder where that one is.
theorem substitute_of_placeholder (hp : looksLikePlaceholderPath host.desktopPath)
    (h : Accepted host (substituteBareDesktopToken workDir host.desktopPath)) :
    substituteBareDesktopToken workDir host.desktopPath = workDir := by
  cases @eq_or_contains host.desktopPath workDir
  case inl he => exact he
  case inr hi => exact absurd (placeholder_of_contains hi hp) (by simp [h.left])

theorem resolveWorkDir_desktop (hd : host.desktopPath ≠ [])
    (h : Clean host.desktopPath ∨ looksLikePlaceholderPath host.desktopPath) :
    resolveWorkDirOrDesktop host host.desktopPath = host.desktopPath := by
  cases @resolveWorkDir_cases host host.desktopPath
  case inl hr => exact hr
  case inr hr =>
    rw [resolveWorkDir_accepted hd hr.right]
    cases h
    case inl h => exact (substituteBareDesktopToken_eq_self_iff hd).mpr h.settled.of_append
    case inr h => exact substitute_of_placeholder h hr.right

theorem resolveWorkDir_idempotent (hd : host.desktopPath ≠ [])
    (h : Clean host.desktopPath ∨ looksLikePlaceholderPath host.desktopPath) :
    resolveWorkDirOrDesktop host (resolveWorkDirOrDesktop host workDir) =
      resolveWorkDirOrDesktop host workDir := by
  cases @resolveWorkDir_cases host workDir
  case inl hr => rw [hr, resolveWorkDir_desktop hd h]
  case inr hr =>
    have ha := resolveWorkDir_accepted hr.left hr.right
    cases h
    case inl h =>
      have hn : substituteBareDesktopToken workDir host.desktopPath ≠ [] :=
        fun he => hr.left (substituteBareDesktopToken_eq_nil he)
      have hs := (substituteBareDesktopToken_eq_self_iff hd).mpr
        (@Clean.settled_substituted _ workDir h hd)
      rw [ha, resolveWorkDir_accepted hn (hs.symm ▸ hr.right), hs]
    case inr h => rw [ha, substitute_of_placeholder h hr.right, ha, substitute_of_placeholder h hr.right]

-- With one of the separators behind it a path is a placeholder only if it is one without.
theorem exists_not_placeholder {d : Bytes} (h : looksLikePlaceholderPath d = false) :
    ∃ sep, isSeparator sep ∧ looksLikePlaceholderPath (d ++ [sep]) = false := by
  have hnew (sep : UInt8) (hs : isSeparator sep) (hp : looksLikePlaceholderPath (d ++ [sep])) :
      ∃ t, t ++ [sep] ∈ placeholders ∧ t <:+ lowered d := by
    obtain ⟨p, hm, hi⟩ := placeholder_iff.mp hp
    have hl : lowered (d ++ [sep]) = lowered d ++ [sep] := by
      simp [lowered, lowered_separator hs]
    cases List.infix_concat_iff.mp (hl ▸ hi)
    case inr hi => exact absurd (placeholder_iff.mpr ⟨p, hm, hi⟩) (by simp [h])
    case inl hp =>
      cases List.suffix_concat_iff.mp hp
      case inl he =>
        have hne : [] ∉ placeholders := by decide
        exact absurd (he ▸ hm) hne
      case inr ht =>
        obtain ⟨t, he, ht⟩ := ht
        exact ⟨t, he ▸ hm, ht⟩
  by_contra hall
  have hall (sep : UInt8) (hs : isSeparator sep) : looksLikePlaceholderPath (d ++ [sep]) := by
    by_contra hp
    exact hall ⟨sep, hs, by simpa using hp⟩
  obtain ⟨t, hm, ht⟩ := hnew slash (by decide) (hall slash (by decide))
  obtain ⟨t', hm', ht'⟩ := hnew backslash (by decide) (hall backslash (by decide))
  have hlast : ∀ p ∈ placeholders, (p.getLast? = some slash → p = "path/to/") ∧
      (p.getLast? = some backslash → p = "path\\to\\") := by
    decide
  have he : t ++ [slash] = str "path/to" ++ [slash] := (hlast _ hm).left (by simp)
  have he' : t' ++ [backslash] = str "path\\to" ++ [backslash] := (hlast _ hm').right (by simp)
  obtain rfl := List.append_cancel_right he
  obtain rfl := List.append_cancel_right he'
  have hp := List.suffix_of_suffix_length_le ht ht' le_rfl
  exact absurd hp (by decide)

theorem resolveWorkDir_idempotent_of_nil (hd : host.desktopPath = []) :
    resolveWorkDirOrDesktop host (resolveWorkDirOrDesktop host workDir) =
      resolveWorkDirOrDesktop host workDir := by
  simp only [resolveWorkDirOrDesktop, substituteBareDesktopToken, hd, if_true]
  split_ifs <;> simp_all

theorem clean_of_resolveWorkDir_idempotent (hd : host.desktopPath ≠ [])
    (hp : looksLikePlaceholderPath host.desktopPath = false)
    (h : ∀ workDir, resolveWorkDirOrDesktop host (resolveWorkDirOrDesktop host workDir) =
      resolveWorkDirOrDesktop host workDir) : Clean host.desktopPath := by
  constructor
  case ne_dot =>
    intro hdot
    have h := h "desktop/desktop/"
    simp only [resolveWorkDirOrDesktop, hdot] at h
    exact absurd h (by decide)
  case settled =>
    have ⟨sep, hs, hn⟩ := exists_not_placeholder hp
    have hsub := substitute_desktop hd hs
    have hi : looksLikeInventedDesktopPath (host.desktopPath ++ [sep]) host.desktopPath = false := by
      have hpre : lowered host.desktopPath <+: lowered (host.desktopPath ++ [sep]) :=
        ⟨lowered [sep], by simp [lowered]⟩
      simp [looksLikeInventedDesktopPath, hd, hpre]
    have ha : Accepted host (substituteBareDesktopToken (str "desktop" ++ [sep]) host.desktopPath) :=
      hsub ▸ ⟨hn, hi⟩
    have hr := (resolveWorkDir_accepted (by simp) ha).trans hsub
    have h := hr ▸ h (str "desktop" ++ [sep])
    cases @resolveWorkDir_cases host (host.desktopPath ++ [sep])
    case inl he => simpa using h.symm.trans he
    case inr hr' =>
      have he := (resolveWorkDir_accepted hr'.left hr'.right).symm.trans h
      exact ((substituteBareDesktopToken_eq_self_iff hd).mp he).other_separator hs

end WorkDir

section Settling

variable {host : HostState}

-- A path under the Desktop is left alone exactly if no word in it is taken for the Desktop, and a
-- second resolution changes nothing exactly if there is no such word in the Desktop's own path. For a
-- working directory the guards turn such a path down where it looks like a placeholder.
theorem resolution_settles_iff :
    (host.desktopPath ≠ [] → ∀ sep suffix, isSeparator sep →
      (resolvePath host (host.desktopPath ++ sep :: suffix) = host.desktopPath ++ sep :: suffix ↔
        Settled host.desktopPath (host.desktopPath ++ sep :: suffix))) ∧
      ((∀ path, resolvePath host (resolvePath host path) = resolvePath host path) ↔
        host.desktopPath = [] ∨ Clean host.desktopPath) ∧
      ((∀ workDir, resolveWorkDirOrDesktop host (resolveWorkDirOrDesktop host workDir) =
          resolveWorkDirOrDesktop host workDir) ↔
        host.desktopPath = [] ∨ Clean host.desktopPath ∨ looksLikePlaceholderPath host.desktopPath) := by
  refine ⟨fun hd sep suffix hs => resolvePath_eq_self_iff hd (by simp [hs]), ?_, ?_⟩
  case refine_1 =>
    by_cases hd : host.desktopPath = []
    case pos => simp [resolvePath, substituteBareDesktopToken, defaultBareFilenameToDesktop, hd]
    case neg =>
      rw [or_iff_right hd]
      exact ⟨clean_of_resolvePath_idempotent hd, fun h path => resolvePath_idempotent h hd⟩
  case refine_2 =>
    by_cases hd : host.desktopPath = []
    case pos => simp [resolveWorkDir_idempotent_of_nil hd, hd]
    case neg =>
      rw [or_iff_right hd]
      constructor
      case mpr => exact fun h workDir => resolveWorkDir_idempotent hd h
      case mp =>
        intro h
        cases hp : looksLikePlaceholderPath host.desktopPath
        case true  => exact .inr rfl
        case false => exact .inl (clean_of_resolveWorkDir_idempotent hd hp h)

def HostState.withDesktop (desktopPath : Bytes) : HostState :=
  { HostState.initial with desktopPath }

-- A folder on the Desktop with the word in its name, and a Desktop with a blank before it.
theorem not_resolution_settles :
    let host := HostState.withDesktop "C:\\Users\\me\\Desktop"
    let path := host.desktopPath ++ str "\\My Desktop\\a.txt"
    let host' := HostState.withDesktop "D:\\My Desktop"
    let path' := str "desktop/a.txt"
    resolvePath host path ≠ path ∧
      resolvePath host' (resolvePath host' path') ≠ resolvePath host' path' ∧
      resolveWorkDirOrDesktop host' (resolveWorkDirOrDesktop host' path') ≠
        resolveWorkDirOrDesktop host' path' := by
  decide +kernel

end Settling
end Droidcli.Cli
