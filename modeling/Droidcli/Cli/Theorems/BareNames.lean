import Droidcli.Cli.OsTools
import Droidcli.Cli.SystemInfo
import Droidcli.Reliability.Theorems.Substitution

namespace Droidcli.Reliability

open Bytes

variable {d text out : Bytes} {left : UInt8}

-- The last word that is taken for the Desktop, with what it becomes. Where the word is all that the
-- text begins with, so is what it becomes.
structure LastWord (d text out : Bytes) : Prop where
  found : ∃ before name sep post before', text = before ++ (name ++ sep :: post) ∧
    IsToken name sep ∧ out = before' ++ (d ++ sep :: post) ∧ (before = [] → before' = [])

theorem Substituted.eq_or_lastWord (h : Substituted d left text out) :
    out = text ∨ LastWord d text out := by
  induction h
  case nil => exact .inl rfl
  case token left name sep post result _ hn _ ih =>
    cases ih
    case inl he => exact .inr ⟨[], name, sep, post, [], rfl, hn, by simp [he], fun _ => rfl⟩
    case inr h =>
      have ⟨before, name', sep', post', before', ht, hn', ho, _⟩ := h.found
      refine .inr ⟨name ++ sep :: before, name', sep', post', d ++ sep :: before', ?_, hn', ?_, ?_⟩
      case refine_1 => simp [ht]
      case refine_2 => simp [ho]
      case refine_3 => simp
  case copy c text result _ _ ih =>
    cases ih
    case inl he => exact .inl (by rw [he])
    case inr h =>
      have ⟨before, name, sep, post, before', ht, hn, ho, _⟩ := h.found
      exact .inr ⟨c :: before, name, sep, post, c :: before', by simp [ht], hn, by simp [ho], by simp⟩

theorem substituteBareDesktopToken_eq_or_lastWord (hd : d ≠ []) :
    substituteBareDesktopToken text d = text ∨
      LastWord d text (substituteBareDesktopToken text d) := by
  cases unled_or text
  case inl hu => exact (substituteBareDesktopToken_unled hd hu).eq_or_lastWord
  case inr hl =>
    have ⟨lead, hl, name, sep, post, ht, hn⟩ := hl
    have ⟨out, hs, he⟩ := @substituteBareDesktopToken_lead d post name lead sep hd hl hn
    rw [← ht] at he
    cases hs.eq_or_lastWord
    case inl ho => exact .inr ⟨lead, name, sep, post, [], ht, hn, by simp [he, ho], fun _ => rfl⟩
    case inr h =>
      have ⟨before, name', sep', post', before', hp, hn', ho, _⟩ := h.found
      refine .inr ⟨lead ++ (name ++ sep :: before), name', sep', post', d ++ sep :: before', ?_, hn',
        ?_, ?_⟩
      case refine_1 => simp [ht, hp]
      case refine_2 => simp [he, ho]
      case refine_3 => simp

theorem LastWord.any_isSeparator (h : LastWord d text out) :
    text.any isSeparator ∧ out.any isSeparator := by
  have ⟨before, name, sep, post, before', ht, hn, ho, _⟩ := h.found
  simp [ht, ho, hn.sep]

end Droidcli.Reliability

namespace Droidcli.Cli

open Bytes Paths Reliability Platform

variable {host : HostState} {home found name : Bytes} {platform : Platform}

theorem separates_windows : windows.separates = isSeparator :=
  rfl

theorem components_desktop (behind : Bytes) (h : slash ∉ behind) :
    components posix.separates (home ++ str "/Desktop" ++ behind) =
      components posix.separates home ++ [str "Desktop" ++ behind] := by
  have hd : str "/Desktop" = slash :: str "Desktop" := rfl
  have hp : ∀ c ∈ str "Desktop" ++ behind, posix.separates c = false := by
    have hw : slash ∉ str "Desktop" := by decide
    intro c hc
    simp only [separates, decide_eq_false_iff_not]
    intro he
    exact (List.mem_append.mp (he ▸ hc)).elim hw h
  rw [hd, List.append_assoc, List.cons_append]
  have hne : str "Desktop" ++ behind ≠ [] := List.append_ne_nil_of_left_ne_nil (by decide) _
  exact components_behind hne hp (by decide)

-- A name is put behind the Desktop as far as it has no separator of its own.
theorem resolvePath_bare (hd : host.desktopPath ≠ []) (hn : name ≠ [])
    (hs : ¬name.any isSeparator) : resolvePath host name = host.desktopPath ++
      (if host.desktopPath.getLast?.any isSeparator then [] else [backslash]) ++ name := by
  have he : substituteBareDesktopToken name host.desktopPath = name :=
    (substituteBareDesktopToken_eq_or_lastWord hd).resolve_right fun h => hs h.any_isSeparator.left
  rw [resolvePath, he, defaultBareFilenameToDesktop, if_neg (by simp [hd, hn, hs])]
  cases host.desktopPath.getLast?.any isSeparator <;> rfl

theorem denotes_windows (hd : host.desktopPath ≠ []) (hn : name ≠ [])
    (hs : ∀ c ∈ name, windows.separates c = false) :
    windows.Denotes (resolvePath host name) host.desktopPath name := by
  have hback : isSeparator backslash := by decide
  rw [separates_windows] at hs
  have hany : ¬name.any isSeparator := by simpa using hs
  rw [Denotes, resolvePath_bare hd hn hany, separates_windows]
  cases hl : host.desktopPath.getLast?.any isSeparator
  case true =>
    have ⟨directory, c, he⟩ := (List.eq_nil_or_concat host.desktopPath).resolve_left hd
    have hc : isSeparator c := by simpa [he] using hl
    simpa [he] using location_behind hn hs hc
  case false =>
    have hdir : ∃ c ∈ host.desktopPath.getLast?, isSeparator c = false := by
      have ⟨c, hc⟩ := Option.ne_none_iff_exists'.mp (mt List.getLast?_eq_none_iff.mp hd)
      exact ⟨c, hc, by simpa [hc] using hl⟩
    simpa using location_joined hdir hn hs hback

section Posix

variable (hs : slash ∉ name)
include hs

-- Elsewhere the backslash does not separate the name from the Desktop.
theorem joined_apart : components posix.separates (home ++ str "/Desktop" ++ backslash :: name) ≠
    components posix.separates home ++ [str "Desktop", name] := by
  have hb : slash ∉ backslash :: name := by
    simp only [List.mem_cons, not_or]
    exact ⟨by decide, hs⟩
  have hc := @components_desktop home (backslash :: name) hb
  intro h
  rw [hc] at h
  simpa using congrArg List.length h

-- A word of the name that becomes the Desktop has the backslash behind it, too.
theorem lastWord_apart {result : Bytes} (hw : LastWord (home ++ str "/Desktop") name result) :
    components posix.separates result ≠ components posix.separates home ++ [str "Desktop", name] := by
  obtain ⟨before, word, sep, post, before', ht, hword, ho, hb⟩ := hw.found
  have hpost : slash ∉ sep :: post := fun hm => hs (by simp [ht, hm])
  have hc := @components_desktop (before' ++ home) (sep :: post) hpost
  simp only [List.append_assoc] at ho hc
  intro h
  rw [ho, hc] at h
  have hl : str "Desktop" ++ sep :: post = name := by
    simpa using congrArg List.getLast? h
  have hbefore : before = [] := by
    have hlen := congrArg List.length (hl.trans ht)
    have hdesktop : (str "Desktop").length = 7 := rfl
    simp only [List.length_append, List.length_cons, hword.length, hdesktop] at hlen
    exact List.eq_nil_of_length_eq_zero (by omega)
  rw [hb hbefore] at h
  simpa using congrArg List.length h

-- A name with a backslash of its own is not put behind the Desktop.
theorem not_denotes_posix (hd : host.desktopPath = home ++ str "/Desktop") (hn : name ≠ []) :
    ¬posix.Denotes (resolvePath host name) host.desktopPath name := by
  have hp : ∀ c ∈ name, posix.separates c = false := by
    intro c hc
    simp only [separates, decide_eq_false_iff_not]
    exact fun he => hs (he ▸ hc)
  have hne : host.desktopPath ≠ [] := hd ▸ List.append_ne_nil_of_right_ne_nil _ (by decide)
  have hdesk : components posix.separates host.desktopPath =
      components posix.separates home ++ [str "Desktop"] := by
    simpa [hd] using @components_desktop home [] (by simp)
  have hlast : host.desktopPath.getLast?.any isSeparator = false := by
    rw [hd, List.getLast?_append_of_ne_nil _ (by decide)]
    decide
  intro h
  have h := congrArg Location.components h
  simp only [location, Location.entry, hdesk, List.append_assoc, List.singleton_append] at h
  by_cases hsep : name.any isSeparator
  case neg =>
    rw [resolvePath_bare hne hn hsep, hlast, hd] at h
    exact joined_apart hs (by simpa using h)
  case pos =>
    have hany : substituteBareDesktopToken name host.desktopPath = name ∨
      LastWord host.desktopPath name (substituteBareDesktopToken name host.desktopPath) :=
        substituteBareDesktopToken_eq_or_lastWord hne
    have hr : resolvePath host name = substituteBareDesktopToken name host.desktopPath := by
      refine if_pos (.inr (.inr ?_))
      cases hany
      case inl he => rwa [he]
      case inr hw => exact hw.any_isSeparator.right
    rw [hr] at h
    cases hany
    case inl he =>
      rw [he, components_of_plain hn hp] at h
      simpa using congrArg List.length h
    case inr hw => exact lastWord_apart hs (hd ▸ hw) (hd ▸ h)

end Posix

-- A bare name is an entry of the Desktop exactly on Windows.
theorem resolvePath_denotes_iff (hd : host.desktopPath = platform.detectDesktopPath found)
    (hr : host.desktopPath ≠ []) (hn : name ≠ []) (hs : ∀ c ∈ name, platform.separates c = false) :
    platform.Denotes (resolvePath host name) host.desktopPath name ↔ platform = windows := by
  cases platform
  case windows => simpa using denotes_windows hr hn hs
  case posix =>
    have hdesk : host.desktopPath = found ++ str "/Desktop" := by
      rw [detectDesktopPath] at hd
      split_ifs at hd
      case pos => exact absurd hd hr
      case neg => exact hd
    have hslash : slash ∉ name := fun hm => absurd (hs slash hm) (by decide)
    simpa using not_denotes_posix hslash hdesk hn

def homeHost : HostState :=
  { HostState.initial with desktopPath := "/home/user/Desktop" }

def driveHost : HostState :=
  { HostState.initial with desktopPath := "C:\\Users\\user\\Desktop" }

theorem resolvePath_denotes_iff_notes :
    (windows.Denotes (resolvePath driveHost "notes.txt") driveHost.desktopPath "notes.txt" ↔
      windows = windows) ∧
    (posix.Denotes (resolvePath homeHost "notes.txt") homeHost.desktopPath "notes.txt" ↔
      posix = windows) :=
  ⟨@resolvePath_denotes_iff driveHost "C:\\Users\\user\\Desktop" "notes.txt" windows rfl (by decide)
      (by decide) (by decide),
    @resolvePath_denotes_iff homeHost "/home/user" "notes.txt" posix rfl (by decide) (by decide)
      (by decide)⟩

theorem not_resolvePath_denotes : homeHost.desktopPath = posix.detectDesktopPath "/home/user" ∧
    resolvePath homeHost "notes.txt" = "/home/user/Desktop\\notes.txt" ∧
    ¬posix.Denotes (resolvePath homeHost "notes.txt") homeHost.desktopPath "notes.txt" := by
  refine ⟨rfl, by decide +kernel, fun h => ?_⟩
  have hl := congrArg (fun l => l.components.length) h
  revert hl
  decide +kernel

end Droidcli.Cli
