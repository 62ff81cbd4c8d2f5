import Droidcli.Cli.CommandRunner
import Droidcli.Cli.Theorems.Launch

namespace Droidcli.Cli

open Bytes Platform

section Targets

variable {W : Type} {os : Os W} {host : HostState} {w : W} {machine : W → Lookups} {m : Lookups}
  {platform : Platform} {pathOrName args name directory : Bytes}

-- What can be launched: a path, not a bare name, to a file that is there.
def Launchable (m : Lookups) (target : Bytes) : Prop :=
  looksLikePath target ∧ m.isRegularFile target

-- A name joins a directory with a separator between them, unless the directory is no more than a
-- drive or the name is on another drive.
def Joins (platform : Platform) (directory name : Bytes) : Prop :=
  looksLikePath name ∨ directory ≠ platform.rootName directory ∧
    (platform.rootName name = [] ∨ platform.rootName name = platform.rootName directory)

-- What `std::filesystem` promises of its paths.
structure Lawful (platform : Platform) (m : Lookups) : Prop where
  file     : ¬m.isRegularFile []
  absolute : ∀ path, m.isRegularFile path →
    ∃ full, m.absolutePath path = some full ∧ Launchable m full
  join     : ∀ directory name, looksLikePath (m.join directory name) ↔ Joins platform directory name
  parent   : ∀ name, m.hasParentPath name ↔
    name.any platform.separates ∨ platform.rootName name ≠ []

-- The directory in which a name of the locations is found, and the one in which a name is found
-- on the path.
def systemHolder (platform : Platform) (m : Lookups) (name : Bytes) : Option Bytes :=
  match platform with
  | windows => ([m.systemDirectory, m.windowsDirectory].filter (· ≠ [])).find? fun directory =>
      m.isRegularFile (m.join directory name)
  | posix => none

def pathHolder (platform : Platform) (m : Lookups) (name : Bytes) : Option Bytes :=
  (platform.splitPathEnv m.pathVariable).find? fun directory =>
    platform.extensions.any fun extension => m.isRegularFile (m.join directory (name ++ extension))

-- The registry and the index name files, where it is for them to say what a name stands for; the
-- directories of the system and of the path are more than drives.
def NamesFile (platform : Platform) (m : Lookups) (host : HostState) (pathOrName : Bytes) : Prop :=
  let registered := platform.resolveAppPathsRegistry m pathOrName
  let indexed := findInstalledAppMatch host.installedApps pathOrName
  if looksLikePath pathOrName then True
  else if registered ≠ [] then Launchable m registered
  else if indexed ≠ [] then Launchable m indexed
  else
    match findKnownWindowsTarget pathOrName host.windowsLocations with
    | some entry => ∀ directory ∈ systemHolder platform m entry.pathOrName,
        Joins platform directory entry.pathOrName
    | none => pathOrName ≠ [] → platform.rootName pathOrName = [] →
        ∀ directory ∈ pathHolder platform m pathOrName, Joins platform directory pathOrName

theorem verified_eq_some_iff {candidate path : Bytes} :
    m.verified candidate = some path ↔ m.isRegularFile candidate ∧ candidate = path := by
  rw [Lookups.verified]
  split_ifs with h <;> simp [h]

theorem launchable_join_iff (hl : Lawful platform m) (hr : m.isRegularFile (m.join directory name)) :
    Launchable m (m.join directory name) ↔ Joins platform directory name := by
  rw [Launchable, hl.join, and_iff_left hr]

-- Where the name is found in a directory of the system, that is what it resolves to.
theorem resolveSystemExecutable_eq :
    platform.resolveSystemExecutable m name =
      ((systemHolder platform m name).map (m.join · name)).getD [] := by
  cases platform
  case posix => rfl
  case windows =>
    rw [Platform.resolveSystemExecutable, Lookups.resolveSystemExecutable, systemHolder]
    generalize [m.systemDirectory, m.windowsDirectory].filter (· ≠ []) = directories
    congr 1
    induction directories
    case nil => rfl
    case cons directory directories ih =>
      rw [List.findSome?_cons, List.find?_cons, Lookups.verified]
      cases m.isRegularFile (m.join directory name)
      case true  => rfl
      case false => exact ih

theorem resolveSystemExecutable_launchable_iff (hl : Lawful platform m) :
    (platform.resolveSystemExecutable m name ≠ [] →
      Launchable m (platform.resolveSystemExecutable m name)) ↔
        ∀ directory ∈ systemHolder platform m name, Joins platform directory name := by
  rw [resolveSystemExecutable_eq]
  cases hh : systemHolder platform m name
  case none => simp
  case some directory =>
    have hr : m.isRegularFile (m.join directory name) := by
      cases platform
      case windows => simpa using List.find?_some hh
      case posix   => simp [systemHolder] at hh
    have hne : m.join directory name ≠ [] := fun he => hl.file (he ▸ hr)
    simp [hne, launchable_join_iff hl hr]

-- An extension does not make a path of a name, nor does it take it to another drive.
theorem joins_extension (hn : ¬looksLikePath name) {extension : Bytes}
    (he : extension ∈ platform.extensions) :
    Joins platform directory (name ++ extension) ↔ Joins platform directory name := by
  have hsep : ∀ extension ∈ platform.extensions, ¬looksLikePath extension := by
    cases platform <;> decide
  have hcolon : ∀ extension ∈ platform.extensions, extension.head? ≠ some colon := by
    cases platform <;> decide
  have hlooks : ¬looksLikePath (name ++ extension) := by
    have := hsep extension he
    simp only [looksLikePath, List.any_append] at hn this ⊢
    simp [hn, this]
  have hroot : platform.rootName (name ++ extension) = platform.rootName name := by
    cases platform
    case posix => simp [rootName]
    case windows =>
      match name with
      | c :: d :: name => rfl
      | [c] =>
        cases extension
        case nil => rfl
        case cons d extension =>
          have hd : d ≠ colon := by simpa using hcolon _ he
          simp [rootName, hd]
      | [] =>
        have hroots : ∀ extension ∈ windows.extensions, windows.rootName extension = [] := by decide
        simpa [rootName] using hroots extension he
  rw [Joins, Joins, hroot, iff_false_intro hlooks, iff_false_intro hn]

theorem findSome_verified {directories extensions : List Bytes} {path : Bytes}
    (h : (directories.findSome? fun directory => extensions.findSome? fun extension =>
      m.verified (m.join directory (name ++ extension))) = some path) :
    ∃ directory extension, extension ∈ extensions ∧
      (directories.find? fun directory =>
        extensions.any fun extension => m.isRegularFile (m.join directory (name ++ extension))) =
          some directory ∧
      m.isRegularFile (m.join directory (name ++ extension)) ∧
      path = m.join directory (name ++ extension) := by
  induction directories
  case nil => simp at h
  case cons directory directories ih =>
    rw [List.findSome?_cons] at h
    cases hf : extensions.findSome? fun extension =>
      m.verified (m.join directory (name ++ extension))
    case some found =>
      obtain rfl : found = path := by simpa [hf] using h
      have ⟨extension, he, hv⟩ := List.exists_of_findSome?_eq_some hf
      have ⟨hr, hp⟩ := verified_eq_some_iff.mp hv
      refine ⟨directory, extension, he, ?_, hr, hp.symm⟩
      exact List.find?_cons_of_pos (List.any_eq_true.mpr ⟨extension, he, hr⟩)
    case none =>
      rw [hf] at h
      have ⟨directory', extension, he, hd, hr, hp⟩ := ih h
      refine ⟨directory', extension, he, ?_, hr, hp⟩
      rw [List.find?_cons_of_neg, hd]
      intro hany
      have ⟨extension, he, hr⟩ := List.any_eq_true.mp hany
      have hnone := List.findSome?_eq_none_iff.mp hf extension he
      exact absurd (verified_eq_some_iff.mpr ⟨hr, rfl⟩) (by simp [hnone])

theorem findSome_verified_isSome {directories extensions : List Bytes}
    (h : (directories.find? fun directory =>
      extensions.any fun extension => m.isRegularFile (m.join directory (name ++ extension))) =
        some directory) :
    (directories.findSome? fun directory => extensions.findSome? fun extension =>
      m.verified (m.join directory (name ++ extension))).isSome := by
  have hany := List.find?_some h
  have ⟨extension, he, hr⟩ := List.any_eq_true.mp hany
  rw [List.isSome_findSome?]
  refine List.any_eq_true.mpr ⟨directory, List.mem_of_find?_eq_some h, ?_⟩
  rw [List.isSome_findSome?]
  refine List.any_eq_true.mpr ⟨extension, he, ?_⟩
  rw [(verified_eq_some_iff).mpr ⟨hr, rfl⟩]
  rfl

theorem whichExecutable_launchable_iff (hl : Lawful platform m) (hn : ¬looksLikePath name)
    (hne : name ≠ []) :
    (∀ path ∈ platform.whichExecutable m name, Launchable m path) ↔
      (platform.rootName name = [] → ∀ directory ∈ pathHolder platform m name,
        Joins platform directory name) := by
  have hparent : m.hasParentPath name ↔ platform.rootName name ≠ [] := by
    have hsep : ¬name.any platform.separates := by
      cases platform
      case windows => exact hn
      case posix =>
        intro hs
        have ⟨c, hc, hs⟩ := List.any_eq_true.mp hs
        refine hn (List.any_eq_true.mpr ⟨c, hc, ?_⟩)
        simp only [separates, decide_eq_true_eq] at hs
        simp [hs, Reliability.isSeparator]
    rw [hl.parent, or_iff_right hsep]
  rw [Platform.whichExecutable, if_neg hne]
  by_cases hp : m.hasParentPath name
  case pos =>
    have hroot := hparent.mp hp
    rw [if_pos hp]
    refine iff_of_true (fun path hm => ?_) fun h => absurd h hroot
    have ⟨given, hg, hm⟩ := Option.mem_map.mp hm
    have ⟨hr, he⟩ := verified_eq_some_iff.mp hg
    have ⟨full, ha, hf⟩ := hl.absolute name hr
    rw [← hm, ← he, ha]
    exact hf
  case neg =>
    have hroot : platform.rootName name = [] := by simpa using mt hparent.mpr hp
    rw [if_neg hp]
    simp only [hroot, true_imp_iff]
    constructor
    case mp =>
      intro h directory hd
      have ⟨path, hp⟩ := Option.isSome_iff_exists.mp (findSome_verified_isSome hd)
      have ⟨directory', extension, he, hd', hr, hpath⟩ := findSome_verified hp
      obtain rfl : directory' = directory := Option.some.inj (hd'.symm.trans hd)
      exact (joins_extension hn he).mp ((launchable_join_iff hl hr).mp (hpath ▸ h path hp))
    case mpr =>
      intro h path hp
      have ⟨directory, extension, he, hd, hr, hpath⟩ := findSome_verified hp
      rw [hpath]
      exact (launchable_join_iff hl hr).mpr ((joins_extension hn he).mpr (h directory hd))

-- A name resolves to a file exactly where the tables that are trusted with it name one.
theorem resolved_launchable_iff (hl : Lawful platform (machine w)) (host : HostState)
    (pathOrName args : Bytes) :
    (∀ resolved, resolveOpenApplicationTarget (os.onPlatform platform machine) host w pathOrName args =
      .ok resolved → Launchable (machine w) resolved.target) ↔
        NamesFile platform (machine w) host pathOrName := by
  have hok : ∀ target source displayName args', (∀ resolved : ResolvedLaunchTarget,
      Except.ok (ε := Bytes) ⟨target, args', source, displayName⟩ = .ok resolved →
        Launchable (machine w) resolved.target) ↔ Launchable (machine w) target := by
    intro target source displayName args'
    constructor
    case mp  => exact fun h => h _ rfl
    case mpr => exact fun h resolved he => Except.ok.inj he ▸ h
  have herror : ∀ error : Bytes, (∀ resolved : ResolvedLaunchTarget, Except.error error = .ok resolved →
      Launchable (machine w) resolved.target) ↔ True :=
    fun _ => iff_true_intro fun _ he => by cases he
  simp only [resolveOpenApplicationTarget, NamesFile, Os.onPlatform]
  by_cases hp : looksLikePath pathOrName
  case pos =>
    by_cases hf : (machine w).isRegularFile pathOrName
    case neg => simp only [hp, hf, if_true, if_false, Bool.false_eq_true, herror]
    case pos =>
      have ⟨full, ha, hf'⟩ := hl.absolute _ hf
      simp only [hp, hf, ha, if_true, hok, Option.getD_some, iff_true]
      exact hf'
  case neg =>
    simp only [hp, if_false, Bool.false_eq_true]
    by_cases hr : platform.resolveAppPathsRegistry (machine w) pathOrName = []
    case neg => simp only [hr, ne_eq, not_false_eq_true, if_true, hok]
    case pos =>
      by_cases hi : findInstalledAppMatch host.installedApps pathOrName = []
      case neg => simp only [hr, hi, ne_eq, not_false_eq_true, not_true_eq_false, if_true, if_false, hok]
      case pos =>
        simp only [hr, hi, ne_eq, not_true_eq_false, if_false]
        cases findKnownWindowsTarget pathOrName host.windowsLocations
        case some entry =>
          dsimp only
          rw [← resolveSystemExecutable_launchable_iff hl]
          by_cases hs : platform.resolveSystemExecutable (machine w) entry.pathOrName = []
          case pos => simp only [hs, if_true, herror, ne_eq, not_true_eq_false, false_imp_iff]
          case neg => simp only [hs, if_false, hok, ne_eq, not_false_eq_true, true_imp_iff]
        case none =>
          dsimp only
          rw [← imp_congr_right (whichExecutable_launchable_iff hl hp)]
          cases hw : platform.whichExecutable (machine w) pathOrName
          case none => simp
          case some path =>
            have hne : pathOrName ≠ [] := by
              intro he
              simp [he, Platform.whichExecutable] at hw
            simp [hne]

end Targets

section Notepad

-- A machine with the editor of Windows, and nothing in its registry.
def notepadMachine : Lookups where
  readRegistryString _ _ := []
  systemDirectory := system32
  windowsDirectory := "C:\\Windows"
  pathVariable := system32
  hasParentPath name := name.any windows.separates || windows.rootName name ≠ []
  join directory name :=
    if looksLikePath name then name
    else if directory = windows.rootName directory then directory ++ name
    else if windows.rootName name ≠ [] ∧ windows.rootName name ≠ windows.rootName directory then name
    else directory ++ "\\" ++ name
  isRegularFile path := path = system32 ++ "\\notepad.exe"
  absolutePath path := some path

theorem not_looksLikePath_rootName (path : Bytes) : ¬looksLikePath (windows.rootName path) := by
  match path with
  | []  => decide
  | [_] => simp [rootName, looksLikePath]
  | c :: d :: _ =>
    have hcolon : Reliability.isSeparator colon = false := by decide
    have hslash : isDriveLetter slash = false ∧ isDriveLetter backslash = false := by decide
    rw [rootName]
    split_ifs with h
    case neg => decide
    case pos =>
      have hc : Reliability.isSeparator c = false := by
        simp only [Reliability.isSeparator, Bool.or_eq_false_iff, decide_eq_false_iff_not]
        constructor <;> rintro rfl
        · simp [hslash] at h
        · simp [hslash] at h
      simp [looksLikePath, h.right, hc, hcolon]

theorem lawful_notepadMachine : Lawful windows notepadMachine where
  file := by decide
  absolute path hr := by
    have he : path = system32 ++ "\\notepad.exe" := by simpa [notepadMachine] using hr
    exact ⟨path, rfl, he ▸ ⟨by decide, by decide⟩⟩
  join directory name := by
    have happend : ∀ a b, looksLikePath (a ++ b) ↔ looksLikePath a ∨ looksLikePath b := by
      simp [looksLikePath]
    have hsep : looksLikePath "\\" := by decide
    simp only [notepadMachine, Joins]
    split_ifs with hn hd hr
    case pos => simp [hn]
    case pos =>
      have hroot := not_looksLikePath_rootName directory
      rw [← hd] at hroot
      simp [happend, hn, hroot, ← hd]
    case pos => simp [hn, hr]
    case neg =>
      have hr : windows.rootName name = [] ∨ windows.rootName name = windows.rootName directory := by
        tauto
      simp [happend, hn, hd, hr, hsep]
  parent name := by simp [notepadMachine]

def notepadOs : Os Unit :=
  Os.idle.onPlatform windows fun _ => notepadMachine

-- The machine finds its editor on the path.
theorem resolved_launchable_iff_notepad :
    (∀ resolved, resolveOpenApplicationTarget notepadOs HostState.initial () "notepad" [] =
      .ok resolved → Launchable notepadMachine resolved.target) ↔
        NamesFile windows notepadMachine HostState.initial "notepad" :=
  @resolved_launchable_iff Unit Os.idle () (fun _ => notepadMachine) windows lawful_notepadMachine
    HostState.initial "notepad" []

-- The index only has the bare name of the editor, for which the path is not searched any more.
theorem not_resolved_launchable : ∃ resolved,
    resolveOpenApplicationTarget notepadOs calculatorHost () "notepad" [] = .ok resolved ∧
      resolved.target = "notepad.exe" ∧ ¬looksLikePath resolved.target ∧
      ¬notepadMachine.isRegularFile resolved.target := by
  exact ⟨⟨"notepad.exe", [], "installed_apps_index", []⟩, rfl, rfl, by decide, by decide⟩

end Notepad
end Droidcli.Cli
