import Droidcli.Cli.AgentState
import Droidcli.Net.Theorems.RoundTrip
import Mathlib.Tactic.SplitIfs

namespace Droidcli.Cli

open Bytes Net Ai Json

variable {W : Type} {os : Os W} {host host' : HostState} {w w' : W} {path args : Bytes}

-- What a name can resolve to is the same at both moments.
structure Unchanged (os : Os W) (host host' : HostState) (w w' : W) : Prop where
  apps      : host'.installedApps = host.installedApps
  locations : host'.windowsLocations = host.windowsLocations
  registry  : ∀ name, os.resolveAppPathsRegistry name w' = os.resolveAppPathsRegistry name w
  system    : ∀ name, os.resolveSystemExecutable name w' = os.resolveSystemExecutable name w
  which     : ∀ name, os.whichExecutable name w' = os.whichExecutable name w
  files     : ∀ path, os.isRegularFile path w' = os.isRegularFile path w
  absolute  : ∀ path, os.absolutePath path w' = os.absolutePath path w

-- A path or name that is found again just as it stands: it is the absolute path of a file, or a
-- bare name that the first table to know it takes to itself.
inductive FoundAgain (os : Os W) (host : HostState) (w : W) (path args : Bytes) : Prop
  | file (hp : looksLikePath path) (hf : os.isRegularFile path w)
      (ha : os.absolutePath path w = some path)
  | registry (hp : ¬looksLikePath path) (hn : path ≠ [])
      (hr : os.resolveAppPathsRegistry path w = path)
  | index (hp : ¬looksLikePath path) (hn : path ≠ [])
      (hr : os.resolveAppPathsRegistry path w = [])
      (hi : findInstalledAppMatch host.installedApps path = path)
  | location (entry : WindowsLocationEntry) (hp : ¬looksLikePath path) (hn : path ≠ [])
      (hr : os.resolveAppPathsRegistry path w = [])
      (hi : findInstalledAppMatch host.installedApps path = [])
      (hl : findKnownWindowsTarget path host.windowsLocations = some entry)
      (hs : os.resolveSystemExecutable entry.pathOrName w = path) (ha : args = [] → entry.args = [])
  | search (hp : ¬looksLikePath path) (hn : path ≠ [])
      (hr : os.resolveAppPathsRegistry path w = [])
      (hi : findInstalledAppMatch host.installedApps path = [])
      (hl : findKnownWindowsTarget path host.windowsLocations = none)
      (hw : os.whichExecutable path w = some path)

-- What the table that knows the name of a call has for it is found again. A path stands for its
-- absolute spelling, and a location may bring its own arguments.
def StaysFound (os : Os W) (host : HostState) (w : W) (pathOrName args : Bytes) : Prop :=
  if looksLikePath pathOrName then
    ∃ path, os.absolutePath pathOrName w = some path ∧ FoundAgain os host w path args
  else if os.resolveAppPathsRegistry pathOrName w ≠ [] then
    FoundAgain os host w (os.resolveAppPathsRegistry pathOrName w) args
  else if findInstalledAppMatch host.installedApps pathOrName ≠ [] then
    FoundAgain os host w (findInstalledAppMatch host.installedApps pathOrName) args
  else
    match findKnownWindowsTarget pathOrName host.windowsLocations with
    | some entry =>
      FoundAgain os host w (os.resolveSystemExecutable entry.pathOrName w)
        (if args = [] then entry.args else args)
    | none => ∃ path, os.whichExecutable pathOrName w = some path ∧ FoundAgain os host w path args

theorem resolve_congr (h : Unchanged os host host' w w') (pathOrName args : Bytes) :
    resolveOpenApplicationTarget os host' w' pathOrName args =
      resolveOpenApplicationTarget os host w pathOrName args := by
  simp only [resolveOpenApplicationTarget, h.apps, h.locations, h.registry, h.system, h.which,
    h.files, h.absolute]

theorem FoundAgain.ne_nil (h : FoundAgain os host w path args) : path ≠ [] := by
  cases h
  case file hp _ _ =>
    intro hn
    rw [hn] at hp
    contradiction
  all_goals assumption

-- The table that has answered, with none before it that knows the name.
inductive Resolves (os : Os W) (host : HostState) (w : W) (pathOrName args : Bytes)
    (resolved : ResolvedLaunchTarget) : Prop
  | path (hp : looksLikePath pathOrName) (hf : os.isRegularFile pathOrName w)
      (he : resolved = ⟨(os.absolutePath pathOrName w).getD [], args, "given_path", []⟩)
  | registry (hp : ¬looksLikePath pathOrName) (hr : os.resolveAppPathsRegistry pathOrName w ≠ [])
      (he : resolved = ⟨os.resolveAppPathsRegistry pathOrName w, args, "app_paths_registry", []⟩)
  | index (hp : ¬looksLikePath pathOrName) (hr : os.resolveAppPathsRegistry pathOrName w = [])
      (hi : findInstalledAppMatch host.installedApps pathOrName ≠ [])
      (he : resolved =
        ⟨findInstalledAppMatch host.installedApps pathOrName, args, "installed_apps_index", []⟩)
  | location (entry : WindowsLocationEntry) (hp : ¬looksLikePath pathOrName)
      (hr : os.resolveAppPathsRegistry pathOrName w = [])
      (hi : findInstalledAppMatch host.installedApps pathOrName = [])
      (hl : findKnownWindowsTarget pathOrName host.windowsLocations = some entry)
      (he : resolved = ⟨os.resolveSystemExecutable entry.pathOrName w,
        if args = [] then entry.args else args, "windows_known_location", entry.displayName⟩)
  | search (found : Bytes) (hp : ¬looksLikePath pathOrName)
      (hr : os.resolveAppPathsRegistry pathOrName w = [])
      (hi : findInstalledAppMatch host.installedApps pathOrName = [])
      (hl : findKnownWindowsTarget pathOrName host.windowsLocations = none)
      (hw : os.whichExecutable pathOrName w = some found)
      (he : resolved = ⟨found, args, "path_search", []⟩)

section Resolved

variable {pathOrName : Bytes} {resolved : ResolvedLaunchTarget}

theorem resolves (h : resolveOpenApplicationTarget os host w pathOrName args = .ok resolved) :
    Resolves os host w pathOrName args resolved := by
  unfold resolveOpenApplicationTarget at h
  dsimp only at h
  split at h
  case isTrue hp =>
    split at h
    case isFalse   => contradiction
    case isTrue hf => exact .path hp hf (Except.ok.inj h).symm
  case isFalse hp =>
    split at h
    case isTrue hr  => exact .registry hp hr (Except.ok.inj h).symm
    case isFalse hr =>
      rw [not_not] at hr
      split at h
      case isTrue hi  => exact .index hp hr hi (Except.ok.inj h).symm
      case isFalse hi =>
        rw [not_not] at hi
        split at h
        case h_1 entry hl =>
          split at h
          case isTrue  => contradiction
          case isFalse => exact .location entry hp hr hi hl (Except.ok.inj h).symm
        case h_2 hl =>
          split at h
          case h_2          => contradiction
          case h_1 found hw => exact .search found hp hr hi hl hw (Except.ok.inj h).symm

end Resolved

-- The resolver takes a target to itself exactly if it is found again.
theorem resolve_target_iff (hn : path ≠ []) :
    (∃ source displayName, resolveOpenApplicationTarget os host w path args =
      .ok ⟨path, args, source, displayName⟩) ↔ FoundAgain os host w path args := by
  constructor
  case mp =>
    intro ⟨source, displayName, h⟩
    cases resolves h
    case path hp hf he =>
      have ha := (ResolvedLaunchTarget.mk.inj he).left
      cases hq : os.absolutePath path w
      case none =>
        rw [hq] at ha
        exact absurd ha hn
      case some q =>
        rw [hq] at ha
        exact .file hp hf (hq.trans (congrArg some ha.symm))
    case registry hp hr he => exact .registry hp hn (ResolvedLaunchTarget.mk.inj he).left.symm
    case index hp hr hi he => exact .index hp hn hr (ResolvedLaunchTarget.mk.inj he).left.symm
    case location entry hp hr hi hl he =>
      have ⟨hs, ha, _⟩ := ResolvedLaunchTarget.mk.inj he
      refine .location entry hp hn hr hi hl hs.symm fun hz => ?_
      rw [if_pos hz] at ha
      exact ha.symm.trans hz
    case search found hp hr hi hl hw he =>
      have hs := (ResolvedLaunchTarget.mk.inj he).left
      exact .search hp hn hr hi hl (hw.trans (congrArg some hs.symm))
  case mpr =>
    intro h
    unfold resolveOpenApplicationTarget
    cases h
    case file hp hf ha => simp [hp, hf, ha]
    case registry hp hn hr => simp [hp, hn, hr]
    case index hp hn hr hi => simp [hp, hn, hr, hi]
    case location entry hp hn hr hi hl hs ha =>
      have ha : (if args = [] then entry.args else args) = args := by
        split
        case isTrue he  => exact (ha he).trans he.symm
        case isFalse he => rfl
      simp [hp, hn, hr, hi, hl, hs, ha]
    case search hp hn hr hi hl hw => simp [hp, hr, hi, hl, hw]

-- A name is resolved to a target that is found again exactly if its entry is.
theorem foundAgain_iff {pathOrName : Bytes} {resolved : ResolvedLaunchTarget}
    (h : resolveOpenApplicationTarget os host w pathOrName args = .ok resolved) :
    FoundAgain os host w resolved.target resolved.effectiveArgs ↔
      StaysFound os host w pathOrName args := by
  unfold StaysFound
  cases resolves h
  case path hp hf he =>
    subst he
    rw [if_pos hp]
    cases hq : os.absolutePath pathOrName w
    case none   => simpa using fun h => FoundAgain.ne_nil h rfl
    case some q => simp
  case registry hp hr he =>
    subst he
    rw [if_neg hp, if_pos hr]
  case index hp hr hi he =>
    subst he
    rw [if_neg hp, if_neg (not_not.mpr hr), if_pos hi]
  case location entry hp hr hi hl he =>
    subst he
    rw [if_neg hp, if_neg (not_not.mpr hr), if_neg (not_not.mpr hi)]
    simp only [hl]
  case search found hp hr hi hl hw he =>
    subst he
    rw [if_neg hp, if_neg (not_not.mpr hr), if_neg (not_not.mpr hi)]
    simp [hl, hw]

section Approved

-- A call of `open_application` launches exactly this.
structure Launches (os : Os W) (host : HostState) (w : W) (body target args workDir : Bytes) :
    Prop where
  resolves : ∃ source displayName,
    resolveOpenApplicationTarget os host w (extractJsonStringField body "path_or_name")
      (extractJsonStringField body "args") = .ok ⟨target, args, source, displayName⟩
  hands : ∀ launch : Bytes → Bytes → Bytes → W → LaunchAppResult × W,
    let ran := openApplication { os with launchApplication := launch } host body w
    ran.world = (launch target args workDir w).2 ∧
      ran.logged = [⟨"open", "out", extractJsonStringField body "path_or_name",
        (launch target args workDir w).1.launched⟩]

-- What has been approved is what is launched.
def LaunchesApproved (os : Os W) (host : HostState) (w : W) (argumentsJson : Bytes) : Prop :=
  Launches os host w argumentsJson (extractJsonStringField argumentsJson "path_or_name")
    (extractJsonStringField argumentsJson "args") (extractJsonStringField argumentsJson "work_dir")

theorem launches_of_resolves {body target source displayName : Bytes}
    (hn : extractJsonStringField body "path_or_name" ≠ [])
    (hr : resolveOpenApplicationTarget os host w (extractJsonStringField body "path_or_name")
      (extractJsonStringField body "args") = .ok ⟨target, args, source, displayName⟩) :
    Launches os host w body target args (extractJsonStringField body "work_dir") where
  resolves := ⟨source, displayName, hr⟩
  hands launch := by
    have hr' : resolveOpenApplicationTarget { os with launchApplication := launch } host w
        (extractJsonStringField body "path_or_name") (extractJsonStringField body "args") =
          .ok ⟨target, args, source, displayName⟩ := hr
    simp [openApplication, hn, hr']

-- The members that a call is rewritten to.
def approvedFields (resolved : ResolvedLaunchTarget) (workDir : Bytes) : List (Bytes × Field) :=
  ("path_or_name", .string resolved.target) ::
  ("args", .string resolved.effectiveArgs) ::
  ("work_dir", .string workDir) ::
  if resolved.displayName = [] then []
  else [("resolved_display_name", .string resolved.displayName)]

theorem approvedFields_read (resolved : ResolvedLaunchTarget) (workDir : Bytes) :
    ∀ f ∈ approvedFields resolved workDir,
      f.2.ReadFrom (flatObject (approvedFields resolved workDir)) f.1 := by
  have hk : ∀ key ∈ [str "path_or_name", str "args", str "work_dir", str "resolved_display_name"],
    Word key := by decide
  have hd : [str "path_or_name", str "args", str "work_dir", str "resolved_display_name"].Nodup := by
    decide
  apply flatObject_readFrom
  case hk => unfold approvedFields; split <;> simp_all
  case hd => unfold approvedFields; split <;> simp_all
  case hi => unfold approvedFields; split <;> simp [Field.InRange]

theorem precheck_rewrites {call : ToolCall} {argumentsJson : Bytes}
    (hc : call.name = "open_application")
    (hp : extractJsonStringField call.argumentsJson "path_or_name" ≠ [])
    (h : precheckAndResolveGatedCall os host w call = .ok argumentsJson) :
    ∃ resolved, resolveOpenApplicationTarget os host w
        (extractJsonStringField call.argumentsJson "path_or_name")
        (extractJsonStringField call.argumentsJson "args") = .ok resolved ∧
      extractJsonStringField argumentsJson "path_or_name" = resolved.target ∧
      extractJsonStringField argumentsJson "args" = resolved.effectiveArgs := by
  have ho : ¬(call.name = str "run_command" ∨ call.name = str "run_ffmpeg") := by
    rw [hc]
    decide
  unfold precheckAndResolveGatedCall at h
  rw [if_neg ho, if_neg (not_not.mpr hc), if_neg hp] at h
  cases hr : resolveOpenApplicationTarget os host w
    (extractJsonStringField call.argumentsJson "path_or_name")
    (extractJsonStringField call.argumentsJson "args")
  case error => simp [hr] at h
  case ok resolved =>
    have hf := approvedFields_read resolved (extractJsonStringField call.argumentsJson "work_dir")
    have he : argumentsJson = flatObject
        (approvedFields resolved (extractJsonStringField call.argumentsJson "work_dir")) := by
      rw [hr] at h
      refine (Except.ok.inj h).symm.trans ?_
      unfold approvedFields
      split <;> simp_all [flatObject, Field.member]
    rw [he]
    exact ⟨resolved, rfl, hf ("path_or_name", Field.string _) (by simp [approvedFields]),
      hf ("args", Field.string _) (by simp [approvedFields])⟩

-- As long as nothing changes in between, a call that has been approved launches just what it says
-- if and only if what it was resolved to is found again.
theorem launchesApproved_iff {call : ToolCall} {argumentsJson : Bytes}
    (hu : Unchanged os host host' w w') (hc : call.name = "open_application")
    (hp : extractJsonStringField call.argumentsJson "path_or_name" ≠ [])
    (h : precheckAndResolveGatedCall os host w call = .ok argumentsJson) :
    LaunchesApproved os host' w' argumentsJson ↔
      StaysFound os host w (extractJsonStringField call.argumentsJson "path_or_name")
        (extractJsonStringField call.argumentsJson "args") := by
  have ⟨resolved, hr, ht, ha⟩ := precheck_rewrites hc hp h
  have hn {launch : Bytes → Bytes → Bytes → W → LaunchAppResult × W}
      (he : extractJsonStringField argumentsJson "path_or_name" = []) :
      (openApplication { os with launchApplication := launch } host' argumentsJson w').logged =
        [] := by
    simp [openApplication, he]
  rw [← foundAgain_iff hr, ← ht, ← ha]
  constructor
  case mp =>
    intro hl
    have hne : extractJsonStringField argumentsJson "path_or_name" ≠ [] := by
      intro he
      have := (hl.hands fun _ _ _ w => (⟨true, 0, [], []⟩, w)).right
      rw [hn he] at this
      contradiction
    have hres := hl.resolves
    rw [resolve_congr hu] at hres
    exact (resolve_target_iff hne).mp hres
  case mpr =>
    intro hf
    have ⟨source, displayName, hres⟩ := (resolve_target_iff hf.ne_nil).mpr hf
    rw [← resolve_congr hu] at hres
    exact launches_of_resolves hf.ne_nil hres

end Approved

section Calculator

def system32 : Bytes := "C:\\Windows\\System32"

-- A machine with the calculator of Windows, and nothing in its registry.
def calculatorMachine : Lookups where
  readRegistryString _ _ := []
  systemDirectory := system32
  windowsDirectory := "C:\\Windows"
  pathVariable := system32
  hasParentPath := looksLikePath
  join directory name := directory ++ "\\" ++ name
  isRegularFile path := path = system32 ++ "\\calc.exe"
  absolutePath path := some path

def calculatorOs : Os Unit :=
  Os.idle.withLookups fun _ => calculatorMachine

def calculatorHost : HostState :=
  { HostState.initial with installedApps := addBuiltinAccessories [] }

def openCall (pathOrName : Bytes) : ToolCall :=
  ⟨[], "open_application", jsonObject [jsonStringField "path_or_name" pathOrName]⟩

def approvedCalc : Bytes :=
  jsonObject [
    jsonStringField "path_or_name" "calc.exe",
    jsonStringField "args" [],
    jsonStringField "work_dir" []
  ]

theorem precheck_calc : precheckAndResolveGatedCall calculatorOs calculatorHost () (openCall "calc") =
    .ok approvedCalc := by
  decide +kernel

theorem launchesApproved_iff_calc :
    LaunchesApproved calculatorOs calculatorHost () approvedCalc ↔
      StaysFound calculatorOs calculatorHost ()
        (extractJsonStringField (openCall "calc").argumentsJson "path_or_name")
        (extractJsonStringField (openCall "calc").argumentsJson "args") :=
  have hu : Unchanged calculatorOs calculatorHost calculatorHost () () :=
    ⟨rfl, rfl, fun _ => rfl, fun _ => rfl, fun _ => rfl, fun _ => rfl, fun _ => rfl⟩
  launchesApproved_iff hu rfl (by decide +kernel) precheck_calc

-- The bare name `calc.exe` of the index is approved, but the second time it is found on the path.
theorem not_launchesApproved :
    ¬∀ call argumentsJson, call.name = str "open_application" →
      extractJsonStringField call.argumentsJson "path_or_name" ≠ [] →
      precheckAndResolveGatedCall calculatorOs calculatorHost () call = .ok argumentsJson →
      LaunchesApproved calculatorOs calculatorHost () argumentsJson := by
  intro h
  have ⟨_, _, hr⟩ := (h (openCall "calc") approvedCalc rfl (by decide +kernel) precheck_calc).resolves
  have hc : (resolveOpenApplicationTarget calculatorOs calculatorHost ()
      (extractJsonStringField approvedCalc "path_or_name")
      (extractJsonStringField approvedCalc "args")).toOption.map (·.target) =
        some (system32 ++ "\\calc.exe") := by decide +kernel
  rw [hr] at hc
  have ht : extractJsonStringField approvedCalc "path_or_name" = system32 ++ "\\calc.exe" :=
    Option.some.inj hc
  exact absurd ht (by decide +kernel)

end Calculator
end Droidcli.Cli
