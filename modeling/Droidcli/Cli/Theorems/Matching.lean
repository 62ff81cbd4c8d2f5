import Droidcli.Cli.LaunchTarget
import Droidcli.Lib.Segments

namespace Droidcli.Cli

open Bytes

variable {apps : List InstalledApp} {targets : List WindowsLocationEntry}
  {entry : WindowsLocationEntry} {query name path value : Bytes}

-- A name of letters and digits that is the query's, or part of it, or has it as a part.
structure Matches (name query : Bytes) : Prop where
  named : normalizeForMatch name ≠ []
  part  : normalizeForMatch name = normalizeForMatch query ∨
    normalizeForMatch query <:+: normalizeForMatch name ∨
    normalizeForMatch name <:+: normalizeForMatch query

-- A query of several words, each of which the name has, too.
structure SharesWords (name query : Bytes) : Prop where
  named   : normalizeForMatch name ≠ []
  several : 2 ≤ (splitWordsForMatch query).length
  shared  : ∀ word ∈ splitWordsForMatch query, word ∈ splitWordsForMatch name

-- What the index may be found to have for a query: the path of an entry that matches it, and of one
-- with exactly that name if there is one.
def SoundApp (apps : List InstalledApp) (query path : Bytes) : Prop :=
  ∃ app ∈ apps, app.path = path ∧ Matches app.name query ∧
    ((∃ app ∈ apps, normalizeForMatch app.name = normalizeForMatch query) →
      normalizeForMatch app.name = normalizeForMatch query)

def SoundTarget (targets : List WindowsLocationEntry) (query : Bytes) (entry : WindowsLocationEntry) :
    Prop :=
  entry ∈ targets ∧ (Matches entry.aliasName query ∨ SharesWords entry.aliasName query)

-- A name without a letter or digit that comes before every one that matches.
def Shadows {α : Type} (name : α → Bytes) (entries : List α) (query : Bytes) (entry : α) : Prop :=
  ∃ before behind, entries = before ++ entry :: behind ∧ normalizeForMatch (name entry) = [] ∧
    ∀ other ∈ before, normalizeForMatch (name other) ≠ [] ∧ ¬Matches (name other) query

theorem plausibleMatch_iff : plausibleMatch (normalizeForMatch name) (normalizeForMatch query) ↔
    normalizeForMatch name = [] ∨ Matches name query := by
  rw [plausibleMatch, Bool.or_eq_true, contains_iff, contains_iff]
  by_cases hn : normalizeForMatch name = []
  case pos => simp [hn]
  case neg =>
    rw [or_iff_right hn]
    constructor
    case mp  => exact fun h => ⟨hn, .inr h⟩
    case mpr =>
      intro h
      cases h.part
      case inl he => exact .inl (he ▸ List.infix_rfl)
      case inr h  => exact h

theorem matches_of_eq (hq : normalizeForMatch query ≠ [])
    (h : normalizeForMatch name = normalizeForMatch query) : Matches name query :=
  ⟨h ▸ hq, .inl h⟩

section Shadows

variable {α : Type} {name : α → Bytes} {entries : List α} {entry other : α}

-- A name that shadows the others is the first that a query is compared with successfully.
theorem Shadows.found (h : Shadows name entries query entry) : entries.find? (fun entry =>
    plausibleMatch (normalizeForMatch (name entry)) (normalizeForMatch query)) = some entry := by
  have ⟨before, behind, he, hn, hb⟩ := h
  refine List.find?_eq_some_iff_append.mpr ⟨plausibleMatch_iff.mpr (.inl hn), before, behind, he, ?_⟩
  intro other hm
  rw [Bool.not_eq_true', ← Bool.not_eq_true, plausibleMatch_iff]
  exact not_or.mpr (hb other hm)

-- The first such name shadows the others, or it matches.
theorem shadows_or_matches (h : entries.find? (fun entry =>
    plausibleMatch (normalizeForMatch (name entry)) (normalizeForMatch query)) = some entry) :
    Shadows name entries query entry ∨ Matches (name entry) query := by
  have ⟨hp, before, behind, he, hb⟩ := List.find?_eq_some_iff_append.mp h
  refine (plausibleMatch_iff.mp hp).imp_left fun hn => ⟨before, behind, he, hn, fun other hm => ?_⟩
  have hother := hb other hm
  rw [Bool.not_eq_true', ← Bool.not_eq_true, plausibleMatch_iff] at hother
  exact not_or.mp hother

theorem Shadows.named (h : Shadows name entries query entry) : normalizeForMatch (name entry) = [] := by
  have ⟨_, _, _, hn, _⟩ := h
  exact hn

end Shadows

-- What is found in the index is sound exactly if no entry without a name comes first: one with a
-- path of its own, while none has the name that is looked for.
theorem findInstalledAppMatch_sound_iff :
    (findInstalledAppMatch apps query ≠ [] →
      SoundApp apps query (findInstalledAppMatch apps query)) ↔
    (normalizeForMatch query = [] ∨
      (∃ app ∈ apps, normalizeForMatch app.name = normalizeForMatch query) ∨
      ∀ app, Shadows InstalledApp.name apps query app →
        app.path = [] ∨ ∃ other ∈ apps, other.path = app.path ∧ Matches other.name query) := by
  by_cases hq : normalizeForMatch query = []
  case pos => simp [findInstalledAppMatch, hq]
  case neg =>
    rw [or_iff_right hq, findInstalledAppMatch]
    dsimp only
    rw [if_neg hq]
    cases he : apps.find? fun app => normalizeForMatch app.name = normalizeForMatch query
    case some app =>
      have hn : normalizeForMatch app.name = normalizeForMatch query := by
        simpa using List.find?_some he
      have hm := List.mem_of_find?_eq_some he
      refine iff_of_true (fun _ => ?_) (.inl ⟨app, hm, hn⟩)
      exact ⟨app, hm, rfl, matches_of_eq hq hn, fun _ => hn⟩
    case none =>
      have hexact : ¬∃ app ∈ apps, normalizeForMatch app.name = normalizeForMatch query := by
        simpa using List.find?_eq_none.mp he
      have hnear : (none <|> apps.find? fun app =>
          plausibleMatch (normalizeForMatch app.name) (normalizeForMatch query)) = apps.find? fun app =>
            plausibleMatch (normalizeForMatch app.name) (normalizeForMatch query) := by simp
      rw [or_iff_right hexact, hnear]
      cases hf : apps.find? fun app =>
        plausibleMatch (normalizeForMatch app.name) (normalizeForMatch query)
      case none =>
        refine iff_of_true (fun h => absurd rfl h) fun app hs => ?_
        exact absurd (hf.symm.trans hs.found) (by simp)
      case some app =>
        have hsame : ∀ other, Shadows InstalledApp.name apps query other → app = other :=
          fun other ho => Option.some.inj (hf.symm.trans ho.found)
        rw [Option.elim_some]
        cases shadows_or_matches hf
        case inr hm =>
          refine iff_of_true (fun _ => ?_) fun other ho => ?_
          case refine_1 =>
            exact ⟨app, List.mem_of_find?_eq_some hf, rfl, hm, fun h => absurd h hexact⟩
          case refine_2 => exact absurd (hsame other ho ▸ ho.named) hm.named
        case inl hshadows =>
          constructor
          case mp =>
            intro hs other ho
            rw [← hsame other ho, or_iff_not_imp_left]
            intro hp
            have ⟨other, hm, hpath, hmatch, _⟩ := hs hp
            exact ⟨other, hm, hpath, hmatch⟩
          case mpr =>
            intro hs hp
            have ⟨other, hm, hpath, hmatch⟩ := (hs app hshadows).resolve_left hp
            exact ⟨other, hm, hpath, hmatch, fun h => absurd h hexact⟩

theorem normalizeForMatch_ne_nil_of_words (h : splitWordsForMatch value ≠ []) :
    normalizeForMatch value ≠ [] := by
  have ⟨word, hw⟩ := List.exists_mem_of_ne_nil _ h
  have ⟨segment, hs, hword⟩ := List.mem_filterMap.mp hw
  have hne : segment ≠ [] := by
    rintro rfl
    simp at hword
  have ⟨c, hc⟩ := List.exists_mem_of_ne_nil _ hne
  have ⟨hsep, before, behind, hv, _⟩ := List.mem_splitOnP_iff.mp hs
  have hmem : c ∈ value.filter isAlnum :=
    List.mem_filter.mpr ⟨by simp [hv, hc], by simpa using hsep c hc⟩
  simpa [normalizeForMatch, lowered] using List.ne_nil_of_mem hmem

theorem findKnownWindowsTarget_sound_iff :
    (∀ entry, findKnownWindowsTarget query targets = some entry → SoundTarget targets query entry) ↔
    (normalizeForMatch query = [] ∨
      ∀ entry, ¬Shadows WindowsLocationEntry.aliasName targets query entry) := by
  by_cases hq : normalizeForMatch query = []
  case pos => simp [findKnownWindowsTarget, hq]
  case neg =>
    rw [or_iff_right hq, findKnownWindowsTarget]
    dsimp only
    rw [if_neg hq]
    cases hf : targets.find? fun entry =>
      plausibleMatch (normalizeForMatch entry.aliasName) (normalizeForMatch query)
    case some found =>
      cases shadows_or_matches hf
      case inl hshadows =>
        refine iff_of_false (fun hs => ?_) fun hn => hn found hshadows
        cases (hs found rfl).right
        case inl hm => exact hm.named hshadows.named
        case inr hw => exact hw.named hshadows.named
      case inr hm =>
        refine iff_of_true (fun entry he => ?_) fun other ho => ?_
        case refine_1 =>
          obtain rfl : found = entry := by simpa using he
          exact ⟨List.mem_of_find?_eq_some hf, .inl hm⟩
        case refine_2 =>
          obtain rfl : found = other := Option.some.inj (hf.symm.trans ho.found)
          exact hm.named ho.named
    case none =>
      refine iff_of_true (fun entry he => ?_) fun entry hs => absurd (hf.symm.trans hs.found) (by simp)
      have he : (targets.find? fun entry =>
          wordsAllPresent (splitWordsForMatch query) (splitWordsForMatch entry.aliasName)) =
            some entry := by simpa using he
      have hw := List.find?_some he
      simp only [wordsAllPresent, Bool.and_eq_true, decide_eq_true_eq, List.all_eq_true] at hw
      have ⟨hlen, hall⟩ := hw
      refine ⟨List.mem_of_find?_eq_some he, .inr ⟨?_, hlen, hall⟩⟩
      have hpos : 0 < (splitWordsForMatch query).length := by omega
      have ⟨word, hword⟩ := List.exists_mem_of_length_pos hpos
      exact normalizeForMatch_ne_nil_of_words (List.ne_nil_of_mem (hall word hword))

-- Both tables at once.
theorem matching_sound_iff (apps : List InstalledApp) (targets : List WindowsLocationEntry)
    (query : Bytes) :
    ((findInstalledAppMatch apps query ≠ [] →
      SoundApp apps query (findInstalledAppMatch apps query)) ↔
        normalizeForMatch query = [] ∨
          (∃ app ∈ apps, normalizeForMatch app.name = normalizeForMatch query) ∨
          ∀ app, Shadows InstalledApp.name apps query app →
            app.path = [] ∨ ∃ other ∈ apps, other.path = app.path ∧ Matches other.name query) ∧
    ((∀ entry, findKnownWindowsTarget query targets = some entry →
      SoundTarget targets query entry) ↔
        normalizeForMatch query = [] ∨
          ∀ entry, ¬Shadows WindowsLocationEntry.aliasName targets query entry) :=
  ⟨findInstalledAppMatch_sound_iff, findKnownWindowsTarget_sound_iff⟩

-- A program with a Chinese name, for which any query is taken.
def chatApps : List InstalledApp :=
  [⟨"微信", "C:\\WeChat\\WeChat.exe"⟩, ⟨"Notepad", "notepad.exe"⟩]

theorem not_matching_sound : findInstalledAppMatch chatApps "note" = "C:\\WeChat\\WeChat.exe" ∧
    ¬SoundApp chatApps "note" "C:\\WeChat\\WeChat.exe" := by
  refine ⟨by decide +kernel, fun ⟨app, hm, hp, hmatch, _⟩ => ?_⟩
  have hall : ∀ app ∈ chatApps, app.path = str "C:\\WeChat\\WeChat.exe" →
      normalizeForMatch app.name = [] := by decide +kernel
  exact hmatch.named (hall app hm hp)

end Droidcli.Cli
