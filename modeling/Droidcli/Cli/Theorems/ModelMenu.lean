import Droidcli.Cli.ModelMenu
import Droidcli.Cli.Theorems.OllamaSetup

namespace Droidcli.Cli.Tui

open Bytes Net Trace

namespace ModelMenu

variable {menu : ModelMenu} {model active : Bytes} {models : List Bytes} {host : Host}
variable {clamp : Int → Nat → Int}

-- The dropdown shows the known model, or will once its index is in range.
def Settled (clamp : Int → Nat → Int) (menu : ModelMenu) : Prop :=
  ∀ model, (menu.rendered clamp).shown = some model → model = menu.known

theorem rendered_of_shown (hc : Clamps clamp) (h : menu.shown = some model) :
    menu.rendered clamp = menu := by
  rw [shown] at h
  split_ifs at h with h0
  have hl : menu.selected.toNat < menu.entries.length := (List.getElem?_eq_some_iff.mp h).choose
  have hn : menu.entries ≠ [] := List.ne_nil_of_length_pos (Nat.zero_lt_of_lt hl)
  rw [rendered, if_neg hn, hc.kept _ _ h0 (by omega)]

@[simp]
theorem rendered_known : (menu.rendered clamp).known = menu.known := by
  rw [rendered]
  split_ifs <;> rfl

@[simp]
theorem rendered_entries : (menu.rendered clamp).entries = menu.entries := by
  rw [rendered]
  split_ifs <;> rfl

theorem shown_rendered (hc : Clamps clamp) (h : menu.entries ≠ []) :
    ∃ model, (menu.rendered clamp).shown = some model := by
  have hr : (menu.rendered clamp).selected = clamp menu.selected menu.entries.length := by
    rw [rendered, if_neg h]
  have ⟨h0, hl⟩ := hc.inRange menu.selected _ (List.length_pos_of_ne_nil h)
  rw [← hr] at h0 hl
  have hi : (menu.rendered clamp).selected.toNat < (menu.rendered clamp).entries.length := by
    rw [rendered_entries]
    omega
  exact ⟨_, by rw [shown, if_pos h0, List.getElem?_eq_getElem hi]⟩

theorem rendered_rendered (hc : Clamps clamp) :
    (menu.rendered clamp).rendered clamp = menu.rendered clamp := by
  by_cases h : menu.entries = []
  case pos =>
    have hr : menu.rendered clamp = menu := by rw [rendered, if_pos h]
    rw [hr, hr]
  case neg =>
    have ⟨model, hs⟩ := shown_rendered hc h
    exact rendered_of_shown hc hs

theorem settled_rendered (hc : Clamps clamp) :
    (menu.rendered clamp).Settled clamp ↔ menu.Settled clamp := by
  simp [Settled, rendered_rendered hc]

theorem picked_eq_some : menu.picked = some model ↔ menu.shown = some model ∧ model ≠ menu.known := by
  simp [picked, Option.filter_eq_some_iff]

theorem Settled.picked (hc : Clamps clamp) (h : menu.Settled clamp) : menu.picked = none := by
  cases hp : menu.picked
  case none       => rfl
  case some model =>
    have ⟨hs, hne⟩ := picked_eq_some.mp hp
    exact absurd (h model (by rwa [rendered_of_shown hc hs])) hne

-- A dropdown that is not settled switches, at the latest in the frame after the next.
theorem picked_of_not_settled (h : ¬menu.Settled clamp) :
    ∃ model, (menu.rendered clamp).picked = some model := by
  simp only [Settled, not_forall] at h
  have ⟨model, hs, hne⟩ := h
  exact ⟨model, picked_eq_some.mpr ⟨hs, by simpa using hne⟩⟩

-- What a tick leaves settled: nothing is listed, or the configured model is in the place of the
-- known one, or it is another one and is listed.
def Kept (clamp : Int → Nat → Int) (menu : ModelMenu) (models : List Bytes) (active : Bytes) :
    Prop :=
  models = [] ∨
    if menu.known = active then
      ({ menu with entries := models }.rendered clamp).shown = some active
    else active ∈ models

theorem settled_of_no_entries (h : menu.entries = []) : menu.Settled clamp := by
  have hr : menu.rendered clamp = menu := by rw [rendered, if_pos h]
  intro model hs
  rw [hr, shown] at hs
  simp [h] at hs

theorem mem_of_shown (h : menu.shown = some model) : model ∈ menu.entries := by
  rw [shown] at h
  split_ifs at h
  exact List.mem_of_getElem? h

theorem refresh_settled_iff (hc : Clamps clamp) :
    (menu.refresh models active).Settled clamp ↔ menu.Kept clamp models active := by
  by_cases hm : models = []
  case pos =>
    refine iff_of_true (settled_of_no_entries ?_) (.inl hm)
    rw [refresh, syncModelMenuFromHost]
    split_ifs <;> exact hm
  case neg =>
    simp only [Kept, hm, false_or]
    rw [refresh, syncModelMenuFromHost]
    split_ifs with hk
    case pos =>
      have ⟨model, hs⟩ := @shown_rendered { menu with entries := models } clamp hc hm
      simp only [Settled, hs, Option.some.injEq]
      exact ⟨fun h => hk ▸ h model rfl, fun h _ he => he ▸ h ▸ hk.symm⟩
    case neg =>
      cases hi : models.findIdx? (· = active)
      case none =>
        have hn : active ∉ models :=
          fun hm => by simpa using List.findIdx?_eq_none_iff.mp hi active hm
        refine iff_of_false (fun h => hn ?_) hn
        obtain ⟨model, hs⟩ :=
          @shown_rendered { menu with entries := models, known := active } clamp hc hm
        have hmem := mem_of_shown hs
        rw [rendered_entries] at hmem
        have he : model = active := h model hs
        exact he ▸ hmem
      case some index =>
        obtain ⟨hl, he, _⟩ := List.findIdx?_eq_some_iff_getElem.mp hi
        have he : models[index] = active := by simpa using he
        refine iff_of_true ?_ (he ▸ List.getElem_mem hl)
        have hs : ModelMenu.shown ⟨models, Int.ofNat index, active⟩ = some active := by
          simp [shown, hl, he]
        intro model h
        have h : ModelMenu.shown ⟨models, Int.ofNat index, active⟩ = some model :=
          (rendered_of_shown hc hs) ▸ h
        exact Option.some.inj (h.symm.trans hs)

end ModelMenu

namespace ModelSystem

variable {W : Type} {os : Os W} {platform : Platform} {clamp : Int → Nat → Int}
variable {s s' : ModelSystem W} {t : List ModelEvent} {e : ModelEvent} {model : Bytes}

def Kept (clamp : Int → Nat → Int) (s : ModelSystem W) : Prop :=
  s.menu.Kept clamp s.polled s.host.config.ollamaModel

-- Nobody picks a model in the dropdown, and `C` holds in front of each tick.
def Untouched (C : ModelSystem W → Prop) (_ : List ModelEvent) (s : ModelSystem W)
    (e : ModelEvent) : Prop :=
  (∀ index, e ≠ .picked index) ∧ (e = .ticked → C s)

theorem frame_of_not_picked (h : s.menu.picked = none) :
    s.frame clamp = { s with menu := s.menu.rendered clamp } := by
  rw [frame, ModelMenu.applyModelMenuSelection, h]

-- What a step of an untouched run does to a settled dropdown.
theorem settled_step {C : ModelSystem W → Prop} (hclamp : ModelMenu.Clamps clamp)
    (hk : ∀ s, s.menu.Settled clamp → C s → s.Kept clamp) (h : s.menu.Settled clamp)
    (hc : Untouched C t s e) (hs : Step os platform clamp s e s') :
    s'.menu.Settled clamp ∧ ∀ model, e ≠ .switched model := by
  cases hs
  case poll      => exact ⟨h, by simp⟩
  case turn      => exact ⟨h, by simp [turnEvent]⟩
  case elsewhere => exact ⟨h, by simp⟩
  case tick      =>
    exact ⟨(ModelMenu.refresh_settled_iff hclamp).mpr (hk s h (hc.right rfl)), by simp⟩
  case pick      => exact absurd rfl (hc.left _)
  case frame =>
    rw [frame_of_not_picked (h.picked hclamp), h.picked hclamp]
    exact ⟨(ModelMenu.settled_rendered hclamp).mpr h, by simp⟩

-- A tick that leaves the dropdown unsettled makes one of the next two frames switch.
theorem exists_switch {C : ModelSystem W → Prop} (hclamp : ModelMenu.Clamps clamp) (hc : C s)
    (hn : ¬s.Kept clamp) :
    ∃ t s' model, Guarded (Untouched C) (Step os platform clamp) s t s' ∧ .switched model ∈ t := by
  have hu : ¬s.tick.menu.Settled clamp :=
    fun h => hn ((ModelMenu.refresh_settled_iff hclamp).mp h)
  have g : Guarded (Untouched C) (Step os platform clamp) s ([] ++ [.ticked]) s.tick :=
    Guarded.nil.snoc ⟨by simp, fun _ => hc⟩ (.tick s)
  have hframe (s : ModelSystem W) (t : List ModelEvent) :
      Untouched C t s (s.menu.picked.elim .still .switched) := by
    cases s.menu.picked <;> simp [Untouched]
  have g₁ := g.snoc (hframe _ _) (.frame s.tick)
  cases hp : s.tick.menu.picked
  case some model => exact ⟨_, _, model, g₁, by simp [hp]⟩
  case none =>
    have ⟨model, hm⟩ := ModelMenu.picked_of_not_settled hu
    have g₂ := g₁.snoc (hframe _ _) (.frame (s.tick.frame clamp))
    refine ⟨_, _, model, g₂, ?_⟩
    rw [frame_of_not_picked hp, hm]
    simp

-- Under which lists of models no run makes the interface switch by itself: `Kept` is the weakest
-- condition on the ticks that rules this out.
theorem no_switch_iff (os : Os W) (platform : Platform) (C : ModelSystem W → Prop)
    (hclamp : ModelMenu.Clamps clamp) :
    (∀ s t s', s.menu.Settled clamp → Guarded (Untouched C) (Step os platform clamp) s t s' →
      ∀ model, .switched model ∉ t) ↔
    ∀ s, s.menu.Settled clamp → C s → s.Kept clamp := by
  constructor
  case mp =>
    intro h s hm hc
    apply by_contra
    intro hn
    obtain ⟨t, s', model, g, ht⟩ := @exists_switch W os platform clamp s C hclamp hc hn
    exact h s t s' hm g model ht
  case mpr =>
    intro hk s t s' hm g model ht
    have he : Each (fun _ e => ∀ model, e ≠ .switched model) t :=
      g.each (I := fun _ s => s.menu.Settled clamp) hm
        (fun h hc hs => (settled_step hclamp hk h hc hs).left)
        fun h hc hs => (settled_step hclamp hk h hc hs).right
    have ⟨u, v, ht⟩ := List.append_of_mem ht
    exact he u _ v ht model rfl

-- The nearest index that is in range.
def nearest (selected : Int) (length : Nat) : Int :=
  max 0 (min selected (length - 1))

theorem clamps_nearest : ModelMenu.Clamps nearest where
  inRange selected length h := by
    rw [nearest]
    omega
  kept selected length h0 hl := by
    rw [nearest]
    omega

-- As long as nothing is polled, nothing is switched.
theorem no_switch_iff_unpolled :
    (∀ s t s', s.menu.Settled nearest →
      Guarded (Untouched (·.polled = [])) (Step Os.idle .posix nearest) s t s' →
      ∀ model, .switched model ∉ t) ↔
    ∀ s : ModelSystem Unit, s.menu.Settled nearest → s.polled = [] → s.Kept nearest :=
  no_switch_iff Os.idle .posix (·.polled = []) clamps_nearest

section Provenance

variable {u : List ModelEvent} {models : List Bytes}

-- The model has been named to the interface, by the poller or by the setup.
def Listed (t : List ModelEvent) (model : Bytes) : Prop :=
  ∃ models, model ∈ models ∧
    (.polled models ∈ t ∨ ∃ logged, .turned models logged ∈ t)

-- Where the configured model comes from.
def Sourced (t : List ModelEvent) (model : Bytes) : Prop :=
  Listed t model ∨ .configured model ∈ t ∨
    ∃ models logged, .turned models logged ∈ t ∧ pulledEntry model ∈ logged

theorem Listed.behind (h : Listed t model) : Listed (t ++ [e]) model := by
  obtain ⟨models, hm, h | ⟨logged, h⟩⟩ := h
  case inl => exact ⟨models, hm, .inl (by simp [h])⟩
  case inr => exact ⟨models, hm, .inr ⟨logged, by simp [h]⟩⟩

theorem Sourced.behind (h : Sourced t model) : Sourced (t ++ [e]) model := by
  obtain h | h | ⟨models, logged, h, hl⟩ := h
  case inl         => exact .inl h.behind
  case inr.inl     => exact .inr (.inl (by simp [h]))
  case inr.inr     => exact .inr (.inr ⟨models, logged, by simp [h], hl⟩)

-- What has been listed, where it is kept, and where the configured model comes from.
structure Backed (initial : Bytes) (t : List ModelEvent) (s : ModelSystem W) : Prop where
  entries    : ∀ model ∈ s.menu.entries, Listed t model ∧ model ≠ []
  polled     : ∀ model ∈ s.polled, Listed t model ∧ model ≠ []
  configured : s.host.config.ollamaModel = initial ∨ Sourced t s.host.config.ollamaModel

variable {initial : Bytes}

theorem mem_poll : ∀ model ∈ (s.poll os).polled, model ≠ [] := by
  intro model hm
  rw [poll] at hm
  dsimp only at hm
  rw [parse_models] at hm
  obtain ⟨name, hn, rfl⟩ := List.mem_map.mp hm
  apply unnamedText_ne_nil
  simp only [Host.ollamaStatus] at hn
  split_ifs at hn
  case pos => exact ne_nil_of_mem_parseOllamaModelNames name hn
  case neg => simp at hn

theorem tick_entries : s.tick.menu.entries = s.polled := by
  rw [tick, ModelMenu.refresh, ModelMenu.syncModelMenuFromHost]
  split_ifs <;> rfl

theorem frame_cases : (∃ model, s.menu.picked = some model ∧
      s.frame clamp = { s with
        menu := { s.menu with known := model }.rendered clamp
        host := (s.host.updateOllamaConfig (Host.modelBody model)).2 }) ∨
    s.menu.picked = none ∧ s.frame clamp = { s with menu := s.menu.rendered clamp } := by
  cases hp : s.menu.picked
  case none       => exact .inr ⟨rfl, frame_of_not_picked hp⟩
  case some model =>
    refine .inl ⟨model, rfl, ?_⟩
    rw [frame, ModelMenu.applyModelMenuSelection, hp]

theorem backed_step (h : Backed initial t s) (hs : Step os platform clamp s e s') :
    Backed initial (t ++ [e]) s' := by
  have he : ∀ model ∈ s.menu.entries, Listed (t ++ [e]) model ∧ model ≠ [] :=
    fun model hm => ⟨(h.entries model hm).left.behind, (h.entries model hm).right⟩
  have hp : ∀ model ∈ s.polled, Listed (t ++ [e]) model ∧ model ≠ [] :=
    fun model hm => ⟨(h.polled model hm).left.behind, (h.polled model hm).right⟩
  have hc : s.host.config.ollamaModel = initial ∨ Sourced (t ++ [e]) s.host.config.ollamaModel :=
    h.configured.imp_right Sourced.behind
  cases hs
  case poll =>
    refine ⟨he, fun model hm => ⟨⟨_, hm, .inl (by simp)⟩, mem_poll model hm⟩, hc⟩
  case tick =>
    refine ⟨?_, hp, hc⟩
    have hentries : s.tick.menu.entries = s.polled := tick_entries
    exact hentries ▸ hp
  case frame =>
    rcases @frame_cases _ clamp s with ⟨model, hm, hf⟩ | ⟨hm, hf⟩
    case inl =>
      have hmem := he model (ModelMenu.mem_of_shown (ModelMenu.picked_eq_some.mp hm).left)
      rw [hf]
      refine ⟨by simpa using he, hp, .inr (.inl ?_)⟩
      rw [updateOllamaConfig_modelBody hmem.right, withModel_ollamaModel]
      exact hmem.left
    case inr =>
      rw [hf]
      exact ⟨by simpa using he, hp, hc⟩
  case pick => exact ⟨he, hp, hc⟩
  case turn message =>
    refine ⟨he, hp, ?_⟩
    have ho := @setupTurn_outcome _ os platform s.host s.world message
    rcases ho.host_cases ne_nil_of_mem_ollamaSetup with hh | ⟨model, hh, _, hm⟩
    case inl =>
      have : (s.turn os platform message).host = s.host := hh
      exact this ▸ hc
    case inr =>
      have hmodel : (s.turn os platform message).host.config.ollamaModel = model := by
        have : (s.turn os platform message).host = withModel s.host model := hh
        rw [this, withModel_ollamaModel]
      rw [hmodel]
      have hl : s.turnEvent os platform message =
          .turned ((s.host.ollamaSetup os platform s.world).1.models.map unnamedText)
            (setupTurn os platform message s.host s.world).logged :=
        congrArg₂ ModelEvent.turned
          (congrArg OllamaSetupStatus.models (parseOllamaSetupStatus_json _)) rfl
      have hmem : .turned ((s.host.ollamaSetup os platform s.world).1.models.map unnamedText)
          (setupTurn os platform message s.host s.world).logged ∈
            t ++ [s.turnEvent os platform message] := by
        rw [← hl]
        simp
      rcases hm with hm | hm
      case inl => exact .inr (.inl ⟨_, hm, .inr ⟨_, hmem⟩⟩)
      case inr => exact .inr (.inr (.inr ⟨_, _, hmem, hm⟩))
  case elsewhere => exact ⟨he, hp, .inr (.inr (.inl (by simp)))⟩

theorem backed_run {host : Host} {world : W}
    (r : Run (Step os platform clamp) (start host world) t s) :
    Backed host.config.ollamaModel t s := by
  induction r
  case nil          => exact ⟨by simp [start, ModelMenu.start], by simp [start], .inl rfl⟩
  case snoc r hs hi => exact backed_step hi hs

-- The configured model is the one that the program was started with, or one that has been listed
-- before, set by another client, or pulled.
theorem configured_sourced {host : Host} {world : W}
    (r : Run (Step os platform clamp) (start host world) t s) :
    s.host.config.ollamaModel = host.config.ollamaModel ∨
      Sourced t s.host.config.ollamaModel :=
  (backed_run r).configured

-- A provider that lists two models, neither of which is the one that the program starts with.
def listing : Os Unit :=
  let tags := jsonObject [needle "models" ++ jsonArray [
    jsonObject [jsonStringField "name" "qwen2.5"],
    jsonObject [jsonStringField "name" "mistral-nemo"]]]
  { Os.idle with syncHttpGet := fun _ _ => (some (200, tags), ()) }

def started : ModelSystem Unit :=
  start (.initialized ⟨true, "http://127.0.0.1:11434", "llama3.2", 32768, []⟩ []) ()

theorem configured_sourced_qwen :
    ((started.poll listing).tick.frame nearest).host.config.ollamaModel = str "llama3.2" ∨
      Sourced [.polled [str "qwen2.5", str "mistral-nemo"], .ticked, .switched (str "qwen2.5")]
        ((started.poll listing).tick.frame nearest).host.config.ollamaModel := by
  have hp : (started.poll listing).polled = [str "qwen2.5", str "mistral-nemo"] := by decide +kernel
  have hs : (started.poll listing).tick.menu.picked = some (str "qwen2.5") := by decide +kernel
  have r : Run (Step listing .posix nearest) started
      ((([] ++ [ModelEvent.polled (started.poll listing).polled]) ++ [ModelEvent.ticked]) ++
        [(started.poll listing).tick.menu.picked.elim ModelEvent.still ModelEvent.switched])
      ((started.poll listing).tick.frame nearest) :=
    ((Run.nil.snoc (.poll started)).snoc (.tick _)).snoc (.frame _)
  rw [hp, hs] at r
  exact configured_sourced r

end Provenance

section Agreement

-- The dropdown shows the model that the host uses.
def Agrees (s : ModelSystem W) : Prop :=
  s.menu.shown = some s.host.config.ollamaModel ∧ s.menu.known = s.host.config.ollamaModel

theorem Agrees.frame (hc : ModelMenu.Clamps clamp) (h : s.Agrees) : s.frame clamp = s := by
  have hp : s.menu.picked = none := by
    rw [ModelMenu.picked, h.left]
    simp [h.right]
  rw [frame_of_not_picked hp, ModelMenu.rendered_of_shown hc h.left]

theorem agrees_of_picked (hc : ModelMenu.Clamps clamp) (hm : s.menu.picked = some model)
    (hn : model ≠ []) : (s.frame clamp).Agrees := by
  rcases @frame_cases _ clamp s with ⟨model', hm', hf⟩ | ⟨hm', _⟩
  case inr => exact absurd (hm'.symm.trans hm) (by simp)
  case inl =>
    obtain rfl := Option.some.inj (hm'.symm.trans hm)
    have hs : ModelMenu.shown { s.menu with known := model' } = some model' :=
      (ModelMenu.picked_eq_some.mp hm).left
    rw [Agrees, hf, updateOllamaConfig_modelBody hn, withModel_ollamaModel,
      ModelMenu.rendered_of_shown hc hs]
    exact ⟨hs, rfl⟩

theorem agrees_of_shown (hm : s.menu.picked = none) (hs : s.menu.shown = some model)
    (hk : s.menu.known = s.host.config.ollamaModel) : s.Agrees := by
  have he : model = s.menu.known := by
    apply by_contra
    intro hne
    have := ModelMenu.picked_eq_some.mpr ⟨hs, hne⟩
    simp [hm] at this
  exact ⟨hs.trans (congrArg some (he.trans hk)), hk⟩

-- Two frames behind a tick, the dropdown shows the model in use, wherever things stood before, and
-- from then on frames change nothing.
theorem agrees_of_tick (hc : ModelMenu.Clamps clamp) (hn : s.polled ≠ [])
    (hp : ∀ model ∈ s.polled, model ≠ []) : ((s.tick.frame clamp).frame clamp).Agrees := by
  have hentries : s.tick.menu.entries = s.polled := tick_entries
  have hknown : s.tick.menu.known = s.tick.host.config.ollamaModel := by
    rw [tick, ModelMenu.refresh, ModelMenu.syncModelMenuFromHost]
    split_ifs with hk
    case pos => exact hk
    case neg => rfl
  have hne {model : Bytes} (hs : (s.tick.menu.rendered clamp).shown = some model) :
      model ≠ [] := by
    have := ModelMenu.mem_of_shown hs
    rw [ModelMenu.rendered_entries, hentries] at this
    exact hp model this
  generalize s.tick = s at *
  have ⟨model, hs⟩ := ModelMenu.shown_rendered hc (hentries ▸ hn : s.menu.entries ≠ [])
  cases hm : s.menu.picked
  case some model' =>
    have hs' := (ModelMenu.picked_eq_some.mp hm).left
    have ha := agrees_of_picked hc hm (hne ((ModelMenu.rendered_of_shown hc hs').symm ▸ hs'))
    exact (ha.frame hc).symm ▸ ha
  case none =>
    rw [frame_of_not_picked hm]
    have hk : (s.menu.rendered clamp).known = s.host.config.ollamaModel :=
      ModelMenu.rendered_known.trans hknown
    cases hm' : (s.menu.rendered clamp).picked
    case none =>
      have ha : Agrees { s with menu := s.menu.rendered clamp } := agrees_of_shown hm' hs hk
      exact (ha.frame hc).symm ▸ ha
    case some model' =>
      have hs' := (ModelMenu.picked_eq_some.mp hm').left
      exact @agrees_of_picked _ clamp { s with menu := s.menu.rendered clamp } _ hc hm' (hne hs')

theorem frame_entries : (s.frame clamp).menu.entries = s.menu.entries := by
  rcases @frame_cases _ clamp s with ⟨_, _, hf⟩ | ⟨_, hf⟩
  all_goals rw [hf, ModelMenu.rendered_entries]

theorem agrees_of_run {host : Host} {world : W} (hc : ModelMenu.Clamps clamp)
    (r : Run (Step os platform clamp) (start host world) t s) (hn : s.polled ≠ []) :
    let later := (s.tick.frame clamp).frame clamp
    later.Agrees ∧ later.frame clamp = later ∧ later.host.config.ollamaModel ∈ s.polled := by
  have ha := agrees_of_tick hc hn fun model hm => ((backed_run r).polled model hm).right
  refine ⟨ha, ha.frame hc, ?_⟩
  have hentries : s.tick.menu.entries = s.polled := tick_entries
  have hm := ModelMenu.mem_of_shown ha.left
  rwa [frame_entries, frame_entries, hentries] at hm

theorem agrees_of_run_started :
    let s := started.poll listing
    let later := (s.tick.frame nearest).frame nearest
    later.Agrees ∧ later.frame nearest = later ∧ later.host.config.ollamaModel ∈ s.polled :=
  agrees_of_run clamps_nearest
    (Run.nil.snoc (.poll started) : Run (Step listing .posix nearest) started _ _)
    (by decide +kernel)

end Agreement

end ModelSystem
end Droidcli.Cli.Tui
