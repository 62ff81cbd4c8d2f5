import Droidcli.Cli.OllamaSetup

namespace Droidcli.Cli

open Bytes Net

-- What `build_ollama_status_json` reports. A request that gets no response leaves the status code
-- at zero.
def Host.ollamaStatus (host : Host) (reply : Option (Int × Bytes)) : OllamaStatus where
  aiEnabled := host.config.enableAi
  ollamaUrl := host.config.ollamaUrl
  model := host.config.ollamaModel
  online := host.config.enableAi && succeeds reply
  statusCode := reply.elim 0 Prod.fst
  models :=
    if host.config.enableAi && succeeds reply then parseOllamaModelNames (reply.elim [] Prod.snd)
    else []

namespace Tui

-- The model dropdown: its entries, the index that it is bound to, and the model that the selection
-- was last confirmed to correspond to.
structure ModelMenu where
  entries : List Bytes
  selected : Int
  known : Bytes
  deriving DecidableEq

namespace ModelMenu

variable (menu : ModelMenu)

def start : ModelMenu :=
  ⟨[], 0, []⟩

def shown : Option Bytes :=
  if 0 ≤ menu.selected then menu.entries[menu.selected.toNat]? else none

def syncModelMenuFromHost (active : Bytes) : ModelMenu :=
  if menu.known = active then menu
  else
    { menu with
      selected := (menu.entries.findIdx? (· = active)).elim menu.selected Int.ofNat
      known := active }

-- `Event::Custom`, with the models that the poller has left.
def refresh (models : List Bytes) (active : Bytes) : ModelMenu :=
  { menu with entries := models }.syncModelMenuFromHost active

-- The model that the next frame switches to.
def picked : Option Bytes :=
  menu.shown.filter (· ≠ menu.known)

def applyModelMenuSelection (host : Host) : ModelMenu × Host :=
  match menu.picked with
  | none       => (menu, host)
  | some model =>
    ({ menu with known := model }, (host.updateOllamaConfig (Host.modelBody model)).2)

-- `clamp` is what FTXUI makes of the index of a dropdown, by the number of its entries, whenever it
-- renders it. It does not while there are none.
def rendered (clamp : Int → Nat → Int) : ModelMenu :=
  if menu.entries = [] then menu
  else { menu with selected := clamp menu.selected menu.entries.length }

-- The index is put into the range of the entries, and only if it is not there yet.
structure Clamps (clamp : Int → Nat → Int) : Prop where
  inRange : ∀ (selected : Int) (length : Nat), 0 < length →
    0 ≤ clamp selected length ∧ clamp selected length < length
  kept    : ∀ (selected : Int) (length : Nat), 0 ≤ selected → selected < length →
    clamp selected length = selected

end ModelMenu

-- The dropdown, the models that the poller has left for it, and the host behind it.
structure ModelSystem (W : Type) where
  menu : ModelMenu
  polled : List Bytes
  host : Host
  world : W

-- What is seen of a step: the models that a poll or the setup is told of, what the setup logs, the
-- user's pick, and the model of a frame that switches.
inductive ModelEvent
  | polled (models : List Bytes)
  | ticked
  | still
  | switched (model : Bytes)
  | picked (index : Nat)
  | turned (models : List Bytes) (logged : List AppLogEntry)
  | configured (model : Bytes)

namespace ModelSystem

variable {W : Type} (os : Os W) (platform : Platform) (clamp : Int → Nat → Int) (s : ModelSystem W)

def start (host : Host) (world : W) : ModelSystem W :=
  ⟨.start, [], host, world⟩

-- The poller's round.
def poll : ModelSystem W :=
  let (reply, world) := os.syncHttpGet (tagsUrl s.host.config) s.world
  { s with
    polled := parseJsonStringArray (buildOllamaStatusJson (s.host.ollamaStatus reply)) "models"
    world := world }

def tick : ModelSystem W :=
  { s with menu := s.menu.refresh s.polled s.host.config.ollamaModel }

def frame : ModelSystem W :=
  let (menu, host) := s.menu.applyModelMenuSelection s.host
  { s with menu := menu.rendered clamp, host := host }

def pick (index : Nat) : ModelSystem W :=
  { s with menu := { s.menu with selected := index } }

-- A message of the chat, as far as the setup.
def turn (message : Bytes) : ModelSystem W :=
  let turn := setupTurn os platform message s.host s.world
  { s with host := turn.host, world := turn.world }

def turnEvent (message : Bytes) : ModelEvent :=
  .turned (parseOllamaSetupStatus (s.host.ollamaSetupStatusJson os platform s.world).1).models
    (setupTurn os platform message s.host s.world).logged

-- The poller, the ticks and frames of the UI thread, the user, the chat worker, and whatever else
-- goes on: other clients may change the configuration at any time, and so may the world.
inductive Step : ModelSystem W → ModelEvent → ModelSystem W → Prop
  | poll (s : ModelSystem W) : Step s (.polled (s.poll os).polled) (s.poll os)
  | tick (s : ModelSystem W) : Step s .ticked s.tick
  | frame (s : ModelSystem W) : Step s (s.menu.picked.elim .still .switched) (s.frame clamp)
  | pick (s : ModelSystem W) {index : Nat} :
    index < s.menu.entries.length → Step s (.picked index) (s.pick index)
  | turn (s : ModelSystem W) (message : Bytes) :
    Step s (s.turnEvent os platform message) (s.turn os platform message)
  | elsewhere (s : ModelSystem W) (host : Host) (world : W) :
    Step s (.configured host.config.ollamaModel) { s with host := host, world := world }

end ModelSystem
end Tui
end Droidcli.Cli
