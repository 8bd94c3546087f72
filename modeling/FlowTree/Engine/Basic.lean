import FlowTree.Engine.Settings
import FlowTree.Flow.Node
import FlowTree.Run.World
import FlowTree.World.Catalog
import FlowTree.World.StatTemplate

/-!
# Engines

An engine is the game that it serves and the settings by which it serves it. Nothing in it changes
while flows run; what does change is in the world.
-/

namespace FlowTree

/-- A host's own way to run the flows of a custom trigger: by its id, the value that it fires with,
and the depth of the call. It gives local variables, and does nothing else. A host that acts on the
world is a `Caller`. -/
abbrev Dispatcher := String → Json → Nat → Except NodeError Fields

structure Game where
  templates : List StatTemplate := []
  catalog : Catalog := {}
  /-- The registered flows, the oldest first. -/
  flows : List Flow := []
  backend : Backend := .accepting
  dispatcher : Option Dispatcher := none

namespace Game

/-- The first template for a stat. -/
def template? (g : Game) (stat : String) : Option StatTemplate :=
  g.templates.find? fun t => t.internalId == stat

def flow? (g : Game) (id : String) : Option Flow :=
  g.flows.find? fun f => f.id == id

def register (g : Game) (f : Flow) : Game :=
  { g with flows := g.flows ++ [f] }

end Game

structure Engine where
  settings : Settings := {}
  game : Game := {}
  limits : Script.Limits := {}
  timing : Script.Timing
  evaluator : Script.Evaluator := Script.interpreter

namespace Engine

/-- An engine whose scripts have limits of their own, or else ordinary ones with the watchdog buffer
of the settings. -/
def build (settings : Settings) (game : Game) (limits : Option Script.Limits)
    (timing : Script.Timing) : Engine where
  settings
  game
  limits := limits.getD { watchdogBuffer := .ofMillis settings.watchdogBufferMs }
  timing

/-- The world at the start of an engine. -/
def start (e : Engine) (player : Player) (random : RandomSource) (generator : Generator) :
    World where
  player
  random
  sandbox := { generator }
  pool := .start e.settings.poolPrewarm.toNat e.settings.poolMaxIdle.toNat

def locale (e : Engine) : Locale :=
  e.settings.locale

/-- How deep custom flows may call each other. -/
def maxDepth (e : Engine) : Nat :=
  e.settings.maxCallDepth.toNat

/-! ### What nodes of all kinds do -/

/-- Hands an action over to the backend. -/
def sync (e : Engine) (action : String) (payload : Json) : Action Unit :=
  modify fun r =>
    let h : Handover :=
      { flow := r.ctx.flowId, action := .make e.settings.backend action payload }
    { r with world := { r.world with outbox := r.world.outbox ++ [h] } }

/-- The contextual variable that lists the player's segments. -/
def segmentVariable : String := "segment"

/-- Brings the list of segments in the context up to date. -/
def refreshSegments : Action Unit := do
  Action.setContextual segmentVariable (.strings (← Action.player).segments)

end Engine

end FlowTree
