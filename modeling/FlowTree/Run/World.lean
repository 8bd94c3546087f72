import FlowTree.Run.Pool
import FlowTree.Script.Sandbox
import FlowTree.Warning
import FlowTree.World.Backend
import FlowTree.World.Player
import FlowTree.World.Random

/-!
# The state around a run

The world is what outlives a run: the player, the offers shown, what was handed to the backend, the
random source, the script sandbox, the pool of contexts and the log. An `Action` is a step of a node
on its run's context and on the world; it gives a value or fails, and keeps what it changed in
either case.
-/

namespace FlowTree

/-- An action for the backend, and the flow that hands it over. -/
structure Handover where
  flow : String
  action : BackendAction
  deriving DecidableEq

structure World where
  player : Player := {}
  /-- The ids of the offers shown to the player. -/
  shown : List String := []
  /-- What is handed over to the backend and not yet delivered. -/
  outbox : List Handover := []
  /-- What is delivered, in the order of the handing over. -/
  delivered : List BackendAction := []
  random : RandomSource := .generated ⟨0⟩
  sandbox : Script.Sandbox := {}
  pool : Pool := .start 0 0
  log : List Warning := []

namespace World

def warn (w : World) (warning : Warning) : World :=
  { w with log := w.log ++ [warning] }

/-- A failure to deliver, whatever its reason is, counts as one of the backend. -/
def syncError : NodeError → NodeError
  | .backendSync text => .backendSync text
  | e => .backendSync e.message

/-- Delivers an action to the backend. -/
def send (backend : Backend) (w : World) (h : Handover) : World :=
  let w := { w with delivered := w.delivered ++ [h.action] }
  match backend.send h.action with
  | .ok () => w
  | .error e => w.warn (.syncFailed h.flow h.action.action (syncError e))

/-- Delivers all that was handed over, in its order: that of a runtime with a single thread. Others
may have the backend get it in another order. -/
def deliver (backend : Backend) (w : World) : World :=
  w.outbox.foldl (send backend) { w with outbox := [] }

end World

structure Run where
  ctx : Context
  world : World

abbrev Action := EStateM NodeError Run

instance : MonadLift (Except NodeError) Action := ⟨ofExcept⟩

namespace Action

def context : Action Context := do
  return (← get).ctx

def vars : Action Variables := do
  return (← get).ctx.vars

def player : Action Player := do
  return (← get).world.player

def changeContext (f : Context → Context) : Action Unit :=
  modify fun r => { r with ctx := f r.ctx }

def changeCarry (f : Carry → Carry) : Action Unit :=
  changeContext fun c => { c with carry := f c.carry }

def changeWorld (f : World → World) : Action Unit :=
  modify fun r => { r with world := f r.world }

def changePlayer (f : Player → Player) : Action Unit :=
  changeWorld fun w => { w with player := f w.player }

def setContextual (id : String) (v : Json) : Action Unit :=
  changeContext fun c => { c with vars := c.vars.setContextual id v }

def setLocal (name : String) (v : Json) : Action Unit :=
  changeContext fun c => { c with vars := c.vars.setLocal name v }

def warn (w : Warning) : Action Unit :=
  changeWorld fun world => world.warn w

/-- A draw from the random source. -/
def draw {α : Type} (f : RandomSource → α × RandomSource) : Action α :=
  modifyGet fun r =>
    let (a, random) := f r.world.random
    (a, { r with world := { r.world with random } })

end Action

end FlowTree
