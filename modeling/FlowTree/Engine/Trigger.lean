import FlowTree.Engine.Visit

/-!
# Runs and triggers

A trigger fires all registered flows that wait for it, in their order. They hand the carried objects
on from one to the next, and of their local variables those of a later flow win. Flows that call
custom triggers have them fired in the same way, one level deeper each time.
-/

namespace FlowTree

/-- What a run starts from. -/
structure Invocation where
  /-- Contextual variables, set on top of those of the player. -/
  contextual : List (String × Json) := []
  /-- The previous result of the root. -/
  seed : Json := .null
  carry : Carry := {}
  /-- The depth of calls that the run is at, as in its context. -/
  depth : Nat := 0

/-- What a run leaves behind. -/
structure FlowResult where
  flowId : String
  locals : Fields
  carry : Carry
  stopped : Bool
  deriving DecidableEq

/-- What the runs of a trigger leave behind. -/
structure TriggerResult where
  flowsRun : List String
  locals : Fields
  carry : Carry
  deriving DecidableEq

namespace Engine

/-! ### Single runs -/

/-- The value of a stat in the context: the stored one, or else the default. -/
def seedOf (p : Player) (t : StatTemplate) : Json :=
  (p.stat? t.internalId).getD t.default

/-- Describes the player in the contextual variables, and the caller's on top. -/
def seedVariables (e : Engine) (p : Player) (contextual : List (String × Json))
    (vars : Variables) : Variables :=
  let vars := e.game.templates.foldl (fun vs t => vs.setContextual t.internalId (seedOf p t)) vars
  let vars := vars.setContextual segmentVariable (.strings p.segments)
  contextual.foldl (fun vs b => vs.setContextual b.1 b.2) vars

/-- Reports that the player enters a flow, if the flow's own segment is held. -/
def enter (w : World) (f : Flow) : World :=
  if w.player.hasSegment f.autoSegment then { w with player := w.player.enterFlow f.id } else w

/-- The run of a flow before its first visit, in a context of the pool. -/
def begin (e : Engine) (f : Flow) (inv : Invocation) (w : World) : Run :=
  let (ctx, pool) := w.pool.checkout
  let w := enter { w with pool } f
  { ctx := { ctx with
      flowId := f.id, callDepth := inv.depth, carry := inv.carry
      vars := e.seedVariables w.player inv.contextual ctx.vars }
    world := w }

/-- Gives the context of a run back to the pool. -/
def finish (f : Flow) (r : Run) : FlowResult × World :=
  let (locals, vars) := r.ctx.vars.takeLocals
  let ctx := { r.ctx with vars }
  ({ flowId := f.id, locals, carry := ctx.carry, stopped := ctx.stopped },
    { r.world with pool := r.world.pool.release ctx })

/-- Runs a flow that has custom triggers fired by `call`. -/
def runWith (e : Engine) (call : Caller) (f : Flow) (inv : Invocation) (w : World) :
    FlowResult × World :=
  finish f (e.visit call f.root inv.seed (e.begin f inv w))

/-! ### Triggers -/

/-- Whether the parameter `key` of a root accepts a value. One that is missing or empty accepts all
values, and a list each of its elements. -/
def paramMatches (params : Fields) (key actual : String) : Bool :=
  match Fields.get? key params with
  | none | some .null => true
  | some (.str s) => s == "" || s == actual
  | some (.arr items) => items.isEmpty || items.any fun v => v.display == actual
  | some v => v.display == actual

/-- Whether a flow waits for a trigger whose parameter `key` has a value. -/
def waitsFor (trigger : Tag) (key actual : String) (f : Flow) : Bool :=
  f.root.op == trigger && paramMatches f.root.params key actual

/-- Runs the flows of a list that satisfy `accepts`, one after the other. -/
def fireWith (e : Engine) (call : Caller) (accepts : Flow → Bool) (inv : Invocation) :
    List Flow → World → TriggerResult × World
  | [], w => ({ flowsRun := [], locals := [], carry := inv.carry }, w)
  | f :: fs, w =>
    if accepts f then
      let (first, w) := e.runWith call f inv w
      let (rest, w) := fireWith e call accepts { inv with carry := first.carry } fs w
      ({ flowsRun := first.flowId :: rest.flowsRun
         locals := Fields.merge first.locals rest.locals
         carry := rest.carry }, w)
    else fireWith e call accepts inv fs w

/-- Fires custom triggers from a run that has so many levels of calls below it. The host's own way
to do so goes first. -/
def caller (e : Engine) : Nat → Caller
  | 0, trigger, _, _, w => (.error (.validation (.callDepth trigger e.maxDepth)), w)
  | levels + 1, trigger, seed, depth, w =>
    match e.game.dispatcher with
    | some dispatch => (dispatch trigger seed depth, w)
    | none =>
      let (result, w) := e.fireWith (caller e levels) (waitsFor .customTrigger "triggerId" trigger)
        { seed, depth } e.game.flows w
      (.ok result.locals, w)

/-- How custom triggers are fired from a run at a depth. -/
def callerAt (e : Engine) (depth : Nat) : Caller :=
  e.caller (e.maxDepth - depth)

/-- Runs a flow. -/
def execute (e : Engine) (f : Flow) (inv : Invocation) (w : World) : FlowResult × World :=
  e.runWith (e.callerAt inv.depth) f inv w

/-- Fires the registered flows that satisfy `accepts`. -/
def fire (e : Engine) (accepts : Flow → Bool) (inv : Invocation) (w : World) :
    TriggerResult × World :=
  e.fireWith (e.callerAt inv.depth) accepts inv e.game.flows w

end Engine

end FlowTree
