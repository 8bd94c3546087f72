import FlowTree.Operation.Change
import FlowTree.Operation.Choice
import FlowTree.Operation.Code
import FlowTree.Operation.Message
import FlowTree.Operation.Number
import FlowTree.Operation.Player
import FlowTree.Operation.Variable

/-!
# Visiting nodes

A visit of a node carries out its operation and then visits the children that the result selects. A
node that fails is logged, and the nodes below it are left out. Once a run is stopped nothing more
is visited.
-/

namespace FlowTree

/-- How a run has the flows of a custom trigger run: by the trigger's id, the value that it fires
with, and the depth of the call. -/
abbrev Caller := String → Json → Nat → World → Except NodeError Fields × World

namespace Engine

/-- A step that only reads the variables. -/
def reading (f : Variables → Except NodeError Json) : Action Json := do
  f (← Action.vars)

/-- Runs the flows of a custom trigger one level deeper and gives their local variables. -/
def callCustomFlow (e : Engine) (call : Caller) (n : Node) (prev : Json) : Action Json := do
  let ctx ← Action.context
  let trigger ← Operation.idOf n "triggerId" prev ctx.vars
  let depth := ctx.callDepth + 1
  if e.maxDepth < depth then throw (.validation (.callDepth trigger e.maxDepth))
  let (locals, world) := call trigger prev depth (← get).world
  Action.changeWorld fun _ => world
  return .obj (← locals)

/-- Carries out the operation of a node on the previous result. -/
def perform (e : Engine) (call : Caller) (n : Node) (prev : Json) : Action Json :=
  match n.op with
  | .add | .subtract | .multiply | .divide | .power | .modulo =>
    reading (Operation.arithmetic e.locale n prev)
  | .ceil | .floor | .round => reading (Operation.rounding e.locale n prev)
  | .clamp => reading (Operation.clamp e.locale n prev)
  | .random => Operation.random e.locale n prev
  | .setVariable => Operation.setVariable e.locale n prev
  | .getVariable => reading (Operation.getVariable n prev)
  | .branch => reading (Operation.branch e.locale n prev)
  | .switch => reading (Operation.switch n prev)
  | .splitTest => Operation.splitTest e n
  | .stop => reading (Operation.valueOrPrevious n "value" prev)
  | .segmentAdd | .segmentRemove => Operation.segmentChange e n prev
  | .statAdd | .statSubtract | .statSet => Operation.statChange e n prev
  | .applyChange => Operation.applyChange e n prev
  | .callCustomFlow => callCustomFlow e call n prev
  | .showOffer => Operation.showOffer e n prev
  | .sendEvent => Operation.sendEvent e n prev
  | .runCode => Operation.runCode e n prev
  | .sequence | .sessionStart | .customTrigger | .offerShown | .configParamRetrieved | .itemAdded
  | .itemRemoved | .statChanged | .segmentEnter | .segmentExit | .analyticsEventSend => pure prev
  | .unknown => pure .null

end Engine

namespace Run

/-- Saves the result of a node in the local variable that it names. -/
def save (r : Run) (n : Node) (v : Json) : Run :=
  match n.savedVariable? with
  | some name => { r with ctx := { r.ctx with vars := r.ctx.vars.setLocal name v } }
  | none => r

/-- Logs that a node failed. -/
def logFailure (r : Run) (n : Node) (e : NodeError) : Run :=
  { r with world := r.world.warn (.nodeFailed r.ctx.flowId n.slotId n.op e) }

def stop (r : Run) : Run :=
  { r with ctx := { r.ctx with stopped := true } }

end Run

/-- What is visited after a node: all of its children or one of them, nothing below it, or nothing
more at all. -/
inductive Selection
  | every
  | only (i : Nat)
  | nothing
  | stop
  deriving DecidableEq, Repr

/-- The position that a result names. -/
def Json.position? (v : Json) : Option Nat :=
  (v.asIntIn? 0 maxInt64).map Int.toNat

/-- What the result of an operation selects. -/
def Selection.make (op : Tag) (result : Json) : Selection :=
  match op with
  | .branch => .only (if result = .bool true then 0 else 1)
  | .switch | .splitTest => match result.position? with
    | some i => .only i
    | none => .nothing
  | .stop => .stop
  | _ => .every

namespace Engine

mutual

def visit (e : Engine) (call : Caller) : Node → Json → Run → Run
  | ⟨op, slotId, params, children⟩, prev, r =>
    let n : Node := ⟨op, slotId, params, children⟩
    if r.ctx.stopped || op == .unknown then r
    else match perform e call n prev r with
      | .error err r => r.logFailure n err
      | .ok v r =>
        let r := r.save n v
        match Selection.make op v with
        | .every => visitAll e call children v r
        | .only i => visitAt e call children i v r
        | .nothing => r
        | .stop => r.stop

/-- Visits nodes one after the other, each with the same previous result. -/
def visitAll (e : Engine) (call : Caller) : List Node → Json → Run → Run
  | [], _, r => r
  | n :: ns, prev, r => visitAll e call ns prev (visit e call n prev r)

/-- Visits the node at a position, if there is one. -/
def visitAt (e : Engine) (call : Caller) : List Node → Nat → Json → Run → Run
  | [], _, _, r => r
  | n :: _, 0, prev, r => visit e call n prev r
  | _ :: ns, i + 1, prev, r => visitAt e call ns i prev r

end

end Engine

end FlowTree
