import FlowTree.Engine.Basic
import FlowTree.Operation.Input

/-!
# Nodes that speak to the player and the backend
-/

namespace FlowTree.Operation

/-- Shows an offer of the catalog. -/
def showOffer (e : Engine) (n : Node) (prev : Json) : Action Json := do
  let id ← idOf n "offerId" prev (← Action.vars)
  if (e.game.catalog.offer? id).isNone then throw (.lookup (.offer id))
  Action.changeWorld fun w => { w with shown := w.shown ++ [id] }
  return .str id

/-- Whether an object has one of the keys that name what a reference refers to. -/
def namesValue : Json → Bool
  | .obj fields => (Fields.get? "value" fields).isSome || (Fields.get? "raw" fields).isSome
  | _ => false

/-- The value of an entry of event data: what it refers to if it is a reference, else itself. -/
def entryValue (prev : Json) (vars : Variables) (v : Json) : Json :=
  match Ref.ofJson? v with
  | some r => if namesValue v then r.resolveOrNull prev vars else v
  | none => v

/-- The event data of the run under those of the node. -/
def eventData (n : Node) (prev : Json) (ctx : Context) : Except NodeError Fields :=
  let base := ctx.carry.eventData.getD []
  match n.param? "customData" with
  | none => .ok base
  | some (.obj extra) =>
    .ok (Fields.merge base (extra.map fun f => (f.1, entryValue prev ctx.vars f.2)))
  | some _ => .error (.validation .eventData)

/-- Reports an event with its data to the backend. -/
def sendEvent (e : Engine) (n : Node) (prev : Json) : Action Json := do
  let name ← n.requireText "eventName"
  let data ← eventData n prev (← Action.context)
  let payload : Json := .obj [("customData", .obj data), ("eventName", .str name)]
  e.sync "sendEvent" payload
  return payload

end FlowTree.Operation
