import FlowTree.Operation.Input
import FlowTree.Run.World

/-!
# Nodes on variables
-/

namespace FlowTree.Operation

/-- Sets a variable, a local one unless the node's scope is the context. -/
def setVariable (locale : Locale) (n : Node) (prev : Json) : Action Json := do
  let name ← n.requireText "name"
  let v ← valueOf n "value" prev (← Action.vars)
  let v ← match n.text? "valueType" with
    | some target => v.coerce locale target
    | none => pure v
  if n.text? "scope" = some "contextual" then Action.setContextual name v
  else Action.setLocal name v
  return v

/-- The value of a variable, which must be there. -/
def getVariable (n : Node) (prev : Json) (vars : Variables) : Except NodeError Json := do
  (← n.requireRef "value").resolve prev vars

end FlowTree.Operation
