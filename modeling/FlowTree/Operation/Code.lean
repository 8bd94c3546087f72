import FlowTree.Engine.Basic
import FlowTree.Operation.Input

/-!
# Nodes that run scripts
-/

namespace FlowTree.Operation

/-- The time that a node grants its script. -/
def budgetOf (e : Engine) (n : Node) : Duration :=
  .ofMillis (((n.param? "timeoutMs").bind Settings.asWord64?).getD e.settings.scriptTimeoutMs)

/-- Runs a script on the variables and the previous result. -/
def runCode (e : Engine) (n : Node) (prev : Json) : Action Json := do
  let source ← n.requireText "code"
  let request : Script.Request :=
    { source, vars := (← Action.vars).merged, previous := prev, budget := budgetOf e n }
  let (outcome, sandbox) := (← get).world.sandbox.execute e.limits e.timing request e.evaluator
  Action.changeWorld fun w => { w with sandbox }
  match outcome.error.bind Warning.ofRefusal? with
  | some w => Action.warn w
  | none => pure ()
  match outcome.toResult with
  | .ok v => return v
  | .error err => throw err.toNodeError

end FlowTree.Operation
