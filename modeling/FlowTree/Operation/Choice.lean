import FlowTree.Engine.Basic
import FlowTree.Operation.Input
import FlowTree.Rule.Condition
import FlowTree.Rule.Split
import FlowTree.Rule.Switch

/-!
# Nodes that choose

The result of a branch is a truth value, that of a switch or a split test the position of a child.
-/

namespace FlowTree.Operation

/-- Whether all conditions hold. There may be none. -/
def branch (locale : Locale) (n : Node) (prev : Json) (vars : Variables) :
    Except NodeError Json := do
  let conditions ← match n.param? "conditions" with
    | none => pure []
    | some _ => n.structured "conditions" (Json.listOf? Condition.ofJson?)
  return .bool (Condition.allHold conditions prev vars locale)

def switch (n : Node) (prev : Json) (vars : Variables) : Except NodeError Json := do
  let field ← valueOf n "field" prev vars
  let cases ← n.structured "cases" (Json.listOf? SwitchCase.ofJson?)
  return .int (selectCase field (n.text? "fieldType") cases)

/-- The splits of a node and the ladder of their shares. -/
def splitsOf (n : Node) : Except NodeError (List Split × List Float) := do
  let splits ← n.structured "splits" (Json.listOf? Split.ofJson?)
  return (splits, ← ladder splits)

/-- Pins the player to a split by its segment. -/
def assign (e : Engine) (key : String) : Action Unit := do
  Action.changePlayer fun p => p.addSegment key
  Engine.refreshSegments
  e.sync "addSegment" (.obj [("segmentId", .str key)])

/-- The split that the player is pinned to, or else one that is drawn now. -/
def splitTest (e : Engine) (n : Node) : Action Json := do
  let (splits, rungs) ← splitsOf n
  let flow := (← Action.context).flowId
  let player ← Action.player
  match Split.sticky? splits flow n.slotId player.hasSegment with
  | some i => return .int i
  | none =>
    let i := pickRung rungs (← Action.draw (RandomSource.draw 0.0 100.0))
    match splits[i]? with
    | some split =>
      assign e (Split.stickyKey flow n.slotId split.slotId)
      return .int i
    | none =>
      throw (.validation (.note ("split index " ++ toString i ++ " out of range")))

end FlowTree.Operation
