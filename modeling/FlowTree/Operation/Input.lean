import FlowTree.Flow.Node

/-!
# Inputs of nodes

A node finds its inputs in its parameters: ids as texts or references, values as references, with
the result of the node before in place of one that is left out.
-/

namespace FlowTree.Operation

/-- The id that a parameter gives as a text or refers to. It must not be empty. -/
def idOf (n : Node) (key : String) (prev : Json) (vars : Variables) : Except NodeError String :=
  match n.text? key with
  | some id => .ok id
  | none => do
    let id ← match ← n.ref? key with
      | some r => Json.display <$> r.resolve prev vars
      | none => .ok ""
    if id = "" then .error (.validation (.missing n.op key)) else .ok id

/-- The value that a parameter refers to, null for a variable that is not there. -/
def valueOf (n : Node) (key : String) (prev : Json) (vars : Variables) : Except NodeError Json := do
  return (← n.requireRef key).resolveOrNull prev vars

/-- The value that a parameter refers to, or the previous result without one. -/
def valueOrPrevious (n : Node) (key : String) (prev : Json) (vars : Variables) :
    Except NodeError Json := do
  match ← n.ref? key with
  | some r => return r.resolveOrNull prev vars
  | none => return prev

def numberOf (locale : Locale) (n : Node) (key : String) (prev : Json) (vars : Variables) :
    Except NodeError Float := do
  (← valueOf n key prev vars).toNumber locale

end FlowTree.Operation
