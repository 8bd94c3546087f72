import FlowTree.Script.Limits
import FlowTree.Script.Request
import FlowTree.World.Random

/-!
# Evaluators

An evaluator takes the text of a script for a function, calls it and says what comes of it. A sandbox
works with any evaluator. All that it relies on is that none refuses scripts: to do so is up to the
sandbox.
-/

namespace FlowTree.Script

/-- Why a script gives no value: for an error of its own, or because its value cannot be
reported. -/
inductive Failure
  | error (e : ScriptError)
  | unreportable

structure Evaluator where
  /-- The result of a script that starts at some time, in milliseconds since 1970, and the generator
  after its draws. -/
  evaluate : Limits → Nat → Request → Generator → Except Failure Json × Generator
  isRefusal_of_evaluate {limits : Limits} {clock : Nat} {r : Request} {g : Generator}
    {e : ScriptError} (h : (evaluate limits clock r g).1 = .error (.error e)) : e.isRefusal = false

end FlowTree.Script
