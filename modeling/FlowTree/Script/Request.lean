import FlowTree.Duration
import FlowTree.Json.Basic
import FlowTree.Script.Error

/-!
# Requests and outcomes

A request asks for a run of a script on values of the flow, and an outcome says what came of it.
-/

namespace FlowTree.Script

structure Request where
  /-- The text of a function of the context data and of the previous result. -/
  source : String
  vars : List (String × Json) := []
  previous : Json := .null
  budget : Duration := .ofMillis 1000

/-- The variables as one object. Of several values for a name the last one counts. -/
def Request.contextData (r : Request) : Json :=
  .obj (Fields.ofList r.vars)

structure Outcome where
  success : Bool
  result : Json
  error : Option ScriptError
  deriving DecidableEq

namespace Outcome

/-- What stands in for the result of a script that failed. -/
def noResult : Json := .str "none"

def succeeded (v : Json) : Outcome :=
  { success := true, result := v, error := none }

def failed (e : ScriptError) : Outcome :=
  { success := false, result := noResult, error := some e }

def ofResult : Except ScriptError Json → Outcome
  | .ok v => succeeded v
  | .error e => failed e

/-- The wording of the error, empty if there is none. -/
def errorMessage (o : Outcome) : String :=
  match o.error with
  | some e => e.message
  | none => ""

def toResult (o : Outcome) : Except ScriptError Json :=
  match o.error with
  | some e => .error e
  | none => .ok o.result

theorem toResult_ofResult (r : Except ScriptError Json) : (ofResult r).toResult = r := by
  cases r <;> rfl

end Outcome

end FlowTree.Script
