import FlowTree.Error

/-!
# Errors of scripts

Why a script does not give a value: it was refused before it ran, it is no function of two
parameters, or it failed while it ran.
-/

namespace FlowTree

inductive ScriptError
  /-- The sizes are in bytes. -/
  | tooLarge (max actual : Nat)
  | unsafeCode (summary : String)
  | notCallable (text : String)
  | execution (text : String)
  | timeout (ms : Nat)
  | overloaded (abandoned : Nat)
  | serialization (text : String)
  | internal (text : String)
  deriving DecidableEq

namespace ScriptError

/-- The error says that the script was refused before it ran. -/
def isRefusal : ScriptError → Bool
  | tooLarge .. | unsafeCode _ | overloaded _ => true
  | _ => false

/-- A name that does not change with the wording. -/
def code : ScriptError → String
  | tooLarge .. => "script_too_large"
  | unsafeCode _ => "unsafe_code"
  | notCallable _ => "script_not_callable"
  | execution _ => "script_execution_error"
  | timeout _ => "script_timeout"
  | overloaded _ => "script_overloaded"
  | serialization _ => "serialization_error"
  | internal _ => "internal_error"

def message : ScriptError → String
  | tooLarge max actual =>
    "Script too large (max " ++ toString max ++ " bytes, got " ++ toString actual ++ " bytes)"
  | unsafeCode summary => "Unsafe code rejected: " ++ summary
  | notCallable text =>
    "Script must evaluate to a function (contextData, previousResult): " ++ text
  | execution text => "Script error: " ++ text
  | timeout ms => "Script timed out after " ++ toString ms ++ " ms"
  | overloaded abandoned =>
    "Script refused: " ++ toString abandoned ++ " timed-out workers still running"
  | serialization text => "Serialization error: " ++ text
  | internal text => "Internal error: " ++ text

/-- The error of a node whose script fails. -/
def toNodeError : ScriptError → NodeError
  | unsafeCode summary => .unsafeCode summary
  | timeout ms => .timeout ms
  | serialization text => .serialization text
  | e => .script e.message

end ScriptError

end FlowTree
