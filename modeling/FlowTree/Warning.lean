import FlowTree.Json.Basic
import FlowTree.Script.Error

/-!
# Warnings

What a run writes to the log of the game: failures that end no run, each with what it was about.
-/

namespace FlowTree

inductive Warning
  | nodeFailed (flow slot : String) (op : Tag) (error : NodeError)
  | changeNotApplied (flow slot : String) (error : NodeError)
  | contentWithoutEntity (node : String)
  | syncFailed (flow action : String) (error : NodeError)
  | scriptRefused (abandoned : Nat)
  | scriptRejected (error : ScriptError)
  deriving DecidableEq

namespace Warning

def message : Warning → String
  | nodeFailed .. => "node failed; skipping its subtree"
  | changeNotApplied .. => "change not applied"
  | contentWithoutEntity _ => "offer content has no entity"
  | syncFailed .. => "backend sync failed"
  | scriptRefused _ => "script refused; too many runaway workers still running"
  | scriptRejected _ => "script rejected by vetting"

/-- The code and the wording of an error. -/
def errorFields (e : NodeError) : Fields :=
  [("error", .str e.message), ("error_code", .str e.code)]

/-- What the warning is about, by name. -/
def fields : Warning → Fields
  | nodeFailed flow slot op e =>
    errorFields e ++ [("flow_id", .str flow), ("op", .str op.name), ("slot_id", .str slot)]
  | changeNotApplied flow slot e =>
    errorFields e ++ [("flow_id", .str flow), ("slot_id", .str slot)]
  | contentWithoutEntity node => [("node_id", .str node)]
  | syncFailed flow action e =>
    ("action", .str action) :: errorFields e ++ [("flow_id", .str flow)]
  | scriptRefused abandoned => [("abandoned", .int abandoned)]
  | scriptRejected e => [("error", .str e.message)]

/-- The warning of a script that was not let through to a worker. -/
def ofRefusal? : ScriptError → Option Warning
  | .overloaded abandoned => some (scriptRefused abandoned)
  | .tooLarge max actual => some (scriptRejected (.tooLarge max actual))
  | .unsafeCode summary => some (scriptRejected (.unsafeCode summary))
  | _ => none

end Warning

end FlowTree
