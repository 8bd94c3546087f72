import FlowTree.Flow.Node
import FlowTree.Json.Parser
import FlowTree.Toml.Document

/-!
# Documents of flows

Flows are stored as texts in one of two formats, a flow or a list of flows per text. A list may
stand under the key `flows` of an object.
-/

namespace FlowTree

inductive Format
  | json
  | toml
  deriving DecidableEq, Repr

/-- The free-form value that a text of the format writes. -/
def Format.read? (format : Format) (text : String) : Option Json :=
  match format with
  | json => Json.parse? text
  | toml => (Toml.parse? text).map Toml.toJson

namespace Flow

def parse (format : Format) (text : String) : Except FlowError Flow :=
  match (format.read? text).bind ofJson? with
  | some f => .ok f
  | none => .error (.parse "not a flow")

/-- The list of flows in a document: the entry `flows` of an object, or the document itself. -/
def listIn : Json → Json
  | .obj fields => (Fields.get? "flows" fields).getD (.obj fields)
  | j => j

def parseList (format : Format) (text : String) : Except FlowError (List Flow) :=
  match (format.read? text).bind fun j => Json.listOf? ofJson? (listIn j) with
  | some fs => .ok fs
  | none => .error (.parse "not a list of flows")

end Flow

end FlowTree
