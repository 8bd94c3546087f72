import FlowTree.Flow.Tag
import FlowTree.Value.Reference

/-!
# Flows

A flow is a tree of nodes under a trigger. Branches, switches and split tests choose one of their
children by its position, all other nodes lead to each child in turn.
-/

namespace FlowTree

structure Node where
  op : Tag
  slotId : String := ""
  params : Fields := []
  children : List Node := []

structure Flow where
  id : String
  root : Node

/-- The segment that players get when they enter the flow. -/
def Flow.autoSegment (f : Flow) : String :=
  "flow_" ++ f.id

namespace Node

/-! ### Parameters -/

/-- The parameter `key`. One that is null counts as missing. -/
def param? (n : Node) (key : String) : Option Json :=
  (Fields.get? key n.params).filter fun v => !v.isNull

/-- The parameter `key` if it is a string with something in it. -/
def text? (n : Node) (key : String) : Option String :=
  ((n.param? key).bind Json.asString?).filter fun s => s != ""

def requireText (n : Node) (key : String) : Except NodeError String :=
  match n.text? key with
  | some s => .ok s
  | none => .error (.validation (.missing n.op key))

/-- Whether the parameter `key` is true. -/
def flag (n : Node) (key : String) : Bool :=
  ((n.param? key).bind Json.asBool?).getD false

def ref? (n : Node) (key : String) : Except NodeError (Option Ref) :=
  match n.param? key with
  | none => .ok none
  | some v => match Ref.ofJson? v with
    | some r => .ok (some r)
    | none => .error (.validation (.notReference n.op key))

def requireRef (n : Node) (key : String) : Except NodeError Ref := do
  match ← n.ref? key with
  | some r => .ok r
  | none => .error (.validation (.missing n.op key))

/-- The parameter `key` as `read` reads it. -/
def structured {α : Type} (n : Node) (key : String) (read : Json → Option α) :
    Except NodeError α :=
  match n.param? key with
  | none => .error (.validation (.missing n.op key))
  | some v => match read v with
    | some a => .ok a
    | none => .error (.validation (.unreadable n.op key))

/-- The local variable that the node's result is saved in. -/
def savedVariable? (n : Node) : Option String :=
  n.text? "savedVariable"

/-! ### Building nodes -/

def withParam (n : Node) (key : String) (v : Json) : Node :=
  { n with params := Fields.insert key v n.params }

def withChildren (n : Node) (cs : List Node) : Node :=
  { n with children := n.children ++ cs }

/-! ### Nodes as values -/

mutual

def toJson : Node → Json
  | ⟨op, slotId, params, children⟩ =>
    .obj [("children", .arr (toJsonItems children)), ("op", .str op.storedName),
      ("params", .obj params), ("slotId", .str slotId)]

def toJsonItems : List Node → List Json
  | [] => []
  | n :: ns => toJson n :: toJsonItems ns

end

/-- A node from the values of its first three fields and the nodes below it. -/
def assemble? (children : List Node) : List (Option Json) → Option Node
  | [op, slotId, params] => do
    return {
      op := ← Json.required (fun j => (Json.caseName? j).map Tag.ofName) op
      slotId := ← Json.optional "" Json.asString? slotId
      params := ← Json.optional [] Json.asFields? params
      children }
  | _ => none

/-- The names of the first three fields. The fourth is the children. -/
def headFields : List Json.FieldName :=
  [⟨"op", some "opTag"⟩, ⟨"slotId", none⟩, ⟨"params", none⟩]

mutual

def ofJson? : Json → Option Node
  | .obj fields => do assemble? (← childrenIn? fields) (← Json.record? headFields (.obj fields))
  | .arr [op, slotId, params, .arr children] => do
    assemble? (← ofItems? children) [some op, some slotId, some params]
  | .arr items => do assemble? [] (← Json.record? headFields (.arr items))
  | _ => none

/-- The nodes under the key `children`, none if it is missing. -/
def childrenIn? : List (String × Json) → Option (List Node)
  | [] => some []
  | (k, v) :: fs =>
    if k = "children" then
      match v with
      | .arr items => ofItems? items
      | _ => none
    else childrenIn? fs

def ofItems? : List Json → Option (List Node)
  | [] => some []
  | j :: js => do return (← ofJson? j) :: (← ofItems? js)

end

end Node

namespace Flow

def toJson (f : Flow) : Json :=
  .obj [("id", .str f.id), ("root", f.root.toJson)]

def ofJson? (j : Json) : Option Flow := do
  let [id, root] ← Json.record? [⟨"id", none⟩, ⟨"root", none⟩] j | none
  return {
    id := ← Json.required Json.asString? id
    root := ← Json.required Node.ofJson? root }

end Flow

end FlowTree
