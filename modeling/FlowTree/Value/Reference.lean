import FlowTree.Json.Record
import FlowTree.Value.Coercion
import FlowTree.Value.Variables

/-!
# References to values

A node's input is a literal, the result of the node before it, or the name of a variable. The
declared kind of a reference tells local variables from contextual ones.
-/

namespace FlowTree

/-- The declared kind of a reference. Every kind but `saved` names a contextual variable. -/
inductive RefKind
  | string
  | number
  | boolean
  | saved
  | other
  deriving DecidableEq, Repr

namespace RefKind

def name : RefKind → String
  | string => "string"
  | number => "number"
  | boolean => "boolean"
  | saved => "variable"
  | other => "other"

def ofName (s : String) : RefKind :=
  ([string, number, boolean, saved].find? fun k => k.name == s).getD other

end RefKind

structure Ref where
  value : Json := .null
  kind : RefKind := .string
  isLiteral : Bool := false
  deriving DecidableEq

namespace Ref

/-- The key that names the result of the node before. -/
def previousKey : String := "$previous"

def literal (v : Json) : Ref :=
  { value := v
    kind := match v with
      | .num _ => .number
      | .bool _ => .boolean
      | _ => .string
    isLiteral := true }

def localVariable (name : String) : Ref :=
  { value := .str name, kind := .saved }

def contextual (id : String) (kind : RefKind) : Ref :=
  { value := .str id, kind }

def previous : Ref :=
  contextual previousKey .other

/-- The value referred to, where `prev` is the result of the node before. -/
def resolve (r : Ref) (prev : Json) (vars : Variables) : Except NodeError Json :=
  if r.isLiteral then .ok r.value
  else
    let key := r.value.display
    if key = previousKey then .ok prev
    else if r.kind = .saved then
      match vars.local? key with
      | some v => .ok v
      | none => .error (.lookup (.localVariable key))
    else
      match vars.contextual? key with
      | some v => .ok v
      | none => .error (.lookup (.contextualVariable key))

/-- The value referred to, null for a variable that is not there. -/
def resolveOrNull (r : Ref) (prev : Json) (vars : Variables) : Json :=
  match r.resolve prev vars with
  | .ok v => v
  | .error _ => .null

def toJson (r : Ref) : Json :=
  .obj [("isLiteral", .bool r.isLiteral), ("type", .str r.kind.name), ("value", r.value)]

def ofJson? (j : Json) : Option Ref := do
  let [value, kind, isLiteral] ←
    Json.record? [⟨"value", some "raw"⟩, ⟨"type", none⟩, ⟨"isLiteral", none⟩] j | none
  return {
    value := ← Json.optional .null Json.anything value
    kind := ← Json.optional .string (fun j => (Json.caseName? j).map RefKind.ofName) kind
    isLiteral := ← Json.optional false Json.asBool? isLiteral }

end Ref

end FlowTree
