import FlowTree.Json.Record
import FlowTree.Value.Coercion

/-!
# Switches

A switch picks the first case whose value has the display form of the field. A field of segments
matches a case that one of its elements matches. Default cases never match by their value; the first
of them is picked if no other case is.
-/

namespace FlowTree

structure SwitchCase where
  value : Json := .null
  isDefault : Bool := false
  deriving DecidableEq

namespace SwitchCase

def toJson (c : SwitchCase) : Json :=
  .obj [("isDefault", .bool c.isDefault), ("value", c.value)]

def ofJson? (j : Json) : Option SwitchCase := do
  let [value, isDefault] ←
    Json.record? [⟨"value", some "type"⟩, ⟨"isDefault", none⟩] j | none
  return {
    value := ← Json.optional .null Json.anything value
    isDefault := ← Json.optional false Json.asBool? isDefault }

/-- The declared type of a field that lists the player's segments. -/
def segmentField : String := "segmentID"

/-- Whether the case is picked for the field by its value. -/
def accepts (fieldType : Option String) (field : Json) (c : SwitchCase) : Bool :=
  !c.isDefault &&
    match field with
    | .arr items =>
      if fieldType = some segmentField then items.any fun v => v.display == c.value.display
      else field.display == c.value.display
    | _ => field.display == c.value.display

end SwitchCase

/-- The position of the case that is picked, or -1 if none is. -/
def selectCase (field : Json) (fieldType : Option String) (cases : List SwitchCase) : Int :=
  match cases.findIdx? (SwitchCase.accepts fieldType field) with
  | some i => i
  | none => match cases.findIdx? SwitchCase.isDefault with
    | some i => i
    | none => -1

end FlowTree
