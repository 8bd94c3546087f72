import FlowTree.Json.Record
import FlowTree.Value.Coercion

/-!
# Stat templates

A template declares a stat of the players: its type, its default and, for numbers, its range.
-/

namespace FlowTree

structure StatTemplate where
  id : String
  internalId : String
  type : Target := .number
  rangeMin : Option Float := none
  rangeMax : Option Float := none
  default : Json := .null
  deriving DecidableEq

namespace StatTemplate

/-- A number without a range, zero by default. -/
def number (id : String) : StatTemplate :=
  { id, internalId := id, default := .int 0 }

def withRange (t : StatTemplate) (min max : Float) : StatTemplate :=
  { t with rangeMin := some min, rangeMax := some max }

/-- The number nearest to `x` in the range, whose open ends are unbounded. -/
def clamp (t : StatTemplate) (x : Float) : Float :=
  let x := match t.rangeMin with
    | some min => if x < min then min else x
    | none => x
  match t.rangeMax with
  | some max => if x > max then max else x
  | none => x

def toJson (t : StatTemplate) : Json :=
  .obj [("defaultValue", t.default), ("id", .str t.id), ("internalId", .str t.internalId),
    ("rangeMax", .ofOption .stored t.rangeMax), ("rangeMin", .ofOption .stored t.rangeMin),
    ("type", .str t.type.name)]

def ofJson? (j : Json) : Option StatTemplate := do
  let [id, internalId, type, rangeMin, rangeMax, default] ←
    Json.record? [⟨"id", none⟩, ⟨"internalId", none⟩, ⟨"type", none⟩, ⟨"rangeMin", none⟩,
      ⟨"rangeMax", none⟩, ⟨"defaultValue", none⟩] j | none
  return {
    id := ← Json.required Json.asString? id
    internalId := ← Json.required Json.asString? internalId
    type := ← Json.optional .number (fun j => (Json.caseName? j).bind Target.ofName?) type
    rangeMin := ← Json.optional none (Json.nullable Json.asFloat?) rangeMin
    rangeMax := ← Json.optional none (Json.nullable Json.asFloat?) rangeMax
    default := ← Json.optional .null Json.anything default }

end StatTemplate

end FlowTree
