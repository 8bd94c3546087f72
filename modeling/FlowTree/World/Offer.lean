import FlowTree.Json.Record

/-!
# Offers

An offer as it is carried through the flows that react to it.
-/

namespace FlowTree

structure Offer where
  internalId : String
  icon : Option String := none
  price : Json := .null
  /-- The ids of the entities that the offer grants. -/
  content : List String := []
  deriving DecidableEq

namespace Offer

def toJson (o : Offer) : Json :=
  .obj [("content", .strings o.content), ("icon", .ofOption .str o.icon),
    ("internalId", .str o.internalId), ("price", o.price)]

def ofJson? (j : Json) : Option Offer := do
  let [internalId, icon, price, content] ←
    Json.record? [⟨"internalId", none⟩, ⟨"icon", none⟩, ⟨"price", none⟩, ⟨"content", none⟩] j
    | none
  return {
    internalId := ← Json.required Json.asString? internalId
    icon := ← Json.optional none (Json.nullable Json.asString?) icon
    price := ← Json.optional .null Json.anything price
    content := ← Json.optional [] (Json.listOf? Json.asString?) content }

end Offer

end FlowTree
