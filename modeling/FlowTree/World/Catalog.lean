import FlowTree.World.Offer

/-!
# The catalog of the game

Offers by their internal ids, the entities that content nodes stand for, and the names of the cached
media.
-/

namespace FlowTree

structure Catalog where
  offers : List Offer := []
  entityIds : List (String × String) := []
  media : List String := []
  deriving DecidableEq

namespace Catalog

/-- The last offer given under an id. -/
def offer? (c : Catalog) (id : String) : Option Offer :=
  (c.offers.filter fun o => o.internalId == id).getLast?

def entityId? (c : Catalog) (node : String) : Option String :=
  c.entityIds.lookup node

def hasMedia (c : Catalog) (name : String) : Bool :=
  c.media.contains name

end Catalog

end FlowTree
