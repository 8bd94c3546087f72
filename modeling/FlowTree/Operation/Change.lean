import FlowTree.Engine.Basic
import FlowTree.Operation.Input

/-!
# Nodes that change carried objects

A change writes a value to one place of the objects that a run carries. One that cannot be applied
is logged and fails no node.
-/

namespace FlowTree.Operation

inductive ChangeTarget
  | eventData (key : String)
  | offerIcon
  | offerPrice
  | offerContent
  | configSlot (slot : String)
  deriving DecidableEq

/-- The place that a node's field names. -/
def changeTarget (n : Node) (field : String) : Except NodeError ChangeTarget :=
  if field = "eventCustomData" then ChangeTarget.eventData <$> n.requireText "key"
  else if field = "offerIcon" then .ok .offerIcon
  else if field = "offerPrice" then .ok .offerPrice
  else if field = "offerContent" then .ok .offerContent
  else .ok (.configSlot field)

/-- The nodes that a value lists as the content of an offer. -/
def contentNodes : Json → List String
  | .arr items => items.map Json.display
  | .null => []
  | v => [v.display]

/-- The offer with a value written to its target, or what is missing for it. -/
def writeOffer (catalog : Catalog) (target : ChangeTarget) (v : Json) (o : Offer) :
    Except Missing Offer :=
  match target with
  | .offerIcon =>
    if catalog.hasMedia v.display then .ok { o with icon := some v.display }
    else .error (.cachedMedia v.display)
  | .offerPrice => .ok { o with price := v }
  | _ => .ok { o with content := (contentNodes v).filterMap catalog.entityId? }

/-- The carried objects with a value written to its target, or what is missing for it. -/
def write (catalog : Catalog) (target : ChangeTarget) (v : Json) (c : Carry) :
    Except Missing Carry :=
  match target with
  | .eventData key => .ok { c with eventData := some (Fields.insert key v (c.eventData.getD [])) }
  | .configSlot slot =>
    match c.entityConfig with
    | some config => match config.setSlot? slot v with
      | some config => .ok { c with entityConfig := some config }
      | none => .error (.configSlot config.id slot)
    | none => .error .carriedConfig
  | target =>
    match c.offer with
    | some o => (writeOffer catalog target v o).map fun o => { c with offer := some o }
    | none => .error .carriedOffer

/-- The nodes of an offer's content that stand for no entity and are left out. -/
def leftOut (catalog : Catalog) (target : ChangeTarget) (v : Json) (c : Carry) : List String :=
  if target = .offerContent ∧ c.offer.isSome then
    (contentNodes v).filter fun node => (catalog.entityId? node).isNone
  else []

/-- Writes to a carried object and gives the value written. -/
def applyChange (e : Engine) (n : Node) (prev : Json) : Action Json := do
  let ctx ← Action.context
  let field ← n.requireText "fieldToSet"
  let v ← valueOf n "value" prev ctx.vars
  let target ← changeTarget n field
  (leftOut e.game.catalog target v ctx.carry).forM fun node =>
    Action.warn (.contentWithoutEntity node)
  match write e.game.catalog target v ctx.carry with
  | .ok carry => Action.changeCarry fun _ => carry
  | .error cause => Action.warn (.changeNotApplied ctx.flowId n.slotId (.lookup cause))
  return v

end FlowTree.Operation
