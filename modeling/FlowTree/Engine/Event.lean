import FlowTree.Engine.Trigger

/-!
# Events of the game

What happens in a game and makes flows run. An event fires its trigger for the flows whose roots ask
for just such an event, and tells them what happened.
-/

namespace FlowTree

inductive Event
  | sessionStarted (contextual : Fields)
  | customTrigger (id : String) (seed : Json)
  | offerShown (offer : Offer)
  | configRetrieved (config : EntityConfig)
  | itemAdded (id : String) (amount : Float)
  | itemRemoved (id : String) (amount : Float)
  | statChanged (id : String) (value : Json)
  | segmentEntered (id : String)
  | segmentLeft (id : String)
  | analytics (name : String) (data : Fields)

namespace Event

def trigger : Event → Tag
  | sessionStarted _ => .sessionStart
  | customTrigger .. => .customTrigger
  | offerShown _ => .offerShown
  | configRetrieved _ => .configParamRetrieved
  | itemAdded .. => .itemAdded
  | itemRemoved .. => .itemRemoved
  | statChanged .. => .statChanged
  | segmentEntered _ => .segmentEnter
  | segmentLeft _ => .segmentExit
  | analytics .. => .analyticsEventSend

/-- Whether the parameters of a root ask for the event. -/
def matchesParams (params : Fields) : Event → Bool
  | sessionStarted _ => true
  | customTrigger id _ => Engine.paramMatches params "triggerId" id
  | offerShown o => Engine.paramMatches params "offerId" o.internalId
  | configRetrieved c => Engine.paramMatches params "configId" c.id
  | itemAdded id _ | itemRemoved id _ => Engine.paramMatches params "itemId" id
  | statChanged id _ => Engine.paramMatches params "statId" id
  | segmentEntered id | segmentLeft id => Engine.paramMatches params "segmentId" id
  | analytics name _ => Engine.paramMatches params "eventName" name

/-- What a run learns of the event. -/
def invocation : Event → Invocation
  | sessionStarted contextual => { contextual }
  | customTrigger _ seed => { seed }
  | offerShown o => { seed := .str o.internalId, carry := { offer := some o } }
  | configRetrieved c => { seed := .str c.id, carry := { entityConfig := some c } }
  | itemAdded id amount | itemRemoved id amount =>
    { contextual := [("itemId", .str id)], seed := .ofFloat amount }
  | statChanged _ v => { seed := v }
  | segmentEntered id | segmentLeft id => { seed := .str id }
  | analytics name data => { seed := .str name, carry := { eventData := some data } }

/-- Whether a flow waits for the event. -/
def awaitedBy (event : Event) (f : Flow) : Bool :=
  f.root.op == event.trigger && event.matchesParams f.root.params

end Event

/-- Runs the flows that wait for an event. -/
def Engine.handle (e : Engine) (event : Event) (w : World) : TriggerResult × World :=
  e.fire event.awaitedBy event.invocation w

end FlowTree
