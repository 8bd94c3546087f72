import FlowTree.Engine.Basic
import FlowTree.Operation.Input

/-!
# Nodes on the player

Segments and stats. A change of a segment is reported to the backend, and the context follows the
player in both.
-/

namespace FlowTree.Operation

/-- The change of a player's segments by which an operation brings about what it asks for, and the
name by which it is reported; nothing if it is so already. -/
def segmentEdit (op : Tag) (held : Bool) (id : String) :
    Except NodeError (Option (String × (Player → Player))) :=
  match op with
  | .segmentAdd => .ok (if held then none else some ("addSegment", fun p => p.addSegment id))
  | .segmentRemove =>
    .ok (if held then some ("removeSegment", fun p => p.removeSegment id) else none)
  | op => .error (.validation (.wrongKind op "a segment"))

/-- Adds or removes a segment. -/
def segmentChange (e : Engine) (n : Node) (prev : Json) : Action Json := do
  let id ← idOf n "segmentId" prev (← Action.vars)
  match ← segmentEdit n.op ((← Action.player).hasSegment id) id with
  | some (action, edit) =>
    Action.changePlayer edit
    Engine.refreshSegments
    e.sync action (.obj [("segmentId", .str id)])
  | none => pure ()
  return .str id

/-- A value as one that a stat can have. -/
def statValue (locale : Locale) (t : StatTemplate) (v : Json) : Except NodeError Json := do
  let v ← v.coerceTo locale t.type
  match t.type with
  | .number => return .ofFloat (t.clamp (← v.toNumber locale))
  | _ => return v

/-- Changes a stored stat and brings it back into its range. -/
def shiftStat (locale : Locale) (t : StatTemplate) (stat : String) (shift : Player → Player) :
    Action Json := do
  Action.changePlayer shift
  let current ← (((← Action.player).stat? stat).getD .null).toNumber locale
  let clamped := t.clamp current
  if clamped != current then Action.changePlayer fun p => p.setStat stat (.ofFloat clamped)
  return .ofFloat clamped

/-- Sets a stat, adds to it or subtracts from it. -/
def statChange (e : Engine) (n : Node) (prev : Json) : Action Json := do
  let vars ← Action.vars
  let stat ← idOf n "statId" prev vars
  let t ← match e.game.template? stat with
    | some t => pure t
    | none => throw (.lookup (.statTemplate stat))
  let input ← valueOf n "value" prev vars
  let amount : Except NodeError Float :=
    if t.type ≠ .number then .error (.validation (.statKind n.op stat t.type.name))
    else input.toNumber e.locale
  let v ← match n.op with
    | .statSet => do
      let v ← statValue e.locale t input
      Action.changePlayer fun p => p.setStat stat v
      pure v
    | .statAdd => do
      let amount ← amount
      shiftStat e.locale t stat fun p => p.addToStat stat amount
    | .statSubtract => do
      let amount ← amount
      shiftStat e.locale t stat fun p => p.subtractFromStat stat amount
    | op => throw (.validation (.wrongKind op "a stat"))
  Action.setContextual stat v
  return v

end FlowTree.Operation
