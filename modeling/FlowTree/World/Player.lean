import FlowTree.Value.Coercion

/-!
# Players

The profile of a player: the segments in the order in which they were joined, the stored stats, and
the flows that were reported as entered.
-/

namespace FlowTree

structure Player where
  segments : List String := []
  stats : Fields := []
  entered : List String := []
  /-- Whether the host asked to be told of entered flows. -/
  listens : Bool := true
  deriving DecidableEq

namespace Player

def hasSegment (p : Player) (id : String) : Bool :=
  p.segments.contains id

/-- Joins a segment unless it is held already. -/
def addSegment (p : Player) (id : String) : Player :=
  if p.hasSegment id then p else { p with segments := p.segments ++ [id] }

def removeSegment (p : Player) (id : String) : Player :=
  { p with segments := p.segments.filter (· != id) }

def stat? (p : Player) (id : String) : Option Json :=
  Fields.get? id p.stats

def setStat (p : Player) (id : String) (v : Json) : Player :=
  { p with stats := Fields.insert id v p.stats }

/-- The stored stat as a number, zero if it is none. -/
def numericStat (p : Player) (id : String) : Float :=
  ((p.stat? id).bind Json.asFloat?).getD 0.0

def addToStat (p : Player) (id : String) (amount : Float) : Player :=
  p.setStat id (.ofFloat (p.numericStat id + amount))

def subtractFromStat (p : Player) (id : String) (amount : Float) : Player :=
  p.addToStat id (-amount)

def enterFlow (p : Player) (flow : String) : Player :=
  if p.listens then { p with entered := p.entered ++ [flow] } else p

@[simp]
theorem hasSegment_addSegment_self (p : Player) (id : String) :
    (p.addSegment id).hasSegment id = true := by
  unfold addSegment
  split
  · assumption
  · simp [hasSegment]

theorem hasSegment_addSegment_of_ne {id id' : String} (h : id' ≠ id) (p : Player) :
    (p.addSegment id).hasSegment id' = p.hasSegment id' := by
  unfold addSegment
  split
  · rfl
  · simp [hasSegment, h]

@[simp]
theorem hasSegment_removeSegment_self (p : Player) (id : String) :
    (p.removeSegment id).hasSegment id = false := by
  simp [hasSegment, removeSegment]

theorem hasSegment_removeSegment_of_ne {id id' : String} (h : id' ≠ id) (p : Player) :
    (p.removeSegment id).hasSegment id' = p.hasSegment id' := by
  simp [hasSegment, removeSegment, h]

@[simp]
theorem stat?_setStat_self (p : Player) (id : String) (v : Json) :
    (p.setStat id v).stat? id = some v := by
  simp [stat?, setStat]

theorem stat?_setStat_of_ne {id id' : String} (h : id' ≠ id) (p : Player) (v : Json) :
    (p.setStat id v).stat? id' = p.stat? id' := by
  simp [stat?, setStat, Fields.get?_insert_of_ne h]

end Player

end FlowTree
