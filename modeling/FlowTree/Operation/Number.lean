import FlowTree.Operation.Input
import FlowTree.Rule.Arithmetic
import FlowTree.Run.World

/-!
# Nodes that calculate

Arithmetic, rounding, clamping and random numbers. All but the last one only read.
-/

namespace FlowTree.Operation

def arithmetic (locale : Locale) (n : Node) (prev : Json) (vars : Variables) :
    Except NodeError Json := do
  match Arithmetic.ofTag? n.op with
  | some op =>
    let a ← numberOf locale n "value1" prev vars
    let b ← numberOf locale n "value2" prev vars
    return .ofFloat (op.apply a b)
  | none => throw (.validation (.wrongKind n.op "an arithmetic"))

/-- How many places after the point a rounding node keeps, at most 15. -/
def digitsOf (n : Node) : Nat :=
  let digits := ((n.param? "digits").bind (Json.asIntIn? minInt64 maxInt64)).getD 0
  min digits.toNat 15

/-- `x` rounded to so many places by the rounding that an operation names. -/
def roundBy? (op : Tag) (digits : Nat) (x : Float) : Option Float :=
  let factor := Binary64.powTen digits
  match op with
  | .ceil => some (Binary64.ceil (x * factor) / factor)
  | .floor => some (Binary64.floor (x * factor) / factor)
  | .round => some (roundTo x digits)
  | _ => none

def rounding (locale : Locale) (n : Node) (prev : Json) (vars : Variables) :
    Except NodeError Json := do
  let x ← (← valueOrPrevious n "value" prev vars).toNumber locale
  match roundBy? n.op (digitsOf n) x with
  | some y => return .ofFloat y
  | none => throw (.validation (.wrongKind n.op "a rounding"))

def clamp (locale : Locale) (n : Node) (prev : Json) (vars : Variables) :
    Except NodeError Json := do
  let x ← (← valueOrPrevious n "value" prev vars).toNumber locale
  let min ← numberOf locale n "min" prev vars
  let max ← numberOf locale n "max" prev vars
  if min > max then throw (.validation (.clampOrder min max))
  return .ofFloat (Binary64.smaller (Binary64.larger x min) max)

/-- The range of a random node, whose span must be finite. -/
def randomRange (locale : Locale) (n : Node) (prev : Json) (vars : Variables) :
    Except NodeError (Float × Float) := do
  let min ← numberOf locale n "min" prev vars
  let max ← numberOf locale n "max" prev vars
  if !(max - min).isFinite then throw (.validation (.randomSpan min max))
  if min > max then throw (.validation (.randomOrder min max))
  return (min, max)

/-- The integers of a range within 64 bits. -/
def integerRange (min max : Float) : Except NodeError (Int × Int) := do
  let lo := Binary64.toInt64 (Binary64.ceil min)
  let hi := Binary64.toInt64 (Binary64.floor max)
  if hi < lo then throw (.validation (.randomNoInteger min max))
  return (lo, hi)

/-- A number of a range, or an integer if the node asks for one, where `draw` and `drawInt` say how
they are drawn from a source. -/
def randomBy (draw : Float → Float → RandomSource → Float × RandomSource)
    (drawInt : Int → Int → RandomSource → Int × RandomSource) (locale : Locale) (n : Node)
    (prev : Json) : Action Json := do
  let (min, max) ← randomRange locale n prev (← Action.vars)
  if n.flag "integer" then
    let (lo, hi) ← integerRange min max
    return .int (← Action.draw (drawInt lo hi))
  else return .ofFloat (← Action.draw (draw min max))

def random (locale : Locale) (n : Node) (prev : Json) : Action Json :=
  randomBy RandomSource.draw RandomSource.drawInt locale n prev

end FlowTree.Operation
