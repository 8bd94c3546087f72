import FlowTree.Binary64
import FlowTree.Flow.Tag

/-!
# Arithmetic

The operations of the arithmetic nodes on doubles. None of them fails: a division by zero gives an
infinity or the double that is not a number.
-/

namespace FlowTree

inductive Arithmetic
  | add
  | subtract
  | multiply
  | divide
  | power
  | modulo
  deriving DecidableEq, Repr

namespace Arithmetic

def ofTag? : Tag → Option Arithmetic
  | .add => some add
  | .subtract => some subtract
  | .multiply => some multiply
  | .divide => some divide
  | .power => some power
  | .modulo => some modulo
  | _ => none

def apply : Arithmetic → Float → Float → Float
  | add, a, b => a + b
  | subtract, a, b => a - b
  | multiply, a, b => a * b
  | divide, a, b => a / b
  | power, a, b => Float.pow a b
  | modulo, a, b => Binary64.rem a b

end Arithmetic

/-- `x` rounded to `digits` places after the point, a tie going away from zero. -/
def roundTo (x : Float) (digits : Int) : Float :=
  if digits ≤ 0 then Binary64.round x
  else
    let factor := Binary64.powTen digits.toNat
    Binary64.round (x * factor) / factor

end FlowTree
