import FlowTree.Script.Primitive

/-!
# Operators of scripts

Sums join texts if one side is a text, all other arithmetic is on numbers. Texts are compared unit
by unit, other values as numbers. Operators on constants are carried out when a script is read. All
but negation give the same then as at run time.
-/

namespace FlowTree.Script

inductive UnaryOp
  | not
  | neg
  | plus
  | typeOf
  deriving DecidableEq, Repr

inductive BinaryOp
  | add
  | sub
  | mul
  | div
  | rem
  | same
  | different
  | less
  | greater
  | atMost
  | atLeast
  deriving DecidableEq, Repr

namespace UnaryOp

/-- A negated integer is one again, unless it is zero. -/
def onConstant (op : UnaryOp) (p : Primitive) : Primitive :=
  match op with
  | not => .bool !p.isTruthy
  | neg => .num p.number.neg
  | plus => .num p.number.widen
  | typeOf => .ofString p.typeName

/-- A number with a sign is a double. -/
def onValue (op : UnaryOp) (p : Primitive) : Primitive :=
  match op with
  | neg => .num p.number.widen.neg
  | op => op.onConstant p

end UnaryOp

namespace BinaryOp

/-- Integers come of numbers alone: where one side is no number, both are doubles. -/
def arithmetic {α : Type} (f : Numeric → Numeric → α) : Primitive → Primitive → α
  | .num a, .num b => f a b
  | a, b => f a.number.widen b.number.widen

def sum : Primitive → Primitive → Primitive
  | .str s, b => .str (s ++ b.text)
  | a, .str t => .str (a.text ++ t)
  | a, b => .num (arithmetic .add a b)

/-- Compares two values, as texts with `texts` and as numbers with `numbers`. -/
def compare (texts : Utf16 → Utf16 → Bool) (numbers : Numeric → Numeric → Bool) :
    Primitive → Primitive → Bool
  | .str s, .str t => texts s t
  | a, b => numbers a.number b.number

/-- The result on two values, where there is one: some remainders do not exist. -/
def result? (op : BinaryOp) (a b : Primitive) : Option Primitive :=
  match op with
  | add => some (sum a b)
  | sub => some (.num (arithmetic .sub a b))
  | mul => some (.num (arithmetic .mul a b))
  | div => some (.num (arithmetic .div a b))
  | rem => (arithmetic Numeric.rem? a b).map .num
  | same => some (.bool (a.same b))
  | different => some (.bool (!a.same b))
  | less => some (.bool (compare (fun s t => s.before t) (fun x y => x.less y) a b))
  | greater => some (.bool (compare (fun s t => t.before s) (fun x y => y.less x) a b))
  | atMost => some (.bool (compare (fun s t => !t.before s) (fun x y => x.atMost y) a b))
  | atLeast => some (.bool (compare (fun s t => !s.before t) (fun x y => y.atMost x) a b))

end BinaryOp

end FlowTree.Script
