import FlowTree.Script.Numeric
import FlowTree.Text.Utf16

/-!
# Primitive values

The values of scripts that are no objects, and what they are as texts, numbers and truth values.
-/

namespace FlowTree.Script

inductive Primitive
  | undefined
  | null
  | bool (b : Bool)
  | num (n : Numeric)
  | str (s : Utf16)
  deriving DecidableEq

instance : Inhabited Primitive := ⟨.undefined⟩

namespace Primitive

def ofString (s : String) : Primitive := str (.ofString s)

def isTruthy : Primitive → Bool
  | undefined | null => false
  | bool b => b
  | num n => n.isTruthy
  | str s => !s.isEmpty

def text : Primitive → Utf16
  | undefined => .ofString "undefined"
  | null => .ofString "null"
  | bool b => .ofString (if b then "true" else "false")
  | num n => .ofString n.text
  | str s => s

/-- The number that a value stands for, a double unless the value is a number itself. -/
def number : Primitive → Numeric
  | undefined => .double Binary64.notANumber
  | null => .double 0.0
  | bool b => .double (if b then 1.0 else 0.0)
  | num n => n
  | str s => .ofText s.chars

/-- The same value, a double if it is a number. -/
def widen : Primitive → Primitive
  | num n => num n.widen
  | p => p

/-- The same value, an integer if it is a number that can be one. -/
def narrow : Primitive → Primitive
  | num n => num n.narrow
  | p => p

def typeName : Primitive → String
  | undefined => "undefined"
  | null => "object"
  | bool _ => "boolean"
  | num _ => "number"
  | str _ => "string"

/-- Whether two values are the same. A number that is none differs from all. -/
def same : Primitive → Primitive → Bool
  | num a, num b => a.same b
  | a, b => decide (a = b)

/-- The text of a value that is shown by itself. -/
def display : Primitive → String
  | num n => n.display
  | str s => "\x22" ++ s.text ++ "\x22"
  | p => p.text.text

end Primitive

end FlowTree.Script
