import FlowTree.Script.Primitive

/-!
# Values of scripts

A value is a primitive one, a function that is there before a script starts, or an object, which is
named by its place in the machine.
-/

namespace FlowTree.Script

/-- Functions that are there before a script starts. `other` ones have a name and a number of
parameters, but scripts do not call them. -/
inductive Native
  | push
  | keys
  | objects
  | now
  | randomInt
  | chance
  | uuid
  /-- Makes errors of the given name. -/
  | error (name : String)
  | other (name : String) (arity : Nat)
  deriving DecidableEq, Repr

namespace Native

def name : Native → String
  | push => "push"
  | keys => "keys"
  | objects => "Object"
  | now => "now"
  | randomInt => "randomInt"
  | chance => "chance"
  | uuid => "uuidv4"
  | error n => n
  | other n _ => n

def arity : Native → Nat
  | push => 1
  | keys => 1
  | objects => 1
  | now => 0
  | randomInt => 2
  | chance => 1
  | uuid => 0
  | error _ => 1
  | other _ n => n

end Native

inductive Val
  | primitive (p : Primitive)
  | native (f : Native)
  | ref (i : Nat)
  deriving DecidableEq

instance : Inhabited Val := ⟨.primitive .undefined⟩

namespace Val

@[match_pattern] def undefined : Val := primitive .undefined

@[match_pattern] def null : Val := primitive .null

@[match_pattern] def bool (b : Bool) : Val := primitive (.bool b)

@[match_pattern] def num (n : Numeric) : Val := primitive (.num n)

@[match_pattern] def str (s : Utf16) : Val := primitive (.str s)

def ofString (s : String) : Val := str (.ofString s)

/-- An integer as a number, which is a double if it is out of range. -/
def int (n : Int) : Val := num (.ofInt n)

def double (x : Float) : Val := num (.double x)

def isTruthy : Val → Bool
  | primitive p => p.isTruthy
  | native _ | ref _ => true

/-- Whether two values are the same. A number that is none differs from all, and an object is the
same only as itself. -/
def same : Val → Val → Bool
  | primitive p, primitive q => p.same q
  | a, b => decide (a = b)

end Val

end FlowTree.Script
