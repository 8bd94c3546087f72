import FlowTree.Error
import FlowTree.Json.Printer
import FlowTree.Text.Blank

/-!
# Conversions between values

Nodes take numbers, flags and texts from any value that can stand for one. A double is stored by
`Json.ofFloat` and got back by `toNumber`, the text of a value is its `display` form, and `coerce`
turns a value into one of a given type.
-/

namespace FlowTree

/-- The conventions of the device for writing numbers. -/
structure Locale where
  separator : Char := '.'
  deriving DecidableEq

/-- The largest bound below which all integers are doubles. -/
def maxSafeInteger : Nat := 9007199254740991

def isSafeWhole (x : Float) : Bool :=
  Binary64.isWhole x && x.abs ≤ Binary64.ofInt maxSafeInteger

/-! ### Numbers as text -/

/-- `cs` with commas and points exchanged. -/
def swapSeparators (cs : List Char) : List Char :=
  cs.map fun c => if c = ',' then '.' else if c = '.' then ',' else c

/-- The number that a text without blanks at its ends stands for: in the invariant notation, else
with the separator of the device as its point, else with commas and points exchanged. -/
def readNumber? (locale : Locale) (cs : List Char) : Option Float :=
  let point (c : Char) : Char := if c = locale.separator then '.' else c
  (Decimal.readFloat? cs).or <|
    (if locale.separator = '.' then none else Decimal.readFloat? (cs.map point)).or <|
      Decimal.readFloat? (swapSeparators cs)

def parseNumber? (locale : Locale) (s : String) : Option Float :=
  let cs := Text.trim s.toList
  if cs = [] then none else readNumber? locale cs

namespace Json

/-- A double as a value: an integer if it is whole and not too large, a name if it is not finite. -/
def ofFloat (x : Float) : Json :=
  match Binary64.parts x with
  | .nan => str "NaN"
  | .inf neg => str (if neg then "-Infinity" else "Infinity")
  | .fin .. => if isSafeWhole x then int (Binary64.toInt x) else double x

/-! ### The display form -/

end Json

def Number.display : Number → String
  | .int n => toString n
  | .double x => if isSafeWhole x then toString (Binary64.toInt x) else Number.text (.double x)

namespace Json

mutual

/-- The text of a value as people read it. -/
def display : Json → String
  | null => ""
  | bool b => if b then "true" else "false"
  | num n => n.display
  | str s => s
  | arr items => displayItems items
  | obj fields => compact (obj fields)

/-- The texts of several values with commas between them. -/
def displayItems : List Json → String
  | [] => ""
  | [j] => display j
  | j :: k :: js => display j ++ "," ++ displayItems (k :: js)

end

/-! ### Coercion -/

def toNumber (locale : Locale) (v : Json) : Except NodeError Float :=
  let refused : Except NodeError Float := .error (.coercion v.compact "number")
  match v with
  | num n => .ok n.toFloat
  | bool b => .ok (if b then 1.0 else 0.0)
  | null => .ok 0.0
  | str s => match parseNumber? locale s with
    | some x => .ok x
    | none => refused
  | _ => refused

/-- Whether the display form is "true" in any case of its letters. -/
def toFlag : Json → Bool
  | bool b => b
  | v => v.display.toList.map Char.toLower == ['t', 'r', 'u', 'e']

end Json

/-- The types that a value can be turned into. -/
inductive Target
  | number
  | boolean
  | string
  deriving DecidableEq, Repr

namespace Target

def name : Target → String
  | number => "number"
  | boolean => "boolean"
  | string => "string"

def ofName? (s : String) : Option Target :=
  [number, boolean, string].find? fun t => t.name == s

end Target

namespace Json

/-- The value as one of the target type, unchanged if it is one. -/
def coerceTo (locale : Locale) (v : Json) : Target → Except NodeError Json
  | .number => match v with
    | num _ => .ok v
    | _ => (v.toNumber locale).map ofFloat
  | .boolean => match v with
    | bool _ => .ok v
    | _ => .ok (bool v.toFlag)
  | .string => match v with
    | str _ => .ok v
    | _ => .ok (str v.display)

def coerce (locale : Locale) (v : Json) (target : String) : Except NodeError Json :=
  match Target.ofName? target with
  | some t => v.coerceTo locale t
  | none => .error (.coercion v.compact target)

end Json

end FlowTree
