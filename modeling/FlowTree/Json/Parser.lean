import FlowTree.Json.Basic
import FlowTree.Json.Term

/-!
# Values from text

A text is a value if its grammar is right, it nests at most 127 levels, its strings are whole and
its numbers are in range. Of entries with the same key the last one counts.

Reading a number with a point, an exponent or too many digits gathers its first digits in a word of
64 bits and scales the word by a power of ten, each step rounded. So the last place of a long
numeral may differ from the nearest double's.
-/

namespace FlowTree.Json

namespace Literal

/-- The digits that fit in a word of 64 bits after `w`, and the rest of them. -/
def gather (w : Nat) : List Char → Nat × List Char
  | [] => (w, [])
  | c :: cs =>
    let w' := 10 * w + Decimal.digitValue c
    if w' ≤ maxWord64 then gather w' cs else (w, c :: cs)

def tenTo (n : Nat) : Float :=
  Binary64.ofRatio false (Nat.pow 10 n) 1

/-- `f / 10 ^ n`, in steps of at most 308 places. -/
def scaleDown (f : Float) (n : Nat) : Float :=
  if h : 308 < n then
    if f == 0.0 then f else scaleDown (f / tenTo 308) (n - 308)
  else f / tenTo n
termination_by n
decreasing_by omega

/-- `w * 10 ^ e`, or nothing if that is out of range. -/
def scale? (w : Nat) (e : Int) : Option Float :=
  let f := Binary64.ofInt w
  if e < 0 then some (scaleDown f (-e).toNat)
  else if w = 0 then some f
  else if 308 < e then none
  else
    let x := f * tenTo e.toNat
    if x.isInf then none else some x

/-- An integer within 64 bits stays one, except for a negative zero. -/
def toNumber? (n : Literal) : Option Number :=
  let whole : Int := Decimal.ofDigits n.whole
  let value := if n.neg then -whole else whole
  let small := if n.neg then decide (minInt64 ≤ value) && value != 0 else decide (value ≤ maxWord64)
  if n.fraction = [] ∧ n.exp = none ∧ small then some (.int value)
  else
    let (w, dropped) := gather 0 n.whole
    let (w, left) := gather w n.fraction
    let places : Int := dropped.length - (n.fraction.length - left.length : Nat)
    (scale? w (places + n.exp.getD 0)).map fun x => .double (if n.neg then -x else x)

end Literal

mutual

/-- The value of a term whose strings and numbers are all right. -/
def ofTerm? : Term → Option Json
  | .null => some null
  | .bool b => some (bool b)
  | .num n => n.toNumber?.map num
  | .str s => s.map str
  | .arr items => (ofItems? items).map arr
  | .obj fields => (ofEntries? fields).map fun es => obj (Fields.ofList es)

def ofItems? : List Term → Option (List Json)
  | [] => some []
  | t :: ts => do return (← ofTerm? t) :: (← ofItems? ts)

def ofEntries? : List (Option String × Term) → Option (List (String × Json))
  | [] => some []
  | (k, t) :: es => do return (← k, ← ofTerm? t) :: (← ofEntries? es)

end

mutual

/-- How many arrays and objects lie around the innermost part of a term. -/
def Term.depth : Term → Nat
  | .arr items => depthItems items + 1
  | .obj fields => depthEntries fields + 1
  | _ => 0

def Term.depthItems : List Term → Nat
  | [] => 0
  | t :: ts => max (depth t) (depthItems ts)

def Term.depthEntries : List (Option String × Term) → Nat
  | [] => 0
  | (_, t) :: es => max (depth t) (depthEntries es)

end

/-- The value that a text writes. -/
def parse? (text : String) : Option Json := do
  let t ← Term.parse? text
  if t.depth ≤ 127 then ofTerm? t else none

end FlowTree.Json
