import FlowTree.Decimal.Layout
import FlowTree.Json.Basic
import FlowTree.Json.Term
import FlowTree.Text.Blank

/-!
# Numbers of scripts

A number of a script is a double. One that comes about as a whole number within 32 bits is kept as
an integer, and arithmetic on integers stays with integers where the result is one of them. The
difference hardly matters to a script, but it shows in the value that a script returns.
-/

namespace FlowTree.Script

inductive Numeric
  | small (n : Int)
  | double (x : Float)
  deriving DecidableEq

namespace Numeric

def fits (n : Int) : Bool :=
  decide (minInt32 ≤ n) && decide (n ≤ maxInt32)

def toFloat : Numeric → Float
  | small n => Binary64.ofInt n
  | double x => x

/-- The same number as a double. -/
def widen (n : Numeric) : Numeric :=
  double n.toFloat

/-- The integer within 32 bits that a double is, if it is one. A negative zero is none. -/
def whole? (x : Float) : Option Int :=
  let n := Binary64.toInt x
  if fits n && (Binary64.ofInt n).toBits == x.toBits then some n else none

/-- The same number as an integer, if it is one within 32 bits. -/
def narrow : Numeric → Numeric
  | small n => small n
  | double x => match whole? x with
    | some n => small n
    | none => double x

/-- The integer if it is within 32 bits, else its double. -/
def ofInt (n : Int) : Numeric :=
  if fits n then small n else double (Binary64.ofInt n)

def ofJson : Number → Numeric
  | .int n => ofInt n
  | .double x => double x

/-- Null if the number is not finite. -/
def toJson : Numeric → Json
  | small n => .int n
  | double x => .stored x

/-! ### Arithmetic -/

def add : Numeric → Numeric → Numeric
  | small a, small b => ofInt (a + b)
  | a, b => double (a.toFloat + b.toFloat)

def sub : Numeric → Numeric → Numeric
  | small a, small b => ofInt (a - b)
  | a, b => double (a.toFloat - b.toFloat)

def mul : Numeric → Numeric → Numeric
  | small a, small b => ofInt (a * b)
  | a, b => double (a.toFloat * b.toFloat)

/-- A quotient of integers is an integer if it leaves no remainder. -/
def div : Numeric → Numeric → Numeric
  | small a, small b =>
    if b ≠ 0 ∧ Int.tmod a b = 0 ∧ fits (Int.tdiv a b) then small (Int.tdiv a b)
    else double (Binary64.ofInt a / Binary64.ofInt b)
  | a, b => double (a.toFloat / b.toFloat)

/-- The remainder has the sign of the dividend, even if it is zero. Integers whose quotient is out
of range have none. -/
def rem? : Numeric → Numeric → Option Numeric
  | small a, small b =>
    if b = 0 then some (double Binary64.notANumber)
    else if !fits (Int.tdiv a b) then none
    else if Int.tmod a b = 0 ∧ a < 0 then some (double (-0.0))
    else some (small (Int.tmod a b))
  | a, b => some (double (Binary64.rem a.toFloat b.toFloat))

def neg : Numeric → Numeric
  | small a => if a = 0 then double (-0.0) else ofInt (-a)
  | double x => double (-x)

/-- The number before and after one is added to it or taken off. At the end of their range integers
go on as doubles. -/
def step (up : Bool) : Numeric → Numeric × Numeric
  | small n =>
    let m := if up then n + 1 else n - 1
    if fits m then (small n, small m)
    else (double (Binary64.ofInt n), double (Binary64.ofInt m))
  | double x => (double x, double (if up then x + 1.0 else x - 1.0))

/-! ### Comparison -/

def same : Numeric → Numeric → Bool
  | small a, small b => a == b
  | a, b => a.toFloat == b.toFloat

def less : Numeric → Numeric → Bool
  | small a, small b => decide (a < b)
  | a, b => decide (a.toFloat < b.toFloat)

def atMost : Numeric → Numeric → Bool
  | small a, small b => decide (a ≤ b)
  | a, b => decide (a.toFloat ≤ b.toFloat)

def isTruthy : Numeric → Bool
  | small a => a != 0
  | double x => !(x == 0.0 || x.isNaN)

/-! ### Texts -/

/-- Positional from `10 ^ -6` up to below `10 ^ 21`, a point only before a fraction. -/
def layout : Decimal.Layout where
  positional k := decide (-6 ≤ k) && decide (k < 21)
  pointAlways := false
  nan := "NaN"
  infinity := "Infinity"

/-- The text in which a number is joined to strings. -/
def text : Numeric → String
  | small n => toString n
  | double x => if x == 0.0 then "0" else layout.write x

/-- The text in which a number is shown by itself: it tells the two zeros apart. -/
def display : Numeric → String
  | small n => toString n
  | double x => layout.write x

def isSpace (c : Char) : Bool :=
  Text.isBlank c && c != '\u0085' || c = '\uFEFF'

/-- The values of digits of a base, of which there is at least one. -/
def digits? (base : Nat) (cs : List Char) : Option (List Nat) :=
  if cs = [] then none
  else cs.mapM fun c => (Json.Term.hexValue? c).filter fun d => decide (d < base)

/-- The double that a row of digits stands for, rounded after each of them. -/
def accumulate (base : Nat) (digits : List Nat) : Float :=
  digits.foldl (fun x (d : Nat) =>
    if x.isFinite then Binary64.ofInt (Binary64.toInt x * base + d) else x) 0.0

/-- A plus sign may stand in front of digits whose number is within 32 bits. -/
def inBase? (base : Nat) : List Char → Option Float
  | '+' :: cs => (digits? base cs).bind fun ds =>
    let n := ds.foldl (fun n d => n * base + d) 0
    if n ≤ maxWord32 then some (Binary64.ofInt n) else none
  | cs => (digits? base cs).map (accumulate base)

/-- The number that a trimmed text stands for. Without a sign an infinity has one name only. -/
def readTrimmed? : List Char → Option Float
  | [] => some 0.0
  | '0' :: 'x' :: cs | '0' :: 'X' :: cs => inBase? 16 cs
  | '0' :: 'o' :: cs | '0' :: 'O' :: cs => inBase? 8 cs
  | '0' :: 'b' :: cs | '0' :: 'B' :: cs => inBase? 2 cs
  | c :: cs =>
    if c = 'i' ∨ c = 'I' then
      if c :: cs = "Infinity".toList then some (Binary64.infinity false) else none
    else Decimal.readFloat? (c :: cs)

/-- The number that a text stands for, which may be that it is none. -/
def ofText (cs : List Char) : Numeric :=
  double ((readTrimmed? (Text.dropRightWhile isSpace (cs.dropWhile isSpace))).getD
    Binary64.notANumber)

end Numeric

end FlowTree.Script
