import FlowTree.Binary64

/-!
# Decimal numerals

A numeral is a run of decimal digits with a place for the last of them. `Numeral.toFloat` is the
double nearest to it. `readFloat?` reads the invariant notation of doubles: an optional sign, then
digits with at most one point among them and an optional exponent, or a name of an infinity or of
the double that is not a number.
-/

namespace FlowTree.Decimal

/-- `digits * 10 ^ exp`, negated if `neg`. -/
structure Numeral where
  neg : Bool
  digits : Nat
  exp : Int
  deriving DecidableEq, Repr

def digitCount (n : Nat) : Nat :=
  (Nat.toDigits 10 n).length

/-- The double nearest to the numeral. Far outside of the doubles' range the power of ten is not
formed. -/
def Numeral.toFloat (n : Numeral) : Float :=
  let top := n.exp + digitCount n.digits
  if n.digits = 0 ∨ top < -330 then Binary64.ofRatio n.neg 0 1
  else if 310 < top then Binary64.infinity n.neg
  else if 0 ≤ n.exp then Binary64.ofRatio n.neg (n.digits * Nat.pow 10 n.exp.toNat) 1
  else Binary64.ofRatio n.neg n.digits (Nat.pow 10 (-n.exp).toNat)

/-! ### Reading -/

def isDigit (c : Char) : Bool :=
  decide (48 ≤ c.toNat) && decide (c.toNat ≤ 57)

def digitValue (c : Char) : Nat :=
  c.toNat - 48

def ofDigits (cs : List Char) : Nat :=
  cs.foldl (fun n c => 10 * n + digitValue c) 0

/-- The sign in front of a numeral, if any, and what follows it. -/
def splitSign : List Char → Bool × List Char
  | '-' :: cs => (true, cs)
  | '+' :: cs => (false, cs)
  | cs => (false, cs)

/-- The exponent at the end of a numeral: none, or a mark, an optional sign and digits. -/
def readExponent? : List Char → Option Int
  | [] => some 0
  | c :: cs =>
    if c = 'e' ∨ c = 'E' then
      let (neg, ds) := splitSign cs
      if ds ≠ [] ∧ ds.all isDigit then some (if neg then -(ofDigits ds : Int) else ofDigits ds)
      else none
    else none

/-- The digits after the point, if the text goes on with one, and what follows them. -/
def splitFraction : List Char → List Char × List Char
  | '.' :: cs => (cs.takeWhile isDigit, cs.dropWhile isDigit)
  | cs => ([], cs)

/-- A numeral without its sign: digits, at most one point, at least one digit in all, and an
optional exponent. -/
def readUnsigned? (neg : Bool) (cs : List Char) : Option Numeral :=
  let whole := cs.takeWhile isDigit
  let (fraction, rest) := splitFraction (cs.dropWhile isDigit)
  if whole = [] ∧ fraction = [] then none
  else (readExponent? rest).map fun e =>
    { neg, digits := ofDigits (whole ++ fraction), exp := e - fraction.length }

/-- The double nearest to the number that `cs` writes. -/
def readFloat? (cs : List Char) : Option Float :=
  let (neg, body) := splitSign cs
  let name := String.ofList (body.map Char.toLower)
  if name = "inf" ∨ name = "infinity" then some (Binary64.infinity neg)
  else if name = "nan" then some Binary64.notANumber
  else (readUnsigned? neg body).map Numeral.toFloat

end FlowTree.Decimal
