import FlowTree.Decimal.Shortest

/-!
# Writing doubles

A double is written with its shortest digits. Which ones take an exponent and whether a whole one
keeps a point is the layout's choice: `Layout.data` is that of stored values, `Layout.message` that
of running text.
-/

namespace FlowTree.Decimal

structure Layout where
  /-- Whether a number whose first digit has the given place is written without an exponent. -/
  positional : Int → Bool
  /-- Whether a whole number written without an exponent ends in a point and a zero. -/
  pointAlways : Bool
  nan : String
  infinity : String

/-- Positional from `10 ^ -5` up to below `10 ^ 16`, with at least one digit after the point. -/
def Layout.data : Layout where
  positional k := decide (-5 ≤ k) && decide (k < 16)
  pointAlways := true
  nan := "NaN"
  infinity := "Infinity"

/-- Positional at any size, a point only before a fraction. -/
def Layout.message : Layout where
  positional _ := true
  pointAlways := false
  nan := "NaN"
  infinity := "inf"

/-- The digits `ds`, the first of them at place `k`, without an exponent. -/
def positionalText (pointAlways : Bool) (ds : List Char) (k : Int) : List Char :=
  if k < 0 then '0' :: '.' :: (List.replicate (-k - 1).toNat '0' ++ ds)
  else
    let whole := ds.take (k.toNat + 1) ++ List.replicate (k.toNat + 1 - ds.length) '0'
    let fraction := ds.drop (k.toNat + 1)
    if fraction ≠ [] then whole ++ '.' :: fraction
    else if pointAlways then whole ++ ['.', '0']
    else whole

/-- The digits `ds` as a number from 1 up to below 10 and a signed power of ten. -/
def exponentText (ds : List Char) (k : Int) : List Char :=
  let mantissa := match ds with
    | d :: (d' :: more) => d :: '.' :: d' :: more
    | ds => ds
  mantissa ++ 'e' :: (if k < 0 then '-' else '+') :: Nat.toDigits 10 k.natAbs

def Layout.write (l : Layout) (x : Float) : String :=
  let signed (neg : Bool) (s : List Char) : String := String.ofList (if neg then '-' :: s else s)
  match Binary64.parts x with
  | .nan => l.nan
  | .inf neg => signed neg l.infinity.toList
  | .fin neg m e =>
    let n := shortest neg m e
    let ds := Nat.toDigits 10 n.digits
    let k := n.exp + ds.length - 1
    signed neg (if l.positional k then positionalText l.pointAlways ds k else exponentText ds k)

end FlowTree.Decimal
