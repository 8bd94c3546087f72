import FlowTree.Decimal.Numeral

/-!
# The shortest decimal that reads back

Of all numerals that read back as a given double, `shortest?` takes one with the fewest digits and
among these the nearest. If the numerals of some length have a point that reads back, then one of
the double's two neighbours among them does, so it is enough to try these two for each length.
-/

namespace FlowTree.Decimal

/-- The greatest `k` with `10 ^ k ≤ num / den`, for a positive quotient. -/
def leadingPlace (num den : Nat) : Int :=
  if den ≤ num then (digitCount (num / den) : Int) - 1
  else
    let k := digitCount (den / num)
    if den ≤ num * Nat.pow 10 (k - 1) then 1 - (k : Int) else -(k : Int)

/-- `num / den` in units of `10 ^ k`, as a quotient again. -/
def inPlaces (num den : Nat) (k : Int) : Nat × Nat :=
  if 0 ≤ k then (num, den * Nat.pow 10 k.toNat) else (num * Nat.pow 10 (-k).toNat, den)

/-- The nearer to `x = num / den` of its two neighbours on the grid of `10 ^ k` that read back as
`x`. -/
def onGrid? (x : Float) (num den : Nat) (k : Int) : Option Numeral :=
  let q := inPlaces num den k
  let low : Numeral := { neg := false, digits := q.1 / q.2, exp := k }
  let high : Numeral := { low with digits := q.1 / q.2 + 1 }
  let hit (n : Numeral) : Bool := n.toFloat.toBits == x.toBits
  if hit low && (2 * (q.1 % q.2) ≤ q.2 || !hit high) then some low
  else if hit high then some high
  else none

/-- The first hit on the grids that have `place`, `place - 1`, … as their last place. -/
def searchGrids (x : Float) (num den : Nat) (place : Int) : Nat → Option Numeral
  | 0 => none
  | tries + 1 =>
    (onGrid? x num den place).or (searchGrids x num den (place - 1) tries)

/-- All digits of `m * 2 ^ e`. -/
def expansion (m : Nat) (e : Int) : Numeral :=
  if 0 ≤ e then { neg := false, digits := m <<< e.toNat, exp := 0 }
  else { neg := false, digits := m * Nat.pow 5 (-e).toNat, exp := e }

/-- The numeral without the zeros at its end. -/
def stripZeros (digits : Nat) (exp : Int) : Nat × Int :=
  if h : digits ≠ 0 ∧ digits % 10 = 0 then stripZeros (digits / 10) (exp + 1) else (digits, exp)
termination_by digits
decreasing_by omega

/-- The shortest numeral that reads back as the finite double `m * 2 ^ e`, negated if `neg`. Up to
seventeen digits are tried before all digits are given. -/
def shortest (neg : Bool) (m : Nat) (e : Int) : Numeral :=
  if m = 0 then { neg, digits := 0, exp := 0 }
  else
    let (num, den) := Binary64.inUnits m 1 (-e)
    let x := Binary64.ofDyadic false m e
    let found := (searchGrids x num den (leadingPlace num den) 17).getD (expansion m e)
    let (digits, exp) := stripZeros found.digits found.exp
    { neg, digits, exp }

end FlowTree.Decimal
