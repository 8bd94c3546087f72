import FlowTree.FixedWidth

/-!
# Doubles as exact numbers

A finite double is `m * 2 ^ e` up to sign. `parts` takes it apart, `ofRatio` rounds a quotient of
naturals to the nearest double, and all else here is exact arithmetic between the two: the whole
numbers next to a double, remainders, conversions from and to the integers.
-/

namespace FlowTree.Binary64

/-- What a double stands for. `fin neg m e` is `m * 2 ^ e`, negated if `neg`. -/
inductive Parts
  | nan
  | inf (neg : Bool)
  | fin (neg : Bool) (mant : Nat) (exp : Int)
  deriving DecidableEq, Repr

def parts (x : Float) : Parts :=
  let b := x.toBits.toNat
  let neg := decide (1 <<< 63 ≤ b)
  let e : Nat := (b >>> 52) % 2048
  let m := b % (1 <<< 52)
  if e = 2047 then if m = 0 then .inf neg else .nan
  else if e = 0 then .fin neg m (-1074)
  else .fin neg (m + (1 <<< 52)) ((e : Int) - 1075)

/-! ### Rounding a quotient -/

/-- The integer nearest to `num / den`, a tie going to the even one. -/
def nearestEven (num den : Nat) : Nat :=
  let q := num / den
  let r := num % den
  if 2 * r < den ∨ (2 * r = den ∧ q % 2 = 0) then q else q + 1

/-- `num / den` in units of `2 ^ e`, as a quotient again. -/
def inUnits (num den : Nat) (e : Int) : Nat × Nat :=
  if 0 ≤ e then (num, den <<< e.toNat) else (num <<< (-e).toNat, den)

/-- The exponent of the last place that a double near `num / den` has: 53 places in all, but none
below `2 ^ -1074`. -/
def lastPlace (num den : Nat) : Int :=
  let e := max (-1074) ((num.log2 : Int) - den.log2 - 53)
  let q := inUnits num den e
  if q.2 <<< 53 ≤ q.1 then e + 1 else e

/-- The magnitude bits of the double nearest to `num / den`. A mantissa of 53 places holds the
lowest bit of the exponent field, and one that rounds up to `2 ^ 53` carries into it. -/
def magnitudeBits (num den : Nat) : Nat :=
  if num = 0 then 0
  else
    let e := lastPlace num den
    let q := inUnits num den e
    min (((e + 1074).toNat <<< 52) + nearestEven q.1 q.2) (2047 <<< 52)

/-- The double nearest to `num / den`, a tie going to the even mantissa, infinite from half a unit
above the largest finite one on. -/
def ofRatio (neg : Bool) (num den : Nat) : Float :=
  Float.ofBits (UInt64.ofNat ((if neg then 1 <<< 63 else 0) + magnitudeBits num den))

/-- The double nearest to `m * 2 ^ e`. -/
def ofDyadic (neg : Bool) (m : Nat) (e : Int) : Float :=
  if 0 ≤ e then ofRatio neg (m <<< e.toNat) 1 else ofRatio neg m (1 <<< (-e).toNat)

def ofInt (n : Int) : Float :=
  ofRatio (decide (n < 0)) n.natAbs 1

def infinity (neg : Bool) : Float :=
  if neg then -(1.0 / 0.0) else 1.0 / 0.0

def notANumber : Float :=
  0.0 / 0.0

/-! ### The whole numbers next to a double -/

/-- The largest integer that is at most `m * 2 ^ e`. -/
def wholeBelow (m : Nat) (e : Int) : Nat :=
  if 0 ≤ e then m <<< e.toNat else m >>> (-e).toNat

/-- The least integer that is at least `m * 2 ^ e`. -/
def wholeAbove (m : Nat) (e : Int) : Nat :=
  if 0 ≤ e then m <<< e.toNat else (m + (1 <<< (-e).toNat) - 1) >>> (-e).toNat

/-- The integer nearest to `m * 2 ^ e`, a tie going up. -/
def wholeNear (m : Nat) (e : Int) : Nat :=
  if 0 ≤ e then m <<< e.toNat else (2 * m + (1 <<< (-e).toNat)) >>> ((-e).toNat + 1)

/-- The double with the sign of `x` and the whole magnitude that `f` finds for it. -/
def mapWhole (f : Bool → Nat → Int → Nat) (x : Float) : Float :=
  match parts x with
  | .fin neg m e => ofRatio neg (f neg m e) 1
  | _ => x

def floor (x : Float) : Float :=
  mapWhole (fun neg m e => if neg then wholeAbove m e else wholeBelow m e) x

def ceil (x : Float) : Float :=
  mapWhole (fun neg m e => if neg then wholeBelow m e else wholeAbove m e) x

/-- The nearest whole number, a tie going away from zero. -/
def round (x : Float) : Float :=
  mapWhole (fun _ m e => wholeNear m e) x

/-- Whether `x` is finite and without a fraction. -/
def isWhole (x : Float) : Bool :=
  match parts x with
  | .fin _ m e => decide (0 ≤ e) || m % (1 <<< (-e).toNat) == 0
  | _ => false

/-- The integer between zero and `x` that is nearest to `x`; zero for a double that is not
finite. -/
def toInt (x : Float) : Int :=
  match parts x with
  | .fin neg m e => if neg then -(wholeBelow m e : Int) else wholeBelow m e
  | _ => 0

/-- `toInt` held within 64 bits, the infinities included. -/
def toInt64 (x : Float) : Int :=
  match parts x with
  | .nan => 0
  | .inf neg => if neg then minInt64 else maxInt64
  | .fin .. => max minInt64 (min maxInt64 (toInt x))

/-! ### The larger and the smaller of two -/

/-- The larger one. A double that is not a number does not count. -/
def larger (x y : Float) : Float :=
  if x.isNaN then y else if y.isNaN then x else if x < y then y else x

/-- The smaller one. A double that is not a number does not count. -/
def smaller (x y : Float) : Float :=
  if x.isNaN then y else if y.isNaN then x else if y < x then y else x

/-! ### Remainders and powers -/

/-- The exact remainder of the division of `x` by `y` toward zero. It has the sign of `x`. -/
def rem (x y : Float) : Float :=
  match parts x, parts y with
  | .fin neg m e, .fin _ m' e' =>
    if m' = 0 then notANumber
    else
      let low := min e e'
      ofDyadic neg ((m <<< (e - low).toNat) % (m' <<< (e' - low).toNat)) low
  | .fin .., .inf _ => x
  | _, _ => notANumber

/-- `r * x ^ n` by repeated squaring, each product rounded. -/
def mulPow (r x : Float) (n : Nat) : Float :=
  let r := if n % 2 = 1 then r * x else r
  if h : n / 2 = 0 then r else mulPow r (x * x) (n / 2)
termination_by n
decreasing_by omega

/-- `10 ^ n` by repeated squaring; exact up to `10 ^ 22`. -/
def powTen (n : Nat) : Float :=
  mulPow 1.0 10.0 n

end FlowTree.Binary64
