import FlowTree.Binary64

/-!
# Random sources

A source of draws is either a fixed sequence of fractions of the range asked for, of which the last
one is repeated, or a generator.
-/

namespace FlowTree

/-- A linear congruential generator modulo `2 ^ 64`. -/
structure Generator where
  state : UInt64
  deriving DecidableEq, Repr

namespace Generator

/-- The next 32 bits. -/
def next (g : Generator) : Nat × Generator :=
  let state := g.state * 6364136223846793005 + 1442695040888963407
  (state.toNat >>> 32, ⟨state⟩)

/-- The next 64 bits. -/
def next64 (g : Generator) : Nat × Generator :=
  let (high, g) := g.next
  let (low, g) := g.next
  ((high <<< 32) + low, g)

/-- The next double from 0 up to below 1. -/
def fraction (g : Generator) : Float × Generator :=
  let (n, g) := g.next64
  (Binary64.ofRatio false (n >>> 11) (1 <<< 53), g)

/-- The next integer from `lo` up to `hi`, or `lo` if there is none. -/
def integer (lo hi : Int) (g : Generator) : Int × Generator :=
  if hi ≤ lo then (lo, g)
  else
    let (n, g) := g.next64
    (lo + n % (hi - lo + 1), g)

end Generator

inductive RandomSource
  | scripted (fractions : List Float) (last : Float)
  | generated (g : Generator)
  deriving DecidableEq

namespace RandomSource

/-- A draw from `lo` up to below `hi`. A generator gives `lo` for an empty range. -/
def draw (lo hi : Float) : RandomSource → Float × RandomSource
  | scripted [] last => (lo + (hi - lo) * last, scripted [] last)
  | scripted (f :: fs) _ => (lo + (hi - lo) * f, scripted fs f)
  | generated g =>
    if lo < hi && (hi - lo).isFinite then
      let (f, g) := g.fraction
      let x := lo + (hi - lo) * f
      (if x < hi then x else lo, generated g)
    else (lo, generated g)

/-- An integer from `lo` up to `hi`. A fixed sequence draws a double and takes the whole number
below it. -/
def drawInt (lo hi : Int) : RandomSource → Int × RandomSource
  | generated g =>
    let (n, g) := g.integer lo hi
    (n, generated g)
  | source =>
    if hi ≤ lo then (lo, source)
    else
      let (x, source) := source.draw (Binary64.ofInt lo) (Binary64.ofInt hi + 1.0)
      (max lo (min hi (Binary64.toInt64 (Binary64.floor x))), source)

end RandomSource

end FlowTree
