import FlowTree.FixedWidth

/-!
# Durations

A length of time in whole nanoseconds. Seconds are words of 64 bits, so there is a longest duration,
at which sums stop.
-/

namespace FlowTree

/-- The nanoseconds of the longest duration. -/
def maxNanos : Nat := (maxWord64 + 1) * 1000000000 - 1

structure Duration where
  nanos : Nat
  nanos_le : nanos ≤ maxNanos := by decide
  deriving DecidableEq

namespace Duration

def zero : Duration := { nanos := 0 }

def longest : Duration := { nanos := maxNanos }

def ofMillis (n : UInt64) : Duration where
  nanos := n.toNat * 1000000
  nanos_le := by have := n.toNat_lt; unfold maxNanos maxWord64; omega

/-- The sum, or the longest duration if the sum is longer. -/
def add (a b : Duration) : Duration where
  nanos := min (a.nanos + b.nanos) maxNanos
  nanos_le := Nat.min_le_right ..

instance : Add Duration := ⟨add⟩

/-- The whole milliseconds. -/
def millis (d : Duration) : Nat :=
  d.nanos / 1000000

/-- Whether `a` is longer than `b`. -/
def exceeds (a b : Duration) : Bool :=
  decide (b.nanos < a.nanos)

theorem nanos_add (a b : Duration) : (a + b).nanos = min (a.nanos + b.nanos) maxNanos := rfl

theorem millis_ofMillis (n : UInt64) : (ofMillis n).millis = n.toNat := by
  simp [millis, ofMillis]

end Duration

end FlowTree
