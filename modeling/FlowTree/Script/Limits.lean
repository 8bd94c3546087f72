import FlowTree.Duration
import FlowTree.Script.Globals

/-!
# Limits of scripts

What a script may use up: length, time, loop iterations, depth of calls, and the names that it sees.
The loop limit of a run grows with the time that the watchdog waits for it.
-/

namespace FlowTree.Script

structure Limits where
  /-- The length of a source in bytes. -/
  maxCodeLength : UInt64 := 65536
  /-- The time that the watchdog grants on top of a script's budget. -/
  watchdogBuffer : Duration := .ofMillis 250
  iterationsPerMs : UInt64 := 10000
  /-- The loop iterations of a run, whatever its budget. -/
  maxIterations : UInt64 := 10000000
  /-- How deep the calls of a script may nest. -/
  maxDepth : UInt64 := 512
  /-- With so many abandoned workers still running no script starts. -/
  maxAbandoned : UInt64 := 4
  /-- Whether the properties that all objects, arrays and functions share cannot be replaced. -/
  frozen : Bool := true
  allowed : List String := Globals.ordinary

/-- The word for `n`, or the largest word if `n` is too large for one. -/
def saturate (n : Nat) : UInt64 :=
  UInt64.ofNat (min n maxWord64)

theorem toNat_saturate (n : Nat) : (saturate n).toNat = min n maxWord64 := by
  simp only [saturate, maxWord64, UInt64.toNat_ofNat']
  omega

namespace Limits

/-- How long the watchdog waits for a script. -/
def window (limits : Limits) (budget : Duration) : Duration :=
  budget + limits.watchdogBuffer

/-- The milliseconds of the window, at least one. -/
def windowMs (limits : Limits) (budget : Duration) : UInt64 :=
  max (saturate (limits.window budget).millis) 1

/-- How many loop iterations a function of a script may start. -/
def loops (limits : Limits) (budget : Duration) : UInt64 :=
  min (saturate (limits.iterationsPerMs.toNat * (limits.windowMs budget).toNat))
    limits.maxIterations

end Limits

end FlowTree.Script
