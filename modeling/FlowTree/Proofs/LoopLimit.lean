import FlowTree.Script.Limits
import Mathlib.Order.MinMax

/-!
# Loop limits

The loop limit of a run comes from a sum of durations, a count of milliseconds and a product, and
each of them stops at the largest value of its type. None stops below the largest word. So what one
step loses the next one would lose as well (`saturate_millis_add`, `saturate_mul_saturate`), and
what the product loses is above the cap, a word itself: the limit is the one of numbers without
bound (`Limits.toNat_loops`).
-/

namespace FlowTree

/-- The longest duration has more milliseconds than fit in a word. -/
theorem Duration.maxWord64_le_millis_longest : maxWord64 ≤ longest.millis := by
  decide

namespace Script

theorem saturate_eq_iff {a b : Nat} :
    saturate a = saturate b ↔ min a maxWord64 = min b maxWord64 := by
  rw [← UInt64.toNat_inj, toNat_saturate, toNat_saturate]

/-- From the largest word on all numbers are alike. -/
theorem saturate_eq_of_large {a b : Nat} (ha : maxWord64 ≤ a) (hb : maxWord64 ≤ b) :
    saturate a = saturate b := by
  rw [saturate_eq_iff, min_eq_right ha, min_eq_right hb]

theorem saturate_max (a b : Nat) : saturate (max a b) = max (saturate a) (saturate b) := by
  rw [← UInt64.toNat_inj, UInt64.toNat_max, toNat_saturate, toNat_saturate, toNat_saturate]
  exact min_max_distrib_right a b maxWord64

/-- A factor beyond the words makes a product beyond the words, if the other factor is not zero. -/
theorem saturate_mul_saturate (r n : Nat) :
    saturate (r * (saturate n).toNat) = saturate (r * n) := by
  rw [toNat_saturate]
  rcases Nat.eq_zero_or_pos r with rfl | hr
  · rw [Nat.zero_mul, Nat.zero_mul]
  rcases le_total n maxWord64 with hn | hn
  · rw [min_eq_left hn]
  · rw [min_eq_right hn]
    exact saturate_eq_of_large (Nat.le_mul_of_pos_left _ hr)
      (hn.trans (Nat.le_mul_of_pos_left _ hr))

/-- A sum that stops at the longest duration has its milliseconds beyond the words. -/
theorem saturate_millis_add (d e : Duration) :
    saturate (d + e).millis = saturate ((d.nanos + e.nanos) / 1000000) := by
  rw [Duration.millis, Duration.nanos_add]
  rcases le_total (d.nanos + e.nanos) maxNanos with hsum | hsum
  · rw [min_eq_left hsum]
  · rw [min_eq_right hsum]
    have hlong : maxWord64 ≤ maxNanos / 1000000 := Duration.maxWord64_le_millis_longest
    exact saturate_eq_of_large hlong (hlong.trans (Nat.div_le_div_right hsum))

namespace Limits

/-- The loop limit in numbers without bound. -/
def unboundedLoops (limits : Limits) (budget : Duration) : Nat :=
  min limits.maxIterations.toNat
    (limits.iterationsPerMs.toNat *
      max 1 ((budget.nanos + limits.watchdogBuffer.nanos) / 1000000))

theorem windowMs_eq (limits : Limits) (budget : Duration) :
    limits.windowMs budget =
      saturate (max ((budget.nanos + limits.watchdogBuffer.nanos) / 1000000) 1) := by
  rw [windowMs, window, saturate_millis_add, saturate_max]
  rfl

theorem maxIterations_le (limits : Limits) : limits.maxIterations.toNat ≤ maxWord64 :=
  Nat.le_of_lt_succ limits.maxIterations.toNat_lt

theorem toNat_loops (limits : Limits) (budget : Duration) :
    (limits.loops budget).toNat = limits.unboundedLoops budget := by
  rw [loops, windowMs_eq, saturate_mul_saturate, UInt64.toNat_min, toNat_saturate, min_assoc,
    min_eq_right limits.maxIterations_le, min_comm, max_comm, unboundedLoops]

section Order
variable {limits limits' : Limits} {budget budget' : Duration}

theorem unboundedLoops_le : limits.unboundedLoops budget ≤ limits.maxIterations.toNat :=
  min_le_left _ _

theorem unboundedLoops_mono (hbudget : budget.nanos ≤ budget'.nanos)
    (hbuffer : limits.watchdogBuffer.nanos ≤ limits'.watchdogBuffer.nanos)
    (hrate : limits.iterationsPerMs ≤ limits'.iterationsPerMs)
    (hcap : limits.maxIterations ≤ limits'.maxIterations) :
    limits.unboundedLoops budget ≤ limits'.unboundedLoops budget' := by
  have hwindow := Nat.div_le_div_right (c := 1000000) (Nat.add_le_add hbudget hbuffer)
  exact min_le_min (UInt64.le_iff_toNat_le.1 hcap)
    (Nat.mul_le_mul (UInt64.le_iff_toNat_le.1 hrate) (max_le_max_left 1 hwindow))

end Order

/-- The loop limit is what it is in numbers without bound, which fits in a word. It is at most the
cap, and more time, buffer, rate or cap never makes it smaller. -/
theorem loops_exact (limits : Limits) (budget : Duration) :
    (limits.loops budget).toNat = limits.unboundedLoops budget ∧
      limits.unboundedLoops budget ≤ maxWord64 ∧
      limits.loops budget ≤ limits.maxIterations ∧
      ∀ (limits' : Limits) (budget' : Duration), budget.nanos ≤ budget'.nanos →
        limits.watchdogBuffer.nanos ≤ limits'.watchdogBuffer.nanos →
        limits.iterationsPerMs ≤ limits'.iterationsPerMs →
        limits.maxIterations ≤ limits'.maxIterations →
        limits.loops budget ≤ limits'.loops budget' := by
  refine ⟨toNat_loops limits budget, ?_, ?_, fun limits' budget' hbudget hbuffer hrate hcap => ?_⟩
  · exact unboundedLoops_le.trans limits.maxIterations_le
  · rw [UInt64.le_iff_toNat_le, toNat_loops]
    exact unboundedLoops_le
  · rw [UInt64.le_iff_toNat_le, toNat_loops, toNat_loops]
    exact unboundedLoops_mono hbudget hbuffer hrate hcap

/-- The larger limit comes from a sum, a count and a product that all stop. -/
theorem loops_exact_of_longest :
    let small : Limits :=
      { watchdogBuffer := .ofMillis 50, iterationsPerMs := 1000, maxIterations := 1000000 }
    let large : Limits :=
      { watchdogBuffer := .longest, iterationsPerMs := 2000, maxIterations := 18446744073709551615 }
    (Duration.ofMillis 150).nanos ≤ Duration.longest.nanos ∧
      small.watchdogBuffer.nanos ≤ large.watchdogBuffer.nanos ∧
      small.iterationsPerMs ≤ large.iterationsPerMs ∧ small.maxIterations ≤ large.maxIterations ∧
      (small.loops (.ofMillis 150)).toNat = 200000 ∧
      (large.loops .longest).toNat = 18446744073709551615 ∧
      small.loops (.ofMillis 150) ≤ large.loops .longest := by
  intro small large
  have hbudget : (Duration.ofMillis 150).nanos ≤ Duration.longest.nanos := by decide
  have hbuffer : small.watchdogBuffer.nanos ≤ large.watchdogBuffer.nanos := by decide
  have hrate : small.iterationsPerMs ≤ large.iterationsPerMs := by decide
  have hcap : small.maxIterations ≤ large.maxIterations := by decide
  obtain ⟨hsmall, -, -, hmono⟩ := loops_exact small (.ofMillis 150)
  obtain ⟨hlarge, -⟩ := loops_exact large .longest
  exact ⟨hbudget, hbuffer, hrate, hcap, hsmall.trans (by decide), hlarge.trans (by decide),
    hmono large .longest hbudget hbuffer hrate hcap⟩

/-- A window below a millisecond counts as one. -/
example :
    let limits : Limits := { watchdogBuffer := .zero, iterationsPerMs := 7 }
    limits.loops { nanos := 999999 } = 7 := by
  decide

end Limits

end Script

end FlowTree
