/-!
# Sets of code points as ranges

A class of characters is a list of closed ranges of code points in increasing order.
-/

namespace FlowTree.Text

/-- Whether `n` lies in one of the ranges, which are closed and in increasing order. -/
def inRanges (n : Nat) : List (Nat × Nat) → Bool
  | [] => false
  | (lo, hi) :: rest => if n < lo then false else decide (n ≤ hi) || inRanges n rest

end FlowTree.Text
