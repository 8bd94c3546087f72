import FlowTree.Error
import FlowTree.Json.Record

/-!
# Split tests

A split test sends each player down one of its splits for good. Its shares are percentages, laid end
to end as a ladder from 0 up to 100, and a draw picks the first rung above it. The choice is pinned
by a segment that names flow, node and split.
-/

namespace FlowTree

structure Split where
  slotId : String
  share : Float
  deriving DecidableEq

namespace Split

def toJson (s : Split) : Json :=
  .obj [("share", .stored s.share), ("slotId", .str s.slotId)]

def ofJson? (j : Json) : Option Split := do
  let [slotId, share] ← Json.record? [⟨"slotId", none⟩, ⟨"share", none⟩] j | none
  return {
    slotId := ← Json.required Json.asString? slotId
    share := ← Json.required Json.asFloat? share }

/-- The segment that pins a player to a split. -/
def stickyKey (flow node split : String) : String :=
  "flow_" ++ flow ++ "_splitTest_" ++ node ++ "_" ++ split

/-- The position of the first split whose segment is held. -/
def sticky? (splits : List Split) (flow node : String) (held : String → Bool) : Option Nat :=
  splits.findIdx? fun s => held (stickyKey flow node s.slotId)

end Split

/-! ### The ladder

The numbers of a ladder are doubles. Nothing is asked of them but the operations of a field and an
order, so that it can be read over exact numbers as well.
-/

section
variable {α : Type}

/-- The part of 100 that a share of `total` takes up, with `n` shares in all. Shares that sum to
more than 100 are scaled down to it; if all are zero, they are even. -/
def rungHeight [Mul α] [Div α] [BEq α] [LT α] [DecidableLT α] [OfScientific α]
    (n total share : α) : α :=
  if total == 0.0 then 100.0 / n
  else if total > 100.0 then share / total * 100.0
  else share

/-- The running totals of `heights` from `start` on. -/
def runningTotals [Add α] (start : α) : List α → List α
  | [] => []
  | h :: hs => (start + h) :: runningTotals (start + h) hs

def totalShare [Add α] [OfScientific α] (shares : List α) : α :=
  shares.foldl (· + ·) 0.0

/-- The rungs for shares that are `n` in number. -/
def rungsOf [Add α] [Mul α] [Div α] [BEq α] [LT α] [DecidableLT α] [OfScientific α]
    (n : α) (shares : List α) : List α :=
  runningTotals 0.0 (shares.map (rungHeight n (totalShare shares)))

/-- The first rung above the draw, or the last one if the draw is above all. -/
def pickRung [LT α] [DecidableLT α] (rungs : List α) (draw : α) : Nat :=
  (rungs.findIdx? fun r => decide (draw < r)).getD (rungs.length - 1)

end

def ladder (splits : List Split) : Except NodeError (List Float) :=
  let shares := splits.map Split.share
  if shares = [] then .error (.validation .noSplits)
  else if shares.any fun x => !x.isFinite || x < 0.0 then .error (.validation .badShares)
  else .ok (rungsOf (Binary64.ofInt shares.length) shares)

end FlowTree
