import FlowTree.Value.Reference

/-!
# Conditions of branches

A condition compares two references: by their display forms, or as numbers. A branch holds if all
of its conditions do; one whose operands are no numbers does not.
-/

namespace FlowTree

inductive Comparison
  | equal
  | notEqual
  | includes
  | greater
  | less
  | greaterOrEqual
  | lessOrEqual
  deriving DecidableEq, Repr

namespace Comparison

def name : Comparison → String
  | equal => "="
  | notEqual => "!="
  | includes => "includes"
  | greater => ">"
  | less => "<"
  | greaterOrEqual => ">="
  | lessOrEqual => "<="

def ofName? (s : String) : Option Comparison :=
  [equal, notEqual, includes, greater, less, greaterOrEqual, lessOrEqual].find? fun c => c.name == s

/-- Whether `p` occurs in the text as one piece. -/
def occursIn (p : List Char) : List Char → Bool
  | [] => p.isEmpty
  | c :: cs => p.isPrefixOf (c :: cs) || occursIn p cs

def numeric (locale : Locale) (test : Float → Float → Bool) (a b : Json) :
    Except NodeError Bool := do
  return test (← a.toNumber locale) (← b.toNumber locale)

/-- The outcome of comparing `a` with `b`. -/
def holds (locale : Locale) (c : Comparison) (a b : Json) : Except NodeError Bool :=
  match c with
  | equal => .ok (a.display == b.display)
  | notEqual => .ok (a.display != b.display)
  | includes => .ok (occursIn b.display.toList a.display.toList)
  | greater => numeric locale (fun x y => decide (x > y)) a b
  | less => numeric locale (fun x y => decide (x < y)) a b
  | greaterOrEqual => numeric locale (fun x y => decide (x ≥ y)) a b
  | lessOrEqual => numeric locale (fun x y => decide (x ≤ y)) a b

end Comparison

structure Condition where
  left : Ref
  right : Ref
  comparison : Comparison
  deriving DecidableEq

namespace Condition

def holds (c : Condition) (prev : Json) (vars : Variables) (locale : Locale) :
    Except NodeError Bool :=
  c.comparison.holds locale (c.left.resolveOrNull prev vars) (c.right.resolveOrNull prev vars)

def allHold (cs : List Condition) (prev : Json) (vars : Variables) (locale : Locale) : Bool :=
  cs.all fun c => match c.holds prev vars locale with
    | .ok b => b
    | .error _ => false

def toJson (c : Condition) : Json :=
  .obj [("operator", .str c.comparison.name), ("value1", c.left.toJson),
    ("value2", c.right.toJson)]

def ofJson? (j : Json) : Option Condition := do
  let [left, right, comparison] ←
    Json.record? [⟨"value1", none⟩, ⟨"value2", none⟩, ⟨"operator", none⟩] j | none
  return {
    left := ← Json.required Ref.ofJson? left
    right := ← Json.required Ref.ofJson? right
    comparison :=
      ← Json.required (fun j => (Json.caseName? j).bind Comparison.ofName?) comparison }

end Condition

end FlowTree
