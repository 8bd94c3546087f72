import FlowTree.Json.Basic

/-!
# The variables of a run

Contextual variables describe the game and keep the order in which they were first set. Local
variables hold the results that nodes save.
-/

namespace FlowTree

structure Variables where
  contextual : List (String × Json) := []
  locals : Fields := []
  deriving DecidableEq

/-- Sets the value for a key, at its place or else at the end. -/
def setInOrder (k : String) (v : Json) : List (String × Json) → List (String × Json)
  | [] => [(k, v)]
  | (l, w) :: bs => if l = k then (k, v) :: bs else (l, w) :: setInOrder k v bs

@[simp]
theorem lookup_setInOrder_self (k : String) (v : Json) (bs : List (String × Json)) :
    (setInOrder k v bs).lookup k = some v := by
  induction bs with
  | nil => simp [setInOrder]
  | cons b bs ih =>
    obtain ⟨l, w⟩ := b
    simp only [setInOrder]
    split
    · rename_i h; subst h; simp
    · rename_i h
      have h' : (k == l) = false := by simpa using Ne.symm h
      simpa [List.lookup_cons, h'] using ih

theorem lookup_setInOrder_of_ne {k l : String} (h : l ≠ k) (v : Json)
    (bs : List (String × Json)) : (setInOrder k v bs).lookup l = bs.lookup l := by
  have hb : (l == k) = false := by simpa using h
  induction bs with
  | nil => simp [setInOrder, List.lookup_cons, hb]
  | cons b bs ih =>
    obtain ⟨m, w⟩ := b
    simp only [setInOrder]
    split
    · rename_i hm; subst hm; simp [List.lookup_cons, hb]
    · simp only [List.lookup_cons]
      rw [ih]

namespace Variables

def empty : Variables := {}

def setContextual (vars : Variables) (id : String) (v : Json) : Variables :=
  { vars with contextual := setInOrder id v vars.contextual }

def contextual? (vars : Variables) (id : String) : Option Json :=
  vars.contextual.lookup id

def setLocal (vars : Variables) (name : String) (v : Json) : Variables :=
  { vars with locals := Fields.insert name v vars.locals }

def local? (vars : Variables) (name : String) : Option Json :=
  Fields.get? name vars.locals

/-- The local variables, and what is left without them. -/
def takeLocals (vars : Variables) : Fields × Variables :=
  (vars.locals, { vars with locals := [] })

/-- The contextual variables in their order, with the bindings set over them one after the other. -/
def overlay (vars : Variables) (bindings : List (String × Json)) : List (String × Json) :=
  bindings.foldl (fun bs b => setInOrder b.1 b.2 bs) vars.contextual

/-- The contextual variables in their order, each with its local value if it has one, and then the
variables that are only local. -/
def merged (vars : Variables) : List (String × Json) :=
  vars.overlay vars.locals

def isEmpty (vars : Variables) : Bool :=
  vars.contextual.isEmpty && vars.locals.isEmpty

/-! ### What the setters do -/

@[simp]
theorem contextual?_setContextual_self (vars : Variables) (id : String) (v : Json) :
    (vars.setContextual id v).contextual? id = some v := by
  simp [contextual?, setContextual]

theorem contextual?_setContextual_of_ne {id id' : String} (h : id' ≠ id) (vars : Variables)
    (v : Json) : (vars.setContextual id v).contextual? id' = vars.contextual? id' := by
  simp [contextual?, setContextual, lookup_setInOrder_of_ne h]

@[simp]
theorem local?_setLocal_self (vars : Variables) (name : String) (v : Json) :
    (vars.setLocal name v).local? name = some v := by
  simp [local?, setLocal]

theorem local?_setLocal_of_ne {name name' : String} (h : name' ≠ name) (vars : Variables)
    (v : Json) : (vars.setLocal name v).local? name' = vars.local? name' := by
  simp [local?, setLocal, Fields.get?_insert_of_ne h]

end Variables

end FlowTree
