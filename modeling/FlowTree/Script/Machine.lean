import FlowTree.Script.Elements
import FlowTree.Script.Syntax
import FlowTree.World.Random

/-!
# The state of a script

Objects and scopes live in the arrays of a `Machine` and are named by their positions in them. A
step of a script is an `Exec`: it gives a value or it is cut short, and what it changed before stays
changed.
-/

namespace FlowTree.Script

/-- What an object is apart from its elements and properties. A function knows the scope that it was
made in and, if it is lexical, the `this` of that place. -/
inductive Body
  | plain
  | array (length : Nat)
  | closure (f : Func) (scope : Nat) (self : Val)
  | error (name : String)

/-- The value of a property. Hidden ones are not listed. -/
structure Slot where
  value : Val
  hidden : Bool := false

structure Object where
  body : Body := .plain
  elements : Elements := .empty
  /-- In the order in which they were first set. -/
  props : List (Utf16 × Slot) := []

instance : Inhabited Object := ⟨{}⟩

/-- Variables by name. A constant is the name of a function inside of it. -/
structure Scope where
  vars : List (String × Val) := []
  constants : List (String × Val) := []
  parent : Option Nat := none

instance : Inhabited Scope := ⟨{}⟩

structure Machine where
  objects : Array Object := #[]
  scopes : Array Scope := #[]
  globals : List (String × Val) := []
  /-- How many loop iterations the running function has started. -/
  iterations : Nat := 0
  generator : Generator

/-- Why an evaluation is cut short: by a value that is thrown, or by a limit or a crash, which no
handler catches. -/
inductive Cut
  | thrown (v : Val)
  | limit
  | crash

abbrev Exec (α : Type) := EStateM Cut Machine α

namespace Exec
variable {α β : Type} {a : Exec α} {f : α → Exec β}

theorem bind_run (a : Exec α) (f : α → Exec β) (m : Machine) :
    (a >>= f) m = match a m with
      | .ok v m => f v m
      | .error cut m => .error cut m := by
  simp only [bind, EStateM.bind]
  cases a m <;> rfl

theorem bind_eq_ok {m m' : Machine} {v : β} (h : (a >>= f) m = .ok v m') :
    ∃ u m₁, a m = .ok u m₁ ∧ f u m₁ = .ok v m' := by
  rw [bind_run] at h
  split at h
  · exact ⟨_, _, ‹_›, h⟩
  · cases h

end Exec

/-- What stays the same during a run. -/
structure Bounds where
  loops : Nat
  depth : Nat
  /-- Whether the properties that all objects, arrays and functions share cannot be replaced. -/
  frozen : Bool
  /-- Milliseconds since the start of 1970. -/
  clock : Nat

namespace Machine

/-! ### Objects -/

def alloc (o : Object) : Exec Val := do
  let m ← get
  let i := m.objects.size
  set { m with objects := m.objects.push o }
  return .ref i

def object (i : Nat) : Exec Object := do
  return ((← get).objects[i]?).getD {}

def changeObject (i : Nat) (f : Object → Object) : Exec Unit :=
  modify fun m => { m with objects := m.objects.modify i f }

/-- A new array of values that keep their forms. -/
def allocArray (vs : List Val) : Exec Val :=
  alloc { body := .array vs.length, elements := .ofArray vs.toArray }

def allocError (name : String) (props : List (Utf16 × Slot)) : Exec Val :=
  alloc { body := .error name, props }

def raise {α : Type} (name message : String) : Exec α := do
  let message : Slot := { value := .ofString message, hidden := true }
  throw (.thrown (← allocError name [(.ofString "message", message)]))

def typeError {α : Type} (message : String) : Exec α :=
  raise "TypeError" message

/-! ### Scopes -/

def openScope (s : Scope) : Exec Nat := do
  let m ← get
  let i := m.scopes.size
  set { m with scopes := m.scopes.push s }
  return i

/-- Sets the value of a name that is there, at its place. -/
def setAt (x : String) (v : Val) : List (String × Val) → List (String × Val)
  | [] => []
  | (y, w) :: bs => if y = x then (y, v) :: bs else (y, w) :: setAt x v bs

/-- The value of a name in a scope and those around it, which are fewer than `fuel`. -/
def lookup? (scopes : Array Scope) (x : String) : Nat → Nat → Option Val
  | 0, _ => none
  | fuel + 1, i => do
    let s ← scopes[i]?
    match (s.vars.lookup x).or (s.constants.lookup x) with
    | some v => some v
    | none => lookup? scopes x fuel (← s.parent)

/-- The innermost scope with a name, and whether the name is a constant there. -/
def find? (scopes : Array Scope) (x : String) : Nat → Nat → Option (Nat × Bool)
  | 0, _ => none
  | fuel + 1, i => do
    let s ← scopes[i]?
    if (s.vars.lookup x).isSome then some (i, false)
    else if (s.constants.lookup x).isSome then some (i, true)
    else find? scopes x fuel (← s.parent)

def read? (scope : Nat) (x : String) : Exec (Option Val) := do
  let m ← get
  return (lookup? m.scopes x (scope + 1) scope).or (m.globals.lookup x)

def read (scope : Nat) (x : String) : Exec Val := do
  match ← read? scope x with
  | some v => return v
  | none => raise "ReferenceError" (x ++ " is not defined")

/-- Global names whose values cannot be changed. -/
def fixedGlobals : List String := ["undefined", "NaN", "Infinity"]

def write (scope : Nat) (x : String) (v : Val) : Exec Unit := do
  let m ← get
  match find? m.scopes x (scope + 1) scope with
  | some (_, true) => typeError ("cannot mutate an immutable binding '" ++ x ++ "'")
  | some (i, false) =>
    modify fun m => { m with scopes := m.scopes.modify i fun s =>
      { s with vars := setAt x v s.vars } }
  | none =>
    if (m.globals.lookup x).isNone then
      raise "ReferenceError" ("cannot assign to uninitialized global property `" ++ x ++ "`")
    else if x ∈ fixedGlobals then typeError ("cannot set non-writable property: " ++ x)
    else modify fun m => { m with globals := setAt x v m.globals }

/-! ### Limits -/

/-- Counts a loop iteration of the running function. -/
def countIteration (bounds : Bounds) : Exec Unit := do
  let m ← get
  if bounds.loops ≤ m.iterations then throw .limit
  else set { m with iterations := m.iterations + 1 }

/-- Runs a function with a count of iterations of its own. -/
def withOwnCount {α : Type} (x : Exec α) : Exec α := fun m =>
  match x { m with iterations := 0 } with
  | .ok a m' => .ok a { m' with iterations := m.iterations }
  | .error c m' => .error c { m' with iterations := m.iterations }

/-- Runs `x`, and `handler` on a value that it throws. -/
def catching {α : Type} (x : Exec α) (handler : Val → Exec α) : Exec α := fun m =>
  match x m with
  | .error (.thrown v) m' => handler v m'
  | r => r

end Machine

end FlowTree.Script
