import FlowTree.Script.Conversion

/-!
# Setting properties

An element goes to its position and makes an array as long as it has to be. An array can be cut by
its length. Where shared properties are frozen, a value cannot get one of its own under the same
name.
-/

namespace FlowTree.Script

namespace Object

/-- The length of an array that has an element at a position. -/
def lengthWith (i : Nat) : Body → Body
  | .array n => .array (max n (i + 1))
  | b => b

def setElement (i : Nat) (v : Val) (o : Object) : Object :=
  { o with body := lengthWith i o.body, elements := o.elements.set i v }

/-- Sets a value at its place or at the end. -/
def put (k : Utf16) (v : Val) : List (Utf16 × Slot) → List (Utf16 × Slot)
  | [] => [(k, { value := v })]
  | (l, s) :: ps => if l = k then (k, { s with value := v }) :: ps else (l, s) :: put k v ps

def set (k : Key) (v : Val) (o : Object) : Object :=
  match k with
  | .position i => o.setElement i v
  | .name k => { o with props := put k v o.props }

/-- An array with another length. Elements behind it are gone. -/
def resize (n : Nat) (o : Object) : Object :=
  { o with body := .array n, elements := o.elements.truncate n }

end Object

namespace Property

/-- The names that an object cannot take for itself where shared properties are frozen. -/
def closedTo : Body → List String
  | .plain => ofObjects
  | .array _ => ofArrays ++ ofObjects
  | .closure .. => ofFunctions ++ ofObjects
  | .error .. => ofObjects.filter fun k => !ofErrors.contains k

def notWritable {α : Type} (k : Key) : Exec α :=
  Machine.typeError ("cannot set non-writable property: " ++ k.shown)

/-- The length that a value stands for: a whole number that a word of 32 bits can hold. -/
def lengthOf (call : Caller) (v : Val) : Exec Nat := do
  let x := (← v.number call).toFloat
  let n := Binary64.toInt x
  if Binary64.isWhole x && decide (0 ≤ n) && decide (n ≤ maxWord32) then return n.toNat
  else Machine.raise "RangeError" "bad length for array"

def setOfObject (bounds : Bounds) (call : Caller) (i : Nat) (k : Key) (v : Val) : Exec Unit := do
  match k with
  | .position j => Machine.changeObject i (Object.setElement j v)
  | .name name =>
    let o ← Machine.object i
    match o.body with
    | .array _ =>
      if name = lengthName then
        let n ← lengthOf call v
        Machine.changeObject i (Object.resize n)
        return
    | .closure .. => if name = lengthName ∨ name = nameName then notWritable k
    | _ => pure ()
    if (o.props.lookup name).isNone ∧ bounds.frozen ∧ (closedTo o.body).contains name.text then
      notWritable k
    else Machine.changeObject i (Object.set k v)

def set (bounds : Bounds) (call : Caller) (owner : Val) (k : Key) (v : Val) : Exec Unit := do
  match owner with
  | .undefined | .null => noObject
  | .primitive _ => notWritable k
  | .native _ =>
    let name := k.shown
    if ofFunctions.contains name ∨ bounds.frozen ∧ ofObjects.contains name then notWritable k
  | .ref i => setOfObject bounds call i k v

end Property

end FlowTree.Script
