import FlowTree.Script.Property

/-!
# Objects where primitive values are needed

Operators and functions of the host take any value where they need a text or a number. An object has
a say in it by its own `toString` and `valueOf`; without them it is the text of its kind.
-/

namespace FlowTree.Script

/-- Runs a function on a `this` and arguments. -/
abbrev Caller := Val → Val → List Val → Exec Val

namespace Val

def typeName (v : Val) : Exec String := do
  match v with
  | primitive p => return p.typeName
  | native _ => return "function"
  | ref i =>
    match (← Machine.object i).body with
    | .closure .. => return "function"
    | _ => return "object"

def isCallable (v : Val) : Exec Bool := do
  return (← v.typeName) == "function"

def functionText (name : String) : Primitive :=
  .ofString ("function " ++ name ++ "() \x7b [native code] \x7d")

/-- Texts with commas between them. -/
def joined : List Utf16 → Utf16
  | [] => default
  | s :: ss => ss.foldl (fun s t => s ++ .ofString "," ++ t) s

/-- A name and a message with a colon between them, if neither is empty. -/
def headed (name message : Utf16) : Utf16 :=
  if name.isEmpty then message
  else if message.isEmpty then name
  else name ++ .ofString ": " ++ message

/-- What the method of the given name makes of an object: `shared` if the object has none of its
own, and nothing if its own one is no function or gives an object. -/
def byMethod (call : Caller) (i : Nat) (name : String) (shared : Exec (Option Primitive)) :
    Exec (Option Primitive) := do
  match ← Property.own? i name with
  | none => shared
  | some f =>
    if ← f.isCallable then
      match ← call f (.ref i) [] with
      | primitive p => return some p
      | _ => return none
    else return none

/-- The primitive value of a value, a text if the object can choose. An array within its own text,
which is one of those in `around`, is empty. Each object within another takes one unit of fuel. -/
def primitiveIn (call : Caller) : Nat → List Nat → Bool → Val → Exec Primitive
  | _, _, _, primitive p => return p
  | _, _, _, native f => return functionText f.name
  | 0, _, _, ref _ => throw .limit
  | fuel + 1, around, asText, ref i => do
    let textOf (v : Val) : Exec Utf16 := do
      return (← primitiveIn call fuel (i :: around) true v).text
    let shared : Exec (Option Primitive) := do
      let o ← Machine.object i
      match o.body with
      | .plain => return some (.ofString "[object Object]")
      | .closure f .. => return some (functionText f.name)
      | .array length =>
        if around.contains i then return some (.ofString "")
        let items ← (List.range length).mapM fun j =>
          match o.elements.get? j with
          | none | some undefined | some null => pure default
          | some v => textOf v
        return some (.str (joined items))
      | .error _ =>
        let name ← match Property.ofObject o (.name Property.nameName) with
          | undefined => pure (.ofString "Error")
          | v => textOf v
        let message ← match Property.ofObject o (.name Property.messageName) with
          | undefined => pure default
          | v => textOf v
        return some (.str (headed name message))
    let viaText := byMethod call i "toString" shared
    let viaValue := byMethod call i "valueOf" (return none)
    match ← (if asText then viaText else viaValue) with
    | some p => return p
    | none =>
      match ← (if asText then viaValue else viaText) with
      | some p => return p
      | none => Machine.typeError "cannot convert object to primitive value"

/-- The primitive value of a value. Objects can nest as deep as there are any. -/
def toPrimitive (call : Caller) (asText : Bool) (v : Val) : Exec Primitive := do
  primitiveIn call ((← get).objects.size + 1) [] asText v

def text (call : Caller) (v : Val) : Exec Utf16 := do
  return (← v.toPrimitive call true).text

/-- The number that a value stands for, a double unless the value is a number itself. -/
def number (call : Caller) (v : Val) : Exec Numeric := do
  match v with
  | primitive p => return p.number
  | v => return (← v.toPrimitive call false).number.widen

def key (call : Caller) (v : Val) : Exec Key := do
  return .ofPrimitive (← v.toPrimitive call true)

/-! ### Operators -/

def unary (call : Caller) (op : UnaryOp) (v : Val) : Exec Val := do
  match op with
  | .not => return bool !v.isTruthy
  | .typeOf => return .ofString (← v.typeName)
  | op => return primitive (op.onValue (← v.toPrimitive call false))

/-- The result on two primitive values. Where there is none the script cannot go on. -/
def onPrimitives (op : BinaryOp) (a b : Primitive) : Exec Val :=
  match op.result? a b with
  | some p => return primitive p
  | none => throw .crash

/-- Numbers that objects stand for are doubles, and so are numbers next to objects. -/
def binary (call : Caller) (op : BinaryOp) (a b : Val) : Exec Val := do
  match op, a, b with
  | .same, a, b => return bool (a.same b)
  | .different, a, b => return bool !a.same b
  | op, primitive p, primitive q => onPrimitives op p q
  | op, a, b =>
    let p ← a.toPrimitive call false
    let q ← b.toPrimitive call false
    onPrimitives op p.widen q.widen

end Val

end FlowTree.Script
