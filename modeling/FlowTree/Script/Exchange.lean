import FlowTree.Script.Assignment

/-!
# Free-form values in and out of scripts

A free-form value becomes a value of a machine when a script starts, and the result of a script
becomes one again. An array that comes in keeps its numbers as they are.
-/

namespace FlowTree.Script

namespace Val

mutual

def ofJson : Json → Exec Val
  | .null => return null
  | .bool b => return bool b
  | .num n => return num (.ofJson n)
  | .str s => return ofString s
  | .arr items => do
    Machine.allocArray (← ofItems items)
  | .obj fields => do
    Machine.alloc (← ofFields fields {})

def ofItems : List Json → Exec (List Val)
  | [] => return []
  | j :: js => return (← ofJson j) :: (← ofItems js)

/-- Sets the fields one after the other. -/
def ofFields : List (String × Json) → Object → Exec Object
  | [], o => return o
  | (k, j) :: fs, o => do
    let v ← ofJson j
    ofFields fs (o.set (.ofText (.ofString k)) v)

end

/-- The properties that a function has for itself. -/
def functionFields (name : String) (arity : Nat) : List (String × Json) :=
  [("length", .int arity), ("name", .str name)]

/-- The free-form value of a value in which nothing is undefined. A gap of an array is null. A
function that can make objects has no such value. -/
def toJson? (objects : Array Object) : Nat → Val → Option Json
  | _, undefined => none
  | _, null => some .null
  | _, bool b => some (.bool b)
  | _, num n => some n.toJson
  | _, str s => some (.str s.text)
  | _, native f => some (.obj (functionFields f.name f.arity))
  | 0, ref _ => none
  | fuel + 1, ref i => do
    let o ← objects[i]?
    let elements ← o.elements.toList.mapM fun (i, v) => do
      return (i, ← toJson? objects fuel v)
    let fields : Option (List (String × Json)) := do
      let props ← o.props.mapM fun (k, slot) => do
        return (k.text, ← toJson? objects fuel slot.value)
      return elements.map (fun e => (toString e.1, e.2)) ++ props
    match o.body with
    | .array n => return .arr (gapless n elements)
    | .closure f .. =>
      if f.isLexical then
        return .obj (Fields.ofList (functionFields f.name f.params.length ++ (← fields)))
      else none
    | .plain | .error .. => return .obj (Fields.ofList (← fields))
where
  /-- As many values as an array is long, nulls where it has no elements. -/
  gapless (n : Nat) (elements : List (Nat × Json)) : List Json :=
    (elements.foldl (fun xs e => xs.setIfInBounds e.1 e.2) (Array.replicate n .null)).toList

end Val

end FlowTree.Script
