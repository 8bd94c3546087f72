import FlowTree.Script.Machine

/-!
# Properties

Every value but undefined and null has properties, which are named by positions or by texts. Besides
its own ones an object has those that it shares with all others of its kind.
-/

namespace FlowTree.Script

/-- What names a property: a position, or a text that stands for none. -/
inductive Key
  | position (i : Nat)
  | name (s : Utf16)
  deriving DecidableEq

namespace Key

def isDigit (u : UInt16) : Bool :=
  decide (48 ≤ u) && decide (u ≤ 57)

/-- The position that a text stands for: a numeral without leading zeros, below the greatest word of
32 bits. -/
def position? (s : Utf16) : Option Nat :=
  if s.isEmpty || !s.units.all isDigit || s.units.size != 1 && s.units[0]? == some 48 then none
  else
    let n := s.units.foldl (fun n u => 10 * n + (u.toNat - 48)) 0
    if n < maxWord32 then some n else none

/-- The key of a whole number. -/
def ofNat (n : Nat) : Key :=
  if n < maxWord32 then position n else name (.ofString (toString n))

def ofText (s : Utf16) : Key :=
  match position? s with
  | some i => position i
  | none => name s

def ofPrimitive : Primitive → Key
  | .num (.small n) => if 0 ≤ n then position n.toNat else name (.ofString (toString n))
  | p => ofText p.text

def text : Key → Utf16
  | position i => .ofString (toString i)
  | name s => s

/-- The key in a message. -/
def shown (k : Key) : String := k.text.text

end Key

namespace Property

def lengthName : Utf16 := .ofString "length"

def nameName : Utf16 := .ofString "name"

def messageName : Utf16 := .ofString "message"

/-! ### Shared properties -/

def ofObjects : List String :=
  ["constructor", "hasOwnProperty", "isPrototypeOf", "propertyIsEnumerable", "toLocaleString",
   "toString", "valueOf", "__proto__", "__defineGetter__", "__defineSetter__", "__lookupGetter__",
   "__lookupSetter__"]

def ofArrays : List String :=
  ["at", "concat", "copyWithin", "entries", "every", "fill", "filter", "find", "findIndex",
   "findLast", "findLastIndex", "flat", "flatMap", "forEach", "includes", "indexOf", "join", "keys",
   "lastIndexOf", "map", "pop", "push", "reduce", "reduceRight", "reverse", "shift", "slice",
   "some", "sort", "splice", "toReversed", "toSorted", "toSpliced", "unshift", "values", "with"]

def ofFunctions : List String :=
  ["apply", "bind", "call", "length", "name", "arguments", "caller"]

/-- The properties of all errors, which hide those of all objects and are not frozen. -/
def ofErrors : List String :=
  ["constructor", "message", "name", "toString"]

/-- A shared property, a function that scripts do not call. -/
def shared (names : List String) (k : Utf16) : Val :=
  let k := k.text
  if names.contains k then .native (.other k 0) else .undefined

/-! ### Reading -/

def ofNative (f : Native) (k : Utf16) : Val :=
  if k = nameName then .ofString f.name
  else if k = lengthName then .int f.arity
  else if f = .objects ∧ k = .ofString "keys" then .native .keys
  else shared (ofFunctions ++ ofObjects) k

def ofPrimitive (p : Primitive) (k : Key) : Val :=
  match p, k with
  | .str s, .position i => ((s.unitAt? i).map Val.str).getD .undefined
  | _, .position _ => .undefined
  | .str s, .name k => if k = lengthName then .int s.length else shared ofObjects k
  | _, .name k => shared ofObjects k

/-- A property that an object has by its kind. -/
def ofBody (b : Body) (k : Utf16) : Val :=
  match b with
  | .plain => shared ofObjects k
  | .array length =>
    if k = lengthName then .int length
    else if k = .ofString "push" then .native .push
    else shared (ofArrays ++ ofObjects) k
  | .closure f _ _ =>
    if k = lengthName then .int f.params.length
    else if k = nameName then .ofString f.name
    else shared (ofFunctions ++ ofObjects) k
  | .error name =>
    if k = nameName then .ofString name
    else if k = messageName then .ofString ""
    else shared ofObjects k

def ofObject (o : Object) : Key → Val
  | .position i => (o.elements.get? i).getD .undefined
  | .name k => match o.props.lookup k with
    | some slot => slot.value
    | none => ofBody o.body k

/-- The failure to take undefined or null for an object. -/
def noObject {α : Type} : Exec α :=
  Machine.typeError "cannot convert 'null' or 'undefined' to object"

def get (owner : Val) (k : Key) : Exec Val := do
  match owner with
  | .undefined | .null => noObject
  | .primitive p => return ofPrimitive p k
  | .native f => match k with
    | .position _ => return .undefined
    | .name k => return ofNative f k
  | .ref i => return ofObject (← Machine.object i) k

/-- A property that an object has for itself, apart from those that it has by its kind. -/
def own? (i : Nat) (name : String) : Exec (Option Val) := do
  return ((← Machine.object i).props.lookup (.ofString name)).map Slot.value

/-! ### Names -/

/-- The names under which an object lists its properties: positions in their order, then texts. -/
def names (o : Object) : List Utf16 :=
  (o.elements.toList.map fun e => (Key.position e.1).text) ++
    (o.props.filter fun p => !p.2.hidden).map Prod.fst

def namesOf (v : Val) : Exec (List Utf16) := do
  match v with
  | .undefined | .null => noObject
  | .str s => return (List.range s.length).map fun i => (Key.position i).text
  | .primitive _ | .native _ => return []
  | .ref i => return names (← Machine.object i)

end Property

end FlowTree.Script
