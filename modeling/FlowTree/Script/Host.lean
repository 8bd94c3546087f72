import FlowTree.Script.Assignment

/-!
# Functions that scripts are given

Dice rolls, a clock and fresh ids, next to the few functions on objects and arrays.
-/

namespace FlowTree.Script

namespace Host

/-- An argument that must be a finite number. -/
def finite (call : Caller) (args : List Val) (i : Nat) (name : String) : Exec Float := do
  match args[i]? with
  | none | some .undefined | some .null =>
    Machine.typeError ("Argument '" ++ name ++ "' is required")
  | some v =>
    let x := (← v.number call).toFloat
    if x.isFinite then return x
    else Machine.typeError ("Argument '" ++ name ++ "' must be a finite number")

/-- A draw from the generator of the run. -/
def draw {α : Type} (f : Generator → α × Generator) : Exec α := do
  let m ← get
  let (a, generator) := f m.generator
  set { m with generator }
  return a

/-- An integer between two bounds, both included, as a double. `drawInt` says how it is drawn. -/
def randomIntBy (drawInt : Int → Int → Generator → Int × Generator) (call : Caller)
    (args : List Val) : Exec Val := do
  let min := Binary64.toInt64 (Binary64.ceil (← finite call args 0 "min"))
  let max := Binary64.toInt64 (Binary64.floor (← finite call args 1 "max"))
  if max < min then Machine.typeError "randomInt: min must not exceed max"
  else return .double (Binary64.ofInt (← draw (drawInt min max)))

def randomInt (call : Caller) (args : List Val) : Exec Val :=
  randomIntBy Generator.integer call args

/-- True in so many percent of all cases. -/
def chance (call : Caller) (args : List Val) : Exec Val := do
  let percent ← finite call args 0 "percent"
  let roll ← draw Generator.fraction
  return .bool (roll * 100.0 < percent)

def hexDigits (width n : Nat) : List Char :=
  let ds := Nat.toDigits 16 n
  List.replicate (width - ds.length) '0' ++ ds

/-- A random id in five groups of hexadecimal digits, with the marks of version 4. -/
def uuidText (high low : Nat) : String :=
  let part (n shift width : Nat) : List Char :=
    hexDigits width ((n >>> shift) % (1 <<< (4 * width)))
  String.ofList (part high 32 8 ++ '-' :: part high 16 4 ++ '-' :: '4' :: part high 0 3 ++ '-' ::
    Nat.digitChar (8 + (low >>> 60) % 4) :: part low 48 3 ++ '-' :: part low 0 12)

def uuid : Exec Val := do
  let high ← draw Generator.next64
  let low ← draw Generator.next64
  return .ofString (uuidText high low)

/-! ### Objects -/

/-- The greatest length that a list of properties can have. -/
def maxLength : Nat := 9007199254740991

/-- The length that an object has by its property of that name. -/
def lengthOf (call : Caller) (owner : Val) : Exec Nat := do
  let x := (← (← Property.get owner (.name Property.lengthName)).number call).toFloat
  if x.isFinite then return min maxLength (Binary64.toInt x).toNat
  else return if x > 0.0 then maxLength else 0

def appendItems (bounds : Bounds) (call : Caller) (self : Val) : Nat → List Val → Exec Unit
  | _, [] => return ()
  | n, v :: vs => do
    Property.set bounds call self (.ofNat n) v
    appendItems bounds call self (n + 1) vs

/-- Appends to an array, or to any object with a length, and gives its new length. -/
def push (bounds : Bounds) (call : Caller) (self : Val) (args : List Val) : Exec Val := do
  let n ← lengthOf call self
  if maxLength < n + args.length then
    Machine.typeError
      "the length + the number of arguments exceed the maximum safe integer limit"
  appendItems bounds call self n args
  let length := Val.int (n + args.length : Nat)
  Property.set bounds call self (.name Property.lengthName) length
  return length

def keys (args : List Val) : Exec Val := do
  Machine.allocArray ((← Property.namesOf (args.headD .undefined)).map .str)

/-- The property of an error that is named by one of its options, if it is given. -/
def causeOf (options : Val) : Exec (List (Utf16 × Slot)) := do
  match options with
  | .ref i =>
    match ← Property.own? i "cause" with
    | some v => return [(.ofString "cause", { value := v, hidden := true })]
    | none => return []
  | _ => return []

/-- An error with a message, unless that is undefined. -/
def makeError (call : Caller) (name : String) (args : List Val) : Exec Val := do
  let message : List (Utf16 × Slot) ← match args.headD .undefined with
    | .undefined => pure []
    | v =>
      pure [(Property.messageName, { value := .str (← v.text call), hidden := true })]
  let cause ← causeOf (args.getD 1 .undefined)
  Machine.allocError name (message ++ cause)

def invoke (bounds : Bounds) (call : Caller) (f : Native) (self : Val) (args : List Val) :
    Exec Val :=
  match f with
  | .push => push bounds call self args
  | .keys => keys args
  | .now => return .double (Binary64.ofInt bounds.clock)
  | .randomInt => randomInt call args
  | .chance => chance call args
  | .uuid => uuid
  | .error name => makeError call name args
  | .objects | .other .. => return .undefined

end Host

end FlowTree.Script
