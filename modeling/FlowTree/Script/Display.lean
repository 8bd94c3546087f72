import FlowTree.Script.Conversion

/-!
# Values that are shown by themselves

Messages about a script show the value that it throws or that it is in place of a function. An array
is a row of its elements and any other object a block with a line for each property. No function of
the script runs for it.
-/

namespace FlowTree.Script

namespace Display

def padded (width : Nat) (s : String) : String :=
  "".pushn ' ' (width - s.length) ++ s

/-- The own properties of an object, those by its kind included. -/
def properties (o : Object) : List (String × Val) :=
  let length := match o.body with
    | .array n => [("length", Val.int n)]
    | _ => []
  o.elements.toList.map (fun e => (toString e.1, e.2)) ++ length ++
    o.props.map fun p => (p.1.text, p.2.value)

/-- An object as a block, whose keys end at a column. An object within itself is a cycle. -/
def block (objects : Array Object) : Nat → List Nat → Nat → Val → String
  | _, _, _, .primitive p => p.display
  | _, _, _, .native f => (Val.functionText f.name).text.text
  | 0, _, _, .ref _ => "[Cycle]"
  | fuel + 1, around, column, .ref i =>
    if around.contains i then "[Cycle]"
    else
      let o := objects.getD i default
      match o.body with
      | .closure f .. => (Val.functionText f.name).text.text
      | _ =>
        let lines := (properties o).map fun (k, v) =>
          padded column k ++ ": " ++ block objects fuel (i :: around) (column + 4) v
        "\x7b\n" ++ ",\n".intercalate lines ++ "\n" ++ padded (column - 4) "" ++ "\x7d"

/-- A value that is no array. An error is its name and its message. -/
def single (objects : Array Object) (v : Val) : String :=
  let o := match v with
    | .ref i => objects.getD i default
    | _ => default
  match o.body with
  | .error _ => (Val.headed (part o Property.nameName) (part o Property.messageName)).text
  | _ => block objects (objects.size + 1) [] 4 v
where
  part (o : Object) (name : Utf16) : Utf16 :=
    match Property.ofObject o (.name name) with
    | .str s => s
    | v => .ofString (block objects (objects.size + 1) [] 4 v)

def arrayLength? (objects : Array Object) : Val → Option Nat
  | .ref i => match (objects.getD i default).body with
    | .array n => some n
    | _ => none
  | _ => none

/-- An element of an array. It is only its length if it is an array, too. -/
def item (objects : Array Object) (v : Val) : String :=
  match arrayLength? objects v with
  | some n => "Array(" ++ toString n ++ ")"
  | none => single objects v

end Display

def Val.display (objects : Array Object) (v : Val) : String :=
  match v, Display.arrayLength? objects v with
  | _, some 0 => "[]"
  | .ref i, some n =>
    let elements := (objects.getD i default).elements
    let items := (List.range n).map fun j =>
      ((elements.get? j).map (Display.item objects)).getD "<empty>"
    "[ " ++ ", ".intercalate items ++ " ]"
  | v, _ => Display.single objects v

end FlowTree.Script
