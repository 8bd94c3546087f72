import FlowTree.Script.Machine

/-!
# Global names

What the names stand for that a script can use without declaring them. A run keeps those that its
limits allow; all others are gone, but for the three that nothing can take away.
-/

namespace FlowTree.Script

namespace Globals

/-- The names whose values cannot be deleted. -/
def constants : List (String × Val) :=
  [("undefined", .undefined), ("NaN", .double Binary64.notANumber),
   ("Infinity", .double (Binary64.infinity false))]

def errorNames : List String :=
  ["Error", "RangeError", "ReferenceError", "TypeError", "SyntaxError", "EvalError", "URIError"]

/-- Functions that scripts know by name, and their numbers of parameters. -/
def functions : List (String × Nat) :=
  [("parseInt", 2), ("parseFloat", 1), ("isNaN", 1), ("isFinite", 1), ("encodeURI", 1),
   ("encodeURIComponent", 1), ("decodeURI", 1), ("decodeURIComponent", 1), ("eval", 1),
   ("Number", 1), ("String", 1), ("Boolean", 1), ("BigInt", 1), ("Symbol", 0), ("Array", 1),
   ("Function", 1), ("Date", 7), ("RegExp", 2), ("Map", 0), ("Set", 0), ("WeakMap", 0),
   ("WeakSet", 0), ("WeakRef", 1), ("Promise", 1), ("Proxy", 2), ("AggregateError", 2),
   ("ArrayBuffer", 1), ("SharedArrayBuffer", 1), ("DataView", 1), ("Int8Array", 3),
   ("Uint8Array", 3), ("Uint8ClampedArray", 3), ("Int16Array", 3), ("Uint16Array", 3),
   ("Int32Array", 3), ("Uint32Array", 3), ("BigInt64Array", 3), ("BigUint64Array", 3),
   ("Float32Array", 3), ("Float64Array", 3)]

/-- Objects that scripts know by name, and their functions, which are hidden. -/
def objects : List (String × List (String × Native)) :=
  [("JSON", []), ("Math", []), ("Reflect", []), ("Atomics", []), ("globalThis", []),
   ("datetime", [("now", .now)])]

/-- The functions by name, those of the host included. -/
def natives : List (String × Native) :=
  functions.map (fun f => (f.1, .other f.1 f.2)) ++ errorNames.map (fun e => (e, .error e)) ++
    [("Object", .objects), ("randomInt", .randomInt), ("chance", .chance), ("uuidv4", .uuid)]

/-- The names of the host: a clock, dice and fresh ids. -/
def ofHost : List String :=
  ["datetime", "randomInt", "chance", "uuidv4"]

/-- The names that are kept unless the limits say otherwise. -/
def ordinary : List String :=
  ["undefined", "NaN", "Infinity", "JSON", "Math", "parseInt", "parseFloat", "isNaN", "isFinite",
   "Number", "String", "Boolean", "Array", "Object", "Error", "TypeError", "RangeError", "Date",
   "RegExp", "Map", "Set", "encodeURIComponent", "decodeURIComponent"] ++ ofHost

/-- Binds the objects among the allowed names. -/
def bindObjects (allowed : List String) :
    List (String × List (String × Native)) → Exec (List (String × Val))
  | [] => return []
  | (x, functions) :: xs => do
    if allowed.contains x then
      let props := functions.map fun (name, f) =>
        (Utf16.ofString name, { value := .native f, hidden := true : Slot })
      let v ← Machine.alloc { props }
      return (x, v) :: (← bindObjects allowed xs)
    else bindObjects allowed xs

/-- Starts a machine with the allowed names as its globals. -/
def install (allowed : List String) : Exec Unit := do
  let named ← bindObjects allowed objects
  let callable := (natives.filter fun f => allowed.contains f.1).map fun f => (f.1, Val.native f.2)
  modify fun m => { m with globals := constants ++ named ++ callable }

end Globals

end FlowTree.Script
