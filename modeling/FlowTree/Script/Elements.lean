import FlowTree.Script.Value

/-!
# Elements

What an object has at positions. Elements that follow each other without gaps are kept in the
narrowest of three forms that holds them all, integers, doubles or values, and a number takes on the
form of those around it. A form only ever widens. Elements with a gap between them are scattered and
stay as they are.
-/

namespace FlowTree.Script

inductive Elements
  | integers (xs : Array Int)
  | doubles (xs : Array Float)
  | values (xs : Array Val)
  /-- In the order of their positions. -/
  | scattered (xs : List (Nat × Val))

namespace Elements

def empty : Elements := integers #[]

instance : Inhabited Elements := ⟨empty⟩

/-- Elements that are given all at once keep their forms. -/
def ofArray (vs : Array Val) : Elements :=
  if vs.isEmpty then empty else values vs

def get? : Elements → Nat → Option Val
  | integers xs, i => xs[i]?.map fun n => .num (.small n)
  | doubles xs, i => xs[i]?.map .double
  | values xs, i => xs[i]?
  | scattered xs, i => xs.lookup i

/-- The elements with their positions, in order. -/
def toList : Elements → List (Nat × Val)
  | integers xs => xs.toList.zipIdx.map fun (n, i) => (i, .num (.small n))
  | doubles xs => xs.toList.zipIdx.map fun (x, i) => (i, .double x)
  | values xs => xs.toList.zipIdx.map fun (v, i) => (i, v)
  | scattered xs => xs

/-! ### Setting -/

/-- An item in its place, or behind all others. -/
def place {α : Type} (xs : Array α) (i : Nat) (x : α) : Array α :=
  if i < xs.size then xs.setIfInBounds i x else xs.push x

def insert (i : Nat) (v : Val) : List (Nat × Val) → List (Nat × Val)
  | [] => [(i, v)]
  | (j, w) :: xs =>
    if i < j then (i, v) :: (j, w) :: xs
    else if i = j then (i, v) :: xs
    else (j, w) :: insert i v xs

def setValue (xs : Array Val) (i : Nat) (v : Val) : Elements :=
  if i ≤ xs.size then values (place xs i v)
  else scattered (insert i v (values xs).toList)

def setDouble (xs : Array Float) (i : Nat) (v : Val) : Elements :=
  if i ≤ xs.size then
    match v with
    | .num n => doubles (place xs i n.toFloat)
    | v => setValue (xs.map .double) i v
  else scattered (insert i v (doubles xs).toList)

def setInteger (xs : Array Int) (i : Nat) (v : Val) : Elements :=
  if i ≤ xs.size then
    match v with
    | .num n =>
      match n.narrow with
      | .small m => integers (place xs i m)
      | .double x => setDouble (xs.map Binary64.ofInt) i (.double x)
    | v => setValue (xs.map fun n => .num (.small n)) i v
  else scattered (insert i v (integers xs).toList)

def set (es : Elements) (i : Nat) (v : Val) : Elements :=
  match es with
  | integers xs => setInteger xs i v
  | doubles xs => setDouble xs i v
  | values xs => setValue xs i v
  | scattered xs => scattered (insert i v xs)

/-- The elements at positions below `n`, in the form they had. -/
def truncate (es : Elements) (n : Nat) : Elements :=
  match es with
  | integers xs => integers (xs.shrink n)
  | doubles xs => doubles (xs.shrink n)
  | values xs => values (xs.shrink n)
  | scattered xs => scattered (xs.filter fun x => decide (x.1 < n))

end Elements

end FlowTree.Script
