import FlowTree.Binary64

/-!
# Free-form values

Parameters, variables and payloads are values of one type. A number keeps whether it was stored as
an integer or as a double, since the two are written differently. The entries of an object are in
the order of their keys, and `Fields.insert` keeps them so.
-/

namespace FlowTree

inductive Number
  | int (n : Int)
  | double (x : Float)
  deriving DecidableEq

inductive Json
  | null
  | bool (b : Bool)
  | num (n : Number)
  | str (s : String)
  | arr (items : List Json)
  | obj (fields : List (String × Json))

/-- The entries of an object. -/
abbrev Fields := List (String × Json)

namespace Json

instance : Inhabited Json := ⟨null⟩

mutual

def decEq : (a b : Json) → Decidable (a = b)
  | null, null => isTrue rfl
  | bool a, bool b => if h : a = b then isTrue (by rw [h]) else isFalse (by simp [h])
  | num a, num b => if h : a = b then isTrue (by rw [h]) else isFalse (by simp [h])
  | str a, str b => if h : a = b then isTrue (by rw [h]) else isFalse (by simp [h])
  | arr a, arr b =>
    match decEqItems a b with
    | isTrue h => isTrue (by rw [h])
    | isFalse h => isFalse (by simp [h])
  | obj a, obj b =>
    match decEqFields a b with
    | isTrue h => isTrue (by rw [h])
    | isFalse h => isFalse (by simp [h])
  | null, bool _ | null, num _ | null, str _ | null, arr _ | null, obj _
  | bool _, null | bool _, num _ | bool _, str _ | bool _, arr _ | bool _, obj _
  | num _, null | num _, bool _ | num _, str _ | num _, arr _ | num _, obj _
  | str _, null | str _, bool _ | str _, num _ | str _, arr _ | str _, obj _
  | arr _, null | arr _, bool _ | arr _, num _ | arr _, str _ | arr _, obj _
  | obj _, null | obj _, bool _ | obj _, num _ | obj _, str _ | obj _, arr _ =>
    isFalse (by simp)

def decEqItems : (a b : List Json) → Decidable (a = b)
  | [], [] => isTrue rfl
  | [], _ :: _ | _ :: _, [] => isFalse (by simp)
  | a :: as, b :: bs =>
    match decEq a b, decEqItems as bs with
    | isTrue h, isTrue h' => isTrue (by rw [h, h'])
    | isFalse h, _ => isFalse (by simp [h])
    | _, isFalse h => isFalse (by simp [h])

def decEqFields : (a b : List (String × Json)) → Decidable (a = b)
  | [], [] => isTrue rfl
  | [], _ :: _ | _ :: _, [] => isFalse (by simp)
  | (k, a) :: as, (l, b) :: bs =>
    if hk : k = l then
      match decEq a b, decEqFields as bs with
      | isTrue h, isTrue h' => isTrue (by rw [hk, h, h'])
      | isFalse h, _ => isFalse (by simp [h])
      | _, isFalse h => isFalse (by simp [h])
    else isFalse (by simp [hk])

end

instance : DecidableEq Json := decEq

def int (n : Int) : Json := num (.int n)

def double (x : Float) : Json := num (.double x)

/-- A double as part of a record, null if it is not finite. -/
def stored (x : Float) : Json := if x.isFinite then double x else null

/-- A field that may be empty, null if it is. -/
def ofOption {α : Type} (write : α → Json) : Option α → Json
  | none => null
  | some a => write a

def strings (ss : List String) : Json := arr (ss.map str)

def isNull : Json → Bool
  | null => true
  | _ => false

def asBool? : Json → Option Bool
  | bool b => some b
  | _ => none

def asString? : Json → Option String
  | str s => some s
  | _ => none

def asItems? : Json → Option (List Json)
  | arr items => some items
  | _ => none

def asFields? : Json → Option Fields
  | obj fields => some fields
  | _ => none

end Json

/-- The nearest double. -/
def Number.toFloat : Number → Float
  | int n => Binary64.ofInt n
  | double x => x

namespace Json

def asFloat? : Json → Option Float
  | num n => some n.toFloat
  | _ => none

/-- The integer stored in a value, if it lies between `lo` and `hi`. A double has none, however
whole it is. -/
def asIntIn? (lo hi : Int) : Json → Option Int
  | num (.int n) => if lo ≤ n ∧ n ≤ hi then some n else none
  | _ => none

end Json

namespace Fields

def get? (k : String) (fs : Fields) : Option Json :=
  fs.lookup k

/-- Binds `k` to `v`, in place of an older binding or else in the order of the keys. -/
def insert (k : String) (v : Json) : Fields → Fields
  | [] => [(k, v)]
  | (l, w) :: fs =>
    if k = l then (k, v) :: fs
    else if k < l then (k, v) :: (l, w) :: fs
    else (l, w) :: insert k v fs

/-- Of several bindings of a key the last one counts. -/
def ofList (bindings : List (String × Json)) : Fields :=
  bindings.foldl (fun fs b => insert b.1 b.2 fs) []

/-- The bindings of both, where those of `fs'` win. -/
def merge (fs fs' : Fields) : Fields :=
  fs'.foldl (fun fs b => insert b.1 b.2 fs) fs

@[simp]
theorem get?_insert_self (k : String) (v : Json) (fs : Fields) :
    get? k (insert k v fs) = some v := by
  induction fs with
  | nil => simp [insert, get?]
  | cons f fs ih =>
    obtain ⟨l, w⟩ := f
    simp only [insert]
    split
    · simp [get?]
    · split
      · simp [get?]
      · rename_i h _
        have h' : (k == l) = false := by simpa using h
        simpa [get?, List.lookup_cons, h'] using ih

theorem get?_insert_of_ne {k l : String} (h : l ≠ k) (v : Json) (fs : Fields) :
    get? l (insert k v fs) = get? l fs := by
  have hb : (l == k) = false := by simpa using h
  induction fs with
  | nil => simp [insert, get?, List.lookup_cons, hb]
  | cons f fs ih =>
    obtain ⟨m, w⟩ := f
    simp only [insert]
    split
    · rename_i hk; subst hk
      simp [get?, List.lookup_cons, hb]
    · split
      · simp [get?, List.lookup_cons, hb]
      · simp only [get?, List.lookup_cons] at ih ⊢
        rw [ih]

end Fields

end FlowTree
