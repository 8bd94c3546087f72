import FlowTree.Toml.Basic

/-!
# Tables in the making

A table is filled by keys with dots in them and by headers, and not every way to come back to a
table is allowed. So a table in the making remembers how it came to be: `declared` by a header or
braces, `dotted` as a part of a key, or `implied` as a part of a header.
-/

namespace FlowTree.Toml

inductive Origin
  | declared
  | dotted
  | implied
  deriving DecidableEq, Repr

/-- What a key of a table in the making is bound to. A value is closed: nothing can be added to it.
An array of tables takes additions to its last table. -/
inductive Slot
  | value (v : Toml)
  | table (origin : Origin) (slots : List (String × Slot))
  | tables (earlier : List (List (String × Slot))) (last : List (String × Slot))

abbrev Slots := List (String × Slot)

mutual

def Slot.close : Slot → Toml
  | .value v => v
  | .table _ slots => .table (closeSlots slots)
  | .tables earlier last => .arr (closeTables earlier ++ [.table (closeSlots last)])

def closeSlots : List (String × Slot) → List (String × Toml)
  | [] => []
  | (k, s) :: ss => (k, s.close) :: closeSlots ss

def closeTables : List (List (String × Slot)) → List Toml
  | [] => []
  | t :: ts => .table (closeSlots t) :: closeTables ts

end

namespace Slots

def put (k : String) (s : Slot) : Slots → Slots
  | [] => [(k, s)]
  | (l, t) :: ss => if l = k then (k, s) :: ss else (l, t) :: put k s ss

/-- Changes the table at the end of a path, whose missing steps get the origin `step`. A path of
dotted steps must not come back to a declared table. -/
def alter? (step : Origin) (f : Origin → Slots → Option Slots) :
    List String → Origin → Slots → Option Slots
  | [], origin, slots => f origin slots
  | k :: path, _, slots => do
    let changed ← match slots.lookup k with
      | none => (alter? step f path step []).map (.table step)
      | some (.value _) => none
      | some (.table origin inner) =>
        if step = .dotted ∧ origin = .declared then none
        else (alter? step f path origin inner).map (.table origin)
      | some (.tables earlier last) =>
        (alter? step f path .declared last).map (.tables earlier)
    return put k changed slots

/-- Binds a new key at the end of a dotted path. A path of one step or more must end in a dotted
table. -/
def bind? (slots : Slots) (path : List String) (key : String) (v : Toml) : Option Slots :=
  alter? .dotted (fun origin inner =>
    if path ≠ [] ∧ origin ≠ .dotted then none
    else match inner.lookup key with
      | some _ => none
      | none => some (put key (.value v) inner)) path .declared slots

/-- A dotted key and its value. The key's steps before the last are its path. -/
structure Binding where
  path : List String
  key : String
  value : Toml

def bindAll? (slots : Slots) (bindings : List Binding) : Option Slots :=
  bindings.foldlM (fun slots b => slots.bind? b.path b.key b.value) slots

/-- The table that a header opens: a new one, or one that only the headers of its parts implied. -/
def declare? (path : List String) (key : String) (bindings : List Binding) (slots : Slots) :
    Option Slots :=
  alter? .implied (fun _ inner => do
    let start ← match inner.lookup key with
      | none => some []
      | some (.table .implied start) => some start
      | some _ => none
    return put key (.table .declared (← bindAll? start bindings)) inner) path .declared slots

/-- The next table of an array of tables, which is new if the key is. -/
def append? (path : List String) (key : String) (bindings : List Binding) (slots : Slots) :
    Option Slots :=
  alter? .implied (fun _ inner => do
    let earlier ← match inner.lookup key with
      | none => some []
      | some (.tables earlier last) => some (earlier ++ [last])
      | some _ => none
    return put key (.tables earlier (← bindAll? [] bindings)) inner) path .declared slots

end Slots

end FlowTree.Toml
