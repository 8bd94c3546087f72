import FlowTree.Json.Basic
import FlowTree.Json.Term

/-!
# Records as values

A record is written as an object with one entry per field. It is read from such an object, in which
unknown entries do not matter, or from an array that lists the fields in their order and may leave
out the last ones. What a missing field means is for each field to say: `required` or `optional`.

The fields of a record can also be taken from a term as it is written, which must not give a field
twice.
-/

namespace FlowTree.Json

/-- The name of a field, and a second name that it can go by. -/
structure FieldName where
  name : String
  second : Option String := none

/-- The entry for a field. It must not be there under both names. -/
def field? (fields : Fields) (f : FieldName) : Option (Option Json) :=
  match Fields.get? f.name fields, f.second.bind fun k => Fields.get? k fields with
  | some _, some _ => none
  | some v, none | none, some v => some (some v)
  | none, none => some none

/-- The values of the fields in their order, `none` for one that is missing. -/
def record? (names : List FieldName) : Json → Option (List (Option Json))
  | obj fields => names.mapM (field? fields)
  | arr items =>
    if items.length ≤ names.length then
      some (items.map some ++ List.replicate (names.length - items.length) none)
    else none
  | _ => none

namespace Term

/-- The entry for a field, which may be there once. -/
def field? (fields : List (Option String × Term)) (name : String) : Option (Option Term) :=
  match fields.filter fun f => f.1 == some name with
  | [] => some none
  | [(_, t)] => some (some t)
  | _ => none

/-- The terms of the fields in their order, `none` for one that is missing. -/
def record? (names : List String) : Term → Option (List (Option Term))
  | obj fields =>
    if fields.all fun f => f.1.isSome then names.mapM (field? fields) else none
  | arr items =>
    if items.length ≤ names.length then
      some (items.map some ++ List.replicate (names.length - items.length) none)
    else none
  | _ => none

end Term

def required {α : Type} (read : Json → Option α) (v : Option Json) : Option α :=
  v.bind read

def optional {α : Type} (default : α) (read : Json → Option α) : Option Json → Option α
  | none => some default
  | some v => read v

/-- A field for which any value will do. -/
def anything : Json → Option Json := some

/-- A value that may be null in place of being there. -/
def nullable {α : Type} (read : Json → Option α) : Json → Option (Option α)
  | null => some none
  | v => (read v).map some

def listOf? {α : Type} (read : Json → Option α) : Json → Option (List α)
  | arr items => items.mapM read
  | _ => none

/-- The name of a case without content: a string, or an object with the name as its only key and
null as the content. -/
def caseName? : Json → Option String
  | str s => some s
  | obj [(k, null)] => some k
  | _ => none

end FlowTree.Json
