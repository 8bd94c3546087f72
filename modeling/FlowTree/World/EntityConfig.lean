import FlowTree.Json.Record

/-!
# Entity configs

A config is a list of entries with a slot id each. An entry of type `map` holds entries of its own.
A slot is looked up among the entries and, one level down, in those of the maps, in order.
-/

namespace FlowTree

structure ConfigEntry where
  slotId : String
  type : String := ""
  value : Json := .null
  values : List ConfigEntry := []

structure EntityConfig where
  id : String
  values : List ConfigEntry := []

namespace ConfigEntry

mutual

def decEq : (a b : ConfigEntry) → Decidable (a = b)
  | ⟨slot, type, value, values⟩, ⟨slot', type', value', values'⟩ =>
    if h : slot = slot' ∧ type = type' ∧ value = value' then
      match decEqItems values values' with
      | isTrue h' => isTrue (by rw [h.1, h.2.1, h.2.2, h'])
      | isFalse h' => isFalse (by simp [h'])
    else isFalse (by simp; grind)

def decEqItems : (a b : List ConfigEntry) → Decidable (a = b)
  | [], [] => isTrue rfl
  | [], _ :: _ | _ :: _, [] => isFalse (by simp)
  | a :: as, b :: bs =>
    match decEq a b, decEqItems as bs with
    | isTrue h, isTrue h' => isTrue (by rw [h, h'])
    | isFalse h, _ => isFalse (by simp [h])
    | _, isFalse h => isFalse (by simp [h])

end

instance : DecidableEq ConfigEntry := decEq

def leaf (slotId type : String) (value : Json) : ConfigEntry :=
  { slotId, type, value }

def map (slotId : String) (values : List ConfigEntry) : ConfigEntry :=
  { slotId, type := "map", values }

def isMap (e : ConfigEntry) : Bool :=
  e.type == "map"

/-! ### Slots -/

/-- The first entry for a slot, looked up among `es` and directly below the maps in it. -/
def find? (slot : String) : List ConfigEntry → Option ConfigEntry
  | [] => none
  | e :: es =>
    if e.slotId = slot then some e
    else
      let inner := if e.isMap then e.values.find? fun v => v.slotId == slot else none
      inner.or (find? slot es)

/-- The list with its first entry for a slot changed by `f`. -/
def updateFirst? (slot : String) (f : ConfigEntry → ConfigEntry) :
    List ConfigEntry → Option (List ConfigEntry)
  | [] => none
  | e :: es => if e.slotId = slot then some (f e :: es) else (updateFirst? slot f es).map (e :: ·)

/-- The list with the entry that `find?` finds changed by `f`. -/
def update? (slot : String) (f : ConfigEntry → ConfigEntry) :
    List ConfigEntry → Option (List ConfigEntry)
  | [] => none
  | e :: es =>
    if e.slotId = slot then some (f e :: es)
    else
      match if e.isMap then updateFirst? slot f e.values else none with
      | some values => some ({ e with values } :: es)
      | none => (update? slot f es).map (e :: ·)

/-! ### Entries as values -/

mutual

def toJson : ConfigEntry → Json
  | ⟨slotId, type, value, values⟩ =>
    .obj ([("slotId", .str slotId), ("type", .str type), ("value", value)] ++
      match values with
      | [] => []
      | e :: es => [("values", .arr (toJson e :: toJsonItems es))])

def toJsonItems : List ConfigEntry → List Json
  | [] => []
  | e :: es => toJson e :: toJsonItems es

end

/-- An entry from the values of its first three fields and the entries below it. -/
def assemble? (values : List ConfigEntry) : List (Option Json) → Option ConfigEntry
  | [slotId, type, value] => do
    return {
      slotId := ← Json.required Json.asString? slotId
      type := ← Json.optional "" Json.asString? type
      value := ← Json.optional .null Json.anything value
      values }
  | _ => none

/-- The names of the first three fields. The fourth is the entries below. -/
def headFields : List Json.FieldName :=
  [⟨"slotId", none⟩, ⟨"type", none⟩, ⟨"value", none⟩]

mutual

def ofJson? : Json → Option ConfigEntry
  | .obj fields => do assemble? (← valuesIn? fields) (← Json.record? headFields (.obj fields))
  | .arr [slotId, type, value, .arr values] => do
    assemble? (← ofItems? values) [some slotId, some type, some value]
  | .arr items => do assemble? [] (← Json.record? headFields (.arr items))
  | _ => none

/-- The entries under the key `values`, none if it is missing. -/
def valuesIn? : List (String × Json) → Option (List ConfigEntry)
  | [] => some []
  | (k, v) :: fs =>
    if k = "values" then
      match v with
      | .arr items => ofItems? items
      | _ => none
    else valuesIn? fs

def ofItems? : List Json → Option (List ConfigEntry)
  | [] => some []
  | j :: js => do return (← ofJson? j) :: (← ofItems? js)

end

end ConfigEntry

namespace EntityConfig

instance : DecidableEq EntityConfig := fun a b =>
  if h : a.id = b.id ∧ a.values = b.values then isTrue (by cases a; cases b; simp_all)
  else isFalse (by rintro rfl; simp at h)

def findSlot? (c : EntityConfig) (slot : String) : Option ConfigEntry :=
  ConfigEntry.find? slot c.values

/-- The config with a new value in a slot, if it has the slot. -/
def setSlot? (c : EntityConfig) (slot : String) (value : Json) : Option EntityConfig :=
  (ConfigEntry.update? slot (fun e => { e with value }) c.values).map fun values =>
    { c with values }

def toJson (c : EntityConfig) : Json :=
  .obj [("id", .str c.id), ("values", .arr (ConfigEntry.toJsonItems c.values))]

def ofJson? (j : Json) : Option EntityConfig := do
  let [id, values] ← Json.record? [⟨"id", none⟩, ⟨"values", none⟩] j | none
  return {
    id := ← Json.required Json.asString? id
    values := ← Json.optional [] (Json.listOf? ConfigEntry.ofJson?) values }

end EntityConfig

end FlowTree
