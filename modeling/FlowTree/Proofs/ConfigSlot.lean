import FlowTree.World.EntityConfig
import Mathlib.Data.List.Basic

/-!
# Slots of configs

The entries of a config are searched in one order: an entry, then, if it is a map, those directly
below it. Looking a slot up and changing it both stop at the first entry for it, so what is read back
is what was written, and around that entry nothing changes.
-/

namespace FlowTree

namespace ConfigEntry
variable {slot : String} {f : ConfigEntry → ConfigEntry} {e x : ConfigEntry}
  {before es : List ConfigEntry}

/-! ### Places of entries -/

/-- The slots below an entry that are searched along with it. -/
def innerSlots (e : ConfigEntry) : List String :=
  if e.isMap then e.values.map slotId else []

/-- The slots that are searched, in order. -/
def slots (es : List ConfigEntry) : List String :=
  es.flatMap fun e => e.slotId :: e.innerSlots

theorem slots_cons : slots (e :: es) = e.slotId :: (e.innerSlots ++ slots es) := by
  rw [slots, List.flatMap_cons]
  rfl

/-- A list of entries with a gap, which is in the list itself or directly below a map. -/
inductive Place
  | direct (before after : List ConfigEntry)
  | below (before : List ConfigEntry) (mapId : String) (value : Json)
      (left right after : List ConfigEntry)

namespace Place

/-- The list with an entry in the gap. -/
def fill (e : ConfigEntry) : Place → List ConfigEntry
  | direct before after => before ++ e :: after
  | below before mapId value left right after =>
    before ++ { slotId := mapId, type := "map", value, values := left ++ e :: right } :: after

/-- The slots that are searched before the gap is reached. -/
def passed : Place → List String
  | direct before _ => slots before
  | below before mapId _ left _ _ => slots before ++ mapId :: left.map slotId

/-- The place with one more entry at the front of the list. -/
def cons (e : ConfigEntry) : Place → Place
  | direct before after => direct (e :: before) after
  | below before mapId value left right after =>
    below (e :: before) mapId value left right after

theorem fill_cons (p : Place) : (p.cons e).fill x = e :: p.fill x := by
  cases p <;> rfl

theorem passed_cons (p : Place) :
    (p.cons e).passed = e.slotId :: (e.innerSlots ++ p.passed) := by
  cases p <;> simp only [cons, passed, slots_cons, List.cons_append, List.append_assoc]

/-- The first entry for a slot in `es` is `e`, in this place. -/
structure Holds (p : Place) (slot : String) (e : ConfigEntry) (es : List ConfigEntry) : Prop where
  eq_fill : es = p.fill e
  slotId : e.slotId = slot
  first : slot ∉ p.passed

theorem Holds.cons {p : Place} (h : p.Holds slot x es) (he : e.slotId ≠ slot)
    (hinner : slot ∉ e.innerSlots) : (p.cons e).Holds slot x (e :: es) where
  eq_fill := by rw [fill_cons, ← h.eq_fill]
  slotId := h.slotId
  first := by
    rw [passed_cons, List.mem_cons, List.mem_append]
    rintro (hslot | hslot | hslot)
    · exact he hslot.symm
    · exact hinner hslot
    · exact h.first hslot

end Place

theorem isMap_of_type (mapId : String) (value : Json) (values : List ConfigEntry) :
    isMap { slotId := mapId, type := "map", value, values } = true :=
  beq_self_eq_true "map"

theorem find?_values_eq_none (h : slot ∉ es.map slotId) :
    es.find? (fun v => v.slotId == slot) = none := by
  refine List.find?_eq_none.2 fun x hx hslot => h ?_
  exact List.mem_map.2 ⟨x, hx, beq_iff_eq.1 hslot⟩

theorem updateFirst?_append (h : slot ∉ before.map slotId) :
    updateFirst? slot f (before ++ es) = (updateFirst? slot f es).map (before ++ ·) := by
  induction before with
  | nil => exact Option.map_id'.symm
  | cons e before ih =>
    rw [List.map_cons, List.mem_cons, not_or] at h
    rw [List.cons_append, updateFirst?, if_neg (Ne.symm h.1), ih h.2, Option.map_map]
    rfl

theorem find?_append (h : slot ∉ slots before) : find? slot (before ++ es) = find? slot es := by
  induction before with
  | nil => rfl
  | cons e before ih =>
    rw [slots_cons, List.mem_cons, List.mem_append, not_or, not_or, innerSlots] at h
    obtain ⟨he, hinner, hbefore⟩ := h
    rw [List.cons_append, find?, if_neg (Ne.symm he), ih hbefore]
    split at hinner
    · rw [if_pos ‹_›, find?_values_eq_none hinner]
      rfl
    · rw [if_neg ‹_›]
      rfl

theorem update?_append (h : slot ∉ slots before) :
    update? slot f (before ++ es) = (update? slot f es).map (before ++ ·) := by
  induction before with
  | nil => exact Option.map_id'.symm
  | cons e before ih =>
    rw [slots_cons, List.mem_cons, List.mem_append, not_or, not_or, innerSlots] at h
    obtain ⟨he, hinner, hbefore⟩ := h
    have hbelow : (if e.isMap then updateFirst? slot f e.values else none) = none := by
      split at hinner
      · rw [if_pos ‹_›, ← List.append_nil e.values, updateFirst?_append hinner]
        rfl
      · rw [if_neg ‹_›]
    rw [List.cons_append, update?, if_neg (Ne.symm he), hbelow, ih hbefore]
    simp only [Option.map_map]
    rfl

theorem find?_eq_none (h : slot ∉ slots es) : find? slot es = none := by
  rw [← List.append_nil es, find?_append h]
  rfl

namespace Place
variable {p : Place}

theorem Holds.find? (h : p.Holds slot e es) : ConfigEntry.find? slot es = some e := by
  obtain ⟨rfl, he, hfirst⟩ := h
  cases p with
  | direct before after =>
    rw [fill, find?_append hfirst, ConfigEntry.find?, if_pos he]
  | below before mapId value left right after =>
    simp only [passed, List.mem_append, List.mem_cons, not_or] at hfirst
    obtain ⟨hbefore, hmap, hleft⟩ := hfirst
    rw [fill, find?_append hbefore, ConfigEntry.find?, if_neg (Ne.symm hmap)]
    simp only [isMap_of_type, if_true]
    have hfound : (e :: right).find? (fun v => v.slotId == slot) = some e :=
      List.find?_cons_of_pos (beq_iff_eq.2 he)
    rw [List.find?_append, find?_values_eq_none hleft, Option.none_or, hfound]
    rfl

theorem Holds.update? (h : p.Holds slot e es) :
    ConfigEntry.update? slot f es = some (p.fill (f e)) := by
  obtain ⟨rfl, he, hfirst⟩ := h
  cases p with
  | direct before after =>
    rw [fill, update?_append hfirst, ConfigEntry.update?, if_pos he]
    rfl
  | below before mapId value left right after =>
    simp only [passed, List.mem_append, List.mem_cons, not_or] at hfirst
    obtain ⟨hbefore, hmap, hleft⟩ := hfirst
    rw [fill, update?_append hbefore, ConfigEntry.update?, if_neg (Ne.symm hmap)]
    simp only [isMap_of_type, if_true]
    rw [updateFirst?_append hleft, updateFirst?, if_pos he]
    rfl

end Place

end ConfigEntry

namespace EntityConfig
variable {c c' : EntityConfig} {slot : String} {v : Json}

end EntityConfig

end FlowTree
