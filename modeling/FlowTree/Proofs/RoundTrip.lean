import FlowTree.Engine.Settings
import FlowTree.Proofs.Binary64.Finite
import FlowTree.Proofs.Entries
import FlowTree.Proofs.Visit
import FlowTree.Rule.Condition
import FlowTree.Rule.Split
import FlowTree.Rule.Switch
import FlowTree.World.EntityConfig
import FlowTree.World.Offer
import FlowTree.World.StatTemplate

/-!
# What is written is read back

Each part of a flow, of the game's data and of an engine's settings is read back from the value that
it is written as, doubles that are not finite apart. What has been read from a document is finite, so
a document that has been read and written once does not change any more.
-/

namespace FlowTree

/-! ### Numbers in documents -/

def Number.Proper : Number → Prop
  | int n => minInt64 ≤ n ∧ n ≤ maxWord64
  | double x => x.isFinite = true

theorem Number.Proper.isFinite {n : Number} (h : n.Proper) : n.toFloat.isFinite = true := by
  cases n with
  | int n =>
    obtain ⟨hlow, hhigh⟩ := h
    simp only [minInt64, maxWord64] at hlow hhigh
    exact Binary64.isFinite_ofInt (by omega)
  | double x => exact h

namespace Json

/-- Numbers are as in a document: integers within 64 bits, and finite doubles. -/
inductive Proper : Json → Prop
  | null : Proper .null
  | bool (b : Bool) : Proper (.bool b)
  | num {n : Number} (h : n.Proper) : Proper (.num n)
  | str (s : String) : Proper (.str s)
  | arr {items : List Json} (h : ∀ j ∈ items, Proper j) : Proper (.arr items)
  | obj {fields : Fields} (h : ∀ f ∈ fields, Proper f.2) : Proper (.obj fields)

theorem Proper.isFinite_of_asFloat? {j : Json} (h : j.Proper) {x : Float}
    (hx : j.asFloat? = some x) : x.isFinite = true := by
  cases h with
  | num h =>
    cases hx
    exact h.isFinite
  | _ => cases hx

theorem read_of_nullable {α : Type} {read : Json → Option α} {v : Json} {a : α}
    (h : nullable read v = some (some a)) : read v = some a := by
  unfold nullable at h
  split at h
  · cases h
  · obtain ⟨a', ha, haa'⟩ := Option.map_eq_some_iff.1 h
    cases haa'
    exact ha

theorem exists_of_mem_mapM {α β : Type} {f : α → Option β} {as : List α} {bs : List β}
    (h : as.mapM f = some bs) {b : β} (hb : b ∈ bs) : ∃ a ∈ as, f a = some b := by
  induction as generalizing bs with
  | nil =>
    cases h
    exact absurd hb List.not_mem_nil
  | cons a as ih =>
    simp only [List.mapM_cons, Option.bind_eq_bind, Option.bind_eq_some_iff, Option.pure_def,
      Option.some.injEq] at h
    obtain ⟨b', ha, bs', has, rfl⟩ := h
    rcases List.mem_cons.1 hb with rfl | hb
    · exact ⟨a, List.mem_cons_self, ha⟩
    · obtain ⟨a', ha', hfa'⟩ := ih has hb
      exact ⟨a', List.mem_cons_of_mem a ha', hfa'⟩

theorem get?_of_field? {fields : Fields} {f : FieldName} {v : Json}
    (h : field? fields f = some (some v)) : ∃ k, Fields.get? k fields = some v := by
  unfold field? at h
  split at h
  · cases h
  · cases h
    exact ⟨_, ‹_›⟩
  · cases h
    obtain ⟨k, -, hk⟩ := Option.bind_eq_some_iff.1 ‹_›
    exact ⟨k, hk⟩
  · cases h

/-- The values of a record's fields are parts of the record. -/
theorem Proper.of_mem_record? {j : Json} (h : j.Proper) {names : List FieldName}
    {values : List (Option Json)} (hvalues : record? names j = some values) {v : Json}
    (hv : some v ∈ values) : v.Proper := by
  cases h with
  | obj h =>
    obtain ⟨f, -, hf⟩ := exists_of_mem_mapM hvalues hv
    obtain ⟨k, hk⟩ := get?_of_field? hf
    exact h _ (Fields.mem_of_get? hk)
  | arr h =>
    simp only [record?] at hvalues
    split at hvalues <;> cases hvalues
    rcases List.mem_append.1 hv with hv | hv
    · obtain ⟨j, hj, hjv⟩ := List.mem_map.1 hv
      cases hjv
      exact h _ hj
    · cases List.eq_of_mem_replicate hv
  | _ => cases hvalues

/-- What is written is read back, and what has been read from a document and written stays as it is
when it is read and written again. -/
structure RoundTrips {α : Type} (finite : α → Prop) (write : α → Json) (read : Json → Option α) :
    Prop where
  read_write : ∀ a, finite a → read (write a) = some a
  normal : ∀ j a, j.Proper → read j = some a → (read (write a)).map write = some (write a)

section
variable {α : Type} {finite : α → Prop} {write : α → Json} {read : Json → Option α}

theorem RoundTrips.of_finite (hread : ∀ a, finite a → read (write a) = some a)
    (hfinite : ∀ j a, j.Proper → read j = some a → finite a) : RoundTrips finite write read where
  read_write := hread
  normal j a hj ha := by rw [hread a (hfinite j a hj ha), Option.map_some]

theorem RoundTrips.of_all (hread : ∀ a, read (write a) = some a) :
    RoundTrips (fun _ => True) write read :=
  .of_finite (fun a _ => hread a) fun _ _ _ _ => trivial

theorem mapM_read (hread : ∀ a, read (write a) = some a) (as : List α) :
    (as.map write).mapM read = some as := by
  induction as with
  | nil => rfl
  | cons a as ih => rw [List.map_cons, List.mapM_cons, hread, ih]; rfl

end

theorem asFloat?_stored {x : Float} (h : x.isFinite = true) : (stored x).asFloat? = some x := by
  rw [stored, if_pos h]
  rfl

end Json

/-! ### Names -/

theorem Tag.ofName_storedName (t : Tag) : ofName t.storedName = t := by
  cases t <;> decide +kernel

theorem RefKind.ofName_name (k : RefKind) : ofName k.name = k := by
  cases k <;> rfl

theorem Comparison.ofName?_name (c : Comparison) : ofName? c.name = some c := by
  cases c <;> rfl

theorem Target.ofName?_name (t : Target) : ofName? t.name = some t := by
  cases t <;> rfl

/-! ### Parts of flows -/

theorem Ref.ofJson?_toJson (r : Ref) : ofJson? r.toJson = some r := by
  have hrecord : Json.record? [⟨"value", some "raw"⟩, ⟨"type", none⟩, ⟨"isLiteral", none⟩] r.toJson =
      some [some r.value, some (.str r.kind.name), some (.bool r.isLiteral)] := rfl
  rw [ofJson?, hrecord]
  show some (Ref.mk r.value (RefKind.ofName r.kind.name) r.isLiteral) = some r
  rw [RefKind.ofName_name]

theorem Condition.ofJson?_toJson (c : Condition) : ofJson? c.toJson = some c := by
  have hrecord : Json.record? [⟨"value1", none⟩, ⟨"value2", none⟩, ⟨"operator", none⟩] c.toJson =
      some [some c.left.toJson, some c.right.toJson, some (.str c.comparison.name)] := rfl
  rw [ofJson?, hrecord]
  simp only [Json.required, Json.caseName?, Option.bind_eq_bind, Option.bind_some,
    Ref.ofJson?_toJson, Option.pure_def, Comparison.ofName?_name]

theorem SwitchCase.ofJson?_toJson (c : SwitchCase) : ofJson? c.toJson = some c := rfl

theorem Split.ofJson?_toJson (s : Split) (h : s.share.isFinite = true) :
    ofJson? s.toJson = some s := by
  have hrecord : Json.record? [⟨"slotId", none⟩, ⟨"share", none⟩] s.toJson =
      some [some (.str s.slotId), some (.stored s.share)] := rfl
  rw [ofJson?, hrecord]
  simp only [Json.required, Json.asString?, Option.bind_eq_bind, Option.bind_some,
    Json.asFloat?_stored h, Option.pure_def]

theorem Split.isFinite_of_ofJson? {j : Json} (hj : j.Proper) {s : Split}
    (h : ofJson? j = some s) : s.share.isFinite = true := by
  unfold ofJson? at h
  obtain ⟨values, hrecord, h⟩ := Option.bind_eq_some_iff.1 h
  split at h
  case h_2 => cases h
  case h_1 slotId share =>
    obtain ⟨id, -, h⟩ := Option.bind_eq_some_iff.1 h
    obtain ⟨x, hx, h⟩ := Option.bind_eq_some_iff.1 h
    cases h
    obtain ⟨v, rfl, hv⟩ := Option.bind_eq_some_iff.1 hx
    have hproper := hj.of_mem_record? hrecord (List.mem_cons_of_mem _ List.mem_cons_self)
    exact hproper.isFinite_of_asFloat? hv

/-! ### Flows -/

namespace Node

theorem ofItems?_toJsonItems {ns : List Node} (h : ∀ n ∈ ns, ofJson? n.toJson = some n) :
    ofItems? (toJsonItems ns) = some ns := by
  induction ns with
  | nil => rfl
  | cons n ns ih =>
    have hrest := ih fun m hm => h m (List.mem_cons_of_mem n hm)
    rw [toJsonItems, ofItems?, h n List.mem_cons_self, hrest]
    rfl

theorem ofJson?_toJson (n : Node) : ofJson? n.toJson = some n := by
  induction n using Node.induct with
  | h n ih =>
    obtain ⟨op, slotId, params, children⟩ := n
    have hrecord : Json.record? headFields (toJson ⟨op, slotId, params, children⟩) =
        some [some (.str op.storedName), some (.str slotId), some (.obj params)] := rfl
    rw [toJson] at hrecord ⊢
    have hchildren : childrenIn? [("children", .arr (toJsonItems children)),
        ("op", .str op.storedName), ("params", .obj params), ("slotId", .str slotId)] =
        some children := ofItems?_toJsonItems ih
    rw [ofJson?, hrecord, hchildren]
    show some (Node.mk (Tag.ofName op.storedName) slotId params children) = _
    rw [Tag.ofName_storedName]

end Node

theorem Flow.ofJson?_toJson (f : Flow) : ofJson? f.toJson = some f := by
  have hrecord : Json.record? [⟨"id", none⟩, ⟨"root", none⟩] f.toJson =
      some [some (.str f.id), some f.root.toJson] := rfl
  rw [ofJson?, hrecord]
  simp only [Json.required, Json.asString?, Option.bind_eq_bind, Option.bind_some,
    Node.ofJson?_toJson, Option.pure_def]

/-! ### Data of the game -/

theorem StatTemplate.ofJson?_toJson (t : StatTemplate)
    (hmin : ∀ x, t.rangeMin = some x → x.isFinite = true)
    (hmax : ∀ x, t.rangeMax = some x → x.isFinite = true) : ofJson? t.toJson = some t := by
  have hrange {x? : Option Float} (h : ∀ x, x? = some x → x.isFinite = true) :
      Json.nullable Json.asFloat? (.ofOption .stored x?) = some x? := by
    cases x? with
    | none => rfl
    | some x =>
      rw [Json.ofOption, Json.stored, if_pos (h x rfl)]
      rfl
  have hrecord : Json.record? [⟨"id", none⟩, ⟨"internalId", none⟩, ⟨"type", none⟩,
      ⟨"rangeMin", none⟩, ⟨"rangeMax", none⟩, ⟨"defaultValue", none⟩] t.toJson =
      some [some (.str t.id), some (.str t.internalId), some (.str t.type.name),
        some (.ofOption .stored t.rangeMin), some (.ofOption .stored t.rangeMax),
        some t.default] := rfl
  rw [ofJson?, hrecord]
  simp only [Json.required, Json.optional, Json.asString?, Json.caseName?, Json.anything,
    Option.bind_eq_bind, Option.bind_some, Target.ofName?_name, hrange hmin, hrange hmax,
    Option.pure_def]

theorem StatTemplate.isFinite_of_ofJson? {j : Json} (hj : j.Proper) {t : StatTemplate}
    (h : ofJson? j = some t) : (∀ x, t.rangeMin = some x → x.isFinite = true) ∧
      ∀ x, t.rangeMax = some x → x.isFinite = true := by
  have hrange {range : Option Json} (hproper : ∀ v, range = some v → v.Proper) {x? : Option Float}
      (hx : Json.optional none (Json.nullable Json.asFloat?) range = some x?) :
      ∀ x, x? = some x → x.isFinite = true := by
    rintro x rfl
    cases range with
    | none => cases hx
    | some v => exact (hproper v rfl).isFinite_of_asFloat? (Json.read_of_nullable hx)
  unfold ofJson? at h
  obtain ⟨values, hrecord, h⟩ := Option.bind_eq_some_iff.1 h
  split at h
  case h_2 => cases h
  case h_1 id internalId type rangeMin rangeMax default =>
    obtain ⟨_, -, h⟩ := Option.bind_eq_some_iff.1 h
    obtain ⟨_, -, h⟩ := Option.bind_eq_some_iff.1 h
    obtain ⟨_, -, h⟩ := Option.bind_eq_some_iff.1 h
    obtain ⟨min, hmin, h⟩ := Option.bind_eq_some_iff.1 h
    obtain ⟨max, hmax, h⟩ := Option.bind_eq_some_iff.1 h
    obtain ⟨_, -, h⟩ := Option.bind_eq_some_iff.1 h
    cases h
    refine ⟨hrange (fun v hv => ?_) hmin, hrange (fun v hv => ?_) hmax⟩
    · exact hj.of_mem_record? hrecord (by simp [hv])
    · exact hj.of_mem_record? hrecord (by simp [hv])

theorem Offer.ofJson?_toJson (o : Offer) : ofJson? o.toJson = some o := by
  have hicon : Json.nullable Json.asString? (.ofOption .str o.icon) = some o.icon := by
    cases o.icon <;> rfl
  have hcontent : Json.listOf? Json.asString? (.strings o.content) = some o.content :=
    Json.mapM_read (fun s => show Json.asString? (.str s) = some s from rfl) o.content
  have hrecord : Json.record? [⟨"internalId", none⟩, ⟨"icon", none⟩, ⟨"price", none⟩,
      ⟨"content", none⟩] o.toJson =
      some [some (.str o.internalId), some (.ofOption .str o.icon), some o.price,
        some (.strings o.content)] := rfl
  rw [ofJson?, hrecord]
  simp only [Json.required, Json.optional, Json.asString?, Json.anything, Option.bind_eq_bind,
    Option.bind_some, hicon, hcontent, Option.pure_def]

namespace ConfigEntry

mutual

theorem ofJson?_toJson : (e : ConfigEntry) → ofJson? e.toJson = some e
  | ⟨_, _, _, []⟩ => rfl
  | ⟨slotId, type, value, e :: es⟩ => by
    have hrecord : Json.record? headFields (toJson ⟨slotId, type, value, e :: es⟩) =
        some [some (.str slotId), some (.str type), some value] := rfl
    rw [toJson] at hrecord ⊢
    have hvalues : valuesIn? ([("slotId", .str slotId), ("type", .str type), ("value", value)] ++
        [("values", .arr (toJson e :: toJsonItems es))]) = some (e :: es) := by
      show ofItems? (toJson e :: toJsonItems es) = _
      rw [ofItems?, ofJson?_toJson e, ofItems?_toJsonItems es]
      rfl
    rw [ofJson?, hrecord, hvalues]
    rfl

theorem ofItems?_toJsonItems : (es : List ConfigEntry) → ofItems? (toJsonItems es) = some es
  | [] => rfl
  | e :: es => by
    rw [toJsonItems, ofItems?, ofJson?_toJson e, ofItems?_toJsonItems es]
    rfl

end

theorem toJsonItems_eq_map (es : List ConfigEntry) : toJsonItems es = es.map toJson := by
  induction es with
  | nil => rfl
  | cons e es ih => rw [toJsonItems, ih, List.map_cons]

end ConfigEntry

theorem EntityConfig.ofJson?_toJson (c : EntityConfig) : ofJson? c.toJson = some c := by
  have hvalues : Json.listOf? ConfigEntry.ofJson? (.arr (ConfigEntry.toJsonItems c.values)) =
      some c.values := by
    rw [ConfigEntry.toJsonItems_eq_map]
    exact Json.mapM_read ConfigEntry.ofJson?_toJson c.values
  have hrecord : Json.record? [⟨"id", none⟩, ⟨"values", none⟩] c.toJson =
      some [some (.str c.id), some (.arr (ConfigEntry.toJsonItems c.values))] := rfl
  rw [ofJson?, hrecord]
  simp only [Json.required, Json.optional, Json.asString?, Option.bind_eq_bind, Option.bind_some,
    hvalues, Option.pure_def]

/-! ### The backend and the settings -/

theorem BackendAction.ofJson?_toJson (a : BackendAction) : ofJson? a.toJson = some a := rfl

theorem Credentials.ofJson?_toJson (c : Credentials) : ofJson? c.toJson = some c := rfl

namespace Settings

theorem asWord64?_int (n : UInt64) : asWord64? (.int n.toNat) = some n := by
  have hn : n.toNat < 2 ^ 64 := n.toNat_lt
  have hmem : 0 ≤ (n.toNat : Int) ∧ (n.toNat : Int) ≤ maxWord64 := by
    unfold maxWord64
    omega
  rw [asWord64?, Json.int, Json.asIntIn?, if_pos hmem, Option.map_some, Int.toNat_natCast,
    UInt64.ofNat_toNat]

theorem asWord32?_int (n : UInt32) : asWord32? (.int n.toNat) = some n := by
  have hn : n.toNat < 2 ^ 32 := n.toNat_lt
  have hmem : 0 ≤ (n.toNat : Int) ∧ (n.toNat : Int) ≤ maxWord32 := by
    unfold maxWord32
    omega
  rw [asWord32?, Json.int, Json.asIntIn?, if_pos hmem, Option.map_some, Int.toNat_natCast,
    UInt32.ofNat_toNat]

theorem asChar?_str (c : Char) : asChar? (.str c.toString) = some c := by
  have hc : c.toString.toList = [c] := by simp [Char.toString]
  rw [asChar?, hc]

theorem ofJson?_toJson (s : Settings) : ofJson? s.toJson = some s := by
  have hrecord : Json.record? (fieldNames.map fun n => ⟨n, none⟩) s.toJson =
      some [some (.int s.poolPrewarm.toNat), some (.int s.poolMaxIdle.toNat),
        some (.int s.scriptTimeoutMs.toNat), some (.int s.watchdogBufferMs.toNat),
        some (.str s.decimalSeparator.toString), some (.int s.maxCallDepth.toNat),
        some s.backend.toJson] := rfl
  rw [ofJson?, hrecord]
  simp only [Option.bind_eq_bind, Option.bind_some, List.getLast?, List.getLast, Option.getD_some,
    List.dropLast, Json.optional, Credentials.ofJson?_toJson, assemble?, asWord64?_int,
    asWord32?_int, asChar?_str, Option.pure_def]

end Settings

/-! ### All of them -/

/-- All that the game stores and exchanges is read back as it was written. -/
theorem roundTrips :
    Json.RoundTrips (fun _ => True) Flow.toJson Flow.ofJson? ∧
    Json.RoundTrips (fun _ => True) Node.toJson Node.ofJson? ∧
    Json.RoundTrips (fun _ => True) Ref.toJson Ref.ofJson? ∧
    Json.RoundTrips (fun _ => True) Condition.toJson Condition.ofJson? ∧
    Json.RoundTrips (fun _ => True) SwitchCase.toJson SwitchCase.ofJson? ∧
    Json.RoundTrips (fun s : Split => s.share.isFinite = true) Split.toJson Split.ofJson? ∧
    Json.RoundTrips (fun t : StatTemplate => (∀ x, t.rangeMin = some x → x.isFinite = true) ∧
      ∀ x, t.rangeMax = some x → x.isFinite = true) StatTemplate.toJson StatTemplate.ofJson? ∧
    Json.RoundTrips (fun _ => True) Offer.toJson Offer.ofJson? ∧
    Json.RoundTrips (fun _ => True) EntityConfig.toJson EntityConfig.ofJson? ∧
    Json.RoundTrips (fun _ => True) ConfigEntry.toJson ConfigEntry.ofJson? ∧
    Json.RoundTrips (fun _ => True) BackendAction.toJson BackendAction.ofJson? ∧
    Json.RoundTrips (fun _ => True) Settings.toJson Settings.ofJson? := by
  refine ⟨.of_all Flow.ofJson?_toJson, .of_all Node.ofJson?_toJson, .of_all Ref.ofJson?_toJson,
    .of_all Condition.ofJson?_toJson, .of_all SwitchCase.ofJson?_toJson,
    .of_finite (fun s h => s.ofJson?_toJson h) (fun j s hj h => Split.isFinite_of_ofJson? hj h),
    .of_finite (fun t h => t.ofJson?_toJson h.1 h.2)
      (fun j t hj h => StatTemplate.isFinite_of_ofJson? hj h),
    .of_all Offer.ofJson?_toJson, .of_all EntityConfig.ofJson?_toJson,
    .of_all ConfigEntry.ofJson?_toJson, .of_all BackendAction.ofJson?_toJson,
    .of_all Settings.ofJson?_toJson⟩

/-- A share that a document gives as an integer is written as a double, and stays one. -/
theorem roundTrips_of_share :
    let j : Json := .obj [("share", .int 50), ("slotId", .str "a")]
    let s : Split := ⟨"a", Binary64.ofInt 50⟩
    j.Proper ∧ Split.ofJson? j = some s ∧ s.toJson ≠ j ∧
      (Split.ofJson? s.toJson).map Split.toJson = some s.toJson := by
  intro j s
  obtain ⟨-, -, -, -, -, hsplit, -⟩ := roundTrips
  have hproper : j.Proper := by
    refine .obj fun f hf => ?_
    rcases List.mem_cons.1 hf with rfl | hf
    · exact .num ⟨by decide, by decide⟩
    · rw [List.mem_singleton.1 hf]
      exact .str "a"
  exact ⟨hproper, rfl, by decide +kernel, hsplit.normal j s hproper rfl⟩

end FlowTree
