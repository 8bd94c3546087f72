import FlowTree.Proofs.Trace

/-!
# Carried objects

A run may change the objects that it carries, and hands the same ones back: an offer still has its
id, a config has its slots in their places, and the data of an event has lost no key. So the flows
that a trigger fires, one after the other, hand on what the first of them was given.
-/

namespace FlowTree

open Operation

/-! ### The shape of a config -/

namespace ConfigEntry

mutual

/-- The entry without the values in its slots. -/
def shape : ConfigEntry → ConfigEntry
  | ⟨slotId, type, _, values⟩ => ⟨slotId, type, .null, shapes values⟩

def shapes : List ConfigEntry → List ConfigEntry
  | [] => []
  | e :: es => shape e :: shapes es

end

theorem shape_eq (e : ConfigEntry) : e.shape = ⟨e.slotId, e.type, .null, shapes e.values⟩ := by
  cases e
  rfl

theorem shape_withValue (e : ConfigEntry) (value : Json) :
    shape { e with value } = e.shape := by
  rw [shape_eq, shape_eq]

variable {f : ConfigEntry → ConfigEntry} {slot : String} {es es' : List ConfigEntry}

theorem shapes_updateFirst? (hf : ∀ e, (f e).shape = e.shape)
    (h : updateFirst? slot f es = some es') : shapes es' = shapes es := by
  induction es generalizing es' with
  | nil => cases h
  | cons e es ih =>
    rw [updateFirst?] at h
    split at h
    · obtain rfl := Option.some.inj h
      rw [shapes, shapes, hf]
    · obtain ⟨rest, hrest, rfl⟩ := Option.map_eq_some_iff.1 h
      rw [shapes, shapes, ih hrest]

theorem shapes_update? (hf : ∀ e, (f e).shape = e.shape) (h : update? slot f es = some es') :
    shapes es' = shapes es := by
  induction es generalizing es' with
  | nil => cases h
  | cons e es ih =>
    rw [update?] at h
    split at h
    · obtain rfl := Option.some.inj h
      rw [shapes, shapes, hf]
    · split at h
      · -- the slot is one of a map
        rename_i values hinner
        obtain rfl := Option.some.inj h
        have hvalues : shapes values = shapes e.values := by
          split at hinner
          · exact shapes_updateFirst? hf hinner
          · cases hinner
        rw [shapes, shapes, shape_eq e, ← hvalues]
        rfl
      · obtain ⟨rest, hrest, rfl⟩ := Option.map_eq_some_iff.1 h
        rw [shapes, shapes, ih hrest]

end ConfigEntry

/-- The config without the values in its slots. -/
def EntityConfig.shape (c : EntityConfig) : EntityConfig :=
  { c with values := ConfigEntry.shapes c.values }

theorem EntityConfig.shape_setSlot? {c c' : EntityConfig} {slot : String} {v : Json}
    (h : c.setSlot? slot v = some c') : c'.shape = c.shape := by
  obtain ⟨values, hvalues, rfl⟩ := Option.map_eq_some_iff.1 h
  have hshapes := ConfigEntry.shapes_update? (fun e => e.shape_withValue v) hvalues
  simp only [shape, hshapes]

/-! ### Objects that are kept -/

/-- What `c'` has are the objects of `c`: the offer with this id, the config of this shape, data
with all these keys. -/
structure Carry.Kept (c c' : Carry) : Prop where
  offer : c'.offer.map Offer.internalId = c.offer.map Offer.internalId
  entityConfig : c'.entityConfig.map EntityConfig.shape = c.entityConfig.map EntityConfig.shape
  eventData : ∀ data, c.eventData = some data → ∃ data', c'.eventData = some data' ∧
    ∀ k, (Fields.get? k data).isSome → (Fields.get? k data').isSome

namespace Carry.Kept
variable {c c' c'' : Carry}

theorem refl (c : Carry) : c.Kept c :=
  ⟨rfl, rfl, fun data hdata => ⟨data, hdata, fun _ hk => hk⟩⟩

theorem trans (h : c.Kept c') (h' : c'.Kept c'') : c.Kept c'' where
  offer := h'.offer.trans h.offer
  entityConfig := h'.entityConfig.trans h.entityConfig
  eventData data hdata := by
    obtain ⟨data', hdata', hkeys⟩ := h.eventData data hdata
    obtain ⟨data'', hdata'', hkeys'⟩ := h'.eventData data' hdata'
    exact ⟨data'', hdata'', fun k hk => hkeys' k (hkeys k hk)⟩

theorem insertEventData (c : Carry) (key : String) (v : Json) :
    c.Kept { c with eventData := some (Fields.insert key v (c.eventData.getD [])) } := by
  refine ⟨rfl, rfl, fun data hdata => ⟨_, rfl, fun k hk => ?_⟩⟩
  rw [hdata, Option.getD_some]
  by_cases heq : k = key
  · rw [heq, Fields.get?_insert_self]
    rfl
  · rwa [Fields.get?_insert_of_ne heq]

theorem withOffer {o o' : Offer} (ho : c.offer = some o) (hid : o'.internalId = o.internalId) :
    c.Kept { c with offer := some o' } where
  offer := by rw [ho, Option.map_some, Option.map_some, hid]
  entityConfig := rfl
  eventData := (refl c).eventData

theorem withConfig {config config' : EntityConfig} (hc : c.entityConfig = some config)
    (hshape : config'.shape = config.shape) : c.Kept { c with entityConfig := some config' } where
  offer := rfl
  entityConfig := by rw [hc, Option.map_some, Option.map_some, hshape]
  eventData := (refl c).eventData

end Carry.Kept

namespace Operation
variable {catalog : Catalog} {target : ChangeTarget} {v : Json}

theorem internalId_writeOffer {o o' : Offer} (h : writeOffer catalog target v o = .ok o') :
    o'.internalId = o.internalId := by
  unfold writeOffer at h
  split at h
  · split at h
    · obtain rfl := Except.ok.inj h
      rfl
    · cases h
  · obtain rfl := Except.ok.inj h
    rfl
  · obtain rfl := Except.ok.inj h
    rfl

theorem write_kept {c c' : Carry} (h : write catalog target v c = .ok c') : c.Kept c' := by
  unfold write at h
  split at h
  · obtain rfl := Except.ok.inj h
    exact .insertEventData ..
  · split at h
    · rename_i config hconfig
      split at h
      · rename_i config' hset
        obtain rfl := Except.ok.inj h
        exact .withConfig hconfig (EntityConfig.shape_setSlot? hset)
      · cases h
    · cases h
  · split at h
    · rename_i o ho
      cases hoffer : writeOffer catalog target v o with
      | error cause =>
        rw [hoffer] at h
        cases h
      | ok o' =>
        rw [hoffer] at h
        obtain rfl := Except.ok.inj h
        exact .withOffer ho (internalId_writeOffer hoffer)
    · cases h

end Operation

/-! ### Runs -/

namespace Engine
variable {e : Engine} {call : Caller} {n : Node} {prev : Json} {r : Run}

theorem Outcome.carry {result : EStateM.Result NodeError Run Json}
    (h : Outcome e call n prev r result) :
    r.ctx.carry.Kept (Action.resultRun result).ctx.carry := by
  cases h with
  | carryChanged v target carry ws op written => exact write_kept written
  | _ => exact .refl _

theorem carry_after (s : Step) : s.run.ctx.carry.Kept (s.after e call).ctx.carry := by
  obtain ⟨result, ho, -, locals, stopped, hctx⟩ := s.after_cases e call
  rw [hctx]
  exact ho.carry

theorem carry_visit (n : Node) (prev : Json) (r : Run) :
    r.ctx.carry.Kept (visit e call n prev r).ctx.carry :=
  (linked_steps n prev r).keeps (P := fun r' => r.ctx.carry.Kept r'.ctx.carry)
    (fun s _ h => h.trans (carry_after s)) (.refl _)

theorem carry_runWith (f : Flow) (inv : Invocation) (w : World) :
    inv.carry.Kept (e.runWith call f inv w).1.carry :=
  carry_visit f.root inv.seed (e.begin f inv w)

theorem carry_fireWith (accepts : Flow → Bool) (inv : Invocation) (fs : List Flow) (w : World) :
    inv.carry.Kept (e.fireWith call accepts inv fs w).1.carry := by
  induction fs generalizing inv w with
  | nil => exact .refl _
  | cons f fs ih =>
    rw [fireWith]
    split
    · exact (carry_runWith f inv w).trans (ih { inv with carry := _ } _)
    · exact ih inv w

theorem fireWith_of_none {accepts : Flow → Bool} {fs : List Flow}
    (hnone : ∀ f ∈ fs, accepts f = false) (inv : Invocation) (w : World) :
    e.fireWith call accepts inv fs w = ({ flowsRun := [], locals := [], carry := inv.carry }, w) := by
  induction fs with
  | nil => rfl
  | cons f fs ih =>
    rw [fireWith, if_neg (by simp [hnone f List.mem_cons_self])]
    exact ih fun g hg => hnone g (List.mem_cons_of_mem f hg)

/-- Runs and triggers hand back the objects that they are given, and a trigger that no flow waits
for hands them back as they are. -/
theorem carry_handed_back (e : Engine) (f : Flow) (accepts : Flow → Bool) (inv : Invocation) (w : World) :
    inv.carry.Kept (e.execute f inv w).1.carry ∧
      inv.carry.Kept (e.fire accepts inv w).1.carry ∧
      ((∀ g ∈ e.game.flows, accepts g = false) → (e.fire accepts inv w).1.carry = inv.carry) := by
  refine ⟨carry_runWith .., carry_fireWith .., fun hnone => ?_⟩
  rw [fire, fireWith_of_none hnone]

theorem carry_handed_back_of_price :
    let change (slotId field : String) (v : Json) (below : List Node) : Node :=
      ⟨.applyChange, slotId, [("fieldToSet", .str field), ("value", (Ref.literal v).toJson),
        ("key", .str "seen")], below⟩
    let f : Flow := ⟨"f", ⟨.offerShown, "root", [],
      [change "a" "offerPrice" (.int 5) [⟨.statAdd, "b", [], []⟩],
        change "c" "speed" (.int 7) [⟨.stop, "d", [("value", .null)], []⟩]]⟩⟩
    let e : Engine := { game := { flows := [f] }, timing := { clock := 0, elapsed := .ofMillis 0 } }
    let config : EntityConfig :=
      ⟨"car", [.map "engine" [.leaf "speed" "number" (.int 3), .leaf "fuel" "string" .null]]⟩
    let inv : Invocation :=
      { carry := { offer := some { internalId := "starter" }, entityConfig := some config,
                   eventData := some [("seen", .bool true)] } }
    let fired := e.fire (waitsFor .offerShown "offerId" "starter") inv {}
    let unawaited := waitsFor .segmentEnter "segmentId" "vip"
    fired.1.flowsRun = ["f"] ∧
      fired.1.carry.offer.map Offer.internalId = some "starter" ∧
      fired.1.carry.offer.map Offer.price = some (.int 5) ∧
      fired.1.carry.entityConfig.map EntityConfig.shape = some config.shape ∧
      fired.1.carry.entityConfig ≠ some config ∧
      (∀ g ∈ e.game.flows, unawaited g = false) ∧
      (e.fire unawaited inv {}).1.carry = inv.carry := by
  intro change f e config inv fired unawaited
  have hunawaited : ∀ g ∈ e.game.flows, unawaited g = false := List.forall_mem_singleton.2 rfl
  obtain ⟨-, hfired, -⟩ := carry_handed_back e f (waitsFor .offerShown "offerId" "starter") inv {}
  obtain ⟨-, -, hunchanged⟩ := carry_handed_back e f unawaited inv {}
  refine ⟨?_, hfired.offer, ?_, hfired.entityConfig, ?_, hunawaited, hunchanged hunawaited⟩
  · decide +kernel
  · decide +kernel
  · decide +kernel

end Engine

end FlowTree
