import Mathlib.Data.List.DropRight
import Mathlib.Data.List.Nodup
import FlowTree.Proofs.Entries
import FlowTree.Script.Request
import FlowTree.Value.Variables

/-!
# The variables that scripts see

A script gets the contextual variables with the local ones set over them, as one object. The local
ones come in no particular order, and those that are only local end up behind the rest in just that
order. The object is the same for all of them, since no name has two local variables: it binds a
name to its local value if it has one and otherwise to its contextual value.
-/

namespace FlowTree

theorem map_fst_setInOrder (k : String) (v : Json) (bs : List (String × Json)) :
    (setInOrder k v bs).map Prod.fst =
      if k ∈ bs.map Prod.fst then bs.map Prod.fst else bs.map Prod.fst ++ [k] := by
  induction bs with
  | nil => simp [setInOrder]
  | cons b bs ih =>
    obtain ⟨l, w⟩ := b
    rw [setInOrder]
    by_cases hl : l = k
    · simp [hl]
    · rw [if_neg hl, List.map_cons, ih]
      by_cases hk : k ∈ bs.map Prod.fst
      · simp [hk]
      · simp [hk, Ne.symm hl]

/-- A name that is met again changes nothing. -/
theorem eraseDups_concat (ks : List String) (k : String) :
    (ks ++ [k]).eraseDups = if k ∈ ks.eraseDups then ks.eraseDups else ks.eraseDups ++ [k] := by
  rw [List.eraseDups_append]
  by_cases hk : k ∈ ks
  · simp [hk, List.removeAll]
  · simp [hk, List.removeAll, List.eraseDups_cons]

theorem nodup_eraseDups (ks : List String) : ks.eraseDups.Nodup := by
  induction ks using List.reverseRecOn with
  | nil => exact .nil
  | append_singleton ks k ih =>
    rw [eraseDups_concat]
    split
    · exact ih
    · rename_i hk
      rw [← List.concat_eq_append]
      exact ih.concat hk

namespace Variables

/-! ### Variables set over others -/

section
variable {order : List (String × Json)}

theorem overlay_cons (vars : Variables) (b : String × Json) (order : List (String × Json)) :
    vars.overlay (b :: order) = (vars.setContextual b.1 b.2).overlay order := rfl

/-- What is not contextual comes behind the contextual variables, in the order given. -/
theorem map_fst_overlay (vars : Variables) (h : (order.map Prod.fst).Nodup) :
    (vars.overlay order).map Prod.fst = vars.contextual.map Prod.fst ++
      (order.map Prod.fst).filter (· ∉ vars.contextual.map Prod.fst) := by
  induction order generalizing vars with
  | nil => simp [overlay]
  | cons b order ih =>
    obtain ⟨hb, hnodup⟩ := List.nodup_cons.1 h
    rw [overlay_cons, ih _ hnodup, setContextual, map_fst_setInOrder, List.map_cons]
    by_cases hmem : b.1 ∈ vars.contextual.map Prod.fst
    · rw [if_pos hmem, List.filter_cons_of_neg (by simpa using hmem)]
    · -- the name does not come again, so it makes no difference to the filter
      have hrest : (order.map Prod.fst).filter (· ∉ vars.contextual.map Prod.fst ++ [b.1]) =
          (order.map Prod.fst).filter (· ∉ vars.contextual.map Prod.fst) := by
        refine List.filter_congr fun k hk => ?_
        have hne : k ≠ b.1 := fun heq => hb (heq ▸ hk)
        simp [hne]
      rw [if_neg hmem, List.filter_cons_of_pos (by simpa using hmem), hrest, List.append_assoc]
      rfl

theorem lookup_overlay (vars : Variables) (h : (order.map Prod.fst).Nodup) (k : String) :
    (vars.overlay order).lookup k = (order.lookup k).or (vars.contextual? k) := by
  induction order generalizing vars with
  | nil => rfl
  | cons b order ih =>
    obtain ⟨hb, hnodup⟩ := List.nodup_cons.1 h
    rw [overlay_cons, ih _ hnodup]
    by_cases hk : k = b.1
    · have hrest : order.lookup b.1 = none := Fields.get?_eq_none_iff.2 hb
      rw [hk, hrest, contextual?_setContextual_self, List.lookup_cons_self]
      rfl
    · have hb' : (k == b.1) = false := by simpa using hk
      rw [contextual?_setContextual_of_ne hk, List.lookup_cons, hb']

theorem nodup_overlay {vars : Variables} (hvars : (vars.contextual.map Prod.fst).Nodup)
    (h : (order.map Prod.fst).Nodup) : ((vars.overlay order).map Prod.fst).Nodup := by
  rw [map_fst_overlay vars h, List.nodup_append]
  refine ⟨hvars, h.filter _, ?_⟩
  rintro k hk l hl rfl
  have hnot : k ∉ vars.contextual.map Prod.fst := by simpa using (List.mem_filter.1 hl).2
  exact hnot hk

end

/-! ### Histories of variables -/

/-- A change that a run makes to its variables. -/
inductive Edit
  | setContextual (id : String) (v : Json)
  | setLocal (name : String) (v : Json)
  | takeLocals
  | clear

namespace Edit

def apply (vars : Variables) : Edit → Variables
  | setContextual id v => vars.setContextual id v
  | setLocal name v => vars.setLocal name v
  | takeLocals => vars.takeLocals.2
  | clear => .empty

def isClear : Edit → Bool
  | clear => true
  | _ => false

/-- The contextual variable that is set. -/
def contextualId? : Edit → Option String
  | setContextual id _ => some id
  | _ => none

end Edit

/-- The variables of a run after these changes. -/
def after (edits : List Edit) : Variables :=
  edits.foldl Edit.apply {}

/-- The contextual variables set since the variables were last cleared, in the order in which each
was first set. -/
def firstSet (edits : List Edit) : List String :=
  ((edits.rtakeWhile (!·.isClear)).filterMap Edit.contextualId?).eraseDups

/-- Contextual variables are where they were first set, and no name has two local variables. -/
structure Sound (edits : List Edit) (vars : Variables) : Prop where
  contextual : vars.contextual.map Prod.fst = firstSet edits
  locals : vars.locals.Ordered

namespace Sound
variable {edits : List Edit} {vars : Variables}

theorem firstSet_concat {edit : Edit} (h : edit.isClear = false) (hid : edit.contextualId? = none) :
    firstSet (edits ++ [edit]) = firstSet edits := by
  rw [firstSet, List.rtakeWhile_concat_pos _ _ _ (by simpa using h), List.filterMap_append]
  simp [firstSet, hid]

theorem setContextual (h : Sound edits vars) (id : String) (v : Json) :
    Sound (edits ++ [.setContextual id v]) (vars.setContextual id v) where
  contextual := by
    have hset : firstSet (edits ++ [.setContextual id v]) =
        if id ∈ firstSet edits then firstSet edits else firstSet edits ++ [id] := by
      rw [firstSet, List.rtakeWhile_concat_pos _ _ _ rfl, List.filterMap_append]
      exact eraseDups_concat _ id
    rw [Variables.setContextual, map_fst_setInOrder, hset, h.contextual]
  locals := h.locals

theorem setLocal (h : Sound edits vars) (name : String) (v : Json) :
    Sound (edits ++ [.setLocal name v]) (vars.setLocal name v) where
  contextual := by
    rw [firstSet_concat rfl rfl]
    exact h.contextual
  locals := h.locals.insert name v

theorem takeLocals (h : Sound edits vars) : Sound (edits ++ [.takeLocals]) vars.takeLocals.2 where
  contextual := by
    rw [firstSet_concat rfl rfl]
    exact h.contextual
  locals := Fields.ordered_nil

theorem clear (edits : List Edit) : Sound (edits ++ [.clear]) .empty where
  contextual := by
    rw [firstSet, List.rtakeWhile_concat_neg _ _ _ Bool.false_ne_true]
    rfl
  locals := Fields.ordered_nil

end Sound

theorem sound_after (edits : List Edit) : Sound edits (after edits) := by
  induction edits using List.reverseRecOn with
  | nil => exact ⟨rfl, Fields.ordered_nil⟩
  | append_singleton edits edit ih =>
    rw [after, List.foldl_concat]
    cases edit with
    | setContextual id v => exact ih.setContextual id v
    | setLocal name v => exact ih.setLocal name v
    | takeLocals => exact ih.takeLocals
    | clear => exact .clear edits

/-! ### The object -/

/-- Whatever a run has done to its variables and in whatever order the local ones come, a script sees
one object, which has the local value of each name that has one and the contextual values of the
others. The variables that the object is made of are listed once each. -/
theorem contextData_overlay (edits : List Edit) :
    ∃ fields : Fields, fields.Ordered ∧
      (∀ name, fields.get? name =
        ((after edits).local? name).or ((after edits).contextual? name)) ∧
      ∀ order : List (String × Json), order.Perm (after edits).locals →
        (((after edits).overlay order).map Prod.fst).Nodup ∧
        ((after edits).overlay order).map Prod.fst = firstSet edits ++
          (order.map Prod.fst).filter (· ∉ firstSet edits) ∧
        ∀ request : Script.Request, request.vars = (after edits).overlay order →
          request.contextData = .obj fields := by
  obtain ⟨hcontextual, hlocals⟩ := sound_after edits
  have hids : ((after edits).contextual.map Prod.fst).Nodup := hcontextual ▸ nodup_eraseDups _
  have hget (order : List (String × Json)) (hperm : order.Perm (after edits).locals)
      (name : String) : (Fields.ofList ((after edits).overlay order)).get? name =
        ((after edits).local? name).or ((after edits).contextual? name) := by
    have hnames := (hperm.map Prod.fst).symm.nodup hlocals.nodup_keys
    calc (Fields.ofList ((after edits).overlay order)).get? name
        = (((after edits).overlay order).lookup name).or none :=
          Fields.get?_merge_of_nodup (nodup_overlay hids hnames) [] name
      _ = (order.lookup name).or ((after edits).contextual? name) := by
          rw [Option.or_none, lookup_overlay _ hnames]
      _ = _ := by
          rw [local?, ← Fields.get?_of_perm hperm hnames]
          rfl
  refine ⟨.ofList ((after edits).overlay (after edits).locals), Fields.ordered_nil.merge _,
    hget _ (.refl _), fun order hperm => ?_⟩
  have hnames := (hperm.map Prod.fst).symm.nodup hlocals.nodup_keys
  refine ⟨nodup_overlay hids hnames, ?_, fun request hrequest => ?_⟩
  · rw [map_fst_overlay _ hnames, hcontextual]
  · rw [Script.Request.contextData, hrequest]
    refine congrArg Json.obj ((Fields.ordered_nil.merge _).ext (Fields.ordered_nil.merge _) ?_)
    intro name
    exact (hget order hperm name).trans (hget _ (.refl _) name).symm

/-- A contextual variable that is also set as a local one, twice each, and two more local variables,
which come in another order than that of their names. -/
theorem contextData_overlay_of_shadowed :
    let edits : List Edit := [.setContextual "old" (.int 0), .clear, .setContextual "x" (.int 1),
      .setContextual "y" (.int 2), .setContextual "x" (.int 3), .setLocal "a" (.int 4), .takeLocals,
      .setLocal "x" (.int 5), .setLocal "w" (.int 6), .setLocal "x" (.int 7), .setLocal "z" .null]
    let order : List (String × Json) := [("z", .null), ("x", .int 7), ("w", .int 6)]
    order.Perm (after edits).locals ∧
      ((after edits).overlay order).map Prod.fst = ["x", "y", "z", "w"] ∧
      ∃ fields : Fields, fields.get? "x" = some (.int 7) ∧ fields.get? "y" = some (.int 2) ∧
        fields.get? "z" = some .null ∧ fields.get? "a" = none ∧ fields.get? "old" = none ∧
        ({ source := "", vars := (after edits).overlay order } : Script.Request).contextData =
          .obj fields := by
  intro edits order
  have hlocals : (after edits).locals = [("w", .int 6), ("x", .int 7), ("z", .null)] := by
    decide +kernel
  have hperm : order.Perm (after edits).locals := hlocals ▸ (List.reverse_perm _).symm
  obtain ⟨fields, -, hget, horder⟩ := contextData_overlay edits
  obtain ⟨-, hnames, hobject⟩ := horder order hperm
  refine ⟨hperm, hnames.trans (by decide +kernel), fields, ?_, ?_, ?_, ?_, ?_, hobject _ rfl⟩
  all_goals
    rw [hget]
    decide +kernel

end Variables

end FlowTree
