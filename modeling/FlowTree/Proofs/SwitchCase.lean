import FlowTree.Rule.Condition
import FlowTree.Rule.Switch

/-!
# Switches as chains of branches

A switch asks of one case after the other what a branch asks with the condition that the field
equals the case's value (`accepts_iff`), and falls back on the first default case. So the position
that it picks is told by these conditions alone (`selectCase_eq_iff`), and a case that does not
match only moves the cases behind it.
-/

namespace FlowTree

/-- The condition that what is referred to equals a literal. -/
def Condition.equals (r : Ref) (v : Json) : Condition :=
  { left := r, right := .literal v, comparison := .equal }

namespace SwitchCase

/-- A branch on the case's value would hold: on the field, or, if the field is declared as the
player's segments and is a list, on one of its elements. -/
inductive Meets (locale : Locale) (prev : Json) (vars : Variables) (fieldType : Option String)
    (field : Ref) (c : SwitchCase) : Prop
  | whole
    (single : fieldType ≠ some segmentField ∨ ∀ items, field.resolveOrNull prev vars ≠ .arr items)
    (holds : (Condition.equals field c.value).holds prev vars locale = .ok true)
  | element (items : List Json) (v : Json) (type : fieldType = some segmentField)
    (list : field.resolveOrNull prev vars = .arr items) (mem : v ∈ items)
    (holds : (Condition.equals (.literal v) c.value).holds prev vars locale = .ok true)

/-- The case at a position is the first one with a property. -/
structure FirstWith (P : SwitchCase → Prop) (cases : List SwitchCase) (i : Nat) : Prop where
  lt : i < cases.length
  holds : P cases[i]
  first : ∀ j (hj : j < i), ¬P cases[j]

/-- The position that is picked if `P` tells which cases match. -/
inductive Picked (P : SwitchCase → Prop) (cases : List SwitchCase) : Int → Prop
  | matching {i : Nat} (h : FirstWith (fun c => c.isDefault = false ∧ P c) cases i) :
    Picked P cases i
  | default {i : Nat} (unmatched : ∀ c ∈ cases, c.isDefault = false → ¬P c)
    (h : FirstWith (fun c => c.isDefault = true) cases i) : Picked P cases i
  | nothing (unmatched : ∀ c ∈ cases, c.isDefault = false → ¬P c)
    (noDefault : ∀ c ∈ cases, c.isDefault = false) : Picked P cases (-1)

/-- The position of a case once another one stands at `k`. -/
def pushed (k : Nat) (i : Int) : Int :=
  if i < k then i else i + 1

/-- The case with another value if it is a default case. -/
def withDefault (values : SwitchCase → Json) (c : SwitchCase) : SwitchCase :=
  if c.isDefault then { c with value := values c } else c

section
variable {locale : Locale} {prev : Json} {vars : Variables} {fieldType : Option String}
  {field : Ref} {c : SwitchCase}

theorem equals_holds_iff {r : Ref} {v : Json} :
    (Condition.equals r v).holds prev vars locale = .ok true ↔
      (r.resolveOrNull prev vars).display = v.display := by
  show Except.ok (_ == _) = .ok true ↔ _
  rw [Except.ok.injEq, beq_iff_eq]
  rfl

variable (locale prev vars fieldType field c) in
theorem accepts_iff : c.accepts fieldType (field.resolveOrNull prev vars) = true ↔
    c.isDefault = false ∧ c.Meets locale prev vars fieldType field := by
  unfold accepts
  rw [Bool.and_eq_true, Bool.not_eq_true']
  refine and_congr_right fun _ => ?_
  by_cases hlist : ∃ items, field.resolveOrNull prev vars = .arr items
  · obtain ⟨items, hitems⟩ := hlist
    simp only [hitems]
    by_cases htype : fieldType = some segmentField
    · rw [if_pos htype, List.any_eq_true]
      constructor
      · rintro ⟨v, hmem, hv⟩
        exact .element items v htype hitems hmem (equals_holds_iff.2 (beq_iff_eq.1 hv))
      · rintro (⟨hsingle, -⟩ | ⟨items', v, -, hitems', hmem, hv⟩)
        · exact absurd hitems (hsingle.resolve_left (fun h => h htype) items)
        · obtain rfl := Json.arr.inj (hitems.symm.trans hitems')
          exact ⟨v, hmem, beq_iff_eq.2 (equals_holds_iff.1 hv)⟩
    · rw [if_neg htype, beq_iff_eq, ← hitems]
      constructor
      · exact fun h => .whole (.inl htype) (equals_holds_iff.2 h)
      · rintro (⟨-, h⟩ | ⟨-, -, htype', -⟩)
        · exact equals_holds_iff.1 h
        · exact absurd htype' htype
  · have hsingle := not_exists.1 hlist
    have hmeets : (field.resolveOrNull prev vars).display = c.value.display ↔
        c.Meets locale prev vars fieldType field := by
      constructor
      · exact fun h => .whole (.inr hsingle) (equals_holds_iff.2 h)
      · rintro (⟨-, h⟩ | ⟨items, -, -, hitems, -⟩)
        · exact equals_holds_iff.1 h
        · exact absurd hitems (hsingle items)
    refine Iff.trans ?_ hmeets
    cases hfield : field.resolveOrNull prev vars with
    | arr items => exact absurd hfield (hsingle items)
    | _ => exact beq_iff_eq

theorem accepts_eq_false_iff : c.accepts fieldType (field.resolveOrNull prev vars) = false ↔
    (c.isDefault = false → ¬c.Meets locale prev vars fieldType field) := by
  rw [← Bool.not_eq_true, accepts_iff locale, not_and]

end

theorem findIdx?_eq_some_iff_firstWith {p : SwitchCase → Bool} {P : SwitchCase → Prop}
    (hp : ∀ c, p c = true ↔ P c) {cases : List SwitchCase} {i : Nat} :
    cases.findIdx? p = some i ↔ FirstWith P cases i := by
  rw [List.findIdx?_eq_some_iff_getElem]
  constructor
  · rintro ⟨hlt, hi, hbefore⟩
    exact ⟨hlt, (hp _).1 hi, fun j hj => mt (hp _).2 (hbefore j hj)⟩
  · intro h
    exact ⟨h.lt, (hp _).2 h.holds, fun j hj => mt (hp _).1 (h.first j hj)⟩

/-- A case without the property moves the first one with it by at most one place. -/
theorem findIdx?_insert {p : SwitchCase → Bool} {c : SwitchCase} (hc : p c = false)
    (before after : List SwitchCase) : (before ++ c :: after).findIdx? p =
      ((before ++ after).findIdx? p).map fun i => if i < before.length then i else i + 1 := by
  rw [List.findIdx?_append, List.findIdx?_append, List.findIdx?_cons, hc]
  cases hbefore : before.findIdx? p with
  | some i =>
    obtain ⟨hlt, -⟩ := List.findIdx?_eq_some_iff_getElem.1 hbefore
    simp [hlt]
  | none =>
    cases after.findIdx? p with
    | none => rfl
    | some i =>
      have hbehind : ¬i + before.length < before.length := by omega
      simp only [Option.none_or, Option.map_some, if_neg hbehind, Bool.false_eq_true, if_false,
        Nat.add_right_comm]

end SwitchCase

section
variable {field : Json} {fieldType : Option String} {cases : List SwitchCase}

open SwitchCase

theorem selectCase_of_some {i : Nat} (h : cases.findIdx? (accepts fieldType field) = some i) :
    selectCase field fieldType cases = i := by
  rw [selectCase, h]

theorem selectCase_of_none (h : cases.findIdx? (accepts fieldType field) = none) :
    selectCase field fieldType cases =
      match cases.findIdx? SwitchCase.isDefault with | some i => (i : Int) | none => -1 := by
  cases hdefault : cases.findIdx? SwitchCase.isDefault <;> simp only [selectCase, h, hdefault]

/-- The value of a default case does not count. -/
theorem selectCase_withDefault (values : SwitchCase → Json) :
    selectCase field fieldType (cases.map (withDefault values)) =
      selectCase field fieldType cases := by
  have haccepts : accepts fieldType field ∘ withDefault values = accepts fieldType field := by
    funext c
    obtain ⟨v, isDefault⟩ := c
    cases isDefault <;> rfl
  have hdefault : SwitchCase.isDefault ∘ withDefault values = SwitchCase.isDefault := by
    funext c
    obtain ⟨v, isDefault⟩ := c
    cases isDefault <;> rfl
  unfold selectCase
  rw [List.findIdx?_map, List.findIdx?_map, haccepts, hdefault]

theorem selectCase_insert {c : SwitchCase} (hc : accepts fieldType field c = false)
    (hdefault : c.isDefault = false) (before after : List SwitchCase) :
    selectCase field fieldType (before ++ c :: after) =
      pushed before.length (selectCase field fieldType (before ++ after)) := by
  have hpushed (i : Nat) : pushed before.length i =
      ((if i < before.length then i else i + 1 : Nat) : Int) := by
    unfold pushed
    split <;> split <;> omega
  unfold selectCase
  rw [findIdx?_insert hc, findIdx?_insert hdefault]
  cases (before ++ after).findIdx? (accepts fieldType field) with
  | some i => exact (hpushed i).symm
  | none =>
    cases (before ++ after).findIdx? SwitchCase.isDefault with
    | some i => exact (hpushed i).symm
    | none =>
      show (-1 : Int) = pushed before.length (-1)
      rw [pushed, if_pos (by omega)]

end

namespace SwitchCase
variable {locale : Locale} {prev : Json} {vars : Variables} {fieldType : Option String}
  {field : Ref} {cases : List SwitchCase}

variable (locale) in
theorem selectCase_eq_iff {i : Int} :
    selectCase (field.resolveOrNull prev vars) fieldType cases = i ↔
      Picked (Meets locale prev vars fieldType field) cases i := by
  have hmatch {i : Nat} :
      cases.findIdx? (accepts fieldType (field.resolveOrNull prev vars)) = some i ↔
        FirstWith _ cases i :=
    findIdx?_eq_some_iff_firstWith (accepts_iff locale prev vars fieldType field)
  have hdefault {i : Nat} : cases.findIdx? SwitchCase.isDefault = some i ↔
      FirstWith (fun c => c.isDefault = true) cases i :=
    findIdx?_eq_some_iff_firstWith fun _ => Iff.rfl
  have hnone : cases.findIdx? (accepts fieldType (field.resolveOrNull prev vars)) = none ↔
      ∀ c ∈ cases, c.isDefault = false → ¬c.Meets locale prev vars fieldType field := by
    rw [List.findIdx?_eq_none_iff]
    exact forall₂_congr fun c _ => accepts_eq_false_iff
  constructor
  · rintro rfl
    cases hfound : cases.findIdx? (accepts fieldType (field.resolveOrNull prev vars)) with
    | some i =>
      rw [selectCase_of_some hfound]
      exact .matching (hmatch.1 hfound)
    | none =>
      rw [selectCase_of_none hfound]
      cases hfallback : cases.findIdx? SwitchCase.isDefault with
      | some i => exact .default (hnone.1 hfound) (hdefault.1 hfallback)
      | none => exact .nothing (hnone.1 hfound) (List.findIdx?_eq_none_iff.1 hfallback)
  · intro h
    cases h with
    | matching h => exact selectCase_of_some (hmatch.2 h)
    | default unmatched h => rw [selectCase_of_none (hnone.2 unmatched), hdefault.2 h]
    | nothing unmatched noDefault =>
      rw [selectCase_of_none (hnone.2 unmatched), List.findIdx?_eq_none_iff.2 noDefault]

theorem Picked.mem {P : SwitchCase → Prop} {i : Int} (h : Picked P cases i) :
    i = -1 ∨ ∃ k, k < cases.length ∧ i = (k : Int) := by
  cases h with
  | matching h => exact .inr ⟨_, h.lt, rfl⟩
  | default _ h => exact .inr ⟨_, h.lt, rfl⟩
  | nothing => exact .inl rfl

end SwitchCase

open SwitchCase

/-- A switch picks the first case, default cases apart, on whose value a branch would hold, else the
first default case. Default cases do not match by their values, and a case that does not match only
moves those behind it. -/
theorem selectCase_as_branches (locale : Locale) (prev : Json) (vars : Variables)
    (fieldType : Option String) (field : Ref) (cases : List SwitchCase) :
    (∀ i, selectCase (field.resolveOrNull prev vars) fieldType cases = i ↔
      Picked (Meets locale prev vars fieldType field) cases i) ∧
    (selectCase (field.resolveOrNull prev vars) fieldType cases = -1 ∨ ∃ k, k < cases.length ∧
      selectCase (field.resolveOrNull prev vars) fieldType cases = (k : Int)) ∧
    (∀ values, selectCase (field.resolveOrNull prev vars) fieldType
      (cases.map (withDefault values)) =
        selectCase (field.resolveOrNull prev vars) fieldType cases) ∧
    ∀ before after c, cases = before ++ after → c.isDefault = false →
      ¬c.Meets locale prev vars fieldType field →
        selectCase (field.resolveOrNull prev vars) fieldType (before ++ c :: after) =
          pushed before.length (selectCase (field.resolveOrNull prev vars) fieldType cases) := by
  refine ⟨fun i => selectCase_eq_iff locale, ((selectCase_eq_iff locale).1 rfl).mem,
    selectCase_withDefault, ?_⟩
  rintro before after c rfl hdefault hmeets
  exact selectCase_insert (accepts_eq_false_iff.2 fun _ => hmeets) hdefault before after

theorem selectCase_as_branches_of_segments :
    let field : Ref := .contextual "segment" .string
    let vars : Variables := { contextual := [("segment", .arr [.str "new", .int 7])] }
    let vip : SwitchCase := { value := .str "vip" }
    let fallback : SwitchCase := { value := .str "new", isDefault := true }
    let seven : SwitchCase := { value := .double 7.0 }
    ¬vip.Meets {} .null vars (some segmentField) field ∧
      Picked (Meets {} .null vars (some segmentField) field) [fallback, seven] 1 ∧
      selectCase (field.resolveOrNull .null vars) (some segmentField) [fallback, vip, seven] =
        pushed 1 1 := by
  intro field vars vip fallback seven
  have hmeets : ¬vip.Meets {} .null vars (some segmentField) field :=
    accepts_eq_false_iff.1 (by decide +kernel) rfl
  have hpicked : selectCase (field.resolveOrNull .null vars) (some segmentField)
      [fallback, seven] = 1 := by decide +kernel
  obtain ⟨hbranches, -, -, hinsert⟩ :=
    selectCase_as_branches {} .null vars (some segmentField) field [fallback, seven]
  refine ⟨hmeets, (hbranches 1).1 hpicked, ?_⟩
  rw [← hpicked]
  exact hinsert [fallback] [seven] vip rfl rfl hmeets

end FlowTree
