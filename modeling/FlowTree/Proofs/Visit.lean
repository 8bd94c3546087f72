import FlowTree.Proofs.Perform

/-!
# Visits

A visit goes from its node to the children that the result selects, one after the other, and gives
each of them that result (`visit_of_ok`). Which ones are selected is a matter of the tag, the result
and the position alone, so what is shown of a node and of a list of visits holds of whole trees.
-/

namespace FlowTree

/-- What holds of a node if it does of the nodes below it holds of every node. -/
theorem Node.induct {motive : Node → Prop}
    (h : ∀ n : Node, (∀ c ∈ n.children, motive c) → motive n) : ∀ n, motive n
  | ⟨op, slotId, params, children⟩ => h ⟨op, slotId, params, children⟩ fun c _ => Node.induct h c
termination_by n => n
decreasing_by
  rename_i hc
  have := List.sizeOf_lt_of_mem hc
  simp only [Node.mk.sizeOf_spec] at this ⊢
  omega

/-! ### Selected children -/

/-- Whether a result leads to the child at a position. -/
def Tag.selects (op : Tag) (v : Json) (i : Nat) : Bool :=
  match op with
  | .branch => i == if v = .bool true then 0 else 1
  | .switch | .splitTest => v = .int i ∧ (i : Int) ≤ maxInt64
  | .stop => false
  | _ => true

theorem Json.int_natCast_inj {i j : Nat} (h : Json.int i = Json.int j) : i = j := by
  unfold Json.int at h
  cases h
  rfl

/-- A result names a position if it is that number. -/
theorem Json.position?_eq_some {v : Json} {i : Nat} :
    v.position? = some i ↔ v = .int i ∧ (i : Int) ≤ maxInt64 := by
  unfold Json.position? Json.asIntIn?
  split
  · rename_i n
    simp only [Option.map_eq_some_iff]
    constructor
    · rintro ⟨m, hm, rfl⟩
      split at hm
      · cases hm
        constructor
        · congr
          omega
        · omega
      · cases hm
    · rintro ⟨h, hi⟩
      cases h
      exact ⟨i, by simp [hi], by simp⟩
  · rename_i h
    simp only [Option.map_none, reduceCtorEq, false_iff, not_and]
    rintro rfl
    exact absurd rfl (h i)

/-- Whether a selection has the child at a position in it. -/
def Selection.includes : Selection → Nat → Bool
  | .every, _ => true
  | .only i, j => j == i
  | .nothing, _ | .stop, _ => false

theorem Selection.includes_make (op : Tag) (v : Json) (i : Nat) :
    (Selection.make op v).includes i = op.selects v i := by
  cases op <;> try rfl
  all_goals
    rw [Bool.eq_iff_iff, Tag.selects, decide_eq_true_iff, ← Json.position?_eq_some, make]
    cases v.position? with
    | none => simp [includes]
    | some j => rw [includes, beq_iff_eq, Option.some_inj, eq_comm]

theorem Selection.make_eq_stop {op : Tag} (v : Json) : make op v = .stop ↔ op = .stop := by
  cases op <;> simp only [make, reduceCtorEq, iff_false]
  all_goals cases v.position? <;> simp

/-- The children that a result leads to, with their positions. -/
def Node.selected (n : Node) (v : Json) : List (Node × Nat) :=
  n.children.zipIdx.filter fun c => n.op.selects v c.2

theorem Node.mem_selected {n c : Node} {v : Json} {i : Nat} :
    (c, i) ∈ n.selected v ↔ n.children[i]? = some c ∧ n.op.selects v i = true := by
  simp [selected, List.mem_filter, List.mem_zipIdx_iff_getElem?]

theorem Node.selected_increasing (n : Node) (v : Json) :
    (n.selected v).Pairwise fun c d => c.2 < d.2 := by
  refine List.Pairwise.filter _ ?_
  rw [← List.pairwise_map (f := Prod.snd), List.zipIdx_map_snd]
  exact List.pairwise_lt_range'

/-- Of all children with their positions, those at one position are at most one. -/
theorem filter_zipIdx_eq (cs : List Node) (i k : Nat) :
    (cs.zipIdx k).filter (fun c => c.2 == k + i) = cs[i]?.toList.map fun c => (c, k + i) := by
  induction cs generalizing i k with
  | nil => rfl
  | cons c cs ih =>
    cases i with
    | zero =>
      have hrest : (cs.zipIdx (k + 1)).filter (fun c => c.2 == k) = [] := by
        refine List.filter_eq_nil_iff.2 fun d hd => ?_
        have := List.le_snd_of_mem_zipIdx hd
        simp only [beq_iff_eq]
        omega
      simp [List.zipIdx_cons, hrest]
    | succ i =>
      have hk : k + (i + 1) = k + 1 + i := by omega
      rw [List.zipIdx_cons, hk, List.filter_cons_of_neg (by simp; omega), ih]
      simp

theorem Node.map_fst_selected (n : Node) (v : Json) :
    (n.selected v).map Prod.fst = match Selection.make n.op v with
      | .every => n.children
      | .only i => n.children[i]?.toList
      | .nothing | .stop => [] := by
  have hone (i : Nat) := filter_zipIdx_eq n.children i 0
  simp only [Nat.zero_add] at hone
  simp only [selected, ← Selection.includes_make]
  cases Selection.make n.op v with
  | every =>
    have hall : n.children.zipIdx.filter (fun c => Selection.every.includes c.2) =
        n.children.zipIdx := List.filter_eq_self.2 fun _ _ => rfl
    rw [hall, List.zipIdx_map_fst]
  | only i => simp only [Selection.includes, hone, List.map_map, Function.comp_def, List.map_id']
  | nothing => simp [Selection.includes]
  | stop => simp [Selection.includes]

theorem Node.mem_children_of_selected {n c : Node} {v : Json}
    (h : c ∈ (n.selected v).map Prod.fst) : c ∈ n.children := by
  obtain ⟨⟨c, i⟩, hc, rfl⟩ := List.mem_map.1 h
  exact List.mem_of_getElem? (mem_selected.1 hc).1

/-! ### One visit -/

namespace Run

/-- A visit of the node does something: the run is not over, and there is an operation. -/
def Handles (r : Run) (n : Node) : Prop :=
  r.ctx.stopped = false ∧ n.op ≠ .unknown

instance (r : Run) (n : Node) : Decidable (r.Handles n) :=
  inferInstanceAs (Decidable (_ ∧ _))

/-- The run after a node has succeeded by itself, before any child is visited. -/
def conclude (r : Run) (n : Node) (v : Json) : Run :=
  if n.op = .stop then (r.save n v).stop else r.save n v

theorem conclude_callDepth (r : Run) (n : Node) (v : Json) :
    (r.conclude n v).ctx.callDepth = r.ctx.callDepth := by
  have h := (SameCourse.refl r).save n v
  unfold conclude
  split <;> exact h.callDepth

theorem conclude_stopped (r : Run) (n : Node) (v : Json) :
    (r.conclude n v).ctx.stopped = (r.ctx.stopped || n.op == .stop) := by
  have h := (SameCourse.refl r).save n v
  unfold conclude
  split
  · rename_i op
    simp [stop, op]
  · rename_i op
    simp [h.stopped, op]

theorem conclude_world (r : Run) (n : Node) (v : Json) : (r.conclude n v).world = r.world := by
  unfold conclude save stop
  split <;> split <;> rfl

/-- The run after a node by itself, with its result kept or its failure logged. -/
def settle (n : Node) : EStateM.Result NodeError Run Json → Run
  | .ok v r => r.conclude n v
  | .error err r => r.logFailure n err

theorem settle_callDepth (n : Node) (result : EStateM.Result NodeError Run Json) :
    (settle n result).ctx.callDepth = (Action.resultRun result).ctx.callDepth := by
  cases result with
  | ok v r => exact r.conclude_callDepth n v
  | error err r => rfl

/-- Of the world, only the log depends on whether the node has failed. -/
theorem settle_world (n : Node) (result : EStateM.Result NodeError Run Json) :
    ∃ log, (settle n result).world = { (Action.resultRun result).world with log } := by
  cases result with
  | ok v r => exact ⟨r.world.log, r.conclude_world n v⟩
  | error err r => exact ⟨_, rfl⟩

/-- Of the context, only the local variables and the end of the run depend on the node's result. -/
theorem settle_context (n : Node) (result : EStateM.Result NodeError Run Json) :
    ∃ locals stopped, (settle n result).ctx =
      { (Action.resultRun result).ctx with
        vars := { (Action.resultRun result).ctx.vars with locals }, stopped } := by
  cases result with
  | ok v r =>
    have hsave : ∃ locals, (r.save n v).ctx =
        { r.ctx with vars := { r.ctx.vars with locals } } := by
      unfold save
      split
      · exact ⟨_, rfl⟩
      · exact ⟨r.ctx.vars.locals, rfl⟩
    obtain ⟨locals, hsave⟩ := hsave
    refine ⟨locals, (r.conclude n v).ctx.stopped, ?_⟩
    show (r.conclude n v).ctx = _
    unfold conclude stop
    split <;> simp only [hsave, Action.resultRun]
  | error err r => exact ⟨r.ctx.vars.locals, r.ctx.stopped, rfl⟩

end Run

namespace Engine
variable {e : Engine} {call : Caller} {n : Node} {prev : Json} {r r' : Run}

theorem visitAll_append (ns ns' : List Node) (v : Json) (r : Run) :
    visitAll e call (ns ++ ns') v r = visitAll e call ns' v (visitAll e call ns v r) := by
  induction ns generalizing r with
  | nil => rfl
  | cons n ns ih => rw [List.cons_append, visitAll, ih, visitAll]

theorem visitAt_eq (ns : List Node) (i : Nat) (v : Json) (r : Run) :
    visitAt e call ns i v r = visitAll e call ns[i]?.toList v r := by
  induction ns generalizing i with
  | nil => rfl
  | cons n ns ih =>
    cases i with
    | zero => rfl
    | succ i => rw [visitAt, ih, List.getElem?_cons_succ]

theorem visit_of_not_handles (h : ¬ r.Handles n) : visit e call n prev r = r := by
  obtain ⟨op, slotId, params, children⟩ := n
  rw [visit]
  refine if_pos ?_
  simpa [Run.Handles, Classical.or_iff_not_imp_left] using h

theorem visit_of_error (h : r.Handles n) {err : NodeError}
    (hp : perform e call n prev r = .error err r') :
    visit e call n prev r = r'.logFailure n err := by
  obtain ⟨op, slotId, params, children⟩ := n
  rw [visit, if_neg (by simpa [Run.Handles] using h)]
  simp only [hp]

theorem visit_of_ok (h : r.Handles n) {v : Json} (hp : perform e call n prev r = .ok v r') :
    visit e call n prev r =
      visitAll e call ((n.selected v).map Prod.fst) v (r'.conclude n v) := by
  obtain ⟨op, slotId, params, children⟩ := n
  rw [visit, if_neg (by simpa [Run.Handles] using h)]
  simp only [hp, Node.map_fst_selected, Run.conclude, ← Selection.make_eq_stop v]
  cases Selection.make op v with
  | every => rfl
  | only i => exact visitAt_eq ..
  | nothing => rfl
  | stop => rfl

end Engine

end FlowTree
