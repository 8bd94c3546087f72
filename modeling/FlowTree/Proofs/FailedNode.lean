import FlowTree.Proofs.Log
import FlowTree.Proofs.Termination

/-!
# Failed nodes

A node that fails might as well not be there: it has changed nothing itself, and nothing below it is
visited. With a node without operation in its place the run goes the same way.
-/

namespace FlowTree

/-! ### Replacing nodes -/

namespace Node

/-- The tree with another one at a place. -/
def replace (n : Node) (m : Node) : List Nat → Node
  | [] => m
  | i :: path => { n with children := n.children.modify i (·.replace m path) }

theorem zipIdx_modify (cs : List Node) (i : Nat) (f : Node → Node) :
    (cs.modify i f).zipIdx = cs.zipIdx.map fun c => if c.2 = i then (f c.1, c.2) else c := by
  refine List.ext_getElem? fun j => ?_
  rw [List.getElem?_map, List.getElem?_zipIdx, List.getElem?_zipIdx, List.getElem?_modify]
  cases cs[j]? with
  | none => rfl
  | some c =>
    by_cases h : i = j
    · simp [h]
    · simp [h, Ne.symm h]

theorem selected_modify (n : Node) (i : Nat) (f : Node → Node) (v : Json) :
    selected { n with children := n.children.modify i f } v =
      (n.selected v).map fun c => if c.2 = i then (f c.1, c.2) else c := by
  unfold selected
  simp only [zipIdx_modify, List.filter_map]
  congr 1
  refine List.filter_congr fun c _ => ?_
  simp only [Function.comp_apply]
  split <;> rfl

/-- A change of one selected child leaves the others as they are. -/
theorem selected_modify_of_append {n c : Node} {v : Json} {i : Nat}
    {before after : List (Node × Nat)}
    (h : n.selected v = before ++ (c, i) :: after) (f : Node → Node) :
    selected { n with children := n.children.modify i f } v = before ++ (f c, i) :: after := by
  have hinc := n.selected_increasing v
  rw [h] at hinc
  obtain ⟨-, hafter, hbefore⟩ := List.pairwise_append.1 hinc
  rw [selected_modify, h, List.map_append, List.map_cons, if_pos rfl]
  congr 1
  · refine (List.map_congr_left fun d hd => if_neg ?_).trans (List.map_id _)
    exact Nat.ne_of_lt (hbefore d hd (c, i) List.mem_cons_self)
  · congr 1
    refine (List.map_congr_left fun d hd => if_neg ?_).trans (List.map_id _)
    exact Nat.ne_of_gt ((List.pairwise_cons.1 hafter).1 d hd)

end Node

namespace Engine
variable {e : Engine} {call : Caller} {n : Node} {prev : Json} {r r' : Run}

theorem mem_stepsAll {s : Step} {cs : List (Node × Nat)} {v : Json} {r : Run}
    (hs : s ∈ stepsAll e call cs v r) : ∃ before c i after t, cs = before ++ (c, i) :: after ∧
      s = t.below i ∧ t ∈ steps e call c v (visitAll e call (before.map Prod.fst) v r) := by
  induction cs generalizing r with
  | nil => exact absurd hs List.not_mem_nil
  | cons c cs ih =>
    obtain ⟨c, i⟩ := c
    rcases List.mem_append.1 hs with hs | hs
    · obtain ⟨t, ht, rfl⟩ := List.mem_map.1 hs
      exact ⟨[], c, i, cs, t, rfl, rfl, ht⟩
    · obtain ⟨before, d, j, after, t, rfl, rfl, ht⟩ := ih hs
      exact ⟨(c, i) :: before, d, j, after, t, rfl, rfl, ht⟩

/-- A call that fails has left the world as it was. -/
theorem caller_error {levels : Nat} {trigger : String} {seed : Json} {depth : Nat} {w w' : World}
    {err : NodeError} (h : e.caller levels trigger seed depth w = (.error err, w')) : w' = w := by
  cases levels with
  | zero => exact (Prod.mk.inj h).2.symm
  | succ levels =>
    rw [caller] at h
    split at h
    · exact (Prod.mk.inj h).2.symm
    · cases h

theorem perform_children (e : Engine) (call : Caller) (n : Node) (cs : List Node) (prev : Json) :
    perform e call { n with children := cs } prev = perform e call n prev := by
  have hcode : Operation.runCode e { n with children := cs } prev = Operation.runCode e n prev := by
    simp only [Operation.runCode, show Operation.budgetOf e { n with children := cs } =
      Operation.budgetOf e n from rfl, show Node.requireText { n with children := cs } =
      n.requireText from rfl]
  unfold perform
  rw [hcode]
  rfl

/-! ### Failures -/

/-- With a node without operation in place of one that fails a visit ends in the same run, but for
the log. -/
theorem visit_replace (hcall : call.Alike World.SameButLog call)
    (hfail : ∀ trigger seed depth w err w', call trigger seed depth w = (.error err, w') → w' = w)
    {m : Node} (hm : m.op = .unknown) {n : Node} {prev : Json} {r : Run} {s : Step}
    (hs : s ∈ steps e call n prev r) (op : s.node.op ≠ .runCode) {err : NodeError}
    (herr : s.outcome e call = .error err r') :
    (visit e call (n.replace m s.path) prev r).unlogged = (visit e call n prev r).unlogged := by
  induction n using Node.induct generalizing prev r s with
  | h n ih =>
    have hn : r.Handles n := by
      refine Classical.byContradiction fun hn => ?_
      rw [steps_of_not_handles hn] at hs
      exact List.not_mem_nil hs
    cases hp : perform e call n prev r with
    | error err' r₁ =>
      -- the node itself has failed
      rw [steps_of_error hn hp] at hs
      obtain rfl := List.mem_singleton.1 hs
      have hm' : ¬ r.Handles m := fun h => h.2 hm
      rw [Node.replace, visit_of_not_handles hm', visit_of_error hn hp, Run.unlogged_logFailure,
        perform_error hfail op hp]
    | ok v r₁ =>
      rw [steps_of_ok hn hp] at hs
      rcases List.mem_cons.1 hs with rfl | hs
      · rw [Step.outcome, hp] at herr
        cases herr
      · -- one of the selected children, or a node below it
        obtain ⟨before, c, i, after, t, hsel, rfl, ht⟩ := mem_stepsAll hs
        have hc : c ∈ n.children := by
          refine Node.mem_children_of_selected (v := v) ?_
          simp [hsel]
        have hrest := ih c hc ht op herr
        have hn' : r.Handles (n.replace m (i :: t.path)) := hn
        have hp' : perform e call (n.replace m (i :: t.path)) prev r = .ok v r₁ := by
          rw [Node.replace, perform_children]
          exact hp
        have hsel' : (n.replace m (i :: t.path)).selected v = _ :=
          Node.selected_modify_of_append hsel _
        show (visit e call (n.replace m (i :: t.path)) prev r).unlogged = _
        rw [visit_of_ok hn hp, visit_of_ok hn' hp', hsel', hsel]
        simp only [List.map_append, List.map_cons, visitAll_append, visitAll]
        exact visitAll_unlogged hcall _ v hrest

/-- A node that fails, if it is not a script's, has changed nothing. Its run ends as it does with a
node without operation in place of it and of all that is below it, but for the log, and so does all
that the run is a part of. -/
theorem execute_replace (e : Engine) (f : Flow) (inv : Invocation) (w : World) {s : Step}
    (hs : s ∈ steps e (e.callerAt inv.depth) f.root inv.seed (e.begin f inv w))
    (op : s.node.op ≠ .runCode) {err : NodeError}
    (herr : s.outcome e (e.callerAt inv.depth) = .error err r') {m : Node} (hm : m.op = .unknown) :
    let root := f.root.replace m s.path
    r' = s.run ∧
      ((e.execute { f with root } inv w).1 = (e.execute f inv w).1 ∧
        (e.execute { f with root } inv w).2.unlogged = (e.execute f inv w).2.unlogged) ∧
      ∀ below final,
        e.Ends ⟨.run f (e.begin f inv w).ctx [(f.root, inv.seed)] :: below,
          (e.begin f inv w).world⟩ final →
        ∃ final', e.Ends ⟨.run f (e.begin f inv w).ctx [(root, inv.seed)] :: below,
          (e.begin f inv w).world⟩ final' ∧ final'.unlogged = final.unlogged := by
  intro root
  have hfail : ∀ trigger seed depth w err w',
      e.callerAt inv.depth trigger seed depth w = (.error err, w') → w' = w :=
    fun _ _ _ _ _ _ h => caller_error h
  have hend : (e.visit (e.callerAt inv.depth) root inv.seed (e.begin f inv w)).unlogged =
      (e.visit (e.callerAt inv.depth) f.root inv.seed (e.begin f inv w)).unlogged :=
    visit_replace (caller_alike e _) hfail hm hs op herr
  refine ⟨perform_error hfail op herr, finish_unlogged f hend, fun below final hfinal => ?_⟩
  have hrest := hfinal.of_reaches (reaches_visit f.root inv.seed (e.begin f inv w) f [] below)
  obtain ⟨final', hends, hfinal'⟩ := hrest.unlogged (run_unlogged f [] below hend.symm)
  refine ⟨final', ⟨.trans ?_ hends.1, hends.2⟩, hfinal'.symm⟩
  exact reaches_visit root inv.seed (e.begin f inv w) f [] below

/-- A node with no offer to show, above another one and before a third. -/
theorem execute_replace_of_missing_offer :
    let e : Engine := { timing := { clock := 0, elapsed := .ofMillis 0 } }
    let bare : Node := ⟨.showOffer, "b", [], [⟨.stop, "c", [], []⟩]⟩
    let f : Flow := ⟨"f", ⟨.sequence, "a", [], [bare, ⟨.stop, "d", [], []⟩]⟩⟩
    let g : Flow := ⟨"f", ⟨.sequence, "a", [], [⟨.unknown, "", [], []⟩, ⟨.stop, "d", [], []⟩]⟩⟩
    (e.execute g {} {}).1 = (e.execute f {} {}).1 ∧
      (e.execute g {} {}).2.unlogged = (e.execute f {} {}).2.unlogged := by
  intro e bare f g
  have hs : (⟨[0], bare, .null, e.begin f {} {}⟩ : Step) ∈
      steps e (e.callerAt 0) f.root .null (e.begin f {} {}) := .tail _ (.head _)
  exact (execute_replace e f {} {} hs (by decide) rfl (m := ⟨.unknown, "", [], []⟩) rfl).2.1

end Engine

end FlowTree
