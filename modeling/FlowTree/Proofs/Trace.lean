import FlowTree.Proofs.Visit

/-!
# Traces

The trace of a visit lists the nodes that are handled, each with its place below the visited node,
its previous result and the run that it is handled on. It is kept beside the visit and tells all of
it: every run in it is what the step before has left (`linked_steps`). What holds of traces is shown
along the visits that make them (`trace_induct`).
-/

namespace FlowTree

/-- The node at a place, which is the list of the positions on the way down to it. -/
def Node.at? (n : Node) : List Nat → Option Node
  | [] => some n
  | i :: path => n.children[i]?.bind (·.at? path)

theorem Node.forall_at?_iff {P : Node → Prop} (n : Node) :
    (∀ path m, n.at? path = some m → P m) ↔
      P n ∧ ∀ c ∈ n.children, ∀ path m, c.at? path = some m → P m := by
  constructor
  · intro h
    refine ⟨h [] n rfl, fun c hc path m hm => ?_⟩
    obtain ⟨i, hi⟩ := List.mem_iff_getElem?.1 hc
    refine h (i :: path) m ?_
    rw [at?, hi]
    exact hm
  · rintro ⟨hn, hbelow⟩ path m hm
    cases path with
    | nil => exact Option.some.inj hm ▸ hn
    | cons i path =>
      obtain ⟨c, hc, hm⟩ := Option.bind_eq_some_iff.1 hm
      exact hbelow c (List.mem_of_getElem? hc) path m hm

/-- The handling of one node. -/
structure Step where
  path : List Nat
  node : Node
  prev : Json
  run : Run

namespace Step

/-- The step as seen from the parent of the visited node. -/
def below (i : Nat) (s : Step) : Step :=
  { s with path := i :: s.path }

variable (e : Engine) (call : Caller) (s : Step)

def outcome : EStateM.Result NodeError Run Json :=
  e.perform call s.node s.prev s.run

/-- The run that the step leaves. -/
def after : Run :=
  .settle s.node (s.outcome e call)

def Succeeds (v : Json) : Prop :=
  ∃ r, s.outcome e call = .ok v r

/-- The step puts an end to its run. -/
def Stops : Prop :=
  s.node.op = .stop ∧ ∃ v, s.Succeeds e call v

end Step

/-- A step leaves what its operation does to the run, but for what depends on the result: the log of
the world, and the local variables and the end of the run. -/
theorem Step.after_cases (e : Engine) (call : Caller) (s : Step) :
    ∃ result, Engine.Outcome e call s.node s.prev s.run result ∧
      (∃ log, (s.after e call).world = { (Action.resultRun result).world with log }) ∧
      ∃ locals stopped, (s.after e call).ctx =
        { (Action.resultRun result).ctx with
          vars := { (Action.resultRun result).ctx.vars with locals }, stopped } :=
  ⟨s.outcome e call, Engine.perform_outcome .., Run.settle_world .., Run.settle_context ..⟩

namespace Engine

section
variable (e : Engine) (call : Caller)

mutual

/-- The steps of a visit. -/
def steps : Node → Json → Run → List Step
  | ⟨op, slotId, params, children⟩, prev, r =>
    let n : Node := ⟨op, slotId, params, children⟩
    if r.ctx.stopped || op == .unknown then []
    else ⟨[], n, prev, r⟩ :: match perform e call n prev r with
      | .error .. => []
      | .ok v r => stepsOf (op.selects v) 0 children v (r.conclude n v)

/-- The steps of the visits of those nodes, counted from a position on, that are selected. -/
def stepsOf (selects : Nat → Bool) (i : Nat) : List Node → Json → Run → List Step
  | [], _, _ => []
  | n :: ns, v, r =>
    if selects i then
      (steps n v r).map (.below i) ++ stepsOf selects (i + 1) ns v (visit e call n v r)
    else stepsOf selects (i + 1) ns v r

end

/-- The steps of visits one after the other, of nodes at these positions. -/
def stepsAll : List (Node × Nat) → Json → Run → List Step
  | [], _, _ => []
  | (n, i) :: ns, v, r =>
    (steps e call n v r).map (.below i) ++ stepsAll ns v (visit e call n v r)

end

variable {e : Engine} {call : Caller} {n : Node} {prev : Json} {r r' : Run}

theorem stepsOf_eq (selects : Nat → Bool) (i : Nat) (ns : List Node) (v : Json) (r : Run) :
    stepsOf e call selects i ns v r =
      stepsAll e call ((ns.zipIdx i).filter fun c => selects c.2) v r := by
  induction ns generalizing i r with
  | nil => rfl
  | cons n ns ih =>
    rw [stepsOf, List.zipIdx_cons, List.filter_cons]
    split
    · rw [stepsAll, ih]
    · exact ih ..

theorem steps_of_not_handles (h : ¬ r.Handles n) : steps e call n prev r = [] := by
  obtain ⟨op, slotId, params, children⟩ := n
  rw [steps]
  refine if_pos ?_
  simpa [Run.Handles, Classical.or_iff_not_imp_left] using h

theorem steps_of_error (h : r.Handles n) {err : NodeError}
    (hp : perform e call n prev r = .error err r') :
    steps e call n prev r = [⟨[], n, prev, r⟩] := by
  obtain ⟨op, slotId, params, children⟩ := n
  rw [steps, if_neg (by simpa [Run.Handles] using h)]
  simp only [hp]

theorem steps_of_ok (h : r.Handles n) {v : Json} (hp : perform e call n prev r = .ok v r') :
    steps e call n prev r =
      ⟨[], n, prev, r⟩ :: stepsAll e call (n.selected v) v (r'.conclude n v) := by
  obtain ⟨op, slotId, params, children⟩ := n
  rw [steps, if_neg (by simpa [Run.Handles] using h)]
  simp only [hp, stepsOf_eq]
  rfl

/-- To show something of a visit with its steps, show it of each way in which a visit can go, along
with something of the visits of the selected children. -/
theorem trace_induct {P : Node → Json → Run → List Step → Run → Prop}
    {Q : List (Node × Nat) → Json → Run → List Step → Run → Prop}
    (skipped : ∀ n prev r, ¬ r.Handles n → P n prev r [] r)
    (failed : ∀ n prev r err r', r.Handles n → perform e call n prev r = .error err r' →
      P n prev r [⟨[], n, prev, r⟩] (r'.logFailure n err))
    (passed : ∀ n prev r v r' ss r'', r.Handles n → perform e call n prev r = .ok v r' →
      Q (n.selected v) v (r'.conclude n v) ss r'' → P n prev r (⟨[], n, prev, r⟩ :: ss) r'')
    (nil : ∀ v r, Q [] v r [] r)
    (cons : ∀ n i ns v r ss r' ss' r'', P n v r ss r' → Q ns v r' ss' r'' →
      Q ((n, i) :: ns) v r (ss.map (.below i) ++ ss') r'')
    (n : Node) (prev : Json) (r : Run) :
    P n prev r (steps e call n prev r) (visit e call n prev r) := by
  induction n using Node.induct generalizing prev r with
  | h n ih =>
    have hall (ns : List (Node × Nat)) (hns : ∀ c ∈ ns, c.1 ∈ n.children) (v : Json) (r : Run) :
        Q ns v r (stepsAll e call ns v r) (visitAll e call (ns.map Prod.fst) v r) := by
      induction ns generalizing r with
      | nil => exact nil v r
      | cons c ns ihs =>
        have hc := ih c.1 (hns c List.mem_cons_self) v r
        exact cons _ _ _ _ _ _ _ _ _ hc (ihs (fun d hd => hns d (List.mem_cons_of_mem c hd)) _)
    by_cases h : r.Handles n
    · cases hp : perform e call n prev r with
      | error err r' =>
        rw [steps_of_error h hp, visit_of_error h hp]
        exact failed n prev r err r' h hp
      | ok v r' =>
        rw [steps_of_ok h hp, visit_of_ok h hp]
        refine passed n prev r v r' _ _ h hp (hall _ (fun c hc => ?_) _ _)
        exact List.mem_of_getElem? (Node.mem_selected.1 hc).1
    · rw [steps_of_not_handles h, visit_of_not_handles h]
      exact skipped n prev r h

/-! ### The course of a visit -/

/-- The steps lead from one run to another: each starts where the one before has ended. -/
def Linked (e : Engine) (call : Caller) (r : Run) : List Step → Run → Prop
  | [], r' => r' = r
  | s :: ss, r' => s.run = r ∧ Linked e call (s.after e call) ss r'

theorem Linked.append {ss ss' : List Step} {r'' : Run} (h : Linked e call r ss r')
    (h' : Linked e call r' ss' r'') : Linked e call r (ss ++ ss') r'' := by
  induction ss generalizing r with
  | nil => exact h ▸ h'
  | cons s ss ih => exact ⟨h.1, ih h.2⟩

theorem Linked.below {ss : List Step} (i : Nat) (h : Linked e call r ss r') :
    Linked e call r (ss.map (.below i)) r' := by
  induction ss generalizing r with
  | nil => exact h
  | cons s ss ih => exact ⟨h.1, ih h.2⟩

/-- The steps before a step lead to it, and those after it start from what it leaves. -/
theorem Linked.split {s : Step} {ss ss' : List Step} (h : Linked e call r (ss ++ s :: ss') r') :
    Linked e call r ss s.run ∧ Linked e call (s.after e call) ss' r' := by
  induction ss generalizing r with
  | nil => exact h
  | cons t ss ih =>
    obtain ⟨rfl, h⟩ := h
    obtain ⟨hbefore, hafter⟩ := ih h
    exact ⟨⟨rfl, hbefore⟩, hafter⟩

/-- What each step keeps is kept by all of them. -/
theorem Linked.keeps {P : Run → Prop} {ss : List Step} (h : Linked e call r ss r')
    (hstep : ∀ s ∈ ss, P s.run → P (s.after e call)) (hr : P r) : P r' := by
  induction ss generalizing r with
  | nil => exact (show r' = r from h) ▸ hr
  | cons s ss ih =>
    obtain ⟨rfl, h⟩ := h
    refine ih h (fun t ht => hstep t (List.mem_cons_of_mem s ht)) ?_
    exact hstep s List.mem_cons_self hr

/-- The steps of a visit tell all that it does. -/
theorem linked_steps (n : Node) (prev : Json) (r : Run) :
    Linked e call r (steps e call n prev r) (visit e call n prev r) := by
  refine trace_induct (P := fun _ _ r ss r' => Linked e call r ss r')
    (Q := fun _ _ r ss r' => Linked e call r ss r') ?_ ?_ ?_ ?_ ?_ n prev r
  · exact fun n prev r _ => rfl
  · intro n prev r err r' _ hp
    refine ⟨rfl, ?_⟩
    simp only [Linked, Step.after, Step.outcome, hp, Run.settle]
  · intro n prev r v r' ss r'' _ hp h
    refine ⟨rfl, ?_⟩
    simpa only [Step.after, Step.outcome, hp, Run.settle] using h
  · exact fun v r => rfl
  · exact fun n i ns v r ss r' ss' r'' h h' => (h.below i).append h'

/-- No step moves its run to another depth. -/
theorem Linked.callDepth {ss : List Step} (h : Linked e call r ss r') :
    r'.ctx.callDepth = r.ctx.callDepth := by
  refine h.keeps (P := fun r' => r'.ctx.callDepth = r.ctx.callDepth) (fun s _ hs => ?_) rfl
  rw [Step.after, Run.settle_callDepth]
  exact (perform_sameCourse e call s.node s.prev s.run).callDepth.trans hs

theorem visit_callDepth (n : Node) (prev : Json) (r : Run) :
    (visit e call n prev r).ctx.callDepth = r.ctx.callDepth :=
  (linked_steps n prev r).callDepth

theorem handles_of_mem_steps (n : Node) (prev : Json) (r : Run) :
    ∀ s ∈ steps e call n prev r, s.run.Handles s.node := by
  refine trace_induct (P := fun _ _ _ ss _ => ∀ s ∈ ss, s.run.Handles s.node)
    (Q := fun _ _ _ ss _ => ∀ s ∈ ss, s.run.Handles s.node) ?_ ?_ ?_ ?_ ?_ n prev r
  · exact fun n prev r _ s hs => absurd hs List.not_mem_nil
  · intro n prev r err r' h _ s hs
    rw [List.mem_singleton.1 hs]
    exact h
  · intro n prev r v r' ss r'' h _ hss s hs
    rcases List.mem_cons.1 hs with rfl | hs
    · exact h
    · exact hss s hs
  · exact fun v r s hs => absurd hs List.not_mem_nil
  · intro n i ns v r ss r' ss' r'' h h' s hs
    rcases List.mem_append.1 hs with hs | hs
    · obtain ⟨t, ht, rfl⟩ := List.mem_map.1 hs
      exact h t ht
    · exact h' s hs

end Engine

end FlowTree
