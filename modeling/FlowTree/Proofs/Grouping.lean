import FlowTree.Engine.Event
import FlowTree.Proofs.FailedNode
import Mathlib.Data.List.Forall2

/-!
# Grouping nodes

A sequence that saves no result hands what it is given on to its children and does nothing else. It
only groups them, and a tree in which they stand in its place runs in the same way, wherever in the
tree that is: what is done at one node does not depend on how the nodes below it are grouped, unless
it chooses one of them by its position.
-/

namespace FlowTree

/-! ### Trees that run alike -/

/-- No visit tells the nodes apart. -/
def Node.RunsLike (m n : Node) : Prop :=
  ∀ (e : Engine) (call : Caller) (prev : Json) (r : Run),
    e.visit call m prev r = e.visit call n prev r

theorem Node.RunsLike.refl (n : Node) : n.RunsLike n :=
  fun _ _ _ _ => rfl

/-- No run tells the flows apart, and they wait for the same triggers. -/
structure Flow.RunsLike (g f : Flow) : Prop where
  id : g.id = f.id
  op : g.root.op = f.root.op
  params : g.root.params = f.root.params
  root : g.root.RunsLike f.root

theorem Flow.RunsLike.refl (f : Flow) : f.RunsLike f :=
  ⟨rfl, rfl, rfl, .refl f.root⟩

namespace Engine
variable {e : Engine} {call : Caller}

theorem visitAll_of_stopped {r : Run} (h : r.ctx.stopped = true) (ns : List Node) (v : Json) :
    visitAll e call ns v r = r := by
  induction ns with
  | nil => rfl
  | cons n ns ih =>
    have hn : ¬ r.Handles n := fun hn => Bool.false_ne_true (hn.1.symm.trans h)
    rw [visitAll, visit_of_not_handles hn, ih]

theorem visitAll_congr {e' : Engine} {call' : Caller} {ns : List Node} {v : Json}
    (h : ∀ n ∈ ns, ∀ r, e'.visit call' n v r = e.visit call n v r) (r : Run) :
    visitAll e' call' ns v r = visitAll e call ns v r := by
  induction ns generalizing r with
  | nil => rfl
  | cons n ns ih =>
    rw [visitAll, visitAll, h n List.mem_cons_self, ih fun m hm => h m (List.mem_cons_of_mem n hm)]

theorem visitAll_map {α : Type} {cs : List α} {m n : α → Node}
    (h : ∀ c ∈ cs, (m c).RunsLike (n c)) (v : Json) (r : Run) :
    visitAll e call (cs.map m) v r = visitAll e call (cs.map n) v r := by
  induction cs generalizing r with
  | nil => rfl
  | cons c cs ih =>
    rw [List.map_cons, List.map_cons, visitAll, visitAll, h c List.mem_cons_self,
      ih fun d hd => h d (List.mem_cons_of_mem c hd)]

end Engine

namespace Node

/-- A node does the same with other nodes below it. Those that a result leads to need only be
visited in the same way. -/
theorem runsLike_of_children {n : Node} {cs : List Node}
    (h : ∀ (e : Engine) (call : Caller) (v : Json) (r : Run),
      e.visitAll call ((selected { n with children := cs } v).map Prod.fst) v r =
        e.visitAll call ((n.selected v).map Prod.fst) v r) :
    RunsLike { n with children := cs } n := by
  intro e call prev r
  by_cases hn : r.Handles n
  · have hm : r.Handles { n with children := cs } := hn
    have hperform := Engine.perform_children e call n cs prev
    cases hp : e.perform call n prev r with
    | error err r' =>
      rw [Engine.visit_of_error hn hp, Engine.visit_of_error hm (by rw [hperform, hp])]
      rfl
    | ok v r' =>
      rw [Engine.visit_of_ok hn hp, Engine.visit_of_ok hm (by rw [hperform, hp])]
      exact h e call v (r'.conclude n v)
  · have hm : ¬ r.Handles { n with children := cs } := hn
    rw [Engine.visit_of_not_handles hn, Engine.visit_of_not_handles hm]

/-- A tree runs alike with a node in it replaced by one that runs alike. -/
theorem RunsLike.replace {n p m : Node} {path : List Nat} (hp : n.at? path = some p)
    (h : m.RunsLike p) : (n.replace m path).RunsLike n := by
  induction path generalizing n with
  | nil =>
    obtain rfl : n = p := Option.some.inj hp
    exact h
  | cons i path ih =>
    obtain ⟨c, hc, hp⟩ := Option.bind_eq_some_iff.1 hp
    refine runsLike_of_children fun e call v r => ?_
    rw [selected_modify, List.map_map]
    refine Engine.visitAll_map (fun d hd => ?_) v r
    show Node.RunsLike (Prod.fst (if d.2 = i then _ else d)) d.1
    split
    · rename_i hi
      have hd := (mem_selected.1 hd).1
      rw [hi, hc] at hd
      obtain rfl := Option.some.inj hd
      exact ih hp
    · exact .refl d.1

theorem replace_op {n p m : Node} {path : List Nat} (hp : n.at? path = some p) (h : m.op = p.op) :
    (n.replace m path).op = n.op := by
  cases path with
  | nil => exact Option.some.inj hp ▸ h
  | cons i path => rfl

theorem replace_params {n p m : Node} {path : List Nat} (hp : n.at? path = some p)
    (h : m.params = p.params) : (n.replace m path).params = n.params := by
  cases path with
  | nil => exact Option.some.inj hp ▸ h
  | cons i path => rfl

/-! ### Sequences -/

/-- The node with the children of one of its children in the place of that child. -/
def dissolve (n : Node) (i : Nat) : Node :=
  { n with children := n.children.take i ++ (n.children[i]?.map children).getD [] ++
      n.children.drop (i + 1) }

/-- A sequence that saves no result only has its children visited. -/
theorem visit_sequence (e : Engine) (call : Caller) {s : Node} (seq : s.op = .sequence)
    (bare : s.savedVariable? = none) (prev : Json) (r : Run) :
    e.visit call s prev r = e.visitAll call s.children prev r := by
  by_cases hs : r.ctx.stopped = true
  · have hn : ¬ r.Handles s := fun hn => Bool.false_ne_true (hn.1.symm.trans hs)
    rw [Engine.visit_of_not_handles hn, Engine.visitAll_of_stopped hs]
  · have hn : r.Handles s := by
      refine ⟨Bool.eq_false_iff.2 hs, ?_⟩
      simp [seq]
    have hp : e.perform call s prev r = .ok prev r := by
      rw [Engine.perform, seq]
      rfl
    have hr : r.conclude s prev = r := by
      simp [Run.conclude, Run.save, seq, bare]
    rw [Engine.visit_of_ok hn hp, map_fst_selected, hr, seq]
    rfl

/-- What does not choose one child by its position leads to all, if it does not end the run. -/
theorem map_fst_selected_of_not_choice {n : Node} (op : n.op ∉ [.branch, .switch, .splitTest])
    (v : Json) : (n.selected v).map Prod.fst = if n.op = .stop then [] else n.children := by
  simp only [List.mem_cons, List.not_mem_nil, or_false, not_or] at op
  rw [map_fst_selected]
  cases op' : n.op <;> first | rfl | simp [op'] at op

theorem dissolve_runsLike {p s : Node} {i : Nat} (op : p.op ∉ [.branch, .switch, .splitTest])
    (hs : p.children[i]? = some s) (seq : s.op = .sequence) (bare : s.savedVariable? = none) :
    (p.dissolve i).RunsLike p := by
  have hchildren : p.children = p.children.take i ++ s :: p.children.drop (i + 1) := by
    obtain ⟨hi, hs⟩ := List.getElem?_eq_some_iff.1 hs
    rw [← hs, List.getElem_cons_drop, List.take_append_drop]
  refine runsLike_of_children fun e call v r => ?_
  rw [map_fst_selected_of_not_choice op,
    map_fst_selected_of_not_choice (n := { p with children := _ }) op]
  by_cases stop : p.op = .stop
  · rw [if_pos stop, if_pos stop]
  · rw [if_neg stop, if_neg stop]
    calc
      e.visitAll call (p.dissolve i).children v r =
          e.visitAll call (p.children.take i ++ s :: p.children.drop (i + 1)) v r := by
        rw [dissolve, hs, Option.map_some, Option.getD_some]
        simp only [Engine.visitAll_append, Engine.visitAll, visit_sequence e call seq bare]
      _ = e.visitAll call p.children v r := by rw [← hchildren]

end Node

/-! ### Flows -/

theorem Flow.RunsLike.dissolve {f : Flow} {p s : Node} {path : List Nat} {i : Nat}
    (hp : f.root.at? path = some p) (op : p.op ∉ [.branch, .switch, .splitTest])
    (hs : p.children[i]? = some s) (seq : s.op = .sequence) (bare : s.savedVariable? = none) :
    Flow.RunsLike { f with root := f.root.replace (p.dissolve i) path } f where
  id := rfl
  op := Node.replace_op hp rfl
  params := Node.replace_params hp rfl
  root := (Node.dissolve_runsLike op hs seq bare).replace hp

namespace Engine
variable {e : Engine} {call : Caller}

/-- The engine with other flows registered. -/
def withFlows (e : Engine) (fs : List Flow) : Engine :=
  { e with game := { e.game with flows := fs } }

theorem runCode_withFlows (e : Engine) (fs : List Flow) (n : Node) (prev : Json) :
    Operation.runCode (e.withFlows fs) n prev = Operation.runCode e n prev := by
  have hlimits : (e.withFlows fs).limits = e.limits := rfl
  have htiming : (e.withFlows fs).timing = e.timing := rfl
  have hevaluator : (e.withFlows fs).evaluator = e.evaluator := rfl
  have hbudget : Operation.budgetOf (e.withFlows fs) n = Operation.budgetOf e n := rfl
  funext r
  rw [Operation.runCode_run, Operation.runCode_run, hlimits, htiming, hevaluator, hbudget]

/-- A node meets the registered flows only through the calls of custom triggers. -/
theorem perform_withFlows (e : Engine) (fs : List Flow) (call : Caller) (n : Node) (prev : Json) :
    perform (e.withFlows fs) call n prev = perform e call n prev := by
  unfold perform
  split <;> first | exact runCode_withFlows e fs n prev | rfl

theorem visit_withFlows (e : Engine) (fs : List Flow) (call : Caller) (n : Node) (prev : Json)
    (r : Run) : visit (e.withFlows fs) call n prev r = visit e call n prev r := by
  induction n using Node.induct generalizing prev r with
  | h n ih =>
    by_cases hn : r.Handles n
    · have hperform := perform_withFlows e fs call n prev
      cases hp : e.perform call n prev r with
      | error err r' =>
        rw [visit_of_error hn hp, visit_of_error hn (by rw [hperform, hp])]
      | ok v r' =>
        rw [visit_of_ok hn hp, visit_of_ok hn (by rw [hperform, hp])]
        refine visitAll_congr (fun c hc r => ?_) _
        exact ih c (Node.mem_children_of_selected hc) v r
    · rw [visit_of_not_handles hn, visit_of_not_handles hn]

section
variable {fs gs : List Flow}

theorem runWith_withFlows {f g : Flow} (h : g.RunsLike f) (call : Caller) (inv : Invocation)
    (w : World) : (e.withFlows gs).runWith call g inv w = e.runWith call f inv w := by
  have hbegin : (e.withFlows gs).begin g inv w = e.begin f inv w := by
    unfold begin enter Flow.autoSegment
    rw [h.id]
    rfl
  have hfinish : finish g = finish f := by
    funext r
    unfold finish
    rw [h.id]
  rw [runWith, runWith, visit_withFlows, hbegin, hfinish, h.root]

theorem fireWith_withFlows (h : List.Forall₂ Flow.RunsLike gs fs) {accepts : Flow → Bool}
    (haccepts : ∀ g f, g.RunsLike f → accepts g = accepts f) (call : Caller) (inv : Invocation)
    (w : World) (registered : List Flow) :
    (e.withFlows registered).fireWith call accepts inv gs w = e.fireWith call accepts inv fs w := by
  induction h generalizing inv w with
  | nil => rfl
  | @cons g f gs fs hf _ ih =>
    rw [fireWith, fireWith, haccepts g f hf, runWith_withFlows hf]
    split <;> simp only [ih]

theorem waitsFor_of_runsLike {f g : Flow} (h : g.RunsLike f) (trigger : Tag)
    (key actual : String) : waitsFor trigger key actual g = waitsFor trigger key actual f := by
  rw [waitsFor, waitsFor, h.op, h.params]

theorem caller_withFlows (h : List.Forall₂ Flow.RunsLike gs e.game.flows) (levels : Nat) :
    (e.withFlows gs).caller levels = e.caller levels := by
  induction levels with
  | zero => rfl
  | succ levels ih =>
    funext trigger seed depth w
    have haccepts (g f : Flow) (hf : g.RunsLike f) :=
      waitsFor_of_runsLike hf .customTrigger "triggerId" trigger
    have hfire := fireWith_withFlows (e := e) h haccepts (e.caller levels) { seed, depth } w gs
    have hdispatcher : (e.withFlows gs).game.dispatcher = e.game.dispatcher := rfl
    rw [caller, caller, ih, hdispatcher]
    cases e.game.dispatcher with
    | some dispatch => rfl
    | none => exact congrArg (fun fired => (Except.ok fired.1.locals, fired.2)) hfire

theorem execute_withFlows (h : List.Forall₂ Flow.RunsLike gs e.game.flows) {f g : Flow}
    (hf : g.RunsLike f) (inv : Invocation) (w : World) :
    (e.withFlows gs).execute g inv w = e.execute f inv w := by
  have hcall : (e.withFlows gs).callerAt inv.depth = e.callerAt inv.depth := caller_withFlows h _
  rw [execute, execute, hcall, runWith_withFlows hf]

theorem handle_withFlows (h : List.Forall₂ Flow.RunsLike gs e.game.flows) (event : Event)
    (w : World) : (e.withFlows gs).handle event w = e.handle event w := by
  have hcall : (e.withFlows gs).callerAt event.invocation.depth =
      e.callerAt event.invocation.depth := caller_withFlows h _
  rw [handle, handle, fire, fire, hcall]
  refine fireWith_withFlows h (fun g f hf => ?_) ..
  rw [Event.awaitedBy, Event.awaitedBy, hf.op, hf.params]

/-- A sequence that saves no result can be replaced by its children anywhere in a flow, below a node
that does not choose one of its children by its position. The flow runs as before, also where it is
one of the registered flows that are run for an event or a call. -/
theorem execute_dissolve (e : Engine) (f : Flow) {path : List Nat} {p s : Node} {i : Nat}
    (hp : f.root.at? path = some p) (op : p.op ∉ [.branch, .switch, .splitTest])
    (hs : p.children[i]? = some s) (seq : s.op = .sequence) (bare : s.savedVariable? = none) :
    let g : Flow := { f with root := f.root.replace (p.dissolve i) path }
    (∀ inv w, e.execute g inv w = e.execute f inv w) ∧
      ∀ before after, e.game.flows = before ++ f :: after →
        let e' := e.withFlows (before ++ g :: after)
        (∀ h inv w, e'.execute h inv w = e.execute h inv w) ∧
          ∀ event w, e'.handle event w = e.handle event w := by
  intro g
  have hg : g.RunsLike f := .dissolve hp op hs seq bare
  have hsame (fs : List Flow) : List.Forall₂ Flow.RunsLike fs fs :=
    List.forall₂_same.2 fun f _ => .refl f
  refine ⟨execute_withFlows (hsame e.game.flows) hg, fun before after hflows => ?_⟩
  have hregistered : List.Forall₂ Flow.RunsLike (before ++ g :: after) e.game.flows := by
    rw [hflows]
    exact List.rel_append (hsame before) (.cons hg (hsame after))
  exact ⟨fun h => execute_withFlows hregistered (.refl h), handle_withFlows hregistered⟩

/-- A group that ends the run, below another one and before a node that is then left out. -/
theorem execute_dissolve_of_stop :
    let kept : Node := ⟨.sequence, "a", [("savedVariable", .str "x")], []⟩
    let stop : Node := ⟨.stop, "b", [], []⟩
    let last : Node := ⟨.sequence, "c", [("savedVariable", .str "y")], []⟩
    let flow (inner : List Node) : Flow := ⟨"f", ⟨.sessionStart, "root", [],
      [⟨.sequence, "outer", [("savedVariable", .str "z")], inner⟩]⟩⟩
    let f := flow [⟨.sequence, "inner", [], [kept, stop]⟩, last]
    let g := flow [kept, stop, last]
    let e : Engine :=
      { game := { flows := [f] }, timing := { clock := 0, elapsed := .ofMillis 0 } }
    e.execute g {} {} = e.execute f {} {} ∧
      (e.withFlows [g]).handle (.sessionStarted []) {} = e.handle (.sessionStarted []) {} ∧
      (e.execute g {} {}).1.locals.map Prod.fst = ["x", "z"] := by
  intro kept stop last flow f g e
  have hp : f.root.at? [0] = some ⟨.sequence, "outer", [("savedVariable", .str "z")],
      [⟨.sequence, "inner", [], [kept, stop]⟩, last]⟩ := rfl
  obtain ⟨hrun, hregistered⟩ := execute_dissolve e f hp (i := 0) (by decide) rfl rfl rfl
  exact ⟨hrun {} {}, (hregistered [] [] rfl).2 _ {}, by decide⟩

end

end Engine

end FlowTree
