import FlowTree.Proofs.Pool
import Mathlib.Logic.Relation

/-!
# Engines step by step

The machine does what an engine does in single steps, on a stack of what is under way: a trigger
that looks through the flows, above it the run that it has started, above that the trigger that a
node of the run fires, and so on. No step runs a flow as a whole, so a machine need not come to an
end by its definition. A node that fires a trigger stays first in its run until the trigger is done.
-/

namespace FlowTree

/-- What is under way. -/
inductive Frame
  /-- A run, with the visits that are still to be made. -/
  | run (f : Flow) (ctx : Context) (todo : List (Node × Json))
  /-- A trigger, with the runs that it has had and the flows that are still to be looked at. -/
  | firing (accepts : Flow → Bool) (inv : Invocation) (done : List FlowResult) (rest : List Flow)

structure Machine where
  frames : List Frame
  world : World

/-- What the runs of a trigger leave behind together. -/
def TriggerResult.collect (done : List FlowResult) (carry : Carry) : TriggerResult where
  flowsRun := done.map FlowResult.flowId
  locals := done.foldr (fun r locals => Fields.merge r.locals locals) []
  carry

namespace Engine

/-- Custom triggers as the host fires them, if it has a way to do so. -/
def hostCaller (e : Engine) : Caller := fun trigger seed depth w =>
  match e.game.dispatcher with
  | some dispatch => (dispatch trigger seed depth, w)
  | none => (.error (.validation (.callDepth trigger e.maxDepth)), w)

/-- The trigger that a node has the engine fire. -/
def fired? (e : Engine) (n : Node) (prev : Json) (ctx : Context) : Option String :=
  if n.op = .callCustomFlow ∧ e.game.dispatcher = none ∧ ctx.callDepth + 1 ≤ e.maxDepth then
    (Operation.idOf n "triggerId" prev ctx.vars).toOption
  else none

/-- The visits that a node leads to. -/
def ahead (n : Node) : EStateM.Result NodeError Run Json → List (Node × Json)
  | .ok v _ => ((n.selected v).map Prod.fst).map fun c => (c, v)
  | .error .. => []

/-- The machine once the first node of a run has been carried out. -/
def proceed (f : Flow) (n : Node) (todo : List (Node × Json)) (below : List Frame)
    (result : EStateM.Result NodeError Run Json) : Machine :=
  ⟨.run f (Run.settle n result).ctx (ahead n result ++ todo) :: below,
    (Run.settle n result).world⟩

def step (e : Engine) : Machine → Option Machine
  | ⟨.firing accepts inv done (f :: rest) :: below, w⟩ =>
    if accepts f then
      let r := e.begin f inv w
      some ⟨.run f r.ctx [(f.root, inv.seed)] :: .firing accepts inv done rest :: below, r.world⟩
    else some ⟨.firing accepts inv done rest :: below, w⟩
  | ⟨.firing _ inv done [] :: .run f ctx ((n, _) :: todo) :: below, w⟩ =>
    some (proceed f n todo below
      (.ok (.obj (TriggerResult.collect done inv.carry).locals) ⟨ctx, w⟩))
  | ⟨.run f ctx [] :: .firing accepts inv done rest :: below, w⟩ =>
    let (result, w) := finish f ⟨ctx, w⟩
    some ⟨.firing accepts { inv with carry := result.carry } (done ++ [result]) rest :: below, w⟩
  | ⟨.run f ctx ((n, prev) :: todo) :: below, w⟩ =>
    if Run.Handles ⟨ctx, w⟩ n then
      match e.fired? n prev ctx with
      | some trigger =>
        some ⟨.firing (waitsFor .customTrigger "triggerId" trigger)
          { seed := prev, depth := ctx.callDepth + 1 } [] e.game.flows ::
            .run f ctx ((n, prev) :: todo) :: below, w⟩
      | none => some (proceed f n todo below (e.perform e.hostCaller n prev ⟨ctx, w⟩))
    else some ⟨.run f ctx todo :: below, w⟩
  | _ => none

/-- The machine gets from one state to another. -/
def Reaches (e : Engine) : Machine → Machine → Prop :=
  Relation.ReflTransGen fun m m' => e.step m = some m'

end Engine

/-! ### What a step can be -/

/-- What a step of the machine can be. -/
inductive Engine.Move (e : Engine) : Machine → Machine → Prop
  | started {accepts : Flow → Bool} {inv : Invocation} {done : List FlowResult} {f : Flow}
    {rest : List Flow} {below : List Frame} {w : World} (accepted : accepts f = true) :
    Move e ⟨.firing accepts inv done (f :: rest) :: below, w⟩
      ⟨.run f (e.begin f inv w).ctx [(f.root, inv.seed)] :: .firing accepts inv done rest :: below,
        (e.begin f inv w).world⟩
  | passedOver {accepts : Flow → Bool} {inv : Invocation} {done : List FlowResult} {f : Flow}
    {rest : List Flow} {below : List Frame} {w : World} (refused : accepts f = false) :
    Move e ⟨.firing accepts inv done (f :: rest) :: below, w⟩
      ⟨.firing accepts inv done rest :: below, w⟩
  | returned {accepts : Flow → Bool} {inv : Invocation} {done : List FlowResult} {f : Flow}
    {ctx : Context} {n : Node} {prev : Json} {todo : List (Node × Json)} {below : List Frame}
    {w : World} :
    Move e ⟨.firing accepts inv done [] :: .run f ctx ((n, prev) :: todo) :: below, w⟩
      (Engine.proceed f n todo below
        (.ok (.obj (TriggerResult.collect done inv.carry).locals) ⟨ctx, w⟩))
  | finished {f : Flow} {ctx : Context} {accepts : Flow → Bool} {inv : Invocation}
    {done : List FlowResult} {rest : List Flow} {below : List Frame} {w : World} :
    Move e ⟨.run f ctx [] :: .firing accepts inv done rest :: below, w⟩
      ⟨.firing accepts { inv with carry := (Engine.finish f ⟨ctx, w⟩).1.carry }
        (done ++ [(Engine.finish f ⟨ctx, w⟩).1]) rest :: below, (Engine.finish f ⟨ctx, w⟩).2⟩
  | skipped {f : Flow} {ctx : Context} {n : Node} {prev : Json} {todo : List (Node × Json)}
    {below : List Frame} {w : World} (idle : ¬ Run.Handles ⟨ctx, w⟩ n) :
    Move e ⟨.run f ctx ((n, prev) :: todo) :: below, w⟩ ⟨.run f ctx todo :: below, w⟩
  | fired {f : Flow} {ctx : Context} {n : Node} {prev : Json} {todo : List (Node × Json)}
    {below : List Frame} {w : World} {trigger : String} (live : Run.Handles ⟨ctx, w⟩ n)
    (fires : e.fired? n prev ctx = some trigger) :
    Move e ⟨.run f ctx ((n, prev) :: todo) :: below, w⟩
      ⟨.firing (Engine.waitsFor .customTrigger "triggerId" trigger)
        { seed := prev, depth := ctx.callDepth + 1 } [] e.game.flows ::
          .run f ctx ((n, prev) :: todo) :: below, w⟩
  | performed {f : Flow} {ctx : Context} {n : Node} {prev : Json} {todo : List (Node × Json)}
    {below : List Frame} {w : World} (live : Run.Handles ⟨ctx, w⟩ n)
    (fires : e.fired? n prev ctx = none) :
    Move e ⟨.run f ctx ((n, prev) :: todo) :: below, w⟩
      (Engine.proceed f n todo below (e.perform e.hostCaller n prev ⟨ctx, w⟩))

namespace Engine
variable {e : Engine} {m m' : Machine}

theorem step_eq_some : e.step m = some m' ↔ e.Move m m' := by
  constructor
  · intro h
    unfold step at h
    split at h
    · split at h <;> cases h
      · exact .started ‹_›
      · exact .passedOver (eq_false_of_ne_true ‹_›)
    · cases h
      exact .returned
    · cases h
      exact .finished
    · split at h
      · split at h <;> cases h
        · exact .fired ‹_› ‹_›
        · exact .performed ‹_› ‹_›
      · cases h
        exact .skipped ‹_›
    · cases h
  · intro h
    cases h <;> simp_all [step]

theorem reaches_step {m m' : Machine} (h : e.Move m m') : e.Reaches m m' :=
  .single (step_eq_some.2 h)

/-! ### The end -/

/-- The machine comes to its end in a state. -/
def Ends (e : Engine) (m final : Machine) : Prop :=
  e.Reaches m final ∧ e.step final = none

/-- From a state from which the machine can come to an end it cannot go on for ever. -/
theorem Ends.acc {final : Machine} (h : e.Ends m final) :
    Acc (fun m' m => e.step m = some m') m := by
  obtain ⟨hreach, hfinal⟩ := h
  induction hreach using Relation.ReflTransGen.head_induction_on with
  | refl => exact ⟨_, fun m' hm' => by rw [hfinal] at hm'; cases hm'⟩
  | head hstep _ ih =>
    refine ⟨_, fun m' hm' => ?_⟩
    rw [hstep] at hm'
    cases hm'
    exact ih

/-- What the machine gets to on its way to the end leads there. -/
theorem Ends.of_reaches {final : Machine} (h : e.Ends m final) (h' : e.Reaches m m') :
    e.Ends m' final := by
  induction h' with
  | refl => exact h
  | tail _ hstep ih =>
    obtain ⟨hreach, hfinal⟩ := ih
    cases hreach using Relation.ReflTransGen.head_induction_on with
    | refl => rw [hfinal] at hstep; cases hstep
    | head hstep' hreach =>
      rw [hstep] at hstep'
      cases hstep'
      exact ⟨hreach, hfinal⟩

theorem Ends.unique {final final' : Machine} (h : e.Ends m final) (h' : e.Ends m final') :
    final = final' := by
  obtain ⟨hreach, -⟩ := h'.of_reaches h.1
  cases hreach using Relation.ReflTransGen.head_induction_on with
  | refl => rfl
  | head hstep => rw [h.2] at hstep; cases hstep

end Engine

end FlowTree
