import FlowTree.Proofs.Visit

/-!
# Runs in lockstep

No operation reads the log or the pool, so it does the same in worlds that differ only there
(`perform_under`). If the worlds are alike again afterwards, whole visits on them go in lockstep, and
so does what triggers fire if runs start and end alike.
-/

namespace FlowTree

section
variable (W : World → World → Prop)

/-- The same answer, in worlds alike. -/
structure AlikeAnswers {α : Type} (a a' : α × World) : Prop where
  answer : a.1 = a'.1
  world : W a.2 a'.2

def Caller.Alike (call call' : Caller) : Prop :=
  ∀ trigger seed depth w w', W w w' →
    AlikeAnswers W (call trigger seed depth w) (call' trigger seed depth w')

/-- The same context, in worlds alike. -/
structure Run.Alike (r r' : Run) : Prop where
  ctx : r.ctx = r'.ctx
  world : W r.world r'.world

inductive AlikeResults :
    EStateM.Result NodeError Run Json → EStateM.Result NodeError Run Json → Prop
  | ok (v : Json) {r r' : Run} (h : r.Alike W r') : AlikeResults (.ok v r) (.ok v r')
  | error (err : NodeError) {r r' : Run} (h : r.Alike W r') :
    AlikeResults (.error err r) (.error err r')

/-- No operation can tell worlds that are alike from each other. -/
structure Engine.BlindTo (e : Engine) : Prop where
  warn : ∀ w w' warning, W w w' → W (w.warn warning) (w'.warn warning)
  perform : ∀ call n prev r r', n.op ≠ .callCustomFlow → r.Alike W r' →
    AlikeResults W (e.perform call n prev r) (e.perform call n prev r')

end

variable {W : World → World → Prop}

/-! ### What no operation reads -/

namespace World

def bare (w : World) : World :=
  { w with log := [], pool := .start 0 0 }

/-- The world with a log before its own, and with another pool. -/
def under (w : World) (log : List Warning) (pool : Pool) : World :=
  { w with log := log ++ w.log, pool }

theorem under_bare (w : World) : w.bare.under w.log w.pool = w := by
  simp only [bare, under, List.append_nil]

end World

def Run.under (r : Run) (log : List Warning) (pool : Pool) : Run :=
  { r with world := r.world.under log pool }

def underResult (log : List Warning) (pool : Pool) :
    EStateM.Result NodeError Run Json → EStateM.Result NodeError Run Json
  | .ok v r => .ok v (r.under log pool)
  | .error err r => .error err (r.under log pool)

namespace Engine
open Operation

/-- What an operation writes to the log does not depend on what is there, and it leaves the pool
alone. -/
theorem perform_under (e : Engine) (call : Caller) {n : Node} (op : n.op ≠ .callCustomFlow)
    (prev : Json) (r : Run) (log : List Warning) (pool : Pool) :
    perform e call n prev (r.under log pool) = underResult log pool (perform e call n prev r) := by
  -- every operation decides from what it reads
  cases op' : n.op
  all_goals simp only [perform, op', reading_run, random_run, setVariable_run, splitTest_run,
    segmentChange_run, statChange_run, applyChange_run, showOffer_run, sendEvent_run, runCode_run,
    Run.under, World.under, Run.warn, Run.withSandbox, List.append_assoc]
  all_goals repeat' split
  all_goals first | rfl | exact absurd op' op

theorem blindTo_of_bare (e : Engine) (hbare : ∀ w w', W w w' → w.bare = w'.bare)
    (hunder : ∀ w w' (v : World), W w w' → W (v.under w.log w.pool) (v.under w'.log w'.pool)) :
    e.BlindTo W where
  warn w w' warning h := by
    have hwarn (w : World) :
        w.warn warning = { w.bare with log := [warning] }.under w.log w.pool := rfl
    rw [hwarn w, hwarn w', hbare w w' h]
    exact hunder w w' _ h
  perform call n prev r r' op h := by
    obtain ⟨ctx, w⟩ := r
    obtain ⟨ctx', w'⟩ := r'
    obtain rfl : ctx = ctx' := h.ctx
    replace h : W w w' := h.world
    have hrun : Run.mk ctx w = (Run.mk ctx w.bare).under w.log w.pool := by
      rw [Run.under, w.under_bare]
    have hrun' : Run.mk ctx w' = (Run.mk ctx w.bare).under w'.log w'.pool := by
      rw [Run.under, hbare w w' h, w'.under_bare]
    rw [hrun, hrun', perform_under e call op, perform_under e call op]
    cases perform e call n prev ⟨ctx, w.bare⟩ with
    | ok v r => exact .ok v ⟨rfl, hunder w w' _ h⟩
    | error err r => exact .error err ⟨rfl, hunder w w' _ h⟩

end Engine

/-! ### Visits -/

namespace Run.Alike
variable {r r' : Run}

theorem handles (h : r.Alike W r') (n : Node) : r.Handles n ↔ r'.Handles n := by
  rw [Handles, Handles, h.ctx]

theorem conclude (h : r.Alike W r') (n : Node) (v : Json) :
    (r.conclude n v).Alike W (r'.conclude n v) where
  ctx := by
    obtain ⟨ctx, w⟩ := r
    obtain ⟨ctx', w'⟩ := r'
    obtain rfl : ctx = ctx' := h.ctx
    unfold Run.conclude save stop
    split <;> split <;> rfl
  world := by
    rw [conclude_world, conclude_world]
    exact h.world

theorem logFailure {e : Engine} (he : e.BlindTo W) (h : r.Alike W r') (n : Node)
    (err : NodeError) : (r.logFailure n err).Alike W (r'.logFailure n err) where
  ctx := h.ctx
  world := by
    unfold Run.logFailure
    rw [h.ctx]
    exact he.warn _ _ _ h.world

end Run.Alike

namespace Engine
open Operation
variable {e : Engine} {call call' : Caller} {r r' : Run}

theorem callCustomFlow_alike (hcall : call.Alike W call') (n : Node) (prev : Json)
    (h : r.Alike W r') :
    AlikeResults W (callCustomFlow e call n prev r) (callCustomFlow e call' n prev r') := by
  rw [callCustomFlow_run, callCustomFlow_run, h.ctx]
  cases idOf n "triggerId" prev r'.ctx.vars with
  | error err => exact .error err h
  | ok trigger =>
    simp only
    split
    · exact .error _ h
    · obtain ⟨hanswer, hworld⟩ :=
        hcall trigger prev (r'.ctx.callDepth + 1) r.world r'.world h.world
      generalize call trigger prev (r'.ctx.callDepth + 1) r.world = a at hanswer hworld
      generalize call' trigger prev (r'.ctx.callDepth + 1) r'.world = a' at hanswer hworld
      obtain ⟨answer, w⟩ := a
      obtain ⟨answer', w'⟩ := a'
      obtain rfl : answer = answer' := hanswer
      cases answer with
      | error err => exact .error err ⟨rfl, hworld⟩
      | ok locals => exact .ok _ ⟨rfl, hworld⟩

namespace BlindTo

theorem perform_alike (he : e.BlindTo W) (hcall : call.Alike W call') (n : Node) (prev : Json)
    (h : r.Alike W r') :
    AlikeResults W (e.perform call n prev r) (e.perform call' n prev r') := by
  by_cases op : n.op = .callCustomFlow
  · simpa only [Engine.perform, op] using callCustomFlow_alike hcall n prev h
  · rw [perform_congr_call e call' call op]
    exact he.perform call n prev r r' op h

theorem settle (he : e.BlindTo W) (n : Node) {result result' : EStateM.Result NodeError Run Json}
    (h : AlikeResults W result result') :
    (Run.settle n result).Alike W (Run.settle n result') := by
  cases h with
  | ok v h => exact h.conclude n v
  | error err h => exact h.logFailure he n err

theorem visitAll_of_mem {ns : List Node} (v : Json)
    (hns : ∀ n ∈ ns, ∀ r r' : Run, r.Alike W r' →
      (e.visit call n v r).Alike W (e.visit call' n v r'))
    (h : r.Alike W r') : (e.visitAll call ns v r).Alike W (e.visitAll call' ns v r') := by
  induction ns generalizing r r' with
  | nil => exact h
  | cons n ns ih =>
    rw [Engine.visitAll, Engine.visitAll]
    refine ih (fun m hm => hns m (List.mem_cons_of_mem n hm)) ?_
    exact hns n List.mem_cons_self r r' h

theorem visit (he : e.BlindTo W) (hcall : call.Alike W call') (n : Node) (prev : Json)
    (h : r.Alike W r') : (e.visit call n prev r).Alike W (e.visit call' n prev r') := by
  induction n using Node.induct generalizing prev r r' with
  | h n ih =>
    by_cases hn : r.Handles n
    · have hn' := (h.handles n).1 hn
      have hresults := he.perform_alike hcall n prev h
      cases hp : e.perform call n prev r with
      | ok v s =>
        rw [hp] at hresults
        obtain ⟨s', hp', hs⟩ : ∃ s', e.perform call' n prev r' = .ok v s' ∧ s.Alike W s' := by
          generalize e.perform call' n prev r' = result' at hresults
          cases hresults with
          | ok _ hs => exact ⟨_, rfl, hs⟩
        rw [visit_of_ok hn hp, visit_of_ok hn' hp']
        refine visitAll_of_mem v (fun c hc r r' h => ?_) (hs.conclude n v)
        exact ih c (Node.mem_children_of_selected hc) v h
      | error err s =>
        rw [hp] at hresults
        obtain ⟨s', hp', hs⟩ : ∃ s', e.perform call' n prev r' = .error err s' ∧ s.Alike W s' := by
          generalize e.perform call' n prev r' = result' at hresults
          cases hresults with
          | error _ hs => exact ⟨_, rfl, hs⟩
        rw [visit_of_error hn hp, visit_of_error hn' hp']
        exact hs.logFailure he n err
    · rw [visit_of_not_handles hn, visit_of_not_handles (mt (h.handles n).2 hn)]
      exact h

theorem visitAll (he : e.BlindTo W) (hcall : call.Alike W call') (ns : List Node) (v : Json)
    (h : r.Alike W r') : (e.visitAll call ns v r).Alike W (e.visitAll call' ns v r') :=
  visitAll_of_mem v (fun n _ _ _ h => he.visit hcall n v h) h

end BlindTo

end Engine

/-! ### Triggers -/

/-- How single flows are run. -/
abbrev Runner := Caller → Flow → Invocation → World → FlowResult × World

namespace Runner

/-- Has the flows of a list that satisfy `accepts` run, one after the other. -/
def fireWith (run : Runner) (call : Caller) (accepts : Flow → Bool) (inv : Invocation) :
    List Flow → World → TriggerResult × World
  | [], w => ({ flowsRun := [], locals := [], carry := inv.carry }, w)
  | f :: fs, w =>
    if accepts f then
      let (first, w) := run call f inv w
      let (rest, w) := fireWith run call accepts { inv with carry := first.carry } fs w
      ({ flowsRun := first.flowId :: rest.flowsRun
         locals := Fields.merge first.locals rest.locals
         carry := rest.carry }, w)
    else fireWith run call accepts inv fs w

/-- Fires custom triggers as the engine does. -/
def caller (run : Runner) (e : Engine) : Nat → Caller
  | 0, trigger, _, _, w => (.error (.validation (.callDepth trigger e.maxDepth)), w)
  | levels + 1, trigger, seed, depth, w =>
    match e.game.dispatcher with
    | some dispatch => (dispatch trigger seed depth, w)
    | none =>
      let (result, w) := run.fireWith (caller run e levels)
        (Engine.waitsFor .customTrigger "triggerId" trigger) { seed, depth } e.game.flows w
      (.ok result.locals, w)

/-- Runs a flow as the engine does. -/
def execute (run : Runner) (e : Engine) (f : Flow) (inv : Invocation) (w : World) :
    FlowResult × World :=
  run (run.caller e (e.maxDepth - inv.depth)) f inv w

def fire (run : Runner) (e : Engine) (accepts : Flow → Bool) (inv : Invocation) (w : World) :
    TriggerResult × World :=
  run.fireWith (run.caller e (e.maxDepth - inv.depth)) accepts inv e.game.flows w

theorem fireWith_runWith (e : Engine) (call : Caller) (accepts : Flow → Bool) (inv : Invocation)
    (fs : List Flow) (w : World) :
    fireWith e.runWith call accepts inv fs w = e.fireWith call accepts inv fs w := by
  induction fs generalizing inv w with
  | nil => rfl
  | cons f fs ih => simp only [fireWith, Engine.fireWith, ih]

theorem caller_runWith (e : Engine) (levels : Nat) :
    caller e.runWith e levels = e.caller levels := by
  induction levels with
  | zero => rfl
  | succ levels ih =>
    funext trigger seed depth w
    cases hd : e.game.dispatcher with
    | some dispatch => simp only [caller, Engine.caller, hd]
    | none => simp only [caller, Engine.caller, hd, ih, fireWith_runWith]

theorem execute_runWith (e : Engine) (f : Flow) (inv : Invocation) (w : World) :
    execute e.runWith e f inv w = e.execute f inv w := by
  rw [execute, caller_runWith]
  rfl

theorem fire_runWith (e : Engine) (accepts : Flow → Bool) (inv : Invocation) (w : World) :
    fire e.runWith e accepts inv w = e.fire accepts inv w := by
  rw [fire, caller_runWith, fireWith_runWith]
  rfl

/-- Runs are alike whenever their callers are. -/
def Alike (W : World → World → Prop) (run run' : Runner) : Prop :=
  ∀ call call', call.Alike W call' → ∀ f inv w w', W w w' →
    AlikeAnswers W (run call f inv w) (run' call' f inv w')

namespace Alike
variable {run run' : Runner} {call call' : Caller}

theorem fireWith (hrun : run.Alike W run') (hcall : call.Alike W call') (accepts : Flow → Bool)
    (inv : Invocation) (fs : List Flow) {w w' : World} (h : W w w') :
    AlikeAnswers W (run.fireWith call accepts inv fs w) (run'.fireWith call' accepts inv fs w') := by
  induction fs generalizing inv w w' with
  | nil => exact ⟨rfl, h⟩
  | cons f fs ih =>
    simp only [Runner.fireWith]
    split
    · obtain ⟨hfirst, hw⟩ := hrun call call' hcall f inv w w' h
      obtain ⟨hrest, hw⟩ := ih { inv with carry := (run call f inv w).1.carry } hw
      rw [hfirst] at hrest hw ⊢
      exact ⟨by rw [hrest], hw⟩
    · exact ih inv h

theorem caller (hrun : run.Alike W run') (e : Engine) (levels : Nat) :
    Caller.Alike W (run.caller e levels) (run'.caller e levels) := by
  induction levels with
  | zero => exact fun trigger seed depth w w' h => ⟨rfl, h⟩
  | succ levels ih =>
    intro trigger seed depth w w' h
    simp only [Runner.caller]
    cases e.game.dispatcher with
    | some dispatch => exact ⟨rfl, h⟩
    | none =>
      obtain ⟨hresult, hw⟩ := hrun.fireWith ih (Engine.waitsFor .customTrigger "triggerId" trigger)
        { seed, depth } e.game.flows h
      exact ⟨by simp only [hresult], hw⟩

theorem execute (hrun : run.Alike W run') (e : Engine) (f : Flow) (inv : Invocation)
    {w w' : World} (h : W w w') :
    AlikeAnswers W (run.execute e f inv w) (run'.execute e f inv w') :=
  hrun _ _ (hrun.caller e _) f inv w w' h

theorem fire (hrun : run.Alike W run') (e : Engine) (accepts : Flow → Bool) (inv : Invocation)
    {w w' : World} (h : W w w') :
    AlikeAnswers W (run.fire e accepts inv w) (run'.fire e accepts inv w') :=
  hrun.fireWith (hrun.caller e _) accepts inv e.game.flows h

end Alike

end Runner

end FlowTree
