import FlowTree.Proofs.Trace

/-!
# Invariants of the world

What each node by itself, the start and the end of a run keep of the world is kept by whole runs and
by all that triggers fire, the flows of custom triggers included.
-/

namespace FlowTree

/-- The world that a trigger leaves satisfies what the world before does. -/
def Caller.Keeps (I : World → Prop) (call : Caller) : Prop :=
  ∀ trigger seed depth w, I w → I (call trigger seed depth w).2

namespace Engine

/-- What is kept by the nodes that fire no triggers and around runs. -/
structure Keeps (e : Engine) (I : World → Prop) : Prop where
  warn : ∀ w warning, I w → I (w.warn warning)
  after : ∀ call (s : Step), s.node.op ≠ .callCustomFlow → I s.run.world → I (s.after e call).world
  begin : ∀ f inv w, I w → I (e.begin f inv w).world
  finish : ∀ f r, I r.world → I (finish f r).2

namespace Keeps
variable {e : Engine} {I : World → Prop} {call : Caller}

/-- A node that fires a trigger changes the world as the trigger does. -/
theorem of_outcome (hcall : call.Keeps I) {n : Node} {prev : Json} {r : Run}
    {result : EStateM.Result NodeError Run Json} (ho : Outcome e call n prev r result)
    (op : n.op = .callCustomFlow) (hr : I r.world) : I (Action.resultRun result).world := by
  cases ho with
  | failed | read => exact hr
  | called trigger locals w _ _ _ returned =>
    have hw := hcall trigger prev (r.ctx.callDepth + 1) r.world hr
    rwa [returned] at hw
  | callFailed trigger err w _ _ _ returned =>
    have hw := hcall trigger prev (r.ctx.callDepth + 1) r.world hr
    rwa [returned] at hw
  | _ => simp_all

theorem after_of_caller (h : e.Keeps I) (hcall : call.Keeps I) (s : Step) (hs : I s.run.world) :
    I (s.after e call).world := by
  by_cases op : s.node.op = .callCustomFlow
  · have hresult := of_outcome hcall (perform_outcome e call s.node s.prev s.run) op hs
    rw [Step.after, Step.outcome]
    cases hp : e.perform call s.node s.prev s.run with
    | ok v r =>
      rw [hp] at hresult
      rw [Run.settle, Run.conclude_world]
      exact hresult
    | error err r =>
      rw [hp] at hresult
      exact h.warn _ _ hresult
  · exact h.after call s op hs

theorem visit (h : e.Keeps I) (hcall : call.Keeps I) (n : Node) (prev : Json) (r : Run)
    (hr : I r.world) : I (e.visit call n prev r).world :=
  (linked_steps n prev r).keeps (P := fun r => I r.world)
    (fun s _ hs => h.after_of_caller hcall s hs) hr

theorem runWith (h : e.Keeps I) (hcall : call.Keeps I) (f : Flow) (inv : Invocation) {w : World}
    (hw : I w) : I (e.runWith call f inv w).2 :=
  h.finish f _ (h.visit hcall f.root inv.seed _ (h.begin f inv w hw))

theorem fireWith (h : e.Keeps I) (hcall : call.Keeps I) (accepts : Flow → Bool) (inv : Invocation)
    (fs : List Flow) {w : World} (hw : I w) : I (e.fireWith call accepts inv fs w).2 := by
  induction fs generalizing inv w with
  | nil => exact hw
  | cons f fs ih =>
    rw [Engine.fireWith]
    split
    · exact ih _ (h.runWith hcall f inv hw)
    · exact ih inv hw

theorem caller (h : e.Keeps I) (levels : Nat) : (e.caller levels).Keeps I := by
  induction levels with
  | zero => exact fun trigger seed depth w hw => hw
  | succ levels ih =>
    intro trigger seed depth w hw
    rw [Engine.caller]
    split
    · exact hw
    · exact h.fireWith ih _ _ _ hw

/-- What is kept around single nodes is kept by runs. -/
theorem execute (h : e.Keeps I) (f : Flow) (inv : Invocation) {w : World} (hw : I w) :
    I (e.execute f inv w).2 :=
  h.runWith (h.caller _) f inv hw

theorem fire (h : e.Keeps I) (accepts : Flow → Bool) (inv : Invocation) {w : World} (hw : I w) :
    I (e.fire accepts inv w).2 :=
  h.fireWith (h.caller _) accepts inv _ hw

end Keeps

end Engine

end FlowTree
