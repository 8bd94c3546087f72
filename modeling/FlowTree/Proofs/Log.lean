import FlowTree.Proofs.Lockstep
import FlowTree.Proofs.Machine

/-!
# The log is only written

Nothing that an engine does depends on the log. Runs that start alike but for the log, with callers
that answer alike but for the log, end alike but for the log.
-/

namespace FlowTree

/-! ### Leaving the log out -/

def World.unlogged (w : World) : World :=
  { w with log := [] }

def World.SameButLog (w w' : World) : Prop :=
  w.unlogged = w'.unlogged

namespace Run

def unlogged (r : Run) : Run :=
  { r with world := r.world.unlogged }

@[simp]
theorem unlogged_logFailure (r : Run) (n : Node) (err : NodeError) :
    (r.logFailure n err).unlogged = r.unlogged := rfl

theorem unlogged_eq_iff {r r' : Run} : r.unlogged = r'.unlogged ↔ r.Alike World.SameButLog r' := by
  simp only [unlogged, Run.mk.injEq]
  exact ⟨fun h => ⟨h.1, h.2⟩, fun h => ⟨h.ctx, h.world⟩⟩

end Run

def Machine.unlogged (m : Machine) : Machine :=
  { m with world := m.world.unlogged }

namespace Engine
variable {e : Engine} {call call' : Caller} {r r' : Run}

theorem blindTo_log (e : Engine) : e.BlindTo World.SameButLog := by
  refine e.blindTo_of_bare (fun w w' h => ?_) (fun w w' v h => ?_)
  · exact congrArg (fun w : World => { w with pool := .start 0 0 }) h
  · replace h : w.unlogged = w'.unlogged := h
    have hpool : w.pool = w'.pool := show w.unlogged.pool = w'.unlogged.pool by rw [h]
    simp only [World.SameButLog, World.unlogged, World.under, hpool]

theorem visitAll_unlogged (hcall : call.Alike World.SameButLog call') (ns : List Node) (v : Json)
    (h : r.unlogged = r'.unlogged) :
    (visitAll e call ns v r).unlogged = (visitAll e call' ns v r').unlogged :=
  Run.unlogged_eq_iff.2 (e.blindTo_log.visitAll hcall ns v (Run.unlogged_eq_iff.1 h))

/-! ### Runs and triggers -/

theorem begin_unlogged (f : Flow) (inv : Invocation) {w w' : World} (h : w.unlogged = w'.unlogged) :
    (e.begin f inv w).unlogged = (e.begin f inv w').unlogged := by
  have hbegin (w : World) : (e.begin f inv w).unlogged = e.begin f inv w.unlogged := by
    unfold begin enter World.unlogged
    simp only []
    split <;> rfl
  rw [hbegin, hbegin, h]

theorem finish_unlogged (f : Flow) (h : r.unlogged = r'.unlogged) :
    (finish f r).1 = (finish f r').1 ∧ (finish f r).2.unlogged = (finish f r').2.unlogged := by
  have hfinish (r : Run) :
      ((finish f r).1, (finish f r).2.unlogged) = finish f r.unlogged := rfl
  exact Prod.mk.inj (by rw [hfinish, hfinish, h])

theorem runWith_alike (e : Engine) : Runner.Alike World.SameButLog e.runWith e.runWith := by
  intro call call' hcall f inv w w' h
  have hbegin := Run.unlogged_eq_iff.1 (begin_unlogged (e := e) f inv h)
  have hvisit := e.blindTo_log.visit hcall f.root inv.seed hbegin
  obtain ⟨hresult, hw⟩ := finish_unlogged f (Run.unlogged_eq_iff.2 hvisit)
  exact ⟨hresult, hw⟩

theorem caller_alike (e : Engine) (levels : Nat) :
    (e.caller levels).Alike World.SameButLog (e.caller levels) := by
  rw [← Runner.caller_runWith]
  exact e.runWith_alike.caller e levels

/-! ### The machine -/

theorem hostCaller_alike (e : Engine) : e.hostCaller.Alike World.SameButLog e.hostCaller := by
  intro trigger seed depth w w' h
  unfold hostCaller
  cases e.game.dispatcher <;> exact ⟨rfl, h⟩

theorem run_unlogged (f : Flow) (todo : List (Node × Json)) (below : List Frame)
    (h : r.unlogged = r'.unlogged) :
    Machine.unlogged ⟨.run f r.ctx todo :: below, r.world⟩ =
      Machine.unlogged ⟨.run f r'.ctx todo :: below, r'.world⟩ := by
  obtain ⟨hctx, hw⟩ := Run.unlogged_eq_iff.1 h
  simp only [Machine.unlogged, hctx, show r.world.unlogged = r'.world.unlogged from hw]

theorem proceed_unlogged (e : Engine) {f : Flow} {n : Node} {todo : List (Node × Json)}
    {below : List Frame} {result result' : EStateM.Result NodeError Run Json}
    (h : AlikeResults World.SameButLog result result') :
    (proceed f n todo below result).unlogged = (proceed f n todo below result').unlogged := by
  have hahead : ahead n result = ahead n result' := by cases h <;> rfl
  rw [proceed, proceed, hahead]
  exact run_unlogged f _ below (Run.unlogged_eq_iff.2 (e.blindTo_log.settle n h))

/-- Machines that are alike but for the log make the same steps. -/
theorem Move.unlogged {m m' k : Machine} (h : e.Move m m') (hk : m.unlogged = k.unlogged) :
    ∃ k', e.Move k k' ∧ m'.unlogged = k'.unlogged := by
  obtain ⟨frames, w⟩ := m
  obtain ⟨frames', w'⟩ := k
  obtain ⟨rfl, hw⟩ : frames = frames' ∧ w.unlogged = w'.unlogged := by
    simpa only [Machine.unlogged, Machine.mk.injEq] using hk
  cases h with
  | @started _ inv _ f _ _ _ accepted =>
    refine ⟨_, .started accepted, ?_⟩
    exact run_unlogged f _ _ (begin_unlogged f inv hw)
  | passedOver refused => exact ⟨_, .passedOver refused, by simp only [Machine.unlogged, hw]⟩
  | returned =>
    exact ⟨_, .returned, proceed_unlogged e (.ok _ ⟨rfl, hw⟩)⟩
  | @finished f ctx =>
    have hr : Run.unlogged ⟨ctx, w⟩ = Run.unlogged ⟨ctx, w'⟩ := by simp only [Run.unlogged, hw]
    obtain ⟨hresult, hw⟩ := finish_unlogged f hr
    exact ⟨_, .finished, by simp only [Machine.unlogged, hresult, hw]⟩
  | skipped idle => exact ⟨_, .skipped idle, by simp only [Machine.unlogged, hw]⟩
  | fired live fires => exact ⟨_, .fired live fires, by simp only [Machine.unlogged, hw]⟩
  | performed live fires =>
    refine ⟨_, .performed live fires, proceed_unlogged e ?_⟩
    exact e.blindTo_log.perform_alike (hostCaller_alike e) _ _ ⟨rfl, hw⟩

theorem Ends.unlogged {m k final : Machine} (h : e.Ends m final) (hk : m.unlogged = k.unlogged) :
    ∃ final', e.Ends k final' ∧ final.unlogged = final'.unlogged := by
  obtain ⟨hreach, hfinal⟩ := h
  induction hreach using Relation.ReflTransGen.head_induction_on generalizing k with
  | refl =>
    refine ⟨k, ⟨.refl, Option.eq_none_iff_forall_ne_some.2 fun k' hk' => ?_⟩, hk⟩
    -- what the one can do the other can
    obtain ⟨final', hmove, -⟩ := (step_eq_some.1 hk').unlogged hk.symm
    rw [step_eq_some.2 hmove] at hfinal
    cases hfinal
  | head hstep _ ih =>
    obtain ⟨k', hmove, hk'⟩ := (step_eq_some.1 hstep).unlogged hk
    obtain ⟨final', hends, hfinal'⟩ := ih hk'
    exact ⟨final', ⟨.head (step_eq_some.2 hmove) hends.1, hends.2⟩, hfinal'⟩

end Engine

end FlowTree
