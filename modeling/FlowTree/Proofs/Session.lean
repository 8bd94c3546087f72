import FlowTree.Proofs.Machine

/-!
# Sessions

A host runs flows and fires triggers, one after the other, and in between has the backend take what
was handed over to it. What single nodes, the start and the end of a run keep of the world holds all
the time that a session lasts, in the middle of a run as well.
-/

namespace FlowTree

/-! ### Invariants step by step -/

namespace Engine.Keeps
variable {e : Engine} {I : World → Prop} {m m' : Machine}

theorem hostCaller (e : Engine) (I : World → Prop) : e.hostCaller.Keeps I := by
  intro trigger seed depth w hw
  unfold Engine.hostCaller
  split <;> exact hw

theorem move (h : e.Keeps I) (hmove : e.Move m m') (hm : I m.world) : I m'.world := by
  cases hmove with
  | @started _ inv _ f _ _ w => exact h.begin f inv w hm
  | passedOver => exact hm
  | @returned _ inv done f ctx n prev todo below w =>
    simp only [proceed, Run.settle, Run.conclude_world]
    exact hm
  | @finished f ctx _ _ _ _ _ w => exact h.finish f ⟨ctx, w⟩ hm
  | skipped => exact hm
  | fired => exact hm
  | @performed f ctx n prev todo below w =>
    exact h.after_of_caller (hostCaller e I) ⟨[], n, prev, ⟨ctx, w⟩⟩ hm

/-- What is kept around single nodes is kept step by step. -/
theorem reaches (h : e.Keeps I) (hreach : e.Reaches m m') (hm : I m.world) : I m'.world := by
  induction hreach with
  | refl => exact hm
  | tail _ hstep ih => exact h.move (step_eq_some.1 hstep) ih

end Engine.Keeps

/-! ### What a host does -/

inductive HostAct
  | execute (e : Engine) (f : Flow) (inv : Invocation)
  | fire (e : Engine) (accepts : Flow → Bool) (inv : Invocation)
  /-- The backend takes what was handed over, or rejects it. -/
  | deliver (backend : Backend)

def HostAct.play : HostAct → World → World
  | execute e f inv, w => (e.execute f inv w).2
  | fire e accepts inv, w => (e.fire accepts inv w).2
  | deliver backend, w => w.deliver backend

/-- The world after all that a host has done, in this order. -/
def playAll (acts : List HostAct) (w : World) : World :=
  acts.foldl (fun w act => act.play w) w

theorem playAll_cons (act : HostAct) (acts : List HostAct) (w : World) :
    playAll (act :: acts) w = playAll acts (act.play w) := rfl

namespace World

/-- All that was handed over to the backend, in its order, delivered or not. -/
def handed (w : World) : List BackendAction :=
  w.delivered ++ w.outbox.map Handover.action

theorem send_foldl (backend : Backend) (hs : List Handover) (w : World) :
    (hs.foldl (send backend) w).player = w.player ∧
      (hs.foldl (send backend) w).outbox = w.outbox ∧
      (hs.foldl (send backend) w).delivered = w.delivered ++ hs.map Handover.action := by
  induction hs generalizing w with
  | nil => simp
  | cons h hs ih =>
    have hsend : (send backend w h).player = w.player ∧ (send backend w h).outbox = w.outbox ∧
        (send backend w h).delivered = w.delivered ++ [h.action] := by
      unfold send
      simp only []
      split <;> exact ⟨rfl, rfl, rfl⟩
    obtain ⟨hplayer, houtbox, hdelivered⟩ := ih (send backend w h)
    rw [hsend.1] at hplayer
    rw [hsend.2.1] at houtbox
    rw [hsend.2.2] at hdelivered
    exact ⟨hplayer, houtbox, by rw [List.foldl_cons, hdelivered]; simp⟩

theorem player_deliver (backend : Backend) (w : World) :
    (w.deliver backend).player = w.player :=
  (send_foldl backend w.outbox { w with outbox := [] }).1

/-- It makes no difference when a delivery takes what was handed over. -/
theorem delivered_deliver (backend : Backend) (w : World) :
    (w.deliver backend).delivered = w.handed :=
  (send_foldl backend w.outbox { w with outbox := [] }).2.2

theorem handed_deliver (backend : Backend) (w : World) : (w.deliver backend).handed = w.handed := by
  have houtbox : (w.deliver backend).outbox = [] :=
    (send_foldl backend w.outbox { w with outbox := [] }).2.1
  rw [handed, delivered_deliver, houtbox, List.map_nil, List.append_nil]

end World

/-- What engines and deliveries keep holds after every session. -/
theorem playAll_keeps {I : World → Prop} (hkeeps : ∀ e : Engine, e.Keeps I)
    (hdeliver : ∀ backend w, I w → I (w.deliver backend)) (acts : List HostAct) {w : World}
    (hw : I w) : I (playAll acts w) := by
  induction acts generalizing w with
  | nil => exact hw
  | cons act acts ih =>
    rw [playAll_cons]
    refine ih ?_
    cases act with
    | execute e f inv => exact (hkeeps e).execute f inv hw
    | fire e accepts inv => exact (hkeeps e).fire accepts inv hw
    | deliver backend => exact hdeliver backend w hw

end FlowTree
