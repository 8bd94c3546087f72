import FlowTree.Engine.Trigger
import FlowTree.Proofs.Operation

/-!
# Carrying out operations

`Outcome` lists all that carrying out a node's operation can do to a run, with what it has found out
before; `perform_outcome` says that it does nothing else. What holds of each of these outcomes holds
of every node that is handled: one that fails has changed nothing, scripts apart (`perform_error`),
and none touches what the course of the run depends on (`perform_sameCourse`).
-/

namespace FlowTree

/-- The runs agree on what no operation changes: which flow it is, how deep, and whether stopped. -/
structure Run.SameCourse (r r' : Run) : Prop where
  flowId : r'.ctx.flowId = r.ctx.flowId
  stopped : r'.ctx.stopped = r.ctx.stopped
  callDepth : r'.ctx.callDepth = r.ctx.callDepth

namespace Run.SameCourse
variable {r r' r'' : Run}

theorem refl (r : Run) : SameCourse r r := ⟨rfl, rfl, rfl⟩

theorem save (h : SameCourse r r') (n : Node) (v : Json) : SameCourse r (r'.save n v) := by
  unfold Run.save
  split
  · exact ⟨h.flowId, h.stopped, h.callDepth⟩
  · exact h

end Run.SameCourse

namespace Engine
open Operation

theorem reading_run (f : Variables → Except NodeError Json) (r : Run) :
    reading f r = match f r.ctx.vars with
      | .ok v => .ok v r
      | .error err => .error err r := by
  show (liftM (f r.ctx.vars) : Action Json) r = _
  cases f r.ctx.vars <;> rfl

theorem callCustomFlow_run (e : Engine) (call : Caller) (n : Node) (prev : Json) (r : Run) :
    callCustomFlow e call n prev r =
      match idOf n "triggerId" prev r.ctx.vars with
      | .error err => .error err r
      | .ok trigger =>
        if e.maxDepth < r.ctx.callDepth + 1 then
          .error (.validation (.callDepth trigger e.maxDepth)) r
        else match call trigger prev (r.ctx.callDepth + 1) r.world with
          | (.ok locals, w) => .ok (.obj locals) { r with world := w }
          | (.error err, w) => .error err { r with world := w } := by
  simp only [callCustomFlow, Action.bind_run, Action.context_run]
  cases idOf n "triggerId" prev r.ctx.vars with
  | error err => rfl
  | ok trigger =>
    simp only [Action.lift_ok]
    split
    · rfl
    · simp only [Action.get_run, Action.bind_run]
      rcases call trigger prev (r.ctx.callDepth + 1) r.world with ⟨_ | locals, w⟩ <;> rfl

/-- What carrying out the operation of a node on a run can do. -/
inductive Outcome (e : Engine) (call : Caller) (n : Node) (prev : Json) (r : Run) :
    EStateM.Result NodeError Run Json → Prop
  | failed (err : NodeError) : Outcome e call n prev r (.error err r)
  | read (v : Json) : Outcome e call n prev r (.ok v r)
  | drawn (v : Json) (source : RandomSource) (op : n.op = .random) :
    Outcome e call n prev r (.ok v (r.withRandom source))
  | contextualSet (name : String) (v : Json) (op : n.op = .setVariable)
    (scope : n.text? "scope" = some "contextual") (named : n.text? "name" = some name) :
    Outcome e call n prev r (.ok v (r.setContextual name v))
  | localSet (name : String) (v : Json) (op : n.op = .setVariable)
    (scope : n.text? "scope" ≠ some "contextual") (named : n.text? "name" = some name) :
    Outcome e call n prev r (.ok v (r.setLocal name v))
  | assigned (splits : List Split) (rungs : List Float) (s : Split) (op : n.op = .splitTest)
    (given : splitsOf n = .ok (splits, rungs))
    (free : Split.sticky? splits r.ctx.flowId n.slotId r.world.player.hasSegment = none)
    (picked : splits[pickRung rungs (r.world.random.draw 0.0 100.0).1]? = some s) :
    Outcome e call n prev r
      (.ok (.int (pickRung rungs (r.world.random.draw 0.0 100.0).1))
        ((r.withRandom (r.world.random.draw 0.0 100.0).2).moveSegments e "addSegment"
          (Split.stickyKey r.ctx.flowId n.slotId s.slotId)
          (r.world.player.addSegment (Split.stickyKey r.ctx.flowId n.slotId s.slotId))))
  | segmentAdded (id : String) (op : n.op = .segmentAdd)
    (given : idOf n "segmentId" prev r.ctx.vars = .ok id)
    (free : r.world.player.hasSegment id = false) :
    Outcome e call n prev r
      (.ok (.str id) (r.moveSegments e "addSegment" id (r.world.player.addSegment id)))
  | segmentRemoved (id : String) (op : n.op = .segmentRemove)
    (given : idOf n "segmentId" prev r.ctx.vars = .ok id)
    (held : r.world.player.hasSegment id = true) :
    Outcome e call n prev r
      (.ok (.str id) (r.moveSegments e "removeSegment" id (r.world.player.removeSegment id)))
  | statChanged (stat : String) (t : StatTemplate) (input v : Json) (p : Player)
    (op : n.op = .statAdd ∨ n.op = .statSubtract ∨ n.op = .statSet)
    (given : idOf n "statId" prev r.ctx.vars = .ok stat) (declared : e.game.template? stat = some t)
    (edited : statEdit e.locale n.op t stat input r.world.player = .ok (v, p)) :
    Outcome e call n prev r (.ok v ((r.withPlayer p).setContextual stat v))
  | carryChanged (v : Json) (target : ChangeTarget) (carry : Carry) (ws : List Warning)
    (op : n.op = .applyChange) (written : write e.game.catalog target v r.ctx.carry = .ok carry) :
    Outcome e call n prev r (.ok v ((r.warn ws).withCarry carry))
  | carryKept (v : Json) (target : ChangeTarget) (cause : Missing) (ws : List Warning)
    (op : n.op = .applyChange)
    (missing : write e.game.catalog target v r.ctx.carry = .error cause) :
    Outcome e call n prev r (.ok v (r.warn ws))
  | called (trigger : String) (locals : Fields) (w : World) (op : n.op = .callCustomFlow)
    (given : idOf n "triggerId" prev r.ctx.vars = .ok trigger)
    (guard : r.ctx.callDepth + 1 ≤ e.maxDepth)
    (returned : call trigger prev (r.ctx.callDepth + 1) r.world = (.ok locals, w)) :
    Outcome e call n prev r (.ok (.obj locals) { r with world := w })
  | callFailed (trigger : String) (err : NodeError) (w : World) (op : n.op = .callCustomFlow)
    (given : idOf n "triggerId" prev r.ctx.vars = .ok trigger)
    (guard : r.ctx.callDepth + 1 ≤ e.maxDepth)
    (returned : call trigger prev (r.ctx.callDepth + 1) r.world = (.error err, w)) :
    Outcome e call n prev r (.error err { r with world := w })
  | presented (id : String) (op : n.op = .showOffer) :
    Outcome e call n prev r (.ok (.str id) (r.present id))
  | sent (payload : Json) (op : n.op = .sendEvent) :
    Outcome e call n prev r (.ok payload (r.handOver e "sendEvent" payload))
  | scriptRun (v : Json) (sandbox : Script.Sandbox) (ws : List Warning) (op : n.op = .runCode) :
    Outcome e call n prev r (.ok v ((r.withSandbox sandbox).warn ws))
  | scriptFailed (err : NodeError) (sandbox : Script.Sandbox) (ws : List Warning)
    (op : n.op = .runCode) :
    Outcome e call n prev r (.error err ((r.withSandbox sandbox).warn ws))

namespace Outcome
variable {e : Engine} {call : Caller} {n : Node} {prev : Json} {r : Run}

theorem of_reading (f : Variables → Except NodeError Json) :
    Outcome e call n prev r (reading f r) := by
  rw [reading_run]
  split
  · exact .read _
  · exact .failed _

theorem of_random (op : n.op = .random) : Outcome e call n prev r (random e.locale n prev r) := by
  rw [random_run]
  repeat' split
  all_goals first | exact .failed _ | exact .drawn _ _ op

theorem requireText_eq_ok {key name : String} (h : n.requireText key = .ok name) :
    n.text? key = some name := by
  unfold Node.requireText at h
  split at h <;> cases h
  assumption

theorem of_setVariable (op : n.op = .setVariable) :
    Outcome e call n prev r (setVariable e.locale n prev r) := by
  rw [setVariable_run]
  split
  · exact .failed _
  · rename_i name hname
    repeat' split
    all_goals first
      | exact .failed _
      | exact .contextualSet name _ op ‹_› (requireText_eq_ok hname)
      | exact .localSet name _ op ‹_› (requireText_eq_ok hname)

theorem of_splitTest (op : n.op = .splitTest) : Outcome e call n prev r (splitTest e n r) := by
  rw [splitTest_run]
  cases hs : splitsOf n with
  | error err => exact .failed err
  | ok splits =>
    simp only []
    cases hi : Split.sticky? splits.1 r.ctx.flowId n.slotId r.world.player.hasSegment with
    | some i => exact .read _
    | none =>
      -- the draw has been made, but the split that it picks is there
      obtain ⟨s, hp⟩ := getElem?_pickRung hs (r.world.random.draw 0.0 100.0).1
      simp only [hp]
      exact .assigned splits.1 splits.2 s op hs hi hp

theorem of_segmentChange (op : n.op = .segmentAdd ∨ n.op = .segmentRemove) :
    Outcome e call n prev r (segmentChange e n prev r) := by
  rw [segmentChange_run]
  cases hid : idOf n "segmentId" prev r.ctx.vars with
  | error err => exact .failed err
  | ok id =>
    rcases op with op | op <;> simp only [op, segmentEdit] <;>
      cases hheld : r.world.player.hasSegment id
    · exact .segmentAdded id op hid hheld
    · exact .read _
    · exact .read _
    · exact .segmentRemoved id op hid hheld

theorem of_statChange (op : n.op = .statAdd ∨ n.op = .statSubtract ∨ n.op = .statSet) :
    Outcome e call n prev r (statChange e n prev r) := by
  rw [statChange_run]
  repeat' split
  all_goals first
    | exact .failed _
    | exact .statChanged _ _ _ _ _ op ‹_› ‹_› ‹_›

theorem of_applyChange (op : n.op = .applyChange) :
    Outcome e call n prev r (applyChange e n prev r) := by
  rw [applyChange_run]
  repeat' split
  all_goals try exact .failed _
  · exact .carryChanged _ _ _ _ op ‹_›
  · simp only [Run.warn_warn]
    exact .carryKept _ _ _ _ op ‹_›

theorem of_callCustomFlow (op : n.op = .callCustomFlow) :
    Outcome e call n prev r (callCustomFlow e call n prev r) := by
  rw [callCustomFlow_run]
  cases hid : idOf n "triggerId" prev r.ctx.vars with
  | error err => exact .failed err
  | ok trigger =>
    simp only []
    split
    · exact .failed _
    · rename_i hguard
      rcases hc : call trigger prev (r.ctx.callDepth + 1) r.world with ⟨err | locals, w⟩
      · exact .callFailed trigger err w op hid (by omega) hc
      · exact .called trigger locals w op hid (by omega) hc

theorem of_showOffer (op : n.op = .showOffer) :
    Outcome e call n prev r (showOffer e n prev r) := by
  rw [showOffer_run]
  repeat' split
  all_goals first | exact .failed _ | exact .presented _ op

theorem of_sendEvent (op : n.op = .sendEvent) :
    Outcome e call n prev r (sendEvent e n prev r) := by
  rw [sendEvent_run]
  repeat' split
  all_goals first | exact .failed _ | exact .sent _ op

theorem of_runCode (op : n.op = .runCode) : Outcome e call n prev r (runCode e n prev r) := by
  rw [runCode_run]
  repeat' split
  all_goals first | exact .failed _ | exact .scriptRun _ _ _ op | exact .scriptFailed _ _ _ op

end Outcome

theorem perform_outcome (e : Engine) (call : Caller) (n : Node) (prev : Json) (r : Run) :
    Outcome e call n prev r (perform e call n prev r) := by
  cases op : n.op with
  | random => simpa only [perform, op] using .of_random op
  | setVariable => simpa only [perform, op] using .of_setVariable op
  | splitTest => simpa only [perform, op] using .of_splitTest op
  | segmentAdd => simpa only [perform, op] using .of_segmentChange (.inl op)
  | segmentRemove => simpa only [perform, op] using .of_segmentChange (.inr op)
  | statAdd => simpa only [perform, op] using .of_statChange (.inl op)
  | statSubtract => simpa only [perform, op] using .of_statChange (.inr (.inl op))
  | statSet => simpa only [perform, op] using .of_statChange (.inr (.inr op))
  | applyChange => simpa only [perform, op] using .of_applyChange op
  | callCustomFlow => simpa only [perform, op] using .of_callCustomFlow op
  | showOffer => simpa only [perform, op] using .of_showOffer op
  | sendEvent => simpa only [perform, op] using .of_sendEvent op
  | runCode => simpa only [perform, op] using .of_runCode op
  | sequence | sessionStart | customTrigger | offerShown | configParamRetrieved | itemAdded
  | itemRemoved | statChanged | segmentEnter | segmentExit | analyticsEventSend | unknown =>
    simpa only [perform, op] using .read _
  | _ => simpa only [perform, op] using .of_reading _

/-- Only a node that fires a trigger depends on how triggers are fired. -/
theorem perform_congr_call (e : Engine) (call call' : Caller) {n : Node}
    (op : n.op ≠ .callCustomFlow) (prev : Json) :
    perform e call n prev = perform e call' n prev := by
  unfold perform
  split <;> first | rfl | exact absurd ‹_› op

variable {e : Engine} {call : Caller} {n : Node} {prev : Json} {r r' : Run}

/-- An operation that fails has changed nothing, unless it is a script's: that one was counted. -/
theorem perform_error
    (hcall : ∀ trigger seed depth w err w', call trigger seed depth w = (.error err, w') → w' = w)
    (hop : n.op ≠ .runCode) {err : NodeError} (h : perform e call n prev r = .error err r') :
    r' = r := by
  have ho := perform_outcome e call n prev r
  rw [h] at ho
  cases ho with
  | failed => rfl
  | callFailed trigger _ w _ _ _ returned => rw [hcall _ _ _ _ _ _ returned]
  | scriptFailed _ _ _ op => exact absurd op hop

theorem perform_sameCourse (e : Engine) (call : Caller) (n : Node) (prev : Json) (r : Run) :
    r.SameCourse (Action.resultRun (perform e call n prev r)) := by
  have ho := perform_outcome e call n prev r
  generalize perform e call n prev r = result at ho ⊢
  cases ho <;> exact ⟨rfl, rfl, rfl⟩

end Engine

end FlowTree
