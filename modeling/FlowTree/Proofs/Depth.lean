import FlowTree.Engine.Event
import FlowTree.Proofs.Termination

/-!
# Depths decide nothing else

How deep a run is decides whether its nodes may fire triggers, and nothing else. So where no node is
refused for its depth, the machine takes the same steps at each smaller depth and with each higher
limit. The same holds of the visits of an engine that has a host fire its triggers, whatever the host
does to the world, as long as it does not look at the depth.
-/

namespace FlowTree

/-! ### Deeper runs -/

def Context.deeper (k : Nat) (c : Context) : Context :=
  { c with callDepth := c.callDepth + k }

def Run.deeper (k : Nat) (r : Run) : Run :=
  { r with ctx := r.ctx.deeper k }

namespace Run
variable (k : Nat) (r : Run)

theorem deeper_flowId : (r.deeper k).ctx.flowId = r.ctx.flowId := rfl

theorem deeper_vars : (r.deeper k).ctx.vars = r.ctx.vars := rfl

theorem deeper_carry : (r.deeper k).ctx.carry = r.ctx.carry := rfl

theorem deeper_world : (r.deeper k).world = r.world := rfl

end Run

theorem Operation.eventData_deeper (k : Nat) (n : Node) (prev : Json) (r : Run) :
    eventData n prev (r.deeper k).ctx = eventData n prev r.ctx := rfl

def deeperResult (k : Nat) :
    EStateM.Result NodeError Run Json → EStateM.Result NodeError Run Json
  | .ok v r => .ok v (r.deeper k)
  | .error err r => .error err (r.deeper k)

theorem deeperResult_eq_ok {k : Nat} {result : EStateM.Result NodeError Run Json} {v : Json}
    {rd : Run} (h : .ok v rd = deeperResult k result) :
    ∃ r, result = .ok v r ∧ rd = r.deeper k := by
  cases result with
  | ok v' r =>
    cases h
    exact ⟨r, rfl, rfl⟩
  | error err r => cases h

theorem deeperResult_eq_error {k : Nat} {result : EStateM.Result NodeError Run Json}
    {err : NodeError} {rd : Run} (h : .error err rd = deeperResult k result) :
    ∃ r, result = .error err r ∧ rd = r.deeper k := by
  cases result with
  | ok v r => cases h
  | error err' r =>
    cases h
    exact ⟨r, rfl, rfl⟩

def Invocation.deeper (k : Nat) (inv : Invocation) : Invocation :=
  { inv with depth := inv.depth + k }

def Frame.deeper (k : Nat) : Frame → Frame
  | .run f ctx todo => .run f (ctx.deeper k) todo
  | .firing accepts inv done rest => .firing accepts (inv.deeper k) done rest

def Machine.deeper (k : Nat) (m : Machine) : Machine :=
  ⟨m.frames.map (·.deeper k), m.world⟩

/-! ### The limit -/

namespace Engine
open Operation

/-- The engine with another limit to the depth of calls. -/
def allowing (e : Engine) (max : UInt32) : Engine :=
  { e with settings := { e.settings with maxCallDepth := max } }

theorem allowing_self (e : Engine) : e.allowing e.settings.maxCallDepth = e := rfl

/-- The node has a trigger to fire and is refused for the depth of its run. -/
def Refused (e : Engine) (n : Node) (prev : Json) (ctx : Context) : Prop :=
  n.op = .callCustomFlow ∧ (idOf n "triggerId" prev ctx.vars).isOk = true ∧
    e.maxDepth < ctx.callDepth + 1

instance (e : Engine) (n : Node) (prev : Json) (ctx : Context) :
    Decidable (e.Refused n prev ctx) :=
  inferInstanceAs (Decidable (_ ∧ _ ∧ _))

/-- The next node of the machine is refused for its depth. -/
def Refuses (e : Engine) : Machine → Prop
  | ⟨.run _ ctx ((n, prev) :: _) :: _, w⟩ => Run.Handles ⟨ctx, w⟩ n ∧ e.Refused n prev ctx
  | _ => False

instance (e : Engine) : DecidablePred e.Refuses
  | ⟨.run _ _ ((_, _) :: _) :: _, _⟩ => inferInstanceAs (Decidable (_ ∧ _))
  | ⟨.run _ _ [] :: _, _⟩ | ⟨.firing .. :: _, _⟩ | ⟨[], _⟩ => inferInstanceAs (Decidable False)

/-- From a state on, no node is refused for its depth. -/
def Unhindered (e : Engine) (m : Machine) : Prop :=
  ∀ m', e.Reaches m m' → ¬ e.Refuses m'

/-- Whether the machine ends within so many steps, with no node refused on its way. -/
def endsFreely (e : Engine) : Nat → Machine → Bool
  | 0, _ => false
  | fuel + 1, m => !decide (e.Refuses m) && match e.step m with
    | none => true
    | some m' => e.endsFreely fuel m'

variable {e e' : Engine} {call call' : Caller} {max : UInt32} {k : Nat}

theorem unhindered_of_endsFreely (fuel : Nat) {m : Machine} (h : e.endsFreely fuel m = true) :
    e.Unhindered m := by
  induction fuel generalizing m with
  | zero => cases h
  | succ fuel ih =>
    rw [endsFreely, Bool.and_eq_true, Bool.not_eq_true', decide_eq_false_iff_not] at h
    intro m' hreach
    cases hreach using Relation.ReflTransGen.head_induction_on with
    | refl => exact h.1
    | head hstep hreach =>
      rw [hstep] at h
      exact ih h.2 m' hreach

theorem maxDepth_le_allowing (h : e.settings.maxCallDepth ≤ max) :
    e.maxDepth ≤ (e.allowing max).maxDepth :=
  UInt32.le_iff_toNat_le.1 h

theorem callDepth_lt_of_not_refused {n : Node} {prev : Json} {ctx : Context} {trigger : String}
    (h : ¬ e.Refused n prev ctx) (op : n.op = .callCustomFlow)
    (given : idOf n "triggerId" prev ctx.vars = .ok trigger) : ctx.callDepth < e.maxDepth :=
  Nat.lt_of_not_le fun guard => h ⟨op, congrArg Except.isOk given, Nat.lt_succ_of_le guard⟩

/-! ### Operations -/

theorem runCode_allowing (e : Engine) (max : UInt32) (n : Node) (prev : Json) :
    runCode (e.allowing max) n prev = runCode e n prev := by
  have hlimits : (e.allowing max).limits = e.limits := rfl
  have htiming : (e.allowing max).timing = e.timing := rfl
  have hevaluator : (e.allowing max).evaluator = e.evaluator := rfl
  have hbudget : budgetOf (e.allowing max) n = budgetOf e n := rfl
  funext r
  rw [runCode_run, runCode_run, hlimits, htiming, hevaluator, hbudget]

theorem perform_allowing (e : Engine) (max : UInt32) (call : Caller) {n : Node}
    (op : n.op ≠ .callCustomFlow) (prev : Json) :
    perform (e.allowing max) call n prev = perform e call n prev := by
  unfold perform
  split <;> first | exact absurd ‹_› op | exact runCode_allowing e max n prev | rfl

/-- Only a node that fires a trigger depends on how deep its run is. -/
theorem perform_deeper (e : Engine) (call : Caller) {n : Node} (op : n.op ≠ .callCustomFlow)
    (prev : Json) (r : Run) (k : Nat) :
    perform e call n prev (r.deeper k) = deeperResult k (perform e call n prev r) := by
  -- every operation decides from what it reads, and that is not the depth
  cases op' : n.op
  all_goals simp only [perform, op', reading_run, random_run, setVariable_run, splitTest_run,
    segmentChange_run, statChange_run, applyChange_run, showOffer_run, sendEvent_run, runCode_run,
    Run.deeper_flowId, Run.deeper_vars, Run.deeper_carry, Run.deeper_world, eventData_deeper]
  all_goals repeat' split
  all_goals first | rfl | exact absurd op' op

/-- A node that is not refused does the same further up and with a higher limit, if the trigger that
it may have to fire does. -/
theorem perform_of_not_refused (hmax : e.settings.maxCallDepth ≤ max) {n : Node} {prev : Json}
    {r : Run} (h : ¬ e.Refused n prev (r.ctx.deeper k))
    (hcall : n.op = .callCustomFlow → ∀ trigger,
      idOf n "triggerId" prev r.ctx.vars = .ok trigger →
        call trigger prev (r.ctx.callDepth + k + 1) r.world =
          call' trigger prev (r.ctx.callDepth + 1) r.world) :
    e.perform call n prev (r.deeper k) =
      deeperResult k ((e.allowing max).perform call' n prev r) := by
  by_cases op : n.op = .callCustomFlow
  · simp only [perform, op, callCustomFlow_run, Run.deeper_vars, Run.deeper_world]
    cases hid : idOf n "triggerId" prev r.ctx.vars with
    | error err => rfl
    | ok trigger =>
      have hdeep : r.ctx.callDepth + k < e.maxDepth := callDepth_lt_of_not_refused h op hid
      have hle := maxDepth_le_allowing hmax
      have hguard : ¬ e.maxDepth < (r.deeper k).ctx.callDepth + 1 := Nat.not_lt.2 hdeep
      have hguard' : ¬ (e.allowing max).maxDepth < r.ctx.callDepth + 1 := by omega
      have hanswer : call trigger prev ((r.deeper k).ctx.callDepth + 1) r.world =
          call' trigger prev (r.ctx.callDepth + 1) r.world := hcall op trigger hid
      simp only [if_neg hguard, if_neg hguard', hanswer]
      rcases call' trigger prev (r.ctx.callDepth + 1) r.world with ⟨_ | locals, w⟩ <;> rfl
  · rw [perform_deeper e _ op, perform_allowing e max _ op, perform_congr_call e call call' op]

/-! ### The machine -/

theorem fired?_deeper (hmax : e.settings.maxCallDepth ≤ max) {n : Node} {prev : Json}
    {ctx : Context} (h : ¬ e.Refused n prev (ctx.deeper k)) :
    e.fired? n prev (ctx.deeper k) = (e.allowing max).fired? n prev ctx := by
  cases hid : idOf n "triggerId" prev ctx.vars with
  | error err =>
    have hid' : idOf n "triggerId" prev (ctx.deeper k).vars = .error err := hid
    simp only [fired?, hid, hid', Except.toOption, ite_self]
  | ok trigger =>
    have hle := maxDepth_le_allowing hmax
    refine ite_congr (propext (and_congr_right fun op => and_congr_right fun _ => ?_))
      (fun _ => rfl) (fun _ => rfl)
    have hdeep : ctx.callDepth + k < e.maxDepth := callDepth_lt_of_not_refused h op hid
    show ctx.callDepth + k + 1 ≤ e.maxDepth ↔ ctx.callDepth + 1 ≤ (e.allowing max).maxDepth
    omega

theorem settle_deeper (n : Node) (result : EStateM.Result NodeError Run Json) :
    Run.settle n (deeperResult k result) = (Run.settle n result).deeper k := by
  cases result with
  | error err r => rfl
  | ok v r =>
    show (r.deeper k).conclude n v = (r.conclude n v).deeper k
    unfold Run.conclude Run.save
    repeat' split
    all_goals rfl

theorem proceed_deeper (f : Flow) (n : Node) (todo : List (Node × Json)) (below : List Frame)
    (result : EStateM.Result NodeError Run Json) :
    proceed f n todo (below.map (·.deeper k)) (deeperResult k result) =
      (proceed f n todo below result).deeper k := by
  have hahead : ahead n (deeperResult k result) = ahead n result := by cases result <;> rfl
  rw [proceed, hahead, settle_deeper]
  rfl

/-- The machine does the same at a greater depth unless a node is refused for it. -/
theorem Move.deeper {m m' : Machine} (h : (e.allowing max).Move m m')
    (hd : e.game.dispatcher = none) (hmax : e.settings.maxCallDepth ≤ max)
    (hfree : ¬ e.Refuses (m.deeper k)) : e.Move (m.deeper k) (m'.deeper k) := by
  cases h with
  | started accepted => exact .started accepted
  | passedOver refused => exact .passedOver refused
  | returned =>
    rw [← proceed_deeper]
    exact .returned
  | finished => exact .finished
  | skipped idle => exact .skipped idle
  | @fired _ ctx n prev _ _ _ _ live fires =>
    have hadmitted : ¬ e.Refused n prev (ctx.deeper k) := fun h => hfree ⟨live, h⟩
    have hinv : Invocation.deeper k { seed := prev, depth := ctx.callDepth + 1 } =
        { seed := prev, depth := (ctx.deeper k).callDepth + 1 } :=
      congrArg (fun depth : Nat => { seed := prev, depth : Invocation }) (Nat.add_right_comm _ 1 k)
    rw [← fired?_deeper hmax hadmitted] at fires
    simp only [Machine.deeper, List.map_cons, Frame.deeper, hinv]
    exact .fired live fires
  | @performed _ ctx n prev _ _ w live fires =>
    have hadmitted : ¬ e.Refused n prev (ctx.deeper k) := fun h => hfree ⟨live, h⟩
    rw [← fired?_deeper hmax hadmitted] at fires
    -- whoever would fire a trigger here is not asked to
    have hcall : n.op = .callCustomFlow → ∀ trigger, idOf n "triggerId" prev ctx.vars = .ok trigger →
        e.hostCaller trigger prev (ctx.callDepth + k + 1) w =
          (e.allowing max).hostCaller trigger prev (ctx.callDepth + 1) w := by
      intro op trigger given
      have hguard : ctx.callDepth + k < e.maxDepth := callDepth_lt_of_not_refused hadmitted op given
      have given' : idOf n "triggerId" prev (ctx.deeper k).vars = .ok trigger := given
      rw [fired?, if_pos ⟨op, hd, hguard⟩, given'] at fires
      cases fires
    have hperform := perform_of_not_refused (r := ⟨ctx, w⟩) hmax hadmitted hcall
    rw [← proceed_deeper, ← hperform]
    exact .performed live fires

namespace Unhindered

theorem move {m m' : Machine} (h : e.Unhindered m) (hm : e.Move m m') : e.Unhindered m' :=
  fun _ hreach => h _ ((reaches_step hm).trans hreach)

/-- What is above the lowest frames does not depend on them. -/
theorem of_append (frames : List Frame) {below : List Frame} {w : World}
    (h : e.Unhindered ⟨frames ++ below, w⟩) : e.Unhindered ⟨frames, w⟩ := by
  have hmove {m m' : Machine} (hm : e.Move m m') :
      e.Move ⟨m.frames ++ below, m.world⟩ ⟨m'.frames ++ below, m'.world⟩ := by
    cases hm with
    | started accepted => exact .started accepted
    | passedOver refused => exact .passedOver refused
    | returned => exact .returned
    | finished => exact .finished
    | skipped idle => exact .skipped idle
    | fired live fires => exact .fired live fires
    | performed live fires => exact .performed live fires
  intro m hreach
  have hbelow : e.Reaches ⟨frames ++ below, w⟩ ⟨m.frames ++ below, m.world⟩ := by
    induction hreach with
    | refl => exact .refl
    | tail _ hstep ih => exact ih.trans (reaches_step (hmove (step_eq_some.1 hstep)))
  intro hrefuses
  refine h _ hbelow ?_
  obtain ⟨frames', w'⟩ := m
  match frames', hrefuses with
  | .run _ _ (_ :: _) :: _, hrefuses => exact hrefuses

end Unhindered

theorem Reaches.deeper {m m' : Machine} (h : (e.allowing max).Reaches m m')
    (hd : e.game.dispatcher = none) (hmax : e.settings.maxCallDepth ≤ max)
    (hfree : e.Unhindered (m.deeper k)) : e.Reaches (m.deeper k) (m'.deeper k) := by
  induction h with
  | refl => exact .refl
  | tail _ hstep ih =>
    have hmove := (step_eq_some.1 hstep).deeper hd hmax (hfree _ ih)
    exact ih.tail (step_eq_some.2 hmove)

/-! ### Triggers -/

theorem fireWith_deeper (hd : e.game.dispatcher = none) (hmax : e.settings.maxCallDepth ≤ max)
    (accepts : Flow → Bool) (inv : Invocation) (fs : List Flow) (w : World)
    (hfree : e.Unhindered ⟨[.firing accepts (inv.deeper k) [] fs], w⟩) :
    e.fireWith (e.callerAt (inv.depth + k)) accepts (inv.deeper k) fs w =
      (e.allowing max).fireWith ((e.allowing max).callerAt inv.depth) accepts inv fs w := by
  obtain ⟨invDeep, results, hresult, hends⟩ := ends_firing (e := e) accepts (inv.deeper k) fs w
  obtain ⟨inv', results', hresult', hends'⟩ := ends_firing (e := e.allowing max) accepts inv fs w
  -- the shallow run, seen from further down, is the deep one
  have hdeep : e.Ends ⟨[.firing accepts (inv.deeper k) [] fs], w⟩
      ⟨[.firing accepts (inv'.deeper k) results' []], _⟩ :=
    ⟨Reaches.deeper hends'.1 hd hmax hfree, rfl⟩
  have hsame := hends.unique hdeep
  simp only [Machine.mk.injEq, List.cons.injEq, Frame.firing.injEq] at hsame
  obtain ⟨⟨⟨-, hinv, hresults, -⟩, -⟩, hw⟩ := hsame
  have hcarry : inv'.carry = invDeep.carry := (congrArg Invocation.carry hinv).symm
  refine Prod.ext ?_ hw
  rw [hresult', ← hresults, hcarry]
  exact hresult

theorem fire_shallower (hd : e.game.dispatcher = none) (hmax : e.settings.maxCallDepth ≤ max)
    {accepts : Flow → Bool} {inv : Invocation} {w : World} {depth : Nat} (hdepth : depth ≤ inv.depth)
    (hfree : e.Unhindered ⟨[.firing accepts inv [] e.game.flows], w⟩) :
    (e.allowing max).fire accepts { inv with depth } w = e.fire accepts inv w := by
  obtain ⟨contextual, seed, carry, deep⟩ := inv
  obtain ⟨k, rfl⟩ := Nat.exists_eq_add_of_le hdepth
  exact (fireWith_deeper hd hmax accepts ⟨contextual, seed, carry, depth⟩ _ w hfree).symm

/-- On the way of the shallow run no depth is greater than on that of the deep one. -/
theorem callDepth_shallower (hd : e.game.dispatcher = none) (hmax : e.settings.maxCallDepth ≤ max)
    {accepts : Flow → Bool} {inv : Invocation} {w : World} {depth : Nat} (hdepth : depth ≤ inv.depth)
    (hfree : e.Unhindered ⟨[.firing accepts inv [] e.game.flows], w⟩) {m : Machine}
    (hm : (e.allowing max).Reaches ⟨[.firing accepts { inv with depth } [] e.game.flows], w⟩ m)
    {f : Flow} {ctx : Context} {todo : List (Node × Json)} (hmem : Frame.run f ctx todo ∈ m.frames) :
    ctx.callDepth ≤ e.maxDepth ∨ ctx.callDepth ≤ inv.depth := by
  obtain ⟨contextual, seed, carry, deep⟩ := inv
  obtain ⟨k, rfl⟩ := Nat.exists_eq_add_of_le hdepth
  have hstart : e.Stacked (depth + k)
      [.firing accepts ⟨contextual, seed, carry, depth + k⟩ [] e.game.flows] := .bottom rfl
  have hstacked : e.Stacked (depth + k) (m.deeper k).frames :=
    hstart.reaches (hm.deeper hd hmax hfree)
  obtain ⟨above, below, hframes⟩ := List.append_of_mem (List.mem_map_of_mem (f := (·.deeper k)) hmem)
  rw [Machine.deeper, hframes] at hstacked
  have hle := (hstacked.of_append (List.cons_ne_nil _ _)).callDepth_le
  have hdeeper : (ctx.deeper k).callDepth = ctx.callDepth + k := rfl
  rw [hdeeper] at hle
  show _ ∨ ctx.callDepth ≤ depth + k
  omega

theorem handle_customTrigger (e : Engine) (trigger : String) (seed : Json) (w : World) :
    e.handle (.customTrigger trigger seed) w =
      e.fire (waitsFor .customTrigger "triggerId" trigger) { seed } w := rfl

theorem perform_unhindered (hd : e.game.dispatcher = none) {f : Flow} {ctx : Context} {n : Node}
    {prev : Json} {todo : List (Node × Json)} {below : List Frame} {w : World} {trigger : String}
    (live : Run.Handles ⟨ctx, w⟩ n) (op : n.op = .callCustomFlow)
    (given : idOf n "triggerId" prev ctx.vars = .ok trigger)
    (hfree : e.Unhindered ⟨.run f ctx ((n, prev) :: todo) :: below, w⟩) :
    e.perform (e.callerAt ctx.callDepth) n prev ⟨ctx, w⟩ =
      .ok (.obj (e.handle (.customTrigger trigger prev) w).1.locals)
        ⟨ctx, (e.handle (.customTrigger trigger prev) w).2⟩ := by
  have hguard : ctx.callDepth + 1 ≤ e.maxDepth :=
    callDepth_lt_of_not_refused (fun h => hfree _ .refl ⟨live, h⟩) op given
  have hfires : e.fired? n prev ctx = some trigger := by
    rw [fired?, if_pos ⟨op, hd, hguard⟩, given]
    rfl
  have hinner := (hfree.move (.fired live hfires)).of_append [_]
  have hsame := fire_shallower hd (UInt32.le_refl _) (Nat.zero_le _) hinner
  rw [allowing_self] at hsame
  rw [handle_customTrigger, hsame]
  exact perform_of_fired?_eq_some (r := ⟨ctx, w⟩) hfires

/-! ### Hosts -/

/-- The steps of the runs of a trigger. -/
def firingSteps (e : Engine) (call : Caller) (accepts : Flow → Bool) (inv : Invocation) :
    List Flow → World → List Step
  | [], _ => []
  | f :: fs, w =>
    if accepts f then
      let (first, w') := e.runWith call f inv w
      steps e call f.root inv.seed (e.begin f inv w) ++
        firingSteps e call accepts { inv with carry := first.carry } fs w'
    else firingSteps e call accepts inv fs w

end Engine

/-- The step goes as that of another engine does so many levels further up. -/
def Step.GoesAs (e e' : Engine) (call call' : Caller) (k : Nat) (s : Step) : Prop :=
  ∀ r, s.run = Run.deeper k r →
    s.outcome e call = deeperResult k (e'.perform call' s.node s.prev r)

/-- What the host does to fire a trigger, and what it answers, is the same at all depths. -/
def Caller.DepthBlind (host : Caller) : Prop :=
  ∀ trigger seed depth depth' w, host trigger seed depth w = host trigger seed depth' w

/-- A host that does nothing but answer. -/
def Dispatcher.caller (dispatch : Dispatcher) : Caller :=
  fun trigger seed depth w => (dispatch trigger seed depth, w)

namespace Engine
open Operation
variable {e e' : Engine} {call call' : Caller} {max : UInt32} {k : Nat}

/-- Visits go alike if all of their steps do. -/
theorem visit_of_goesAs (n : Node) (prev : Json) (r : Run)
    (h : ∀ s ∈ steps e call n prev (r.deeper k), s.GoesAs e e' call call' k) :
    visit e call n prev (r.deeper k) = (visit e' call' n prev r).deeper k := by
  refine trace_induct
    (P := fun n prev rd ss rd' => ∀ r, rd = Run.deeper k r →
      (∀ s ∈ ss, s.GoesAs e e' call call' k) → rd' = (visit e' call' n prev r).deeper k)
    (Q := fun ns v rd ss rd' => ∀ r, rd = Run.deeper k r →
      (∀ s ∈ ss, s.GoesAs e e' call call' k) →
        rd' = (visitAll e' call' (ns.map Prod.fst) v r).deeper k)
    ?skipped ?failed ?passed ?nil ?cons n prev _ r rfl h
  case skipped =>
    intro n prev rd idle r hr _
    subst hr
    rw [visit_of_not_handles (r := r) idle]
  case failed =>
    intro n prev rd err rd' live hp r hr hss
    subst hr
    have hresult := hss _ List.mem_cons_self r rfl
    rw [Step.outcome, hp] at hresult
    obtain ⟨r', hp', rfl⟩ := deeperResult_eq_error hresult
    rw [visit_of_error (r := r) live hp']
    rfl
  case passed =>
    intro n prev rd v rd' ss rd'' live hp hrest r hr hss
    subst hr
    have hresult := hss _ List.mem_cons_self r rfl
    rw [Step.outcome, hp] at hresult
    obtain ⟨r', hp', rfl⟩ := deeperResult_eq_ok hresult
    rw [visit_of_ok (r := r) live hp']
    refine hrest _ ?_ fun s hs => hss s (List.mem_cons_of_mem _ hs)
    exact settle_deeper n (.ok v r')
  case nil =>
    intro v rd r hr _
    exact hr
  case cons =>
    intro n i ns v rd ss rd' ss' rd'' hfirst hrest r hr hss
    rw [List.map_cons, visitAll]
    refine hrest _ (hfirst r hr fun s hs => ?_) fun s hs => hss s (List.mem_append_right _ hs)
    exact hss (s.below i) (List.mem_append_left _ (List.mem_map_of_mem hs))

/-- So do triggers. -/
theorem fireWith_of_goesAs (hgame : e'.game = e.game) (accepts : Flow → Bool) (inv : Invocation)
    (fs : List Flow) (w : World)
    (h : ∀ s ∈ firingSteps e call accepts (inv.deeper k) fs w, s.GoesAs e e' call call' k) :
    e'.fireWith call' accepts inv fs w = e.fireWith call accepts (inv.deeper k) fs w := by
  induction fs generalizing inv w with
  | nil => rfl
  | cons f fs ih =>
    cases haccepts : accepts f with
    | false =>
      rw [firingSteps, haccepts] at h
      rw [fireWith_of_refused haccepts, fireWith_of_refused haccepts]
      exact ih inv w h
    | true =>
      rw [firingSteps, if_pos haccepts] at h
      have hbegin : e.begin f (inv.deeper k) w = (e'.begin f inv w).deeper k := by
        unfold begin seedVariables
        rw [hgame]
        rfl
      have hvisit := visit_of_goesAs f.root inv.seed (e'.begin f inv w) fun s hs =>
        h s (List.mem_append_left _ (hbegin ▸ hs))
      have hrun : e'.runWith call' f inv w = e.runWith call f (inv.deeper k) w := by
        rw [runWith, runWith, hbegin, Invocation.deeper, hvisit]
        rfl
      rw [fireWith_of_accepted haccepts, fireWith_of_accepted haccepts, hrun]
      have hrest := ih { inv with carry := (e.runWith call f (inv.deeper k) w).1.carry }
        (e.runWith call f (inv.deeper k) w).2 fun s hs => h s (List.mem_append_right _ hs)
      simp only [hrest]
      rfl

/-- All runs of a trigger are as deep as the trigger. -/
theorem callDepth_of_mem_firingSteps (accepts : Flow → Bool) (inv : Invocation) (fs : List Flow)
    (w : World) : ∀ s ∈ firingSteps e call accepts inv fs w, s.run.ctx.callDepth = inv.depth := by
  induction fs generalizing inv w with
  | nil => exact fun s hs => absurd hs List.not_mem_nil
  | cons f fs ih =>
    intro s hs
    rw [firingSteps] at hs
    split at hs
    · rcases List.mem_append.1 hs with hs | hs
      · obtain ⟨before, after, hsteps⟩ := List.append_of_mem hs
        have hlinked : e.Linked call (e.begin f inv w) (before ++ s :: after)
            (e.visit call f.root inv.seed (e.begin f inv w)) := hsteps ▸ linked_steps ..
        exact hlinked.split.1.callDepth
      · exact ih { inv with carry := (e.runWith call f inv w).1.carry } _ s hs
    · exact ih inv w s hs

/-- With a host that does not look at the depth, a trigger does the same further up. -/
theorem fireWith_shallower {host : Caller} (hblind : host.DepthBlind)
    (hmax : e.settings.maxCallDepth ≤ max) {accepts : Flow → Bool} {inv : Invocation}
    {fs : List Flow} {w : World} {depth : Nat} (hdepth : depth ≤ inv.depth)
    (hfree : ∀ s ∈ e.firingSteps host accepts inv fs w, ¬ e.Refused s.node s.prev s.run.ctx) :
    (e.allowing max).fireWith host accepts { inv with depth } fs w =
      e.fireWith host accepts inv fs w := by
  obtain ⟨contextual, seed, carry, deep⟩ := inv
  obtain ⟨k, rfl⟩ := Nat.exists_eq_add_of_le hdepth
  have hgoes (s) (hs : s ∈ e.firingSteps host accepts ⟨contextual, seed, carry, depth + k⟩ fs w) :
      s.GoesAs e (e.allowing max) host host k := by
    intro r hr
    have hadmitted := hfree s hs
    rw [hr] at hadmitted
    rw [Step.outcome, hr]
    exact perform_of_not_refused hmax hadmitted fun _ trigger _ => hblind ..
  have hgame : (e.allowing max).game = e.game := rfl
  exact fireWith_of_goesAs (k := k) hgame accepts ⟨contextual, seed, carry, depth⟩ fs w hgoes

/-- An engine with a host that only answers fires triggers as any host has them fired. -/
theorem fire_of_dispatcher {dispatch : Dispatcher} (hd : e.game.dispatcher = some dispatch)
    (accepts : Flow → Bool) (inv : Invocation) (w : World) :
    e.fire accepts inv w = e.fireWith dispatch.caller accepts inv e.game.flows w := by
  have hhost : e.hostCaller = dispatch.caller := by
    funext trigger seed depth w
    simp only [hostCaller, hd, Dispatcher.caller]
  refine fireWith_of_goesAs (k := 0) rfl accepts inv e.game.flows w fun s hs r hr => ?_
  obtain rfl : s.run = r := hr
  have hdepth : s.run.ctx.callDepth = inv.depth := callDepth_of_mem_firingSteps _ _ _ _ s hs
  have hfires : e.fired? s.node s.prev s.run.ctx = none := by
    refine if_neg fun h => ?_
    rw [hd] at h
    cases h.2.1
  have hperform := perform_of_fired?_eq_none hfires
  rw [hdepth, hhost] at hperform
  rw [Step.outcome, hperform]
  cases e.perform dispatch.caller s.node s.prev s.run <;> rfl

/-! ### What the depth decides -/

/-- How deep triggers are fired, and how deep they may be, decides which nodes are refused and
nothing else. Depths are those of 32 bits. The last of them has no next one and is left out. -/
structure DepthOnlyRefuses (e : Engine) : Prop where
  /-- The engine itself runs the flows of custom triggers. Then no run gets to the last depth. -/
  own : e.game.dispatcher = none → ∀ accepts (inv : Invocation) w, inv.depth < maxWord32 →
    e.Unhindered ⟨[.firing accepts inv [] e.game.flows], w⟩ →
    ∀ depth ≤ inv.depth, ∀ max, e.settings.maxCallDepth ≤ max →
      (e.allowing max).fire accepts { inv with depth } w = e.fire accepts inv w ∧
        ∀ m, (e.allowing max).Reaches ⟨[.firing accepts { inv with depth } [] e.game.flows], w⟩ m →
          ∀ f ctx todo, Frame.run f ctx todo ∈ m.frames → ctx.callDepth < maxWord32
  /-- A host runs them, and may do to the world what it likes. -/
  host : ∀ host : Caller, host.DepthBlind → ∀ accepts (inv : Invocation) fs w,
    inv.depth < maxWord32 →
    (∀ s ∈ e.firingSteps host accepts inv fs w, ¬ e.Refused s.node s.prev s.run.ctx) →
    ∀ depth ≤ inv.depth, ∀ max, e.settings.maxCallDepth ≤ max →
      (e.allowing max).fireWith host accepts { inv with depth } fs w =
          e.fireWith host accepts inv fs w ∧
        ∀ s ∈ (e.allowing max).firingSteps host accepts { inv with depth } fs w,
          s.run.ctx.callDepth < maxWord32
  /-- The engine's own host is such a one. -/
  dispatched : ∀ dispatch, e.game.dispatcher = some dispatch → ∀ accepts inv w,
    e.fire accepts inv w = e.fireWith dispatch.caller accepts inv e.game.flows w
  /-- A node that fires a trigger gets what the game gets that fires it. -/
  call : e.game.dispatcher = none → ∀ f ctx n prev todo below w trigger,
    Run.Handles ⟨ctx, w⟩ n → n.op = .callCustomFlow →
    idOf n "triggerId" prev ctx.vars = .ok trigger →
    e.Unhindered ⟨.run f ctx ((n, prev) :: todo) :: below, w⟩ →
    e.perform (e.callerAt ctx.callDepth) n prev ⟨ctx, w⟩ =
      .ok (.obj (e.handle (.customTrigger trigger prev) w).1.locals)
        ⟨ctx, (e.handle (.customTrigger trigger prev) w).2⟩

theorem fire_at_any_depth (e : Engine) (hlimit : e.maxDepth < maxWord32) : e.DepthOnlyRefuses where
  own hd accepts inv w hinv hfree depth hdepth max hmax := by
    refine ⟨fire_shallower hd hmax hdepth hfree, fun m hm f ctx todo hmem => ?_⟩
    rcases callDepth_shallower hd hmax hdepth hfree hm hmem with hle | hle
    · exact Nat.lt_of_le_of_lt hle hlimit
    · exact Nat.lt_of_le_of_lt hle hinv
  host host hblind accepts inv fs w hinv hfree depth hdepth max hmax := by
    refine ⟨fireWith_shallower hblind hmax hdepth hfree, fun s hs => ?_⟩
    rw [callDepth_of_mem_firingSteps _ _ _ _ s hs]
    exact Nat.lt_of_le_of_lt hdepth hinv
  dispatched dispatch hd accepts inv w := fire_of_dispatcher hd accepts inv w
  call hd f ctx n prev todo below w trigger live op given hfree :=
    perform_unhindered hd live op given hfree

/-- A custom flow that calls another one, which the engine runs, or a host that has the player join
a segment. -/
theorem fire_at_any_depth_of_nested :
    let call : Node := ⟨.callCustomFlow, "c",
      [("savedVariable", .str "x"), ("triggerId", .str "answer")], []⟩
    let ask : Flow := ⟨"ask", ⟨.customTrigger, "root", [("triggerId", .str "ask")], [call]⟩⟩
    let answer : Flow := ⟨"answer", ⟨.customTrigger, "root", [("triggerId", .str "answer")],
      [⟨.setVariable, "s", [("name", .str "y"), ("value", (Ref.literal (.int 1)).toJson)], []⟩]⟩⟩
    let e : Engine := { game := { flows := [ask, answer] }, timing := ⟨0, .ofMillis 0⟩ }
    let accepts := waitsFor .customTrigger "triggerId" "ask"
    let ctx : Context := { flowId := "ask", callDepth := 1 }
    let host : Caller := fun trigger _ _ w =>
      (.ok [("y", .str trigger)], { w with player := w.player.addSegment trigger })
    (e.allowing 9).fire accepts {} {} = e.fire accepts { depth := 1 } {} ∧
      (e.fire accepts { depth := 1 } {}).1.locals = [("x", .obj [("y", .int 1)])] ∧
      (e.allowing 9).fireWith host accepts {} e.game.flows {} =
        e.fireWith host accepts { depth := 1 } e.game.flows {} ∧
      (e.fireWith host accepts { depth := 1 } e.game.flows {}).1.locals =
        [("x", .obj [("y", .str "answer")])] ∧
      (e.fireWith host accepts { depth := 1 } e.game.flows {}).2.player.segments = ["answer"] ∧
      e.perform (e.callerAt 1) call .null ⟨ctx, {}⟩ =
        .ok (.obj (e.handle (.customTrigger "answer" .null) {}).1.locals)
          ⟨ctx, (e.handle (.customTrigger "answer" .null) {}).2⟩ := by
  intro call ask answer e accepts ctx host
  have honly := fire_at_any_depth e (by decide)
  have hfree : e.Unhindered ⟨[.firing accepts { depth := 1 } [] e.game.flows], {}⟩ :=
    unhindered_of_endsFreely 20 (by decide +kernel)
  have hcalling : e.Unhindered ⟨[.run ask ctx [(call, .null)]], {}⟩ :=
    unhindered_of_endsFreely 20 (by decide +kernel)
  have hserved : ∀ s ∈ e.firingSteps host accepts { depth := 1 } e.game.flows {},
      ¬ e.Refused s.node s.prev s.run.ctx := by
    decide +kernel
  obtain ⟨hown, -⟩ := honly.own rfl accepts { depth := 1 } {} (by decide) hfree 0 (by decide) 9
    (by decide)
  obtain ⟨hhost, -⟩ := honly.host host (fun _ _ _ _ _ => rfl) accepts { depth := 1 } e.game.flows {}
    (by decide) hserved 0 (by decide) 9 (by decide)
  refine ⟨hown, by decide +kernel, hhost, by decide +kernel, by decide +kernel, ?_⟩
  exact honly.call rfl ask ctx call .null [] [] {} "answer" (by decide) rfl rfl hcalling

/-- A host that fires triggers in its own way can tell how deep a call is, and its answer need not
be what the flows of the trigger leave behind. -/
theorem fire_depends_on_host :
    let call : Node := ⟨.callCustomFlow, "c",
      [("savedVariable", .str "x"), ("triggerId", .str "answer")], []⟩
    let ask : Flow := ⟨"ask", ⟨.customTrigger, "root", [("triggerId", .str "ask")], [call]⟩⟩
    let host : Dispatcher := fun _ _ depth => .ok [("depth", .int depth)]
    let e : Engine :=
      { game := { flows := [ask], dispatcher := some host }, timing := ⟨0, .ofMillis 0⟩ }
    let accepts := waitsFor .customTrigger "triggerId" "ask"
    let ctx : Context := { flowId := "ask", callDepth := 1 }
    e.Unhindered ⟨[.firing accepts { depth := 1 } [] e.game.flows], {}⟩ ∧
      (e.fire accepts { depth := 1 } {}).1.locals = [("x", .obj [("depth", .int 2)])] ∧
      (e.fire accepts {} {}).1.locals = [("x", .obj [("depth", .int 1)])] ∧
      e.Unhindered ⟨[.run ask ctx [(call, .null)]], {}⟩ ∧
      e.perform (e.callerAt 1) call .null ⟨ctx, {}⟩ = .ok (.obj [("depth", .int 2)]) ⟨ctx, {}⟩ ∧
      (e.handle (.customTrigger "answer" .null) {}).1.locals = [] := by
  intro call ask host e accepts ctx
  refine ⟨unhindered_of_endsFreely 20 (by decide +kernel), by decide +kernel,
    by decide +kernel, unhindered_of_endsFreely 20 (by decide +kernel), ?_,
    by decide +kernel⟩
  exact rfl

end Engine

end FlowTree
