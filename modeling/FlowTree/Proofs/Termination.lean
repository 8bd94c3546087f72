import FlowTree.Proofs.Machine

/-!
# Every run ends

The machine comes to an end, with what the engine gives: along the tree of a flow by induction on
the tree, along the flows of a trigger by induction on their list, and into custom triggers by
induction on the levels of calls that are left.
-/

namespace FlowTree

namespace Engine
variable {e : Engine}

/-! ### Triggers -/

section
variable {call : Caller} {accepts : Flow → Bool} {f : Flow}

theorem fireWith_of_accepted (h : accepts f = true) (inv : Invocation) (fs : List Flow)
    (w : World) :
    e.fireWith call accepts inv (f :: fs) w =
      let first := e.runWith call f inv w
      let rest := e.fireWith call accepts { inv with carry := first.1.carry } fs first.2
      ({ flowsRun := first.1.flowId :: rest.1.flowsRun
         locals := Fields.merge first.1.locals rest.1.locals
         carry := rest.1.carry }, rest.2) := by
  rw [fireWith, if_pos h]

theorem fireWith_of_refused (h : accepts f = false) (inv : Invocation) (fs : List Flow)
    (w : World) :
    e.fireWith call accepts inv (f :: fs) w = e.fireWith call accepts inv fs w := by
  rw [fireWith, if_neg (by simp [h])]

end

theorem callerAt_of_lt {depth : Nat} (h : depth < e.maxDepth) :
    e.callerAt depth = fun trigger seed inner w =>
      match e.game.dispatcher with
      | some dispatch => (dispatch trigger seed inner, w)
      | none =>
        let (result, w) := e.fireWith (e.callerAt (depth + 1))
          (waitsFor .customTrigger "triggerId" trigger) { seed, depth := inner } e.game.flows w
        (.ok result.locals, w) := by
  have hlevels : e.maxDepth - depth = e.maxDepth - (depth + 1) + 1 := by omega
  funext trigger seed inner w
  rw [callerAt, hlevels, caller]
  rfl

theorem perform_of_fired?_eq_none {n : Node} {prev : Json} {r : Run}
    (h : e.fired? n prev r.ctx = none) :
    e.perform (e.callerAt r.ctx.callDepth) n prev r = e.perform e.hostCaller n prev r := by
  by_cases op : n.op = .callCustomFlow
  · simp only [perform, op, callCustomFlow_run]
    cases hid : Operation.idOf n "triggerId" prev r.ctx.vars with
    | error err => rfl
    | ok trigger =>
      simp only []
      split
      · rfl
      · rename_i hguard
        rw [callerAt_of_lt (by omega), hostCaller]
        cases hdisp : e.game.dispatcher with
        | some dispatch => rfl
        | none =>
          rw [fired?, if_pos ⟨op, hdisp, by omega⟩, hid] at h
          cases h
  · rw [perform_congr_call e _ e.hostCaller op]

theorem perform_of_fired?_eq_some {n : Node} {prev : Json} {r : Run} {trigger : String}
    (h : e.fired? n prev r.ctx = some trigger) :
    e.perform (e.callerAt r.ctx.callDepth) n prev r =
      let nested := e.fireWith (e.callerAt (r.ctx.callDepth + 1))
        (waitsFor .customTrigger "triggerId" trigger)
        { seed := prev, depth := r.ctx.callDepth + 1 } e.game.flows r.world
      .ok (.obj nested.1.locals) { r with world := nested.2 } := by
  unfold fired? at h
  split at h
  · rename_i hcond
    obtain ⟨op, hdisp, hguard⟩ := hcond
    cases hid : Operation.idOf n "triggerId" prev r.ctx.vars with
    | error err => rw [hid] at h; cases h
    | ok id =>
      rw [hid] at h
      cases h
      simp only [perform, op, callCustomFlow_run, hid]
      rw [if_neg (by omega), callerAt_of_lt (by omega), hdisp]
  · cases h

theorem depth_of_fired? {n : Node} {prev : Json} {ctx : Context} {trigger : String}
    (h : e.fired? n prev ctx = some trigger) : ctx.callDepth + 1 ≤ e.maxDepth := by
  unfold fired? at h
  split at h
  · rename_i hcond
    exact hcond.2.2
  · cases h

/-! ### Runs of the machine -/

/-- Once the machine has gone on from its first node, it makes the visits that the node leads to. -/
theorem reaches_ahead {n : Node} {v : Json} {depth : Nat} (f : Flow) (todo : List (Node × Json))
    (below : List Frame)
    (hns : ∀ c ∈ n.children, ∀ (r : Run) todo, r.ctx.callDepth = depth →
      e.Reaches ⟨.run f r.ctx ((c, v) :: todo) :: below, r.world⟩
        ⟨.run f (e.visit (e.callerAt depth) c v r).ctx todo :: below,
          (e.visit (e.callerAt depth) c v r).world⟩)
    {r : Run} (hr : r.ctx.callDepth = depth) :
    e.Reaches ⟨.run f r.ctx (((n.selected v).map Prod.fst).map (fun c => (c, v)) ++ todo) :: below,
        r.world⟩
      ⟨.run f (e.visitAll (e.callerAt depth) ((n.selected v).map Prod.fst) v r).ctx todo :: below,
        (e.visitAll (e.callerAt depth) ((n.selected v).map Prod.fst) v r).world⟩ := by
  have hmem : ∀ c ∈ (n.selected v).map Prod.fst, c ∈ n.children :=
    fun c hc => Node.mem_children_of_selected hc
  generalize (n.selected v).map Prod.fst = cs at hmem
  induction cs generalizing r with
  | nil => exact .refl
  | cons c cs ih =>
    have hc := hns c (hmem c List.mem_cons_self) r (cs.map (fun c => (c, v)) ++ todo) hr
    have hdepth : (e.visit (e.callerAt depth) c v r).ctx.callDepth = depth := by
      rw [visit_callDepth, hr]
    exact hc.trans (ih hdepth fun d hd => hmem d (List.mem_cons_of_mem c hd))

/-- The runs of a trigger, if the machine gets through each run of their depth. -/
theorem reaches_firing {depth : Nat}
    (hvisit : ∀ n prev (r : Run) f todo below, r.ctx.callDepth = depth →
      e.Reaches ⟨.run f r.ctx ((n, prev) :: todo) :: below, r.world⟩
        ⟨.run f (e.visit (e.callerAt depth) n prev r).ctx todo :: below,
          (e.visit (e.callerAt depth) n prev r).world⟩)
    (accepts : Flow → Bool) (below : List Frame) (fs : List Flow) (inv : Invocation)
    (hinv : inv.depth = depth) (done : List FlowResult) (w : World) :
    ∃ inv' results, (e.fireWith (e.callerAt depth) accepts inv fs w).1 =
        TriggerResult.collect results inv'.carry ∧
      e.Reaches ⟨.firing accepts inv done fs :: below, w⟩
        ⟨.firing accepts inv' (done ++ results) [] :: below,
          (e.fireWith (e.callerAt depth) accepts inv fs w).2⟩ := by
  induction fs generalizing inv done w with
  | nil => exact ⟨inv, [], rfl, by rw [List.append_nil]; exact .refl⟩
  | cons f fs ih =>
    cases haccepts : accepts f with
    | false =>
      rw [fireWith_of_refused haccepts]
      obtain ⟨inv', results, hresult, hreach⟩ := ih inv hinv done w
      exact ⟨inv', results, hresult, (reaches_step (.passedOver haccepts)).trans hreach⟩
    | true =>
      rw [fireWith_of_accepted haccepts]
      obtain ⟨first, hfirst⟩ : ∃ first, e.runWith (e.callerAt depth) f inv w = first := ⟨_, rfl⟩
      obtain ⟨inv', results, hresult, hreach⟩ :=
        ih { inv with carry := first.1.carry } hinv (done ++ [first.1]) first.2
      refine ⟨inv', first.1 :: results, ?_, ?_⟩
      · simp only [hfirst, hresult]
        rfl
      · rw [← List.append_cons done] at hreach
        refine (reaches_step (.started haccepts)).trans ?_
        refine (hvisit f.root inv.seed (e.begin f inv w) f [] _ hinv).trans ?_
        refine (reaches_step .finished).trans ?_
        subst hfirst
        exact hreach

/-- The machine gets through a visit, into the custom triggers and back. -/
theorem reaches_visit (n : Node) (prev : Json) (r : Run) (f : Flow)
    (todo : List (Node × Json)) (below : List Frame) :
    e.Reaches ⟨.run f r.ctx ((n, prev) :: todo) :: below, r.world⟩
      ⟨.run f (e.visit (e.callerAt r.ctx.callDepth) n prev r).ctx todo :: below,
        (e.visit (e.callerAt r.ctx.callDepth) n prev r).world⟩ := by
  obtain ⟨depth, hdepth⟩ : ∃ depth, r.ctx.callDepth = depth := ⟨_, rfl⟩
  rw [hdepth]
  -- the calls that are left go down with each level, and within a level the tree does
  obtain ⟨levels, hlevels⟩ : ∃ levels, e.maxDepth - depth = levels := ⟨_, rfl⟩
  induction levels using Nat.strongRecOn generalizing depth n prev r f todo below with
  | ind levels ihl =>
  induction n using Node.induct generalizing prev r f todo below with
  | h n ihn =>
  by_cases hn : r.Handles n
  · have hgo (result) (hp : e.perform (e.callerAt depth) n prev r = result) :
        e.Reaches (proceed f n todo below result)
          ⟨.run f (e.visit (e.callerAt depth) n prev r).ctx todo :: below,
            (e.visit (e.callerAt depth) n prev r).world⟩ := by
      cases result with
      | error err r' =>
        rw [visit_of_error hn hp]
        exact .refl
      | ok v r' =>
        rw [visit_of_ok hn hp]
        refine reaches_ahead f todo below (fun c hc r todo hr => ?_) ?_
        · exact ihn c hc v r f todo below hr
        · rw [← hp, Run.settle_callDepth, ← hdepth]
          exact (perform_sameCourse ..).callDepth
    cases hfires : e.fired? n prev r.ctx with
    | none =>
      have hp := perform_of_fired?_eq_none hfires
      rw [hdepth] at hp
      exact (reaches_step (.performed hn hfires)).trans (hgo _ hp)
    | some trigger =>
      have hp := perform_of_fired?_eq_some hfires
      have hguard := depth_of_fired? hfires
      rw [hdepth] at hp hguard
      have hvisit (n prev) (r : Run) (f todo below) (hr : r.ctx.callDepth = depth + 1) :=
        ihl (e.maxDepth - (depth + 1)) (by omega) n prev r f todo below (depth + 1) hr rfl
      obtain ⟨inv', results, hresult, hreach⟩ := reaches_firing hvisit
        (waitsFor .customTrigger "triggerId" trigger) (.run f r.ctx ((n, prev) :: todo) :: below)
        e.game.flows { seed := prev, depth := depth + 1 } rfl [] r.world
      refine (reaches_step (.fired hn hfires)).trans ?_
      rw [hdepth]
      refine hreach.trans ((reaches_step .returned).trans (hgo _ ?_))
      simp only [hp, hresult]
      rfl
  · rw [visit_of_not_handles hn]
    exact reaches_step (.skipped hn)

/-! ### The end -/

/-- The flows of a trigger come to their end, with what the engine gives for them. -/
theorem ends_firing (accepts : Flow → Bool) (inv : Invocation) (fs : List Flow) (w : World) :
    ∃ inv' results, (e.fireWith (e.callerAt inv.depth) accepts inv fs w).1 =
        TriggerResult.collect results inv'.carry ∧
      e.Ends ⟨[.firing accepts inv [] fs], w⟩ ⟨[.firing accepts inv' results []],
        (e.fireWith (e.callerAt inv.depth) accepts inv fs w).2⟩ := by
  have hvisit (n prev) (r : Run) (f todo below) (hr : r.ctx.callDepth = inv.depth) :=
    hr ▸ reaches_visit (e := e) n prev r f todo below
  obtain ⟨inv', results, hresult, hreach⟩ := reaches_firing hvisit accepts [] fs inv rfl [] w
  exact ⟨inv', results, hresult, hreach, rfl⟩

/-- A single run likewise. -/
theorem ends_execute (f : Flow) (inv : Invocation) (w : World) :
    ∃ inv', e.Ends ⟨[.firing (fun _ => true) inv [] [f]], w⟩
      ⟨[.firing (fun _ => true) inv' [(e.execute f inv w).1] []], (e.execute f inv w).2⟩ := by
  have hstart : e.Reaches ⟨[.firing (fun _ => true) inv [] [f]], w⟩ _ :=
    reaches_step (.started rfl)
  have hvisit := reaches_visit (e := e) f.root inv.seed (e.begin f inv w) f []
    [.firing (fun _ => true) inv [] []]
  exact ⟨_, (hstart.trans hvisit).trans (reaches_step .finished), rfl⟩

/-! ### Depths -/

/-- The frames lie on each other as runs and triggers do, each trigger one level deeper than the
run that fires it and no deeper than it may be. -/
inductive Stacked (e : Engine) (start : Nat) : List Frame → Prop
  | bottom {accepts : Flow → Bool} {inv : Invocation} {done : List FlowResult} {rest : List Flow}
    (depth : inv.depth = start) : Stacked e start [.firing accepts inv done rest]
  | run {f : Flow} {ctx : Context} {todo : List (Node × Json)} {accepts : Flow → Bool}
    {inv : Invocation} {done : List FlowResult} {rest : List Flow} {below : List Frame}
    (depth : ctx.callDepth = inv.depth)
    (h : Stacked e start (.firing accepts inv done rest :: below)) :
    Stacked e start (.run f ctx todo :: .firing accepts inv done rest :: below)
  | firing {accepts : Flow → Bool} {inv : Invocation} {done : List FlowResult} {rest : List Flow}
    {f : Flow} {ctx : Context} {todo : List (Node × Json)} {below : List Frame}
    (depth : inv.depth = ctx.callDepth + 1) (guard : inv.depth ≤ e.maxDepth)
    (h : Stacked e start (.run f ctx todo :: below)) :
    Stacked e start (.firing accepts inv done rest :: .run f ctx todo :: below)

namespace Stacked
variable {start : Nat}

theorem update_firing {accepts accepts' : Flow → Bool} {inv inv' : Invocation}
    {done done' : List FlowResult} {rest rest' : List Flow} {below : List Frame}
    (h : e.Stacked start (.firing accepts inv done rest :: below)) (hinv : inv'.depth = inv.depth) :
    e.Stacked start (.firing accepts' inv' done' rest' :: below) := by
  cases h with
  | bottom depth => exact .bottom (hinv.trans depth)
  | firing depth guard h => exact .firing (hinv.trans depth) (hinv ▸ guard) h

theorem update_run {f f' : Flow} {ctx ctx' : Context} {todo todo' : List (Node × Json)}
    {below : List Frame} (h : e.Stacked start (.run f ctx todo :: below))
    (hctx : ctx'.callDepth = ctx.callDepth) :
    e.Stacked start (.run f' ctx' todo' :: below) := by
  cases h with
  | run depth h => exact .run (hctx.trans depth) h

theorem proceed {f : Flow} {ctx : Context} {n : Node} {todo todo' : List (Node × Json)}
    {below : List Frame} (h : e.Stacked start (.run f ctx todo :: below))
    {result : EStateM.Result NodeError Run Json}
    (hresult : (Action.resultRun result).ctx.callDepth = ctx.callDepth) :
    e.Stacked start (Engine.proceed f n todo' below result).frames :=
  h.update_run ((Run.settle_callDepth n result).trans hresult)

theorem move {m m' : Machine} (h : e.Stacked start m.frames) (hm : e.Move m m') :
    e.Stacked start m'.frames := by
  cases hm with
  | started => exact .run rfl (h.update_firing rfl)
  | passedOver => exact h.update_firing rfl
  | returned =>
    cases h with
    | firing depth guard h => exact h.proceed rfl
  | finished =>
    cases h with
    | run depth h => exact h.update_firing rfl
  | skipped => exact h.update_run rfl
  | fired live fires => exact .firing rfl (depth_of_fired? fires) h
  | performed => exact h.proceed (perform_sameCourse e e.hostCaller _ _ _).callDepth

theorem reaches {m m' : Machine} (h : e.Stacked start m.frames) (hm : e.Reaches m m') :
    e.Stacked start m'.frames := by
  induction hm with
  | refl => exact h
  | tail _ hstep ih => exact ih.move (step_eq_some.1 hstep)

theorem of_append {above below : List Frame} (h : e.Stacked start (above ++ below))
    (hne : below ≠ []) : e.Stacked start below := by
  induction above with
  | nil => exact h
  | cons frame above ih =>
    refine ih ?_
    rw [List.cons_append] at h
    generalize hfs : above ++ below = fs at h ⊢
    cases h with
    | bottom => exact absurd (List.append_eq_nil_iff.1 hfs).2 hne
    | run _ h => exact h
    | firing _ _ h => exact h

/-- A run is no deeper than it may be, unless it is the outermost one. -/
theorem callDepth_le {f : Flow} {ctx : Context} {todo : List (Node × Json)} {below : List Frame}
    (h : e.Stacked start (.run f ctx todo :: below)) :
    ctx.callDepth ≤ e.maxDepth ∨ below.length = 1 ∧ ctx.callDepth = start := by
  cases h with
  | run depth h =>
    cases h with
    | bottom hstart => exact .inr ⟨rfl, depth.trans hstart⟩
    | firing _ guard _ => exact .inl (depth ▸ guard)

end Stacked

/-! ### The guard -/

/-- With a trigger to fire, a node fails at the depth guard or not at all. -/
theorem perform_callCustomFlow (hd : e.game.dispatcher = none) {n : Node} {prev : Json} {r : Run}
    (op : n.op = .callCustomFlow) {trigger : String}
    (hid : Operation.idOf n "triggerId" prev r.ctx.vars = .ok trigger) :
    if e.maxDepth < r.ctx.callDepth + 1 then
      e.perform (e.callerAt r.ctx.callDepth) n prev r =
        .error (.validation (.callDepth trigger e.maxDepth)) r
    else ∃ locals w, e.perform (e.callerAt r.ctx.callDepth) n prev r =
      .ok (.obj locals) { r with world := w } := by
  split
  · rename_i hguard
    simp only [perform, op, callCustomFlow_run, hid]
    rw [if_pos hguard]
  · rename_i hguard
    have hfires : e.fired? n prev r.ctx = some trigger := by
      rw [fired?, if_pos ⟨op, hd, by omega⟩, hid]
      rfl
    exact ⟨_, _, perform_of_fired?_eq_some hfires⟩

/-- The runs of a trigger come to an end, none of those in between starts deeper than it may, and
it is the depth alone that keeps nodes from firing triggers. -/
structure Terminates (e : Engine) (accepts : Flow → Bool) (inv : Invocation) (fs : List Flow)
    (w : World) : Prop where
  /-- The machine cannot go on for ever. -/
  acc : Acc (fun m' m => e.step m = some m') ⟨[.firing accepts inv [] fs], w⟩
  ends : ∃ inv' results, (e.fireWith (e.callerAt inv.depth) accepts inv fs w).1 =
      TriggerResult.collect results inv'.carry ∧
    e.Ends ⟨[.firing accepts inv [] fs], w⟩ ⟨[.firing accepts inv' results []],
      (e.fireWith (e.callerAt inv.depth) accepts inv fs w).2⟩
  /-- Each run but the outermost one is within the limit, and no depth is the last of 32 bits. -/
  depth : ∀ m, e.Reaches ⟨[.firing accepts inv [] fs], w⟩ m → ∀ above f ctx todo below,
    m.frames = above ++ .run f ctx todo :: below →
      (1 < below.length → ctx.callDepth ≤ e.maxDepth) ∧ ctx.callDepth < maxWord32
  guard : ∀ (n : Node) prev (r : Run) trigger, n.op = .callCustomFlow →
    Operation.idOf n "triggerId" prev r.ctx.vars = .ok trigger →
      if e.maxDepth < r.ctx.callDepth + 1 then
        e.perform (e.callerAt r.ctx.callDepth) n prev r =
          .error (.validation (.callDepth trigger e.maxDepth)) r
      else ∃ locals w, e.perform (e.callerAt r.ctx.callDepth) n prev r =
        .ok (.obj locals) { r with world := w }

theorem fireWith_terminates (e : Engine) (hd : e.game.dispatcher = none)
    (hmax : e.maxDepth < maxWord32) (accepts : Flow → Bool) (inv : Invocation)
    (hinv : inv.depth < maxWord32) (fs : List Flow) (w : World) :
    e.Terminates accepts inv fs w where
  acc := by
    obtain ⟨inv', results, -, hends⟩ := ends_firing accepts inv fs w
    exact hends.acc
  ends := ends_firing accepts inv fs w
  depth m hm above f ctx todo below hframes := by
    have hstacked : e.Stacked inv.depth m.frames := Stacked.reaches (.bottom rfl) hm
    rw [hframes] at hstacked
    rcases (hstacked.of_append (List.cons_ne_nil _ _)).callDepth_le with hle | ⟨hlen, hstart⟩
    · exact ⟨fun _ => hle, by omega⟩
    · exact ⟨fun hlt => absurd hlen (Nat.ne_of_gt hlt), by omega⟩
  guard n prev r trigger op hid := perform_callCustomFlow hd op hid

/-- A flow that fires all custom triggers, its own one included. -/
theorem fireWith_terminates_of_cyclic :
    let again : Node := ⟨.callCustomFlow, "c", [("triggerId", .str "again")], []⟩
    let loop : Flow := ⟨"loop", ⟨.customTrigger, "t", [], [again, again]⟩⟩
    let e : Engine := { game := { flows := [loop, loop] }, timing := ⟨0, .ofMillis 0⟩ }
    e.Terminates (waitsFor .customTrigger "triggerId" "again") {} e.game.flows {} := by
  intro again loop e
  exact fireWith_terminates e rfl (by decide) _ {} (by decide) e.game.flows {}

end Engine

end FlowTree
