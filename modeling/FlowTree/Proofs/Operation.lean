import FlowTree.Proofs.Action

/-!
# What operations do

Each operation of a node is a function of the run that it is carried out on: it decides from what it
reads whether it fails, and what its value and the run after it are. An operation that can still
fail once it has changed something does not do so: there is a split for each draw, and a stat that
was added to is a number.
-/

namespace FlowTree.Operation

/-! ### Operations on variables and carried objects -/

theorem randomBy_run (draw : Float → Float → RandomSource → Float × RandomSource)
    (drawInt : Int → Int → RandomSource → Int × RandomSource) (locale : Locale) (n : Node)
    (prev : Json) (r : Run) :
    randomBy draw drawInt locale n prev r =
      match randomRange locale n prev r.ctx.vars with
      | .error err => .error err r
      | .ok (min, max) =>
        if n.flag "integer" then
          match integerRange min max with
          | .error err => .error err r
          | .ok (lo, hi) =>
            .ok (.int (drawInt lo hi r.world.random).1)
              (r.withRandom (drawInt lo hi r.world.random).2)
        else
          .ok (.ofFloat (draw min max r.world.random).1)
            (r.withRandom (draw min max r.world.random).2) := by
  simp only [randomBy, Action.bind_run, Action.vars_run]
  cases randomRange locale n prev r.ctx.vars with
  | error err => rfl
  | ok range =>
    simp only [Action.lift_ok]
    split
    · rw [Action.bind_run]
      cases integerRange range.1 range.2 <;> rfl
    · rfl

theorem random_run (locale : Locale) (n : Node) (prev : Json) (r : Run) :
    random locale n prev r =
      match randomRange locale n prev r.ctx.vars with
      | .error err => .error err r
      | .ok (min, max) =>
        if n.flag "integer" then
          match integerRange min max with
          | .error err => .error err r
          | .ok (lo, hi) =>
            .ok (.int (r.world.random.drawInt lo hi).1)
              (r.withRandom (r.world.random.drawInt lo hi).2)
        else
          .ok (.ofFloat (r.world.random.draw min max).1)
            (r.withRandom (r.world.random.draw min max).2) :=
  randomBy_run ..

theorem setVariable_run (locale : Locale) (n : Node) (prev : Json) (r : Run) :
    setVariable locale n prev r =
      match n.requireText "name" with
      | .error err => .error err r
      | .ok name => match valueOf n "value" prev r.ctx.vars with
        | .error err => .error err r
        | .ok given =>
          match (match n.text? "valueType" with
            | some target => given.coerce locale target
            | none => .ok given) with
          | .error err => .error err r
          | .ok v => .ok v (if n.text? "scope" = some "contextual" then r.setContextual name v
            else r.setLocal name v) := by
  simp only [setVariable, Action.bind_run]
  cases n.requireText "name" with
  | error err => rfl
  | ok name =>
    simp only [Action.lift_ok, Action.vars_run]
    cases valueOf n "value" prev r.ctx.vars with
    | error err => rfl
    | ok given =>
      simp only [Action.lift_ok]
      cases n.text? "valueType" with
      | none => simp only []; split <;> rfl
      | some target =>
        simp only []
        cases given.coerce locale target with
        | error err => rfl
        | ok v => simp only []; split <;> rfl

theorem warnEach_run (nodes : List String) (r : Run) :
    (nodes.forM fun node => Action.warn (.contentWithoutEntity node)) r =
      .ok () (r.warn (nodes.map .contentWithoutEntity)) := by
  induction nodes generalizing r with
  | nil => simp only [List.map_nil, Run.warn, List.append_nil]; rfl
  | cons node nodes ih =>
    refine Eq.trans ?_ ((ih (r.warn [.contentWithoutEntity node])).trans ?_)
    · exact Action.bind_run (Action.warn (.contentWithoutEntity node)) _ r
    · simp [Run.warn]

theorem applyChange_run (e : Engine) (n : Node) (prev : Json) (r : Run) :
    applyChange e n prev r =
      match n.requireText "fieldToSet" with
      | .error err => .error err r
      | .ok field => match valueOf n "value" prev r.ctx.vars with
        | .error err => .error err r
        | .ok v => match changeTarget n field with
          | .error err => .error err r
          | .ok target =>
            let warned := r.warn
              ((leftOut e.game.catalog target v r.ctx.carry).map .contentWithoutEntity)
            match write e.game.catalog target v r.ctx.carry with
            | .ok carry => .ok v (warned.withCarry carry)
            | .error cause =>
              .ok v (warned.warn [.changeNotApplied r.ctx.flowId n.slotId (.lookup cause)]) := by
  simp only [applyChange, Action.bind_run, Action.context_run]
  cases n.requireText "fieldToSet" with
  | error err => rfl
  | ok field =>
    simp only [Action.lift_ok]
    cases valueOf n "value" prev r.ctx.vars with
    | error err => rfl
    | ok v =>
      simp only [Action.lift_ok]
      cases changeTarget n field with
      | error err => rfl
      | ok target =>
        simp only [Action.lift_ok, warnEach_run]
        cases write e.game.catalog target v r.ctx.carry <;> rfl

theorem runCode_run (e : Engine) (n : Node) (prev : Json) (r : Run) :
    runCode e n prev r =
      match n.requireText "code" with
      | .error err => .error err r
      | .ok source =>
        let (outcome, sandbox) := r.world.sandbox.execute e.limits e.timing
          { source, vars := r.ctx.vars.merged, previous := prev, budget := budgetOf e n }
          e.evaluator
        let after := (r.withSandbox sandbox).warn (outcome.error.bind Warning.ofRefusal?).toList
        match outcome.toResult with
        | .ok v => .ok v after
        | .error err => .error err.toNodeError after := by
  simp only [runCode, Action.bind_run]
  cases n.requireText "code" with
  | error err => rfl
  | ok source =>
    simp only [Action.lift_ok, Action.vars_run, Action.get_run]
    generalize r.world.sandbox.execute e.limits e.timing _ _ = ran
    obtain ⟨outcome, sandbox⟩ := ran
    simp only [Action.changeWorld, Action.modify_run]
    cases outcome.error.bind Warning.ofRefusal? <;> cases outcome.toResult <;>
      simp [Run.withSandbox, Run.warn] <;> rfl

/-! ### Operations on the player and the backend -/

theorem showOffer_run (e : Engine) (n : Node) (prev : Json) (r : Run) :
    showOffer e n prev r =
      match idOf n "offerId" prev r.ctx.vars with
      | .error err => .error err r
      | .ok id =>
        if (e.game.catalog.offer? id).isNone then .error (.lookup (.offer id)) r
        else .ok (.str id) (r.present id) := by
  simp only [showOffer, Action.bind_run, Action.vars_run]
  cases idOf n "offerId" prev r.ctx.vars with
  | error err => rfl
  | ok id =>
    simp only [Action.lift_ok]
    split <;> rfl

theorem sendEvent_run (e : Engine) (n : Node) (prev : Json) (r : Run) :
    sendEvent e n prev r =
      match n.requireText "eventName" with
      | .error err => .error err r
      | .ok name => match eventData n prev r.ctx with
        | .error err => .error err r
        | .ok data =>
          let payload : Json := .obj [("customData", .obj data), ("eventName", .str name)]
          .ok payload (r.handOver e "sendEvent" payload) := by
  simp only [sendEvent, Action.bind_run]
  cases n.requireText "eventName" with
  | error err => rfl
  | ok name =>
    simp only [Action.lift_ok, Action.context_run]
    cases eventData n prev r.ctx <;> rfl

theorem segmentChange_run (e : Engine) (n : Node) (prev : Json) (r : Run) :
    segmentChange e n prev r =
      match idOf n "segmentId" prev r.ctx.vars with
      | .error err => .error err r
      | .ok id => match segmentEdit n.op (r.world.player.hasSegment id) id with
        | .error err => .error err r
        | .ok none => .ok (.str id) r
        | .ok (some (action, edit)) =>
          .ok (.str id) (r.moveSegments e action id (edit r.world.player)) := by
  simp only [segmentChange, Action.bind_run, Action.vars_run]
  cases idOf n "segmentId" prev r.ctx.vars with
  | error err => rfl
  | ok id =>
    simp only [Action.lift_ok, Action.player_run]
    cases segmentEdit n.op (r.world.player.hasSegment id) id with
    | error err => rfl
    | ok edit? => cases edit? <;> rfl

/-! ### Split tests -/

theorem length_runningTotals {α : Type} [Add α] (start : α) (heights : List α) :
    (runningTotals start heights).length = heights.length := by
  induction heights generalizing start with
  | nil => rfl
  | cons h hs ih => simp [runningTotals, ih]

theorem length_ladder {splits : List Split} {rungs : List Float} (h : ladder splits = .ok rungs) :
    splits ≠ [] ∧ rungs.length = splits.length := by
  simp only [ladder] at h
  split at h
  · cases h
  · rename_i hne
    split at h
    · cases h
    · cases h
      exact ⟨by simpa using hne, by simp [rungsOf, length_runningTotals]⟩

theorem pickRung_lt {α : Type} [LT α] [DecidableLT α] {rungs : List α} (h : rungs ≠ [])
    (draw : α) : pickRung rungs draw < rungs.length := by
  have hpos : 0 < rungs.length := List.length_pos_iff.2 h
  unfold pickRung
  cases hi : rungs.findIdx? fun rung => decide (draw < rung) with
  | none => simp only [Option.getD_none]; omega
  | some i =>
    obtain ⟨hlt, -⟩ := List.findIdx?_eq_some_iff_getElem.1 hi
    simpa using hlt

/-- A draw picks one of the splits. -/
theorem getElem?_pickRung {n : Node} {splits : List Split} {rungs : List Float}
    (h : splitsOf n = .ok (splits, rungs)) (draw : Float) :
    ∃ split, splits[pickRung rungs draw]? = some split := by
  have hl : ladder splits = .ok rungs := by
    simp only [splitsOf, bind, Except.bind] at h
    split at h
    · cases h
    · rename_i given _
      cases hg : ladder given with
      | error err => rw [hg] at h; cases h
      | ok totals => rw [hg] at h; cases h; exact hg
  obtain ⟨hne, hlen⟩ := length_ladder hl
  have hr : rungs ≠ [] := by
    rintro rfl
    exact hne (List.length_eq_zero_iff.1 hlen.symm)
  exact ⟨_, List.getElem?_eq_getElem (hlen ▸ pickRung_lt hr draw)⟩

theorem splitTest_run (e : Engine) (n : Node) (r : Run) :
    splitTest e n r =
      match splitsOf n with
      | .error err => .error err r
      | .ok (splits, rungs) =>
        match Split.sticky? splits r.ctx.flowId n.slotId r.world.player.hasSegment with
        | some i => .ok (.int i) r
        | none =>
          let (x, random) := r.world.random.draw 0.0 100.0
          let i := pickRung rungs x
          match splits[i]? with
          | some split =>
            let key := Split.stickyKey r.ctx.flowId n.slotId split.slotId
            .ok (.int i)
              ((r.withRandom random).moveSegments e "addSegment" key
                (r.world.player.addSegment key))
          | none => .error (.validation (.note ("split index " ++ toString i ++ " out of range")))
            (r.withRandom random) := by
  simp only [splitTest, Action.bind_run]
  cases splitsOf n with
  | error err => rfl
  | ok splits =>
    simp only [Action.lift_ok, Action.context_run, Action.player_run]
    cases Split.sticky? splits.1 r.ctx.flowId n.slotId r.world.player.hasSegment with
    | some i => rfl
    | none =>
      simp only [Action.bind_run, Action.draw]
      show (match splits.1[pickRung splits.2 (r.world.random.draw 0.0 100.0).1]? with
        | some split => _
        | none => _ : Action Json) _ = _
      cases splits.1[pickRung splits.2 (r.world.random.draw 0.0 100.0).1]? <;> rfl

/-! ### Stats -/

/-- What is stored for a double is a number again. -/
theorem exists_toNumber_ofFloat (locale : Locale) (x : Float) :
    ∃ y, (Json.ofFloat x).toNumber locale = .ok y := by
  unfold Json.ofFloat
  split
  · exact ⟨_, rfl⟩
  · rename_i neg _
    cases neg <;> exact ⟨_, rfl⟩
  · split <;> exact ⟨_, rfl⟩

/-- The value of a shifted stat within its range, and the player who has it. -/
def settle (locale : Locale) (t : StatTemplate) (stat : String) (p : Player) :
    Except NodeError (Json × Player) :=
  (((p.stat? stat).getD .null).toNumber locale).map fun current =>
    (.ofFloat (t.clamp current),
      if t.clamp current != current then p.setStat stat (.ofFloat (t.clamp current)) else p)

/-- The value that an operation gives to a stat, and the player who has it. -/
def statEdit (locale : Locale) (op : Tag) (t : StatTemplate) (stat : String) (input : Json)
    (p : Player) : Except NodeError (Json × Player) :=
  let amount : Except NodeError Float :=
    if t.type ≠ .number then .error (.validation (.statKind op stat t.type.name))
    else input.toNumber locale
  match op with
  | .statSet => (statValue locale t input).map fun v => (v, p.setStat stat v)
  | .statAdd => amount.bind fun a => settle locale t stat (p.addToStat stat a)
  | .statSubtract => amount.bind fun a => settle locale t stat (p.subtractFromStat stat a)
  | op => .error (.validation (.wrongKind op "a stat"))

theorem shiftStat_run (locale : Locale) (t : StatTemplate) (stat : String)
    (shift : Player → Player) (r : Run) :
    shiftStat locale t stat shift r =
      match (((shift r.world.player).stat? stat).getD .null).toNumber locale with
      | .error err => .error err (r.withPlayer (shift r.world.player))
      | .ok current =>
        let p := shift r.world.player
        .ok (.ofFloat (t.clamp current)) (r.withPlayer
          (if t.clamp current != current then p.setStat stat (.ofFloat (t.clamp current))
            else p)) := by
  simp only [shiftStat, Action.bind_run, Action.changePlayer, Action.changeWorld,
    Action.modify_run, Action.player_run]
  cases (((shift r.world.player).stat? stat).getD .null).toNumber locale with
  | error err => rfl
  | ok current =>
    simp only [Action.lift_ok]
    split <;> rfl

/-- An addition to a stat does not fail: what it stores is a number. -/
theorem shiftStat_addToStat_run (locale : Locale) (t : StatTemplate) (stat : String) (a : Float)
    (r : Run) : ∃ v p, settle locale t stat (r.world.player.addToStat stat a) = .ok (v, p) ∧
      shiftStat locale t stat (fun p => p.addToStat stat a) r = .ok v (r.withPlayer p) := by
  obtain ⟨y, hy⟩ := exists_toNumber_ofFloat locale (r.world.player.numericStat stat + a)
  have h : (((r.world.player.addToStat stat a).stat? stat).getD .null).toNumber locale = .ok y := by
    simpa [Player.addToStat] using hy
  exact ⟨.ofFloat (t.clamp y), _, by rw [settle, h]; rfl, by rw [shiftStat_run, h]⟩

theorem statChange_run (e : Engine) (n : Node) (prev : Json) (r : Run) :
    statChange e n prev r =
      match idOf n "statId" prev r.ctx.vars with
      | .error err => .error err r
      | .ok stat => match e.game.template? stat with
        | none => .error (.lookup (.statTemplate stat)) r
        | some t => match valueOf n "value" prev r.ctx.vars with
          | .error err => .error err r
          | .ok input => match statEdit e.locale n.op t stat input r.world.player with
            | .error err => .error err r
            | .ok (v, p) => .ok v ((r.withPlayer p).setContextual stat v) := by
  simp only [statChange, Action.bind_run, Action.vars_run]
  cases idOf n "statId" prev r.ctx.vars with
  | error err => rfl
  | ok stat =>
    simp only [Action.lift_ok]
    cases e.game.template? stat with
    | none => rfl
    | some t =>
      simp only [Action.bind_run, Action.pure_run]
      cases valueOf n "value" prev r.ctx.vars with
      | error err => rfl
      | ok input =>
        simp only [Action.lift_ok, statEdit]
        generalize (if t.type ≠ .number then .error (.validation (.statKind n.op stat t.type.name))
          else input.toNumber e.locale : Except NodeError Float) = amount
        generalize n.op = op
        cases op with
        | statSet =>
          simp only [Action.bind_run]
          cases statValue e.locale t input <;> rfl
        | statAdd =>
          simp only [Action.bind_run]
          cases amount with
          | error err => rfl
          | ok a =>
            obtain ⟨v, p, hp, hs⟩ := shiftStat_addToStat_run e.locale t stat a r
            simp only [Except.bind, hp, Action.lift_ok, hs]
            rfl
        | statSubtract =>
          simp only [Action.bind_run]
          cases amount with
          | error err => rfl
          | ok a =>
            obtain ⟨v, p, hp, hs⟩ := shiftStat_addToStat_run e.locale t stat (-a) r
            simp only [Except.bind, Player.subtractFromStat, hp, Action.lift_ok, hs]
            rfl
        | _ => rfl

end FlowTree.Operation
