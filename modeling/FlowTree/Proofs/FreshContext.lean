import FlowTree.Proofs.Lockstep
import FlowTree.Proofs.Session

/-!
# Runs in contexts of their own

An engine without a pool makes a new context for each run and throws it away after the run. An
engine with a pool does the same for all that a host can see, however large the pool is and whatever
runs were before, because all contexts that wait in the pool are in their initial state.
-/

namespace FlowTree

/-! ### Worlds with and without a pool -/

namespace World

def unpooled (w : World) : World :=
  { w with pool := .start 0 0 }

/-- The first world is the second one with a clean pool of its own. -/
structure Pooled (w w' : World) : Prop where
  clean : w.pool.Clean
  unpooled : w.unpooled = w'.unpooled

namespace Pooled
variable {w w' : World}

theorem of_clean {pool : Pool} (hclean : pool.Clean) (w : World) :
    Pooled { w with pool } w := ⟨hclean, rfl⟩

theorem eq_withPool (h : w.Pooled w') : w = { w' with pool := w.pool } := by
  have hrest := h.unpooled
  obtain ⟨⟩ := w
  obtain ⟨⟩ := w'
  cases hrest
  rfl

theorem send (backend : Backend) (action : Handover) (h : w.Pooled w') :
    (World.send backend w action).Pooled (World.send backend w' action) := by
  have hclean := h.clean
  rw [h.eq_withPool]
  generalize w.pool = pool at hclean
  unfold World.send
  simp only
  split
  · exact ⟨hclean, rfl⟩
  · exact ⟨hclean, rfl⟩

theorem deliver (backend : Backend) (h : w.Pooled w') :
    (w.deliver backend).Pooled (w'.deliver backend) := by
  have hsend (actions : List Handover) : ∀ {w w' : World}, w.Pooled w' →
      (actions.foldl (World.send backend) w).Pooled
        (actions.foldl (World.send backend) w') := by
    induction actions with
    | nil => exact fun h => h
    | cons action actions ih => exact fun h => ih (h.send backend action)
  have houtbox : w.outbox = w'.outbox := by rw [h.eq_withPool]
  unfold World.deliver
  rw [houtbox]
  refine hsend _ ⟨h.clean, ?_⟩
  exact congrArg (fun w : World => { w with outbox := [] }) h.unpooled

end Pooled

end World

/-! ### Runs -/

namespace Engine

/-- The run of a flow before its first visit, in a new context. -/
def beginFresh (e : Engine) (f : Flow) (inv : Invocation) (w : World) : Run where
  ctx :=
    { flowId := f.id, callDepth := inv.depth, carry := inv.carry
      vars := e.seedVariables (enter w f).player inv.contextual {} }
  world := enter w f

/-- What a run leaves behind without its context. -/
def finishFresh (f : Flow) (r : Run) : FlowResult × World :=
  ({ flowId := f.id, locals := r.ctx.vars.locals, carry := r.ctx.carry, stopped := r.ctx.stopped },
    r.world)

def runFresh (e : Engine) : Runner := fun call f inv w =>
  finishFresh f (e.visit call f.root inv.seed (e.beginFresh f inv w))

variable {e : Engine}

theorem blindTo_pool (e : Engine) : e.BlindTo World.Pooled := by
  refine e.blindTo_of_bare (fun w w' h => ?_) (fun w w' v h => ⟨h.clean, ?_⟩)
  · exact congrArg (fun w : World => { w with log := [] }) h.unpooled
  · have hlog : w.log = w'.log := by rw [h.eq_withPool]
    simp only [World.unpooled, World.under, hlog]

theorem begin_pooled (f : Flow) (inv : Invocation) {w w' : World} (h : w.Pooled w') :
    (e.begin f inv w).Alike World.Pooled (e.beginFresh f inv w') := by
  have hctx := h.clean.checkout_fst
  have hclean := h.clean.checkout_snd
  have hworld : { w with pool := w.pool.checkout.2 } = { w' with pool := w.pool.checkout.2 } := by
    rw [h.eq_withPool]
  unfold begin beginFresh
  simp only [hctx, hworld, enter_withPool]
  exact ⟨rfl, .of_clean hclean _⟩

theorem finish_pooled (f : Flow) {r r' : Run} (h : r.Alike World.Pooled r') :
    AlikeAnswers World.Pooled (finish f r) (finishFresh f r') where
  answer := by
    unfold finish finishFresh Variables.takeLocals
    rw [h.ctx]
  world := ⟨h.world.clean.release _, h.world.unpooled⟩

theorem runWith_pooled (e : Engine) : Runner.Alike World.Pooled e.runWith e.runFresh := by
  intro call call' hcall f inv w w' h
  refine finish_pooled f ?_
  exact e.blindTo_pool.visit hcall f.root inv.seed (begin_pooled f inv h)

end Engine

/-! ### Sessions -/

/-- What a host gets to know of what it does. -/
inductive Reply
  | run (result : FlowResult)
  | fired (result : TriggerResult)
  | done

/-- What a host does: something with an engine, or a change of its own to the player and to all else
that is not the engine's. -/
inductive Turn
  | act (act : HostAct)
  | change (g : World → World)

namespace Turn

def answer : Turn → World → Reply × World
  | act (.execute e f inv), w => Prod.map .run id (e.execute f inv w)
  | act (.fire e accepts inv), w => Prod.map .fired id (e.fire accepts inv w)
  | act (.deliver backend), w => (.done, w.deliver backend)
  | change g, w => (.done, { g w.unpooled with pool := w.pool })

/-- The answer of engines without a pool. -/
def answerFresh : Turn → World → Reply × World
  | act (.execute e f inv), w => Prod.map .run id (e.runFresh.execute e f inv w)
  | act (.fire e accepts inv), w => Prod.map .fired id (e.runFresh.fire e accepts inv w)
  | act (.deliver backend), w => (.done, w.deliver backend)
  | change g, w => (.done, { g w.unpooled with pool := w.pool })

theorem answer_pooled (t : Turn) {w w' : World} (h : w.Pooled w') :
    AlikeAnswers World.Pooled (t.answer w) (t.answerFresh w') := by
  cases t with
  | act act =>
    cases act with
    | execute e f inv =>
      obtain ⟨hresult, hw⟩ := e.runWith_pooled.execute e f inv h
      rw [Runner.execute_runWith] at hresult hw
      exact ⟨congrArg Reply.run hresult, hw⟩
    | fire e accepts inv =>
      obtain ⟨hresult, hw⟩ := e.runWith_pooled.fire e accepts inv h
      rw [Runner.fire_runWith] at hresult hw
      exact ⟨congrArg Reply.fired hresult, hw⟩
    | deliver backend => exact ⟨rfl, h.deliver backend⟩
  | change g =>
    refine ⟨rfl, h.clean, ?_⟩
    show (g w.unpooled).unpooled = (g w'.unpooled).unpooled
    rw [h.unpooled]

end Turn

/-- The world after all turns of a session. -/
def afterTurns (answer : Turn → World → Reply × World) (ts : List Turn) (w : World) : World :=
  ts.foldl (fun w t => (answer t w).2) w

/-- What a host gets to know in a session: the reply to each turn, and all of the world after it but
the pool. -/
def transcript (answer : Turn → World → Reply × World) : List Turn → World → List (Reply × World)
  | [], _ => []
  | t :: ts, w => ((answer t w).1, (answer t w).2.unpooled) :: transcript answer ts (answer t w).2

theorem transcript_pooled (ts : List Turn) {w w' : World} (h : w.Pooled w') :
    transcript Turn.answer ts w = transcript Turn.answerFresh ts w' ∧
      (afterTurns Turn.answer ts w).Pooled (afterTurns Turn.answerFresh ts w') := by
  induction ts generalizing w w' with
  | nil => exact ⟨rfl, h⟩
  | cons t ts ih =>
    obtain ⟨hanswer, hw⟩ := t.answer_pooled h
    obtain ⟨hrest, hend⟩ := ih hw
    refine ⟨?_, hend⟩
    rw [transcript, transcript, hanswer, hw.unpooled, hrest]

/-- Whatever pool an engine starts with, no reply in a session tells it from an engine without one,
and no world after a turn does. In the middle of a run as well, when others are under way, all that
can be run next leaves behind what it leaves behind in a new context. -/
theorem transcript_eq_fresh (prewarm maxIdle : Nat) (w : World) (ts : List Turn) :
    let start : World := { w with pool := .start prewarm maxIdle }
    transcript Turn.answer ts start = transcript Turn.answerFresh ts w ∧
      ∀ (e : Engine) frames m, e.Reaches ⟨frames, afterTurns Turn.answer ts start⟩ m →
        ∀ levels f inv,
          let run := e.runWith (e.caller levels) f inv m.world
          let fresh := e.runFresh (e.runFresh.caller e levels) f inv m.world
          run.1 = fresh.1 ∧ run.2.unpooled = fresh.2.unpooled := by
  intro start
  obtain ⟨hsame, hend⟩ := transcript_pooled ts (.of_clean (Pool.clean_start prewarm maxIdle) w)
  refine ⟨hsame, fun e frames m hreach levels f inv => ?_⟩
  have hclean : m.world.pool.Clean := e.keeps_clean.reaches hreach hend.clean
  have hcaller := e.runWith_pooled.caller e levels
  rw [Runner.caller_runWith] at hcaller
  obtain ⟨hresult, hw⟩ := e.runWith_pooled _ _ hcaller f inv m.world m.world ⟨hclean, rfl⟩
  exact ⟨hresult, hw.unpooled⟩

theorem transcript_eq_fresh_of_nested :
    let reward : Flow := ⟨"reward", ⟨.customTrigger, "root", [("triggerId", .str "reward")],
      [⟨.setVariable, "s", [("name", .str "x"), ("value", (Ref.literal (.int 1)).toJson)],
        [⟨.stop, "r", [], []⟩]⟩]⟩⟩
    let f : Flow := ⟨"f", ⟨.callCustomFlow, "root", [("triggerId", .str "reward")], []⟩⟩
    let e : Engine :=
      { game := { flows := [reward] }, timing := { clock := 0, elapsed := .ofMillis 0 } }
    let ts : List Turn :=
      [.act (.execute e f {}),
        .change fun w => { w with player := w.player.addSegment reward.autoSegment },
        .act (.fire e (Engine.waitsFor .customTrigger "triggerId" "reward") {})]
    let w : World := {}
    let start : World := { w with pool := .start 1 1 }
    transcript Turn.answer ts start = transcript Turn.answerFresh ts w ∧
      ∃ m, e.Reaches ⟨[.firing (fun _ => true) {} [] [f]], afterTurns Turn.answer ts start⟩ m ∧
        m.frames.length = 4 ∧ m.world.pool.idle = [] ∧
        let inv : Invocation := { depth := 2 }
        (e.runWith (e.caller 6) reward inv m.world).1 =
            (e.runFresh (e.runFresh.caller e 6) reward inv m.world).1 ∧
          (e.runWith (e.caller 6) reward inv m.world).1.locals = [("x", .int 1)] := by
  intro reward f e ts w start
  obtain ⟨hsame, hfresh⟩ := transcript_eq_fresh 1 1 w ts
  refine ⟨hsame, ?_⟩
  have hclean : (afterTurns Turn.answer ts start).pool.Clean :=
    (transcript_pooled ts (.of_clean (Pool.clean_start 1 1) w)).2.clean
  -- a run of `f` is under way, and in it one of `reward`
  have hreach (w : World) (hw : w.pool.Clean) :
      e.Reaches ⟨[.firing (fun _ => true) {} [] [f]], w⟩
        ⟨[.run reward (e.begin reward { depth := 1 } (e.begin f {} w).world).ctx
            [(reward.root, .null)],
          .firing (Engine.waitsFor .customTrigger "triggerId" "reward") { depth := 1 } [] [],
          .run f (e.begin f {} w).ctx [(f.root, .null)], .firing (fun _ => true) {} [] []],
          (e.begin reward { depth := 1 } (e.begin f {} w).world).world⟩ := by
    have hlive : Run.Handles (e.begin f {} w) f.root := ⟨e.begin_stopped f {} hw, by decide⟩
    have hfires : e.fired? f.root .null (e.begin f {} w).ctx = some "reward" := rfl
    have hawaited : Engine.waitsFor .customTrigger "triggerId" "reward" reward = true := rfl
    refine (Engine.reaches_step (.started rfl)).trans ?_
    refine (Engine.reaches_step (.fired hlive hfires)).trans ?_
    exact Engine.reaches_step (.started hawaited)
  obtain ⟨hresult, -⟩ := hfresh e _ _ (hreach _ hclean) 6 reward { depth := 2 }
  exact ⟨_, hreach _ hclean, rfl, by decide +kernel, hresult, by decide +kernel⟩

end FlowTree
