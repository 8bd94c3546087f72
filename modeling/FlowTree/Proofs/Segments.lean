import FlowTree.Proofs.Machine

/-!
# Segments along runs

A node changes the segments of the player in two ways only: it has the player join one segment, as a
split test does to pin its choice, or leave one. All other nodes, and all that lies around nodes,
leave the segments alone.
-/

namespace FlowTree

open Operation

/-- The node has the player join a segment. -/
inductive Node.Joins (n : Node) (prev : Json) (r : Run) : String → Prop
  | added {id : String} (op : n.op = .segmentAdd)
    (given : idOf n "segmentId" prev r.ctx.vars = .ok id) : Joins n prev r id
  | pinned {splits : List Split} {rungs : List Float} {s : Split} (op : n.op = .splitTest)
    (given : splitsOf n = .ok (splits, rungs))
    (free : Split.sticky? splits r.ctx.flowId n.slotId r.world.player.hasSegment = none)
    (picked : splits[pickRung rungs (r.world.random.draw 0.0 100.0).1]? = some s) :
    Joins n prev r (Split.stickyKey r.ctx.flowId n.slotId s.slotId)

/-- The node has the player leave a segment. -/
structure Node.Leaves (n : Node) (prev : Json) (r : Run) (id : String) : Prop where
  op : n.op = .segmentRemove
  given : idOf n "segmentId" prev r.ctx.vars = .ok id

/-! ### Players -/

namespace Player

theorem segments_enterFlow (p : Player) (flow : String) :
    (p.enterFlow flow).segments = p.segments := by
  unfold enterFlow
  split <;> rfl

theorem hasSegment_congr {p p' : Player} (h : p'.segments = p.segments) (id : String) :
    p'.hasSegment id = p.hasSegment id := by
  unfold hasSegment
  rw [h]

end Player

theorem segments_settle {locale : Locale} {t : StatTemplate} {stat : String} {p p' : Player}
    {v : Json} (h : settle locale t stat p = .ok (v, p')) : p'.segments = p.segments := by
  unfold settle at h
  cases hn : ((p.stat? stat).getD .null).toNumber locale with
  | error err => rw [hn] at h; cases h
  | ok current =>
    rw [hn] at h
    cases h
    split <;> rfl

theorem segments_statEdit {locale : Locale} {op : Tag} {t : StatTemplate} {stat : String}
    {input v : Json} {p p' : Player} (h : statEdit locale op t stat input p = .ok (v, p')) :
    p'.segments = p.segments := by
  unfold statEdit at h
  simp only [] at h
  generalize (if t.type ≠ .number then .error (.validation (.statKind op stat t.type.name))
    else input.toNumber locale : Except NodeError Float) = amount at h
  split at h
  · cases hv : statValue locale t input with
    | error err => rw [hv] at h; cases h
    | ok v => rw [hv] at h; cases h; rfl
  · cases amount with
    | error err => cases h
    | ok a => exact segments_settle (p := p.addToStat stat a) h
  · cases amount with
    | error err => cases h
    | ok a => exact segments_settle (p := p.subtractFromStat stat a) h
  · cases h

/-- The node that the machine is about to handle. -/
def Machine.Handles (m : Machine) (n : Node) (prev : Json) (r : Run) : Prop :=
  r.Handles n ∧ r.world = m.world ∧
    ∃ f todo below, m.frames = .run f r.ctx ((n, prev) :: todo) :: below

/-! ### Nodes -/

/-- How the segments are after a node, if at most one was joined or left. -/
inductive Node.Moves (n : Node) (prev : Json) (r : Run) (p : Player) : Prop
  | stayed (same : p.segments = r.world.player.segments)
  | joined {id : String} (joins : n.Joins prev r id)
    (same : p.segments = (r.world.player.addSegment id).segments)
  | left {id : String} (leaves : n.Leaves prev r id)
    (same : p.segments = (r.world.player.removeSegment id).segments)

namespace Engine
variable {e : Engine} {call : Caller} {n : Node} {prev : Json} {r r' : Run}

theorem Outcome.moves {result : EStateM.Result NodeError Run Json}
    (h : Outcome e call n prev r result)
    (hcall : ∀ trigger seed depth w,
      (call trigger seed depth w).2.player.segments = w.player.segments) :
    n.Moves prev r (Action.resultRun result).world.player := by
  cases h with
  | assigned splits rungs s op given free picked =>
    exact .joined (.pinned op given free picked) rfl
  | segmentAdded id op given free => exact .joined (.added op given) rfl
  | segmentRemoved id op given held => exact .left ⟨op, given⟩ rfl
  | statChanged stat t input v p op given declared edited =>
    exact .stayed (segments_statEdit edited)
  | called trigger locals w op given guard returned =>
    have hw := hcall trigger prev (r.ctx.callDepth + 1) r.world
    rw [returned] at hw
    exact .stayed hw
  | callFailed trigger err w op given guard returned =>
    have hw := hcall trigger prev (r.ctx.callDepth + 1) r.world
    rw [returned] at hw
    exact .stayed hw
  | _ => exact .stayed rfl

theorem segments_hostCaller (e : Engine) (trigger : String) (seed : Json) (depth : Nat)
    (w : World) :
    (e.hostCaller trigger seed depth w).2.player.segments = w.player.segments := by
  unfold hostCaller
  split <;> rfl

theorem segments_begin (f : Flow) (inv : Invocation) (w : World) :
    (e.begin f inv w).world.player.segments = w.player.segments := by
  show (enter { w with pool := w.pool.checkout.2 } f).player.segments = w.player.segments
  unfold enter
  split
  · exact Player.segments_enterFlow ..
  · rfl

theorem proceed_player (f : Flow) (n : Node) (todo : List (Node × Json)) (below : List Frame)
    (result : EStateM.Result NodeError Run Json) :
    (proceed f n todo below result).world.player = (Action.resultRun result).world.player := by
  obtain ⟨log, hworld⟩ := Run.settle_world n result
  simp only [proceed, hworld]

/-- A step of the machine leaves the segments as they are, but for the one that the node joins or
leaves. -/
theorem Move.moves {m m' : Machine} (h : e.Move m m') :
    m'.world.player.segments = m.world.player.segments ∨
      ∃ n prev r, m.Handles n prev r ∧ n.Moves prev r m'.world.player := by
  cases h with
  | @started _ inv _ f _ _ w => exact .inl (segments_begin (e := e) f inv w)
  | passedOver => exact .inl rfl
  | returned =>
    rw [proceed_player]
    exact .inl rfl
  | finished => exact .inl rfl
  | skipped => exact .inl rfl
  | fired => exact .inl rfl
  | @performed f ctx n prev todo below w live =>
    refine .inr ⟨n, prev, ⟨ctx, w⟩, ⟨live, rfl, f, todo, below, rfl⟩, ?_⟩
    rw [proceed_player]
    exact (perform_outcome e e.hostCaller n prev ⟨ctx, w⟩).moves (segments_hostCaller e)

end Engine

end FlowTree
