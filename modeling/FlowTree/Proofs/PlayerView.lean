import FlowTree.Proofs.StatChange
import FlowTree.Proofs.VisitOrder

/-!
# The player as a run sees it

The contextual variables of a run describe the player: one lists the segments, and each template has
one for its stat. A run sets them all when it begins, and a node that changes the player sets the one
that is concerned. So the run sees the player as the player is, as long as nobody else changes the
player. The flows that a node has called do: they see what they have changed, and the run of the node
goes on with what it has seen before.
-/

namespace FlowTree

open Operation

/-! ### Traits -/

/-- A part of the player that runs have a contextual variable for. -/
inductive Trait
  | segments
  | stat (t : StatTemplate)

namespace Trait

def name : Trait → String
  | segments => Engine.segmentVariable
  | stat t => t.internalId

def value (p : Player) : Trait → Json
  | segments => .strings p.segments
  | stat t => Engine.seedOf p t

end Trait

namespace Engine

def traits (e : Engine) : List Trait :=
  .segments :: e.game.templates.map .stat

/-- The variables for the player, each for one trait if there is none twice. -/
def viewNames (e : Engine) : List String :=
  segmentVariable :: e.game.templates.map StatTemplate.internalId

theorem map_name_traits (e : Engine) : e.traits.map Trait.name = e.viewNames := by
  simp only [traits, viewNames, List.map_cons, List.map_map]
  rfl

theorem trait_eq_of_name {e : Engine} (hnames : e.viewNames.Nodup) {a b : Trait}
    (ha : a ∈ e.traits) (hb : b ∈ e.traits) (h : a.name = b.name) : a = b := by
  rw [← map_name_traits] at hnames
  exact List.inj_on_of_nodup_map hnames ha hb h

theorem stat_mem_traits {e : Engine} {t : StatTemplate} (h : t ∈ e.game.templates) :
    .stat t ∈ e.traits :=
  List.mem_cons_of_mem _ (List.mem_map_of_mem h)

theorem of_template? {e : Engine} {stat : String} {t : StatTemplate}
    (h : e.game.template? stat = some t) : t ∈ e.game.templates ∧ t.internalId = stat :=
  ⟨List.mem_of_find?_eq_some h, by simpa using List.find?_some h⟩

end Engine

/-- The variable for a trait shows what the player has. -/
def Run.Shows (r : Run) (a : Trait) : Prop :=
  r.ctx.vars.contextual? a.name = some (a.value r.world.player)

/-- The run sees the player as the player is. -/
structure Run.Current (e : Engine) (r : Run) : Prop where
  segments : r.ctx.vars.contextual? Engine.segmentVariable = some (.strings r.world.player.segments)
  stats : ∀ t ∈ e.game.templates, r.ctx.vars.contextual? t.internalId =
    some ((r.world.player.stat? t.internalId).getD t.default)

theorem Run.current_of_shows {e : Engine} {r : Run} (h : ∀ a ∈ e.traits, r.Shows a) :
    r.Current e where
  segments := h .segments List.mem_cons_self
  stats t ht := h (.stat t) (Engine.stat_mem_traits ht)

/-! ### Nodes -/

/-- The node sets a contextual variable. -/
structure Node.SetsContextual (n : Node) (name : String) : Prop where
  op : n.op = .setVariable
  scope : n.text? "scope" = some "contextual"
  named : n.text? "name" = some name

namespace Run.Shows
variable {e : Engine} {r q : Run} {a b : Trait}

/-- A run that sets the variable for the trait that has changed goes on to show all of them. -/
theorem follow (hnames : e.viewNames.Nodup) (ha : a ∈ e.traits) (hb : b ∈ e.traits)
    (h : r.Shows a)
    (hvars : q.ctx.vars = r.ctx.vars.setContextual b.name (b.value q.world.player))
    (hrest : a.name ≠ b.name → a.value q.world.player = a.value r.world.player) :
    q.Shows a := by
  unfold Run.Shows
  rw [hvars]
  by_cases hname : a.name = b.name
  · obtain rfl := Engine.trait_eq_of_name hnames ha hb hname
    exact Variables.contextual?_setContextual_self ..
  · rw [Variables.contextual?_setContextual_of_ne hname, hrest hname]
    exact h

theorem moveSegments (hnames : e.viewNames.Nodup) (ha : a ∈ e.traits) (h : r.Shows a)
    {p : Player} (hp : p.stats = r.world.player.stats) (action id : String) :
    (r.moveSegments e action id p).Shows a := by
  refine h.follow (q := r.moveSegments e action id p) hnames ha (b := .segments)
    List.mem_cons_self rfl fun hname => ?_
  show a.value p = a.value r.world.player
  cases a with
  | segments => exact absurd rfl hname
  | stat t => simp only [Trait.value, Engine.seedOf, Player.stat?, hp]

theorem setStat (hnames : e.viewNames.Nodup) (ha : a ∈ e.traits) (h : r.Shows a) {stat : String}
    {t : StatTemplate} (declared : e.game.template? stat = some t) (v : Json) :
    (r.setStat stat v).Shows a := by
  obtain ⟨ht, rfl⟩ := Engine.of_template? declared
  have hvalue : (Trait.stat t).value (r.setStat t.internalId v).world.player = v := by
    simp only [Trait.value, Engine.seedOf, Run.stat?_setStat, Option.getD_some]
  refine h.follow (q := r.setStat t.internalId v) hnames ha (Engine.stat_mem_traits ht) ?_
    fun hname => ?_
  · rw [hvalue]
    rfl
  · show a.value (r.world.player.setStat t.internalId v) = a.value r.world.player
    cases a with
    | segments => rfl
    | stat u =>
      have hid : u.internalId ≠ t.internalId := hname
      simp only [Trait.value, Engine.seedOf, Player.stat?_setStat_of_ne hid]

end Run.Shows

namespace Engine
variable {e : Engine} {call : Caller} {n : Node} {prev : Json} {r r' : Run} {a : Trait}

/-- Whatever a node does, the run still shows a trait, unless the node itself sets the variable or
has called flows that change the trait. -/
theorem Outcome.shows {result : EStateM.Result NodeError Run Json}
    (ho : Outcome e call n prev r result) (hnames : e.viewNames.Nodup) (ha : a ∈ e.traits)
    (hset : ¬ n.SetsContextual a.name)
    (hcall : n.op = .callCustomFlow →
      a.value (Action.resultRun result).world.player = a.value r.world.player)
    (h : r.Shows a) : (Action.resultRun result).Shows a := by
  have hcalled (w : World) (hw : a.value w.player = a.value r.world.player) :
      Run.Shows { r with world := w } a := by
    unfold Run.Shows
    rw [hw]
    exact h
  cases ho with
  | contextualSet name v op scope named =>
    have hne : a.name ≠ name := fun heq => hset ⟨op, scope, heq ▸ named⟩
    exact (Variables.contextual?_setContextual_of_ne hne ..).trans h
  | assigned splits rungs s op given free picked =>
    exact Run.Shows.moveSegments (r := r.withRandom (r.world.random.draw 0.0 100.0).2) hnames ha h
      (Player.stats_addSegment ..) "addSegment" (Split.stickyKey r.ctx.flowId n.slotId s.slotId)
  | segmentAdded id op given free => exact h.moveSegments hnames ha (Player.stats_addSegment ..) _ _
  | segmentRemoved id op given held =>
    exact h.moveSegments hnames ha (p := r.world.player.removeSegment id) rfl _ _
  | statChanged stat t input v p op given declared edited =>
    rw [statEdit_eq_setStat edited]
    exact h.setStat hnames ha declared v
  | called trigger locals w op given guard returned => exact hcalled w (hcall op)
  | callFailed trigger err w op given guard returned => exact hcalled w (hcall op)
  | _ => exact h

theorem shows_after {s : Step} (hnames : e.viewNames.Nodup) (ha : a ∈ e.traits)
    (hset : ¬ s.node.SetsContextual a.name)
    (hcall : s.node.op = .callCustomFlow →
      a.value (s.after e call).world.player = a.value s.run.world.player)
    (h : s.run.Shows a) : (s.after e call).Shows a := by
  obtain ⟨result, ho, ⟨log, hworld⟩, locals, stopped, hctx⟩ := s.after_cases e call
  have hshows : (Action.resultRun result).Shows a := by
    refine ho.shows hnames ha hset (fun op => ?_) h
    rw [← hcall op, hworld]
  unfold Run.Shows
  rw [hctx, hworld]
  exact hshows

/-- A call gives nothing to the context of its run but local variables. -/
theorem contextual?_called {s : Step} (op : s.node.op = .callCustomFlow) (name : String) :
    (s.after e call).ctx.vars.contextual? name = s.run.ctx.vars.contextual? name := by
  have hcontext : (Action.resultRun (s.outcome e call)).ctx = s.run.ctx := by
    simp only [Step.outcome, perform, op, callCustomFlow_run]
    cases idOf s.node "triggerId" s.prev s.run.ctx.vars with
    | error err => rfl
    | ok trigger =>
      simp only
      split
      · rfl
      · rcases call trigger s.prev (s.run.ctx.callDepth + 1) s.run.world with ⟨_ | locals, w⟩ <;> rfl
  obtain ⟨locals, stopped, hctx⟩ := Run.settle_context s.node (s.outcome e call)
  rw [Step.after, hctx, hcontext]
  rfl

/-! ### The beginning of a run -/

theorem contextual?_foldl_of_ne {name : String} {bs : List (String × Json)}
    (h : ∀ b ∈ bs, b.1 ≠ name) (vars : Variables) :
    (bs.foldl (fun vs b => vs.setContextual b.1 b.2) vars).contextual? name =
      vars.contextual? name := by
  induction bs generalizing vars with
  | nil => rfl
  | cons b bs ih =>
    rw [List.foldl_cons, ih fun c hc => h c (List.mem_cons_of_mem b hc)]
    exact Variables.contextual?_setContextual_of_ne (h b List.mem_cons_self).symm ..

theorem contextual?_foldl_of_mem {b : String × Json} {bs : List (String × Json)} (hb : b ∈ bs)
    (hnodup : (bs.map Prod.fst).Nodup) (vars : Variables) :
    (bs.foldl (fun vs b => vs.setContextual b.1 b.2) vars).contextual? b.1 = some b.2 := by
  induction bs generalizing vars with
  | nil => cases hb
  | cons c bs ih =>
    obtain ⟨hfirst, hrest⟩ := List.nodup_cons.1 hnodup
    rw [List.foldl_cons]
    rcases List.mem_cons.1 hb with rfl | hb
    · -- no later binding is for the same variable
      have hne : ∀ d ∈ bs, d.1 ≠ b.1 := fun d hd heq => hfirst (heq ▸ List.mem_map_of_mem hd)
      rw [contextual?_foldl_of_ne hne]
      exact Variables.contextual?_setContextual_self ..
    · exact ih hb hrest _

theorem contextual?_seedVariables (hnames : e.viewNames.Nodup) (p : Player)
    {contextual : List (String × Json)} (ha : a ∈ e.traits)
    (hseed : ∀ b ∈ contextual, b.1 ≠ a.name) (vars : Variables) :
    (e.seedVariables p contextual vars).contextual? a.name = some (a.value p) := by
  unfold seedVariables
  rw [contextual?_foldl_of_ne hseed]
  obtain ⟨hsegment, htemplates⟩ := List.nodup_cons.1 hnames
  cases a with
  | segments => exact Variables.contextual?_setContextual_self ..
  | stat t =>
    have ht : t ∈ e.game.templates := by
      rcases List.mem_cons.1 ha with heq | hmem
      · cases heq
      · obtain ⟨u, hu, heq⟩ := List.mem_map.1 hmem
        cases heq
        exact hu
    have hne : t.internalId ≠ segmentVariable :=
      fun heq => hsegment (heq ▸ List.mem_map_of_mem ht)
    rw [Trait.name, Variables.contextual?_setContextual_of_ne hne,
      ← List.foldl_map (f := fun t => (t.internalId, seedOf p t))
        (g := fun vs b => Variables.setContextual vs b.1 b.2)]
    refine contextual?_foldl_of_mem (b := (t.internalId, seedOf p t)) ?_ ?_ vars
    · exact List.mem_map_of_mem (f := fun t => (t.internalId, seedOf p t)) ht
    · rw [List.map_map]
      exact htemplates

/-- Nothing but the engine sets the variables for the player: no binding that the caller gives, and
no node of the flow. -/
structure LeavesView (e : Engine) (f : Flow) (inv : Invocation) : Prop where
  seed : ∀ b ∈ inv.contextual, b.1 ∉ e.viewNames
  node : ∀ path n, f.root.at? path = some n → ∀ name ∈ e.viewNames, ¬ n.SetsContextual name

theorem name_mem_viewNames (ha : a ∈ e.traits) : a.name ∈ e.viewNames := by
  rw [← map_name_traits]
  exact List.mem_map_of_mem ha

theorem shows_begin (hnames : e.viewNames.Nodup) {f : Flow} {inv : Invocation}
    (hleaves : LeavesView e f inv) (w : World) (ha : a ∈ e.traits) :
    (e.begin f inv w).Shows a := by
  refine contextual?_seedVariables hnames _ ha (fun b hb heq => ?_) _
  exact hleaves.seed b hb (heq ▸ name_mem_viewNames ha)

/-! ### Runs -/

/-- What a run has seen of a trait stays true until a flow that one of its nodes has called changes
the trait. -/
theorem Linked.shows (hnames : e.viewNames.Nodup) {ss : List Step} (h : Linked e call r ss r')
    (ha : a ∈ e.traits) (hset : ∀ s ∈ ss, ¬ s.node.SetsContextual a.name)
    (hcalls : ∀ s ∈ ss, s.node.op = .callCustomFlow →
      a.value (s.after e call).world.player = a.value s.run.world.player)
    (hr : r.Shows a) : r'.Shows a :=
  h.keeps (P := fun r => r.Shows a)
    (fun s hs => shows_after hnames ha (hset s hs) (hcalls s hs)) hr

theorem LeavesView.steps {f : Flow} {inv : Invocation} (h : LeavesView e f inv) (ha : a ∈ e.traits)
    {s : Step} (hs : s ∈ steps e call f.root prev r) : ¬ s.node.SetsContextual a.name :=
  h.node s.path s.node (placed_steps f.root prev r s hs) a.name (name_mem_viewNames ha)

/-- The run of a flow that calls no other one sees the player as the player is, whenever a node is
handled and at the end. -/
theorem execute_current (e : Engine) (hnames : e.viewNames.Nodup) (f : Flow) (inv : Invocation)
    (w : World) (hleaves : LeavesView e f inv)
    (hcalls : ∀ path n, f.root.at? path = some n → n.op ≠ .callCustomFlow) :
    let call := e.callerAt inv.depth
    let ss := steps e call f.root inv.seed (e.begin f inv w)
    (∀ s ∈ ss, s.run.Current e) ∧
      ∃ r, Linked e call (e.begin f inv w) ss r ∧ finish f r = e.execute f inv w ∧
        r.Current e := by
  intro call ss
  have hlinked : Linked e call (e.begin f inv w) ss _ := linked_steps f.root inv.seed _
  have hquiet : ∀ s ∈ ss, s.node.op ≠ .callCustomFlow := fun s hs =>
    hcalls s.path s.node (placed_steps f.root inv.seed _ s hs)
  -- between any two of its steps the run has changed the player itself
  have hcurrent (ss' : List Step) (hss : ∀ s ∈ ss', s ∈ ss) (r : Run)
      (h : Linked e call (e.begin f inv w) ss' r) : r.Current e := by
    refine Run.current_of_shows fun a ha => ?_
    refine h.shows hnames ha (fun s hs => hleaves.steps ha (hss s hs)) (fun s hs op => ?_) ?_
    · exact absurd op (hquiet s (hss s hs))
    · exact shows_begin hnames hleaves w ha
  refine ⟨fun s hs => ?_, _, hlinked, rfl, hcurrent ss (fun s hs => hs) _ hlinked⟩
  obtain ⟨before, after, hss⟩ := List.append_of_mem hs
  refine hcurrent before (fun t ht => ?_) s.run ?_
  · rw [hss]
    exact List.mem_append_left _ ht
  · rw [hss] at hlinked
    exact hlinked.split.1

theorem execute_current_of_split :
    let e : Engine :=
      { game := { templates := [(StatTemplate.number "energy").withRange 0.0 100.0] },
        timing := { clock := 0, elapsed := .ofMillis 0 } }
    let add : Node := ⟨.statAdd, "a",
      [("statId", .str "energy"), ("value", (Ref.literal (.int 50)).toJson)], []⟩
    let test : Node := ⟨.splitTest, "t", [("splits", .arr [(Split.toJson ⟨"x", 100.0⟩)])], [add]⟩
    let f : Flow := ⟨"f", ⟨.sessionStart, "root", [], [test, add]⟩⟩
    let w : World := { player := { segments := ["vip"], stats := [("energy", .int 10)] } }
    ∃ r, finish f r = e.execute f {} w ∧
      r.ctx.vars.contextual? "energy" = some (.int 100) ∧
      r.ctx.vars.contextual? "segment" = some (.strings ["vip", "flow_f_splitTest_t_x"]) := by
  intro e add test f w
  have hplaces {P : Node → Prop} (hroot : P f.root) (htest : P test) (hadd : P add) :
      ∀ path n, f.root.at? path = some n → P n := by
    have hleaf : ∀ path n, add.at? path = some n → P n :=
      (Node.forall_at?_iff add).2 ⟨hadd, fun c hc => absurd hc List.not_mem_nil⟩
    refine (Node.forall_at?_iff f.root).2 ⟨hroot, List.forall_mem_cons.2 ⟨?_, ?_⟩⟩
    · exact (Node.forall_at?_iff test).2 ⟨htest, List.forall_mem_singleton.2 hleaf⟩
    · exact List.forall_mem_singleton.2 hleaf
  have hleaves : LeavesView e f {} := by
    refine ⟨fun b hb => absurd hb List.not_mem_nil, ?_⟩
    refine hplaces ?_ ?_ ?_ <;> rintro name - ⟨op, -, -⟩ <;> cases op
  obtain ⟨-, r, -, hr, hcurrent⟩ := execute_current e (by decide) f {} w hleaves
    (hplaces (by decide) (by decide) (by decide))
  have hplayer : r.world.player = (e.execute f {} w).2.player := by
    rw [← hr]
    rfl
  refine ⟨r, hr, ?_, ?_⟩
  · refine (hcurrent.stats _ List.mem_cons_self).trans ?_
    rw [hplayer]
    decide +kernel
  · refine hcurrent.segments.trans ?_
    rw [hplayer]
    decide +kernel

/-! ### Runs that call other flows -/

/-- A run that has seen what the player has of a trait goes on to show it after a call exactly if
the called flows have left the trait as it was. They set no variable of the run. -/
theorem shows_called_iff (hnames : e.viewNames.Nodup) {f : Flow} {inv : Invocation}
    (hleaves : LeavesView e f inv) {w : World} {earlier later : List Step} {s : Step}
    (hsteps : steps e call f.root inv.seed (e.begin f inv w) = earlier ++ s :: later)
    (op : s.node.op = .callCustomFlow) (ha : a ∈ e.traits)
    (hcalls : ∀ t ∈ earlier, t.node.op = .callCustomFlow →
      a.value (t.after e call).world.player = a.value t.run.world.player) :
    s.run.Shows a ∧
      (∀ name, (s.after e call).ctx.vars.contextual? name = s.run.ctx.vars.contextual? name) ∧
      ((s.after e call).Shows a ↔
        a.value (s.after e call).world.player = a.value s.run.world.player) := by
  have hlinked : Linked e call (e.begin f inv w) _ _ := linked_steps f.root inv.seed _
  rw [hsteps] at hlinked
  have hset : ∀ t ∈ earlier, ¬ t.node.SetsContextual a.name := by
    intro t ht
    have hmem : t ∈ steps e call f.root inv.seed (e.begin f inv w) := by
      rw [hsteps]
      exact List.mem_append_left _ ht
    exact hleaves.steps ha hmem
  have hseen : s.run.Shows a :=
    hlinked.split.1.shows hnames ha hset hcalls (shows_begin hnames hleaves w ha)
  have hkept (name : String) :
      (s.after e call).ctx.vars.contextual? name = s.run.ctx.vars.contextual? name :=
    contextual?_called op name
  refine ⟨hseen, hkept, ?_⟩
  unfold Run.Shows at hseen ⊢
  rw [hkept, hseen, Option.some_inj]
  exact eq_comm

theorem shows_called_iff_of_reward :
    let gold := { StatTemplate.number "gold" with default := .int 0 }
    let add : Node := ⟨.segmentAdd, "a", [("segmentId", .str "vip")], []⟩
    let reward : Flow := ⟨"reward", ⟨.customTrigger, "root", [("triggerId", .str "reward")], [add]⟩⟩
    let e : Engine :=
      { game := { templates := [gold], flows := [reward] },
        timing := { clock := 0, elapsed := .ofMillis 0 } }
    let n : Node := ⟨.callCustomFlow, "c", [("triggerId", .str "reward")], []⟩
    let r := e.begin ⟨"f", n⟩ {} {}
    let s : Step := ⟨[], n, .null, r⟩
    steps e (e.callerAt 0) n .null r = [] ++ s :: [] ∧
      (s.after e (e.callerAt 0)).Shows (.stat gold) ∧
      ¬ (s.after e (e.callerAt 0)).Shows .segments := by
  intro gold add reward e n r s
  have hleaves : LeavesView e ⟨"f", n⟩ {} := by
    refine ⟨fun b hb => absurd hb List.not_mem_nil, ?_⟩
    refine (Node.forall_at?_iff n).2 ⟨?_, fun c hc => absurd hc List.not_mem_nil⟩
    rintro name - ⟨op, -, -⟩
    cases op
  have hsteps : steps e (e.callerAt 0) n .null r = [] ++ s :: [] := rfl
  have hiff {a : Trait} (ha : a ∈ e.traits) :=
    (shows_called_iff (by decide) hleaves hsteps rfl ha
      fun t ht => absurd ht List.not_mem_nil).2.2
  refine ⟨hsteps, (hiff (List.mem_cons_of_mem _ List.mem_cons_self)).2 rfl, fun h => ?_⟩
  have hsame := (hiff List.mem_cons_self).1 h
  exact absurd hsame (by decide)

/-- What called flows do to the player is not in the variables of the run that goes on. A branch
after the call decides on what the player was before. -/
theorem call_leaves_stale_view :
    let gold := { StatTemplate.number "gold" with default := .int 0 }
    let reward : Flow := ⟨"reward", ⟨.customTrigger, "root", [("triggerId", .str "reward")],
      [⟨.segmentAdd, "a", [("segmentId", .str "vip")], []⟩,
        ⟨.statSet, "s", [("statId", .str "gold"), ("value", (Ref.literal (.int 7)).toJson)], []⟩]⟩⟩
    let e : Engine :=
      { game := { templates := [gold], flows := [reward] },
        timing := { clock := 0, elapsed := .ofMillis 0 } }
    let n : Node := ⟨.callCustomFlow, "c", [("triggerId", .str "reward")], []⟩
    let isVip : Condition :=
      { left := .contextual "segment" .string, right := .literal (.str "vip"),
        comparison := .includes }
    let branch : Node := ⟨.branch, "b", [("conditions", .arr [isVip.toJson])], []⟩
    let f : Flow := ⟨"f", ⟨.sequence, "root", [], [n, branch]⟩⟩
    let call := e.callerAt 0
    ∃ root s t, steps e call f.root .null (e.begin f {} {}) = [root, s, t] ∧
      s.node = n ∧ s.Succeeds e call (.obj []) ∧
      (s.after e call).world.player.segments = ["vip"] ∧
      (s.after e call).ctx.vars.contextual? "segment" = some (.strings []) ∧
      (s.after e call).world.player.stat? "gold" = some (.int 7) ∧
      (s.after e call).ctx.vars.contextual? "gold" = some (.int 0) ∧
      t.node = branch ∧ t.outcome e call = .ok (.bool false) t.run ∧
      Condition.allHold [isVip] .null
        (t.run.ctx.vars.setContextual "segment" (.strings t.run.world.player.segments))
        e.locale = true := by
  exact ⟨_, _, _, rfl, rfl, ⟨_, rfl⟩, rfl, rfl, rfl, rfl, rfl, rfl, by decide +kernel⟩

end Engine

end FlowTree
