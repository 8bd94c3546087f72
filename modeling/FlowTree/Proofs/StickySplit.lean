import FlowTree.Proofs.Segments
import FlowTree.Proofs.Termination

/-!
# Split tests stick

The choice of a split test is pinned by a segment. As long as the player holds that one and no other
of the same node, the node goes the same way, whatever the draws are and however its splits are
shared out, and it changes nothing. Only a node, or the host, that has the player leave that very
segment or join another one of the same node can end this.
-/

namespace FlowTree

open Operation

/-! ### The segments of a node -/

/-- Within one node, segments tell splits apart. -/
theorem Split.stickyKey_inj {flow slot s t : String}
    (h : stickyKey flow slot s = stickyKey flow slot t) : s = t := by
  unfold stickyKey at h
  have hlist := congrArg String.toList h
  simp only [String.toList_append] at hlist
  exact String.toList_injective (List.append_cancel_left hlist)

/-- Of the segments of a node the player holds that of one split. -/
structure Pinned (flow slot s : String) (p : Player) : Prop where
  held : p.hasSegment (Split.stickyKey flow slot s) = true
  alone : ∀ t, t ≠ s → p.hasSegment (Split.stickyKey flow slot t) = false

namespace Pinned
variable {flow slot s : String} {p p' : Player}

theorem hasSegment_eq (h : Pinned flow slot s p) (t : String) :
    p.hasSegment (Split.stickyKey flow slot t) = (t == s) := by
  by_cases hts : t = s
  · rw [hts, h.held, beq_self_eq_true]
  · rw [h.alone t hts, beq_eq_false_iff_ne.2 hts]

theorem congr (h : Pinned flow slot s p) (hp : p'.segments = p.segments) :
    Pinned flow slot s p' where
  held := (Player.hasSegment_congr hp _).trans h.held
  alone t ht := (Player.hasSegment_congr hp _).trans (h.alone t ht)

theorem addSegment (h : Pinned flow slot s p) {id : String}
    (hid : ∀ t, t ≠ s → id ≠ Split.stickyKey flow slot t) :
    Pinned flow slot s (p.addSegment id) where
  held := by
    by_cases hkey : Split.stickyKey flow slot s = id
    · rw [hkey, Player.hasSegment_addSegment_self]
    · rw [Player.hasSegment_addSegment_of_ne hkey, h.held]
  alone t ht := by
    rw [Player.hasSegment_addSegment_of_ne (hid t ht).symm, h.alone t ht]

theorem removeSegment (h : Pinned flow slot s p) {id : String}
    (hid : id ≠ Split.stickyKey flow slot s) : Pinned flow slot s (p.removeSegment id) where
  held := by rw [Player.hasSegment_removeSegment_of_ne hid.symm, h.held]
  alone t ht := by
    by_cases hkey : Split.stickyKey flow slot t = id
    · rw [hkey, Player.hasSegment_removeSegment_self]
    · rw [Player.hasSegment_removeSegment_of_ne hkey, h.alone t ht]

end Pinned

/-! ### Histories -/

/-- The node does not have the player leave the segment of a split, nor join that of another one. -/
structure Node.Spares (flow slot s : String) (n : Node) (prev : Json) (r : Run) : Prop where
  leaves : ¬ n.Leaves prev r (Split.stickyKey flow slot s)
  joins : ∀ t, t ≠ s → ¬ n.Joins prev r (Split.stickyKey flow slot t)

/-- A change of the world that spares the segment of a split: a step of any run that is under way,
or something that the host does. -/
inductive Change (flow slot s : String) : World → World → Prop
  | step {e : Engine} {m m' : Machine} (move : e.Move m m')
    (spares : ∀ n prev r, m.Handles n prev r → n.Spares flow slot s prev r) :
    Change flow slot s m.world m'.world
  | joined (w : World) {id : String} (other : ∀ t, t ≠ s → id ≠ Split.stickyKey flow slot t) :
    Change flow slot s w { w with player := w.player.addSegment id }
  | left (w : World) {id : String} (other : id ≠ Split.stickyKey flow slot s) :
    Change flow slot s w { w with player := w.player.removeSegment id }
  | besides {w w' : World} (same : w'.player.segments = w.player.segments) :
    Change flow slot s w w'

/-- What may happen between two evaluations of a split test. -/
def History (flow slot s : String) : World → World → Prop :=
  Relation.ReflTransGen (Change flow slot s)

namespace Pinned
variable {flow slot s : String} {w w' : World}

theorem moves {n : Node} {prev : Json} {r : Run} {p : Player}
    (h : Pinned flow slot s r.world.player)
    (hmoves : n.Moves prev r p) (hspares : n.Spares flow slot s prev r) : Pinned flow slot s p := by
  cases hmoves with
  | stayed same => exact h.congr same
  | joined joins same =>
    refine (h.addSegment fun t ht hid => ?_).congr same
    exact hspares.joins t ht (hid ▸ joins)
  | left leaves same =>
    refine (h.removeSegment fun hid => ?_).congr same
    exact hspares.leaves (hid ▸ leaves)

theorem change (h : Pinned flow slot s w.player) (hchange : Change flow slot s w w') :
    Pinned flow slot s w'.player := by
  cases hchange with
  | step move spares =>
    rcases move.moves with same | ⟨n, prev, r, hhandles, hmoves⟩
    · exact h.congr same
    · refine moves ?_ hmoves (spares n prev r hhandles)
      rw [hhandles.2.1]
      exact h
  | joined _ other => exact h.addSegment other
  | left _ other => exact h.removeSegment other
  | besides same => exact h.congr same

theorem history (h : Pinned flow slot s w.player) (hhistory : History flow slot s w w') :
    Pinned flow slot s w'.player := by
  induction hhistory with
  | refl => exact h
  | tail _ hchange ih => exact ih.change hchange

end Pinned

namespace Engine
variable {flow slot s : String} {e : Engine}

/-- What an engine does step by step is a history, if each node that it handles spares the split. -/
theorem history_of_reaches {m m' : Machine} (h : e.Reaches m m')
    (hspares : ∀ k, e.Reaches m k → ∀ n prev r, k.Handles n prev r → n.Spares flow slot s prev r) :
    History flow slot s m.world m'.world := by
  induction h with
  | refl => exact .refl
  | tail hreach hstep ih => exact .tail ih (.step (step_eq_some.1 hstep) (hspares _ hreach))

theorem history_fireWith (accepts : Flow → Bool) (inv : Invocation) (fs : List Flow) (w : World)
    (hspares : ∀ k, e.Reaches ⟨[.firing accepts inv [] fs], w⟩ k →
      ∀ n prev r, k.Handles n prev r → n.Spares flow slot s prev r) :
    History flow slot s w (e.fireWith (e.callerAt inv.depth) accepts inv fs w).2 := by
  obtain ⟨inv', results, -, hends⟩ := ends_firing (e := e) accepts inv fs w
  exact history_of_reaches hends.1 hspares

/-! ### Evaluations -/

/-- The run is at a split test of a node, with these splits. -/
structure Evaluates (flow slot : String) (n : Node) (r : Run) (splits : List Split) : Prop where
  op : n.op = .splitTest
  slotId : n.slotId = slot
  flowId : r.ctx.flowId = flow
  valid : ∃ rungs, splitsOf n = .ok (splits, rungs)

namespace Evaluates
variable {call : Caller} {n : Node} {prev : Json} {r r' : Run} {splits : List Split}

/-- A player who is pinned to one of the splits goes its way, and nothing changes. -/
theorem perform_of_pinned (h : Evaluates flow slot n r splits)
    (hpinned : Pinned flow slot s r.world.player) {j : Nat}
    (hj : splits.findIdx? (fun t => t.slotId == s) = some j) :
    perform e call n prev r = .ok (.int j) r := by
  obtain ⟨rungs, hsplits⟩ := h.valid
  have hsticky : Split.sticky? splits r.ctx.flowId n.slotId r.world.player.hasSegment = some j := by
    rw [Split.sticky?, h.flowId, h.slotId, ← hj]
    simp only [hpinned.hasSegment_eq]
  simp only [perform, h.op, splitTest_run, hsplits, hsticky]

/-- The split that an evaluation selects is one that the player then holds the segment of. -/
theorem held_of_perform (h : Evaluates flow slot n r splits) {i : Nat}
    (hp : perform e call n prev r = .ok (.int i) r') {t : Split} (ht : splits[i]? = some t) :
    r'.world.player.hasSegment (Split.stickyKey flow slot t.slotId) = true := by
  obtain ⟨rungs, hsplits⟩ := h.valid
  simp only [perform, h.op, splitTest_run, hsplits] at hp
  cases hsticky : Split.sticky? splits r.ctx.flowId n.slotId r.world.player.hasSegment with
  | some k =>
    rw [hsticky] at hp
    obtain ⟨hk, rfl⟩ := EStateM.Result.ok.inj hp
    obtain rfl := Json.int_natCast_inj hk
    obtain ⟨hlt, hheld, -⟩ := List.findIdx?_eq_some_iff_getElem.1 hsticky
    rw [List.getElem?_eq_getElem hlt] at ht
    cases ht
    rwa [h.flowId, h.slotId] at hheld
  | none =>
    obtain ⟨u, hu⟩ := getElem?_pickRung hsplits (r.world.random.draw 0.0 100.0).1
    rw [hsticky] at hp
    simp only [hu] at hp
    obtain ⟨hi, rfl⟩ := EStateM.Result.ok.inj hp
    rw [← Json.int_natCast_inj hi, hu] at ht
    cases ht
    rw [h.flowId, h.slotId]
    exact Player.hasSegment_addSegment_self ..

end Evaluates

/-- A split test that has selected a split selects it for as long as nothing but itself bears on its
segments: the first split with that id, wherever it is by then, and without any effect. -/
theorem splitTest_sticks {call : Caller} {n : Node} {prev : Json} {r r' : Run}
    {splits : List Split} {i : Nat} {t : Split} (h : Evaluates flow slot n r splits)
    (hp : perform e call n prev r = .ok (.int i) r') (ht : splits[i]? = some t)
    (halone : ∀ u, u ≠ t.slotId →
      r'.world.player.hasSegment (Split.stickyKey flow slot u) = false)
    {q : Run} (hhistory : History flow slot t.slotId r'.world q.world) (e' : Engine)
    (call' : Caller) {n' : Node} (prev' : Json) {splits' : List Split}
    (h' : Evaluates flow slot n' q splits') (hmem : t.slotId ∈ splits'.map Split.slotId) :
    ∃ j, splits'.findIdx? (fun u => u.slotId == t.slotId) = some j ∧
      perform e' call' n' prev' q = .ok (.int j) q ∧
      (splits' = splits → (splits.map Split.slotId).Nodup →
        j = i ∧ (n'.children = n.children → n'.selected (.int j) = n.selected (.int i))) := by
  have hpinned : Pinned flow slot t.slotId r'.world.player := ⟨h.held_of_perform hp ht, halone⟩
  obtain ⟨j, hj⟩ : ∃ j, splits'.findIdx? (fun u => u.slotId == t.slotId) = some j := by
    obtain ⟨u, hu, hut⟩ := List.mem_map.1 hmem
    rw [← Option.isSome_iff_exists, List.findIdx?_isSome]
    exact List.any_eq_true.2 ⟨u, hu, beq_iff_eq.2 hut⟩
  refine ⟨j, hj, h'.perform_of_pinned (hpinned.history hhistory) hj, ?_⟩
  rintro rfl hnodup
  obtain ⟨hlt, hsame, -⟩ := List.findIdx?_eq_some_iff_getElem.1 hj
  have hji : j = i := by
    refine (List.getElem?_inj (by simpa using hlt) hnodup).1 ?_
    rw [List.getElem?_map, List.getElem?_map, ht, List.getElem?_eq_getElem hlt]
    exact congrArg some (beq_iff_eq.1 hsame)
  refine ⟨hji, fun hchildren => ?_⟩
  rw [hji, Node.selected, Node.selected, hchildren, h'.op, h.op]

theorem splitTest_sticks_of_reordered :
    let e : Engine := { timing := { clock := 0, elapsed := .ofMillis 0 } }
    let share (n : Int) (id : String) : Json := .obj [("share", .int n), ("slotId", .str id)]
    let node (splits : List Json) : Node := ⟨.splitTest, "n", [("splits", .arr splits)], []⟩
    let r : Run := ⟨{ flowId := "f" }, { random := .scripted [] 0.75 }⟩
    ∃ r', e.perform (e.callerAt 0) (node [share 50 "a", share 50 "b"]) .null r =
        .ok (.int (1 : Nat)) r' ∧
      let q : Run := ⟨{ flowId := "f" }, { r'.world with
        player := r'.world.player.addSegment "vip" }⟩
      e.perform (e.callerAt 0) (node [share 90 "b", share 10 "a"]) .null q =
        .ok (.int (0 : Nat)) q := by
  intro e share node r
  obtain ⟨r', hp, hsegments⟩ : ∃ r', e.perform (e.callerAt 0)
      (node [share 50 "a", share 50 "b"]) .null r = .ok (.int (1 : Nat)) r' ∧
      r'.world.player.segments = [Split.stickyKey "f" "n" "b"] := ⟨_, rfl, rfl⟩
  refine ⟨r', hp, ?_⟩
  have halone (u : String) (hu : u ≠ "b") :
      r'.world.player.hasSegment (Split.stickyKey "f" "n" u) = false := by
    have hne : Split.stickyKey "f" "n" u ≠ Split.stickyKey "f" "n" "b" :=
      fun h => hu (Split.stickyKey_inj h)
    simp [Player.hasSegment, hsegments, hne]
  have hother (t : String) (_ : t ≠ "b") : "vip" ≠ Split.stickyKey "f" "n" t := by
    intro h
    have hhead := congrArg (fun s => s.toList.head?) h
    simp [Split.stickyKey] at hhead
  have hfirst : Evaluates "f" "n" (node [share 50 "a", share 50 "b"]) r
      [⟨"a", 50.0⟩, ⟨"b", 50.0⟩] := ⟨rfl, rfl, rfl, _, rfl⟩
  have hlater : Evaluates "f" "n" (node [share 90 "b", share 10 "a"])
      ⟨{ flowId := "f" }, { r'.world with player := r'.world.player.addSegment "vip" }⟩
      [⟨"b", 90.0⟩, ⟨"a", 10.0⟩] := ⟨rfl, rfl, rfl, _, rfl⟩
  obtain ⟨j, hj, hperform, -⟩ := splitTest_sticks hfirst hp (t := ⟨"b", 50.0⟩) rfl halone
    (.single (.joined r'.world hother)) e (e.callerAt 0) .null hlater (by simp)
  obtain rfl : 0 = j := Option.some.inj hj
  exact hperform

end Engine

end FlowTree
