import FlowTree.Proofs.StickySplit

/-!
# Segments of split tests

The segment of a split is the names of flow, node and split joined without any escaping, so names
that contain the joints can be cut in another way. Within a flow two keys agree only if one node's id
goes on, after an underscore, where the other's ends, and nodes apart from each other in this sense do
not interfere. Where no flow has the mark of split tests in its id, flows are told apart.
-/

namespace FlowTree

open Operation

/-! ### Cutting texts -/

/-- What stands between the flow and the node in a key, but for the underscore at its end. -/
def Split.mark : List Char :=
  "_splitTest".toList

/-- The two cuts of a text at an underscore are the same cut, or one comes before the other. -/
theorem cut_underscore {a b c d : List Char} :
    a ++ '_' :: b = c ++ '_' :: d ↔
      a = c ∧ b = d ∨ (∃ m, c = a ++ '_' :: m ∧ b = m ++ '_' :: d) ∨
        ∃ m, a = c ++ '_' :: m ∧ d = m ++ '_' :: b := by
  constructor
  · intro h
    rcases List.append_eq_append_iff.1 h with ⟨x, rfl, hx⟩ | ⟨x, rfl, hx⟩
    · cases x with
      | nil =>
        simp only [List.nil_append, List.cons.injEq, true_and] at hx
        exact .inl ⟨by rw [List.append_nil], hx⟩
      | cons y m =>
        obtain ⟨rfl, rfl⟩ := List.cons.inj hx
        exact .inr (.inl ⟨m, rfl, rfl⟩)
    · cases x with
      | nil =>
        simp only [List.nil_append, List.cons.injEq, true_and] at hx
        exact .inl ⟨by rw [List.append_nil], hx.symm⟩
      | cons y m =>
        obtain ⟨rfl, rfl⟩ := List.cons.inj hx
        exact .inr (.inr ⟨m, rfl, rfl⟩)
  · rintro (⟨rfl, rfl⟩ | ⟨m, rfl, rfl⟩ | ⟨m, rfl, rfl⟩)
    · rfl
    · simp
    · simp

/-- The mark does not overlap with itself: a text that goes on with it at two places has it whole
before the second one. -/
theorem mark_infix_of_shift {x r r' : List Char} (hx : x ≠ [])
    (h : Split.mark ++ '_' :: r = x ++ (Split.mark ++ '_' :: r')) : Split.mark <:+: x := by
  by_cases hlen : x.length < 10
  · -- within the mark and the underscore after it only the first and the last character are one
    have hpos : 0 < x.length := List.length_pos_iff.2 hx
    have hchar := congrArg (fun l => l[x.length]?) h
    have hright : (x ++ (Split.mark ++ '_' :: r'))[x.length]? = some '_' := by
      rw [List.getElem?_append_right (Nat.le_refl _), Nat.sub_self]
      rfl
    have hleft : (Split.mark ++ '_' :: r)[x.length]? = Split.mark[x.length]? :=
      List.getElem?_append_left (show x.length < 10 from hlen)
    have hnone : ∀ k < 10, 0 < k → Split.mark[k]? ≠ some '_' := by decide
    simp only [hright, hleft] at hchar
    exact absurd hchar (hnone _ hlen hpos)
  · have hprefix : Split.mark <+: x :=
      List.prefix_of_prefix_length_le (List.prefix_append _ _) (h ▸ List.prefix_append x _)
        (show 10 ≤ x.length by omega)
    exact hprefix.isInfix

/-- Texts without the mark are told apart by what comes before it. -/
theorem cut_mark {f f' r r' : List Char} (hf : ¬Split.mark <:+: f) (hf' : ¬Split.mark <:+: f') :
    f ++ (Split.mark ++ '_' :: r) = f' ++ (Split.mark ++ '_' :: r') ↔ f = f' ∧ r = r' := by
  constructor
  · intro h
    rcases List.append_eq_append_iff.1 h with ⟨x, rfl, hx⟩ | ⟨x, rfl, hx⟩
    · by_cases hnil : x = []
      · subst hnil
        simpa using hx
      · exact absurd ((mark_infix_of_shift hnil hx).trans (List.suffix_append f x).isInfix) hf'
    · by_cases hnil : x = []
      · subst hnil
        simpa [eq_comm] using hx
      · exact absurd ((mark_infix_of_shift hnil hx).trans (List.suffix_append f' x).isInfix) hf
  · rintro ⟨rfl, rfl⟩
    rfl

/-! ### Keys -/

namespace Split

/-- The id of a flow does not contain the mark of split tests. -/
def Unmarked (flow : String) : Prop :=
  ¬mark <:+: flow.toList

instance (flow : String) : Decidable (Unmarked flow) :=
  inferInstanceAs (Decidable ¬mark <:+: flow.toList)

/-- Two different nodes, of which none has an id that goes on after an underscore where the other's
ends. -/
structure Apart (node node' : String) : Prop where
  ne : node ≠ node'
  left : ¬node.toList ++ ['_'] <+: node'.toList
  right : ¬node'.toList ++ ['_'] <+: node.toList

/-- The second node's id is the first's and part of its split's. -/
def Recut (node split node' split' : String) : Prop :=
  ∃ middle, node' = node ++ "_" ++ middle ∧ split = middle ++ "_" ++ split'

theorem recut_iff {node split node' split' : String} :
    Recut node split node' split' ↔ ∃ m : List Char, node'.toList = node.toList ++ '_' :: m ∧
      split.toList = m ++ '_' :: split'.toList := by
  have hunder : "_".toList = ['_'] := rfl
  constructor
  · rintro ⟨middle, rfl, rfl⟩
    exact ⟨middle.toList, by simp [hunder], by simp [hunder]⟩
  · rintro ⟨m, hnode, hsplit⟩
    refine ⟨String.ofList m, String.toList_injective ?_, String.toList_injective ?_⟩
    · simp [hnode, hunder]
    · simp [hsplit, hunder]

theorem Apart.not_recut {node node' : String} (h : Apart node node') (split split' : String) :
    ¬Recut node split node' split' ∧ ¬Recut node' split' node split := by
  constructor
  · intro hrecut
    obtain ⟨m, hm, -⟩ := recut_iff.1 hrecut
    exact h.left ⟨m, by rw [hm]; simp⟩
  · intro hrecut
    obtain ⟨m, hm, -⟩ := recut_iff.1 hrecut
    exact h.right ⟨m, by rw [hm]; simp⟩

theorem toList_stickyKey (flow node split : String) :
    (stickyKey flow node split).toList =
      "flow_".toList ++ (flow.toList ++ (mark ++ '_' :: (node.toList ++ '_' :: split.toList))) := by
  have hmark : "_splitTest_".toList = mark ++ ['_'] := rfl
  have hunder : "_".toList = ['_'] := rfl
  simp only [stickyKey, String.toList_append, hmark, hunder, List.append_assoc,
    List.cons_append, List.nil_append]

/-- When two splits of one flow have one key. -/
theorem stickyKey_eq_iff_of_flow (flow node split node' split' : String) :
    stickyKey flow node split = stickyKey flow node' split' ↔
      node = node' ∧ split = split' ∨ Recut node split node' split' ∨
        Recut node' split' node split := by
  rw [← String.toList_inj, toList_stickyKey, toList_stickyKey, List.append_cancel_left_eq,
    List.append_cancel_left_eq, List.append_cancel_left_eq, List.cons.injEq, cut_underscore,
    String.toList_inj, String.toList_inj, recut_iff, recut_iff]
  exact and_iff_right rfl

/-- Flows without the mark have different keys. -/
theorem flow_eq_of_stickyKey {flow flow' node split node' split' : String} (hf : Unmarked flow)
    (hf' : Unmarked flow') (h : stickyKey flow node split = stickyKey flow' node' split') :
    flow = flow' := by
  have hlist := congrArg String.toList h
  rw [toList_stickyKey, toList_stickyKey, List.append_cancel_left_eq, cut_mark hf hf'] at hlist
  exact String.toList_inj.1 hlist.1

/-- A flow whose own segment is a key has the mark in its id. -/
theorem autoSegment_ne_stickyKey {g : Flow} (hg : Unmarked g.id) (flow node split : String) :
    g.autoSegment ≠ stickyKey flow node split := by
  intro h
  have hlist := congrArg String.toList h
  rw [toList_stickyKey, Flow.autoSegment, String.toList_append, List.append_cancel_left_eq] at hlist
  exact hg ⟨flow.toList, '_' :: (node.toList ++ '_' :: split.toList), by rw [hlist]; simp⟩

end Split

/-! ### Evaluations -/

namespace Engine
open Split
variable {e : Engine} {call : Caller} {n : Node} {prev : Json} {r : Run}

/-- A split test touches no segments but its own. -/
theorem hasSegment_of_splitTest (op : n.op = .splitTest) {id : String}
    (hid : ∀ split, id ≠ stickyKey r.ctx.flowId n.slotId split) :
    (Action.resultRun (e.perform call n prev r)).world.player.hasSegment id =
      r.world.player.hasSegment id := by
  have hop : n.op ≠ .callCustomFlow := by
    rw [op]
    decide
  rw [perform_congr_call e call e.hostCaller hop]
  have hmoves := (perform_outcome e e.hostCaller n prev r).moves (segments_hostCaller e)
  generalize (Action.resultRun (e.perform e.hostCaller n prev r)).world.player = p at hmoves
  cases hmoves with
  | stayed same => exact Player.hasSegment_congr same id
  | joined joins same =>
    rw [Player.hasSegment_congr same]
    cases joins with
    | added hadd => rw [op] at hadd; cases hadd
    | pinned => exact Player.hasSegment_addSegment_of_ne (hid _) _
  | left leaves => exact absurd (op.symm.trans leaves.op) (by decide)

/-- Nor does it pin the choice of a node with other segments. -/
theorem sticky?_of_splitTest (op : n.op = .splitTest) {flow node : String} (splits : List Split)
    (hkey : ∀ s split, stickyKey flow node s ≠ stickyKey r.ctx.flowId n.slotId split) :
    let p := (Action.resultRun (e.perform call n prev r)).world.player
    sticky? splits flow node p.hasSegment = sticky? splits flow node r.world.player.hasSegment := by
  intro p
  have hheld (s : Split) : p.hasSegment (stickyKey flow node s.slotId) =
      r.world.player.hasSegment (stickyKey flow node s.slotId) :=
    hasSegment_of_splitTest op (hkey s.slotId)
  simp only [sticky?, hheld]

/-- Two splits of a flow have one key only if their nodes and their own ids are one text cut at two
underscores, so a split test pins the choice of no node of its flow that is apart from it. Where no
flow has the mark in its id, it pins none of another flow either, and has no flow count as entered. -/
theorem splitTests_separate :
    (∀ flow node split node' split', stickyKey flow node split = stickyKey flow node' split' ↔
      node = node' ∧ split = split' ∨ Recut node split node' split' ∨
        Recut node' split' node split) ∧
    (∀ flow flow', Unmarked flow → Unmarked flow' → ∀ node split node' split',
      stickyKey flow node split = stickyKey flow' node' split' ↔
        flow = flow' ∧ (node = node' ∧ split = split' ∨ Recut node split node' split' ∨
          Recut node' split' node split)) ∧
    (∀ g : Flow, Unmarked g.id → ∀ flow node split, g.autoSegment ≠ stickyKey flow node split) ∧
    ∀ (e : Engine) (call : Caller) (n : Node) (prev : Json) (r : Run), n.op = .splitTest →
      let p := (Action.resultRun (e.perform call n prev r)).world.player
      (∀ g : Flow, Unmarked g.id →
        p.hasSegment g.autoSegment = r.world.player.hasSegment g.autoSegment) ∧
      (∀ node splits, Apart n.slotId node →
        sticky? splits r.ctx.flowId node p.hasSegment =
          sticky? splits r.ctx.flowId node r.world.player.hasSegment) ∧
      ∀ flow node splits, Unmarked r.ctx.flowId → Unmarked flow → flow ≠ r.ctx.flowId →
        sticky? splits flow node p.hasSegment =
          sticky? splits flow node r.world.player.hasSegment := by
  refine ⟨stickyKey_eq_iff_of_flow, fun flow flow' hf hf' node split node' split' => ?_,
    fun g hg => autoSegment_ne_stickyKey hg, fun e call n prev r op => ⟨fun g hg => ?_,
      fun node splits hapart => ?_, fun flow node splits hr hf hne => ?_⟩⟩
  · constructor
    · intro hkey
      obtain rfl := flow_eq_of_stickyKey hf hf' hkey
      exact ⟨rfl, (stickyKey_eq_iff_of_flow ..).1 hkey⟩
    · rintro ⟨rfl, hcut⟩
      exact (stickyKey_eq_iff_of_flow ..).2 hcut
  · exact hasSegment_of_splitTest op fun split => autoSegment_ne_stickyKey hg _ _ split
  · refine sticky?_of_splitTest op splits fun s split hkey => ?_
    rcases (stickyKey_eq_iff_of_flow ..).1 hkey with ⟨hnode, -⟩ | hrecut | hrecut
    · exact hapart.ne hnode.symm
    · exact (hapart.not_recut split s).2 hrecut
    · exact (hapart.not_recut split s).1 hrecut
  · exact sticky?_of_splitTest op splits fun s split hkey => hne (flow_eq_of_stickyKey hf hr hkey)

/-- Keys that differ in a letter of the node or of the flow, with underscores all around it. -/
theorem splitTests_separate_of_underscores :
    let e : Engine := { timing := { clock := 0, elapsed := .ofMillis 0 } }
    let share (n : Int) (id : String) : Json := .obj [("share", .int n), ("slotId", .str id)]
    let n : Node := ⟨.splitTest, "a_b", [("splits", .arr [share 50 "c_d", share 50 "_"])], []⟩
    let r : Run := ⟨{ flowId := "flow_1" }, { random := .scripted [] 0.75 }⟩
    let p := (Action.resultRun (e.perform (e.callerAt 0) n .null r)).world.player
    p.segments = ["flow_flow_1_splitTest_a_b__"] ∧ p.hasSegment "flow_flow_1" = false ∧
      sticky? [⟨"_", 100.0⟩] "flow_1" "a_c" p.hasSegment = none ∧
      sticky? [⟨"_", 100.0⟩] "flow_2" "a_b" p.hasSegment = none := by
  intro e share n r p
  have hmark : Unmarked "flow_1" := by decide
  obtain ⟨-, -, -, hevaluate⟩ := splitTests_separate
  obtain ⟨hauto, hsame, hother⟩ := hevaluate e (e.callerAt 0) n .null r rfl
  refine ⟨rfl, ?_, ?_, ?_⟩
  · exact (hauto ⟨"flow_1", n⟩ hmark).trans rfl
  · exact (hsame "a_c" [⟨"_", 100.0⟩] ⟨by decide, by decide, by decide⟩).trans rfl
  · exact (hother "flow_2" "a_b" [⟨"_", 100.0⟩] hmark (by decide) (by decide)).trans rfl

/-- Keys are no code of flow, node and split, and one of them can be the segment of a flow: here a
player whom node "b" has sent down "c_d" goes the second way at "b_c" without a draw, and counts as
having entered the flow "f_splitTest_b_c_d". -/
theorem stickyKey_not_injective :
    let e : Engine := { timing := { clock := 0, elapsed := .ofMillis 0 } }
    let share (n : Int) (id : String) : Json := .obj [("share", .int n), ("slotId", .str id)]
    let n : Node := ⟨.splitTest, "b", [("splits", .arr [share 100 "c_d"])], []⟩
    let r : Run := ⟨{ flowId := "f" }, { random := .scripted [] 0.0 }⟩
    let p := (Action.resultRun (e.perform (e.callerAt 0) n .null r)).world.player
    stickyKey "f" "b" "c_d" = stickyKey "f" "b_c" "d" ∧ "b" ≠ "b_c" ∧
      sticky? [⟨"x", 100.0⟩, ⟨"d", 0.0⟩] "f" "b_c" r.world.player.hasSegment = none ∧
      sticky? [⟨"x", 100.0⟩, ⟨"d", 0.0⟩] "f" "b_c" p.hasSegment = some 1 ∧
      r.world.player.hasSegment (Flow.autoSegment ⟨"f_splitTest_b_c_d", n⟩) = false ∧
      p.hasSegment (Flow.autoSegment ⟨"f_splitTest_b_c_d", n⟩) = true := by
  intro e share n r p
  exact ⟨rfl, by decide, rfl, rfl, rfl, rfl⟩

end Engine

end FlowTree
