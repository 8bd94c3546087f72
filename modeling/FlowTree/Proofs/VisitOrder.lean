import FlowTree.Proofs.Pool
import Mathlib.Data.List.Induction

/-!
# The order of visits

A trace goes through the tree from above and from the left: the places in it increase, where a place
comes before those below it. No node is handled but by its parent's lead, a stop is the end of it,
and without a stop no node that is led to is left out.
-/

namespace FlowTree

variable {e : Engine} {call : Caller} {n : Node} {prev : Json} {r r' : Run} {ss ss' : List Step}

/-! ### Places -/

namespace Engine

theorem placed_steps (n : Node) (prev : Json) (r : Run) :
    ∀ s ∈ steps e call n prev r, n.at? s.path = some s.node := by
  refine trace_induct (P := fun n _ _ ss _ => ∀ s ∈ ss, n.at? s.path = some s.node)
    (Q := fun ns _ _ ss _ => ∀ s ∈ ss, ∃ c ∈ ns, ∃ path,
      s.path = c.2 :: path ∧ c.1.at? path = some s.node) ?_ ?_ ?_ ?_ ?_ n prev r
  · exact fun n prev r _ s hs => absurd hs List.not_mem_nil
  · intro n prev r err r' _ _ s hs
    rw [List.mem_singleton.1 hs]
    rfl
  · intro n prev r v r' ss r'' _ _ hss s hs
    rcases List.mem_cons.1 hs with rfl | hs
    · rfl
    · obtain ⟨⟨c, i⟩, hc, path, hpath, hat⟩ := hss s hs
      rw [hpath, Node.at?, (Node.mem_selected.1 hc).1]
      exact hat
  · exact fun v r s hs => absurd hs List.not_mem_nil
  · intro n i ns v r ss r' ss' r'' h h' s hs
    rcases List.mem_append.1 hs with hs | hs
    · obtain ⟨t, ht, rfl⟩ := List.mem_map.1 hs
      exact ⟨(n, i), List.mem_cons_self, t.path, rfl, h t ht⟩
    · obtain ⟨c, hc, hpath⟩ := h' s hs
      exact ⟨c, List.mem_cons_of_mem _ hc, hpath⟩

theorem increasing_steps (n : Node) (prev : Json) (r : Run) :
    (steps e call n prev r).Pairwise fun s t => s.path < t.path := by
  refine trace_induct (P := fun _ _ _ ss _ => ss.Pairwise fun s t => s.path < t.path)
    (Q := fun ns _ _ ss _ => (∀ s ∈ ss, ∃ c ∈ ns, ∃ path, s.path = c.2 :: path) ∧
      (ns.Pairwise (fun c d => c.2 < d.2) → ss.Pairwise fun s t => s.path < t.path))
    ?_ ?_ ?_ ?_ ?_ n prev r
  · exact fun n prev r _ => List.Pairwise.nil
  · exact fun n prev r err r' _ _ => List.pairwise_singleton ..
  · intro n prev r v r' ss r'' _ _ hss
    refine List.pairwise_cons.2 ⟨fun s hs => ?_, hss.2 (n.selected_increasing v)⟩
    obtain ⟨c, _, path, hpath⟩ := hss.1 s hs
    rw [hpath]
    exact List.nil_lt_cons ..
  · exact fun v r => ⟨fun s hs => absurd hs List.not_mem_nil, fun _ => List.Pairwise.nil⟩
  · intro n i ns v r ss r' ss' r'' h h'
    constructor
    · intro s hs
      rcases List.mem_append.1 hs with hs | hs
      · obtain ⟨t, _, rfl⟩ := List.mem_map.1 hs
        exact ⟨(n, i), List.mem_cons_self, t.path, rfl⟩
      · obtain ⟨c, hc, hpath⟩ := h'.1 s hs
        exact ⟨c, List.mem_cons_of_mem _ hc, hpath⟩
    · intro hns
      obtain ⟨hi, hns⟩ := List.pairwise_cons.1 hns
      refine List.pairwise_append.2 ⟨List.pairwise_map.2 (h.imp fun hlt => ?_), h'.2 hns, ?_⟩
      · exact List.cons_lt_cons_iff.2 (.inr ⟨rfl, hlt⟩)
      · intro s hs t ht
        obtain ⟨s, _, rfl⟩ := List.mem_map.1 hs
        obtain ⟨c, hc, path, hpath⟩ := h'.1 t ht
        rw [hpath]
        exact List.cons_lt_cons_iff.2 (.inl (hi c hc))

end Engine

/-! ### Parents -/

/-- The step succeeds, and its result is what the other step, of the child at a position, goes on
with. -/
structure Step.LeadsTo (e : Engine) (call : Caller) (p : Step) (i : Nat) (s : Step) : Prop where
  child : p.node.children[i]? = some s.node
  passed : p.Succeeds e call s.prev
  selected : p.node.op.selects s.prev i = true

namespace Engine

theorem parent_steps (n : Node) (prev : Json) (r : Run) : ∀ s ∈ steps e call n prev r,
    (s.path = [] ∧ s.node = n ∧ s.prev = prev) ∨
      ∃ p ∈ steps e call n prev r, ∃ i, s.path = p.path ++ [i] ∧ p.LeadsTo e call i s := by
  refine trace_induct
    (P := fun n prev _ ss _ => ∀ s ∈ ss, (s.path = [] ∧ s.node = n ∧ s.prev = prev) ∨
      ∃ p ∈ ss, ∃ i, s.path = p.path ++ [i] ∧ p.LeadsTo e call i s)
    (Q := fun ns v _ ss _ => ∀ s ∈ ss, (∃ i, s.path = [i] ∧ (s.node, i) ∈ ns ∧ s.prev = v) ∨
      ∃ p ∈ ss, ∃ i, s.path = p.path ++ [i] ∧ p.LeadsTo e call i s) ?_ ?_ ?_ ?_ ?_ n prev r
  · exact fun n prev r _ s hs => absurd hs List.not_mem_nil
  · intro n prev r err r' _ _ s hs
    rw [List.mem_singleton.1 hs]
    exact .inl ⟨rfl, rfl, rfl⟩
  · intro n prev r v r' ss r'' _ hp hss s hs
    rcases List.mem_cons.1 hs with rfl | hs
    · exact .inl ⟨rfl, rfl, rfl⟩
    · refine .inr ?_
      rcases hss s hs with ⟨i, hpath, hc, rfl⟩ | ⟨p, hp', hlead⟩
      · obtain ⟨hchild, hsel⟩ := Node.mem_selected.1 hc
        exact ⟨_, List.mem_cons_self, i, hpath, hchild, ⟨r', hp⟩, hsel⟩
      · exact ⟨p, List.mem_cons_of_mem _ hp', hlead⟩
  · exact fun v r s hs => absurd hs List.not_mem_nil
  · intro n i ns v r ss r' ss' r'' h h' s hs
    rcases List.mem_append.1 hs with hs | hs
    · obtain ⟨t, ht, rfl⟩ := List.mem_map.1 hs
      rcases h t ht with ⟨hpath, rfl, hprev⟩ | ⟨p, hp, j, hpath, hlead⟩
      · exact .inl ⟨i, congrArg (i :: ·) hpath, List.mem_cons_self, hprev⟩
      · refine .inr ⟨p.below i, List.mem_append_left _ (List.mem_map_of_mem hp), j, ?_, ?_⟩
        · exact congrArg (i :: ·) hpath
        · exact ⟨hlead.child, hlead.passed, hlead.selected⟩
    · rcases h' s hs with ⟨j, hpath, hc, hprev⟩ | ⟨p, hp, hlead⟩
      · exact .inl ⟨j, hpath, List.mem_cons_of_mem _ hc, hprev⟩
      · exact .inr ⟨p, List.mem_append_right _ hp, hlead⟩

end Engine

/-! ### The end of a run -/

namespace Step
variable {s : Step}

/-- Only a stop that succeeds puts an end to a run. -/
theorem after_stopped (h : s.run.ctx.stopped = false) :
    (s.after e call).ctx.stopped = true ↔ s.Stops e call := by
  have hr := (Engine.perform_sameCourse e call s.node s.prev s.run).stopped.trans h
  unfold after Stops Succeeds outcome
  cases hp : e.perform call s.node s.prev s.run with
  | ok v r =>
    rw [hp] at hr
    simp [Run.settle, Run.conclude_stopped, show r.ctx.stopped = false from hr]
  | error err r =>
    rw [hp] at hr
    simp [Run.settle, Run.logFailure, show r.ctx.stopped = false from hr]

end Step

namespace Engine

theorem Linked.stopped_iff (h : Linked e call r ss r') (hr : r.ctx.stopped = false)
    (hss : ∀ s ∈ ss, s.run.Handles s.node) :
    r'.ctx.stopped = true ↔ ∃ s ∈ ss, s.Stops e call := by
  induction ss generalizing r with
  | nil => simp [show r' = r from h, hr]
  | cons s ss ih =>
    obtain ⟨rfl, h⟩ := h
    cases hs : (s.after e call).ctx.stopped with
    | false =>
      have hgo : ¬ s.Stops e call := by simp [← Step.after_stopped hr, hs]
      simp [ih h hs fun t ht => hss t (List.mem_cons_of_mem s ht), hgo]
    | true =>
      -- nothing is handled after that, so it is the last step
      cases ss with
      | nil => simp [show r' = s.after e call from h, Step.after_stopped hr]
      | cons t ss =>
        have ht := (hss t (by simp)).1
        rw [h.1, hs] at ht
        cases ht

theorem Linked.last_of_stops {s : Step} (h : Linked e call r (ss ++ s :: ss') r')
    (hss : ∀ t ∈ ss ++ s :: ss', t.run.Handles t.node) (hs : s.Stops e call) : ss' = [] := by
  induction ss generalizing r with
  | nil =>
    cases ss' with
    | nil => rfl
    | cons t ss' =>
      have ht := (hss t (by simp)).1
      rw [h.2.1, (Step.after_stopped (hss s (by simp)).1).2 hs] at ht
      cases ht
  | cons t ss ih => exact ih h.2 fun u hu => hss u (List.mem_cons_of_mem t hu)

/-- The steps leave out no node that one of them leads to. -/
def Complete (e : Engine) (call : Caller) (ss : List Step) : Prop :=
  ∀ p ∈ ss, ∀ v c i, p.Succeeds e call v → p.node.children[i]? = some c →
    p.node.op.selects v i = true → c.op ≠ .unknown → ∃ s ∈ ss, s.path = p.path ++ [i]

theorem Complete.append (h : Complete e call ss) (h' : Complete e call ss') :
    Complete e call (ss ++ ss') := by
  intro p hp v c i hv hc hsel hop
  rcases List.mem_append.1 hp with hp | hp
  · obtain ⟨s, hs, hpath⟩ := h p hp v c i hv hc hsel hop
    exact ⟨s, List.mem_append_left _ hs, hpath⟩
  · obtain ⟨s, hs, hpath⟩ := h' p hp v c i hv hc hsel hop
    exact ⟨s, List.mem_append_right _ hs, hpath⟩

theorem Complete.below (h : Complete e call ss) (i : Nat) :
    Complete e call (ss.map (.below i)) := by
  intro p hp v c j hv hc hsel hop
  obtain ⟨q, hq, rfl⟩ := List.mem_map.1 hp
  obtain ⟨s, hs, hpath⟩ := h q hq v c j hv hc hsel hop
  exact ⟨s.below i, List.mem_map_of_mem hs, congrArg (i :: ·) hpath⟩

/-- A visit that does not end its run handles its node, if there is an operation, and all that is
led to from there. -/
theorem complete_steps (n : Node) (prev : Json) (r : Run)
    (hend : (visit e call n prev r).ctx.stopped = false) :
    (n.op ≠ .unknown → ∃ s ∈ steps e call n prev r, s.path = []) ∧
      Complete e call (steps e call n prev r) := by
  suffices h : (visit e call n prev r).ctx.stopped = false → r.ctx.stopped = false ∧
      (n.op ≠ .unknown → ∃ s ∈ steps e call n prev r, s.path = []) ∧
      Complete e call (steps e call n prev r) from (h hend).2
  refine trace_induct
    (P := fun n _ r ss r' => r'.ctx.stopped = false → r.ctx.stopped = false ∧
      (n.op ≠ .unknown → ∃ s ∈ ss, s.path = []) ∧ Complete e call ss)
    (Q := fun ns _ r ss r' => r'.ctx.stopped = false → r.ctx.stopped = false ∧
      (∀ c ∈ ns, c.1.op ≠ .unknown → ∃ s ∈ ss, s.path = [c.2]) ∧ Complete e call ss)
    ?_ ?_ ?_ ?_ ?_ n prev r
  · intro n prev r h hr
    exact ⟨hr, fun hop => absurd ⟨hr, hop⟩ h, fun p hp => absurd hp List.not_mem_nil⟩
  · intro n prev r err r' h hp _
    refine ⟨h.1, fun _ => ⟨_, List.mem_cons_self, rfl⟩, fun p hp' v c i hv => ?_⟩
    obtain ⟨r'', hv⟩ := hv
    rw [List.mem_singleton.1 hp', Step.outcome, hp] at hv
    cases hv
  · intro n prev r v r' ss r'' h hp hss hr
    obtain ⟨-, hchildren, hcomplete⟩ := hss hr
    refine ⟨h.1, fun _ => ⟨_, List.mem_cons_self, rfl⟩, fun p hp' v' c i hv hc hsel hop => ?_⟩
    rcases List.mem_cons.1 hp' with rfl | hp'
    · obtain ⟨r₁, hv⟩ := hv
      obtain ⟨rfl, -⟩ : v = v' ∧ r' = r₁ := by simpa [Step.outcome, hp] using hv
      obtain ⟨s, hs, hpath⟩ := hchildren (c, i) (Node.mem_selected.2 ⟨hc, hsel⟩) hop
      exact ⟨s, List.mem_cons_of_mem _ hs, hpath⟩
    · obtain ⟨s, hs, hpath⟩ := hcomplete p hp' v' c i hv hc hsel hop
      exact ⟨s, List.mem_cons_of_mem _ hs, hpath⟩
  · exact fun v r hr => ⟨hr, fun c hc => absurd hc List.not_mem_nil,
      fun p hp => absurd hp List.not_mem_nil⟩
  · intro n i ns v r ss r' ss' r'' h h' hr
    obtain ⟨hr', hchildren, hcomplete'⟩ := h' hr
    obtain ⟨hr, hroot, hcomplete⟩ := h hr'
    refine ⟨hr, fun c hc hop => ?_, (hcomplete.below i).append hcomplete'⟩
    rcases List.mem_cons.1 hc with rfl | hc
    · obtain ⟨s, hs, hpath⟩ := hroot hop
      exact ⟨s.below i, List.mem_append_left _ (List.mem_map_of_mem hs), congrArg (i :: ·) hpath⟩
    · obtain ⟨s, hs, hpath⟩ := hchildren c hc hop
      exact ⟨s, List.mem_append_right _ hs, hpath⟩

/-! ### Whole runs -/

theorem lt_append_singleton (path : List Nat) (i : Nat) : path < path ++ [i] := by
  have h : path ++ [] < path ++ [i] := List.append_left_lt (List.nil_lt_cons i [])
  rwa [List.append_nil] at h

/-- Of steps in increasing order, one whose place comes first is the earlier one. -/
theorem mem_earlier {p s : Step} (h : (ss ++ s :: ss').Pairwise fun s t => s.path < t.path)
    (hp : p ∈ ss ++ s :: ss') (hlt : p.path < s.path) : p ∈ ss := by
  rcases List.mem_append.1 hp with hp | hp
  · exact hp
  · refine absurd hlt (List.not_lt.2 ?_)
    rcases List.mem_cons.1 hp with rfl | hp
    · exact List.le_refl _
    · have hs := (List.pairwise_cons.1 (List.pairwise_append.1 h).2.1).1 p hp
      exact List.le_of_lt hs

/-- The steps of a run come in the order of a walk through its tree. -/
structure InOrder (e : Engine) (call : Caller) (n : Node) (seed : Json) (ss : List Step)
    (stopped : Bool) : Prop where
  increasing : ss.Pairwise fun s t => s.path < t.path
  placed : ∀ s ∈ ss, s.run.Handles s.node ∧ n.at? s.path = some s.node
  root : ∀ s ∈ ss, s.path = [] → s.prev = seed
  parent : ∀ earlier s later, ss = earlier ++ s :: later → ∀ path i, s.path = path ++ [i] →
    ∃ p ∈ earlier, p.path = path ∧ p.LeadsTo e call i s
  /-- What lies above a step has been handled, has not failed and is no stop. -/
  above : ∀ s ∈ ss, ∀ path, path <+: s.path → path ≠ s.path →
    ∃ p ∈ ss, p.path = path ∧ p.node.op ≠ .unknown ∧ p.node.op ≠ .stop ∧ ∃ v, p.Succeeds e call v
  stop_last : ∀ earlier s later, ss = earlier ++ s :: later → s.Stops e call → later = []
  stopped_iff : stopped = true ↔ ∃ s ∈ ss, s.Stops e call
  complete : (∀ s ∈ ss, ¬ s.Stops e call) →
    (n.op ≠ .unknown → ∃ s ∈ ss, s.path = []) ∧ Complete e call ss

/-- What lies above a step are the parent, the parent's parent and so on. -/
theorem above_steps {s : Step} (hs : s ∈ steps e call n prev r) {path : List Nat}
    (hpath : path <+: s.path) (hne : path ≠ s.path) :
    ∃ p ∈ steps e call n prev r, p.path = path ∧ p.node.op ≠ .unknown ∧ p.node.op ≠ .stop ∧
      ∃ v, p.Succeeds e call v := by
  obtain ⟨rest, hrest⟩ := hpath
  induction rest using List.reverseRecOn generalizing s with
  | nil => exact absurd (by simpa using hrest) hne
  | append_singleton rest i ih =>
    rw [← List.append_assoc] at hrest
    rcases parent_steps n prev r s hs with ⟨hnil, -⟩ | ⟨p, hp, j, hj, hlead⟩
    · simp [hnil] at hrest
    · obtain ⟨hp', -⟩ := List.append_inj' (hrest.trans hj) rfl
      by_cases hpe : path = p.path
      · refine ⟨p, hp, hpe.symm, (handles_of_mem_steps n prev r p hp).2, ?_, _, hlead.passed⟩
        intro op
        simpa [op, Tag.selects] using hlead.selected
      · exact ih hp hpe hp'

theorem inOrder_steps (n : Node) (prev : Json) {r : Run} (hr : r.ctx.stopped = false) :
    InOrder e call n prev (steps e call n prev r) (visit e call n prev r).ctx.stopped where
  increasing := increasing_steps n prev r
  placed s hs := ⟨handles_of_mem_steps n prev r s hs, placed_steps n prev r s hs⟩
  root s hs hpath := by
    rcases parent_steps n prev r s hs with ⟨-, -, hprev⟩ | ⟨p, -, i, hi, -⟩
    · exact hprev
    · simp [hpath] at hi
  parent earlier s later hss path i hpath := by
    have hs : s ∈ steps e call n prev r := by simp [hss]
    rcases parent_steps n prev r s hs with ⟨hnil, -⟩ | ⟨p, hp, j, hj, hlead⟩
    · simp [hnil] at hpath
    · obtain ⟨rfl, hij⟩ := List.append_inj' (hpath.symm.trans hj) rfl
      obtain rfl : i = j := by simpa using hij
      have hinc : (steps e call n prev r).Pairwise _ := increasing_steps n prev r
      rw [hss] at hp hinc
      refine ⟨p, mem_earlier hinc hp ?_, rfl, hlead⟩
      rw [hpath]
      exact lt_append_singleton p.path i
  above s hs path hpath hne := above_steps hs hpath hne
  stop_last earlier s later hss hs := by
    have hlinked : Linked e call r (steps e call n prev r) _ := linked_steps n prev r
    rw [hss] at hlinked
    exact hlinked.last_of_stops (hss ▸ handles_of_mem_steps n prev r) hs
  stopped_iff := (linked_steps n prev r).stopped_iff hr (handles_of_mem_steps n prev r)
  complete hgo := by
    refine complete_steps n prev r (Bool.eq_false_iff.2 fun hend => ?_)
    obtain ⟨s, hs, hstops⟩ :=
      ((linked_steps n prev r).stopped_iff hr (handles_of_mem_steps n prev r)).1 hend
    exact hgo s hs hstops

/-- A run goes through its tree in order. Its steps are all that it does between its beginning and
its end. -/
theorem runWith_inOrder (e : Engine) (call : Caller) (f : Flow) (inv : Invocation) (w : World)
    (hw : w.pool.Clean) :
    (∃ r, Linked e call (e.begin f inv w) (steps e call f.root inv.seed (e.begin f inv w)) r ∧
      finish f r = e.runWith call f inv w) ∧
    InOrder e call f.root inv.seed (steps e call f.root inv.seed (e.begin f inv w))
      (e.runWith call f inv w).1.stopped :=
  ⟨⟨_, linked_steps .., rfl⟩, inOrder_steps f.root inv.seed (begin_stopped f inv hw)⟩

theorem runWith_inOrder_of_two_stops :
    let e : Engine := { timing := { clock := 0, elapsed := .ofMillis 0 } }
    let f : Flow := ⟨"f", ⟨.sequence, "s", [], [⟨.stop, "a", [], []⟩, ⟨.stop, "b", [], []⟩]⟩⟩
    let ss := steps e (e.callerAt 0) f.root .null (e.begin f {} {})
    ({} : World).pool.Clean ∧ ss.map Step.path = [[], [0]] ∧
      InOrder e (e.callerAt 0) f.root .null ss true := by
  intro e f ss
  have hclean : ({} : World).pool.Clean := Pool.clean_start 0 0
  exact ⟨hclean, rfl, (runWith_inOrder e (e.callerAt 0) f {} {} hclean).2⟩

end Engine

end FlowTree
