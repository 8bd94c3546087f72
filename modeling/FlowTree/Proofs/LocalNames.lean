import FlowTree.Proofs.Firing
import FlowTree.Proofs.FreshContext
import FlowTree.Proofs.VisitOrder

/-!
# The names of local variables

Only two things bind a local variable in a run: a node that saves its result, and one that sets a
variable outside of the context. Both name it in their parameters. So each name that a run leaves
behind stands in its own tree, whatever has been run before or is run inside of it, and a name that
is bound stays bound until the run is over.
-/

namespace FlowTree

theorem Fields.mem_keys_insert {k l : String} {v : Json} {fs : Fields} :
    l ∈ (insert k v fs).map Prod.fst ↔ l = k ∨ l ∈ fs.map Prod.fst := by
  induction fs with
  | nil => simp [insert]
  | cons b fs ih =>
    obtain ⟨m, w⟩ := b
    rw [insert]
    split
    · rename_i h
      simp [h]
    · split
      · simp
      · simp only [List.map_cons, List.mem_cons, ih, or_left_comm]

/-- The node binds a local variable of that name when it succeeds. -/
def Node.Binds (n : Node) (k : String) : Prop :=
  n.savedVariable? = some k ∨
    n.op = .setVariable ∧ n.text? "scope" ≠ some "contextual" ∧ n.text? "name" = some k

instance (n : Node) (k : String) : Decidable (n.Binds k) :=
  inferInstanceAs (Decidable (_ ∨ _))

namespace Run

def localNames (r : Run) : List String :=
  r.ctx.vars.locals.map Prod.fst

/-- No name is lost from the first run to the second, and the new ones satisfy `P`. -/
structure Extends (P : String → Prop) (r r' : Run) : Prop where
  kept : ∀ k ∈ r.localNames, k ∈ r'.localNames
  bound : ∀ k ∈ r'.localNames, k ∈ r.localNames ∨ P k

namespace Extends
variable {P Q : String → Prop} {r r' r'' : Run}

theorem of_eq (h : r'.localNames = r.localNames) : Extends P r r' :=
  ⟨fun _ hk => h ▸ hk, fun _ hk => .inl (h ▸ hk)⟩

theorem mono (h : Extends P r r') (hP : ∀ k, P k → Q k) : Extends Q r r' :=
  ⟨h.kept, fun k hk => (h.bound k hk).imp_right (hP k)⟩

theorem trans (h : Extends P r r') (h' : Extends P r' r'') : Extends P r r'' where
  kept k hk := h'.kept k (h.kept k hk)
  bound k hk := (h'.bound k hk).elim (h.bound k) .inr

theorem setLocal (name : String) (v : Json) (hname : P name) : Extends P r (r.setLocal name v) where
  kept _ hk := Fields.mem_keys_insert.2 (.inr hk)
  bound k hk := by
    rcases Fields.mem_keys_insert.1 hk with rfl | hk
    · exact .inr hname
    · exact .inl hk

theorem save (r : Run) (n : Node) (v : Json) : Extends n.Binds r (r.save n v) := by
  unfold Run.save
  split
  · rename_i name hname
    exact setLocal name v (.inl hname)
  · exact of_eq rfl

theorem conclude (r : Run) (n : Node) (v : Json) : Extends n.Binds r (r.conclude n v) := by
  have hstop : Extends n.Binds (r.save n v) (r.save n v).stop := of_eq rfl
  unfold Run.conclude
  split
  · exact (save r n v).trans hstop
  · exact save r n v

end Extends

end Run

namespace Engine
variable {e : Engine} {call : Caller} {r r' : Run}

theorem Outcome.extends {n : Node} {prev : Json} {result : EStateM.Result NodeError Run Json}
    (h : Outcome e call n prev r result) : r.Extends n.Binds (Action.resultRun result) := by
  cases h with
  | localSet name v op scope named => exact .setLocal name v (.inr ⟨op, scope, named⟩)
  | _ => exact .of_eq rfl

/-- A step binds the names of its node, if any, and no others. -/
theorem extends_after (e : Engine) (call : Caller) (s : Step) :
    s.run.Extends s.node.Binds (s.after e call) := by
  have hresult := (perform_outcome e call s.node s.prev s.run).extends
  rw [Step.after, Step.outcome]
  cases hp : e.perform call s.node s.prev s.run with
  | ok v r =>
    rw [hp] at hresult
    exact hresult.trans (.conclude r s.node v)
  | error err r =>
    rw [hp] at hresult
    exact hresult.trans (.of_eq rfl)

theorem Linked.extends {ss : List Step} (h : Linked e call r ss r') :
    r.Extends (fun k => ∃ s ∈ ss, s.node.Binds k) r' := by
  induction ss generalizing r with
  | nil => exact .of_eq (congrArg Run.localNames h)
  | cons s ss ih =>
    obtain ⟨rfl, h⟩ := h
    have hstep := (extends_after e call s).mono (Q := fun k => ∃ t ∈ s :: ss, t.node.Binds k)
      fun k hk => ⟨s, List.mem_cons_self, hk⟩
    exact hstep.trans ((ih h).mono fun k ⟨t, ht, hk⟩ => ⟨t, List.mem_cons_of_mem s ht, hk⟩)

/-- After whatever session, and in the middle of other runs as well, all names that a run leaves
behind are bound by nodes of its own tree. No step of it loses a name, and neither does its end. -/
theorem localNames_runWith (prewarm maxIdle : Nat) (w : World) (ts : List Turn) {e : Engine}
    {frames : List Frame} {m : Machine}
    (hreach : e.Reaches
      ⟨frames, afterTurns Turn.answer ts { w with pool := .start prewarm maxIdle }⟩ m)
    (call : Caller) (f : Flow) (inv : Invocation) :
    let names := (e.runWith call f inv m.world).1.locals.map Prod.fst
    (∀ k ∈ names, ∃ path n, f.root.at? path = some n ∧ n.Binds k) ∧
      ∀ s ∈ steps e call f.root inv.seed (e.begin f inv m.world),
        (∀ k ∈ s.run.localNames, k ∈ (s.after e call).localNames) ∧
          ∀ k ∈ (s.after e call).localNames, k ∈ names := by
  intro names
  have hclean : m.world.pool.Clean := by
    have hstart := Pool.clean_start prewarm maxIdle
    exact e.keeps_clean.reaches hreach (transcript_pooled ts (.of_clean hstart w)).2.clean
  have hbegin : (e.begin f inv m.world).localNames = [] :=
    congrArg (List.map Prod.fst) (locals_begin f inv hclean)
  have hlinked : Linked e call (e.begin f inv m.world) _ _ := linked_steps f.root inv.seed _
  constructor
  · intro k hk
    rcases hlinked.extends.bound k hk with hk | ⟨s, hs, hk⟩
    · rw [hbegin] at hk
      exact absurd hk List.not_mem_nil
    · exact ⟨s.path, s.node, placed_steps f.root inv.seed _ s hs, hk⟩
  · intro s hs
    obtain ⟨before, after, hsplit⟩ := List.append_of_mem hs
    rw [hsplit] at hlinked
    exact ⟨(extends_after e call s).kept, hlinked.split.2.extends.kept⟩

/-- A run after another one, with a third one inside of it, of which both bind other names. -/
theorem localNames_runWith_of_nested :
    let one : Json := (Ref.literal (.int 1)).toJson
    let inner : Flow := ⟨"inner", ⟨.customTrigger, "root", [("triggerId", .str "inner")],
      [⟨.setVariable, "s", [("name", .str "x"), ("value", one)], []⟩]⟩⟩
    let set : Node := ⟨.setVariable, "s",
      [("name", .str "y"), ("scope", .str "contextual"), ("value", one)], []⟩
    let f : Flow := ⟨"f", ⟨.callCustomFlow, "root",
      [("savedVariable", .str "got"), ("triggerId", .str "inner")], [set]⟩⟩
    let e : Engine :=
      { game := { flows := [inner] }, timing := { clock := 0, elapsed := .ofMillis 0 } }
    let w := afterTurns Turn.answer [.act (.execute e inner {})] { pool := .start 1 1 }
    (e.execute inner {} { pool := .start 1 1 }).1.locals.map Prod.fst = ["x"] ∧
      (e.execute f {} w).1.locals.map Prod.fst = ["got"] ∧
      ∀ k ∈ (e.execute f {} w).1.locals.map Prod.fst,
        ∃ path n, f.root.at? path = some n ∧ n.Binds k := by
  intro one inner set f e w
  have hreach : e.Reaches ⟨[], w⟩ ⟨[], w⟩ := .refl
  have hnames := localNames_runWith 1 1 {} [.act (.execute e inner {})] hreach (e.callerAt 0) f {}
  exact ⟨by decide +kernel, by decide +kernel, hnames.1⟩

end Engine

end FlowTree
