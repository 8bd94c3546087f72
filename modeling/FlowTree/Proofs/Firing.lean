import FlowTree.Proofs.Entries
import FlowTree.Proofs.Pool
import FlowTree.Proofs.Termination

/-!
# Firing in parts

To fire a list of flows is to fire its first part, and then the rest with what the first part hands
on: the world and the carried objects. The local variables of both are merged, and they can be
because those of a run are always in the order of their names. Nothing else goes from one flow to
the next, least of all whether it was stopped.
-/

namespace FlowTree

/-- What two parts of a trigger leave behind together. -/
def TriggerResult.append (first second : TriggerResult) : TriggerResult where
  flowsRun := first.flowsRun ++ second.flowsRun
  locals := Fields.merge first.locals second.locals
  carry := second.carry

namespace Engine
variable {e : Engine} {call : Caller} {accepts : Flow → Bool}

/-! ### Local variables in order -/

theorem Outcome.locals {n : Node} {prev : Json} {r : Run}
    {result : EStateM.Result NodeError Run Json} (h : Outcome e call n prev r result)
    (hr : r.ctx.vars.locals.Ordered) : (Action.resultRun result).ctx.vars.locals.Ordered := by
  cases h with
  | localSet name v => exact hr.insert name v
  | _ => exact hr

theorem locals_conclude {r : Run} (hr : r.ctx.vars.locals.Ordered) (n : Node) (v : Json) :
    (r.conclude n v).ctx.vars.locals.Ordered := by
  have hsave : (r.save n v).ctx.vars.locals.Ordered := by
    unfold Run.save
    split
    · rename_i name _
      exact hr.insert name v
    · exact hr
  unfold Run.conclude
  split
  · exact hsave
  · exact hsave

theorem locals_after (s : Step) (hs : s.run.ctx.vars.locals.Ordered) :
    (s.after e call).ctx.vars.locals.Ordered := by
  have hresult := (perform_outcome e call s.node s.prev s.run).locals hs
  rw [Step.after, Step.outcome]
  cases hp : e.perform call s.node s.prev s.run with
  | ok v r =>
    rw [hp] at hresult
    exact locals_conclude hresult s.node v
  | error err r =>
    rw [hp] at hresult
    exact hresult

theorem locals_begin (f : Flow) (inv : Invocation) {w : World} (hw : w.pool.Clean) :
    (e.begin f inv w).ctx.vars.locals = [] := by
  have hseed (p : Player) (contextual : List (String × Json)) (vars : Variables) :
      (e.seedVariables p contextual vars).locals = vars.locals := by
    have hfold {α : Type} (name : α → String) (v : α → Json) (bs : List α) (vars : Variables) :
        (bs.foldl (fun vs b => vs.setContextual (name b) (v b)) vars).locals = vars.locals := by
      induction bs generalizing vars with
      | nil => rfl
      | cons b bs ih => exact ih _
    unfold seedVariables
    rw [hfold Prod.fst Prod.snd]
    exact hfold StatTemplate.internalId (seedOf p) e.game.templates vars
  show (e.seedVariables _ _ w.pool.checkout.1.vars).locals = []
  rw [hseed, hw.checkout_fst]

theorem locals_runWith (f : Flow) (inv : Invocation) {w : World} (hw : w.pool.Clean) :
    (e.runWith call f inv w).1.locals.Ordered := by
  have hbegin : (e.begin f inv w).ctx.vars.locals.Ordered := by
    rw [locals_begin f inv hw]
    exact Fields.ordered_nil
  exact (linked_steps f.root inv.seed (e.begin f inv w)).keeps
    (P := fun r => r.ctx.vars.locals.Ordered) (fun s _ hs => locals_after s hs) hbegin

theorem locals_fireWith (inv : Invocation) (fs : List Flow) {w : World} (hw : w.pool.Clean) :
    (e.fireWith call accepts inv fs w).1.locals.Ordered := by
  induction fs generalizing inv w with
  | nil => exact Fields.ordered_nil
  | cons f fs ih =>
    cases h : accepts f with
    | true =>
      rw [fireWith_of_accepted h]
      exact (locals_runWith f inv hw).merge _
    | false =>
      rw [fireWith_of_refused h]
      exact ih inv hw

/-! ### Parts -/

theorem flowsRun_fireWith (inv : Invocation) (fs : List Flow) (w : World) :
    (e.fireWith call accepts inv fs w).1.flowsRun = (fs.filter accepts).map Flow.id := by
  induction fs generalizing inv w with
  | nil => rfl
  | cons f fs ih =>
    cases h : accepts f with
    | true =>
      rw [fireWith_of_accepted h, List.filter_cons_of_pos h, List.map_cons]
      exact congrArg (List.cons f.id) (ih _ _)
    | false =>
      rw [fireWith_of_refused h, List.filter_cons_of_neg (by simp [h]), ih]

theorem fireWith_append (hcall : call.Keeps fun w => w.pool.Clean) (inv : Invocation)
    (fs gs : List Flow) {w : World} (hw : w.pool.Clean) :
    e.fireWith call accepts inv (fs ++ gs) w =
      let first := e.fireWith call accepts inv fs w
      let second := e.fireWith call accepts { inv with carry := first.1.carry } gs first.2
      (first.1.append second.1, second.2) := by
  induction fs generalizing inv w with
  | nil =>
    have hgs : (e.fireWith call accepts inv gs w).1.locals.Ordered := locals_fireWith inv gs hw
    have hmerge := Fields.merge_nil hgs
    simp only [List.nil_append, fireWith, TriggerResult.append, hmerge]
  | cons f fs ih =>
    rw [List.cons_append]
    cases h : accepts f with
    | true =>
      rw [fireWith_of_accepted h, fireWith_of_accepted h]
      have hrun : (e.runWith call f inv w).2.pool.Clean := e.keeps_clean.runWith hcall f inv hw
      have hlocals : (e.runWith call f inv w).1.locals.Ordered := locals_runWith f inv hw
      generalize e.runWith call f inv w = run at hrun hlocals
      -- the three groups of flows, of which the first is `f` alone
      let inv' : Invocation := { inv with carry := run.1.carry }
      let rest := e.fireWith call accepts inv' fs run.2
      have hfs : rest.1.locals.Ordered := locals_fireWith inv' fs hrun
      have hclean : rest.2.pool.Clean := e.keeps_clean.fireWith hcall accepts inv' fs hrun
      have hgs : (e.fireWith call accepts { inv with carry := rest.1.carry } gs
          rest.2).1.locals.Ordered :=
        locals_fireWith { inv with carry := rest.1.carry } gs hclean
      have hmerge := Fields.merge_assoc hlocals hfs hgs
      have hih := ih inv' hrun
      simp only [inv', rest] at hmerge hih
      simp only [hih, TriggerResult.append, List.cons_append, hmerge]
    | false =>
      rw [fireWith_of_refused h, fireWith_of_refused h]
      exact ih inv hw

/-- However the registered flows are cut in two, a trigger fires the first ones and then the rest,
with the world and the carried objects that the first ones hand on. All flows that wait for it are
run, each from a start of its own, whether or not those before it were stopped. -/
theorem fire_append (e : Engine) (trigger : Tag) (asks : Fields → Bool) (inv : Invocation)
    (fs gs : List Flow) (hcut : e.game.flows = fs ++ gs) (w : World) (hw : w.pool.Clean) :
    let awaits (f : Flow) : Bool := f.root.op == trigger && asks f.root.params
    let part := e.fireWith (e.callerAt inv.depth) awaits
    let whole := e.fire awaits inv w
    let first := part inv fs w
    let second := part { inv with carry := first.1.carry } gs first.2
    whole.2 = second.2 ∧
      whole.1.carry = second.1.carry ∧
      whole.1.flowsRun = first.1.flowsRun ++ second.1.flowsRun ∧
      whole.1.flowsRun = (e.game.flows.filter awaits).map Flow.id ∧
      whole.1.locals = Fields.merge first.1.locals second.1.locals ∧
      (∀ k, Fields.get? k whole.1.locals =
        (Fields.get? k second.1.locals).or (Fields.get? k first.1.locals)) ∧
      ∀ before f after, e.game.flows = before ++ f :: after → awaits f = true →
        let earlier := part inv before w
        let inv' : Invocation := { inv with carry := earlier.1.carry }
        let run := e.execute f inv' earlier.2
        let later := part { inv with carry := run.1.carry } after run.2
        whole = (earlier.1.append
          { flowsRun := f.id :: later.1.flowsRun
            locals := Fields.merge run.1.locals later.1.locals
            carry := later.1.carry }, later.2) ∧
          (e.begin f inv' earlier.2).ctx.stopped = false ∧
          (trigger ≠ .unknown → (e.begin f inv' earlier.2).Handles f.root) := by
  intro awaits part whole first second
  have hcall : (e.callerAt inv.depth).Keeps fun w => w.pool.Clean := e.keeps_clean.caller _
  have happend (fs gs : List Flow) (h : e.game.flows = fs ++ gs) :
      whole = ((part inv fs w).1.append
          (part { inv with carry := (part inv fs w).1.carry } gs (part inv fs w).2).1,
        (part { inv with carry := (part inv fs w).1.carry } gs (part inv fs w).2).2) := by
    show e.fireWith (e.callerAt inv.depth) awaits inv e.game.flows w = _
    rw [h]
    exact fireWith_append hcall inv fs gs hw
  have hwhole : whole = (first.1.append second.1, second.2) := happend fs gs hcut
  have hclean (fs : List Flow) : (part inv fs w).2.pool.Clean :=
    e.keeps_clean.fireWith hcall awaits inv fs hw
  have hlocals : second.1.locals.Ordered := locals_fireWith _ gs (hclean fs)
  refine ⟨?_, ?_, ?_, ?_, ?_, fun k => ?_, fun before f after hbefore hawaits => ?_⟩
  · rw [hwhole]
  · rw [hwhole]
    rfl
  · rw [hwhole]
    rfl
  · exact flowsRun_fireWith inv e.game.flows w
  · rw [hwhole]
    rfl
  · rw [hwhole]
    exact Fields.get?_merge hlocals first.1.locals k
  · intro earlier inv' run later
    have hstopped : (e.begin f inv' earlier.2).ctx.stopped = false :=
      begin_stopped f inv' (hclean before)
    refine ⟨?_, hstopped, fun htrigger => ⟨hstopped, ?_⟩⟩
    · have hrest : part inv' (f :: after) earlier.2 = _ :=
        fireWith_of_accepted hawaits inv' after earlier.2
      rw [happend before (f :: after) hbefore]
      show (earlier.1.append (part inv' (f :: after) earlier.2).1,
        (part inv' (f :: after) earlier.2).2) = _
      rw [hrest]
      rfl
    · have hop : f.root.op = trigger := by
        have hboth : (f.root.op == trigger) = true ∧ asks f.root.params = true :=
          Bool.and_eq_true_iff.1 hawaits
        exact beq_iff_eq.1 hboth.1
      rwa [hop]

theorem fire_append_of_stopped :
    let set (name : String) (v : Int) : Node :=
      ⟨.setVariable, name, [("name", .str name), ("value", (Ref.literal (.int v)).toJson)], []⟩
    let stop : Node := ⟨.stop, "stop", [("value", .null)], []⟩
    let call : Node := ⟨.callCustomFlow, "call", [("triggerId", .str "reward"),
      ("savedVariable", .str "reward")], []⟩
    let start (children : List Node) : Node := ⟨.sessionStart, "root", [], children⟩
    let reward : Flow := ⟨"reward", ⟨.customTrigger, "root", [], [set "won" 3, stop, set "won" 4]⟩⟩
    let f : Flow := ⟨"f", start [set "x" 1, set "y" 1, stop, set "z" 1]⟩
    let g : Flow := ⟨"g", start [set "x" 2, call]⟩
    let e : Engine :=
      { game := { flows := [reward, f, g] }, timing := { clock := 0, elapsed := .ofMillis 0 } }
    let awaits (f : Flow) : Bool := f.root.op == .sessionStart && f.root.params.isEmpty
    let part := e.fireWith (e.callerAt 0) awaits {}
    e.game.flows = [reward, f] ++ [g] ∧ ({} : World).pool.Clean ∧
      (part [reward, f] {}).1.locals = [("x", .int 1), ("y", .int 1)] ∧
      (part [g] (part [reward, f] {}).2).1.locals =
        [("reward", .obj [("won", .int 3)]), ("x", .int 2)] ∧
      (e.fire awaits {} {}).1.flowsRun = ["f", "g"] ∧
      (e.fire awaits {} {}).1.locals =
        [("reward", .obj [("won", .int 3)]), ("x", .int 2), ("y", .int 1)] := by
  intro set stop call start reward f g e awaits part
  have hclean : ({} : World).pool.Clean := Pool.clean_start 0 0
  have hfirst : (part [reward, f] {}).1 = ⟨["f"], [("x", .int 1), ("y", .int 1)], {}⟩ := by
    decide +kernel
  have hlocals : (part [reward, f] {}).1.locals = [("x", .int 1), ("y", .int 1)] :=
    congrArg TriggerResult.locals hfirst
  have hsecond : (part [g] (part [reward, f] {}).2).1.locals =
      [("reward", .obj [("won", .int 3)]), ("x", .int 2)] := by
    decide +kernel
  have hlater : (e.fireWith (e.callerAt 0) awaits { carry := (part [reward, f] {}).1.carry } [g]
      (part [reward, f] {}).2).1.locals = [("reward", .obj [("won", .int 3)]), ("x", .int 2)] := by
    rw [congrArg TriggerResult.carry hfirst]
    decide +kernel
  obtain ⟨-, -, -, hrun, hmerge, -⟩ :=
    fire_append e .sessionStart List.isEmpty {} [reward, f] [g] rfl {} hclean
  dsimp only at hmerge hrun
  simp only [part, awaits] at hlocals hlater
  rw [hlocals, hlater] at hmerge
  refine ⟨rfl, hclean, hlocals, hsecond, ?_, hmerge⟩
  exact hrun.trans (by decide +kernel)

end Engine

end FlowTree
