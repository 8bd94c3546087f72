import FlowTree.Script.Display
import FlowTree.Script.Eval
import FlowTree.Script.Evaluator
import FlowTree.Script.Exchange
import FlowTree.Script.Grammar
import FlowTree.Text.Blank

/-!
# The interpreter

The interpreter runs a script on a machine of its own, and reports the value as a free-form one. It is
the evaluator of a sandbox that has been given no other.
-/

namespace FlowTree.Script

/-! ### Scripts as programs -/

/-- Names of a host that a script sees as undefined. -/
def shadowed : List String :=
  ["window", "document", "location", "navigator", "globalThis", "self", "fetch", "XMLHttpRequest"]

/-- The source without blanks at its ends and without the semicolons that end it. -/
def bodyOf (source : String) : String :=
  let cs := Text.dropRightWhile (· == ';') (Text.trim source.toList)
  String.ofList (Text.dropRightWhile Text.isBlank cs)

/-- A program whose value is that of the source as an expression. -/
def wrap (source : String) : String :=
  "(function () \x7b\n\x22use strict\x22;\nvar " ++ ", ".intercalate shadowed ++ ";\nreturn (\n" ++
    bodyOf source ++ "\n);\n\x7d)()"

namespace Interpreter

/-- More than any path of evaluation uses up that keeps to the bounds: in each call nested in
another there are the loop iterations, and steps into the source's expressions and lists. -/
def fuel (bounds : Bounds) (source : String) : Nat :=
  (bounds.depth + 2) * (bounds.loops + 4 * source.length + 1000)

/-- The function that a program gives, which must have two parameters. -/
def functionOf (call : Caller) (v : Val) : Exec (Except ScriptError Val) := do
  if ← v.isCallable then
    let arity ← (← Property.get v (.name Property.lengthName)).number call
    if arity.toFloat == 2.0 then return .ok v
    else return .error (.notCallable ("expected 2 parameters, found " ++ arity.text))
  else return .error (.notCallable ("got " ++ v.display (← get).objects))

/-- The free-form value of a script's result. -/
def report (v : Val) : Exec (Except Failure Json) := do
  match v with
  | .undefined => return .ok .null
  | v =>
    let objects := (← get).objects
    match v.toJson? objects (objects.size + 1) with
    | some j => return .ok j
    | none => return .error .unreportable

/-- Runs a program and calls the function that it gives. -/
def execute (allowed : List String) (bounds : Bounds) (fuel : Nat) (program : Program)
    (contextData previous : Json) : Exec (Except Failure Json) := do
  Globals.install allowed
  let scope ← Machine.openScope {}
  let v ← Eval.program bounds fuel { scope } program.body .undefined
  match ← functionOf (Eval.invoke bounds fuel 0) v with
  | .error e => return .error (.error e)
  | .ok f =>
    let args := [← Val.ofJson contextData, ← Val.ofJson previous]
    report (← Eval.invoke bounds fuel 0 f .undefined args)

/-- The result of a script, and the generator after its draws. -/
def evaluate (limits : Limits) (clock : Nat) (r : Request) (g : Generator) :
    Except Failure Json × Generator :=
  let bounds : Bounds :=
    { loops := (limits.loops r.budget).toNat, depth := limits.maxDepth.toNat,
      frozen := limits.frozen, clock }
  let text := wrap r.source
  match Program.parse? text with
  | none => (.error (.error (.execution "SyntaxError")), g)
  | some program =>
    match execute limits.allowed bounds (fuel bounds text) program r.contextData r.previous
        { generator := g } with
    | .ok result m => (result, m.generator)
    | .error (.thrown v) m =>
      (.error (.error (.execution (v.display m.objects))), m.generator)
    | .error .limit m => (.error (.error (.timeout r.budget.millis)), m.generator)
    | .error .crash m => (.error .unreportable, m.generator)

/-! ### Its errors -/

theorem isRefusal_of_functionOf {call : Caller} {v : Val} {m m' : Machine} {e : ScriptError}
    (h : functionOf call v m = .ok (.error e) m') : e.isRefusal = false := by
  unfold functionOf at h
  obtain ⟨callable, m₁, -, h⟩ := Exec.bind_eq_ok h
  split at h
  · obtain ⟨_, _, -, h⟩ := Exec.bind_eq_ok h
    obtain ⟨_, _, -, h⟩ := Exec.bind_eq_ok h
    split at h <;> cases h
    rfl
  · obtain ⟨_, _, -, h⟩ := Exec.bind_eq_ok h
    cases h
    rfl

/-- A result that is there has a value or cannot be reported. -/
theorem report_ne_error (v : Val) (m m' : Machine) (e : ScriptError) :
    report v m ≠ .ok (.error (.error e)) m' := by
  intro h
  unfold report at h
  split at h
  · cases h
  · obtain ⟨m₁, _, -, h⟩ := Exec.bind_eq_ok h
    cases hvalue : v.toJson? m₁.objects (m₁.objects.size + 1) <;>
      simp only [hvalue] at h <;> cases h

theorem isRefusal_of_execute {allowed : List String} {bounds : Bounds} {fuel : Nat}
    {program : Program} {contextData previous : Json} {m m' : Machine} {e : ScriptError}
    (h : execute allowed bounds fuel program contextData previous m = .ok (.error (.error e)) m') :
    e.isRefusal = false := by
  unfold execute at h
  obtain ⟨_, _, -, h⟩ := Exec.bind_eq_ok h
  obtain ⟨scope, _, -, h⟩ := Exec.bind_eq_ok h
  obtain ⟨v, _, -, h⟩ := Exec.bind_eq_ok h
  obtain ⟨f, _, hf, h⟩ := Exec.bind_eq_ok h
  split at h
  · cases h
    exact isRefusal_of_functionOf hf
  · obtain ⟨contextArg, _, -, h⟩ := Exec.bind_eq_ok h
    obtain ⟨previousArg, _, -, h⟩ := Exec.bind_eq_ok h
    obtain ⟨v, _, -, h⟩ := Exec.bind_eq_ok h
    exact absurd h (report_ne_error v _ m' e)

theorem isRefusal_of_evaluate {limits : Limits} {clock : Nat} {r : Request} {g : Generator}
    {e : ScriptError} (h : (evaluate limits clock r g).1 = .error (.error e)) :
    e.isRefusal = false := by
  unfold evaluate at h
  simp only at h
  split at h
  · cases h
    rfl
  · split at h
    · simp only at h
      subst h
      exact isRefusal_of_execute ‹_›
    all_goals cases h
    all_goals rfl

end Interpreter

def interpreter : Evaluator where
  evaluate := Interpreter.evaluate
  isRefusal_of_evaluate := Interpreter.isRefusal_of_evaluate

end FlowTree.Script
