import FlowTree.Script.Interpreter
import FlowTree.Script.Vetting
import FlowTree.Script.Worker

/-!
# The sandbox

The sandbox vets each script before it starts, refuses all of them while too many abandoned workers
still run, and counts how the runs end.
-/

namespace FlowTree.Script

/-- How many runs ended in which way. Runs that were refused are counted as rejected. The numbers
have no bound here: 64 bits hold more runs than any sandbox lives to see. -/
structure Stats where
  total : Nat := 0
  succeeded : Nat := 0
  failed : Nat := 0
  rejected : Nat := 0
  timedOut : Nat := 0
  deriving DecidableEq

namespace Stats

def countRefusal (s : Stats) : Stats :=
  { s with total := s.total + 1, rejected := s.rejected + 1 }

/-- Counts a run of a worker by its result. -/
def count (s : Stats) (result : Except ScriptError Json) : Stats :=
  let s := { s with total := s.total + 1 }
  match result with
  | .ok _ => { s with succeeded := s.succeeded + 1 }
  | .error (.timeout _) => { s with timedOut := s.timedOut + 1 }
  | .error _ => { s with failed := s.failed + 1 }

end Stats

structure Sandbox where
  stats : Stats := {}
  abandoned : Abandoned := 0
  generator : Generator := ⟨0⟩

/-- Whether a source is short enough and mentions nothing forbidden. -/
def Limits.validate (limits : Limits) (source : String) : Except ScriptError Unit :=
  if limits.maxCodeLength.toNat < source.utf8ByteSize then
    .error (.tooLarge limits.maxCodeLength.toNat source.utf8ByteSize)
  else vet source

namespace Sandbox

/-- Lets a source through to a worker, unless the sandbox refuses it. -/
def check (s : Sandbox) (limits : Limits) (source : String) : Except ScriptError Unit := do
  limits.validate source
  if limits.maxAbandoned ≤ s.abandoned then throw (.overloaded s.abandoned.toNat)

/-- Follows a worker from its start to its end, which comes after the watchdog's report. -/
def follow (s : Sandbox) (report : Report) : Sandbox :=
  let given : Phase := match report with
    | .abandoned => Phase.running.abandon
    | _ => .running
  let abandoned := match report with
    | .abandoned => Abandoned.afterAbandon .running s.abandoned
    | _ => s.abandoned
  { s with abandoned := Abandoned.afterFinish given abandoned }

/-- Runs a script to its end. -/
def execute (s : Sandbox) (limits : Limits) (timing : Timing) (r : Request)
    (evaluator : Evaluator := interpreter) : Outcome × Sandbox :=
  match s.check limits r.source with
  | .error e => (.failed e, { s with stats := s.stats.countRefusal })
  | .ok () =>
    let (report, generator) := Worker.run evaluator limits timing r s.generator
    let result := report.result r.budget.millis
    (.ofResult result,
      { s.follow report with stats := s.stats.count result, generator })

end Sandbox

end FlowTree.Script
