import FlowTree.Script.Evaluator

/-!
# Workers

A worker has one script evaluated and reports what came of it, while a watchdog waits for the report
for as long as the window of the script is open. Both mark in the worker's phase how far they are,
and count in a common word the workers that were given up and still run.
-/

namespace FlowTree.Script

/-! ### Reports -/

/-- What the watchdog learns of a worker. -/
inductive Report
  | finished (result : Except ScriptError Json)
  /-- The worker ended without a report. -/
  | vanished
  /-- The window closed before the worker ended. -/
  | abandoned

namespace Report

/-- The report on a script that took so long for its result. -/
def make (budget window elapsed : Duration) (result : Except Failure Json) : Report :=
  if elapsed.exceeds window then .abandoned
  else match result with
    | .error .unreportable => .vanished
    | .error (.error e) =>
      .finished (.error (if elapsed.exceeds budget then .timeout budget.millis else e))
    | .ok v =>
      .finished (if elapsed.exceeds budget then .error (.timeout budget.millis) else .ok v)

/-- The result of a run with so many milliseconds as its budget. -/
def result (budgetMs : Nat) : Report → Except ScriptError Json
  | finished r => r
  | vanished => .error (.internal "script worker exited without reporting")
  | abandoned => .error (.timeout budgetMs)

end Report

/-- The time at which scripts start, in milliseconds since 1970, and the time that each takes. -/
structure Timing where
  clock : Nat
  elapsed : Duration

def Worker.run (evaluator : Evaluator) (limits : Limits) (timing : Timing) (r : Request)
    (g : Generator) : Report × Generator :=
  let (result, g) := evaluator.evaluate limits timing.clock r g
  (.make r.budget (limits.window r.budget) timing.elapsed result, g)

/-! ### Phases -/

/-- How far a worker is, as it and its watchdog see it. -/
inductive Phase
  | running
  | finished
  | abandoned
  deriving DecidableEq, Repr

namespace Phase

/-- The watchdog gives up a running worker, and no other. -/
def abandon : Phase → Phase
  | running => abandoned
  | p => p

/-- The worker ends, whatever the watchdog did before. -/
def finish (_ : Phase) : Phase := finished

end Phase

/-- The count of abandoned workers that still run. -/
abbrev Abandoned := UInt64

namespace Abandoned

/-- Counts a worker if giving it up changed its phase. -/
def afterAbandon (p : Phase) (n : Abandoned) : Abandoned :=
  if p = .running then n + 1 else n

/-- Takes a worker off the count if it had been given up when it ended. -/
def afterFinish (p : Phase) (n : Abandoned) : Abandoned :=
  if p = .abandoned then n - 1 else n

end Abandoned

end FlowTree.Script
