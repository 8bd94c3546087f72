import FlowTree.Script.Sandbox

/-!
# What workers report

The check of a script gives only refusals, and a worker reports none, whatever evaluator it has: its
errors are about the script itself and the time that it took.
-/

namespace FlowTree.Script

/-! ### Checks -/

namespace Sandbox
variable {s : Sandbox} {limits : Limits} {source : String}

/-- A script is let through exactly if it is short and harmless and not too many workers that were
given up still run. -/
theorem check_eq_ok_iff :
    s.check limits source = .ok () ↔
      limits.validate source = .ok () ∧ s.abandoned < limits.maxAbandoned := by
  unfold check
  cases limits.validate source with
  | error e => exact ⟨nofun, fun h => nomatch h.1⟩
  | ok valid =>
    by_cases hle : limits.maxAbandoned ≤ s.abandoned
    · rw [if_pos hle]
      exact ⟨nofun, fun h => absurd hle (UInt64.not_le.2 h.2)⟩
    · rw [if_neg hle]
      exact ⟨fun _ => ⟨rfl, UInt64.not_le.1 hle⟩, fun _ => rfl⟩

theorem isRefusal_of_validate {e : ScriptError} (h : limits.validate source = .error e) :
    e.isRefusal = true := by
  unfold Limits.validate vet at h
  split at h
  · cases h
    rfl
  · split at h <;> cases h
    rfl

theorem isRefusal_of_check {e : ScriptError} (h : s.check limits source = .error e) :
    e.isRefusal = true := by
  unfold check at h
  cases hvalid : limits.validate source with
  | error e' =>
    rw [hvalid] at h
    cases h
    exact isRefusal_of_validate hvalid
  | ok =>
    rw [hvalid] at h
    by_cases hle : limits.maxAbandoned ≤ s.abandoned
    · rw [if_pos hle] at h
      cases h
      rfl
    · rw [if_neg hle] at h
      cases h

end Sandbox

/-! ### Reports -/

namespace Worker

/-- What a worker can report of a script that it got. -/
def MaySend (result : Except ScriptError Json) : Prop :=
  ∀ e, result = .error e → e.isRefusal = false

theorem maySend_make {budget window elapsed : Duration} {result : Except Failure Json}
    (h : ∀ e, result = .error (.error e) → e.isRefusal = false) {sent : Except ScriptError Json}
    (hsent : Report.make budget window elapsed result = .finished sent) : MaySend sent := by
  unfold Report.make at hsent
  split at hsent
  · cases hsent
  · split at hsent <;> cases hsent
    · rename_i e
      intro e' he'
      split at he' <;> cases he'
      · rfl
      · exact h e rfl
    · intro e' he'
      split at he' <;> cases he'
      rfl

theorem maySend_of_run {evaluator : Evaluator} {limits : Limits} {timing : Timing} {r : Request}
    {g : Generator} {result : Except ScriptError Json}
    (h : (run evaluator limits timing r g).1 = .finished result) : MaySend result := by
  unfold run at h
  have herror (e) (he : (evaluator.evaluate limits timing.clock r g).1 = .error (.error e)) :
      e.isRefusal = false := evaluator.isRefusal_of_evaluate he
  generalize evaluator.evaluate limits timing.clock r g = evaluated at h herror
  exact maySend_make herror h

end Worker

end FlowTree.Script
