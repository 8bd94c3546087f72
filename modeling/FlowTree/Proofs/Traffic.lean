import FlowTree.Proofs.Interleaving
import FlowTree.Proofs.WorkerReport
import Mathlib.Logic.Relation

/-!
# Calls of a sandbox side by side

Many calls of a sandbox can be under way, each with a worker of its own. A call has its script
checked, has a worker start on it, waits until the worker reports or the watchdog expires, and
counts what has come of it. The worker reports and ends, before the watchdog expires or after. Each
of these is one step, and steps of other calls come in between. Without any in between, the steps of
a call are those of `Sandbox.execute`.
-/

namespace FlowTree.Script

/-! ### Single calls -/

structure Worker.State where
  phase : Phase := .running
  /-- What it has reported. -/
  sent : Option (Except ScriptError Json) := none

/-- How far a call is. -/
inductive Call.Stage
  | refused (e : ScriptError)
  /-- Let through, and no worker has started yet. -/
  | admitted
  /-- For the report of the worker or the end of the window. -/
  | waiting
  /-- What has come of the script is known and not counted yet. -/
  | settled (result : Except ScriptError Json)
  | ended (outcome : Outcome)

structure Call where
  request : Request
  stage : Call.Stage
  worker : Option Worker.State := none

namespace Call

/-- A call right after the check of its script. -/
def make (limits : Limits) (s : Sandbox) (r : Request) : Call where
  request := r
  stage := match s.check limits r.source with
    | .ok () => .admitted
    | .error e => .refused e

/-- The worker has started and not ended. -/
def works (c : Call) : Bool :=
  c.worker.any fun w => w.phase != .finished

/-- The worker has been given up and not ended. -/
def isRunaway (c : Call) : Bool :=
  c.worker.any fun w => w.phase == .abandoned

/-- The call may yet give up its worker. -/
def isPending (c : Call) : Bool :=
  match c.stage with
  | .admitted | .waiting => true
  | _ => false

/-- The call has been let through and has not ended. -/
def isUnderWay (c : Call) : Bool :=
  match c.stage with
  | .admitted | .waiting | .settled _ => true
  | _ => false

def outcome? (c : Call) : Option Outcome :=
  match c.stage with
  | .ended o => some o
  | _ => none

/-- A step of a call or of its worker, while so many workers have not ended. -/
inductive Step (working : Nat) (c : Call) (s : Sandbox) : Call → Sandbox → Prop
  | refuse (e : ScriptError) (refused : c.stage = .refused e) :
    Step working c s { c with stage := .ended (.failed e) } { s with stats := s.stats.countRefusal }
  /-- Each worker has a stack of its own in a memory with addresses of 64 bits. -/
  | start (admitted : c.stage = .admitted) (room : working < maxWord64) :
    Step working c s { c with stage := .waiting, worker := some {} } s
  | startFails (text : String) (admitted : c.stage = .admitted) :
    Step working c s { c with stage := .settled (.error (.internal text)) } s
  | draw (w : Worker.State) (g : Generator) (worker : c.worker = some w)
    (works : w.phase ≠ .finished) : Step working c s c { s with generator := g }
  | send (w : Worker.State) (result : Except ScriptError Json) (worker : c.worker = some w)
    (works : w.phase ≠ .finished) (silent : w.sent = none) (possible : Worker.MaySend result) :
    Step working c s { c with worker := some { w with sent := some result } } s
  /-- A worker ends after its report or without one. -/
  | exit (w : Worker.State) (worker : c.worker = some w) (works : w.phase ≠ .finished) :
    Step working c s { c with worker := some { w with phase := w.phase.finish } }
      { s with abandoned := Abandoned.afterFinish w.phase s.abandoned }
  | receive (w : Worker.State) (result : Except ScriptError Json) (waiting : c.stage = .waiting)
    (worker : c.worker = some w) (sent : w.sent = some result) :
    Step working c s
      { c with stage := .settled ((Report.finished result).result c.request.budget.millis) } s
  | miss (w : Worker.State) (waiting : c.stage = .waiting) (worker : c.worker = some w)
    (silent : w.sent = none) (finished : w.phase = .finished) :
    Step working c s
      { c with stage := .settled (Report.vanished.result c.request.budget.millis) } s
  /-- The watchdog gives up the worker, which may have ended just before. -/
  | expire (w : Worker.State) (waiting : c.stage = .waiting) (worker : c.worker = some w) :
    Step working c s
      { c with
        stage := .settled (Report.abandoned.result c.request.budget.millis)
        worker := some { w with phase := w.phase.abandon } }
      { s with abandoned := Abandoned.afterAbandon w.phase s.abandoned }
  | count (result : Except ScriptError Json) (settled : c.stage = .settled result) :
    Step working c s { c with stage := .ended (.ofResult result) }
      { s with stats := s.stats.count result }

/-! ### What a call knows -/

/-- The result can have come of the call's script, and a value is one that the worker has sent. -/
structure Knows (c : Call) (result : Except ScriptError Json) : Prop where
  maySend : Worker.MaySend result
  sent : ∀ v, result = .ok v → ∃ w, c.worker = some w ∧ w.sent = some result

/-- The outcome tells why the script was refused or what has come of it. -/
inductive Tells (c : Call) : Outcome → Prop
  | refusal (e : ScriptError) (refusal : e.isRefusal = true) (unstarted : c.worker = none) :
    Tells c (.failed e)
  | result (result : Except ScriptError Json) (known : c.Knows result) : Tells c (.ofResult result)

structure Sound (c : Call) : Prop where
  maySend : ∀ w result, c.worker = some w → w.sent = some result → Worker.MaySend result
  refused : ∀ e, c.stage = .refused e → e.isRefusal = true ∧ c.worker = none
  admitted : c.stage = .admitted → c.worker = none
  settled : ∀ result, c.stage = .settled result → c.Knows result
  ended : ∀ o, c.stage = .ended o → c.Tells o

variable {c c' : Call} {s s' : Sandbox} {working : Nat}

theorem sound_make (limits : Limits) (s : Sandbox) (r : Request) : (make limits s r).Sound := by
  unfold make
  split
  · exact ⟨fun _ _ hw => (nomatch hw), nofun, fun _ => rfl, nofun, nofun⟩
  · rename_i hcheck
    refine ⟨fun _ _ hw => (nomatch hw), fun e he => ?_, fun _ => rfl, nofun, nofun⟩
    cases he
    exact ⟨Sandbox.isRefusal_of_check hcheck, rfl⟩

theorem Knows.of_error {e : ScriptError} (he : e.isRefusal = false) (c : Call) :
    c.Knows (.error e) where
  maySend _ h := by
    cases h
    exact he
  sent _ h := nomatch h

/-- Nothing that is known is forgotten while the worker goes on. -/
theorem Sound.of_worker (hc : c.Sound) {w w' : Worker.State} (hw : c.worker = some w)
    (hsent : ∀ result, w.sent = some result → w'.sent = some result)
    (hmay : ∀ result, w'.sent = some result → Worker.MaySend result) :
    Sound { c with worker := some w' } := by
  have hknows (result) (h : c.Knows result) : Knows { c with worker := some w' } result := by
    refine ⟨h.maySend, fun v hv => ⟨w', rfl, ?_⟩⟩
    obtain ⟨u, hu, husent⟩ := h.sent v hv
    rw [hw] at hu
    cases hu
    exact hsent _ husent
  have hne : c.worker ≠ none := hw ▸ nofun
  refine ⟨fun u result hu => ?_, fun e he => ?_, fun ha => ?_, fun result hr => ?_, fun o ho => ?_⟩
  · cases hu
    exact hmay result
  · exact absurd (hc.refused e he).2 hne
  · exact absurd (hc.admitted ha) hne
  · exact hknows result (hc.settled result hr)
  · cases hc.ended o ho with
    | refusal e _ unstarted => exact absurd unstarted hne
    | result result known => exact .result result (hknows result known)

theorem Sound.settle (hc : c.Sound) {result : Except ScriptError Json} (h : c.Knows result) :
    Sound { c with stage := .settled result } where
  maySend := hc.maySend
  refused _ he := nomatch he
  admitted ha := nomatch ha
  settled _ hr := by
    cases hr
    exact ⟨h.maySend, h.sent⟩
  ended _ ho := nomatch ho

theorem Sound.finish (hc : c.Sound) {o : Outcome} (h : c.Tells o) :
    Sound { c with stage := .ended o } where
  maySend := hc.maySend
  refused _ he := nomatch he
  admitted ha := nomatch ha
  settled _ hr := nomatch hr
  ended _ ho := by
    cases ho
    cases h with
    | refusal e refusal unstarted => exact .refusal e refusal unstarted
    | result result known => exact .result result ⟨known.maySend, known.sent⟩

theorem Sound.step (hc : c.Sound) (h : c.Step working s c' s') : c'.Sound := by
  cases h with
  | refuse e refused =>
    obtain ⟨hrefusal, hworker⟩ := hc.refused e refused
    exact hc.finish (.refusal e hrefusal hworker)
  | start => exact ⟨fun w _ hw => by cases hw; exact nofun, nofun, nofun, nofun, nofun⟩
  | startFails text => exact hc.settle (.of_error rfl c)
  | draw => exact hc
  | send w result worker _ silent possible =>
    refine hc.of_worker worker (fun _ hr => ?_) (fun _ hr => ?_)
    · rw [silent] at hr
      cases hr
    · cases hr
      exact possible
  | exit w worker => exact hc.of_worker worker (fun _ hr => hr) (hc.maySend w · worker)
  | receive w result _ worker sent =>
    exact hc.settle ⟨hc.maySend w result worker sent, fun _ _ => ⟨w, worker, sent⟩⟩
  | miss => exact hc.settle (.of_error rfl c)
  | expire w _ worker =>
    have hgiven : Sound { c with worker := some { w with phase := w.phase.abandon } } :=
      hc.of_worker worker (fun _ hr => hr) (hc.maySend w · worker)
    exact hgiven.settle (.of_error rfl _)
  | count result settled => exact hc.finish (.result result (hc.settled result settled))

end Call

/-! ### All calls of a sandbox -/

/-- The calls of a sandbox from the first one on, those that have ended included. -/
structure Traffic where
  calls : List Call := []
  sandbox : Sandbox := {}

namespace Traffic

/-- The workers that have not ended. -/
def working (t : Traffic) : Nat :=
  t.calls.countP Call.works

/-- The workers that were given up and have not ended. -/
def runaways (t : Traffic) : Nat :=
  t.calls.countP Call.isRunaway

def pending (t : Traffic) : Nat :=
  t.calls.countP Call.isPending

def underWay (t : Traffic) : Nat :=
  t.calls.countP Call.isUnderWay

inductive Step (limits : Limits) : Traffic → Traffic → Prop
  | arrive (t : Traffic) (r : Request) :
    Step limits t { t with calls := t.calls ++ [.make limits t.sandbox r] }
  | act (before after : List Call) {c c' : Call} {s s' : Sandbox}
    (step : c.Step (working ⟨before ++ c :: after, s⟩) s c' s') :
    Step limits ⟨before ++ c :: after, s⟩ ⟨before ++ c' :: after, s'⟩

/-- What a new sandbox gets to while no more than `k` calls at a time have been let through and have
not ended. -/
inductive Reachable (limits : Limits) (k : Nat) : Traffic → Prop
  | start (g : Generator) : Reachable limits k { sandbox := { generator := g } }
  | step {t t' : Traffic} (h : Reachable limits k t) (step : t.Step limits t')
    (few : t'.underWay ≤ k) : Reachable limits k t'

variable {limits : Limits} {k : Nat} {t t' : Traffic}

theorem Step.sound (h : t.Step limits t') (ht : ∀ c ∈ t.calls, c.Sound) : ∀ c ∈ t'.calls, c.Sound := by
  intro c hc
  cases h with
  | arrive t r =>
    rcases List.mem_append.1 hc with hc | hc
    · exact ht c hc
    · rw [List.mem_singleton.1 hc]
      exact Call.sound_make ..
  | act before after hact =>
    rcases List.mem_append.1 hc with hc | hc
    · exact ht c (List.mem_append_left _ hc)
    · rcases List.mem_cons.1 hc with rfl | hc
      · exact (ht _ (List.mem_append_right _ List.mem_cons_self)).step hact
      · exact ht c (List.mem_append_right _ (List.mem_cons_of_mem _ hc))

theorem Reachable.sound (h : Reachable limits k t) : ∀ c ∈ t.calls, c.Sound := by
  induction h with
  | start => exact fun c hc => absurd hc List.not_mem_nil
  | step _ hstep _ ih => exact hstep.sound ih

/-! ### One call after the other -/

section
variable {calls : List Call} {c c' : Call} {s s' : Sandbox}

theorem step_last (h : c.Step (working ⟨calls ++ [c], s⟩) s c' s') :
    Step limits ⟨calls ++ [c], s⟩ ⟨calls ++ [c'], s'⟩ := .act calls [] h

end

/-- With nothing in between, the steps of a call run the script to its end. -/
theorem steps_execute (t : Traffic) (limits : Limits) (timing : Timing) (r : Request)
    (evaluator : Evaluator) (room : t.working < maxWord64) :
    ∃ c : Call, c.outcome? = some (t.sandbox.execute limits timing r evaluator).1 ∧
      Relation.ReflTransGen (Step limits) t
        ⟨t.calls ++ [c], (t.sandbox.execute limits timing r evaluator).2⟩ := by
  obtain ⟨calls, s⟩ := t
  have harrive : Relation.ReflTransGen (Step limits) ⟨calls, s⟩
      ⟨calls ++ [.make limits s r], s⟩ := .single (.arrive ⟨calls, s⟩ r)
  unfold Call.make at harrive
  unfold Sandbox.execute
  simp only
  cases hcheck : s.check limits r.source with
  | error e =>
    rw [hcheck] at harrive
    exact ⟨_, rfl, harrive.tail (step_last (.refuse e rfl))⟩
  | ok =>
    rw [hcheck] at harrive
    have hworking : working ⟨calls ++ [⟨r, .admitted, none⟩], s⟩ < maxWord64 := by
      rw [working, countP_act]
      exact room
    have hstart := harrive.tail (step_last (.start rfl hworking))
    obtain ⟨⟨report, g⟩, hrun⟩ : ∃ x, Worker.run evaluator limits timing r s.generator = x :=
      ⟨_, rfl⟩
    have hdraw := hstart.tail (step_last (.draw {} g rfl nofun))
    simp only [hrun]
    cases report with
    | finished result =>
      have hpossible : Worker.MaySend result := Worker.maySend_of_run (congrArg Prod.fst hrun)
      have hsend := hdraw.tail (step_last (.send {} result rfl nofun rfl hpossible))
      have hexit := hsend.tail (step_last (.exit _ rfl nofun))
      have hreceive := hexit.tail (step_last (.receive _ result rfl rfl rfl))
      exact ⟨_, rfl, hreceive.tail (step_last (.count _ rfl))⟩
    | vanished =>
      have hexit := hdraw.tail (step_last (.exit _ rfl nofun))
      have hmiss := hexit.tail (step_last (.miss _ rfl rfl rfl rfl))
      exact ⟨_, rfl, hmiss.tail (step_last (.count _ rfl))⟩
    | abandoned =>
      have hexpire := hdraw.tail (step_last (.expire _ rfl rfl))
      have hexit := hexpire.tail (step_last (.exit _ rfl nofun))
      exact ⟨_, rfl, hexit.tail (step_last (.count _ rfl))⟩

end Traffic

end FlowTree.Script
