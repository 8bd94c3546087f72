import FlowTree.Proofs.Traffic

/-!
# The accounts of a sandbox

Each call of a sandbox is entered once, when it ends, and under what its outcome says of it. So the
entries are those of the calls that have ended, in whatever order the calls are made and however
their workers behave.
-/

namespace FlowTree.Script

/-! ### Entries -/

/-- What a call is entered as. -/
inductive Verdict
  | succeeded
  | failed
  | rejected
  | timedOut
  deriving DecidableEq

namespace Outcome

def verdict (o : Outcome) : Verdict :=
  match o.error with
  | none => .succeeded
  | some (.timeout _) => .timedOut
  | some e => if e.isRefusal then .rejected else .failed

theorem verdict_eq_rejected {o : Outcome} :
    o.verdict = .rejected ↔ ∃ e, o.error = some e ∧ e.isRefusal = true := by
  unfold verdict
  split
  case h_1 hnone =>
    rw [hnone]
    exact ⟨nofun, nofun⟩
  case h_2 millis hsome =>
    rw [hsome]
    exact ⟨nofun, fun ⟨e, he, hrefusal⟩ => by cases he; cases hrefusal⟩
  case h_3 e _ hsome =>
    rw [hsome]
    cases hrefusal : e.isRefusal with
    | true => exact ⟨fun _ => ⟨e, rfl, hrefusal⟩, fun _ => rfl⟩
    | false => exact ⟨nofun, fun ⟨e', he, h⟩ => by cases he; rw [hrefusal] at h; cases h⟩

theorem verdict_eq_timedOut {o : Outcome} :
    o.verdict = .timedOut ↔ ∃ millis, o.error = some (.timeout millis) := by
  unfold verdict
  split
  case h_1 hnone =>
    rw [hnone]
    exact ⟨nofun, nofun⟩
  case h_2 millis hsome => exact ⟨fun _ => ⟨millis, hsome⟩, fun _ => rfl⟩
  case h_3 e hne hsome =>
    rw [hsome]
    refine ⟨fun h => ?_, fun ⟨millis, h⟩ => absurd (Option.some.inj h) (hne millis)⟩
    split at h <;> cases h

theorem verdict_of_isRefusal {e : ScriptError} (h : e.isRefusal = true) :
    (failed e).verdict = .rejected :=
  verdict_eq_rejected.2 ⟨e, rfl, h⟩

end Outcome

namespace Stats

def entries (s : Stats) : Verdict → Nat
  | .succeeded => s.succeeded
  | .failed => s.failed
  | .rejected => s.rejected
  | .timedOut => s.timedOut

/-- Enters a call. -/
def enter (s : Stats) (v : Verdict) : Stats :=
  let s := { s with total := s.total + 1 }
  match v with
  | .succeeded => { s with succeeded := s.succeeded + 1 }
  | .failed => { s with failed := s.failed + 1 }
  | .rejected => { s with rejected := s.rejected + 1 }
  | .timedOut => { s with timedOut := s.timedOut + 1 }

variable (s : Stats)

theorem total_enter (v : Verdict) : (s.enter v).total = s.total + 1 := by
  cases v <;> rfl

/-- Of the four counters one is raised. -/
theorem entries_enter (v u : Verdict) :
    (s.enter v).entries u = s.entries u + (v == u).toNat := by
  cases v <;> cases u <;> rfl

theorem countRefusal_eq_enter : s.countRefusal = s.enter .rejected := rfl

theorem count_eq_enter {result : Except ScriptError Json} (h : Worker.MaySend result) :
    s.count result = s.enter (Outcome.ofResult result).verdict := by
  cases result with
  | ok v => rfl
  | error e =>
    have he : e.isRefusal = false := h e rfl
    cases e <;> first | rfl | cases he

end Stats

/-- A call that nothing disturbs is entered as what its outcome says of it. -/
theorem Sandbox.stats_execute (s : Sandbox) (limits : Limits) (timing : Timing) (r : Request)
    (evaluator : Evaluator) :
    (s.execute limits timing r evaluator).2.stats =
      s.stats.enter (s.execute limits timing r evaluator).1.verdict := by
  unfold execute
  split
  · rename_i e hcheck
    rw [Outcome.verdict_of_isRefusal (isRefusal_of_check hcheck)]
    exact s.stats.countRefusal_eq_enter
  · obtain ⟨⟨report, g⟩, hrun⟩ : ∃ x, Worker.run evaluator limits timing r s.generator = x :=
      ⟨_, rfl⟩
    simp only [hrun]
    refine Stats.count_eq_enter _ ?_
    cases report with
    | finished result => exact Worker.maySend_of_run (congrArg Prod.fst hrun)
    | vanished | abandoned =>
      intro e he
      cases he
      rfl

/-! ### Calls -/

namespace Call
variable {c c' : Call} {s s' : Sandbox} {working : Nat}

theorem outcome?_eq_some {o : Outcome} : c.outcome? = some o ↔ c.stage = .ended o := by
  unfold outcome?
  cases hstage : c.stage <;> simp

/-- A call is entered when it ends. -/
theorem Step.enters (h : c.Step working s c' s') (hc : c.Sound) :
    c'.outcome? = c.outcome? ∧ s'.stats = s.stats ∨
      ∃ o, c.outcome? = none ∧ c'.outcome? = some o ∧ s'.stats = s.stats.enter o.verdict := by
  have hnone {stage : Stage} (hstage : c.stage = stage) (h : ∀ o, stage ≠ .ended o) :
      c.outcome? = none := by
    rw [Option.eq_none_iff_forall_ne_some]
    exact fun o ho => h o (hstage.symm.trans (outcome?_eq_some.1 ho))
  cases h with
  | draw | send | exit => exact .inl ⟨rfl, rfl⟩
  | start stage | startFails _ stage => exact .inl ⟨(hnone stage nofun).symm, rfl⟩
  | receive _ _ stage | miss _ stage | expire _ stage =>
    exact .inl ⟨(hnone stage nofun).symm, rfl⟩
  | refuse e refused =>
    refine .inr ⟨.failed e, hnone refused nofun, rfl, ?_⟩
    rw [Outcome.verdict_of_isRefusal (hc.refused e refused).1]
    exact s.stats.countRefusal_eq_enter
  | count result settled =>
    exact .inr ⟨.ofResult result, hnone settled nofun, rfl,
      Stats.count_eq_enter _ (hc.settled result settled).maySend⟩

/-- What the outcome of a call says of the script and of its worker. -/
structure Explains (c : Call) (o : Outcome) : Prop where
  rejected : o.verdict = .rejected ↔ ∃ e, o.error = some e ∧ e.isRefusal = true
  unstarted : o.verdict = .rejected → c.worker = none
  timedOut : o.verdict = .timedOut ↔ ∃ millis, o.error = some (.timeout millis)
  value : o.success = true → o.error = none ∧ ∃ w, c.worker = some w ∧ w.sent = some (.ok o.result)
  failure : o.success = false → o.result = .str "none" ∧ ∃ e, o.error = some e

theorem Tells.explains {o : Outcome} (h : c.Tells o) : c.Explains o where
  rejected := o.verdict_eq_rejected
  unstarted hrejected := by
    cases h with
    | refusal e _ unstarted => exact unstarted
    | result result known =>
      obtain ⟨e, he, hrefusal⟩ := Outcome.verdict_eq_rejected.1 hrejected
      cases result with
      | ok v => cases he
      | error e' =>
        cases he
        rw [known.maySend _ rfl] at hrefusal
        cases hrefusal
  timedOut := o.verdict_eq_timedOut
  value hsuccess := by
    cases h with
    | refusal => cases hsuccess
    | result result known =>
      cases result with
      | ok v => exact ⟨rfl, known.sent v rfl⟩
      | error e => cases hsuccess
  failure hfailure := by
    cases h with
    | refusal e => exact ⟨rfl, e, rfl⟩
    | result result known =>
      cases result with
      | ok v => cases hfailure
      | error e => exact ⟨rfl, e, rfl⟩

end Call

/-! ### All calls of a sandbox -/

namespace Traffic
variable {limits : Limits} {t t' : Traffic} {g : Generator}

/-- What has come of the calls that have ended. -/
def outcomes (t : Traffic) : List Outcome :=
  t.calls.filterMap Call.outcome?

theorem outcomes_act (before after : List Call) (c : Call) (s : Sandbox) :
    outcomes ⟨before ++ c :: after, s⟩ =
      before.filterMap Call.outcome? ++ (c.outcome?.toList ++ after.filterMap Call.outcome?) := by
  rw [outcomes, List.filterMap_append, List.filterMap_cons]
  cases c.outcome? <;> rfl

/-- A step enters a call exactly if the call ends in it. -/
theorem Step.enters (h : t.Step limits t') (ht : ∀ c ∈ t.calls, c.Sound) :
    t'.outcomes = t.outcomes ∧ t'.sandbox.stats = t.sandbox.stats ∨
      ∃ o, t'.outcomes.Perm (o :: t.outcomes) ∧
        t'.sandbox.stats = t.sandbox.stats.enter o.verdict := by
  cases h with
  | arrive t r =>
    refine .inl ⟨?_, rfl⟩
    rw [outcomes_act, List.filterMap_nil, List.append_nil]
    have hnone : (Call.make limits t.sandbox r).outcome? = none := by
      unfold Call.outcome? Call.make
      cases t.sandbox.check limits r.source <;> rfl
    rw [hnone]
    exact List.append_nil _
  | act before after hact =>
    rw [outcomes_act, outcomes_act]
    have hsound := ht _ (List.mem_append_right _ List.mem_cons_self)
    rcases hact.enters hsound with ⟨houtcome, hstats⟩ | ⟨o, hnone, hsome, hstats⟩
    · rw [houtcome]
      exact .inl ⟨rfl, hstats⟩
    · refine .inr ⟨o, ?_, hstats⟩
      rw [hnone, hsome]
      exact List.perm_middle

structure Balanced (t : Traffic) : Prop where
  sound : ∀ c ∈ t.calls, c.Sound
  total : t.sandbox.stats.total = t.outcomes.length
  parts : t.sandbox.stats.total = t.sandbox.stats.succeeded + t.sandbox.stats.failed +
    t.sandbox.stats.rejected + t.sandbox.stats.timedOut
  entries : ∀ v, t.sandbox.stats.entries v = t.outcomes.countP (·.verdict == v)

theorem Balanced.step (ht : t.Balanced) (h : t.Step limits t') : t'.Balanced := by
  have hsound := h.sound ht.sound
  rcases h.enters ht.sound with ⟨houtcomes, hstats⟩ | ⟨o, houtcomes, hstats⟩
  · refine ⟨hsound, ?_, ?_, fun v => ?_⟩ <;> rw [hstats]
    · rw [houtcomes]
      exact ht.total
    · exact ht.parts
    · rw [houtcomes]
      exact ht.entries v
  · refine ⟨hsound, ?_, ?_, fun v => ?_⟩ <;> rw [hstats]
    · rw [Stats.total_enter, ht.total, houtcomes.length_eq, List.length_cons]
    · have hparts := ht.parts
      cases o.verdict <;> simp only [Stats.enter] <;> omega
    · rw [Stats.entries_enter, ht.entries, houtcomes.countP_eq, List.countP_cons]
      cases o.verdict == v <;> rfl

theorem balanced_of_steps
    (h : Relation.ReflTransGen (Step limits) { sandbox := { generator := g } } t) : t.Balanced := by
  induction h with
  | refl =>
    refine ⟨fun c hc => absurd hc List.not_mem_nil, rfl, rfl, fun v => ?_⟩
    cases v <;> rfl
  | tail _ hstep ih => exact ih.step hstep

/-- However the calls of a sandbox and their workers take turns, it has entered the calls that have
ended, each as what its outcome says and no call twice. The next step enters a call exactly if the
call ends in it. A call in one piece is entered as well, and is one of the ways to take turns. -/
theorem accounts_exact
    (h : Relation.ReflTransGen (Step limits) { sandbox := { generator := g } } t) :
    (t.sandbox.stats.total = t.outcomes.length ∧
      t.sandbox.stats.total = t.sandbox.stats.succeeded + t.sandbox.stats.failed +
        t.sandbox.stats.rejected + t.sandbox.stats.timedOut ∧
      ∀ v, t.sandbox.stats.entries v = t.outcomes.countP (·.verdict == v)) ∧
    (∀ t', t.Step limits t' →
      t'.outcomes = t.outcomes ∧ t'.sandbox.stats = t.sandbox.stats ∨
        ∃ o, t'.outcomes.Perm (o :: t.outcomes) ∧
          t'.sandbox.stats = t.sandbox.stats.enter o.verdict) ∧
    (∀ timing r evaluator,
      (t.sandbox.execute limits timing r evaluator).2.stats =
          t.sandbox.stats.enter (t.sandbox.execute limits timing r evaluator).1.verdict ∧
        (t.working < maxWord64 → ∃ c : Call,
          c.outcome? = some (t.sandbox.execute limits timing r evaluator).1 ∧
            Relation.ReflTransGen (Step limits) t
              ⟨t.calls ++ [c], (t.sandbox.execute limits timing r evaluator).2⟩)) ∧
    ∀ c ∈ t.calls, ∀ o, c.outcome? = some o → c.Explains o := by
  have ht := balanced_of_steps h
  refine ⟨⟨ht.total, ht.parts, ht.entries⟩, fun t' hstep => hstep.enters ht.sound,
    fun timing r evaluator => ⟨?_, ?_⟩, fun c hc o ho => ?_⟩
  · exact t.sandbox.stats_execute limits timing r evaluator
  · exact t.steps_execute limits timing r evaluator
  · exact ((ht.sound c hc).ended o (Call.outcome?_eq_some.1 ho)).explains

/-- The first script runs until it is given up, so that the second one is refused. -/
theorem accounts_exact_of_two :
    let limits : Limits := { maxAbandoned := 1 }
    let r : Request := { source := "" }
    let late : Except ScriptError Json := Report.abandoned.result r.budget.millis
    let t : Traffic :=
      ⟨[⟨r, .ended (.ofResult late), some ⟨.abandoned, none⟩⟩,
        ⟨r, .ended (.failed (.overloaded 1)), none⟩],
        { abandoned := 1, stats := { total := 2, rejected := 1, timedOut := 1 } }⟩
    Relation.ReflTransGen (Step limits) { sandbox := { generator := ⟨0⟩ } } t ∧
      t.sandbox.stats.total = t.outcomes.length ∧
      t.outcomes.map Outcome.verdict = [.timedOut, .rejected] := by
  intro limits r late t
  have hfirst : Relation.ReflTransGen (Step limits) {} ⟨[⟨r, .admitted, none⟩], {}⟩ :=
    .single (.arrive {} r)
  have hwaiting := hfirst.tail (.act [] [] (.start rfl (by decide)))
  have hlate := hwaiting.tail (.act [] [] (.expire {} rfl rfl))
  have hentered := hlate.tail (.act [] [] (.count late rfl))
  have hrefused := hentered.tail (.arrive _ r)
  have hended : Relation.ReflTransGen (Step limits) {} t :=
    hrefused.tail (.act [_] [] (.refuse (.overloaded 1) rfl))
  exact ⟨hended, (accounts_exact hended).1.1, rfl⟩

end Traffic

end FlowTree.Script
