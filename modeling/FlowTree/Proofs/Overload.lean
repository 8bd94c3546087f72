import FlowTree.Proofs.Traffic
import Mathlib

/-!
# Runaway workers are bounded

A sandbox lets no script through while as many runaway workers as it allows have not ended, but the
calls that it has let through before can still give up theirs. So it is the runaways together with
the calls that may yet make one that a check finds room for: neither a worker that is given up nor
one that ends makes more of them.
-/

namespace FlowTree.Script

/-! ### The count of runaways -/

namespace Abandoned

theorem toNat_afterAbandon (p : Phase) (n : Abandoned) :
    ((afterAbandon p n).toNat : Int) =
      (n.toNat + (p.abandon == .abandoned).toNat - (p == .abandoned).toNat) % 2 ^ 64 := by
  have hn : n.toNat < 2 ^ 64 := n.toNat_lt
  cases p with
  | running =>
    show ((n + 1).toNat : Int) = (n.toNat + 1 - 0) % 2 ^ 64
    rw [UInt64.toNat_add, UInt64.toNat_one]
    omega
  | finished =>
    show (n.toNat : Int) = (n.toNat + 0 - 0) % 2 ^ 64
    omega
  | abandoned =>
    show (n.toNat : Int) = (n.toNat + 1 - 1) % 2 ^ 64
    omega

theorem toNat_afterFinish (p : Phase) (n : Abandoned) :
    ((afterFinish p n).toNat : Int) = (n.toNat - (p == .abandoned).toNat) % 2 ^ 64 := by
  have hn : n.toNat < 2 ^ 64 := n.toNat_lt
  cases p with
  | running | finished =>
    show (n.toNat : Int) = (n.toNat - 0) % 2 ^ 64
    omega
  | abandoned =>
    show ((n - 1).toNat : Int) = (n.toNat - 1) % 2 ^ 64
    rw [UInt64.toNat_sub, UInt64.toNat_one]
    omega

end Abandoned

namespace Call
variable {c c' : Call} {s s' : Sandbox} {working : Nat}

theorem isRunaway_of_worker {w : Worker.State} (h : c.worker = some w) :
    c.isRunaway = (w.phase == .abandoned) := by
  rw [isRunaway, h, Option.any_some]

/-- A step changes the count of the sandbox as it changes the number of runaways. -/
theorem Step.abandoned (h : c.Step working s c' s') (hc : c.Sound) :
    (s'.abandoned.toNat : Int) =
      (s.abandoned.toNat + c'.isRunaway.toNat - c.isRunaway.toNat) % 2 ^ 64 := by
  have hsame (h : c'.isRunaway = c.isRunaway) : (s.abandoned.toNat : Int) =
      (s.abandoned.toNat + c'.isRunaway.toNat - c.isRunaway.toNat) % 2 ^ 64 := by
    have hn : s.abandoned.toNat < 2 ^ 64 := s.abandoned.toNat_lt
    rw [h]
    omega
  cases h with
  | refuse | startFails | draw | receive | miss | count => exact hsame rfl
  | start admitted =>
    refine hsame ?_
    rw [isRunaway, isRunaway, hc.admitted admitted]
    rfl
  | send w result worker =>
    refine hsame ?_
    rw [isRunaway_of_worker worker]
    rfl
  | exit w worker =>
    rw [isRunaway_of_worker worker, Abandoned.toNat_afterFinish]
    exact congrArg (fun n : Int => (n - _) % 2 ^ 64) (Int.add_zero _).symm
  | expire w _ worker =>
    rw [isRunaway_of_worker worker, Abandoned.toNat_afterAbandon]
    rfl

/-- No step adds to the runaways and the calls that may yet make one. -/
theorem Step.pending_le (h : c.Step working s c' s') :
    c'.isRunaway.toNat + c'.isPending.toNat ≤ c.isRunaway.toNat + c.isPending.toNat := by
  cases h with
  | refuse | startFails | receive | miss | count => exact Nat.add_le_add_left (Nat.zero_le _) _
  | draw => exact Nat.le_refl _
  | start admitted =>
    have hpending : c.isPending = true := by rw [isPending, admitted]
    rw [hpending]
    exact Nat.le_add_left 1 _
  | send w result worker =>
    rw [isRunaway_of_worker worker]
    exact Nat.le_refl _
  | exit => exact Nat.add_le_add_right (Nat.zero_le _) _
  | expire w waiting =>
    have hpending : c.isPending = true := by rw [isPending, waiting]
    rw [hpending]
    exact Nat.le_trans (Bool.toNat_le _) (Nat.le_add_left 1 _)

/-- Only a start adds to the workers, and only while there is room for one more. -/
theorem Step.works_le (h : c.Step working s c' s') :
    c'.works.toNat ≤ c.works.toNat ∨ working < maxWord64 ∧ c'.works.toNat ≤ c.works.toNat + 1 := by
  cases h with
  | refuse | startFails | draw | receive | miss | count => exact .inl (Nat.le_refl _)
  | start _ room => exact .inr ⟨room, Nat.le_add_left 1 _⟩
  | send w result worker =>
    refine .inl (Nat.le_of_eq ?_)
    rw [works, works, worker]
    rfl
  | exit => exact .inl (Nat.zero_le _)
  | expire w _ worker =>
    refine .inl (Nat.le_of_eq ?_)
    rw [works, works, worker]
    cases hphase : w.phase <;> simp only [Option.any_some, hphase] <;> rfl

theorem works_of_isRunaway (h : c.isRunaway = true) : c.works = true := by
  cases hworker : c.worker with
  | none =>
    rw [isRunaway, hworker] at h
    cases h
  | some w =>
    rw [isRunaway_of_worker hworker, beq_iff_eq] at h
    rw [works, hworker, Option.any_some, h]
    rfl

theorem isUnderWay_of_isPending (h : c.isPending = true) : c.isUnderWay = true := by
  unfold isPending at h
  unfold isUnderWay
  cases hstage : c.stage <;> simp_all

theorem isPending_make {limits : Limits} {r : Request} (h : (make limits s r).isPending = true) :
    s.abandoned < limits.maxAbandoned := by
  unfold make isPending at h
  cases hcheck : s.check limits r.source with
  | ok => exact (Sandbox.check_eq_ok_iff.1 hcheck).2
  | error e =>
    rw [hcheck] at h
    cases h

end Call

/-! ### The bound -/

namespace Traffic
variable {limits : Limits} {k : Nat} {t t' : Traffic}

theorem runaways_le_working (t : Traffic) : t.runaways ≤ t.working :=
  List.countP_mono_left fun _ _ => Call.works_of_isRunaway

theorem pending_le_underWay (t : Traffic) : t.pending ≤ t.underWay :=
  List.countP_mono_left fun _ _ => Call.isUnderWay_of_isPending

section
variable (before after : List Call) (c : Call) (s : Sandbox)

theorem runaways_act : runaways ⟨before ++ c :: after, s⟩ =
    before.countP Call.isRunaway + after.countP Call.isRunaway + c.isRunaway.toNat := countP_act ..

theorem pending_act : pending ⟨before ++ c :: after, s⟩ =
    before.countP Call.isPending + after.countP Call.isPending + c.isPending.toNat := countP_act ..

theorem working_act : working ⟨before ++ c :: after, s⟩ =
    before.countP Call.works + after.countP Call.works + c.works.toNat := countP_act ..

end

structure Bounded (limits : Limits) (k : Nat) (t : Traffic) : Prop where
  counted : t.sandbox.abandoned.toNat = t.runaways
  room : t.working ≤ maxWord64
  few : t.runaways + t.pending ≤ limits.maxAbandoned.toNat + k - 1

theorem Bounded.arrive (ht : t.Bounded limits k) (r : Request)
    (few : underWay { t with calls := t.calls ++ [.make limits t.sandbox r] } ≤ k) :
    Bounded limits k { t with calls := t.calls ++ [.make limits t.sandbox r] } where
  counted := by
    rw [runaways_act]
    exact ht.counted
  room := by
    rw [working_act]
    exact ht.room
  few := by
    have hpending := Nat.le_trans (pending_le_underWay _) few
    rw [pending_act] at hpending
    rw [runaways_act, pending_act]
    show t.runaways + (t.pending + (Call.make limits t.sandbox r).isPending.toNat) ≤ _
    cases hmake : (Call.make limits t.sandbox r).isPending with
    | false => exact ht.few
    | true =>
      -- the check has found room for one more runaway
      have hroom := UInt64.lt_iff_toNat_lt.1 (Call.isPending_make hmake)
      rw [ht.counted] at hroom
      rw [hmake] at hpending
      replace hpending : t.pending + 1 ≤ k := hpending
      show t.runaways + (t.pending + 1) ≤ _
      omega

theorem Bounded.act {before after : List Call} {c c' : Call} {s s' : Sandbox}
    (ht : Bounded limits k ⟨before ++ c :: after, s⟩) (hc : c.Sound)
    (h : c.Step (working ⟨before ++ c :: after, s⟩) s c' s') :
    Bounded limits k ⟨before ++ c' :: after, s'⟩ := by
  obtain ⟨hcounted, hroom, hfew⟩ := ht
  have hworks := h.works_le
  have hle := runaways_le_working ⟨before ++ c' :: after, s'⟩
  have habandoned := h.abandoned hc
  have hpending := h.pending_le
  rw [runaways_act] at hcounted hfew hle
  rw [working_act] at hroom hworks hle
  rw [pending_act] at hfew
  replace hcounted : s.abandoned.toNat = _ := hcounted
  have hroom' : before.countP Call.works + after.countP Call.works + c'.works.toNat ≤ maxWord64 := by
    omega
  refine ⟨?_, ?_, ?_⟩
  · rw [runaways_act]
    show s'.abandoned.toNat = _
    unfold maxWord64 at hroom'
    omega
  · rw [working_act]
    exact hroom'
  · rw [runaways_act, pending_act]
    omega

theorem Reachable.bounded (h : Reachable limits k t) : t.Bounded limits k := by
  induction h with
  | start => exact ⟨rfl, Nat.zero_le _, Nat.zero_le _⟩
  | step h hstep few ih =>
    cases hstep with
    | arrive t r => exact ih.arrive r few
    | act before after hact =>
      exact ih.act (h.sound _ (List.mem_append_right _ List.mem_cons_self)) hact

/-- As long as no more than `k` calls at a time are between their check and their end, at most
`k - 1` runaways are more than the limit allows. A harmless script is let through exactly while
fewer run than the limit says, so none is while it is reached, and again once all of them have
ended. -/
theorem runaways_bounded (h : Reachable limits k t) :
    t.runaways ≤ limits.maxAbandoned.toNat + k - 1 ∧
      (∀ source, t.sandbox.check limits source = .ok () ↔
        limits.validate source = .ok () ∧ t.runaways < limits.maxAbandoned.toNat) ∧
      (t.runaways = 0 → 1 ≤ limits.maxAbandoned.toNat → ∀ source,
        limits.validate source = .ok () → t.sandbox.check limits source = .ok ()) := by
  obtain ⟨hcounted, -, hfew⟩ := h.bounded
  have hcheck (source) : t.sandbox.check limits source = .ok () ↔
      limits.validate source = .ok () ∧ t.runaways < limits.maxAbandoned.toNat := by
    rw [Sandbox.check_eq_ok_iff, UInt64.lt_iff_toNat_lt, hcounted]
  refine ⟨by omega, hcheck, fun hnone hallowed source hvalid => ?_⟩
  exact (hcheck source).2 ⟨hvalid, by omega⟩

/-- Two calls are let through before either gives up its worker, so two runaways run where one is
allowed. Once both have ended, the next script is let through. -/
theorem runaways_bounded_of_two :
    let limits : Limits := { maxAbandoned := 1 }
    let r : Request := { source := "" }
    let call (phase : Phase) : Call :=
      ⟨r, .settled (Report.abandoned.result r.budget.millis), some ⟨phase, none⟩⟩
    let t : Traffic := ⟨[call .abandoned, call .abandoned], { abandoned := 2 }⟩
    let t' : Traffic := ⟨[call .finished, call .finished], {}⟩
    Reachable limits 2 t ∧ t.runaways ≤ 1 + 2 - 1 ∧ t.runaways = 2 ∧
      t.sandbox.check limits r.source ≠ .ok () ∧
      Reachable limits 2 t' ∧ t'.sandbox.check limits r.source = .ok () := by
  intro limits r call t t'
  have hvalid : limits.validate r.source = .ok () := by rfl
  have hmake : Call.make limits {} r = ⟨r, .admitted, none⟩ := by
    rw [Call.make, show Sandbox.check {} limits r.source = .ok () by rfl]
  have harrive (calls : List Call) :
      Step limits ⟨calls, {}⟩ ⟨calls ++ [⟨r, .admitted, none⟩], {}⟩ := by
    rw [← hmake]
    exact .arrive ⟨calls, {}⟩ r
  have hlet : Reachable limits 2 ⟨[⟨r, .admitted, none⟩, ⟨r, .admitted, none⟩], {}⟩ :=
    ((Reachable.start ⟨0⟩).step (harrive []) (by decide)).step (harrive [_]) (by decide)
  have hstarted : Reachable limits 2 ⟨[⟨r, .waiting, some {}⟩, ⟨r, .waiting, some {}⟩], {}⟩ :=
    (hlet.step (.act [] [_] (.start rfl (by decide))) (by decide)).step
      (.act [_] [] (.start rfl (by decide))) (by decide)
  have hgiven : Reachable limits 2 t := by
    have h := (hstarted.step (.act [] [_] (.expire _ rfl rfl)) (by decide)).step
      (.act [_] [] (.expire _ rfl rfl)) (by decide)
    exact h
  have hended : Reachable limits 2 t' := by
    have h := (hgiven.step (.act [] [_] (.exit _ rfl nofun)) (by decide)).step
      (.act [_] [] (.exit _ rfl nofun)) (by decide)
    exact h
  obtain ⟨hbound, hcheck, -⟩ := runaways_bounded hgiven
  obtain ⟨-, -, hagain⟩ := runaways_bounded hended
  refine ⟨hgiven, hbound, rfl, fun h => ?_, hended, hagain rfl (by decide) r.source hvalid⟩
  exact absurd ((hcheck r.source).1 h).2 (by decide)

end Traffic

end FlowTree.Script
