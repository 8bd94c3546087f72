import Mathlib
import FlowTree.Script.Sandbox

/-!
# The count of abandoned workers

A worker and its watchdog change the worker's phase in one step and the common count in another, and
steps of other workers may come in between. Each worker owes the count what it has changed in its
phase and not yet counted: the count is always what the workers owe together, as a word. It is right
when no call is half done; in between it may be too large by the workers that leave, too small by
those that are given up, and then even below zero, where the word starts over at its largest value.
-/

namespace FlowTree.Script

/-! ### Crew step by step -/

structure Watched where
  phase : Phase := .running
  /-- A call has given up the worker and is about to count it. -/
  counting : Bool := false
  /-- The call at the worker's end has found it given up and is about to take it off the count. -/
  leaving : Bool := false
  deriving DecidableEq

namespace Watched

/-- The first step of a call that gives up the worker: an exchange of its phase. -/
def exchange (s : Watched) : Watched :=
  { s with phase := s.phase.abandon, counting := s.counting || s.phase == .running }

/-- The first step of the call at the worker's end: a swap of its phase. -/
def swap (s : Watched) : Watched :=
  { s with phase := s.phase.finish, leaving := s.phase == .abandoned }

/-- The steps that calls make on one worker and on the common count. A worker ends only once. -/
inductive Step (s : Watched) (n : Abandoned) : Watched → Abandoned → Prop
  | exchange : Step s n s.exchange n
  | count (counting : s.counting = true) : Step s n { s with counting := false } (n + 1)
  | swap (unfinished : s.phase ≠ .finished) : Step s n s.swap n
  | uncount (leaving : s.leaving = true) : Step s n { s with leaving := false } (n - 1)

/-- With nothing in between, the steps of a call give up the worker. -/
theorem exchange_count {s : Watched} (hs : s.counting = false) (n : Abandoned) :
    s.exchange.phase = s.phase.abandon ∧
      (if s.exchange.counting then n + 1 else n) = Abandoned.afterAbandon s.phase n := by
  refine ⟨rfl, ?_⟩
  simp only [exchange, hs, Bool.false_or, beq_iff_eq, Abandoned.afterAbandon]

theorem swap_uncount (s : Watched) (n : Abandoned) :
    s.swap.phase = s.phase.finish ∧
      (if s.swap.leaving then n - 1 else n) = Abandoned.afterFinish s.phase n := by
  refine ⟨rfl, ?_⟩
  simp only [swap, beq_iff_eq, Abandoned.afterFinish]

/-- What is to be counted has been exchanged, and what is to be taken off has been swapped. -/
structure Sound (s : Watched) : Prop where
  counting : s.phase = .running → s.counting = false
  leaving : s.phase ≠ .finished → s.leaving = false

/-- What the worker adds to the count, as far as its calls have come. -/
def owed (s : Watched) : Int :=
  (s.phase == .abandoned).toNat + s.leaving.toNat - s.counting.toNat

variable {s s' : Watched} {n n' : Abandoned}

theorem Sound.step (hs : s.Sound) (h : Step s n s' n') : s'.Sound := by
  cases h with
  | exchange =>
    refine ⟨fun hphase => ?_, fun hphase => ?_⟩
    · cases hp : s.phase <;> simp [Watched.exchange, hp, Phase.abandon] at hphase
    · refine hs.leaving fun hfinished => hphase ?_
      rw [Watched.exchange, hfinished]
      rfl
  | count => exact ⟨fun _ => rfl, hs.leaving⟩
  | swap => exact ⟨nofun, fun hphase => absurd rfl hphase⟩
  | uncount => exact ⟨hs.counting, fun _ => rfl⟩

/-- A step changes the count as it changes what the worker owes. -/
theorem Step.owed (h : Step s n s' n') (hs : s.Sound) :
    (n'.toNat : Int) = (n.toNat + (s'.owed - s.owed)) % 2 ^ 64 := by
  have hn : n.toNat < 2 ^ 64 := n.toNat_lt
  obtain ⟨hcounting, hleaving⟩ := hs
  obtain ⟨phase, counting, leaving⟩ := s
  cases h with
  | exchange =>
    have hsame : (Watched.exchange ⟨phase, counting, leaving⟩).owed =
        Watched.owed ⟨phase, counting, leaving⟩ := by
      cases phase with
      | running =>
        obtain rfl : counting = false := hcounting rfl
        cases leaving <;> rfl
      | finished | abandoned => cases counting <;> rfl
    rw [hsame]
    omega
  | count hcount =>
    obtain rfl : counting = true := hcount
    rw [UInt64.toNat_add]
    simp only [Watched.owed, Bool.toNat_true, Bool.toNat_false, UInt64.toNat_one]
    omega
  | swap hphase =>
    obtain rfl : leaving = false := hleaving hphase
    have hsame : (Watched.swap ⟨phase, counting, false⟩).owed =
        Watched.owed ⟨phase, counting, false⟩ := by
      cases phase with
      | running | abandoned => rfl
      | finished => exact absurd rfl hphase
    rw [hsame]
    omega
  | uncount hleave =>
    obtain rfl : leaving = true := hleave
    rw [UInt64.toNat_sub]
    simp only [Watched.owed, Bool.toNat_true, Bool.toNat_false, UInt64.toNat_one]
    omega

theorem Sound.owed_mem (hs : s.Sound) : -1 ≤ s.owed ∧ s.owed ≤ 1 := by
  obtain ⟨phase, counting, leaving⟩ := s
  cases phase with
  | abandoned =>
    obtain rfl : leaving = false := hs.leaving nofun
    cases counting <;> exact ⟨by decide, by decide⟩
  | running | finished => cases counting <;> cases leaving <;> exact ⟨by decide, by decide⟩

end Watched

/-! ### All workers of a sandbox -/

structure Crew where
  workers : List Watched := []
  live : Abandoned := 0

namespace Crew

inductive Step : Crew → Crew → Prop
  | track (w : Crew) : Step w { w with workers := w.workers ++ [{}] }
  | act (before after : List Watched) {s s' : Watched} {n n' : Abandoned} (step : s.Step n s' n') :
    Step ⟨before ++ s :: after, n⟩ ⟨before ++ s' :: after, n'⟩

def Reachable (w : Crew) : Prop :=
  Relation.ReflTransGen Step {} w

/-- The workers that were given up and have not ended. -/
def abandoned (w : Crew) : Nat :=
  w.workers.countP (·.phase == .abandoned)

def counting (w : Crew) : Nat :=
  w.workers.countP (·.counting)

def leaving (w : Crew) : Nat :=
  w.workers.countP (·.leaving)

def owed (w : Crew) : Int :=
  (w.workers.map Watched.owed).sum

theorem owed_eq (w : Crew) : w.owed = w.abandoned + w.leaving - w.counting := by
  obtain ⟨workers, live⟩ := w
  simp only [owed, abandoned, leaving, counting]
  induction workers with
  | nil => rfl
  | cons s workers ih =>
    simp only [List.map_cons, List.sum_cons, List.countP_cons, ih, Watched.owed, Bool.toNat,
      Bool.cond_eq_ite]
    push_cast
    omega

variable {w w' : Crew}

structure Sound (w : Crew) : Prop where
  workers : ∀ s ∈ w.workers, s.Sound
  live : (w.live.toNat : Int) = w.owed % 2 ^ 64

theorem Sound.step (hw : w.Sound) (h : w.Step w') : w'.Sound := by
  cases h with
  | track =>
    refine ⟨fun s hs => ?_, ?_⟩
    · rcases List.mem_append.1 hs with hs | hs
      · exact hw.workers s hs
      · rw [List.mem_singleton.1 hs]
        exact ⟨fun _ => rfl, fun _ => rfl⟩
    · have howed : owed { w with workers := w.workers ++ [{}] } = w.owed := by
        rw [owed, List.map_append, List.sum_append]
        exact Int.add_zero _
      rw [howed]
      exact hw.live
  | act before after step =>
    rename_i s s' n n'
    have hs : s.Sound := hw.workers s (List.mem_append_right _ List.mem_cons_self)
    refine ⟨fun t ht => ?_, ?_⟩
    · rcases List.mem_append.1 ht with ht | ht
      · exact hw.workers t (List.mem_append_left _ ht)
      · rcases List.mem_cons.1 ht with rfl | ht
        · exact hs.step step
        · exact hw.workers t (List.mem_append_right _ (List.mem_cons_of_mem _ ht))
    · have hsum (t : Watched) (n : Abandoned) : owed ⟨before ++ t :: after, n⟩ =
          (before.map Watched.owed).sum + (t.owed + (after.map Watched.owed).sum) := by
        rw [owed, List.map_append, List.sum_append, List.map_cons, List.sum_cons]
      have hlive : (n.toNat : Int) = _ % 2 ^ 64 := hw.live
      have hstep := step.owed hs
      rw [hsum] at hlive ⊢
      show (n'.toNat : Int) = _
      omega

theorem Sound.of_reachable (h : w.Reachable) : w.Sound := by
  induction h with
  | refl => exact ⟨fun s hs => absurd hs List.not_mem_nil, rfl⟩
  | tail _ hstep ih => exact ih.step hstep

/-- With nothing in between, the steps of a call give up the worker and count it. -/
theorem steps_abandon (before after : List Watched) {s : Watched} (hs : s.counting = false)
    (n : Abandoned) :
    Relation.ReflTransGen Step ⟨before ++ s :: after, n⟩
      ⟨before ++ { s with phase := s.phase.abandon } :: after,
        Abandoned.afterAbandon s.phase n⟩ := by
  obtain ⟨hphase, hcount⟩ := Watched.exchange_count hs n
  have hexchange : Relation.ReflTransGen Step ⟨before ++ s :: after, n⟩
      ⟨before ++ s.exchange :: after, n⟩ := .single (.act before after .exchange)
  rw [← hcount, ← hphase]
  cases hcounting : s.exchange.counting with
  | true =>
    have hcounted := hexchange.tail (.act before after (.count hcounting))
    rwa [← hs] at hcounted
  | false =>
    have hsame : { s with phase := s.exchange.phase } = s.exchange := by
      rw [hs.trans hcounting.symm]
      rfl
    rw [hsame]
    exact hexchange

/-- Likewise those of the call at the worker's end. -/
theorem steps_finish (before after : List Watched) {s : Watched} (hs : s.leaving = false)
    (hphase : s.phase ≠ .finished) (n : Abandoned) :
    Relation.ReflTransGen Step ⟨before ++ s :: after, n⟩
      ⟨before ++ { s with phase := s.phase.finish } :: after,
        Abandoned.afterFinish s.phase n⟩ := by
  obtain ⟨hfinish, huncount⟩ := Watched.swap_uncount s n
  have hswap : Relation.ReflTransGen Step ⟨before ++ s :: after, n⟩
      ⟨before ++ s.swap :: after, n⟩ := .single (.act before after (.swap hphase))
  rw [← huncount, ← hfinish]
  cases hleaving : s.swap.leaving with
  | true =>
    have hleft := hswap.tail (.act before after (.uncount hleaving))
    rwa [← hs] at hleft
  | false =>
    have hsame : { s with phase := s.swap.phase } = s.swap := by
      rw [hs.trans hleaving.symm]
      rfl
    rw [hsame]
    exact hswap

theorem Sound.owed_mem (hw : w.Sound) :
    -(w.workers.length : Int) ≤ w.owed ∧ w.owed ≤ w.workers.length := by
  have hworkers := hw.workers
  unfold owed
  generalize w.workers = workers at hworkers
  induction workers with
  | nil => exact ⟨Int.le_refl 0, Int.le_refl 0⟩
  | cons s workers ih =>
    obtain ⟨hlow, hhigh⟩ := ih fun t ht => hworkers t (List.mem_cons_of_mem s ht)
    obtain ⟨hlow', hhigh'⟩ := (hworkers s List.mem_cons_self).owed_mem
    rw [List.map_cons, List.sum_cons, List.length_cons]
    omega

/-- Whatever calls have been made, the count is that of the abandoned workers and of those about to
be taken off it, less those about to be counted, as a word. As long as the workers are not too many
for a word, it is right when no call is half done, and within their number exactly if not more are
about to be counted than are abandoned or about to be taken off. Otherwise it starts over from the
largest word. A worker may also be given up, and may end, in one piece. -/
theorem live_of_reachable (h : w.Reachable) :
    (w.live.toNat : Int) = (w.abandoned + w.leaving - w.counting) % 2 ^ 64 ∧
      (w.workers.length < 2 ^ 63 →
        (w.counting = 0 → w.leaving = 0 → w.live.toNat = w.abandoned) ∧
        (w.live.toNat ≤ w.workers.length ↔ w.counting ≤ w.abandoned + w.leaving) ∧
        (w.abandoned + w.leaving < w.counting →
          w.live.toNat = 2 ^ 64 - (w.counting - (w.abandoned + w.leaving)))) ∧
      ∀ before s after, w.workers = before ++ s :: after →
        (s.counting = false → Relation.ReflTransGen Step w
          ⟨before ++ { s with phase := s.phase.abandon } :: after,
            Abandoned.afterAbandon s.phase w.live⟩) ∧
        (s.phase ≠ .finished → Relation.ReflTransGen Step w
          ⟨before ++ { s with phase := s.phase.finish } :: after,
            Abandoned.afterFinish s.phase w.live⟩) := by
  have hsound := Sound.of_reachable h
  have hlive := hsound.live
  obtain ⟨hlow, hhigh⟩ := hsound.owed_mem
  rw [w.owed_eq] at hlive hlow hhigh
  refine ⟨hlive, fun hlength => ⟨fun hcounting hleaving => ?_, ⟨fun hle => ?_, fun hle => ?_⟩,
    fun hlt => ?_⟩, fun before s after hworkers => ?_⟩
  · omega
  · by_contra hlt
    omega
  · omega
  · omega
  · have hs : s.Sound :=
      hsound.workers s (hworkers ▸ List.mem_append_right _ List.mem_cons_self)
    obtain ⟨workers, live⟩ := w
    obtain rfl : workers = before ++ s :: after := hworkers
    exact ⟨fun hcounting => steps_abandon before after hcounting live,
      fun hphase => steps_finish before after (hs.leaving hphase) hphase live⟩

/-- One worker is given up and counted. Another one ends after it was given up and before it was
counted. -/
theorem live_of_reachable_of_two :
    let w : Crew := ⟨[⟨.abandoned, false, false⟩, ⟨.finished, false, false⟩], 1⟩
    w.Reachable ∧ w.workers.length < 2 ^ 63 ∧ w.counting = 0 ∧ w.leaving = 0 ∧
      w.live.toNat = w.abandoned := by
  intro w
  have htrack : Reachable ⟨[{}, {}], 0⟩ :=
    .tail (.tail .refl (.track {})) (.track ⟨[{}], 0⟩)
  have hcounted : Reachable ⟨[⟨.abandoned, false, false⟩, {}], 1⟩ :=
    .tail (.tail htrack (.act [] [{}] .exchange)) (.act [] [{}] (.count rfl))
  have hended : Reachable ⟨[⟨.abandoned, false, false⟩, ⟨.finished, true, true⟩], 1⟩ :=
    .tail (.tail hcounted (.act [_] [] .exchange)) (.act [_] [] (.swap (by decide)))
  have hreach : w.Reachable :=
    .tail (.tail hended (.act [_] [] (.count rfl))) (.act [_] [] (.uncount rfl))
  have hlength : w.workers.length < 2 ^ 63 := by decide
  obtain ⟨hquiet, -⟩ := (live_of_reachable hreach).2.1 hlength
  exact ⟨hreach, hlength, rfl, rfl, hquiet rfl rfl⟩

/-- A worker that ends between the two steps by which it is given up takes itself off a count that
it is not yet on. Until the second step the sandbox of this one worker refuses all scripts. -/
theorem live_below_zero :
    let w : Crew := ⟨[⟨.finished, true, false⟩], 0 - 1⟩
    w.Reachable ∧ w.workers.length = 1 ∧ w.abandoned = 0 ∧ w.live.toNat = 2 ^ 64 - 1 ∧
      ∀ (limits : Limits) source, limits.validate source = .ok () →
        Sandbox.check { abandoned := w.live } limits source =
          .error (.overloaded (2 ^ 64 - 1)) := by
  intro w
  have hgiven : Reachable ⟨[⟨.abandoned, true, false⟩], 0⟩ :=
    .tail (.tail .refl (.track {})) (.act [] [] .exchange)
  have hreach : w.Reachable :=
    .tail (.tail hgiven (.act [] [] (.swap (by decide)))) (.act [] [] (.uncount rfl))
  refine ⟨hreach, rfl, rfl, by decide, fun limits source hvalid => ?_⟩
  have hle : limits.maxAbandoned ≤ w.live := by
    have hlt := limits.maxAbandoned.toNat_lt
    rw [UInt64.le_iff_toNat_le, show w.live.toNat = 2 ^ 64 - 1 by decide]
    omega
  simp only [Sandbox.check, hvalid, if_pos hle]
  rfl

end Crew

end FlowTree.Script
