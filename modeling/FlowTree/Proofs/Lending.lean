import Mathlib.Logic.Relation
import FlowTree.Proofs.Interleaving
import FlowTree.Proofs.Pool

/-!
# Contexts lent to runs

Many runs have the pool lend them contexts. It takes one of those that wait or, if there is none,
makes a new one, and then counts what it did; steps for other runs may come in between. So every
context that was made waits, is lent or was dropped, and every call that was answered is counted once
(`Balanced`), whatever runs do to their contexts in the meantime.
-/

namespace FlowTree

/-! ### Single loans -/

/-- How far the loan of a context is. -/
inductive Loan
  | asked
  /-- A context that waited was taken, and that is not counted yet. -/
  | taken (c : Context)
  /-- No context waited, and the new one is not counted yet. -/
  | missed
  | held (c : Context)
  | ended

namespace Loan

/-- A step of a loan. A run that holds a context may change it in any way. -/
inductive Step : Loan → Pool → Loan → Pool → Prop
  | take {p : Pool} (c : Context) (cs : List Context) (waiting : p.idle = c :: cs) :
    Step .asked p (.taken c) { p with idle := cs }
  | countTaken {p : Pool} (c : Context) :
    Step (.taken c) p (.held c) { p with reused := p.reused + 1 }
  | miss {p : Pool} (empty : p.idle = []) : Step .asked p .missed p
  | countMade {p : Pool} : Step .missed p (.held {}) { p with created := p.created + 1 }
  | change {p : Pool} (c c' : Context) : Step (.held c) p (.held c') p
  | release {p : Pool} (c : Context) : Step (.held c) p .ended (p.release c)

/-- A context is out of the pool. -/
def isLent : Loan → Bool
  | taken _ | held _ => true
  | _ => false

/-- The call for a context is over. -/
def isAnswered : Loan → Bool
  | held _ | ended => true
  | _ => false

variable {x x' : Loan} {p p' : Pool}

theorem Step.maxIdle (h : Step x p x' p') : p'.maxIdle = p.maxIdle := by
  cases h with
  | take | countTaken | miss | countMade | change => rfl
  | release c =>
    unfold Pool.release
    split <;> rfl

theorem Step.idle_le (h : Step x p x' p') (hp : p.idle.length ≤ p.maxIdle) :
    p'.idle.length ≤ p'.maxIdle := by
  cases h with
  | take c cs waiting =>
    rw [waiting, List.length_cons] at hp
    exact Nat.le_of_succ_le hp
  | countTaken | miss | countMade | change => exact hp
  | release c =>
    unfold Pool.release
    split
    · rename_i hlt
      exact hlt
    · exact hp

theorem Step.clean (h : Step x p x' p') (hp : p.Clean) : p'.Clean := by
  cases h with
  | take c cs waiting => exact fun d hd => hp d (waiting ▸ List.mem_cons_of_mem c hd)
  | countTaken | miss | countMade | change => exact hp
  | release c => exact hp.release c

/-- A step moves a context between the pool, the run and what was dropped, and makes one only where
it counts it. -/
theorem Step.contexts (h : Step x p x' p') :
    p'.idle.length + p'.dropped + x'.isLent.toNat + p.created =
      p.idle.length + p.dropped + x.isLent.toNat + p'.created := by
  cases h with
  | take c cs waiting =>
    simp only [waiting, List.length_cons, isLent, Bool.toNat_true, Bool.toNat_false]
    omega
  | countTaken | miss | change => rfl
  | countMade =>
    simp only [isLent, Bool.toNat_true, Bool.toNat_false]
    omega
  | release c =>
    unfold Pool.release
    split
    · simp only [List.length_cons, isLent, Bool.toNat_true, Bool.toNat_false]
      omega
    · simp only [isLent, Bool.toNat_true, Bool.toNat_false]
      omega

/-- A call is answered with the step that counts it. -/
theorem Step.answers (h : Step x p x' p') :
    p'.reused + p'.created + x.isAnswered.toNat = p.reused + p.created + x'.isAnswered.toNat := by
  cases h with
  | take | miss | change => rfl
  | countTaken | countMade =>
    simp only [isAnswered, Bool.toNat_true, Bool.toNat_false]
    omega
  | release c =>
    unfold Pool.release
    split <;> rfl

end Loan

/-! ### All loans of a pool -/

/-- The loans of a pool from the first one on, those that have ended included. -/
structure Lending where
  loans : List Loan := []
  pool : Pool

namespace Lending

inductive Step : Lending → Lending → Prop
  | ask (l : Lending) : Step l { l with loans := l.loans ++ [.asked] }
  | act (before after : List Loan) {x x' : Loan} {p p' : Pool} (step : x.Step p x' p') :
    Step ⟨before ++ x :: after, p⟩ ⟨before ++ x' :: after, p'⟩

/-- What a new pool and its loans get to. -/
def Reachable (prewarm maxIdle : Nat) (l : Lending) : Prop :=
  Relation.ReflTransGen Step { pool := .start prewarm maxIdle } l

/-- The contexts that are out of the pool. -/
def lent (l : Lending) : Nat :=
  l.loans.countP Loan.isLent

/-- The calls for a context that are over. -/
def answered (l : Lending) : Nat :=
  l.loans.countP Loan.isAnswered

/-- With nothing in between, the steps of a loan are those of `Pool.checkout`. -/
theorem steps_checkout (loans : List Loan) (p : Pool) :
    Relation.ReflTransGen Step ⟨loans, p⟩ ⟨loans ++ [.held p.checkout.1], p.checkout.2⟩ := by
  have hask : Relation.ReflTransGen Step ⟨loans, p⟩ ⟨loans ++ [.asked], p⟩ :=
    .single (.ask ⟨loans, p⟩)
  unfold Pool.checkout
  split
  · rename_i c cs hidle
    exact (hask.tail (.act loans [] (.take c cs hidle))).tail (.act loans [] (.countTaken c))
  · rename_i hidle
    exact (hask.tail (.act loans [] (.miss hidle))).tail (.act loans [] .countMade)

/-- Every context made waits, is lent or was dropped, and every answered call is counted. -/
structure Balanced (prewarm maxIdle : Nat) (l : Lending) : Prop where
  limit : l.pool.maxIdle = maxIdle
  idle_le : l.pool.idle.length ≤ l.pool.maxIdle
  clean : l.pool.Clean
  contexts : l.pool.created = l.pool.idle.length + l.pool.dropped + l.lent
  answers : l.answered + min prewarm maxIdle = l.pool.reused + l.pool.created

variable {prewarm maxIdle : Nat} {l l' : Lending}

theorem balanced_start (prewarm maxIdle : Nat) :
    Balanced prewarm maxIdle { pool := .start prewarm maxIdle } := by
  have hidle : (Pool.start prewarm maxIdle).idle.length = min prewarm maxIdle :=
    List.length_replicate
  refine ⟨rfl, ?_, Pool.clean_start prewarm maxIdle, ?_, rfl⟩
  · rw [hidle]
    exact Nat.min_le_right prewarm maxIdle
  · show min prewarm maxIdle = (Pool.start prewarm maxIdle).idle.length + 0 + 0
    rw [hidle]
    rfl

theorem Balanced.step (hl : Balanced prewarm maxIdle l) (h : Step l l') :
    Balanced prewarm maxIdle l' := by
  obtain ⟨hmax, hidle, hclean, hcontexts, hanswers⟩ := hl
  cases h with
  | ask =>
    refine ⟨hmax, hidle, hclean, ?_, ?_⟩
    · rw [lent, List.countP_append]
      exact hcontexts
    · rw [answered, List.countP_append]
      exact hanswers
  | act before after step =>
    refine ⟨step.maxIdle.trans hmax, step.idle_le hidle, step.clean hclean, ?_, ?_⟩
    · have hmoved := step.contexts
      simp only [lent, countP_act] at hcontexts ⊢
      omega
    · have hcounted := step.answers
      simp only [answered, countP_act] at hanswers ⊢
      omega

theorem Reachable.balanced (h : l.Reachable prewarm maxIdle) : l.Balanced prewarm maxIdle := by
  induction h with
  | refl => exact balanced_start prewarm maxIdle
  | tail _ hstep ih => exact ih.step hstep

/-- At any moment no more contexts wait than may, all of them as new, and each context made waits, is
lent or was dropped. The answered calls are those counted as taking a context that waited and those
counted as making one, as which the contexts made beforehand are counted too. To check a context out
in one piece and to give it back are ways to go on. -/
theorem conserved (h : l.Reachable prewarm maxIdle) :
    l.pool.idle.length ≤ maxIdle ∧
      (∀ c ∈ l.pool.idle, c.isClean = true) ∧
      l.pool.created = l.pool.idle.length + l.pool.dropped + l.lent ∧
      l.answered + min prewarm maxIdle = l.pool.reused + l.pool.created ∧
      ((∀ x ∈ l.loans, x = .ended) →
        l.pool.created = l.pool.idle.length + l.pool.dropped ∧ l.answered = l.loans.length) ∧
      Relation.ReflTransGen Step l ⟨l.loans ++ [.held l.pool.checkout.1], l.pool.checkout.2⟩ ∧
      ∀ before c after, l.loans = before ++ .held c :: after →
        l.Step ⟨before ++ .ended :: after, l.pool.release c⟩ := by
  obtain ⟨hlimit, hidle, hclean, hcontexts, hanswers⟩ := h.balanced
  refine ⟨hlimit ▸ hidle, fun c hc => ?_, hcontexts, hanswers, fun hended => ⟨?_, ?_⟩,
    steps_checkout l.loans l.pool, fun before c after hloans => ?_⟩
  · rw [hclean c hc]
    exact Context.isClean_reset {}
  · have hlent : l.lent = 0 := by
      refine List.countP_eq_zero.2 fun x hx => ?_
      rw [hended x hx]
      exact Bool.false_ne_true
    rw [hcontexts, hlent, Nat.add_zero]
  · refine List.countP_eq_length.2 fun x hx => ?_
    rw [hended x hx]
    rfl
  · obtain ⟨loans, pool⟩ := l
    obtain rfl : loans = before ++ .held c :: after := hloans
    exact .act before after (.release c)

/-- Two runs ask a pool with one context that waits. One of them takes it, and before that is counted
the other one finds none. Both change their contexts and give them back, and one is dropped. -/
theorem conserved_of_two :
    let pool : Pool := { maxIdle := 1, idle := [{}], created := 2, reused := 1, dropped := 1 }
    let l : Lending := { loans := [.ended, .ended], pool }
    l.Reachable 2 1 ∧ (∀ x ∈ l.loans, x = .ended) ∧
      l.pool.created = l.pool.idle.length + l.pool.dropped ∧ l.answered = 2 := by
  intro pool l
  let changed : Context := { flowId := "f", stopped := true, callDepth := 3 }
  have hasked : Reachable 2 1 ⟨[.asked, .asked], .start 2 1⟩ :=
    (Relation.ReflTransGen.single (.ask _)).tail (.ask _)
  have htaken := hasked.tail (.act [] [.asked] (.take {} [] rfl))
  have hmissed := htaken.tail (.act [_] [] (.miss rfl))
  have hheld := (hmissed.tail (.act [_] [] .countMade)).tail (.act [] [_] (.countTaken {}))
  have hchanged := (hheld.tail (.act [] [_] (.change {} changed))).tail
    (.act [_] [] (.change {} changed))
  have hended : l.Reachable 2 1 :=
    (hchanged.tail (.act [] [_] (.release changed))).tail (.act [_] [] (.release changed))
  have hall : ∀ x ∈ l.loans, x = .ended := by
    intro x hx
    rcases List.mem_cons.1 hx with rfl | hx
    · rfl
    · exact List.mem_singleton.1 hx
  obtain ⟨-, -, -, -, hfinal, -⟩ := conserved hended
  exact ⟨hended, hall, hfinal hall⟩

end Lending

end FlowTree
